import ForgeAlloc.Hardening.GuardPage
import ForgeAlloc.Library.Run

set_option autoImplicit false

/-! # Runs of a `GuardPage`

A run requests, resizes and frees blocks. Nothing is ever reused, so what is said of the blocks is
said of all that were ever issued, freed or not.

The guards are never accessible. But the system changes whole pages: with guards that are not whole
pages of the system, bytes between the guards become inaccessible as well, and blocks are cut from
them (`guardPage_correct`).
-/

namespace ForgeAlloc

open MachineInt ByteMemory Paging

namespace GuardPage

variable {w : Nat} {σ : Type}

/-! ## The contract -/

/-- The arena between the guards. -/
def toArena (g : GuardPage σ) : BumpArena (GuardPage σ) :=
  ⟨{ g with cursor := 0 }, g.usableSize, g.cursor⟩

def selfArena (σ : Type) : SelfArena (range σ) toArena where
  commit := fun _ _ g => (true, g)
  advance := fun endOff g => { g with cursor := endOff }
  commit_eq := fun _ _ _ => rfl
  toArena_commit := fun _ _ _ => rfl
  toArena_advance := fun _ _ => rfl

theorem allocate_eq (l : NonZeroLayout w) (h : Heap (GuardPage σ)) :
    allocate l h = (selfArena σ).allocate l h := rfl

/-- **`GuardPage::allocate` is `BumpArena::allocate`** over the range between the guards. -/
theorem allocate_toArena (l : NonZeroLayout w) (h : Heap (GuardPage σ)) :
    BumpArena.allocate (range σ) l (h.map toArena) =
      ((allocate l h).1, (allocate l h).2.map toArena) := by
  rw [allocate_eq]
  exact (selfArena σ).allocate_toArena l h

/-- A request changes the cursor only. -/
theorem allocate_frame (l : NonZeroLayout w) (h : Heap (GuardPage σ)) :
    (allocate l h).2.alloc.base = h.alloc.base ∧
      (allocate l h).2.alloc.usableSize = h.alloc.usableSize ∧ (allocate l h).2.mem = h.mem := by
  unfold allocate
  split
  · exact ⟨rfl, rfl, rfl⟩
  · exact ⟨rfl, rfl, rfl⟩

/-- What holds of a value with its usable range at `base` whose blocks `L` are out. -/
def Holds (w base : Nat) (h : Heap (GuardPage σ)) (L : Set (Grant w)) : Prop :=
  BumpArena.Holds (range σ) base (h.map toArena) L

theorem honoursCore {base : Nat} (hbase : 0 < base) :
    HonoursCore (allocator w σ) (Holds w base) :=
  (BumpArena.honoursCore (range_lawful σ) base hbase).comap toArena allocate_toArena
    fun _ _ _ => rfl

/-- **`GuardPage` meets the `Allocator` contract**, and its blocks lie between the guards. -/
theorem honours {base : Nat} (hbase : 0 < base) :
    HonoursRange (allocator w σ) (range σ) (Holds w base) := by
  have harena := BumpArena.honours (w := w) (range_lawful σ) base hbase
  exact
    { (honoursCore hbase).withDefaults rfl rfl (fun _ _ heq => by cases heq) with
      base_le := fun hinv hg => harena.base_le hinv hg
      le_end := fun hinv hg => harena.le_end hinv hg
      base_pos := fun hinv => harena.base_pos hinv
      end_le := fun hinv => harena.end_le hinv
      base_allocate := fun {h _ l} _ => (allocate_frame l h).1
      base_deallocate := fun _ _ => rfl }

end GuardPage

/-! ## Runs -/

structure GuardPageRun (w : Nat) (σ : Type) where
  heap : Heap (GuardPage σ)
  /-- All blocks that were ever issued, the newest first. -/
  issued : List (Grant w)

inductive GuardPageOp (w : Nat)
  | allocate (l : NonZeroLayout w)
  /-- Resize the block number `i`, counted from the newest. -/
  | resize (r : Resize) (i : Nat) (new : NonZeroLayout w)
  /-- Free the block number `i`. -/
  | deallocate (i : Nat)

namespace GuardPageRun

variable {w : Nat} {σ : Type}

/-- The state after a call that issues a block for `l`, or fails. -/
def answered (s : GuardPageRun w σ) (l : NonZeroLayout w)
    (result : Option Block × Heap (GuardPage σ)) : GuardPageRun w σ :=
  ⟨result.2, (result.1.toList.map fun b => ⟨b, l⟩) ++ s.issued⟩

def step (s : GuardPageRun w σ) : GuardPageOp w → Option (GuardPageRun w σ)
  | .allocate l => some (s.answered l (GuardPage.allocate l s.heap))
  | .resize r i new => do
      let g ← s.issued[i]?
      if r.Legal g.layout new then
        some (s.answered new (r.call (GuardPage.allocator w σ) g.block.ptr g.layout new s.heap))
      else none
  | .deallocate i => do
      let g ← s.issued[i]?
      some ⟨(GuardPage.allocator w σ).deallocate g.block.ptr g.layout s.heap, s.issued⟩

variable {s s' : GuardPageRun w σ} {base size : Nat}

/-- What is kept by a run over the usable range of `size` bytes at `base`. -/
structure Inv (base size : Nat) (s : GuardPageRun w σ) : Prop where
  holds : GuardPage.Holds w base s.heap {g | g ∈ s.issued}
  base_eq : s.heap.alloc.base = base
  size_eq : s.heap.alloc.usableSize = size
  nodup : s.issued.Nodup

theorem Inv.base_pos (hi : Inv base size s) : 0 < base := hi.base_eq ▸ s.heap.alloc.base_pos

/-- A request that fails. -/
theorem Inv.allocate_none (hi : Inv base size s) {l : NonZeroLayout w} {h' : Heap (GuardPage σ)}
    (hcall : (GuardPage.allocator w σ).allocate l s.heap = (none, h')) :
    Inv base size (s.answered l (none, h')) := by
  have hun := (GuardPage.honoursCore hi.base_pos).allocate_none hi.holds hcall
  obtain ⟨hbase, hsize, -⟩ := GuardPage.allocate_frame l s.heap
  rw [show GuardPage.allocate l s.heap = (none, h') from hcall] at hbase hsize
  exact ⟨hun.inv, hbase.trans hi.base_eq, hsize.trans hi.size_eq, hi.nodup⟩

/-- A request that is served, and a copy of `n` bytes into the new block. -/
theorem Inv.allocate_some (hi : Inv base size s) {l : NonZeroLayout w} {h' : Heap (GuardPage σ)}
    {b : Block} (hcall : (GuardPage.allocator w σ).allocate l s.heap = (some b, h')) (src : Nat)
    {n : Nat} (hn : n ≤ l.size) :
    Inv base size (s.answered l (some b, ⟨h'.alloc, copyBytes h'.mem src b.ptr n⟩)) := by
  have hA := GuardPage.honoursCore (w := w) (σ := σ) hi.base_pos
  have hiss := hA.allocate_some hi.holds hcall
  have hinv := hA.copy_inv hi.holds src hn hcall
  rw [← List.setOfPred_mem_cons] at hinv
  obtain ⟨hbase, hsize, -⟩ := GuardPage.allocate_frame l s.heap
  rw [show GuardPage.allocate l s.heap = (some b, h') from hcall] at hbase hsize
  refine ⟨hinv, hbase.trans hi.base_eq, hsize.trans hi.size_eq, ?_⟩
  refine List.nodup_cons.mpr ⟨fun hmem => ?_, hi.nodup⟩
  -- the new block is disjoint from all others, so it is none of them
  have hsat := hA.allocate_satisfies hi.holds hcall
  exact not_disjoint_self hsat.len_pos (hiss.fresh ⟨b, l⟩ hmem)

theorem inv_step (op : GuardPageOp w) (hi : Inv base size s) (hstep : step s op = some s') :
    Inv base size s' := by
  cases op with
  | allocate l =>
      cases hstep
      rcases hcall : GuardPage.allocate l s.heap with ⟨_ | b, h'⟩
      · exact hi.allocate_none hcall
      · have hnext := hi.allocate_some hcall 0 (Nat.zero_le _)
        have hmem : copyBytes h'.mem 0 b.ptr 0 = h'.mem :=
          funext fun x => copyBytes_of_not_mem (by omega)
        rwa [hmem] at hnext
  | resize r i new =>
      simp only [step, Option.bind_eq_bind, Option.bind_eq_some_iff] at hstep
      obtain ⟨g, -, hstep⟩ := hstep
      split at hstep
      case isFalse => cases hstep
      case isTrue hlegal =>
          cases hstep
          rcases hcall : (GuardPage.allocator w σ).allocate new s.heap with ⟨_ | b, h'⟩
          · rw [Resize.call_of_none rfl rfl _ hcall]
            exact hi.allocate_none hcall
          · rw [Resize.call_of_some rfl rfl _ hlegal hcall]
            exact hi.allocate_some hcall g.block.ptr (min_le_right _ _)
  | deallocate i =>
      simp only [step, Option.bind_eq_bind, Option.bind_eq_some_iff, Option.some.injEq] at hstep
      obtain ⟨g, -, rfl⟩ := hstep
      exact hi

/-- A new value. -/
def init (w : Nat) (g : GuardPage σ) (m : Mem) : GuardPageRun w σ := ⟨⟨g, m⟩, []⟩

theorem inv_init {g : GuardPage σ} (hend : g.base + g.usableSize < 2 ^ w) (hcursor : g.cursor = 0)
    (m : Mem) : Inv g.base g.usableSize (init w g m) where
  holds := by
    have hsound : BumpArena.Sound w (GuardPage.range σ) g.base g.toArena :=
      { base_eq := rfl, end_lt := hend, cursor_le := hcursor.trans_le (Nat.zero_le _) }
    have hempty : {e : Grant w | e ∈ ([] : List (Grant w))} = ∅ := Set.ext fun _ => by simp
    show GuardPage.Holds w g.base ⟨g, m⟩ {e | e ∈ []}
    rw [hempty]
    exact BumpArena.holds_empty hsound m
  base_eq := rfl
  size_eq := rfl
  nodup := List.nodup_nil

theorem inv_run {ops : List (GuardPageOp w)} (hi : Inv base size s)
    (hrun : Machine.run step s ops = some s') : Inv base size s' :=
  Machine.run_invariant (P := Inv base size) (fun _ op _ hi hstep => inv_step op hi hstep) hi hrun

/-- **The blocks of a run**: aligned, as long as requested, between the guards and disjoint. -/
theorem Inv.blocks (hi : Inv base size s) :
    (∀ e ∈ s.issued, e.layout.align ∣ e.block.ptr ∧ e.block.len = e.layout.size ∧
      base ≤ e.block.ptr ∧ e.block.ptr + e.block.len ≤ base + size) ∧
    s.issued.Pairwise fun e e' => Disjoint e.block.bytes e'.block.bytes := by
  constructor
  · intro e he
    have hle := hi.holds.le_cursor e he
    have hcursor : s.heap.alloc.cursor ≤ s.heap.alloc.usableSize := hi.holds.sound.cursor_le
    have hend : base + s.heap.alloc.cursor ≤ base + size := by
      rw [← hi.size_eq]
      omega
    exact ⟨hi.holds.aligned e he, hi.holds.len_eq e he, hi.holds.base_le e he, hle.trans hend⟩
  · refine hi.nodup.imp_of_mem fun {e e'} he he' hne => ?_
    exact hi.holds.disjoint he he' hne

/-- The one subtraction of a request does not wrap around. -/
theorem Inv.le_aligned (hi : Inv base size s) (l : NonZeroLayout w) {raw padded : Nat}
    (hraw : checkedAdd w s.heap.alloc.base s.heap.alloc.cursor = some raw)
    (hpadded : checkedAdd w raw (l.align - 1) = some padded) :
    s.heap.alloc.base ≤ maskDown w padded l.align := by
  obtain ⟨-, rfl⟩ := checkedAdd_eq_some.mp hraw
  obtain ⟨hlt, rfl⟩ := checkedAdd_eq_some.mp hpadded
  obtain ⟨k, hk⟩ := l.align_pow
  rw [hk] at hlt ⊢
  refine le_maskDown_add ?_ hlt
  have hpow : (2 : Nat) ^ k < 2 ^ w := by
    have hpos := hi.base_pos
    have hbase := hi.base_eq
    omega
  exact ((Nat.pow_lt_pow_iff_right (by decide)).mp hpow).le

end GuardPageRun

namespace GuardPage

open GuardPageRun

variable {w : Nat} {σ : Type} {os : Os} {O : OsBacked σ} {inner : σ} {pageSize : Nat}
  {s s' : OsPages} {g : GuardPage σ}

/-! ## What the guards reach -/

/-- The system's pages end and start where the guards do. -/
def Fitting (os : Os) (O : OsBacked σ) (inner : σ) (pageSize : Nat) : Prop :=
  os.pageSize ∣ O.basePtr inner + pageSize ∧
    os.pageSize ∣ O.basePtr inner + (O.regionSize inner - pageSize)

/-- In a region of whole pages the guards fit if they are not smaller than a page. -/
theorem fitting_iff (hacc : Accepted w O inner pageSize) (hbase : os.pageSize ∣ O.basePtr inner)
    (hsize : os.pageSize ∣ O.regionSize inner) :
    Fitting os O inner pageSize ↔ os.pageSize ≤ pageSize := by
  obtain ⟨k, hk⟩ := hacc.pow
  have hpos : 0 < pageSize := hk ▸ Nat.two_pow_pos k
  constructor
  · rintro ⟨hhead, -⟩
    exact Nat.le_of_dvd hpos ((Nat.dvd_add_right hbase).mp hhead)
  · intro hle
    have hdvd := dvd_of_le_of_isPowerOfTwo os.pageSize_pow hacc.pow hle
    exact ⟨Nat.dvd_add hbase hdvd, Nat.dvd_add hbase (Nat.dvd_sub hsize hdvd)⟩

/-- The bytes of the guards cannot be accessed. -/
def Guarded (os : Os) (O : OsBacked σ) (inner : σ) (pageSize : Nat) (s : OsPages) : Prop :=
  ∀ x, x ∈ (head O inner pageSize).bytes ∨ x ∈ (tail O inner pageSize).bytes → s.Inaccessible os x

/-- The bytes between the guards can be accessed, and so can those of every block of every run. -/
def Usable (w : Nat) (os : Os) (g : GuardPage σ) (s : OsPages) : Prop :=
  (∀ x, g.base ≤ x → x < g.base + g.usableSize → s.Accessible os x) ∧
    ∀ m ops r, Machine.run step (init w g m) ops = some r →
      ∀ e ∈ r.issued, ∀ x ∈ e.block.bytes, ¬ s.Inaccessible os x

theorem guarded_of_rights (hrights : s'.rights =
      setRights os.pageSize (tail O inner pageSize) ProtectFlags.noAccess
        (setRights os.pageSize (head O inner pageSize) ProtectFlags.noAccess s.rights)) :
    Guarded os O inner pageSize s' := by
  intro x hx
  have hP := os.pageSize_pos
  unfold OsPages.Inaccessible
  rw [hrights]
  by_cases htail : Touches os.pageSize (tail O inner pageSize) x
  · exact (setRights_div hP).1 htail
  · rw [(setRights_div hP).2 htail]
    rcases hx with hx | hx
    · exact (setRights_div hP).1 (touches_of_mem hx)
    · exact absurd (touches_of_mem hx) htail

/-- A byte stays accessible if neither guard shares its page. -/
theorem accessible_iff (hrights : s'.rights =
      setRights os.pageSize (tail O inner pageSize) ProtectFlags.noAccess
        (setRights os.pageSize (head O inner pageSize) ProtectFlags.noAccess s.rights)) {x : Nat}
    (hx : s.Accessible os x) :
    s'.Accessible os x ↔ ¬ Touches os.pageSize (head O inner pageSize) x ∧
      ¬ Touches os.pageSize (tail O inner pageSize) x := by
  have hP := os.pageSize_pos
  have hno : ∀ {rights : Nat → ProtectFlags}, rights (x / os.pageSize) = ProtectFlags.noAccess →
      ¬ ((rights (x / os.pageSize)).read = true ∧ (rights (x / os.pageSize)).write = true) := by
    intro rights heq
    rw [heq]
    exact fun h => Bool.false_ne_true h.1
  unfold OsPages.Accessible
  rw [hrights]
  by_cases htail : Touches os.pageSize (tail O inner pageSize) x
  · exact iff_of_false (hno ((setRights_div hP).1 htail)) fun h => h.2 htail
  rw [(setRights_div hP).2 htail]
  by_cases hhead : Touches os.pageSize (head O inner pageSize) x
  · exact iff_of_false (hno ((setRights_div hP).1 hhead)) fun h => h.1 hhead
  · rw [(setRights_div hP).2 hhead]
    exact iff_of_true hx ⟨hhead, htail⟩

/-- The bytes between the guards stay accessible exactly when the guards fit. -/
theorem usable_iff_fitting (hacc : Accepted w O inner pageSize)
    (haccess : ∀ x, O.basePtr inner ≤ x → x < O.basePtr inner + O.regionSize inner →
      s.Accessible os x)
    (hrights : s'.rights =
      setRights os.pageSize (tail O inner pageSize) ProtectFlags.noAccess
        (setRights os.pageSize (head O inner pageSize) ProtectFlags.noAccess s.rights))
    (hbase : g.base = O.basePtr inner + pageSize)
    (hsize : g.usableSize = O.regionSize inner - 2 * pageSize) :
    (∀ x, g.base ≤ x → x < g.base + g.usableSize → s'.Accessible os x) ↔
      Fitting os O inner pageSize := by
  have hP := os.pageSize_pos
  have hroom := hacc.room
  have hpos : 0 < pageSize := by
    obtain ⟨k, hk⟩ := hacc.pow
    exact hk ▸ Nat.two_pow_pos k
  have hend : g.base + g.usableSize = (tail O inner pageSize).ptr := by
    show _ = O.basePtr inner + (O.regionSize inner - pageSize)
    omega
  have hgap : (head O inner pageSize).ptr + (head O inner pageSize).len <
      (tail O inner pageSize).ptr := by
    show O.basePtr inner + pageSize < O.basePtr inner + (O.regionSize inner - pageSize)
    omega
  have hin : ∀ x, g.base ≤ x → x < g.base + g.usableSize → s.Accessible os x := by
    intro x hlow hhigh
    exact haccess x (by omega) (by omega)
  have hhead := end_untouched_iff hP (b := head O inner pageSize) hpos hgap
  have htail := start_untouched_iff hP (b := tail O inner pageSize) hpos hgap
  rw [Fitting]
  constructor
  · intro hall
    have hfree := fun x hlow hhigh =>
      (accessible_iff hrights (hin x hlow hhigh)).mp (hall x hlow hhigh)
    rw [hend, hbase] at hfree
    exact ⟨hhead.mp fun x hlow hhigh => (hfree x hlow hhigh).1,
      htail.mp fun x hlow hhigh => (hfree x hlow hhigh).2⟩
  · rintro ⟨hdvd, hdvd'⟩ x hlow hhigh
    refine (accessible_iff hrights (hin x hlow hhigh)).mpr ⟨?_, ?_⟩
    · exact hhead.mpr hdvd x (hbase ▸ hlow) (hend ▸ hhigh)
    · exact htail.mpr hdvd' x (hbase ▸ hlow) (hend ▸ hhigh)

/-- **`GuardPage` over a mapping.** A call that the system declines makes the construction fail. If
the construction succeeds then

* its sizes are exact: the guards and the range between them make up the region, which ends inside
  the address space, and no subtraction of a request wraps around;
* the first and the last `page_size` bytes cannot be accessed;
* the blocks of every run are aligned, between the guards and pairwise disjoint;
* what lies between the guards stays accessible, and no run issues a byte that is not, exactly when
  the pages of the system end and start where the guards do. In a region of whole pages this is so
  exactly when `page_size` is not smaller than the page size of the system. -/
theorem guardPage_correct (hO : O.Lawful w os inner)
    (haccess : ∀ x, O.basePtr inner ≤ x → x < O.basePtr inner + O.regionSize inner →
      s.Accessible os x) :
    ((∀ s₁, O.protect inner (head O inner pageSize) ProtectFlags.noAccess s.clearLastOsError =
          (false, s₁) → (new w O inner pageSize s).1 = none) ∧
        ∀ s₁ s₂,
          O.protect inner (head O inner pageSize) ProtectFlags.noAccess s.clearLastOsError =
            (true, s₁) →
          O.protect inner (tail O inner pageSize) ProtectFlags.noAccess s₁ = (false, s₂) →
          (new w O inner pageSize s).1 = none) ∧
      ∀ g s', new w O inner pageSize s = (some g, s') →
        (g.base = O.basePtr inner + pageSize ∧
          g.base + g.usableSize + pageSize = O.basePtr inner + O.regionSize inner ∧
          O.basePtr inner + O.regionSize inner ≤ 2 ^ w) ∧
        Guarded os O inner pageSize s' ∧
        (∀ m ops r, Machine.run step (init w g m) ops = some r →
          (∀ e ∈ r.issued, e.layout.align ∣ e.block.ptr ∧ e.block.len = e.layout.size ∧
            g.base ≤ e.block.ptr ∧ e.block.ptr + e.block.len ≤ g.base + g.usableSize) ∧
          r.issued.Pairwise (fun e e' => Disjoint e.block.bytes e'.block.bytes) ∧
          ∀ (l : NonZeroLayout w) raw padded,
            checkedAdd w r.heap.alloc.base r.heap.alloc.cursor = some raw →
            checkedAdd w raw (l.align - 1) = some padded →
            r.heap.alloc.base ≤ maskDown w padded l.align) ∧
        (Usable w os g s' ↔ Fitting os O inner pageSize) ∧
        (os.pageSize ∣ O.basePtr inner → os.pageSize ∣ O.regionSize inner →
          (Usable w os g s' ↔ os.pageSize ≤ pageSize)) := by
  refine ⟨new_eq_none_of_failed hO, fun g s' hnew => ?_⟩
  obtain ⟨hacc, -, hrights, hbase, hsize, hcursor⟩ := new_eq_some hO hnew
  have hroom := hacc.room
  have hend := hO.end_le
  have hspace : g.base + g.usableSize < 2 ^ w := by
    obtain ⟨k, hk⟩ := hacc.pow
    have hpos : 0 < pageSize := hk ▸ Nat.two_pow_pos k
    omega
  have hrun : ∀ {m ops r}, Machine.run step (init w g m) ops = some r →
      Inv g.base g.usableSize r :=
    fun hrun => inv_run (inv_init hspace hcursor _) hrun
  have husable : Usable w os g s' ↔ Fitting os O inner pageSize := by
    have hbytes := usable_iff_fitting (g := g) hacc haccess hrights hbase hsize
    constructor
    · exact fun h => hbytes.mp h.1
    · intro hfits
      refine ⟨hbytes.mpr hfits, fun m ops r hr e he x hx => ?_⟩
      -- a block lies between the guards
      obtain ⟨-, -, hlow, hhigh⟩ := (hrun hr).blocks.1 e he
      rw [Block.mem_bytes] at hx
      intro hno
      exact OsPages.not_accessible hno (hbytes.mpr hfits x (by omega) (by omega))
  refine ⟨⟨hbase, by omega, hend⟩, guarded_of_rights hrights, fun m ops r hr => ?_, husable,
    fun hpage hpages => husable.trans (fitting_iff hacc hpage hpages)⟩
  exact ⟨(hrun hr).blocks.1, (hrun hr).blocks.2, fun l raw padded hraw hpadded =>
    (hrun hr).le_aligned l hraw hpadded⟩

/-! ## A mapping of 16 KiB on Windows -/

def windows4k : Os := ⟨true, 4096, isPowerOfTwo_smallPage⟩

def mapping16k : MmapBacked := ⟨131072, 16384, 0, 16384, ⟨[], [⟨131072, 16384⟩]⟩, by decide⟩

/-- All pages can be read and written, and the system grants every call. -/
def allGranted : OsPages := ⟨fun _ => ProtectFlags.rw, none, []⟩

theorem mapping16k_lawful : (MmapBacked.osBacked windows4k).Lawful 64 windows4k mapping16k :=
  MmapBacked.osBacked_lawful (by decide)

def bytes8 : NonZeroLayout 64 := .lit 64 8 8 (Eq.refl true)

/-- Guards of a whole page leave the two pages between them as they are. -/
theorem guardPage_correct_4096 :
    ∃ g s', new 64 (MmapBacked.osBacked windows4k) mapping16k 4096 allGranted = (some g, s') ∧
      Guarded windows4k (MmapBacked.osBacked windows4k) mapping16k 4096 s' ∧
      Usable 64 windows4k g s' := by
  have haccess : ∀ x, 131072 ≤ x → x < 131072 + 16384 → allGranted.Accessible windows4k x :=
    fun _ _ _ => ⟨rfl, rfl⟩
  have hsome : (new 64 (MmapBacked.osBacked windows4k) mapping16k 4096 allGranted).1.isSome := by
    decide +kernel
  obtain ⟨g, hg⟩ := Option.isSome_iff_exists.mp hsome
  have hnew : new 64 (MmapBacked.osBacked windows4k) mapping16k 4096 allGranted = (some g, _) :=
    Prod.ext hg rfl
  obtain ⟨-, hguarded, -, -, hiff⟩ := (guardPage_correct mapping16k_lawful haccess).2 g _ hnew
  exact ⟨g, _, hnew, hguarded, (hiff (by decide) (by decide)).mpr le_rfl⟩

/-- **Guards of 512 bytes.** The system changes the whole first page, and the first block of eight
bytes is cut from it. -/
theorem new_512_inaccessible :
    ∃ g s' r, new 64 (MmapBacked.osBacked windows4k) mapping16k 512 allGranted = (some g, s') ∧
      Machine.run step (init 64 g fun _ => 0) [.allocate bytes8] = some r ∧
      r.issued = [⟨⟨131584, 8⟩, bytes8⟩] ∧ g.base = 131584 ∧
      ∀ x ∈ (⟨131584, 8⟩ : Block).bytes, s'.Inaccessible windows4k x := by
  have hresult : ((new 64 (MmapBacked.osBacked windows4k) mapping16k 512 allGranted).1.bind fun g =>
      (Machine.run step (init 64 g fun _ => 0) [.allocate bytes8]).map fun r =>
        (r.issued, g.base)) = some ([⟨⟨131584, 8⟩, bytes8⟩], 131584) := by decide +kernel
  obtain ⟨g, hg, hrest⟩ := Option.bind_eq_some_iff.mp hresult
  obtain ⟨r, hrun, hr⟩ := Option.map_eq_some_iff.mp hrest
  refine ⟨g, _, r, Prod.ext hg rfl, hrun, congrArg Prod.fst hr, congrArg Prod.snd hr, ?_⟩
  intro x hx
  -- all eight bytes are in the page number 32
  have hpage : x / 4096 = 131584 / 4096 := by
    rw [Block.mem_bytes] at hx
    simp only at hx
    omega
  show (new 64 (MmapBacked.osBacked windows4k) mapping16k 512 allGranted).2.rights (x / 4096) = _
  rw [hpage]
  decide +kernel

end GuardPage

end ForgeAlloc
