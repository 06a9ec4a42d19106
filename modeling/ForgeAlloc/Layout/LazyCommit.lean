import ForgeAlloc.Backing.LazyCommit
import ForgeAlloc.Layout.StackAlloc
import ForgeAlloc.Library.Run

set_option autoImplicit false

/-! # Allocators over a lazily committed mapping

A client is the mapping itself, or a `BumpArena` or a `StackAlloc` over a range that forwards its
commits to the mapping (`Forwards`). Its calls come in any order, with commits of any part of the
range between them, and the system declines what it likes.

`Served` is what a request may do: the watermark witnesses what is committed, the block is below
it, and a request that was declined fails and leaves the cursor and the frames. It is shown once of
each entry point; the run only adds them up.
-/

namespace ForgeAlloc

open MachineInt ByteMemory MmapBacked

/-! ## Clients and their calls -/

inductive LazyClient (β : Type)
  | mapping (s : MmapBacked)
  | arena (a : BumpArena β)
  | stack (a : DebugStack β)

/-- A call that hands out a block or fails. The pointer of a resize may be any address. -/
inductive LazyRequest (w : Nat)
  | allocate (l : NonZeroLayout w)
  | grow (ptr : Nat) (old new : NonZeroLayout w)
  | shrink (ptr : Nat) (old new : NonZeroLayout w)
  | allocUninit (T : RustType w)
  | allocSliceCopy (T : RustType w) (src : Slice T)

inductive LazyCall (w : Nat)
  | request (q : LazyRequest w)
  | deallocate (ptr : Nat) (l : NonZeroLayout w)
  | commit (off len : Nat)
  | rewindTo (mark : Nat)
  | reset

structure LazyRun (β : Type) where
  client : LazyClient β
  mem : Mem
  /-- Every block that was ever handed out. -/
  issued : List Block

variable {w : Nat} {β : Type}

namespace LazyRequest

/-- A pointer is an address. -/
def PtrInSpace : LazyRequest w → Prop
  | .grow ptr _ _ => ptr < 2 ^ w
  | .shrink ptr _ _ => ptr < 2 ^ w
  | _ => True

instance (q : LazyRequest w) : Decidable q.PtrInSpace := by
  cases q <;> unfold PtrInSpace <;> infer_instance

/-- The requests that are methods of the trait. -/
def ask {σ : Type} (A : Allocator w σ) (h : Heap σ) :
    LazyRequest w → Option (Option Block × Heap σ)
  | .allocate l => some (A.allocate l h)
  | .grow ptr old new => some (A.grow ptr old new h)
  | .shrink ptr old new => some (A.shrink ptr old new h)
  | .allocUninit _ => none
  | .allocSliceCopy _ _ => none

end LazyRequest

namespace LazyClient

/-- The mapping at the bottom. -/
def bottom (toMapping : β → MmapBacked) : LazyClient β → MmapBacked
  | .mapping s => s
  | .arena a => toMapping a.backing
  | .stack a => toMapping a.stack.backing

def capacity : LazyClient β → Nat
  | .mapping s => s.len
  | .arena a => a.capacity
  | .stack a => a.stack.capacity

/-- The cursor and the frames. -/
def position : LazyClient β → Nat × List (Nat × Nat)
  | .mapping s => (s.cursor, [])
  | .arena a => (a.cursor, [])
  | .stack a => (a.stack.cursor, a.stack.frames)

/-- The answer to a request, and what it leaves of the client and the memory. -/
def request (os : Os) (R : FixedRange β) (m : Mem) (q : LazyRequest w) :
    LazyClient β → Option (Option Block × LazyClient β × Mem)
  | .mapping s =>
      (q.ask (MmapBacked.allocator w os) ⟨s, m⟩).map fun (r, h) => (r, .mapping h.alloc, h.mem)
  | .stack a =>
      (q.ask (StackAlloc.allocator w R) ⟨a, m⟩).map fun (r, h) => (r, .stack h.alloc, h.mem)
  | .arena a =>
      match q with
      | .allocUninit T =>
          let (r, a') := BumpArena.allocUninit R T a
          some (r.map fun p => ⟨p, T.size⟩, .arena a', m)
      | .allocSliceCopy T src =>
          let (r, h) := BumpArena.allocSliceCopy R T src ⟨a, m⟩
          some (r, .arena h.alloc, h.mem)
      | q => (q.ask (BumpArena.allocator w R) ⟨a, m⟩).map fun (r, h) => (r, .arena h.alloc, h.mem)

def deallocate (R : FixedRange β) (ptr : Nat) (l : NonZeroLayout w) (m : Mem) :
    LazyClient β → LazyClient β
  | .mapping s => .mapping s
  | .arena a => .arena a
  | .stack a => .stack ((StackAlloc.allocator w R).deallocate ptr l ⟨a, m⟩).alloc

/-- `commit` of the backing, called by someone else. -/
def commit (w : Nat) (os : Os) (R : FixedRange β) (off len : Nat) :
    LazyClient β → Bool × LazyClient β
  | .mapping s =>
      let (ok, t) := osCommit w os off len s
      (ok, .mapping t)
  | .arena a =>
      let (ok, b) := R.commit off len a.backing
      (ok, .arena { a with backing := b })
  | .stack a =>
      let (ok, b) := R.commit off len a.stack.backing
      (ok, .stack { a with stack := { a.stack with backing := b } })

end LazyClient

namespace LazyRun

def init (c : LazyClient β) (m : Mem) : LazyRun β := ⟨c, m, []⟩

def step (os : Os) (R : FixedRange β) (s : LazyRun β) : LazyCall w → Option (LazyRun β)
  | .request q =>
      if q.PtrInSpace then
        (s.client.request os R s.mem q).map fun (r, c, m) => ⟨c, m, r.toList ++ s.issued⟩
      else none
  | .deallocate ptr l => some { s with client := s.client.deallocate R ptr l s.mem }
  | .commit off len =>
      if off + len ≤ s.client.capacity then
        some { s with client := (s.client.commit w os R off len).2 }
      else none
  | .rewindTo mark =>
      match s.client with
      | .arena a => some { s with client := .arena (a.rewindTo mark) }
      | _ => none
  | .reset =>
      match s.client with
      | .arena a => some { s with client := .arena a.reset }
      | _ => none

end LazyRun

/-! ## Ranges that forward -/

/-- The range is the mapping's, and so are its commits. -/
structure Forwards (w : Nat) (os : Os) (R : FixedRange β) (toMapping : β → MmapBacked) : Prop where
  base_eq : ∀ b, R.base b = (toMapping b).ptr
  size_eq : ∀ b, R.size b = (toMapping b).len
  commit_eq : ∀ off len b, ((R.commit off len b).1, toMapping (R.commit off len b).2) =
    osCommit w os off len (toMapping b)

theorem Forwards.mapping (w : Nat) (os : Os) : Forwards w os (MmapBacked.range w os) id :=
  ⟨fun _ => rfl, fun _ => rfl, fun _ _ _ => rfl⟩

variable {os : Os} {R : FixedRange β} {toMapping : β → MmapBacked} {b b' : β} {off len : Nat}
  {ok : Bool}

theorem Forwards.commit (hF : Forwards w os R toMapping) (h : R.commit off len b = (ok, b')) :
    osCommit w os off len (toMapping b) = (ok, toMapping b') := by
  rw [← hF.commit_eq, h]

/-! ## What a request may do -/

structure Served (w : Nat) (os : Os) (toMapping : β → MmapBacked) (c c' : LazyClient β)
    (r : Option Block) : Prop extends
    Advance w os (c.bottom toMapping) (c'.bottom toMapping) where
  capacity_eq : c'.capacity = c.capacity
  inside : ∀ b, r = some b → b.bytes ⊆ (c'.bottom toMapping).prefixBytes
  declined : Declined (c.bottom toMapping) (c'.bottom toMapping) → r = none
  position_eq : r = none → c'.position = c.position

variable {c c' : LazyClient β} {r : Option Block} {a a' : BumpArena β} {size align : Nat}
  {l old new : NonZeroLayout w} {m : Mem}

/-- A request that fails before it reaches the backing. -/
theorem Served.refused (c : LazyClient β) (hs : Witnessed w os (c.bottom toMapping)) :
    Served w os toMapping c c none :=
  ⟨Advance.refl hs, rfl, fun b hb => absurd hb.symm (Option.some_ne_none b), fun _ => rfl,
    fun _ => rfl⟩

/-- A block without bytes needs nothing of the backing. -/
theorem Served.empty (hs : Witnessed w os (c.bottom toMapping)) {p : Nat} :
    Served w os toMapping c c (some ⟨p, 0⟩) := by
  refine ⟨Advance.refl hs, rfl, fun b hb x hx => ?_, fun h => absurd h (not_declined_self _),
    fun hnone => absurd hnone (Option.some_ne_none _)⟩
  obtain rfl := Option.some.inj hb
  have hmem : p ≤ x ∧ x < p + 0 := hx
  omega

/-- A request that commits `[off, off + size)` and is declined, or hands the block out. -/
theorem Served.of_commit (c c' : LazyClient β) (ok : Bool) (p : Nat)
    (hs : Witnessed w os (c.bottom toMapping))
    (hcommit : osCommit w os off size (c.bottom toMapping) = (ok, c'.bottom toMapping))
    (hle : off + size ≤ (c.bottom toMapping).len) (hp : p = (c.bottom toMapping).ptr + off)
    (hcap : c'.capacity = c.capacity) (hpos : ok = false → c'.position = c.position) :
    Served w os toMapping c c' (if ok = true then some ⟨p, size⟩ else none) := by
  obtain ⟨hadv, hok, -, hdecl⟩ := osCommit_spec hs hcommit
  refine ⟨hadv, hcap, ?_, ?_, ?_⟩
  · intro b hb x hx
    split at hb
    case isTrue htrue =>
        obtain rfl := Option.some.inj hb
        have hend := hok htrue hle
        rw [Block.mem_bytes] at hx
        rw [prefixBytes, hadv.ptr_eq, Set.mem_Ico]
        simp only at hx
        omega
    case isFalse => cases hb
  · intro hdeclined
    exact if_neg fun htrue => hdecl htrue hdeclined
  · intro hnone
    split at hnone
    case isTrue => cases hnone
    case isFalse hfalse => exact hpos (Bool.eq_false_of_not_eq_true hfalse)

/-- What happens to the client after it has handed a block out, as long as the mapping stays. -/
theorem Served.of_bottom_eq {c₁ : LazyClient β} {b : Block}
    (h : Served w os toMapping c c₁ (some b))
    (hbottom : c'.bottom toMapping = c₁.bottom toMapping) (hcap : c'.capacity = c₁.capacity) :
    Served w os toMapping c c' (some b) := by
  refine ⟨?_, hcap.trans h.capacity_eq, fun b hb => ?_, fun hd => ?_,
    fun hnone => absurd hnone (Option.some_ne_none _)⟩
  · rw [hbottom]
    exact h.toAdvance
  · rw [hbottom]
    exact h.inside b hb
  · rw [hbottom] at hd
    exact h.declined hd

section

variable {σ : Type} (A : Allocator w σ) (into : σ → LazyClient β) (ptr : Nat)
  (old : NonZeroLayout w) {s : σ} {h : Heap σ}

/-- The resizes of the trait are served as the request they begin with. -/
theorem Served.defaultGrow
    (halloc : ∀ {h}, A.allocate new ⟨s, m⟩ = (r, h) →
      Served w os toMapping (into s) (into h.alloc) r)
    (hfree : ∀ ptr l h, (into (A.deallocate ptr l h).alloc).bottom toMapping =
      (into h.alloc).bottom toMapping ∧
        (into (A.deallocate ptr l h).alloc).capacity = (into h.alloc).capacity)
    (heq : ForgeAlloc.defaultGrow A.allocate A.deallocate ptr old new ⟨s, m⟩ = (r, h)) :
    Served w os toMapping (into s) (into h.alloc) r := by
  rcases hcall : A.allocate new ⟨s, m⟩ with ⟨_ | b, h₁⟩
  · rw [defaultGrow_of_none ptr hcall] at heq
    cases heq
    exact halloc hcall
  · rw [defaultGrow_of_some ptr hcall] at heq
    cases heq
    obtain ⟨hbottom, hcap⟩ := hfree ptr old ⟨h₁.alloc, copyBytes h₁.mem ptr b.ptr old.size⟩
    exact (halloc hcall).of_bottom_eq hbottom hcap

theorem Served.defaultShrink
    (halloc : ∀ {h}, A.allocate new ⟨s, m⟩ = (r, h) →
      Served w os toMapping (into s) (into h.alloc) r)
    (hfree : ∀ ptr l h, (into (A.deallocate ptr l h).alloc).bottom toMapping =
      (into h.alloc).bottom toMapping ∧
        (into (A.deallocate ptr l h).alloc).capacity = (into h.alloc).capacity)
    (heq : ForgeAlloc.defaultShrink A.allocate A.deallocate ptr old new ⟨s, m⟩ = (r, h)) :
    Served w os toMapping (into s) (into h.alloc) r := by
  rcases hcall : A.allocate new ⟨s, m⟩ with ⟨_ | b, h₁⟩
  · rw [defaultShrink_of_none ptr hcall] at heq
    cases heq
    exact halloc hcall
  · rw [defaultShrink_of_some ptr hcall] at heq
    cases heq
    obtain ⟨hbottom, hcap⟩ := hfree ptr old ⟨h₁.alloc, copyBytes h₁.mem ptr b.ptr new.size⟩
    exact (halloc hcall).of_bottom_eq hbottom hcap

end

namespace BumpArena

/-- **The align-and-bump step** commits what it hands out before it moves the cursor. -/
theorem reserve_served (hF : Forwards w os R toMapping)
    (hs : Witnessed w os (toMapping a.backing)) (hcap : a.capacity ≤ (toMapping a.backing).len)
    {p : Option Nat} (h : reserve w R size align a = (p, a')) :
    Served w os toMapping (.arena a) (.arena a') (p.map fun p => ⟨p, size⟩) := by
  simp only [reserve] at h
  split at h
  case h_1 =>
      cases h
      exact Served.refused (.arena a) hs
  case h_2 off fin hbump =>
      obtain ⟨hfin, hle⟩ := bump_bounds hbump
      have hle' : off + size ≤ (toMapping a.backing).len := by omega
      split at h
      case h_1 b hb =>
          cases h
          exact Served.of_commit (.arena a) (.arena { a with backing := b }) false
            (R.base a.backing + off) hs (hF.commit hb) hle' (by rw [hF.base_eq]; rfl) rfl
            fun _ => rfl
      case h_2 b hb =>
          cases h
          exact Served.of_commit (.arena a) (.arena { a with backing := b, cursor := fin }) true
            (R.base a.backing + off) hs (hF.commit hb) hle' (by rw [hF.base_eq]; rfl) rfl
            fun htrue => absurd htrue.symm Bool.false_ne_true

theorem allocate_served (hF : Forwards w os R toMapping)
    (hs : Witnessed w os (toMapping a.backing)) (hcap : a.capacity ≤ (toMapping a.backing).len)
    {h : Heap (BumpArena β)} (heq : allocate R l ⟨a, m⟩ = (r, h)) :
    Served w os toMapping (.arena a) (.arena h.alloc) r := by
  unfold allocate at heq
  split at heq
  case h_1 a₁ hres =>
      cases heq
      exact reserve_served hF hs hcap hres
  case h_2 p a₁ hres =>
      cases heq
      exact reserve_served hF hs hcap hres

theorem allocUninit_served (hF : Forwards w os R toMapping)
    (hs : Witnessed w os (toMapping a.backing)) (hcap : a.capacity ≤ (toMapping a.backing).len)
    {T : RustType w} {p : Option Nat} (heq : allocUninit R T a = (p, a')) :
    Served w os toMapping (.arena a) (.arena a') (p.map fun p => ⟨p, T.size⟩) := by
  unfold allocUninit at heq
  split at heq
  case isTrue hzero =>
      cases heq
      rw [hzero]
      exact Served.empty hs
  case isFalse => exact reserve_served hF hs hcap heq

theorem allocSliceCopy_served (hF : Forwards w os R toMapping)
    (hs : Witnessed w os (toMapping a.backing)) (hcap : a.capacity ≤ (toMapping a.backing).len)
    {T : RustType w} {src : Slice T} {h : Heap (BumpArena β)}
    (heq : allocSliceCopy R T src ⟨a, m⟩ = (r, h)) :
    Served w os toMapping (.arena a) (.arena h.alloc) r := by
  unfold allocSliceCopy at heq
  split at heq
  case isTrue hzero =>
      cases heq
      have hlen : T.size * src.len = 0 := by
        rcases hzero with hz | hz <;> simp [hz]
      rw [hlen]
      exact Served.empty hs
  case isFalse =>
      split at heq
      case h_1 =>
          cases heq
          exact Served.refused (.arena a) hs
      case h_2 l hl =>
          split at heq
          case h_1 h₁ halloc =>
              cases heq
              exact allocate_served hF hs hcap halloc
          case h_2 dst h₁ halloc =>
              cases heq
              have hserved := allocate_served hF hs hcap halloc
              have hlen : dst = ⟨dst.ptr, T.size * src.len⟩ := by
                unfold allocate at halloc
                split at halloc
                · cases halloc
                · cases halloc
                  rw [(NonZeroLayout.array_eq_some hl).1]
              rw [← hlen]
              exact hserved

theorem relocate_served (hF : Forwards w os R toMapping)
    (hs : Witnessed w os (toMapping a.backing)) (hcap : a.capacity ≤ (toMapping a.backing).len)
    {ptr : Nat} {h : Heap (BumpArena β)} (heq : relocate R ptr old new ⟨a, m⟩ = (r, h)) :
    Served w os toMapping (.arena a) (.arena h.alloc) r := by
  unfold relocate at heq
  split at heq
  case h_1 h₁ halloc =>
      cases heq
      exact allocate_served hF hs hcap halloc
  case h_2 dst h₁ halloc =>
      cases heq
      have hserved := allocate_served hF hs hcap halloc
      exact hserved

/-- The growth of any address commits the block from its start on. -/
theorem grow_served (hF : Forwards w os R toMapping)
    (hs : Witnessed w os (toMapping a.backing)) (hcap : a.capacity ≤ (toMapping a.backing).len)
    {ptr : Nat} (hptr : ptr < 2 ^ w) {h : Heap (BumpArena β)}
    (heq : grow R ptr old new ⟨a, m⟩ = (r, h)) :
    Served w os toMapping (.arena a) (.arena h.alloc) r := by
  simp only [grow] at heq
  split at heq
  case isFalse => exact relocate_served hF hs hcap heq
  case isTrue hlast =>
      split at heq
      case h_1 =>
          cases heq
          exact Served.refused (.arena a) hs
      case h_2 fin hfin =>
          obtain ⟨-, rfl⟩ := checkedAdd_eq_some.mp hfin
          split at heq
          case isFalse => exact relocate_served hF hs hcap heq
          case isTrue hfits =>
              -- the block ends inside the region, so its start is not below the base
              have hat : ptr = (toMapping a.backing).ptr +
                  wrappingSub w ptr (R.base a.backing) := by
                have hspace := hs.inSpace
                have hpos := new.size_pos
                have hbase := hF.base_eq a.backing
                by_cases hle : R.base a.backing ≤ ptr
                · rw [wrappingSub_of_le hle hptr]
                  omega
                · rw [wrappingSub_of_lt (by omega) (by omega)] at hfits
                  omega
              split at heq
              case h_1 b hb =>
                  cases heq
                  exact Served.of_commit (.arena a) (.arena { a with backing := b }) false ptr hs
                    (hF.commit hb) (hfits.trans hcap) hat rfl fun _ => rfl
              case h_2 b hb =>
                  cases heq
                  exact Served.of_commit (.arena a)
                    (.arena { a with backing := b, cursor := _ }) true ptr hs (hF.commit hb)
                    (hfits.trans hcap) hat rfl fun htrue => absurd htrue.symm Bool.false_ne_true

end BumpArena

/-- A stack commits before it pushes the frame. -/
theorem StackAlloc.allocate_served (hF : Forwards w os R toMapping) {a a' : StackAlloc β}
    (hs : Witnessed w os (toMapping a.backing)) (hcap : a.capacity ≤ (toMapping a.backing).len)
    (n : Nat) (heq : StackAlloc.allocate R l a = (r, a')) :
    Served w os toMapping (.stack ⟨a, n⟩) (.stack ⟨a', n⟩) r := by
  simp only [StackAlloc.allocate] at heq
  split at heq
  case h_1 =>
      cases heq
      exact Served.refused (.stack ⟨a, n⟩) hs
  case h_2 off fin hbump =>
      obtain ⟨hfin, hle⟩ := bump_bounds hbump
      have hle' : off + l.size ≤ (toMapping a.backing).len := by omega
      split at heq
      case h_1 b hb =>
          cases heq
          exact Served.of_commit (.stack ⟨a, n⟩) (.stack ⟨{ a with backing := b }, n⟩) false
            (R.base a.backing + off) hs (hF.commit hb) hle' (by rw [hF.base_eq]; rfl) rfl
            fun _ => rfl
      case h_2 b hb =>
          cases heq
          exact Served.of_commit (.stack ⟨a, n⟩)
            (.stack ⟨⟨b, a.capacity, fin, (off, a.cursor) :: a.frames⟩, n⟩) true
            (R.base a.backing + off) hs (hF.commit hb) hle' (by rw [hF.base_eq]; rfl) rfl
            fun htrue => absurd htrue.symm Bool.false_ne_true

theorem MmapBacked.allocate_served {s : MmapBacked} (hs : Witnessed w os s) {h : Heap MmapBacked}
    (heq : MmapBacked.allocate os l ⟨s, m⟩ = (r, h)) :
    Served w os toMapping (.mapping s) (.mapping h.alloc) r := by
  simp only [MmapBacked.allocate, chainedBump_eq] at heq
  split at heq
  case h_1 =>
      cases heq
      exact Served.refused (.mapping s) hs
  case h_2 off fin hbump =>
      obtain ⟨hfin, hle⟩ := bump_bounds hbump
      have hle' : off + l.size ≤ s.len := by omega
      split at heq
      case h_1 t hcommit =>
          cases heq
          have hlen := (osCommit_spec hs hcommit).1.len_eq
          obtain ⟨ok, committed, system, hsame, -⟩ := osCommit_eq w os off l.size s
          have hcursor : t.cursor = s.cursor := by
            rw [hcommit] at hsame
            rw [(Prod.mk.inj hsame).2]
          exact Served.of_commit (.mapping s) (.mapping t) false (s.ptr + off) hs hcommit hle' rfl
            hlen fun _ => congrArg (·, []) hcursor
      case h_2 t hcommit =>
          cases heq
          have hlen := (osCommit_spec hs hcommit).1.len_eq
          have hserved : Served w os toMapping (.mapping s) (.mapping t)
              (some ⟨s.ptr + off, l.size⟩) :=
            Served.of_commit (.mapping s) (.mapping t) true (s.ptr + off) hs hcommit hle' rfl
              hlen fun htrue => absurd htrue.symm Bool.false_ne_true
          have hadv := hserved.toAdvance
          have hw : Witnessed w os t := hadv.witnessed
          -- the cursor moves, which the watermark does not look at
          refine ⟨⟨⟨hw.inSpace, hw.len_dvd, hw.dvd, hw.le_len, hw.committed_eq, hw.eager⟩,
            hadv.ptr_eq, hadv.len_eq, hadv.committed_le⟩, hlen, hserved.inside,
            hserved.declined, fun hnone => absurd hnone (Option.some_ne_none _)⟩

/-- A free does not touch the backing. -/
theorem StackAlloc.bottom_onDeallocate (toMapping : β → MmapBacked) (ptr : Nat)
    (l : NonZeroLayout w) (h : Heap (DebugStack β)) :
    (LazyClient.stack ((StackAlloc.allocator w R).deallocate ptr l h).alloc).bottom toMapping =
      (LazyClient.stack h.alloc).bottom toMapping ∧
    (LazyClient.stack ((StackAlloc.allocator w R).deallocate ptr l h).alloc).capacity =
      (LazyClient.stack h.alloc).capacity := by
  have hkeep : (StackAlloc.deallocate w R ptr h.alloc.stack).2.backing = h.alloc.stack.backing ∧
      (StackAlloc.deallocate w R ptr h.alloc.stack).2.capacity = h.alloc.stack.capacity := by
    simp only [StackAlloc.deallocate]
    split
    · exact ⟨rfl, rfl⟩
    · split <;> exact ⟨rfl, rfl⟩
  simp only [StackAlloc.allocator, StackAlloc.allocator.onDeallocate]
  split
  case h_1 a heq =>
      rw [heq] at hkeep
      exact ⟨congrArg toMapping hkeep.1, hkeep.2⟩
  case h_2 a heq =>
      rw [heq] at hkeep
      exact ⟨congrArg toMapping hkeep.1, hkeep.2⟩

theorem StackAlloc.onAllocate_served (hF : Forwards w os R toMapping) {a : DebugStack β}
    (hs : Witnessed w os (toMapping a.stack.backing))
    (hcap : a.stack.capacity ≤ (toMapping a.stack.backing).len) {h : Heap (DebugStack β)}
    (heq : (StackAlloc.allocator w R).allocate l ⟨a, m⟩ = (r, h)) :
    Served w os toMapping (.stack a) (.stack h.alloc) r := by
  obtain ⟨hr, rfl⟩ := Prod.mk.inj heq
  exact StackAlloc.allocate_served hF hs hcap a.tripped (Prod.ext hr rfl)

/-! ## Every request is served -/

variable {q : LazyRequest w} {m' : Mem}

theorem LazyClient.request_served (hF : Forwards w os R toMapping)
    (hs : Witnessed w os (c.bottom toMapping)) (hcap : c.capacity ≤ (c.bottom toMapping).len)
    (hq : q.PtrInSpace) (h : c.request os R m q = some (r, c', m')) :
    Served w os toMapping c c' r := by
  cases c with
  | mapping s =>
      obtain ⟨⟨r', g⟩, hask, heq⟩ := Option.map_eq_some_iff.mp h
      obtain ⟨rfl, hpair⟩ := Prod.mk.inj heq
      obtain ⟨rfl, rfl⟩ := Prod.mk.inj hpair
      have halloc : ∀ {l : NonZeroLayout w} {h}, MmapBacked.allocate os l ⟨s, m⟩ = (r', h) →
          Served w os toMapping (.mapping s) (.mapping h.alloc) r' :=
        fun hcall => MmapBacked.allocate_served hs hcall
      cases q with
      | allocate l => exact halloc (Option.some.inj hask)
      | grow ptr old new =>
          exact Served.defaultGrow (MmapBacked.allocator w os) .mapping ptr old halloc
            (fun _ _ _ => ⟨rfl, rfl⟩) (Option.some.inj hask)
      | shrink ptr old new =>
          exact Served.defaultShrink (MmapBacked.allocator w os) .mapping ptr old halloc
            (fun _ _ _ => ⟨rfl, rfl⟩) (Option.some.inj hask)
      | allocUninit T => cases hask
      | allocSliceCopy T src => cases hask
  | arena a =>
      cases q with
      | allocUninit T =>
          cases h
          exact BumpArena.allocUninit_served hF hs hcap rfl
      | allocSliceCopy T src =>
          cases h
          exact BumpArena.allocSliceCopy_served (m := m) hF hs hcap rfl
      | allocate l =>
          cases h
          exact BumpArena.allocate_served (m := m) hF hs hcap rfl
      | grow ptr old new =>
          cases h
          exact BumpArena.grow_served (m := m) hF hs hcap hq rfl
      | shrink ptr old new =>
          cases h
          exact Served.defaultShrink (BumpArena.allocator w R) .arena ptr old (m := m)
            (fun hcall => BumpArena.allocate_served hF hs hcap hcall)
            (fun _ _ _ => ⟨rfl, rfl⟩) rfl
  | stack a =>
      obtain ⟨⟨r', g⟩, hask, heq⟩ := Option.map_eq_some_iff.mp h
      obtain ⟨rfl, hpair⟩ := Prod.mk.inj heq
      obtain ⟨rfl, rfl⟩ := Prod.mk.inj hpair
      have halloc : ∀ {l : NonZeroLayout w} {h}, (StackAlloc.allocator w R).allocate l ⟨a, m⟩ =
          (r', h) → Served w os toMapping (.stack a) (.stack h.alloc) r' :=
        fun hcall => StackAlloc.onAllocate_served hF hs hcap hcall
      cases q with
      | allocate l => exact halloc (Option.some.inj hask)
      | grow ptr old new =>
          exact Served.defaultGrow (StackAlloc.allocator w R) .stack ptr old halloc
            (StackAlloc.bottom_onDeallocate toMapping) (Option.some.inj hask)
      | shrink ptr old new =>
          exact Served.defaultShrink (StackAlloc.allocator w R) .stack ptr old halloc
            (StackAlloc.bottom_onDeallocate toMapping) (Option.some.inj hask)
      | allocUninit T => cases hask
      | allocSliceCopy T src => cases hask

end ForgeAlloc
