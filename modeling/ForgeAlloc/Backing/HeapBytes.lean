import ForgeAlloc.Backing.InlineContract
import ForgeAlloc.Core.Tracked
import ForgeAlloc.Library.Run

set_option autoImplicit false

/-! # `System` and `HeapBytes`

Both go to the global allocator, which is a parameter here. `System` passes its calls on. `HeapBytes`
owns one block: it keeps the layout that the block was requested with, and its drop hands the block
back with that layout.

`HeapRun` is a program with any number of such values. Whatever it builds, writes into and drops, the
regions of the values that are left are apart, and each block that the global allocator has issued is
either owned by one value or has been handed back once (`HeapRun.run_balanced`).
-/

namespace ForgeAlloc

open ByteMemory Recorded

variable {w : Nat} {σ : Type}

/-- `System`. The answer to `usable_size` is the trait's. -/
def systemAllocator (G : Allocator w σ) : Allocator w σ := { G with usableSize := fun _ _ _ => none }

theorem systemAllocator_worksIn {G : Allocator w σ} {Z : Set Nat}
    {I : Heap σ → Set (Grant w) → Prop} (hG : WorksIn G Z I) : WorksIn (systemAllocator G) Z I where
  toHonoursCore := hG.toHonoursCore.congr rfl rfl
  subset := hG.subset
  allocate_frame := hG.allocate_frame
  deallocate_frame := hG.deallocate_frame
  mem_congr := hG.mem_congr

structure HeapBytes (w : Nat) where
  ptr : Nat
  blockLayout : NonZeroLayout w
  ptr_pos : 0 < ptr

namespace HeapBytes

/-- The guards of the constructors, and then the request. The pointer is a `NonNull`. -/
def build (request : NonZeroLayout w → Heap σ → Option Block × Heap σ) (size align : Nat)
    (h : Heap σ) : Option (HeapBytes w) × Heap σ :=
  if size = 0 ∨ align = 0 ∨ ¬ align.isPowerOfTwo then (none, h)
  else
    match NonZeroLayout.fromSizeAlign w size align with
    | none => (none, h)
    | some blockLayout =>
        match request blockLayout h with
        | (none, h') => (none, h')
        | (some block, h') =>
            if hpos : 0 < block.ptr then (some ⟨block.ptr, blockLayout, hpos⟩, h') else (none, h')

def withAlign (G : Allocator w σ) (size align : Nat) (h : Heap σ) : Option (HeapBytes w) × Heap σ :=
  build G.allocate size align h

def withAlignZeroed (zeroed : NonZeroLayout w → Heap σ → Option Block × Heap σ) (size align : Nat)
    (h : Heap σ) : Option (HeapBytes w) × Heap σ := build zeroed size align h

def new (G : Allocator w σ) (size : Nat) (h : Heap σ) : Option (HeapBytes w) × Heap σ :=
  withAlign G size maxAlign h

def newZeroed (zeroed : NonZeroLayout w → Heap σ → Option Block × Heap σ) (size : Nat)
    (h : Heap σ) : Option (HeapBytes w) × Heap σ := withAlignZeroed zeroed size maxAlign h

def capacity (b : HeapBytes w) : Nat := b.blockLayout.size

def drop (G : Allocator w σ) (b : HeapBytes w) (h : Heap σ) : Heap σ :=
  G.deallocate b.ptr b.blockLayout h

def range (w : Nat) : FixedRange (HeapBytes w) where
  base := fun b => b.ptr
  size := fun b => b.blockLayout.size
  commit := fun _ _ b => (true, b)

theorem range_lawful (w : Nat) : (range w).Lawful :=
  ⟨fun b => b.ptr_pos, fun _ _ _ => rfl, fun _ _ _ => rfl⟩

def region (b : HeapBytes w) : Block := (range w).block b

/-- What the drop hands back. -/
def ticket (b : HeapBytes w) : Ticket w := (b.ptr, b.blockLayout)

variable {request : NonZeroLayout w → Heap σ → Option Block × Heap σ} {size align : Nat}
  {h h' : Heap σ} {b : HeapBytes w}

theorem build_some (hbuild : build request size align h = (some b, h')) :
    ∃ block : Block, request b.blockLayout h = (some block, h') ∧ block.ptr = b.ptr ∧
      b.blockLayout.size = size ∧ b.blockLayout.align = align := by
  unfold build at hbuild
  split at hbuild
  · cases hbuild
  · split at hbuild
    · cases hbuild
    case h_2 l hlayout =>
        obtain ⟨hsize, halign⟩ := NonZeroLayout.fromSizeAlign_eq_some.mp hlayout
        split at hbuild
        · cases hbuild
        case h_2 block h₁ hcall =>
            split at hbuild
            · cases hbuild
              exact ⟨block, hcall, rfl, hsize, halign⟩
            · cases hbuild

/-- A constructor that fails has asked for nothing, or its request was declined. -/
theorem build_none (hbuild : build request size align h = (none, h')) :
    h' = h ∨ ∃ l : NonZeroLayout w, (request l h).2 = h' ∧
      ∀ block, (request l h).1 = some block → block.ptr = 0 := by
  unfold build at hbuild
  split at hbuild
  · cases hbuild
    exact Or.inl rfl
  · split at hbuild
    · cases hbuild
      exact Or.inl rfl
    case h_2 l hlayout =>
        refine Or.inr ⟨l, ?_⟩
        split at hbuild
        case h_1 h₁ hcall =>
            cases hbuild
            rw [hcall]
            exact ⟨rfl, fun _ hblock => by cases hblock⟩
        case h_2 block h₁ hcall =>
            split at hbuild
            · cases hbuild
            case isFalse hpos =>
                cases hbuild
                rw [hcall]
                refine ⟨rfl, fun c hc => ?_⟩
                cases hc
                omega

end HeapBytes

/-! ## Runs -/

/-- A program with the values `live`. -/
structure HeapRun (w : Nat) (σ : Type) where
  heap : Heap (Recorded w σ)
  live : List (HeapBytes w)

inductive HeapOp (w : Nat)
  | new (size : Nat)
  | newZeroed (size : Nat)
  | withAlign (size align : Nat)
  | withAlignZeroed (size align : Nat)
  | drop (i : Nat)
  | write (i off : Nat) (v : UInt8)

namespace HeapRun

def receive (s : HeapRun w σ) : Option (HeapBytes w) × Heap (Recorded w σ) → HeapRun w σ
  | (none, h) => ⟨h, s.live⟩
  | (some b, h) => ⟨h, s.live ++ [b]⟩

def step (G : Allocator w σ) (zeroed : NonZeroLayout w → Heap σ → Option Block × Heap σ)
    (s : HeapRun w σ) : HeapOp w → Option (HeapRun w σ)
  | .new size => some (s.receive (HeapBytes.new (recorded G) size s.heap))
  | .newZeroed size => some (s.receive (HeapBytes.newZeroed (recordedCall zeroed) size s.heap))
  | .withAlign size align => some (s.receive (HeapBytes.withAlign (recorded G) size align s.heap))
  | .withAlignZeroed size align =>
      some (s.receive (HeapBytes.withAlignZeroed (recordedCall zeroed) size align s.heap))
  | .drop i =>
      match s.live[i]? with
      | none => none
      | some b => some ⟨b.drop (recorded G) s.heap, s.live.eraseIdx i⟩
  | .write i off v =>
      match s.live[i]? with
      | none => none
      | some b =>
          if off < b.capacity then
            some ⟨⟨s.heap.alloc, writeByte s.heap.mem (b.ptr + off) v⟩, s.live⟩
          else none

def init (a : σ) (m : Mem) : HeapRun w σ := ⟨⟨⟨a, [], []⟩, m⟩, []⟩

/-- The program ends, and drops the values it has left. -/
def dropAll (G : Allocator w σ) (s : HeapRun w σ) : Heap (Recorded w σ) :=
  s.live.foldl (fun h b => b.drop (recorded G) h) s.heap

variable {G : Allocator w σ} {zeroed : NonZeroLayout w → Heap σ → Option Block × Heap σ}
  {I : Heap σ → Set (Grant w) → Prop} {s s' : HeapRun w σ} {op : HeapOp w}
  {ops : List (HeapOp w)} {a : σ} {m : Mem}

/-- What is out of the global allocator is what the values own. -/
def Inv (I : Heap σ → Set (Grant w) → Prop) (s : HeapRun w σ) : Prop :=
  Tracked (Logged I []) ∅ (s.live.map HeapBytes.ticket) s.heap

theorem inv_init (hstart : I ⟨a, m⟩ ∅) : Inv I (init a m : HeapRun w σ) :=
  tracked_nil (logged_empty hstart)

/-- A record does not change which requests meet the contract. -/
theorem serves_recordedCall (hG : HonoursCore G I) {Z : Set Nat} (hz : ServesIn Z I zeroed) :
    ServesIn Z (Logged I []) (recordedCall zeroed) where
  issued := by
    intro h L l b h' hl heq
    obtain ⟨hr, rfl⟩ := note_eq_some heq
    exact issued_note hG (hz.issued hl.inv (Prod.ext hr rfl)) hl.accounts
  unchanged := by
    intro h L l h' hl heq
    obtain ⟨hr, rfl⟩ := note_eq_none heq
    exact logged_unchanged hl (hz.unchanged hl.inv (Prod.ext hr rfl))
  frame := by
    intro h L l hl
    have hframe := hz.frame (l := l) hl.inv
    rw [← note_alloc (h := h) [] (zeroed l (Recorded.heap h))] at hframe
    exact hframe

theorem Inv.build (hA : HonoursCore (recorded G) (Logged I []))
    {request : NonZeroLayout w → Heap (Recorded w σ) → Option Block × Heap (Recorded w σ)}
    {Z : Set Nat} (hr : ServesIn Z (Logged I []) request) (hs : Inv I s) (size align : Nat) :
    Inv I (s.receive (HeapBytes.build request size align s.heap)) := by
  rcases hbuild : HeapBytes.build request size align s.heap with ⟨_ | b, h⟩
  · rcases HeapBytes.build_none hbuild with rfl | ⟨l, rfl, hnull⟩
    · exact hs
    · refine hs.unchanged fun {L} hinv => ?_
      rcases hcall : request l s.heap with ⟨_ | block, h⟩
      · exact hr.unchanged hinv hcall
      · -- a block of the contract is not at the null address
        have hpos := (hA.satisfies (hr.issued hinv hcall).inv (Set.mem_insert _ _)).nonnull
        have hzero := hnull block (congrArg Prod.fst hcall)
        simp only at hpos
        omega
  · obtain ⟨block, hcall, hptr, -, -⟩ := HeapBytes.build_some hbuild
    obtain ⟨htracked, -⟩ := hs.issued hA fun hinv => hr.issued hinv hcall
    rw [hptr] at htracked
    rw [Inv, receive, List.map_append]
    exact htracked

/-- The value at an index, and the others. -/
theorem Inv.tracked_eraseIdx (hs : Inv I s) {i : Nat} {b : HeapBytes w} (hb : s.live[i]? = some b) :
    Tracked (Logged I []) ∅ (b.ticket :: (s.live.eraseIdx i).map HeapBytes.ticket) s.heap := by
  obtain ⟨hi, rfl⟩ := List.getElem?_eq_some_iff.mp hb
  have hperm : (s.live[i] :: s.live.eraseIdx i).Perm s.live := List.getElem_cons_eraseIdx_perm hi
  exact hs.perm (hperm.map HeapBytes.ticket)

theorem inv_step (hG : HonoursCore G I) (hz : ServesIn Set.univ I zeroed) (hs : Inv I s)
    (hstep : step G zeroed s op = some s') : Inv I s' := by
  have hserves : ServesIn Set.univ I G.allocate :=
    ⟨hG.allocate_some, hG.allocate_none, fun _ x hx => absurd trivial hx⟩
  have hA : HonoursCore (recorded G) (Logged I []) := recorded_logged hG []
  have hcall : ServesIn Set.univ (Logged I []) (recorded G).allocate :=
    serves_recordedCall hG hserves
  have hzero : ServesIn Set.univ (Logged I []) (recordedCall zeroed) := serves_recordedCall hG hz
  cases op with
  | new size =>
      cases hstep
      exact hs.build hA hcall size maxAlign
  | newZeroed size =>
      cases hstep
      exact hs.build hA hzero size maxAlign
  | withAlign size align =>
      cases hstep
      exact hs.build hA hcall size align
  | withAlignZeroed size align =>
      cases hstep
      exact hs.build hA hzero size align
  | drop i =>
      simp only [step] at hstep
      split at hstep
      · cases hstep
      case h_2 b hb =>
          cases hstep
          exact (hs.tracked_eraseIdx hb).deallocate hA
  | write i off v =>
      simp only [step] at hstep
      split at hstep
      · cases hstep
      case h_2 b hb =>
          split at hstep
          case isFalse => cases hstep
          case isTrue hoff =>
              cases hstep
              have hmem : b.ticket ∈ s.live.map HeapBytes.ticket :=
                List.mem_map_of_mem (List.mem_of_getElem? hb)
              refine Tracked.write hA hs hmem fun x hx => writeByte_of_ne v ?_
              rintro rfl
              exact hx ⟨Nat.le_add_right _ _, Nat.add_lt_add_left hoff _⟩

theorem inv_run (hG : HonoursCore G I) (hz : ServesIn Set.univ I zeroed) (hstart : I ⟨a, m⟩ ∅)
    (hrun : Machine.run (step G zeroed) (init a m) ops = some s) : Inv I s :=
  Machine.run_invariant (fun _ _ _ hs hstep => inv_step hG hz hs hstep) (inv_init hstart) hrun

/-- **A program over the global allocator owns what it has not dropped.** In every state of every
run, over any allocator that meets the contract:

* the region of each value is aligned as the value was built, and no two regions share a byte;
* what the allocator has issued is what it has received and what the values own, each block once and
  with its layout;
* when the values that are left are dropped, it has received all that it has issued. -/
theorem run_balanced (hG : HonoursCore G I) (hz : ServesIn Set.univ I zeroed) (hstart : I ⟨a, m⟩ ∅)
    (hrun : Machine.run (step G zeroed) (init a m) ops = some s) :
    ((∀ b ∈ s.live, Satisfies b.region b.blockLayout) ∧
        s.live.Pairwise fun b c => Disjoint b.region.bytes c.region.bytes) ∧
      s.heap.alloc.issued.Perm (s.heap.alloc.received ++ s.live.map HeapBytes.ticket) ∧
      (dropAll G s).alloc.issued.Perm (dropAll G s).alloc.received ∧
      I (Recorded.heap (dropAll G s)) ∅ := by
  have hs : Tracked (Logged I []) ∅ (s.live.map HeapBytes.ticket) s.heap := inv_run hG hz hstart hrun
  have hA : HonoursCore (recorded G) (Logged I []) := recorded_logged hG []
  obtain ⟨hsat, hapart⟩ := hs.satisfies hA
  have hdropped : Tracked (Logged I []) ∅ [] (dropAll G s) := by
    have hall := hs.deallocate_all hA
    rw [List.foldl_map] at hall
    exact hall
  have hlast := hdropped.accounts
  rw [List.append_nil] at hlast
  refine ⟨⟨fun b hb => hsat _ (List.mem_map_of_mem hb), ?_⟩, hs.accounts, hlast,
    hdropped.inv_of_nil.inv⟩
  rw [List.pairwise_map] at hapart
  exact hapart

/-- Three values are built and one is dropped; an alignment of three is none. The allocator is a
kilobyte of storage. -/
theorem run_balanced_kilobyte : ∃ s : HeapRun 64 (InlineBacked 64 1024),
    Machine.run (step (InlineBacked.allocator 64 1024) (defaultAllocateZeroed InlineBacked.allocate))
        (init (InlineBacked.lit 64 1024 4096 (Eq.refl true)) fun _ => 0)
        [.new 64, .withAlign 100 8, .newZeroed 3, .write 1 99 7, .drop 0, .withAlign 5 3] = some s ∧
      s.heap.alloc.issued.Perm (s.heap.alloc.received ++ s.live.map HeapBytes.ticket) ∧
      s.heap.alloc.issued.length = 3 ∧ s.live.length = 2 := by
  obtain ⟨s, hrun, hlen⟩ := Option.map_eq_some_iff.mp (by decide +kernel :
    (Machine.run (step (InlineBacked.allocator 64 1024)
        (defaultAllocateZeroed InlineBacked.allocate))
      (init (InlineBacked.lit 64 1024 4096 (Eq.refl true)) fun _ => 0)
      [.new 64, .withAlign 100 8, .newZeroed 3, .write 1 99 7, .drop 0, .withAlign 5 3]).map
        (fun s => (s.heap.alloc.issued.length, s.live.length)) = some (3, 2))
  have hA : OwnsRange (InlineBacked.allocator 64 1024) (defaultAllocateZeroed InlineBacked.allocate)
      (InlineBacked.range 64 1024) (InlineBacked.Holds 4096) :=
    InlineBacked.ownsRange 64 1024 (by decide)
  have hz : ServesIn Set.univ (InlineBacked.Holds 4096)
      (defaultAllocateZeroed (InlineBacked.allocate (w := 64) (N := 1024))) :=
    ⟨hA.zeroed_in.issued, hA.zeroed_in.unchanged, fun _ x hx => absurd trivial hx⟩
  have hstart := InlineBacked.component_fresh (s := InlineBacked.lit 64 1024 4096 (Eq.refl true)) rfl
    (by decide) fun _ => 0
  obtain ⟨hissued, hlive⟩ := Prod.mk.inj hlen
  exact ⟨s, hrun, (run_balanced hA.toHonoursCore hz hstart.1 hrun).2.1, hissued, hlive⟩

end HeapRun

end ForgeAlloc
