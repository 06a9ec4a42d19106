import ForgeAlloc.Core.OwnedRange
import ForgeAlloc.Core.Usable

set_option autoImplicit false

/-! # Components of a stack of allocators

A *component* is an allocator with what the wrapper above it may know: the addresses it works in,
its range if it has one, its invariant, and what it answers to `usable_size`. `roomy` marks the
requests that would be served with a slice longer than they ask for, and `leaks` those for which the
answer would not cover the slice.

A lawful component (`Component.Lawful`) works in its territory as the trait asks, and answers for a
block as long as the block is out. An allocator that owns a range is one (`OwnsRange.lawful`).
-/

namespace ForgeAlloc

open ByteMemory

section

variable {w : Nat} {σ : Type}

/-- The allocator with the trait's resizes in the place of its own. -/
def Allocator.withDefaults (A : Allocator w σ) : Allocator w σ :=
  { A with
    grow := defaultGrow A.allocate A.deallocate
    shrink := defaultShrink A.allocate A.deallocate }

/-- The contract, resizes apart, is about the requests and the frees. -/
theorem HonoursCore.congr {A B : Allocator w σ} {Inv : Heap σ → Set (Grant w) → Prop}
    (hA : HonoursCore A Inv) (halloc : B.allocate = A.allocate)
    (hdealloc : B.deallocate = A.deallocate) : HonoursCore B Inv where
  satisfies := hA.satisfies
  disjoint := hA.disjoint
  allocate_some := fun hinv hcall => hA.allocate_some hinv (halloc ▸ hcall)
  allocate_none := fun hinv hcall => hA.allocate_none hinv (halloc ▸ hcall)
  deallocate := fun hinv hg => hdealloc ▸ hA.deallocate hinv hg
  write := hA.write

end

/-- The range of the allocator underneath. -/
def FixedRange.through {σ τ : Type} (R : FixedRange σ) (inner : τ → σ) (put : τ → σ → τ) :
    FixedRange τ where
  base := fun s => R.base (inner s)
  size := fun s => R.size (inner s)
  commit := fun off len s =>
    let (ok, t) := R.commit off len (inner s)
    (ok, put s t)

structure Component (w : Nat) (σ : Type) where
  calls : Allocator w σ
  /-- The owned range, if there is one, and where it lies. -/
  range : Option (FixedRange σ × Block)
  /-- The addresses the component works in. -/
  territory : Set Nat
  inv : Heap σ → Set (Grant w) → Prop
  /-- What `usable_size` says of a block that is out. -/
  answer : Grant w → Option Nat
  /-- A slice that serves the request is longer than it. -/
  roomy : NonZeroLayout w → Heap σ → Bool
  /-- The answer does not cover a slice that serves the request. -/
  leaks : NonZeroLayout w → Heap σ → Bool
  /-- A block is freed past the wrappers, by a thread with a handle on the slab that issued it. -/
  remoteFree : Nat → NonZeroLayout w → Heap σ → Option (Heap σ)

namespace Component

variable {w : Nat} {σ : Type}

/-- A length that is reached has nothing left over. -/
theorem false_iff_lt_self {m n : Nat} (h : m = n) : false = true ↔ m < n :=
  iff_of_false Bool.false_ne_true (h ▸ lt_irrefl m)

/-- The length the owner of a block may take as usable, as `Allocator.usableLen` computes it. -/
def answered (C : Component w σ) (g : Grant w) : Nat := (C.answer g).getD g.layout.size

structure Lawful (C : Component w σ) : Prop extends WorksIn C.calls C.territory C.inv where
  /-- The owned range is the territory, and does not move. -/
  range_spec : ∀ {R c}, C.range = some (R, c) → C.territory = c.bytes ∧
    ∀ {h L}, C.inv h L → R.block h.alloc = c ∧ 0 < c.ptr ∧ c.ptr + c.len ≤ 2 ^ w
  answer_eq : ∀ {h L g}, C.inv h L → g ∈ L →
    C.calls.usableSize g.block.ptr g.layout h = C.answer g
  answer_le : ∀ {h L g n}, C.inv h L → g ∈ L → C.answer g = some n →
    g.layout.size ≤ n ∧ n ≤ g.block.len
  roomy_iff : ∀ {h L l b h'}, C.inv h L → C.calls.allocate l h = (some b, h') →
    (C.roomy l h = true ↔ l.size < b.len)
  leaks_iff : ∀ {h L l b h'}, C.inv h L → C.calls.allocate l h = (some b, h') →
    (C.leaks l h = true ↔ C.answered ⟨b, l⟩ < b.len)
  remote_free : ∀ {h L g h'}, C.inv h L → g ∈ L →
    C.remoteFree g.block.ptr g.layout h = some h' → C.inv h' (L \ {g}) ∧ h'.mem = h.mem

variable {C : Component w σ} {h h' : Heap σ} {L : Set (Grant w)} {g : Grant w} {m : Mem}

theorem Lawful.usableLen_eq (hC : C.Lawful) (hinv : C.inv h L) (hg : g ∈ L) :
    C.calls.usableLen g.block.ptr g.layout h = C.answered g := by
  rw [Allocator.usableLen, hC.answer_eq hinv hg, answered]

theorem Lawful.answered_le (hC : C.Lawful) (hinv : C.inv h L) (hg : g ∈ L) :
    C.answered g ≤ g.block.len := by
  unfold answered
  cases hanswer : C.answer g with
  | none => exact (hC.satisfies hinv hg).large
  | some n => exact (hC.answer_le hinv hg hanswer).2

theorem Lawful.honoursUsable (hC : C.Lawful) : HonoursUsable C.calls C.inv := by
  refine hC.usable_of_le ?_ ?_
  · intro h L g n hinv hg hsize
    rw [hC.answer_eq hinv hg] at hsize
    exact hC.answer_le hinv hg hsize
  · intro h L g m hinv hinv' hg
    rw [hC.answer_eq hinv hg, hC.answer_eq hinv' hg]

/-- A component with the resizes of the trait. -/
theorem Lawful.honours_of_defaults (hC : C.Lawful)
    (hgrow : C.calls.grow = defaultGrow C.calls.allocate C.calls.deallocate)
    (hshrink : C.calls.shrink = defaultShrink C.calls.allocate C.calls.deallocate) :
    Honours C.calls C.inv := by
  refine hC.toHonoursCore.withDefaults hgrow hshrink fun hinv hg hn => ?_
  rw [hC.answer_eq hinv hg] at hn
  exact (hC.answer_le hinv hg hn).1

/-- A component with a range meets the contract of one, with the trait's resizes. -/
theorem Lawful.honoursRange (hC : C.Lawful) {R : FixedRange σ} {c : Block}
    (hR : C.range = some (R, c)) : HonoursRange C.calls.withDefaults R C.inv := by
  obtain ⟨hterritory, hblock⟩ := hC.range_spec hR
  have hbase : ∀ {h L}, C.inv h L → R.base h.alloc = c.ptr := fun hinv =>
    congrArg Block.ptr (hblock hinv).1
  have hsize : ∀ {h L}, C.inv h L → R.size h.alloc = c.len := fun hinv =>
    congrArg Block.len (hblock hinv).1
  have hends : ∀ {h L g}, C.inv h L → g ∈ L →
      c.ptr ≤ g.block.ptr ∧ g.block.ptr + g.block.len ≤ c.ptr + c.len := by
    intro h L g hinv hg
    have hsub := hC.subset hinv hg
    rw [hterritory] at hsub
    exact (Block.within_iff (hC.satisfies hinv hg).len_pos).mp hsub
  have hcore : HonoursCore C.calls.withDefaults C.inv := hC.congr rfl rfl
  have husable : ∀ {h L g n}, C.inv h L → g ∈ L →
      C.calls.withDefaults.usableSize g.block.ptr g.layout h = some n → g.layout.size ≤ n := by
    intro h L g n hinv hg hn
    exact (hC.answer_le hinv hg ((hC.answer_eq hinv hg).symm.trans hn)).1
  exact
    { hcore.withDefaults rfl rfl husable with
      base_le := fun hinv hg => by
        rw [hbase hinv]
        exact (hends hinv hg).1
      le_end := fun hinv hg => by
        rw [hbase hinv, hsize hinv]
        exact (hends hinv hg).2
      base_pos := fun hinv => by
        rw [hbase hinv]
        exact (hblock hinv).2.1
      end_le := fun hinv => by
        rw [hbase hinv, hsize hinv]
        exact (hblock hinv).2.2
      base_allocate := by
        intro h L l hinv
        rw [hbase hinv]
        rcases hcall : C.calls.allocate l h with ⟨_ | b, h'⟩
        · exact (congrArg (fun r => R.base r.2.alloc) hcall).trans
            (hbase (hC.allocate_none hinv hcall).inv)
        · exact (congrArg (fun r => R.base r.2.alloc) hcall).trans
            (hbase (hC.allocate_some hinv hcall).inv)
      base_deallocate := fun hinv hg => by
        rw [hbase hinv]
        exact hbase (hC.deallocate hinv hg).inv }

/-! ## Allocators that own a range -/

/-- The component of an allocator that owns the range `c`. -/
def ofRange (A : Allocator w σ) (R : FixedRange σ) (Inv : Heap σ → Set (Grant w) → Prop)
    (answer : Grant w → Option Nat) (roomy : NonZeroLayout w → Heap σ → Bool) (c : Block) :
    Component w σ where
  calls := A
  range := some (R, c)
  territory := c.bytes
  inv := fun h L => Inv h L ∧ R.block h.alloc = c
  answer := answer
  roomy := roomy
  leaks := fun _ _ => false
  remoteFree := fun _ _ _ => none

end Component

section

variable {w : Nat} {σ : Type} {A : Allocator w σ} {R : FixedRange σ}
  {Inv : Heap σ → Set (Grant w) → Prop} {answer : Grant w → Option Nat}
  {roomy : NonZeroLayout w → Heap σ → Bool}
  {zeroed : NonZeroLayout w → Heap σ → Option Block × Heap σ}

/-- **An allocator that owns its range is a lawful component**, if its answers cover its slices. -/
theorem OwnsRange.lawful (hA : OwnsRange A zeroed R Inv) (hR : HonoursRange A R Inv) (c : Block)
    (hanswer : ∀ {h L g}, Inv h L → g ∈ L → A.usableSize g.block.ptr g.layout h = answer g ∧
      (answer g).getD g.layout.size = g.block.len)
    (hroomy : ∀ {h L l b h'}, Inv h L → A.allocate l h = (some b, h') →
      (roomy l h = true ↔ l.size < b.len)) :
    (Component.ofRange A R Inv answer roomy c).Lawful where
  toWorksIn := hA.worksIn c
  range_spec := by
    rintro R' c' ⟨⟩
    refine ⟨rfl, fun hinv => ⟨hinv.2, ?_, ?_⟩⟩
    · have hpos := hR.base_pos hinv.1
      have hbase : R.base _ = c.ptr := congrArg Block.ptr hinv.2
      omega
    · have hend := hR.end_le hinv.1
      have hbase : R.base _ = c.ptr := congrArg Block.ptr hinv.2
      have hsize : R.size _ = c.len := congrArg Block.len hinv.2
      omega
  answer_eq := fun hinv hg => (hanswer hinv.1 hg).1
  answer_le := by
    rintro h L g n ⟨hinv, -⟩ hg hn
    have hlen := (hanswer hinv hg).2
    change answer g = some n at hn
    rw [hn, Option.getD_some] at hlen
    exact ⟨hlen ▸ (hA.satisfies hinv hg).large, hlen.le⟩
  roomy_iff := fun hinv hcall => hroomy hinv.1 hcall
  leaks_iff := by
    rintro h L l b h' ⟨hinv, -⟩ hcall
    have hlen := (hanswer (hA.allocate_some hinv hcall).inv (Set.mem_insert ⟨b, l⟩ L)).2
    exact Component.false_iff_lt_self hlen
  remote_free := by
    rintro h L g h' - - ⟨⟩

/-- So is one that answers nothing and whose slices are as long as the requests. -/
theorem OwnsRange.lawful_of_exact (hA : OwnsRange A zeroed R Inv) (hR : HonoursRange A R Inv)
    (c : Block)
    (hexact : ∀ {h L g}, Inv h L → g ∈ L → A.usableSize g.block.ptr g.layout h = none ∧
      g.block.len = g.layout.size) :
    (Component.ofRange A R Inv (fun _ => none) (fun _ _ => false) c).Lawful := by
  refine hA.lawful hR c (fun hinv hg => ⟨(hexact hinv hg).1, (hexact hinv hg).2.symm⟩) ?_
  intro h L l b h' hinv hcall
  have hlen := (hexact (hA.allocate_some hinv hcall).inv (Set.mem_insert ⟨b, l⟩ L)).2
  exact Component.false_iff_lt_self hlen.symm

end

end ForgeAlloc
