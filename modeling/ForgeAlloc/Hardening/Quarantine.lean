import ForgeAlloc.Core.Recording
import ForgeAlloc.Library.DelayLine

set_option autoImplicit false

/-! # `Quarantine`

A freed block is put into a ring of `E` cells and goes back to the inner allocator when its cell is
needed again. The cell of a free is the number of frees before it modulo `E`, counted with a
machine word that wraps around.

For the inner allocator the blocks in the ring are still out. `Holds Inv h L G` says that its ledger
is that of the wrapper together with the grants `G` of the ring; both calls keep it
(`Holds.allocate_some`, `Holds.allocate_none`, `Holds.deallocate`), so that the wrapper meets the
contract of the allocator underneath whatever the count is (`honours`).
-/

namespace ForgeAlloc

open MachineInt ByteMemory DelayLine

structure Quarantine (w : Nat) (σ : Type) (E : Nat) where
  inner : σ
  /-- The blocks held back. -/
  ring : Fin E → Option (Ticket w)
  count : Nat
  /-- `ASSERT_EPOCHS`. -/
  epochs_pos : 0 < E

namespace Quarantine

variable {w : Nat} {σ : Type} {E : Nat}

def new (w : Nat) (inner : σ) (hE : 0 < E) : Quarantine w σ E := ⟨inner, fun _ => none, 0, hE⟩

def deallocateCount (q : Quarantine w σ E) : Nat := q.count

/-- The heap of the allocator underneath. -/
def heap (h : Heap (Quarantine w σ E)) : Heap σ := h.map Quarantine.inner

/-- The cell of the next free. -/
def next (q : Quarantine w σ E) : Fin E := cell q.epochs_pos q.count

def deallocate (A : Allocator w σ) (ptr : Nat) (l : NonZeroLayout w)
    (h : Heap (Quarantine w σ E)) : Heap (Quarantine w σ E) :=
  let q := { h.alloc with ring := Function.update h.alloc.ring h.alloc.next (some (ptr, l)),
                          count := wrappingAdd w h.alloc.count 1 }
  match h.alloc.ring h.alloc.next with
  | none => ⟨q, h.mem⟩
  | some prior =>
      let h' := A.deallocate prior.1 prior.2 (heap h)
      ⟨{ q with inner := h'.alloc }, h'.mem⟩

def allocate (A : Allocator w σ) (l : NonZeroLayout w) (h : Heap (Quarantine w σ E)) :
    Option Block × Heap (Quarantine w σ E) :=
  let (r, h') := A.allocate l (heap h)
  (r, ⟨{ h.alloc with inner := h'.alloc }, h'.mem⟩)

/-- The resizes are the trait's, so that the old block goes through the ring as well. -/
def allocator (E : Nat) (A : Allocator w σ) : Allocator w (Quarantine w σ E) where
  allocate := allocate A
  deallocate := deallocate A
  grow := defaultGrow (allocate A) (deallocate A)
  shrink := defaultShrink (allocate A) (deallocate A)
  usableSize := fun ptr l h => A.usableSize ptr l (heap h)

/-! ## The blocks in the ring -/

/-- The grants in the cells of a ring. -/
def held (G : Fin E → Option (Grant w)) : Set (Grant w) := {g | ∃ j, G j = some g}

variable {A : Allocator w σ} {Inv : Heap σ → Set (Grant w) → Prop}
  {h h' : Heap (Quarantine w σ E)} {L : Set (Grant w)} {G : Fin E → Option (Grant w)}
  {g : Grant w} {l : NonZeroLayout w} {b : Block}

structure Holds (Inv : Heap σ → Set (Grant w) → Prop) (h : Heap (Quarantine w σ E))
    (L : Set (Grant w)) (G : Fin E → Option (Grant w)) : Prop where
  ring_eq : ∀ j, h.alloc.ring j = (G j).map Grant.ticket
  inner : Inv (heap h) (L ∪ held G)
  injective : ∀ {j j' g}, G j = some g → G j' = some g → j = j'
  fresh : ∀ {j g}, G j = some g → g ∉ L

theorem holds_new {s : σ} {m : Mem} (hE : 0 < E) (hinv : Inv ⟨s, m⟩ L) :
    Holds Inv ⟨new w s hE, m⟩ L fun _ => none where
  ring_eq := fun _ => rfl
  inner := by
    have hnone : held (fun _ : Fin E => (none : Option (Grant w))) = ∅ :=
      Set.eq_empty_of_forall_notMem fun g hg => by
        obtain ⟨j, hj⟩ := hg
        cases hj
    rw [hnone, Set.union_empty]
    exact hinv
  injective := fun hj => by cases hj
  fresh := fun hj => by cases hj

theorem mem_held_update {j : Fin E} {x : Grant w} :
    x ∈ held (Function.update G j (some g)) ↔ x = g ∨ ∃ j', j' ≠ j ∧ G j' = some x := by
  constructor
  · rintro ⟨j', hj'⟩
    by_cases hjj : j' = j
    · subst hjj
      rw [Function.update_self] at hj'
      exact Or.inl (Option.some.inj hj').symm
    · rw [Function.update_of_ne hjj] at hj'
      exact Or.inr ⟨j', hjj, hj'⟩
  · rintro (rfl | ⟨j', hjj, hj'⟩)
    · exact ⟨j, Function.update_self ..⟩
    · exact ⟨j', by rw [Function.update_of_ne hjj]; exact hj'⟩

/-- A free that finds an empty cell moves the block from the ledger to the ring. -/
theorem union_held_of_none {j : Fin E} (hg : g ∈ L) (hj : G j = none) :
    L \ {g} ∪ held (Function.update G j (some g)) = L ∪ held G := by
  ext x
  simp only [Set.mem_union, Set.mem_sdiff, Set.mem_singleton_iff, mem_held_update]
  constructor
  · rintro (⟨hx, -⟩ | rfl | ⟨j', -, hx⟩)
    · exact Or.inl hx
    · exact Or.inl hg
    · exact Or.inr ⟨j', hx⟩
  · rintro (hx | ⟨j', hx⟩)
    · by_cases hxg : x = g
      · exact Or.inr (Or.inl hxg)
      · exact Or.inl ⟨hx, hxg⟩
    · refine Or.inr (Or.inr ⟨j', ?_, hx⟩)
      rintro rfl
      rw [hj] at hx
      cases hx

/-- A free that finds a block in its cell also gives that block up. -/
theorem Holds.union_held_of_some (hh : Holds Inv h L G) {j : Fin E} {p : Grant w} (hg : g ∈ L)
    (hj : G j = some p) :
    L \ {g} ∪ held (Function.update G j (some g)) = (L ∪ held G) \ {p} := by
  have hpg : p ≠ g := fun heq => hh.fresh hj (heq ▸ hg)
  ext x
  simp only [Set.mem_union, Set.mem_sdiff, Set.mem_singleton_iff, mem_held_update]
  constructor
  · rintro (⟨hx, -⟩ | rfl | ⟨j', hjj, hx⟩)
    · exact ⟨Or.inl hx, fun heq => hh.fresh hj (heq ▸ hx)⟩
    · exact ⟨Or.inl hg, hpg.symm⟩
    · exact ⟨Or.inr ⟨j', hx⟩, fun heq => hjj (hh.injective hx (heq ▸ hj))⟩
  · rintro ⟨hx | ⟨j', hx⟩, hxp⟩
    · by_cases hxg : x = g
      · exact Or.inr (Or.inl hxg)
      · exact Or.inl ⟨hx, hxg⟩
    · refine Or.inr (Or.inr ⟨j', ?_, hx⟩)
      rintro rfl
      rw [hj] at hx
      exact hxp (Option.some.inj hx).symm

/-! ## The calls -/

theorem heap_deallocate_none (ptr : Nat) (hnone : h.alloc.ring h.alloc.next = none) :
    heap (deallocate A ptr l h) = heap h := by
  simp only [deallocate, hnone]
  rfl

theorem heap_deallocate_some (ptr : Nat) {prior : Ticket w}
    (hsome : h.alloc.ring h.alloc.next = some prior) :
    heap (deallocate A ptr l h) = A.deallocate prior.1 prior.2 (heap h) := by
  simp only [deallocate, hsome]
  rfl

theorem ring_deallocate (A : Allocator w σ) (ptr : Nat) (l : NonZeroLayout w)
    (h : Heap (Quarantine w σ E)) : (deallocate A ptr l h).alloc.ring =
      Function.update h.alloc.ring h.alloc.next (some (ptr, l)) := by
  simp only [deallocate]
  split <;> rfl

theorem count_deallocate (A : Allocator w σ) (ptr : Nat) (l : NonZeroLayout w)
    (h : Heap (Quarantine w σ E)) :
    (deallocate A ptr l h).alloc.count = wrappingAdd w h.alloc.count 1 := by
  simp only [deallocate]
  split <;> rfl

/-- **A free puts the block into its cell** and touches no block of the ledger that is left. -/
theorem Holds.deallocate (hA : HonoursCore A Inv) (hh : Holds Inv h L G) (hg : g ∈ L) :
    Holds Inv (Quarantine.deallocate A g.block.ptr g.layout h) (L \ {g})
        (Function.update G h.alloc.next (some g)) ∧
      Set.EqOn (Quarantine.deallocate A g.block.ptr g.layout h).mem h.mem (liveBytes (L \ {g})) := by
  have hring : ∀ j, (Quarantine.deallocate A g.block.ptr g.layout h).alloc.ring j =
      (Function.update G h.alloc.next (some g) j).map Grant.ticket := by
    intro j
    rw [ring_deallocate]
    by_cases hj : j = h.alloc.next
    · subst hj
      rw [Function.update_self, Function.update_self]
      rfl
    · rw [Function.update_of_ne hj, Function.update_of_ne hj, hh.ring_eq]
  have hinj : ∀ {j j' x}, Function.update G h.alloc.next (some g) j = some x →
      Function.update G h.alloc.next (some g) j' = some x → j = j' := by
    intro j j' x hj hj'
    simp only [Function.update_apply] at hj hj'
    -- the freed block was live, so no other cell holds it
    split at hj <;> split at hj'
    case isTrue.isTrue e e' => exact e.trans e'.symm
    case isTrue.isFalse =>
        cases hj
        exact absurd hg (hh.fresh hj')
    case isFalse.isTrue =>
        cases hj'
        exact absurd hg (hh.fresh hj)
    case isFalse.isFalse => exact hh.injective hj hj'
  have hfresh : ∀ {j x}, Function.update G h.alloc.next (some g) j = some x → x ∉ L \ {g} := by
    intro j x hj hx
    simp only [Function.update_apply] at hj
    split at hj
    · cases hj
      exact hx.2 rfl
    · exact hh.fresh hj hx.1
  rcases hcell : G h.alloc.next with _ | p
  · have hnone : h.alloc.ring h.alloc.next = none := by rw [hh.ring_eq, hcell]; rfl
    have hheap := heap_deallocate_none (A := A) (l := g.layout) g.block.ptr hnone
    refine ⟨⟨hring, ?_, hinj, hfresh⟩, ?_⟩
    · rw [hheap, union_held_of_none hg hcell]
      exact hh.inner
    · have hmem := congrArg Heap.mem hheap
      intro x _
      exact congrFun hmem x
  · have hsome : h.alloc.ring h.alloc.next = some p.ticket := by rw [hh.ring_eq, hcell]; rfl
    have hheap := heap_deallocate_some (A := A) (l := g.layout) g.block.ptr hsome
    have hfree := hA.deallocate hh.inner (Or.inr ⟨_, hcell⟩ : p ∈ L ∪ held G)
    have hset := hh.union_held_of_some hg hcell
    rw [← hset] at hfree
    refine ⟨⟨hring, ?_, hinj, hfresh⟩, ?_⟩
    · rw [hheap]
      exact hfree.inv
    · have hmem : (heap (Quarantine.deallocate A g.block.ptr g.layout h)).mem =
          (A.deallocate p.block.ptr p.layout (heap h)).mem := congrArg Heap.mem hheap
      have hframe := hfree.frame.mono (liveBytes_mono Set.subset_union_left)
      rw [← hmem] at hframe
      exact hframe

theorem Holds.allocate_some (hA : HonoursCore A Inv) (hh : Holds Inv h L G)
    (heq : allocate A l h = (some b, h')) :
    Holds Inv h' (insert ⟨b, l⟩ L) G ∧ (∀ g ∈ L, Disjoint b.bytes g.block.bytes) ∧
      Set.EqOn h'.mem h.mem (liveBytes L) ∧ h'.alloc.count = h.alloc.count := by
  rcases hcall : A.allocate l (heap h) with ⟨r, t⟩
  simp only [allocate, hcall, Prod.mk.injEq] at heq
  obtain ⟨rfl, rfl⟩ := heq
  have hiss := hA.allocate_some hh.inner hcall
  have hsat := hA.allocate_satisfies hh.inner hcall
  have hfresh : ∀ {j g}, G j = some g → g ∉ insert (⟨b, l⟩ : Grant w) L := by
    intro j g hj hg
    rcases hg with rfl | hg
    · exact not_disjoint_self hsat.len_pos (hiss.fresh ⟨b, l⟩ (Or.inr ⟨j, hj⟩))
    · exact hh.fresh hj hg
  refine ⟨⟨hh.ring_eq, ?_, hh.injective, hfresh⟩, fun g hg => hiss.fresh g (Or.inl hg),
    hiss.frame.mono (liveBytes_mono Set.subset_union_left), rfl⟩
  rw [Set.insert_union]
  exact hiss.inv

theorem Holds.allocate_none (hA : HonoursCore A Inv) (hh : Holds Inv h L G)
    (heq : allocate A l h = (none, h')) :
    Holds Inv h' L G ∧ Set.EqOn h'.mem h.mem (liveBytes L) ∧
      h'.alloc.count = h.alloc.count := by
  rcases hcall : A.allocate l (heap h) with ⟨r, t⟩
  simp only [allocate, hcall, Prod.mk.injEq] at heq
  obtain ⟨rfl, rfl⟩ := heq
  have hun := hA.allocate_none hh.inner hcall
  exact ⟨⟨hh.ring_eq, hun.inv, hh.injective, hh.fresh⟩,
    hun.frame.mono (liveBytes_mono Set.subset_union_left), rfl⟩

theorem honoursCore (hA : HonoursCore A Inv) :
    HonoursCore (allocator E A) fun h L => ∃ G, Holds Inv h L G where
  satisfies := by
    rintro h L g ⟨G, hh⟩ hg
    exact hA.satisfies hh.inner (Or.inl hg)
  disjoint := by
    rintro h L g g' ⟨G, hh⟩ hg hg' hne
    exact hA.disjoint hh.inner (Or.inl hg) (Or.inl hg') hne
  allocate_some := by
    rintro h L l b h' ⟨G, hh⟩ heq
    obtain ⟨hh', hfresh, hframe, -⟩ := hh.allocate_some hA heq
    exact ⟨⟨G, hh'⟩, hfresh, hframe⟩
  allocate_none := by
    rintro h L l h' ⟨G, hh⟩ heq
    obtain ⟨hh', hframe, -⟩ := hh.allocate_none hA heq
    exact ⟨⟨G, hh'⟩, hframe⟩
  deallocate := by
    rintro h L g ⟨G, hh⟩ hg
    obtain ⟨hh', hframe⟩ := hh.deallocate hA hg
    exact ⟨⟨_, hh'⟩, hframe⟩
  write := by
    rintro h L m ⟨G, hh⟩ hm
    refine ⟨G, hh.ring_eq, hA.write hh.inner (hm.mono ?_), hh.injective, hh.fresh⟩
    exact Set.compl_subset_compl.mpr (liveBytes_mono Set.subset_union_left)

/-- **The wrapper meets the contract of the allocator underneath.** -/
theorem honours (hA : Honours A Inv) :
    Honours (allocator E A) fun h L => ∃ G, Holds Inv h L G := by
  refine (honoursCore hA.toHonoursCore).withDefaults rfl rfl ?_
  rintro h L g n ⟨G, hh⟩ hg heq
  exact hA.usableSize hh.inner (Or.inl hg) heq

end Quarantine

end ForgeAlloc
