import ForgeAlloc.Core.Component
import ForgeAlloc.Layout.SizeClassedBacking

set_option autoImplicit false

/-! # `SizeClassed` as a component

The backing is a component with a range. A live slot of a class answers the size of its class, which
is the length of its slice; a fallback block answers what the backing answers. `Assigned` says which
layout each live slot was requested under, and that the layout fits the class.

The regions of the classes stay where they were at construction, so the answer for a block depends
on its address alone.
-/

namespace ForgeAlloc

open MachineInt ByteMemory SlotPool

namespace SizeClassed

variable {w n : Nat} {β : Type}

def backingHeap (h : Heap (SizeClassed w n β)) : Heap β := h.map SizeClassed.backing

/-- The live slots with their layouts. -/
def classGrants {cap : Nat} (s : SizeClassed w n β) (base : Nat) (pools : Fin n → Pool cap)
    (layouts : Fin n → Nat → NonZeroLayout w) : Set (Grant w) :=
  {g | ∃ i, ∃ j ∈ (pools i).live, g = ⟨classSlot s base i j, layouts i j⟩}

structure Assigned {cap : Nat} (C : Component w β) (R : FixedRange β) (c : Block)
    (regions : Fin n → Grant w) (h : Heap (SizeClassed w n β)) (L K : Set (Grant w))
    (pools : Fin n → Pool cap) (layouts : Fin n → Nat → NonZeroLayout w) (F : List (Grant w)) :
    Prop where
  holds : Holds R C.inv c.ptr K regions h pools F
  ledger_eq : L = classGrants h.alloc c.ptr pools layouts ∪ {g | g ∈ F}
  fits : ∀ i, ∀ j ∈ (pools i).live,
    max (layouts i j).size (layouts i j).align ≤ h.alloc.classSizes i

/-- The block starts in the region of a class. -/
def InClass (regions : Fin n → Grant w) (g : Grant w) : Prop :=
  ∃ i, (regions i).block.ptr ≤ g.block.ptr ∧
    g.block.ptr < (regions i).block.ptr + (regions i).block.len

instance (regions : Fin n → Grant w) (g : Grant w) : Decidable (InClass regions g) :=
  inferInstanceAs (Decidable (∃ i, (regions i).block.ptr ≤ g.block.ptr ∧
    g.block.ptr < (regions i).block.ptr + (regions i).block.len))

/-- What the class or the backing that serves a request says of it. -/
def byRoute (R : FixedRange β) (ofClass : Fin n → Bool)
    (ofBacking : NonZeroLayout w → Heap β → Bool) (l : NonZeroLayout w)
    (h : Heap (SizeClassed w n β)) : Bool :=
  match h.alloc.pickClass l.size l.align with
  | none => ofBacking l (backingHeap h)
  | some i =>
      match (h.alloc.slabs i).allocateSlot w (R.base h.alloc.backing) h.mem with
      | (some _, _) => ofClass i
      | (none, _) => ofBacking l (backingHeap h)

/-- The component over `C` with the range `R` at `c`, for classes of `cap` slots in `regions`. -/
def component (C : Component w β) (R : FixedRange β) (c : Block) (cap : Nat)
    (regions : Fin n → Grant w) : Component w (SizeClassed w n β) where
  calls := allocator C.calls R
  range := none
  territory := C.territory
  inv := fun h L => ∃ K, ∃ pools : Fin n → Pool cap, ∃ layouts F,
    Assigned C R c regions h L K pools layouts F
  answer := fun g => if InClass regions g then some g.block.len else C.answer g
  roomy := fun l h => byRoute R (fun i => decide (l.size < h.alloc.classSizes i)) C.roomy l h
  leaks := byRoute R (fun _ => false) C.leaks
  remoteFree := fun ptr l h =>
    match h.alloc.routeDealloc R ptr with
    | some _ => none
    | none => (C.remoteFree ptr l (backingHeap h)).map fun t =>
        ⟨{ h.alloc with backing := t.alloc }, t.mem⟩

variable {C : Component w β} {R : FixedRange β} {c : Block} {cap : Nat}
  {regions : Fin n → Grant w} {h h' : Heap (SizeClassed w n β)} {L K : Set (Grant w)}
  {pools : Fin n → Pool cap} {layouts : Fin n → Nat → NonZeroLayout w} {F : List (Grant w)}
  {g g' : Grant w} {l : NonZeroLayout w} {b : Block} {m : Mem} {i : Fin n} {j : Nat}

/-! ## The blocks -/

section Blocks

variable (ha : Assigned C R c regions h L K pools layouts F) (hC : C.Lawful)
  (hR : C.range = some (R, c))

theorem lt_of_live (hj : j ∈ (pools i).live) : j < cap :=
  ((pools i).lt_of_mem_live hj).trans_le (pools i).carved_le

include ha in
/-- A block is a live slot of a class or a fallback block. -/
theorem Assigned.cases (hg : g ∈ L) :
    (∃ i, ∃ j ∈ (pools i).live, g = ⟨classSlot h.alloc c.ptr i j, layouts i j⟩) ∨ g ∈ F := by
  rw [ha.ledger_eq] at hg
  exact hg

include ha in
theorem Assigned.slot_mem (hj : j ∈ (pools i).live) :
    (⟨classSlot h.alloc c.ptr i j, layouts i j⟩ : Grant w) ∈ L := by
  rw [ha.ledger_eq]
  exact Or.inl ⟨i, j, hj, rfl⟩

include ha in
theorem Assigned.fallback_mem (hF : g ∈ F) : g ∈ L := by
  rw [ha.ledger_eq]
  exact Or.inr hF

include ha hC hR in
theorem Assigned.satisfies (hg : g ∈ L) : Satisfies g.block g.layout := by
  have hA := hC.honoursRange hR
  rcases ha.cases hg with ⟨i, j, hj, rfl⟩ | hF
  · exact ha.holds.classSlot_satisfies hA (lt_of_live hj) (ha.fits i j hj)
  · exact hA.satisfies ha.holds.backing_inv (Or.inr hF)

include ha hC hR in
/-- A slot shares no byte with a block, unless it is the block. -/
theorem Assigned.slot_disjoint (hj : j < cap) (hg : g ∈ L)
    (hne : j ∈ (pools i).live → g ≠ ⟨classSlot h.alloc c.ptr i j, layouts i j⟩) :
    Disjoint (classSlot h.alloc c.ptr i j).bytes g.block.bytes := by
  have hA := hC.honoursRange hR
  rcases ha.cases hg with ⟨i', j', hj', rfl⟩ | hF
  · refine ha.holds.classSlot_disjoint hA hj (lt_of_live hj') ?_
    rintro ⟨⟩
    exact hne hj' rfl
  · exact (ha.holds.fallback_disjoint hA hF i).symm.mono_left (ha.holds.classSlot_within hA hj)

include ha hC hR in
theorem Assigned.disjoint (hg : g ∈ L) (hg' : g' ∈ L) (hne : g ≠ g') :
    Disjoint g.block.bytes g'.block.bytes := by
  rcases ha.cases hg with ⟨i, j, hj, rfl⟩ | hF
  · exact ha.slot_disjoint hC hR (lt_of_live hj) hg' fun _ => hne.symm
  · rcases ha.cases hg' with ⟨i, j, hj, rfl⟩ | hF'
    · exact (ha.slot_disjoint hC hR (lt_of_live hj) hg fun _ => hne).symm
    · exact (hC.honoursRange hR).disjoint ha.holds.backing_inv (Or.inr hF) (Or.inr hF') hne

include ha hC hR in
/-- Every block lies in a block that the backing has granted. -/
theorem Assigned.liveBytes_subset : liveBytes L ⊆ liveBytes (K ∪ {g | g ∈ F}) := by
  have hA := hC.honoursRange hR
  rintro x ⟨g, hg, hx⟩
  rcases ha.cases hg with ⟨i, j, hj, rfl⟩ | hF
  · exact ⟨_, ha.holds.region_grant i, ha.holds.classSlot_within hA (lt_of_live hj) hx⟩
  · exact ⟨g, Or.inr hF, hx⟩

include ha hC hR in
theorem Assigned.slot_subset (hj : j < cap) :
    (classSlot h.alloc c.ptr i j).bytes ⊆ C.territory :=
  (ha.holds.classSlot_within (hC.honoursRange hR) hj).trans
    (hC.subset ha.holds.backing_inv (ha.holds.region_grant i))

include ha hC hR in
theorem Assigned.inClass (hj : j < cap) (l : NonZeroLayout w) :
    InClass regions ⟨classSlot h.alloc c.ptr i j, l⟩ := by
  have hpos : 0 < h.alloc.classSizes i := ha.holds.stride_eq i ▸ (ha.holds.refines i).stride_pos
  have hin := ha.holds.classSlot_within (hC.honoursRange hR) hj
    ⟨le_rfl, Nat.lt_add_of_pos_right hpos⟩
  exact ⟨i, hin.1, hin.2⟩

include ha hC hR in
theorem Assigned.answer_slot (hj : j < cap) (l : NonZeroLayout w) :
    (component C R c cap regions).answer ⟨classSlot h.alloc c.ptr i j, l⟩ =
      some (h.alloc.classSizes i) := if_pos (ha.inClass hC hR hj l)

include ha hC hR in
theorem Assigned.not_inClass (hF : g ∈ F) : ¬ InClass regions g := by
  have hA := hC.honoursRange hR
  have hsat := ha.satisfies hC hR (ha.fallback_mem hF)
  rintro ⟨i, hge, hlt⟩
  refine Set.disjoint_left.mp (ha.holds.fallback_disjoint hA hF i) ?_ ⟨hge, hlt⟩
  exact ⟨le_rfl, Nat.lt_add_of_pos_right hsat.len_pos⟩

include ha hC hR in
theorem Assigned.answer_fallback (hF : g ∈ F) :
    (component C R c cap regions).answer g = C.answer g := if_neg (ha.not_inClass hC hR hF)

include ha hC hR in
/-- The classes look at their free slots, and the backing at what it has not granted. -/
theorem Assigned.mem_congr (hm : Set.EqOn m h.mem (C.territory \ liveBytes L)) :
    Assigned C R c regions ⟨h.alloc, m⟩ L K pools layouts F := by
  refine ⟨{ ha.holds with refines := ?_, backing_inv := ?_ }, ha.ledger_eq, ha.fits⟩
  · intro i
    apply (ha.holds.refines i).mem_congr
    intro j hj x hx
    rw [ha.holds.stride_eq] at hx
    have hlt : j < cap := ((pools i).lt_of_mem_free hj).trans_le (pools i).carved_le
    have hfree : j ∉ (pools i).live := (pools i).not_mem_live_of_mem_free hj
    refine hm ⟨ha.slot_subset hC hR hlt hx, ?_⟩
    rintro ⟨g, hg, hxg⟩
    have hdisj := ha.slot_disjoint (i := i) hC hR hlt hg fun hlive => absurd hlive hfree
    exact Set.disjoint_left.mp hdisj hx hxg
  · have hsub := Set.sdiff_subset_sdiff_right (s := C.territory) (ha.liveBytes_subset hC hR)
    exact hC.mem_congr ha.holds.backing_inv (hm.mono hsub)

end Blocks

/-! ## The ledger of the classes -/

variable {s : SizeClassed w n β} {base : Nat} {q : Pool cap} {i' : Fin n} {j' : Nat}

theorem mem_live_alloc (hq : (pools i).alloc = some (j, q)) :
    j' ∈ (Function.update pools i q i').live ↔ (i', j') = (i, j) ∨ j' ∈ (pools i').live := by
  by_cases hi : i' = i
  · subst hi
    simp [(Pool.alloc_cases hq).1]
  · simp [hi]

theorem mem_live_release (hj : j ∈ (pools i).live) :
    j' ∈ (Function.update pools i ((pools i).release j hj) i').live ↔
      (i', j') ≠ (i, j) ∧ j' ∈ (pools i').live := by
  by_cases hi : i' = i
  · subst hi
    rw [Function.update_self]
    refine ((pools i').nodup_live.mem_erase_iff).trans (and_congr_left' ?_)
    simp
  · simp [hi]

/-- The layouts once the slot `j` of the class `i` has served `l`. -/
def assign (layouts : Fin n → Nat → NonZeroLayout w) (i : Fin n) (j : Nat) (l : NonZeroLayout w) :
    Fin n → Nat → NonZeroLayout w := fun i' j' => if (i', j') = (i, j) then l else layouts i' j'

@[simp] theorem assign_self : assign layouts i j l i j = l := if_pos rfl

theorem assign_of_ne (hne : (i', j') ≠ (i, j)) : assign layouts i j l i' j' = layouts i' j' :=
  if_neg hne

/-- A slot that is live already is not the one that is issued. -/
theorem ne_of_live (hq : (pools i).alloc = some (j, q)) (hj' : j' ∈ (pools i').live) :
    (i', j') ≠ (i, j) := by
  rintro ⟨⟩
  exact Pool.alloc_not_mem hq hj'

theorem classGrants_congr {t : SizeClassed w n β}
    (hslots : ∀ i j, classSlot t base i j = classSlot s base i j) :
    classGrants t base pools layouts = classGrants s base pools layouts := by
  simp only [classGrants, hslots]

/-- A slot is issued. -/
theorem classGrants_alloc (hq : (pools i).alloc = some (j, q)) :
    classGrants s base (Function.update pools i q) (assign layouts i j l) =
      insert ⟨classSlot s base i j, l⟩ (classGrants s base pools layouts) := by
  ext g
  constructor
  · rintro ⟨i', j', hj', rfl⟩
    rcases (mem_live_alloc hq).mp hj' with heq | hlive
    · cases heq
      rw [assign_self]
      exact Or.inl rfl
    · rw [assign_of_ne (ne_of_live hq hlive)]
      exact Or.inr ⟨i', j', hlive, rfl⟩
  · rintro (rfl | ⟨i', j', hj', rfl⟩)
    · exact ⟨i, j, (mem_live_alloc hq).mpr (Or.inl rfl), by rw [assign_self]⟩
    · refine ⟨i', j', (mem_live_alloc hq).mpr (Or.inr hj'), ?_⟩
      rw [assign_of_ne (ne_of_live hq hj')]

/-- A slot is given back. -/
theorem classGrants_release (hj : j ∈ (pools i).live)
    (hinj : ∀ i' j', j' ∈ (pools i').live → classSlot s base i' j' = classSlot s base i j →
      (i', j') = (i, j)) :
    classGrants s base (Function.update pools i ((pools i).release j hj)) layouts =
      classGrants s base pools layouts \ {⟨classSlot s base i j, layouts i j⟩} := by
  ext g
  constructor
  · rintro ⟨i', j', hj', rfl⟩
    obtain ⟨hne, hlive⟩ := (mem_live_release hj).mp hj'
    exact ⟨⟨i', j', hlive, rfl⟩, fun heq => hne (hinj i' j' hlive (congrArg Grant.block heq))⟩
  · rintro ⟨⟨i', j', hj', rfl⟩, hne⟩
    refine ⟨i', j', (mem_live_release hj).mpr ⟨?_, hj'⟩, rfl⟩
    rintro ⟨⟩
    exact hne rfl

/-! ## The calls -/

section Calls

variable {slab : UntypedSlab} {bk : β} (ha : Assigned C R c regions h L K pools layouts F)
  (hC : C.Lawful) (hR : C.range = some (R, c))

include ha in
theorem Assigned.issued (hpick : h.alloc.pickClass l.size l.align = some i)
    (hq : (pools i).alloc = some (j, q)) (hsame : (h.alloc.slabs i).SameRegion slab)
    (hholds : Holds R C.inv c.ptr K regions ⟨h.alloc.setSlab i slab, h.mem⟩
      (Function.update pools i q) F) :
    Assigned C R c regions ⟨h.alloc.setSlab i slab, h.mem⟩
      (insert ⟨classSlot h.alloc c.ptr i j, l⟩ L) K (Function.update pools i q)
      (assign layouts i j l) F where
  holds := hholds
  ledger_eq := by
    rw [ha.ledger_eq, ← Set.insert_union, ← classGrants_alloc hq,
      classGrants_congr (t := h.alloc.setSlab i slab) (classSlot_setSlab hsame)]
  fits := by
    intro i' j' hj'
    rcases (mem_live_alloc hq).mp hj' with heq | hlive
    · cases heq
      rw [assign_self]
      exact (pickClass_eq_some ha.holds.sized l.width_pos hpick).1
    · rw [assign_of_ne (ne_of_live hq hlive)]
      exact ha.fits i' j' hlive

include ha in
/-- The backing takes a new state and the fallback blocks change. -/
theorem Assigned.ofBacking {t : Heap (SizeClassed w n β)} {F' : List (Grant w)}
    (hslabs : t.alloc.slabs = h.alloc.slabs) (hsizes : t.alloc.classSizes = h.alloc.classSizes)
    (hholds : Holds R C.inv c.ptr K regions t pools F') :
    Assigned C R c regions t (classGrants h.alloc c.ptr pools layouts ∪ {g | g ∈ F'}) K pools
      layouts F' where
  holds := hholds
  ledger_eq := by
    rw [classGrants_congr (t := t.alloc)]
    intro i j
    simp only [classSlot, hslabs, hsizes]
  fits := by
    rw [hsizes]
    exact ha.fits

include ha hC hR in
theorem Assigned.released (hj : j ∈ (pools i).live)
    (hsame : (h.alloc.slabs i).SameRegion slab)
    (hholds : Holds R C.inv c.ptr K regions ⟨h.alloc.setSlab i slab, m⟩
      (Function.update pools i ((pools i).release j hj)) F) :
    Assigned C R c regions ⟨h.alloc.setSlab i slab, m⟩
      (L \ {⟨classSlot h.alloc c.ptr i j, layouts i j⟩}) K
      (Function.update pools i ((pools i).release j hj)) layouts F where
  holds := hholds
  ledger_eq := by
    have hnot : (⟨classSlot h.alloc c.ptr i j, layouts i j⟩ : Grant w) ∉ {g | g ∈ F} :=
      fun hF => ha.not_inClass hC hR hF (ha.inClass hC hR (lt_of_live hj) _)
    have hlen := (ha.satisfies hC hR (ha.slot_mem hj)).len_pos
    rw [ha.ledger_eq, Set.union_sdiff_distrib, Set.sdiff_singleton_eq_self hnot,
      ← classGrants_release hj, classGrants_congr (t := h.alloc.setSlab i slab)
        (classSlot_setSlab hsame)]
    intro i' j' hj' heq
    by_contra hne
    have hdisj := ha.holds.classSlot_disjoint (hC.honoursRange hR) (lt_of_live hj')
      (lt_of_live hj) hne
    rw [heq] at hdisj
    exact not_disjoint_self hlen hdisj
  fits := by
    intro i' j' hj'
    exact ha.fits i' j' ((mem_live_release hj).mp hj').2

include ha in
/-- A request goes to the backing, or takes a slot of the class picked. -/
theorem Assigned.request_cases (l : NonZeroLayout w) :
    (allocate C.calls R l h = allocateBacking C.calls l h ∧
        ∀ ofClass ofBacking, byRoute R ofClass ofBacking l h = ofBacking l (backingHeap h)) ∨
      ∃ i j q slab, (pools i).alloc = some (j, q) ∧
        allocate C.calls R l h =
          (some (classSlot h.alloc c.ptr i j), ⟨h.alloc.setSlab i slab, h.mem⟩) ∧
        (∀ ofClass ofBacking, byRoute R ofClass ofBacking l h = ofClass i) ∧
        Assigned C R c regions ⟨h.alloc.setSlab i slab, h.mem⟩
          (insert ⟨classSlot h.alloc c.ptr i j, l⟩ L) K (Function.update pools i q)
          (assign layouts i j l) F := by
  cases hpick : h.alloc.pickClass l.size l.align with
  | none =>
      left
      refine ⟨allocate_of_no_class hpick, fun ofClass ofBacking => ?_⟩
      simp only [byRoute, hpick]
  | some i =>
      have hspec := UntypedSlab.Refines.allocateSlot_spec (w := w) (ha.holds.refines i)
      rcases ha.holds.allocate_class (A := C.calls) hpick with
        ⟨hnone, heq⟩ | ⟨j, q, slab, hq, heq, hsame, hholds⟩
      · left
        refine ⟨heq, fun ofClass ofBacking => ?_⟩
        rcases hspec with ⟨-, hslot⟩ | ⟨j, q, slab, hq, -⟩
        · simp only [byRoute, hpick, ha.holds.base_eq, hslot]
        · exact absurd (hnone.symm.trans hq) (by simp)
      · right
        refine ⟨i, j, q, slab, hq, heq, fun ofClass ofBacking => ?_,
          ha.issued hpick hq hsame hholds⟩
        rcases hspec with ⟨hnone, -⟩ | ⟨j', q', slab', -, hslot, -⟩
        · exact absurd (hnone.symm.trans hq) (by simp)
        · simp only [byRoute, hpick, ha.holds.base_eq, hslot]

/-- What a request that is served comes to. -/
structure Served (C : Component w β) (R : FixedRange β) (c : Block) (cap : Nat)
    (regions : Fin n → Grant w) (L : Set (Grant w)) (h h' : Heap (SizeClassed w n β)) (b : Block)
    (l : NonZeroLayout w) (roomy leaks : Bool) : Prop where
  issued : Issued (component C R c cap regions).inv L h h' b l
  frame : Set.EqOn h'.mem h.mem C.territoryᶜ
  roomy_iff : roomy = true ↔ l.size < b.len
  leaks_iff : leaks = true ↔ (component C R c cap regions).answered ⟨b, l⟩ < b.len

include ha hC hR in
theorem Assigned.backing_some (heq : allocateBacking C.calls l h = (some b, h')) :
    Served C R c cap regions L h h' b l (C.roomy l (backingHeap h)) (C.leaks l (backingHeap h)) := by
  have hA := hC.honoursRange hR
  have hh := ha.holds
  obtain ⟨-, hholds, hslabs, hsizes, hfresh⟩ := hh.allocateBacking_some hA heq
  have ha' := ha.ofBacking hslabs hsizes hholds
  rw [List.setOfPred_mem_cons, Set.union_insert, ← ha.ledger_eq] at ha'
  rcases hcall : C.calls.allocate l ⟨h.alloc.backing, h.mem⟩ with ⟨r, t⟩
  simp only [allocateBacking, hcall, Prod.mk.injEq] at heq
  obtain ⟨rfl, rfl⟩ := heq
  have hiss := hC.allocate_some hh.backing_inv hcall
  have hframe := hC.allocate_frame (l := l) hh.backing_inv
  rw [hcall] at hframe
  refine ⟨⟨⟨K, pools, layouts, _, ha'⟩, fun g hg => ?_, ?_⟩, hframe,
    hC.roomy_iff hh.backing_inv hcall, ?_⟩
  · rcases ha.cases hg with ⟨i, j, hj, rfl⟩ | hF
    · exact (hfresh _ (hh.region_grant i)).mono_right (hh.classSlot_within hA (lt_of_live hj))
    · exact hfresh g (Or.inr hF)
  · exact hiss.frame.mono (ha.liveBytes_subset hC hR)
  · rw [Component.answered, ha'.answer_fallback hC hR List.mem_cons_self]
    exact hC.leaks_iff hh.backing_inv hcall

include ha hC hR in
theorem Assigned.backing_none (heq : allocateBacking C.calls l h = (none, h')) :
    Unchanged (component C R c cap regions).inv L h h' ∧
      Set.EqOn h'.mem h.mem C.territoryᶜ := by
  have hA := hC.honoursRange hR
  have hh := ha.holds
  obtain ⟨-, hholds, hslabs, hsizes⟩ := hh.allocateBacking_none hA heq
  have ha' := ha.ofBacking hslabs hsizes hholds
  rw [← ha.ledger_eq] at ha'
  rcases hcall : C.calls.allocate l ⟨h.alloc.backing, h.mem⟩ with ⟨r, t⟩
  simp only [allocateBacking, hcall, Prod.mk.injEq] at heq
  obtain ⟨rfl, rfl⟩ := heq
  have hframe := hC.allocate_frame (l := l) hh.backing_inv
  rw [hcall] at hframe
  have hun := hC.allocate_none hh.backing_inv hcall
  exact ⟨⟨⟨K, pools, layouts, F, ha'⟩, hun.frame.mono (ha.liveBytes_subset hC hR)⟩, hframe⟩

include ha hC hR in
theorem Assigned.allocate_some (heq : allocate C.calls R l h = (some b, h')) :
    Served C R c cap regions L h h' b l ((component C R c cap regions).roomy l h)
      ((component C R c cap regions).leaks l h) := by
  simp only [component]
  rcases ha.request_cases l with ⟨hcall, hroute⟩ | ⟨i, j, q, slab, hq, hcall, hroute, ha'⟩
  · rw [hroute, hroute]
    exact ha.backing_some hC hR (hcall.symm.trans heq)
  · obtain ⟨⟨⟩, rfl⟩ := Prod.mk.inj (hcall.symm.trans heq)
    rw [hroute, hroute]
    refine ⟨⟨⟨K, _, _, F, ha'⟩, fun g hg => ?_, fun x _ => rfl⟩, fun x _ => rfl,
      decide_eq_true_iff, ?_⟩
    · exact ha.slot_disjoint hC hR (Pool.alloc_lt hq) hg fun hlive =>
        absurd hlive (Pool.alloc_not_mem hq)
    · rw [Component.answered, ha.answer_slot hC hR (Pool.alloc_lt hq)]
      exact Component.false_iff_lt_self rfl

include ha hC hR in
theorem Assigned.allocate_none (heq : allocate C.calls R l h = (none, h')) :
    Unchanged (component C R c cap regions).inv L h h' ∧
      Set.EqOn h'.mem h.mem C.territoryᶜ := by
  rcases ha.request_cases l with ⟨hcall, -⟩ | ⟨i, j, q, slab, -, hcall, -⟩
  · exact ha.backing_none hC hR (hcall.symm.trans heq)
  · cases hcall.symm.trans heq

include ha hC hR in
/-- The ledger without a fallback block. -/
theorem Assigned.sdiff_fallback (hF : g ∈ F) :
    classGrants h.alloc c.ptr pools layouts ∪ {g' | g' ∈ F.erase g} = L \ {g} := by
  have hnot : g ∉ classGrants h.alloc c.ptr pools layouts := by
    rintro ⟨i, j, hj, rfl⟩
    exact ha.not_inClass hC hR hF (ha.inClass hC hR (lt_of_live hj) _)
  rw [ha.ledger_eq, Set.union_sdiff_distrib, Set.sdiff_singleton_eq_self hnot,
    set_erase ha.holds.fallback_nodup]

include ha hC hR in
/-- **A free** writes into the slot, or is a free of the backing. -/
theorem Assigned.deallocate (hg : g ∈ L) :
    let h' := SizeClassed.deallocate C.calls R g.block.ptr g.layout h
    Unchanged (component C R c cap regions).inv (L \ {g}) h h' ∧
      Set.EqOn h'.mem h.mem C.territoryᶜ := by
  intro h'
  have hA := hC.honoursRange hR
  have hh := ha.holds
  rcases ha.cases hg with ⟨i, j, hj, rfl⟩ | hF
  · obtain ⟨slab, m, hcall, hsame, hholds⟩ := hh.deallocate_class (l := layouts i j) hA hj
    have heq := hh.deallocate_class_eq (l := layouts i j) hA hj
    have hframe : Set.EqOn h'.mem h.mem (classSlot h.alloc c.ptr i j).bytesᶜ := by
      rw [show h' = _ from heq]
      exact hh.link_frame i j _
    have hlt := lt_of_live hj
    have hinv := ha.released hC hR hj hsame hholds
    rw [← show h' = _ from hcall] at hinv
    refine ⟨⟨⟨K, _, layouts, F, hinv⟩, hframe.mono ?_⟩, hframe.mono ?_⟩
    · rintro x ⟨g, ⟨hg, hne⟩, hx⟩ hxs
      have hdisj := ha.slot_disjoint hC hR hlt hg fun _ => hne
      exact Set.disjoint_left.mp hdisj hxs hx
    · exact Set.compl_subset_compl.mpr (ha.slot_subset hC hR hlt)
  · obtain ⟨bk, m, hbacking, hcall, hholds⟩ := hh.deallocate_fallback hA hF
    have hbacking' : C.calls.deallocate g.block.ptr g.layout ⟨h.alloc.backing, h.mem⟩ = ⟨bk, m⟩ :=
      hbacking
    have hun := hC.deallocate hh.backing_inv (Or.inr hF)
    have hframe := hC.deallocate_frame hh.backing_inv (Or.inr hF)
    rw [hbacking', hh.sdiff_fallback hF] at hun
    rw [hbacking'] at hframe
    have heq : h' = ⟨{ h.alloc with backing := bk }, m⟩ := hcall
    have hinv := ha.ofBacking (t := h') (heq ▸ rfl) (heq ▸ rfl) (heq ▸ hholds)
    rw [ha.sdiff_fallback hC hR hF] at hinv
    rw [heq] at hinv ⊢
    exact ⟨⟨⟨K, pools, layouts, _, hinv⟩, hun.frame.mono (hinv.liveBytes_subset hC hR)⟩, hframe⟩

include ha hC hR in
theorem Assigned.remote_free (hg : g ∈ L)
    (hcall : (component C R c cap regions).remoteFree g.block.ptr g.layout h = some h') :
    (component C R c cap regions).inv h' (L \ {g}) ∧ h'.mem = h.mem := by
  have hA := hC.honoursRange hR
  have hh := ha.holds
  rcases ha.cases hg with ⟨i, j, hj, rfl⟩ | hF
  · simp only [component, hh.route_class hA (lt_of_live hj)] at hcall
    cases hcall
  · simp only [component, hh.route_fallback hA hF, Option.map_eq_some_iff] at hcall
    obtain ⟨t, hfree, rfl⟩ := hcall
    obtain ⟨hinv, hmem⟩ := hC.remote_free hh.backing_inv (Or.inr hF) hfree
    rw [hh.sdiff_fallback hF] at hinv
    obtain ⟨-, hblock⟩ := hC.range_spec hR
    have hbase : R.base t.alloc = R.base h.alloc.backing :=
      (congrArg Block.ptr (hblock hinv).1).trans (congrArg Block.ptr (hblock hh.backing_inv).1).symm
    have hholds := hh.setBacking hA hbase (fun x _ => congrFun hmem x)
      (fun g' hg' => hh.fallback_not_mem g' (List.mem_of_mem_erase hg'))
      (hh.fallback_nodup.erase g) hinv
    have ha' := ha.ofBacking (t := ⟨{ h.alloc with backing := t.alloc }, t.mem⟩) rfl rfl hholds
    rw [ha.sdiff_fallback hC hR hF] at ha'
    exact ⟨⟨K, pools, layouts, _, ha'⟩, hmem⟩

include ha hC hR in
theorem Assigned.answer_eq (hg : g ∈ L) :
    usableSize C.calls R g.block.ptr g.layout h = (component C R c cap regions).answer g := by
  have hA := hC.honoursRange hR
  rcases ha.cases hg with ⟨i, j, hj, rfl⟩ | hF
  · rw [ha.answer_slot hC hR (lt_of_live hj)]
    unfold usableSize
    rw [ha.holds.route_class hA (lt_of_live hj)]
  · rw [ha.answer_fallback hC hR hF, ← hC.answer_eq ha.holds.backing_inv (Or.inr hF)]
    unfold usableSize
    rw [ha.holds.route_fallback hA hF]

end Calls

/-- **`SizeClassed` over a lawful component with a range** is a lawful component. -/
theorem lawful (hC : C.Lawful) (hR : C.range = some (R, c)) :
    (component C R c cap regions).Lawful where
  toHonoursCore :=
    { satisfies := by
        rintro h L g ⟨K, pools, layouts, F, ha⟩ hg
        exact ha.satisfies hC hR hg
      disjoint := by
        rintro h L g g' ⟨K, pools, layouts, F, ha⟩ hg hg' hne
        exact ha.disjoint hC hR hg hg' hne
      allocate_some := by
        rintro h L l b h' ⟨K, pools, layouts, F, ha⟩ heq
        exact (ha.allocate_some hC hR heq).issued
      allocate_none := by
        rintro h L l h' ⟨K, pools, layouts, F, ha⟩ heq
        exact (ha.allocate_none hC hR heq).1
      deallocate := by
        rintro h L g ⟨K, pools, layouts, F, ha⟩ hg
        exact (ha.deallocate hC hR hg).1
      write := by
        rintro h L m ⟨K, pools, layouts, F, ha⟩ hm
        exact ⟨K, pools, layouts, F, ha.mem_congr hC hR (hm.mono fun _ hx => hx.2)⟩ }
  subset := by
    rintro h L g ⟨K, pools, layouts, F, ha⟩ hg
    rcases ha.cases hg with ⟨i, j, hj, rfl⟩ | hF
    · exact ha.slot_subset hC hR (lt_of_live hj)
    · exact hC.subset ha.holds.backing_inv (Or.inr hF)
  allocate_frame := by
    rintro h L l ⟨K, pools, layouts, F, ha⟩
    rcases hcall : allocate C.calls R l h with ⟨_ | b, h'⟩
    · exact (congrArg (fun r => r.2.mem) hcall).symm ▸ (ha.allocate_none hC hR hcall).2
    · exact (congrArg (fun r => r.2.mem) hcall).symm ▸ (ha.allocate_some hC hR hcall).frame
  deallocate_frame := by
    rintro h L g ⟨K, pools, layouts, F, ha⟩ hg
    exact (ha.deallocate hC hR hg).2
  mem_congr := by
    rintro h L m ⟨K, pools, layouts, F, ha⟩ hm
    exact ⟨K, pools, layouts, F, ha.mem_congr hC hR hm⟩
  range_spec := by
    rintro R' c' ⟨⟩
  answer_eq := by
    rintro h L g ⟨K, pools, layouts, F, ha⟩ hg
    exact ha.answer_eq hC hR hg
  answer_le := by
    rintro h L g k ⟨K, pools, layouts, F, ha⟩ hg hk
    rcases ha.cases hg with ⟨i, j, hj, rfl⟩ | hF
    · rw [ha.answer_slot hC hR (lt_of_live hj)] at hk
      cases hk
      exact ⟨(ha.satisfies hC hR hg).large, le_rfl⟩
    · rw [ha.answer_fallback hC hR hF] at hk
      exact hC.answer_le ha.holds.backing_inv (Or.inr hF) hk
  roomy_iff := by
    rintro h L l b h' ⟨K, pools, layouts, F, ha⟩ heq
    exact (ha.allocate_some hC hR heq).roomy_iff
  leaks_iff := by
    rintro h L l b h' ⟨K, pools, layouts, F, ha⟩ heq
    exact (ha.allocate_some hC hR heq).leaks_iff
  remote_free := by
    rintro h L g h' ⟨K, pools, layouts, F, ha⟩ hg hcall
    exact ha.remote_free hC hR hg hcall

/-- A construction resizes nothing. -/
theorem withClassSizes_withDefaults (A : Allocator w β) (R : FixedRange β) (sizes : Fin n → Nat)
    (slots : Nat) (t : Heap β) :
    withClassSizes A.withDefaults R sizes slots t = withClassSizes A R sizes slots t := by
  have hbuild : ∀ strides t, buildRegions A.withDefaults R slots strides t =
      buildRegions A R slots strides t := by
    intro strides
    induction strides with
    | nil => exact fun _ => rfl
    | cons stride rest ih =>
        intro t
        simp only [buildRegions, ih]
        rfl
  unfold withClassSizes
  rw [hbuild]
  rfl

/-- A constructed value holds its regions, and no block of them is out. -/
theorem component_fresh (hC : C.Lawful) (hR : C.range = some (R, c)) {t : Heap β}
    (hinv : C.inv t ∅) (hslots : cap < 2 ^ 32) {sizes : Fin n → Nat}
    (hnew : withClassSizes C.calls R sizes cap t = .ok h) :
    ∃ regions, (component C R c cap regions).inv h ∅ := by
  obtain ⟨regions, -, -, -, hholds⟩ :=
    withClassSizes_holds (hC.honoursRange hR) hinv hslots
      ((withClassSizes_withDefaults C.calls R sizes cap t).trans hnew)
  have hbase : R.base t.alloc = c.ptr := congrArg Block.ptr ((hC.range_spec hR).2 hinv).1
  rw [hbase] at hholds
  refine ⟨regions, _, fun _ => Pool.empty cap, fun i _ => (regions i).layout, [], hholds, ?_, ?_⟩
  · symm
    refine Set.eq_empty_of_forall_notMem ?_
    rintro g (⟨i, j, hj, -⟩ | hF)
    · cases hj
    · cases hF
  · rintro i j ⟨⟩

end SizeClassed

end ForgeAlloc
