import ForgeAlloc.Layout.SizeClassed

set_option autoImplicit false

/-! # `SizeClassed` over a backing that honours the contract

`Holds` relates the value to a pool for each class and to the ledger of the backing, which holds
the regions and the fallback blocks. Each operation of the value is one operation of one pool or
one call of the backing (`Holds.allocate_class`, `Holds.allocateBacking_some`,
`Holds.deallocate_class`, `Holds.deallocate_fallback`), and `withClassSizes_holds` establishes the
relation.
-/

namespace ForgeAlloc

open MachineInt ByteMemory SlotPool

namespace SizeClassed

variable {w n : Nat} {β : Type}

/-! ## The value and its backing -/

/-- The slot `j` of the class `i`, for a backing based at `base`. -/
def classSlot (s : SizeClassed w n β) (base : Nat) (i : Fin n) (j : Nat) : Block :=
  slot ((s.slabs i).basePtr base) (s.classSizes i) j

/-- Every class represents its pool in a region that the backing has granted, and the backing has
granted `K`, which includes the regions, and the fallback blocks `F`. -/
structure Holds {cap : Nat} (R : FixedRange β) (BInv : Heap β → Set (Grant w) → Prop) (base : Nat)
    (K : Set (Grant w)) (regions : Fin n → Grant w) (h : Heap (SizeClassed w n β))
    (pools : Fin n → Pool cap) (F : List (Grant w)) : Prop where
  sized : h.alloc.Sized
  base_eq : R.base h.alloc.backing = base
  region_mem : ∀ i, regions i ∈ K
  region_ptr : ∀ i, (regions i).block.ptr = base + (h.alloc.slabs i).baseOffset
  region_layout : ∀ i, (regions i).layout = h.alloc.classLayouts i
  layout_size : ∀ i, (h.alloc.classLayouts i).size = h.alloc.classSizes i * cap
  layout_align : ∀ i, (h.alloc.classLayouts i).align = h.alloc.classSizes i
  stride_eq : ∀ i, (h.alloc.slabs i).blockStride = h.alloc.classSizes i
  regionSizes_eq : ∀ i, h.alloc.regionSizes i = cap * h.alloc.classSizes i
  refines : ∀ i, (h.alloc.slabs i).Refines base h.mem (pools i)
  fallback_not_mem : ∀ g ∈ F, g ∉ K
  fallback_nodup : F.Nodup
  backing_inv : BInv ⟨h.alloc.backing, h.mem⟩ (K ∪ {g | g ∈ F})

variable {cap base : Nat} {A : Allocator w β} {R : FixedRange β}
  {BInv : Heap β → Set (Grant w) → Prop} {K : Set (Grant w)} {regions : Fin n → Grant w}
  {h h' : Heap (SizeClassed w n β)} {pools : Fin n → Pool cap} {F : List (Grant w)}
  {g : Grant w} {l : NonZeroLayout w} {b : Block}

theorem Holds.region_grant (hh : Holds R BInv base K regions h pools F) (i : Fin n) :
    regions i ∈ K ∪ {g | g ∈ F} := Or.inl (hh.region_mem i)

/-- A slot is inside the region of its class. -/
theorem Holds.classSlot_within (hh : Holds R BInv base K regions h pools F)
    (hA : HonoursRange A R BInv) {i : Fin n} {j : Nat} (hj : j < cap) :
    (classSlot h.alloc base i j).bytes ⊆ (regions i).block.bytes := by
  have hle := slot_le ((h.alloc.slabs i).basePtr base) (h.alloc.classSizes i) hj
  have hge := slot_ptr_le ((h.alloc.slabs i).basePtr base) (h.alloc.classSizes i) j
  have hlarge := (hA.satisfies hh.backing_inv (hh.region_grant i)).large
  rw [hh.region_layout, hh.layout_size, mul_comm] at hlarge
  have hptr := hh.region_ptr i
  intro x hx
  rw [Block.mem_bytes] at hx ⊢
  simp only [classSlot, UntypedSlab.basePtr, slot] at hx hle hge ⊢
  omega

theorem Holds.region_inj (hh : Holds R BInv base K regions h pools F) {i i' : Fin n}
    (heq : regions i = regions i') : i = i' := by
  have hlayout : (h.alloc.classLayouts i).align = (h.alloc.classLayouts i').align := by
    rw [← hh.region_layout, ← hh.region_layout, heq]
  rw [hh.layout_align, hh.layout_align] at hlayout
  exact hh.sized.strictMono.injective hlayout

/-- The regions of two classes do not overlap. -/
theorem Holds.region_disjoint (hh : Holds R BInv base K regions h pools F)
    (hA : HonoursRange A R BInv) {i i' : Fin n} (hne : i ≠ i') :
    Disjoint (regions i).block.bytes (regions i').block.bytes :=
  hA.disjoint hh.backing_inv (hh.region_grant i) (hh.region_grant i') fun heq =>
    hne (hh.region_inj heq)

theorem Holds.fallback_disjoint (hh : Holds R BInv base K regions h pools F)
    (hA : HonoursRange A R BInv) (hg : g ∈ F) (i : Fin n) :
    Disjoint g.block.bytes (regions i).block.bytes := by
  apply hA.disjoint hh.backing_inv (Or.inr hg) (hh.region_grant i)
  intro heq
  exact hh.fallback_not_mem g hg (heq ▸ hh.region_mem i)

/-- Two different slots, of one class or of two, do not overlap. -/
theorem Holds.classSlot_disjoint (hh : Holds R BInv base K regions h pools F)
    (hA : HonoursRange A R BInv) {i i' : Fin n} {j j' : Nat} (hj : j < cap) (hj' : j' < cap)
    (hne : (i, j) ≠ (i', j')) :
    Disjoint (classSlot h.alloc base i j).bytes (classSlot h.alloc base i' j').bytes := by
  by_cases hi : i = i'
  · subst hi
    apply slot_disjoint
    rintro rfl
    exact hne rfl
  · exact (hh.region_disjoint hA hi).mono (hh.classSlot_within hA hj) (hh.classSlot_within hA hj')

/-- What the range test of `route_dealloc` decides. -/
theorem Holds.route_test (hh : Holds R BInv base K regions h pools F) (hA : HonoursRange A R BInv)
    {p : Nat} (hp : p < 2 ^ w) (i : Fin n) :
    wrappingSub w p (wrappingAdd w (R.base h.alloc.backing) (h.alloc.slabs i).baseOffset)
        < h.alloc.regionSizes i ↔
      p ∈ (⟨(regions i).block.ptr, cap * h.alloc.classSizes i⟩ : Block).bytes := by
  have hsat := hA.satisfies hh.backing_inv (hh.region_grant i)
  have hlarge := hsat.large
  have hspace := hsat.inSpace
  have hpos := hsat.len_pos
  have hptr := hh.region_ptr i
  rw [hh.region_layout, hh.layout_size, mul_comm] at hlarge
  rw [hh.base_eq, wrappingAdd_of_lt (by omega), ← hptr, hh.regionSizes_eq,
    wrappingSub_lt_iff hp (by omega)]
  rfl

/-- A pointer into the region of a class is routed to that class. -/
theorem Holds.route_class (hh : Holds R BInv base K regions h pools F)
    (hA : HonoursRange A R BInv) {i : Fin n} {j : Nat} (hj : j < cap) :
    h.alloc.routeDealloc R (classSlot h.alloc base i j).ptr = some i := by
  have hpos : 0 < h.alloc.classSizes i := hh.stride_eq i ▸ (hh.refines i).stride_pos
  have hin : (classSlot h.alloc base i j).ptr ∈ (classSlot h.alloc base i j).bytes :=
    ⟨le_rfl, Nat.lt_add_of_pos_right hpos⟩
  have hregion := hh.classSlot_within hA hj hin
  have hlt : (classSlot h.alloc base i j).ptr < 2 ^ w := by
    have hspace := (hA.satisfies hh.backing_inv (hh.region_grant i)).inSpace
    exact hregion.2.trans_le hspace
  have htest : (classSlot h.alloc base i j).ptr
      ∈ (⟨(regions i).block.ptr, cap * h.alloc.classSizes i⟩ : Block).bytes := by
    have hle := slot_le ((h.alloc.slabs i).basePtr base) (h.alloc.classSizes i) hj
    have hptr := hh.region_ptr i
    rw [Block.mem_bytes]
    simp only [classSlot, slot, UntypedSlab.basePtr] at hle hpos ⊢
    omega
  unfold routeDealloc
  rw [List.find?_eq_some_iff_append]
  refine ⟨decide_eq_true ((hh.route_test hA hlt i).mpr htest), ?_⟩
  obtain ⟨as, bs, hsplit⟩ := List.append_of_mem (List.mem_finRange i)
  refine ⟨as, bs, hsplit, fun i' hi' => ?_⟩
  -- an earlier class has a region of its own
  have hne : i' ≠ i := by
    rintro rfl
    have hnodup := List.nodup_finRange n
    rw [hsplit, List.nodup_append] at hnodup
    exact hnodup.2.2 i' hi' i' List.mem_cons_self rfl
  have hlarge := (hA.satisfies hh.backing_inv (hh.region_grant i')).large
  rw [hh.region_layout, hh.layout_size, mul_comm] at hlarge
  have hnot : ¬ (classSlot h.alloc base i j).ptr
      ∈ (⟨(regions i').block.ptr, cap * h.alloc.classSizes i'⟩ : Block).bytes := by
    intro hmem
    refine Set.disjoint_left.mp (hh.region_disjoint hA hne) ?_ hregion
    exact ⟨hmem.1, hmem.2.trans_le (Nat.add_le_add_left hlarge _)⟩
  rw [Bool.not_eq_true', decide_eq_false_iff_not, hh.route_test hA hlt]
  exact hnot

/-- A pointer that the backing issued for itself is routed to the backing. -/
theorem Holds.route_fallback (hh : Holds R BInv base K regions h pools F)
    (hA : HonoursRange A R BInv) (hg : g ∈ F) : h.alloc.routeDealloc R g.block.ptr = none := by
  have hsat := hA.satisfies hh.backing_inv (Or.inr hg)
  have hpos := hsat.len_pos
  have hspace := hsat.inSpace
  unfold routeDealloc
  rw [List.find?_eq_none]
  intro i _
  rw [decide_eq_true_eq, hh.route_test hA (by omega)]
  intro hmem
  have hlarge := (hA.satisfies hh.backing_inv (hh.region_grant i)).large
  rw [hh.region_layout, hh.layout_size, mul_comm] at hlarge
  refine Set.disjoint_left.mp (hh.fallback_disjoint hA hg i) ⟨le_rfl, by omega⟩ ?_
  exact ⟨hmem.1, hmem.2.trans_le (Nat.add_le_add_left hlarge _)⟩

/-! ## The operations -/

theorem setSlab_self (s : SizeClassed w n β) (i : Fin n) : s.setSlab i (s.slabs i) = s := by
  unfold setSlab
  rw [Function.update_eq_self]

theorem classSlot_setSlab {s : SizeClassed w n β} {i : Fin n} {slab : UntypedSlab}
    (hsame : (s.slabs i).SameRegion slab) (i' : Fin n) (j : Nat) :
    classSlot (s.setSlab i slab) base i' j = classSlot s base i' j := by
  have hoff : ((s.setSlab i slab).slabs i').baseOffset = (s.slabs i').baseOffset := by
    show (Function.update s.slabs i slab i').baseOffset = _
    by_cases heq : i' = i
    · rw [heq, Function.update_self, hsame.baseOffset_eq]
    · rw [Function.update_of_ne heq]
  simp only [classSlot, UntypedSlab.basePtr, hoff]
  rfl

/-- Memory that agrees on the granted blocks represents the same pools. -/
theorem Holds.refines_congr (hh : Holds R BInv base K regions h pools F)
    (hA : HonoursRange A R BInv) {m : Mem} (hm : Set.EqOn m h.mem (liveBytes K)) (i : Fin n) :
    (h.alloc.slabs i).Refines base m (pools i) := by
  apply (hh.refines i).mem_congr
  intro j hj x hx
  apply hm
  rw [hh.stride_eq] at hx
  have hlt : j < cap := ((pools i).lt_of_mem_free hj).trans_le (pools i).carved_le
  exact bytes_subset_liveBytes (hh.region_mem i) (hh.classSlot_within hA hlt hx)

/-- A class takes a new state and the memory changes: what is left to show. -/
theorem Holds.setSlab (hh : Holds R BInv base K regions h pools F) {i : Fin n}
    {slab : UntypedSlab} {m : Mem} {q : Pool cap} (hsame : (h.alloc.slabs i).SameRegion slab)
    (hslab : slab.Refines base m q)
    (hother : ∀ i', i' ≠ i → (h.alloc.slabs i').Refines base m (pools i'))
    (hinv : BInv ⟨h.alloc.backing, m⟩ (K ∪ {g | g ∈ F})) :
    Holds R BInv base K regions ⟨h.alloc.setSlab i slab, m⟩ (Function.update pools i q) F := by
  have hslabs : ∀ i', (h.alloc.setSlab i slab).slabs i' = Function.update h.alloc.slabs i slab i' :=
    fun _ => rfl
  refine
    { sized := ⟨hh.sized.pow, hh.sized.strictMono, hh.sized.lookup_eq⟩
      base_eq := hh.base_eq
      region_mem := hh.region_mem
      region_ptr := fun i' => ?_
      region_layout := hh.region_layout
      layout_size := hh.layout_size
      layout_align := hh.layout_align
      stride_eq := fun i' => ?_
      regionSizes_eq := hh.regionSizes_eq
      refines := fun i' => ?_
      fallback_not_mem := hh.fallback_not_mem
      fallback_nodup := hh.fallback_nodup
      backing_inv := hinv }
  · rw [hslabs]
    by_cases heq : i' = i
    · rw [heq, Function.update_self, hsame.baseOffset_eq, hh.region_ptr]
    · rw [Function.update_of_ne heq, hh.region_ptr]
  · rw [hslabs]
    by_cases heq : i' = i
    · rw [heq, Function.update_self, hsame.blockStride_eq]
      exact hh.stride_eq i
    · rw [Function.update_of_ne heq]
      exact hh.stride_eq i'
  · rw [hslabs]
    by_cases heq : i' = i
    · subst heq
      rw [Function.update_self, Function.update_self]
      exact hslab
    · rw [Function.update_of_ne heq, Function.update_of_ne heq]
      exact hother i' heq

/-- The backing takes a new state and the memory changes outside the regions. -/
theorem Holds.setBacking (hh : Holds R BInv base K regions h pools F)
    (hA : HonoursRange A R BInv) {bk : β} {m : Mem} {F' : List (Grant w)}
    (hbase : R.base bk = R.base h.alloc.backing) (hm : Set.EqOn m h.mem (liveBytes K))
    (hnot : ∀ g ∈ F', g ∉ K) (hnodup : F'.Nodup) (hinv : BInv ⟨bk, m⟩ (K ∪ {g | g ∈ F'})) :
    Holds R BInv base K regions ⟨{ h.alloc with backing := bk }, m⟩ pools F' :=
  { sized := ⟨hh.sized.pow, hh.sized.strictMono, hh.sized.lookup_eq⟩
    base_eq := hbase.trans hh.base_eq
    region_mem := hh.region_mem
    region_ptr := hh.region_ptr
    region_layout := hh.region_layout
    layout_size := hh.layout_size
    layout_align := hh.layout_align
    stride_eq := hh.stride_eq
    regionSizes_eq := hh.regionSizes_eq
    refines := hh.refines_congr hA hm
    fallback_not_mem := hnot
    fallback_nodup := hnodup
    backing_inv := hinv }

/-- A slot of the class picked is what the contract promises for the request. -/
theorem Holds.classSlot_satisfies (hh : Holds R BInv base K regions h pools F)
    (hA : HonoursRange A R BInv) {i : Fin n} {j : Nat} (hj : j < cap)
    (hfits : max l.size l.align ≤ h.alloc.classSizes i) :
    Satisfies (classSlot h.alloc base i j) l := by
  have hsat := hA.satisfies hh.backing_inv (hh.region_grant i)
  have hwithin := hh.classSlot_within hA (i := i) hj
  have hpos : 0 < h.alloc.classSizes i := hh.stride_eq i ▸ (hh.refines i).stride_pos
  have hfst : (classSlot h.alloc base i j).ptr ∈ (regions i).block.bytes :=
    hwithin ⟨le_rfl, Nat.lt_add_of_pos_right hpos⟩
  have hlst : (classSlot h.alloc base i j).ptr + (h.alloc.classSizes i - 1)
      ∈ (regions i).block.bytes := by
    apply hwithin
    rw [Block.mem_bytes]
    simp only [classSlot, slot]
    omega
  have hspace := hsat.inSpace
  have haligned := hsat.aligned
  rw [hh.region_layout, hh.layout_align] at haligned
  constructor
  · -- the alignment divides the stride, and the stride divides the start of the region
    have hdvd : l.align ∣ h.alloc.classSizes i := by
      obtain ⟨k, -, hk⟩ := hh.sized.pow i
      exact dvd_of_le_of_isPowerOfTwo l.align_pow ⟨k, hk⟩ ((le_max_right _ _).trans hfits)
    have hptr : (classSlot h.alloc base i j).ptr
        = (regions i).block.ptr + j * h.alloc.classSizes i := by
      rw [hh.region_ptr]
      rfl
    rw [hptr]
    exact (hdvd.trans haligned).add (hdvd.mul_left j)
  · exact (le_max_left _ _).trans hfits
  · exact hsat.nonnull.trans_le hfst.1
  · show (classSlot h.alloc base i j).ptr + h.alloc.classSizes i ≤ 2 ^ w
    have := hlst.2
    omega

/-- **`allocate` of a request that a class takes**: `Pool.alloc` of the class, and the backing
when the class is exhausted. -/
theorem Holds.allocate_class (hh : Holds R BInv base K regions h pools F) {i : Fin n}
    (hpick : h.alloc.pickClass l.size l.align = some i) :
    ((pools i).alloc = none ∧ allocate A R l h = allocateBacking A l h) ∨
      ∃ j q slab, (pools i).alloc = some (j, q) ∧
        allocate A R l h =
          (some (classSlot h.alloc base i j), ⟨h.alloc.setSlab i slab, h.mem⟩) ∧
        (h.alloc.slabs i).SameRegion slab ∧
        Holds R BInv base K regions ⟨h.alloc.setSlab i slab, h.mem⟩ (Function.update pools i q)
          F := by
  rcases UntypedSlab.Refines.allocateSlot_spec (w := w) (hh.refines i) with
    ⟨hnone, heq⟩ | ⟨j, q, slab, hq, heq, hr, hsame⟩
  · left
    refine ⟨hnone, ?_⟩
    unfold allocate
    rw [hpick]
    simp only [hh.base_eq, heq]
    rw [setSlab_self]
  · right
    refine ⟨j, q, slab, hq, ?_, hsame, ?_⟩
    · unfold allocate
      rw [hpick]
      simp only [hh.base_eq, heq, UntypedSlab.slotPtr_eq, hh.stride_eq]
      rfl
    · exact hh.setSlab hsame hr (fun i' _ => hh.refines i') hh.backing_inv

theorem allocate_of_no_class (hpick : h.alloc.pickClass l.size l.align = none) :
    allocate A R l h = allocateBacking A l h := by
  unfold allocate
  rw [hpick]

theorem liveBytes_left (K : Set (Grant w)) (F : List (Grant w)) :
    liveBytes K ⊆ liveBytes (K ∪ {g | g ∈ F}) := liveBytes_mono Set.subset_union_left

/-- **The backing serves a request**: the block is a new fallback block. -/
theorem Holds.allocateBacking_some (hh : Holds R BInv base K regions h pools F)
    (hA : HonoursRange A R BInv) (heq : allocateBacking A l h = (some b, h')) :
    (A.allocate l ⟨h.alloc.backing, h.mem⟩).1 = some b ∧
      Holds R BInv base K regions h' pools (⟨b, l⟩ :: F) ∧
      h'.alloc.slabs = h.alloc.slabs ∧ h'.alloc.classSizes = h.alloc.classSizes ∧
      (∀ g ∈ K ∪ {g | g ∈ F}, Disjoint b.bytes g.block.bytes) := by
  rcases hcall : A.allocate l ⟨h.alloc.backing, h.mem⟩ with ⟨r, g'⟩
  have hbase : R.base g'.alloc = R.base h.alloc.backing := by
    have := hA.base_allocate (l := l) hh.backing_inv
    rwa [hcall] at this
  simp only [allocateBacking, hcall, Prod.mk.injEq] at heq
  obtain ⟨rfl, rfl⟩ := heq
  have hiss := hA.allocate_some hh.backing_inv hcall
  have hne : ∀ g ∈ K ∪ {g | g ∈ F}, g ≠ ⟨b, l⟩ :=
    fun g hg => hA.ne_of_disjoint hh.backing_inv hg (hiss.fresh g hg)
  refine ⟨rfl, ?_, rfl, rfl, hiss.fresh⟩
  apply hh.setBacking hA hbase (hiss.frame.mono (liveBytes_left K F))
  · intro g hg
    rcases List.mem_cons.mp hg with rfl | hg
    · exact fun hK => hne _ (Or.inl hK) rfl
    · exact hh.fallback_not_mem g hg
  · exact List.nodup_cons.mpr ⟨fun hF => hne _ (Or.inr hF) rfl, hh.fallback_nodup⟩
  · rw [List.setOfPred_mem_cons, Set.union_insert]
    exact hiss.inv

theorem Holds.allocateBacking_none (hh : Holds R BInv base K regions h pools F)
    (hA : HonoursRange A R BInv) (heq : allocateBacking A l h = (none, h')) :
    (A.allocate l ⟨h.alloc.backing, h.mem⟩).1 = none ∧
      Holds R BInv base K regions h' pools F ∧
      h'.alloc.slabs = h.alloc.slabs ∧ h'.alloc.classSizes = h.alloc.classSizes := by
  rcases hcall : A.allocate l ⟨h.alloc.backing, h.mem⟩ with ⟨r, g'⟩
  have hbase : R.base g'.alloc = R.base h.alloc.backing := by
    have := hA.base_allocate (l := l) hh.backing_inv
    rwa [hcall] at this
  simp only [allocateBacking, hcall, Prod.mk.injEq] at heq
  obtain ⟨rfl, rfl⟩ := heq
  have hunch := hA.allocate_none hh.backing_inv hcall
  refine ⟨rfl, ?_, rfl, rfl⟩
  exact hh.setBacking hA hbase (hunch.frame.mono (liveBytes_left K F)) hh.fallback_not_mem
    hh.fallback_nodup hunch.inv

theorem Holds.slotPtr_eq (hh : Holds R BInv base K regions h pools F) (i : Fin n) (j : Nat) :
    (h.alloc.slabs i).slotPtr base j = (classSlot h.alloc base i j).ptr := by
  rw [UntypedSlab.slotPtr_eq, hh.stride_eq]
  rfl

/-- What `deallocate` of a class slot does: the link goes into the slot. -/
theorem Holds.deallocate_class_eq (hh : Holds R BInv base K regions h pools F)
    (hA : HonoursRange A R BInv) {i : Fin n} {j : Nat} (hj : j ∈ (pools i).live) :
    deallocate A R (classSlot h.alloc base i j).ptr l h =
      ⟨h.alloc.setSlab i { h.alloc.slabs i with freeHead := j + 1 },
        writeU32 h.mem (classSlot h.alloc base i j).ptr (h.alloc.slabs i).freeHead⟩ := by
  have hlt : j < cap := ((pools i).lt_of_mem_live hj).trans_le (pools i).carved_le
  have heq := (UntypedSlab.Refines.freeSlot_spec (w := w) (hh.refines i) hj).1
  rw [hh.slotPtr_eq] at heq
  unfold deallocate
  rw [hh.route_class hA hlt]
  simp only [hh.base_eq, heq]

/-- The link of a slot fits into the slot. -/
theorem Holds.link_frame (hh : Holds R BInv base K regions h pools F) (i : Fin n) (j v : Nat) :
    Set.EqOn (writeU32 h.mem (classSlot h.alloc base i j).ptr v) h.mem
      (classSlot h.alloc base i j).bytesᶜ := by
  intro x hx
  apply writeU32_of_not_mem
  have hlink := (hh.refines i).link_le
  rw [hh.stride_eq] at hlink
  rw [Set.mem_compl_iff, Block.mem_bytes] at hx
  simp only [classSlot, slot] at hx ⊢
  unfold untypedLinkSize at hlink
  omega

/-- **`deallocate` of a class slot** is `Pool.release` of that class. -/
theorem Holds.deallocate_class (hh : Holds R BInv base K regions h pools F)
    (hA : HonoursRange A R BInv) {i : Fin n} {j : Nat} (hj : j ∈ (pools i).live) :
    ∃ slab m, deallocate A R (classSlot h.alloc base i j).ptr l h =
        ⟨h.alloc.setSlab i slab, m⟩ ∧ (h.alloc.slabs i).SameRegion slab ∧
      Holds R BInv base K regions ⟨h.alloc.setSlab i slab, m⟩
        (Function.update pools i ((pools i).release j hj)) F := by
  have hlt : j < cap := ((pools i).lt_of_mem_live hj).trans_le (pools i).carved_le
  have hr := (UntypedSlab.Refines.freeSlot_spec (w := w) (hh.refines i) hj).2
  rw [hh.slotPtr_eq] at hr
  have hwrite := hh.link_frame i j (h.alloc.slabs i).freeHead
  have hsame : (h.alloc.slabs i).SameRegion { h.alloc.slabs i with freeHead := j + 1 } :=
    ⟨rfl, rfl, rfl⟩
  refine ⟨_, _, hh.deallocate_class_eq hA hj, hsame, ?_⟩
  apply hh.setSlab hsame hr
  · -- the write stays in the region of the class
    intro i' hne
    apply (hh.refines i').mem_congr
    intro j' hj' x hx
    apply hwrite
    have hlt' : j' < cap := ((pools i').lt_of_mem_free hj').trans_le (pools i').carved_le
    rw [hh.stride_eq] at hx
    have hdisj : Disjoint (classSlot h.alloc base i' j').bytes (classSlot h.alloc base i j).bytes :=
      hh.classSlot_disjoint hA hlt' hlt fun heq => hne (congrArg Prod.fst heq)
    exact Set.disjoint_left.mp hdisj hx
  · apply hA.write hh.backing_inv
    intro x hx
    apply hwrite
    intro hmem
    apply hx
    exact bytes_subset_liveBytes (hh.region_grant i) (hh.classSlot_within hA hlt hmem)

/-- What the backing has granted, without a fallback block. -/
theorem Holds.sdiff_fallback (hh : Holds R BInv base K regions h pools F) (hg : g ∈ F) :
    (K ∪ {g | g ∈ F}) \ {g} = K ∪ {g' | g' ∈ F.erase g} := by
  rw [Set.union_sdiff_distrib, Set.sdiff_singleton_eq_self (hh.fallback_not_mem g hg),
    set_erase hh.fallback_nodup]

/-- **`deallocate` of a fallback block** hands the pointer and the layout to the backing. -/
theorem Holds.deallocate_fallback (hh : Holds R BInv base K regions h pools F)
    (hA : HonoursRange A R BInv) (hg : g ∈ F) :
    ∃ bk m, A.deallocate g.block.ptr g.layout ⟨h.alloc.backing, h.mem⟩ = ⟨bk, m⟩ ∧
      deallocate A R g.block.ptr g.layout h = ⟨{ h.alloc with backing := bk }, m⟩ ∧
      Holds R BInv base K regions ⟨{ h.alloc with backing := bk }, m⟩ pools (F.erase g) := by
  have hunch := hA.deallocate hh.backing_inv (g := g) (Or.inr hg)
  rw [hh.sdiff_fallback hg] at hunch
  refine ⟨_, _, rfl, ?_, ?_⟩
  · unfold deallocate
    rw [hh.route_fallback hA hg]
  · apply hh.setBacking hA (hA.base_deallocate hh.backing_inv (Or.inr hg))
      (hunch.frame.mono (liveBytes_left _ _))
    · exact fun g' hg' => hh.fallback_not_mem g' (List.mem_of_mem_erase hg')
    · exact hh.fallback_nodup.erase g
    · exact hunch.inv

/-- The holder of a live block may write into it. -/
theorem Holds.write (hh : Holds R BInv base K regions h pools F) (hA : HonoursRange A R BInv)
    {m : Mem} {c : Block} (hm : ∀ x, x ∉ c.bytes → m x = h.mem x)
    (hc : (∃ i, ∃ j ∈ (pools i).live, c = classSlot h.alloc base i j) ∨
      ∃ g ∈ F, c = g.block) :
    Holds R BInv base K regions ⟨h.alloc, m⟩ pools F := by
  have hlive : c.bytes ⊆ liveBytes (K ∪ {g | g ∈ F}) := by
    rcases hc with ⟨i, j, hj, rfl⟩ | ⟨g, hg, rfl⟩
    · have hlt : j < cap := ((pools i).lt_of_mem_live hj).trans_le (pools i).carved_le
      exact (hh.classSlot_within hA hlt).trans (bytes_subset_liveBytes (hh.region_grant i))
    · exact bytes_subset_liveBytes (Or.inr hg)
  -- a free slot is not part of a live block
  have hfree : ∀ i, ∀ j ∈ (pools i).free, Disjoint (classSlot h.alloc base i j).bytes c.bytes := by
    intro i j hj
    have hlt : j < cap := ((pools i).lt_of_mem_free hj).trans_le (pools i).carved_le
    rcases hc with ⟨i', j', hj', rfl⟩ | ⟨g, hg, rfl⟩
    · have hlt' : j' < cap := ((pools i').lt_of_mem_live hj').trans_le (pools i').carved_le
      apply hh.classSlot_disjoint hA hlt hlt'
      rintro ⟨⟩
      exact (pools i).not_mem_live_of_mem_free hj hj'
    · exact (hh.fallback_disjoint hA hg i).symm.mono_left (hh.classSlot_within hA hlt)
  exact
    { hh with
      refines := by
        intro i
        apply (hh.refines i).mem_congr
        intro j hj x hx
        rw [hh.stride_eq] at hx
        exact hm x (Set.disjoint_left.mp (hfree i j hj) hx)
      backing_inv := by
        apply hA.write hh.backing_inv
        intro x hx
        exact hm x fun hxc => hx (hlive hxc) }

/-! ## Construction -/

theorem validSizes_spec : ∀ {sizes : List Nat} {last : Nat}, validSizes last sizes = true →
    (∀ s ∈ sizes, untypedLinkSize ≤ s ∧ s.isPowerOfTwo) ∧ (last :: sizes).IsChain (· < ·) := by
  intro sizes
  induction sizes with
  | nil =>
      intro last _
      exact ⟨fun s hs => absurd hs List.not_mem_nil, List.isChain_singleton last⟩
  | cons s rest ih =>
      intro last hvalid
      rw [validSizes] at hvalid
      split at hvalid
      · cases hvalid
      case isFalse hnot =>
          simp only [not_or, not_lt, not_not, not_le] at hnot
          obtain ⟨hlink, hpow, hlt⟩ := hnot
          obtain ⟨hall, hchain⟩ := ih hvalid
          constructor
          · intro s' hs'
            rcases List.mem_cons.mp hs' with rfl | hs'
            · exact ⟨hlink, hpow⟩
            · exact hall s' hs'
          · exact List.isChain_cons_cons.mpr ⟨hlt, hchain⟩

/-- What the loop records for a class whose region is the grant `g`. -/
structure Built (base slots : Nat) (e : UntypedSlab × NonZeroLayout w) (g : Grant w) : Prop where
  slab_eq : ∃ off stride, e.1 = UntypedSlab.new off stride slots
  layout_eq : g.layout = e.2
  ptr_eq : g.block.ptr = base + e.1.baseOffset
  size_eq : e.2.size = e.1.blockStride * slots
  align_eq : e.2.align = e.1.blockStride

/-- Every region the loop has taken is a grant of the backing, in the order of the sizes. -/
theorem buildRegions_spec (hA : HonoursRange A R BInv) {slots : Nat} :
    ∀ {sizes : List Nat} {h h' : Heap β} {L : Set (Grant w)}
      {built : List (UntypedSlab × NonZeroLayout w)}, BInv h L →
      buildRegions A R slots sizes h = (built, h') →
      ∃ grants : List (Grant w), List.Forall₂ (Built (R.base h.alloc) slots) built grants ∧
        built.map (fun e => e.1.blockStride) <+: sizes ∧ BInv h' (L ∪ {g | g ∈ grants}) ∧
        R.base h'.alloc = R.base h.alloc ∧ grants.Nodup ∧ ∀ g ∈ grants, g ∉ L := by
  intro sizes
  induction sizes with
  | nil =>
      intro h h' L built hinv heq
      cases heq
      exact ⟨[], .nil, List.nil_prefix, by simpa using hinv, rfl, List.nodup_nil,
        List.forall_mem_nil _⟩
  | cons stride rest ih =>
      intro h h' L built hinv heq
      rw [buildRegions] at heq
      split at heq
      · cases heq
        exact ⟨[], .nil, List.nil_prefix, by simpa using hinv, rfl, List.nodup_nil,
          List.forall_mem_nil _⟩
      case h_2 layout hlayout =>
          simp only [Option.bind_eq_some_iff, checkedMul_eq_some] at hlayout
          obtain ⟨total, ⟨-, rfl⟩, hlayout⟩ := hlayout
          obtain ⟨hsize, halign⟩ := NonZeroLayout.fromSizeAlign_eq_some.mp hlayout
          have hbase : R.base (A.allocate layout h).2.alloc = R.base h.alloc :=
            hA.base_allocate hinv
          rcases hcall : A.allocate layout h with ⟨_ | region, h₁⟩
          · rw [hcall] at heq hbase
            cases heq
            have hkept := (hA.allocate_none hinv hcall).inv
            exact ⟨[], .nil, List.nil_prefix, by simpa using hkept, hbase, List.nodup_nil,
              List.forall_mem_nil _⟩
          · rw [hcall] at heq hbase
            simp only at heq hbase
            rcases hrest : buildRegions A R slots rest h₁ with ⟨built₁, h₂⟩
            rw [hrest] at heq
            cases heq
            have hiss := hA.allocate_some hinv hcall
            obtain ⟨grants, hbuilt, hprefix, hinv', hbase', hnodup, hnot⟩ := ih hiss.inv hrest
            have hgrant : (⟨region, layout⟩ : Grant w) ∈
                insert (⟨region, layout⟩ : Grant w) L := Set.mem_insert _ _
            have hle : R.base h₁.alloc ≤ region.ptr := hA.base_le hiss.inv hgrant
            have hsat := hA.satisfies hiss.inv hgrant
            have hlt : region.ptr < 2 ^ w := by
              have hspace := hsat.inSpace
              have hpos := hsat.len_pos
              simp only at hspace hpos
              omega
            refine ⟨⟨region, layout⟩ :: grants, .cons ?_ (hbase ▸ hbuilt), ?_, ?_,
              hbase'.trans hbase, ?_, ?_⟩
            · refine ⟨⟨_, _, rfl⟩, rfl, ?_, hsize, halign⟩
              show region.ptr = R.base h.alloc + wrappingSub w region.ptr (R.base h₁.alloc)
              rw [wrappingSub_of_le hle hlt, hbase]
              omega
            · exact List.cons_prefix_cons.mpr ⟨rfl, hprefix⟩
            · rw [List.setOfPred_mem_cons, Set.union_insert, ← Set.insert_union]
              exact hinv'
            · exact List.nodup_cons.mpr ⟨fun hmem => hnot _ hmem hgrant, hnodup⟩
            · intro g hg hL
              rcases List.mem_cons.mp hg with rfl | hg
              · exact hA.ne_of_disjoint hinv hL (hiss.fresh _ hL) rfl
              · exact hnot g hg (Set.mem_insert_of_mem _ hL)

/-- **A constructed value holds empty pools** over the regions it has taken. -/
theorem withClassSizes_holds (hA : HonoursRange A R BInv) {g : Heap β} {L : Set (Grant w)}
    (hinv : BInv g L) {sizes : Fin n → Nat} (hslots : cap < 2 ^ 32)
    (hnew : withClassSizes A R sizes cap g = .ok h) :
    ∃ regions : Fin n → Grant w, (List.ofFn regions).Nodup ∧ (∀ g ∈ List.ofFn regions, g ∉ L) ∧
      h.alloc.classSizes = sizes ∧
      Holds R BInv (R.base g.alloc) (L ∪ {g | g ∈ List.ofFn regions}) regions h
        (fun _ => Pool.empty cap) [] := by
  unfold withClassSizes at hnew
  split at hnew
  · cases hnew
  case isFalse hpos =>
  split at hnew
  · cases hnew
  case isFalse hvalid =>
  rcases hbuild : buildRegions A R cap (List.ofFn sizes) g with ⟨built, h₁⟩
  rw [hbuild] at hnew
  simp only at hnew
  split at hnew
  case isFalse => cases hnew
  case isTrue hlen =>
  split at hnew
  · cases hnew
  cases hnew
  obtain ⟨grants, hbuilt, hprefix, hinv', hbase, hnodup, hnot⟩ := buildRegions_spec hA hinv hbuild
  rw [Bool.not_eq_false] at hvalid
  obtain ⟨hall, hchain⟩ := validSizes_spec hvalid
  have hcap : 0 < cap := by omega
  have hglen : grants.length = n := hbuilt.length_eq.symm.trans hlen
  -- every class was built, so the strides are the sizes
  have hstrides : built.map (fun e => e.1.blockStride) = List.ofFn sizes :=
    hprefix.eq_of_length (by simp [hlen])
  have hstride : ∀ i : Fin n, (built.get (i.cast hlen.symm)).1.blockStride = sizes i := by
    intro i
    have hget := congrArg (fun l : List Nat => l[i.val]?) hstrides
    simpa [List.getElem?_map, List.getElem?_ofFn, hlen] using hget
  have hentry : ∀ i : Fin n, Built (R.base g.alloc) cap (built.get (i.cast hlen.symm))
      (grants.get (i.cast hglen.symm)) := by
    intro i
    exact (List.forall₂_iff_get.mp hbuilt).2 i.val (by omega) (by omega)
  have hmono : StrictMono sizes := by
    have hpair := (List.isChain_iff_pairwise.mp hchain).of_cons
    rw [List.pairwise_ofFn] at hpair
    exact fun i j hij => hpair hij
  have hsize : ∀ i : Fin n, ∃ k < w, sizes i = 2 ^ k := by
    intro i
    obtain ⟨k, hk⟩ := (hall (sizes i) (List.mem_ofFn.mpr ⟨i, rfl⟩)).2
    refine ⟨k, ?_, hk⟩
    have hlt := (built.get (i.cast hlen.symm)).2.size_lt
    rw [(hentry i).size_eq, hstride, hk] at hlt
    exact (Nat.pow_lt_pow_iff_right (by decide)).mp ((Nat.le_mul_of_pos_right _ hcap).trans_lt hlt)
  have hregions : List.ofFn (fun i : Fin n => grants.get (i.cast hglen.symm)) = grants := by
    apply List.ext_getElem
    · simp [hglen]
    · intro k hk hk'
      simp
  refine ⟨fun i => grants.get (i.cast hglen.symm), by rwa [hregions], by rwa [hregions], rfl, ?_⟩
  rw [hregions]
  exact
    { sized := ⟨hsize, hmono, rfl⟩
      base_eq := hbase
      region_mem := fun i => Or.inr (List.get_mem _ _)
      region_ptr := fun i => (hentry i).ptr_eq
      region_layout := fun i => (hentry i).layout_eq
      layout_size := fun i => by
        show (built.get (i.cast hlen.symm)).2.size = sizes i * cap
        rw [(hentry i).size_eq, hstride]
      layout_align := fun i => by
        show (built.get (i.cast hlen.symm)).2.align = sizes i
        rw [(hentry i).align_eq, hstride]
      stride_eq := hstride
      regionSizes_eq := fun i => by
        obtain ⟨off, stride, heq⟩ := (hentry i).slab_eq
        show (built.get (i.cast hlen.symm)).1.capacity *
          (built.get (i.cast hlen.symm)).1.blockStride = cap * sizes i
        rw [hstride, heq]
        rfl
      refines := fun i => by
        obtain ⟨off, stride, heq⟩ := (hentry i).slab_eq
        have hlink := (hall (sizes i) (List.mem_ofFn.mpr ⟨i, rfl⟩)).1
        have hs := hstride i
        show UntypedSlab.Refines _ _ (built.get (i.cast hlen.symm)).1 _
        rw [heq] at hs ⊢
        exact UntypedSlab.refines_new hslots (hlink.trans (le_of_eq hs.symm))
      fallback_not_mem := fun g hg => absurd hg List.not_mem_nil
      fallback_nodup := List.nodup_nil
      backing_inv := by simpa using hinv' }

end SizeClassed

end ForgeAlloc
