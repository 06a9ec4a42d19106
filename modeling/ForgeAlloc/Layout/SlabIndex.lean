import ForgeAlloc.Layout.SlabAttack

set_option autoImplicit false

/-! # The index of a slot

`slot_index` turns a pointer back into the number of a slot. For strides that are powers of two it
shifts and masks, otherwise it divides.

It does not matter to it what the backing is, where it lies, and what the client does: construction
fixes all that it reads but the base (`withProtection_geometry`), and no call changes that
(`Indexed.step`). So in every state that any calls lead to, wherever the slab has been moved, the two
ways to divide agree and the answer is exact for all pointers (`slab_index_correct`).
-/

namespace ForgeAlloc

open MachineInt ByteMemory SlotPool

namespace Slab

variable {w : Nat} {β : Type} {T : RustType w} {R : FixedRange β} {s : Slab T β}
  {h h' : Heap (Slab T β)} {l : NonZeroLayout w} {n stride : Nat}

/-- The quotient and the remainder by the stride with a shift and a mask. -/
def shiftPath (s : Slab T β) (offset : Nat) : Nat × Nat :=
  (offset >>> s.strideShift, offset &&& (s.blockStride - 1))

/-- The same by a division. -/
def divisionPath (s : Slab T β) (offset : Nat) : Nat × Nat :=
  (offset / s.blockStride, offset % s.blockStride)

/-! ## Pointers without an index -/

theorem Geometry.shift_ne_zero_iff (hg : Geometry s) :
    s.strideShift ≠ 0 ↔ s.blockStride.isPowerOfTwo := by
  rcases hg.shift_cases with ⟨hpow, hzero⟩ | ⟨hpos, -, hstride⟩
  · exact iff_of_false (not_not.mpr hzero) hpow
  · exact iff_of_true (by omega) ⟨_, hstride⟩

theorem Geometry.shiftPath_eq (hg : Geometry s) (hshift : s.strideShift ≠ 0) (offset : Nat) :
    s.shiftPath offset = s.divisionPath offset := by
  obtain ⟨hquot, hrem⟩ := hg.shift_mask hshift offset
  rw [shiftPath, divisionPath, hquot, hrem]

/-- An address of the region lies in a slot. -/
theorem Geometry.exists_slot (hg : Geometry s) {p : Nat} (hle : s.basePtr R ≤ p)
    (hlt : p < s.basePtr R + s.capacity * s.blockStride) :
    ∃ i < s.capacity, s.slotPtr R i ≤ p ∧ p < s.slotPtr R i + s.blockStride := by
  have hpos := hg.stride_pos
  have hmod := Nat.mod_lt (p - s.basePtr R) hpos
  have hdiv : s.blockStride * ((p - s.basePtr R) / s.blockStride) +
      (p - s.basePtr R) % s.blockStride = p - s.basePtr R := Nat.div_add_mod _ _
  rw [Nat.mul_comm s.blockStride] at hdiv
  refine ⟨(p - s.basePtr R) / s.blockStride, ?_, ?_⟩
  · rw [Nat.div_lt_iff_lt_mul hpos]
    omega
  · simp only [slotPtr]
    omega

/-- **The pointers that have no index**: those below the base, past the end, or inside a slot. -/
theorem Geometry.slotIndex_eq_none_iff (hg : Geometry s) {p : Nat} :
    s.slotIndex R p = none ↔
      p < s.basePtr R ∨ s.basePtr R + s.capacity * s.blockStride ≤ p ∨
        ∃ i < s.capacity, s.slotPtr R i < p ∧ p < s.slotPtr R i + s.blockStride := by
  have hpos := hg.stride_pos
  have hnone : s.slotIndex R p = none ↔ ∀ i < s.capacity, p ≠ s.slotPtr R i := by
    simp only [Option.eq_none_iff_forall_ne_some, ne_eq, hg.slotIndex_eq_some_iff, not_and]
  rw [hnone]
  constructor
  · intro hne
    by_cases hlow : p < s.basePtr R
    · exact Or.inl hlow
    by_cases hhigh : s.basePtr R + s.capacity * s.blockStride ≤ p
    · exact Or.inr (Or.inl hhigh)
    · obtain ⟨i, hi, hle, hlt⟩ := hg.exists_slot (Nat.le_of_not_lt hlow) (Nat.lt_of_not_le hhigh)
      exact Or.inr (Or.inr ⟨i, hi, lt_of_le_of_ne hle (hne i hi).symm, hlt⟩)
  · rintro (hlow | hhigh | ⟨i, hi, hlow, hhigh⟩) j hj rfl
    · exact absurd (slot_ptr_le (s.basePtr R) s.blockStride j) (Nat.not_le_of_lt hlow)
    · have hend := slot_le (s.basePtr R) s.blockStride hj
      rw [← slotPtr_eq] at hend
      simp only [slot] at hend
      omega
    · -- a slot does not start inside another one
      have hne : i ≠ j := by
        rintro rfl
        exact absurd hlow (Nat.lt_irrefl _)
      have hfar := slot_lt_or_lt (s.basePtr R) s.blockStride hne
      rw [← slotPtr_eq, ← slotPtr_eq] at hfar
      omega

/-! ## The calls -/

/-- The slab has `n` slots of `stride` bytes. -/
structure Indexed (n stride : Nat) (s : Slab T β) : Prop where
  geometry : Geometry s
  capacity_eq : s.capacity = n
  stride_eq : s.blockStride = stride

theorem Indexed.congr {s' : Slab T β} (hi : Indexed n stride s) (hsame : SameShape s s') :
    Indexed n stride s' := by
  obtain ⟨head, carved, events, rfl⟩ := hsame
  have hg := hi.geometry
  exact ⟨⟨hg.link_le, hg.stride_lt, hg.shift_eq, hg.capacity_lt⟩, hi.capacity_eq, hi.stride_eq⟩

theorem Indexed.moveTo (hi : Indexed n stride s) (b : β) : Indexed n stride (s.moveTo b) := by
  have hg := hi.geometry
  exact ⟨⟨hg.link_le, hg.stride_lt, hg.shift_eq, hg.capacity_lt⟩, hi.capacity_eq, hi.stride_eq⟩

/-- What construction computes, over any backing. -/
theorem withProtection_geometry {A : Allocator w β} {mac : FreelistProtection} {g : Heap β}
    (hnew : withProtection A R T n mac g = some h) :
    Indexed n h.alloc.blockStride h.alloc ∧ n * h.alloc.blockStride < 2 ^ w := by
  obtain ⟨block, g', -, hpos, hlt, hstride, hsize, halign, -, heq⟩ := withProtection_eq_some hnew
  have hlayout := h.alloc.backingLayout.size_lt
  rw [hsize] at hlayout
  have halignPos : 0 < max T.align freeLinkAlign := halign ▸ h.alloc.backingLayout.align_pos
  have hraw : freeLinkSize ≤ h.alloc.blockStride := by
    calc freeLinkSize ≤ max T.size freeLinkSize := le_max_right _ _
      _ ≤ h.alloc.blockStride := hstride ▸ le_alignUp halignPos
  have hstrideLt : h.alloc.blockStride < 2 ^ w := (Nat.le_mul_of_pos_right _ hpos).trans_lt hlayout
  refine ⟨⟨?_, by rw [heq], rfl⟩, by rwa [Nat.mul_comm]⟩
  rw [heq]
  exact ⟨hraw, hstrideLt, rfl, hlt⟩

/-- A call of a slab by whatever caller, a change of the memory, or a move. -/
inductive SlabCall (w : Nat) (β : Type)
  | allocate (l : NonZeroLayout w)
  | deallocate (ptr : Nat) (l : NonZeroLayout w)
  | overwrite (m : Mem)
  | move (b : β)

def callStep (R : FixedRange β) (h : Heap (Slab T β)) :
    SlabCall w β → Option (Heap (Slab T β))
  | .allocate l => some (allocate R l h).2
  | .deallocate ptr l => some (deallocate R ptr l h)
  | .overwrite m => some ⟨h.alloc, m⟩
  | .move b => some ⟨h.alloc.moveTo b, h.mem⟩

theorem sameShape_popFree (R : FixedRange β) (h : Heap (Slab T β)) :
    SameShape h.alloc (popFree R h).2 := by
  unfold popFree
  simp only
  split
  · split
    · exact ⟨_, _, _, rfl⟩
    · exact ⟨_, _, _, rfl⟩
  · exact ⟨_, _, _, rfl⟩

theorem sameShape_carve (R : FixedRange β) (s : Slab T β) : SameShape s (s.carve R).2 := by
  unfold carve
  split
  · exact ⟨_, _, _, rfl⟩
  · exact ⟨_, _, _, rfl⟩

theorem sameShape_allocate (R : FixedRange β) (l : NonZeroLayout w) (h : Heap (Slab T β)) :
    SameShape h.alloc (allocate R l h).2.alloc := by
  by_cases hfits : h.alloc.FitsSlot l
  · have hpop := sameShape_popFree R h
    rw [allocate_eq hfits]
    rcases hcall : popFree R h with ⟨_ | b, s⟩
    · rw [hcall] at hpop
      exact hpop.trans (sameShape_carve R s)
    · rw [hcall] at hpop
      exact hpop
  · rw [allocate_of_not_fits hfits]
    exact ⟨_, _, _, rfl⟩

theorem sameShape_deallocate (R : FixedRange β) (ptr : Nat) (l : NonZeroLayout w)
    (h : Heap (Slab T β)) : SameShape h.alloc (deallocate R ptr l h).alloc := by
  unfold deallocate
  split
  · exact ⟨_, _, _, rfl⟩
  · exact ⟨_, _, _, rfl⟩

theorem Indexed.step {op : SlabCall w β} (hi : Indexed n stride h.alloc)
    (hstep : callStep R h op = some h') : Indexed n stride h'.alloc := by
  cases op with
  | allocate l =>
      cases hstep
      exact hi.congr (sameShape_allocate R l h)
  | deallocate ptr l =>
      cases hstep
      exact hi.congr (sameShape_deallocate R ptr l h)
  | overwrite m =>
      cases hstep
      exact hi
  | move b =>
      cases hstep
      exact hi.moveTo b

theorem indexed_run {calls : List (SlabCall w β)} (hi : Indexed n stride h.alloc)
    (hrun : Machine.run (callStep R) h calls = some h') : Indexed n stride h'.alloc :=
  Machine.run_invariant (P := fun h => Indexed n stride h.alloc)
    (fun _ _ _ hi hstep => hi.step hstep) hi hrun

/-- **`slot_index` is exact**, in every state of a slab of `n` slots over any backing, whatever is
called and wherever the slab is moved:

* the shift is there exactly for the strides that are powers of two, and the shift and the mask
  divide as the division does;
* it answers `i` exactly for the pointer to the slot `i`, and no such pointer overflows its offset;
* it has no answer exactly for the pointers below the base, past the end and inside a slot. -/
theorem slab_index_correct {A : Allocator w β} {mac : FreelistProtection} {g : Heap β}
    (hnew : withProtection A R T n mac g = some h) {calls : List (SlabCall w β)}
    (hrun : Machine.run (callStep R) h calls = some h') :
    (h'.alloc.strideShift ≠ 0 ↔ h'.alloc.blockStride.isPowerOfTwo) ∧
      (h'.alloc.strideShift ≠ 0 → h'.alloc.strideShift < w ∧
        ∀ offset, h'.alloc.shiftPath offset = h'.alloc.divisionPath offset) ∧
      (∀ p i, h'.alloc.slotIndex R p = some i ↔
        i < n ∧ p = h'.alloc.basePtr R + i * h'.alloc.blockStride) ∧
      (∀ i < n, h'.alloc.slotIndex R (h'.alloc.slotPtr R i) = some i ∧
        i * h'.alloc.blockStride < 2 ^ w) ∧
      ∀ p, h'.alloc.slotIndex R p = none ↔
        p < h'.alloc.basePtr R ∨ h'.alloc.basePtr R + n * h'.alloc.blockStride ≤ p ∨
          ∃ i < n, h'.alloc.slotPtr R i < p ∧ p < h'.alloc.slotPtr R i + h'.alloc.blockStride := by
  obtain ⟨hstart, htotal⟩ := withProtection_geometry hnew
  have hi := indexed_run hstart hrun
  have hg := hi.geometry
  rw [← hi.stride_eq] at htotal
  obtain rfl := hi.capacity_eq
  refine ⟨hg.shift_ne_zero_iff, fun hshift => ⟨?_, hg.shiftPath_eq hshift⟩,
    fun p i => hg.slotIndex_eq_some_iff, fun i hlt => ⟨?_, ?_⟩, fun p => hg.slotIndex_eq_none_iff⟩
  · rcases hg.shift_cases with ⟨-, hzero⟩ | ⟨-, hlt, -⟩
    · exact absurd hzero hshift
    · exact hlt
  · exact hg.slotIndex_eq_some_iff.mpr ⟨hlt, rfl⟩
  · exact (Nat.mul_le_mul_right _ hlt.le).trans_lt htotal

/-! ## Four slots of 16 bytes -/

open AttackedSlab in
/-- A slab that is moved from address 128 to 4096, after a free of a pointer into a slot. -/
theorem slab_index_correct_moved :
    ∃ h h', withProtection arenaOf64 arenaOf64Range pair64 4 .none emptyArena64 = some h ∧
      Machine.run (callStep arenaOf64Range) h
        [.allocate bytes16, .deallocate 130 bytes16,
          .move ⟨.lit 64 64 4096 (Eq.refl true), 64, 64⟩] = some h' ∧
      h'.alloc.slotIndex arenaOf64Range 4128 = some 2 ∧
      h'.alloc.slotIndex arenaOf64Range 4136 = none := by
  have hsome : ((withProtection arenaOf64 arenaOf64Range pair64 4 .none emptyArena64).bind
      fun h => (Machine.run (callStep arenaOf64Range) h
        [.allocate bytes16, .deallocate 130 bytes16,
          .move ⟨.lit 64 64 4096 (Eq.refl true), 64, 64⟩]).filter fun h' =>
        h'.alloc.basePtr arenaOf64Range = 4096 ∧ h'.alloc.blockStride = 16).isSome := by
    decide +kernel
  obtain ⟨h', hh'⟩ := Option.isSome_iff_exists.mp hsome
  obtain ⟨h, hnew, hrun⟩ := Option.bind_eq_some_iff.mp hh'
  obtain ⟨hrun, hshape⟩ := Option.filter_eq_some_iff.mp hrun
  obtain ⟨hbase, hstride⟩ := of_decide_eq_true hshape
  obtain ⟨-, -, hfound, -, hnone⟩ := slab_index_correct hnew hrun
  refine ⟨h, h', hnew, hrun, (hfound 4128 2).mpr ⟨by decide, ?_⟩, (hnone 4136).mpr ?_⟩
  · rw [hbase, hstride]
  · refine Or.inr (Or.inr ⟨2, by decide, ?_⟩)
    rw [slotPtr, hbase, hstride]
    decide

end Slab

end ForgeAlloc
