import ForgeAlloc.Core.Allocator
import ForgeAlloc.Library.Threaded

set_option autoImplicit false

/-! # `UntypedSlab`

The slab of one size class: slots of a stride known at run time only, in a region at an offset
from the base of a backing that somebody else owns. Its freelist has no tags. A link is four
bytes, and the list is abandoned when a link is out of range.

`Refines base m s p` says that the slab represents the pool `p` in the memory `m`;
`Refines.allocateSlot_spec` and `Refines.freeSlot_spec` are its operations.
-/

namespace ForgeAlloc

open MachineInt ByteMemory SlotPool Linked

/-! ## `UntypedSlab` -/

/-- `size_of::<FreeLink>()` and `align_of::<FreeLink>()` of the link of this module, which has no
tag. -/
def untypedLinkSize : Nat := 4

structure UntypedSlab where
  /-- Offset of the region from the base of the backing. -/
  baseOffset : Nat
  blockStride : Nat
  capacity : Nat
  /-- 1-based index of the first free slot, `0` for none. -/
  freeHead : Nat
  nextUncarved : Nat
  corruptionEvents : Nat

namespace UntypedSlab

def new (baseOffset blockStride capacity : Nat) : UntypedSlab :=
  ⟨baseOffset, blockStride, capacity, 0, 0, 0⟩

def basePtr (s : UntypedSlab) (backingBase : Nat) : Nat := backingBase + s.baseOffset

def slotPtr (s : UntypedSlab) (backingBase idx : Nat) : Nat :=
  s.basePtr backingBase + idx * s.blockStride

def slotIndex (s : UntypedSlab) (backingBase p : Nat) : Option Nat :=
  let base := s.basePtr backingBase
  if p < base then none
  else
    let offset := p - base
    if offset % s.blockStride ≠ 0 then none
    else
      let idx := offset / s.blockStride
      if s.capacity ≤ idx then none
      else if idx < 2 ^ 32 then some idx
      else none

/-- The uncarved half of `allocate_slot`. -/
def carve (s : UntypedSlab) (backingBase : Nat) : Option Nat × UntypedSlab :=
  if s.capacity ≤ s.nextUncarved then (none, s)
  else (some (s.slotPtr backingBase s.nextUncarved), { s with nextUncarved := s.nextUncarved + 1 })

/-- `allocate_slot`: pop the list, or carve. A link that is out of range is counted and the list
abandoned. -/
def allocateSlot (w : Nat) (backingBase : Nat) (m : Mem) (s : UntypedSlab) :
    Option Nat × UntypedSlab :=
  if s.freeHead ≠ 0 then
    let slot := s.slotPtr backingBase (s.freeHead - 1)
    let nextIdx := readU32 m slot
    if s.capacity < nextIdx then
      { s with corruptionEvents := wrappingAdd w s.corruptionEvents 1, freeHead := 0 }.carve
        backingBase
    else (some slot, { s with freeHead := nextIdx })
  else s.carve backingBase

/-- `free_slot`: push the slot, its link in its own first bytes. -/
def freeSlot (w : Nat) (backingBase ptr : Nat) (m : Mem) (s : UntypedSlab) : UntypedSlab × Mem :=
  match s.slotIndex backingBase ptr with
  | none => ({ s with corruptionEvents := wrappingAdd w s.corruptionEvents 1 }, m)
  | some idx => ({ s with freeHead := idx + 1 }, writeU32 m ptr s.freeHead)

/-! ## A class represents a pool -/

variable {w base n : Nat} {s s' : UntypedSlab} {m m' : Mem} {p : Pool n}

theorem slotPtr_eq (idx : Nat) :
    s.slotPtr base idx = (slot (s.basePtr base) s.blockStride idx).ptr := rfl

structure Refines (base : Nat) (m : Mem) (s : UntypedSlab) (p : Pool n) : Prop where
  capacity_eq : s.capacity = n
  capacity_lt : n < 2 ^ 32
  link_le : untypedLinkSize ≤ s.blockStride
  retired_eq : p.retired = []
  threaded : Threaded (fun i => readU32 m (s.slotPtr base i)) s.freeHead s.nextUncarved p
  corruption_eq : s.corruptionEvents = 0

/-- The fields that only construction sets are the same. -/
structure SameRegion (s s' : UntypedSlab) : Prop where
  baseOffset_eq : s'.baseOffset = s.baseOffset
  blockStride_eq : s'.blockStride = s.blockStride
  capacity_eq : s'.capacity = s.capacity

theorem Refines.stride_pos (hr : Refines base m s p) : 0 < s.blockStride :=
  (by decide : 0 < untypedLinkSize).trans_le hr.link_le

theorem refines_new {off stride : Nat} (hn : n < 2 ^ 32) (hstride : untypedLinkSize ≤ stride) :
    Refines base m (new off stride n) (Pool.empty n) :=
  ⟨rfl, hn, hstride, rfl, Threaded.empty _, rfl⟩

/-- The representation depends on the bytes of the free slots only. -/
theorem Refines.mem_congr (hr : Refines base m s p)
    (hbytes : ∀ i ∈ p.free, ∀ x ∈ (slot (s.basePtr base) s.blockStride i).bytes, m' x = m x) :
    Refines base m' s p := by
  have hthreaded : Threaded (fun i => readU32 m' (s.slotPtr base i)) s.freeHead s.nextUncarved p := by
    apply hr.threaded.congr
    intro i hi
    apply readU32_congr
    intro x hle hlt
    apply hbytes i hi
    have hlink := hr.link_le
    unfold untypedLinkSize at hlink
    rw [Block.mem_bytes]
    simp only [slotPtr_eq] at hle hlt
    simp only [slot] at hle hlt ⊢
    omega
  exact ⟨hr.capacity_eq, hr.capacity_lt, hr.link_le, hr.retired_eq, hthreaded, hr.corruption_eq⟩

theorem slotIndex_slotPtr (hr : Refines base m s p) {i : Nat} (hi : i < n) :
    s.slotIndex base (s.slotPtr base i) = some i := by
  have hsub : s.slotPtr base i - s.basePtr base = i * s.blockStride := Nat.add_sub_cancel_left _ _
  have hle : ¬ s.slotPtr base i < s.basePtr base := Nat.not_lt.mpr (Nat.le_add_right _ _)
  have hcap := hr.capacity_eq
  have hlt := hr.capacity_lt
  have hmod : ¬ i * s.blockStride % s.blockStride ≠ 0 := by simp
  simp only [slotIndex, if_neg hle, hsub, if_neg hmod, Nat.mul_div_cancel _ hr.stride_pos]
  rw [if_neg (by omega), if_pos (by omega)]

/-- **`allocate_slot` is `Pool.alloc`.** -/
theorem Refines.allocateSlot_spec (hr : Refines base m s p) :
    (p.alloc = none ∧ allocateSlot w base m s = (none, s)) ∨
      ∃ i q s', p.alloc = some (i, q) ∧ allocateSlot w base m s = (some (s.slotPtr base i), s') ∧
        Refines base m s' q ∧ SameRegion s s' := by
  have hcap := hr.capacity_eq
  by_cases hzero : s.freeHead = 0
  · have hcarve : allocateSlot w base m s = s.carve base := by
      rw [allocateSlot, if_neg (not_not.mpr hzero)]
    by_cases hfull : s.capacity ≤ s.nextUncarved
    · left
      constructor
      · exact hr.threaded.exhausted hzero (by omega)
      · rw [hcarve, carve, if_pos hfull]
    · right
      obtain ⟨q, hq, hthreaded⟩ := hr.threaded.carve hzero (by omega)
      refine ⟨s.nextUncarved, q, { s with nextUncarved := s.nextUncarved + 1 }, hq, ?_, ?_,
        ⟨rfl, rfl, rfl⟩⟩
      · rw [hcarve, carve, if_neg hfull]
      · exact ⟨hcap, hr.capacity_lt, hr.link_le,
          (Pool.alloc_cases hq).2.1.trans hr.retired_eq, hthreaded, hr.corruption_eq⟩
  · right
    obtain ⟨q, hq, hthreaded⟩ := hr.threaded.pop hzero
    have hle : ¬ s.capacity < readU32 m (s.slotPtr base (s.freeHead - 1)) := by
      have hnext := hr.threaded.next_le hzero
      omega
    refine ⟨s.freeHead - 1, q,
      { s with freeHead := readU32 m (s.slotPtr base (s.freeHead - 1)) }, hq, ?_, ?_,
      ⟨rfl, rfl, rfl⟩⟩
    · rw [allocateSlot, if_pos hzero]
      simp only [if_neg hle]
    · exact ⟨hcap, hr.capacity_lt, hr.link_le, (Pool.alloc_cases hq).2.1.trans hr.retired_eq,
        hthreaded, hr.corruption_eq⟩

/-- **`free_slot` is `Pool.release`** for a live slot, and writes into that slot only. -/
theorem Refines.freeSlot_spec (hr : Refines base m s p) {i : Nat} (hi : i ∈ p.live) :
    freeSlot w base (s.slotPtr base i) m s =
        ({ s with freeHead := i + 1 }, writeU32 m (s.slotPtr base i) s.freeHead) ∧
      Refines base (writeU32 m (s.slotPtr base i) s.freeHead) { s with freeHead := i + 1 }
        (p.release i hi) := by
  have hlt : i < n := (p.lt_of_mem_live hi).trans_le p.carved_le
  have hhead : s.freeHead < 2 ^ 32 := hr.threaded.head_le.trans_lt hr.capacity_lt
  have hlink := hr.link_le
  unfold untypedLinkSize at hlink
  constructor
  · rw [freeSlot, slotIndex_slotPtr hr hlt]
  · refine ⟨hr.capacity_eq, hr.capacity_lt, hr.link_le, hr.retired_eq, ?_, hr.corruption_eq⟩
    apply hr.threaded.push hi
    · exact readU32_writeU32 hhead
    · -- the links of the other slots are out of reach of the write
      intro j hj
      have hne : j ≠ i := fun heq => p.not_mem_live_of_mem_free hj (heq ▸ hi)
      have hfar := slot_lt_or_lt (s.basePtr base) s.blockStride hne
      rw [← slotPtr_eq, ← slotPtr_eq] at hfar
      show readU32 (writeU32 m (s.slotPtr base i) s.freeHead) (s.slotPtr base j) = _
      exact readU32_writeU32_of_disjoint (by omega)

end UntypedSlab

end ForgeAlloc
