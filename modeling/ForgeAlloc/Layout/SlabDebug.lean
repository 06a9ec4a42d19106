import ForgeAlloc.Layout.SlabContract

set_option autoImplicit false

/-! # A slab in a debug build

`allocate` and `deallocate` as a build with debug assertions and overflow checks runs them: they
panic where an assertion fails, where a sum or a product does not fit, and where a shift or a division
is not defined.

To a client that keeps to the contract the two builds are the same
(`Issues.debugAllocate_eq`, `Issues.debugDeallocate_eq`).
-/

namespace ForgeAlloc

open MachineInt ByteMemory SlotPool

inductive SlabPanic
  | addOverflow
  | subtractOverflow
  | multiplyOverflow
  | shiftOverflow
  | divideByZero
  | layoutExceedsSlot
  | outsideRange
  | corruption (macOk : Bool) (nextIdx capacity : Nat)
  deriving DecidableEq

def SlabPanic.message : SlabPanic → String
  | .addOverflow => "attempt to add with overflow"
  | .subtractOverflow => "attempt to subtract with overflow"
  | .multiplyOverflow => "attempt to multiply with overflow"
  | .shiftOverflow => "attempt to shift right with overflow"
  | .divideByZero => "attempt to divide by zero"
  | .layoutExceedsSlot => "Slab::deallocate: layout exceeds slot stride or alignment"
  | .outsideRange => "Slab::deallocate: pointer outside slab range"
  | .corruption macOk nextIdx capacity =>
      s!"Slab freelist corruption: mac_ok={macOk}, next_idx={nextIdx}, capacity={capacity}"

namespace Slab

variable {w : Nat} {β : Type} {T : RustType w}

/-- `idx + 1` of slot indices. -/
def debugSucc (idx : Nat) : Except SlabPanic Nat :=
  if idx + 1 < 2 ^ 32 then .ok (idx + 1) else .error .addOverflow

/-- `slot_ptr`. -/
def debugSlotPtr (R : FixedRange β) (s : Slab T β) (idx : Nat) : Except SlabPanic Nat :=
  if idx * s.blockStride < 2 ^ w then .ok (s.slotPtr R idx) else .error .multiplyOverflow

/-- `slot_index`. The mask is one less than the stride, the division is by the stride. -/
def debugSlotIndex (R : FixedRange β) (s : Slab T β) (p : Nat) : Except SlabPanic (Option Nat) :=
  if p < s.basePtr R then .ok none
  else if s.strideShift ≠ 0 then
    if s.blockStride = 0 then .error .subtractOverflow
    else if w ≤ s.strideShift then .error .shiftOverflow
    else .ok (s.slotIndex R p)
  else if s.blockStride = 0 then .error .divideByZero
  else .ok (s.slotIndex R p)

def debugDeallocate (R : FixedRange β) (ptr : Nat) (l : NonZeroLayout w) (h : Heap (Slab T β)) :
    Except SlabPanic (Heap (Slab T β)) :=
  if ¬ (l.size ≤ h.alloc.blockStride ∧ l.align ≤ max T.align freeLinkAlign) then
    .error .layoutExceedsSlot
  else do
    match ← debugSlotIndex R h.alloc ptr with
    | none => .error .outsideRange
    | some idx =>
        let oldHead := h.alloc.freeHead
        let mac := h.alloc.mac.sign oldHead idx
        let slotPtr ← debugSlotPtr R h.alloc idx
        let head ← debugSucc idx
        .ok ⟨{ h.alloc with freeHead := head }, writeLink h.mem slotPtr oldHead mac⟩

/-- The freelist half of `allocate`. A link that does not verify or is out of range is a panic, so
no list is abandoned. -/
def debugPopFree (R : FixedRange β) (h : Heap (Slab T β)) :
    Except SlabPanic (Option Block × Slab T β) :=
  let s := h.alloc
  if s.freeHead ≠ 0 then do
    let slotIdx := s.freeHead - 1
    let slot ← debugSlotPtr R s slotIdx
    let nextIdx := readU32 h.mem slot
    let macOk := s.mac.verify nextIdx (readU32 h.mem (slot + 4)) slotIdx
    if macOk = true ∧ nextIdx ≤ s.capacity then
      .ok (some ⟨slot, s.blockStride⟩, { s with freeHead := nextIdx })
    else .error (.corruption macOk nextIdx s.capacity)
  else .ok (none, s)

def debugCarve (R : FixedRange β) (s : Slab T β) : Except SlabPanic (Option Block × Slab T β) :=
  if s.capacity ≤ s.nextUncarved then .ok (none, s)
  else do
    let slot ← debugSlotPtr R s s.nextUncarved
    let next ← debugSucc s.nextUncarved
    .ok (some ⟨slot, s.blockStride⟩, { s with nextUncarved := next })

def debugAllocate (R : FixedRange β) (l : NonZeroLayout w) (h : Heap (Slab T β)) :
    Except SlabPanic (Option Block × Heap (Slab T β)) :=
  if max T.align freeLinkAlign < l.align then .ok (none, h)
  else if h.alloc.blockStride < l.size then .ok (none, h)
  else do
    match ← debugPopFree R h with
    | (some b, s) => .ok (some b, ⟨s, h.mem⟩)
    | (none, s) => do
        let (r, s') ← debugCarve R s
        .ok (r, ⟨s', h.mem⟩)

/-! ## The checks pass -/

variable {R : FixedRange β} {s : Slab T β} {h : Heap (Slab T β)} {l : NonZeroLayout w} {n i : Nat}
  {p : Pool n} {G : List (Grant w)} {g : Grant w}

theorem debugSucc_of_lt (hs : Shape R s) (hi : i < s.capacity) : debugSucc i = .ok (i + 1) := by
  have hcap := hs.capacity_lt
  exact if_pos (by omega)

theorem debugSlotPtr_of_lt (hs : Shape R s) (hi : i < s.capacity) :
    debugSlotPtr R s i = .ok (s.slotPtr R i) := by
  refine if_pos ?_
  -- the slot ends in the address space, so its offset is below `2 ^ w`
  have hwithin := (slot_within hs hi).1.trans (region_inSpace hs)
  have hpos := hs.stride_pos
  simp only [slotPtr] at hwithin
  omega

theorem debugSlotIndex_eq (hs : Shape R s) (q : Nat) :
    debugSlotIndex R s q = .ok (s.slotIndex R q) := by
  have hpos : s.blockStride ≠ 0 := hs.stride_pos.ne'
  by_cases hbase : q < s.basePtr R
  · rw [debugSlotIndex, if_pos hbase, slotIndex, if_pos hbase]
  · rw [debugSlotIndex, if_neg hbase]
    -- the stride is divided by, or is a power of two whose exponent the word has room for
    rcases hs.geometry.shift_cases with ⟨-, hzero⟩ | ⟨hshift, hlt, -⟩
    · rw [if_neg (not_not.mpr hzero), if_neg hpos]
    · rw [if_pos hshift.ne', if_neg hpos, if_neg hlt.not_ge]

/-- **A free of a live slot** by a layout that fits it panics nowhere. -/
theorem Refines.debugDeallocate_eq (hr : Refines R h p) (hi : i ∈ p.live)
    (hfits : h.alloc.FitsSlot l) :
    debugDeallocate R (h.alloc.slotPtr R i) l h = .ok (deallocate R (h.alloc.slotPtr R i) l h) := by
  have hlt : i < h.alloc.capacity := hr.lt_capacity (p.lt_of_mem_live hi)
  have hindex := slotIndex_slotPtr hr.shape hlt
  rw [debugDeallocate, if_neg (not_not.mpr hfits.symm), debugSlotIndex_eq hr.shape, hindex,
    deallocate, hindex]
  show (debugSlotPtr R h.alloc i >>= fun _ => debugSucc i >>= _) = _
  rw [debugSlotPtr_of_lt hr.shape hlt, debugSucc_of_lt hr.shape hlt]
  rfl

theorem Refines.debugPopFree_eq (hr : Refines R h p) :
    debugPopFree R h = .ok (Slab.popFree R h) := by
  by_cases hzero : h.alloc.freeHead = 0
  · rw [popFree_zero hzero, debugPopFree]
    exact if_neg (not_not.mpr hzero)
  -- the slot at the head is free: its tag verifies and its link is in range
  · obtain ⟨t, hfree, -⟩ := hr.threaded.free_eq_cons hzero
    have hmem : h.alloc.freeHead - 1 ∈ p.free := hfree ▸ List.mem_cons_self
    have htag := hr.tagged _ hmem
    have hle := hr.threaded.next_le hzero
    rw [← hr.capacity_eq] at hle
    have hslot := debugSlotPtr_of_lt hr.shape (hr.lt_capacity (p.lt_of_mem_free hmem))
    rw [hr.popFree hzero, debugPopFree]
    simp only [if_pos hzero, hslot]
    show (if _ ∧ _ then _ else _) = _
    rw [if_pos ⟨htag, hle⟩]
    rfl

theorem debugCarve_eq (hs : Shape R s) : debugCarve R s = .ok (s.carve R) := by
  unfold debugCarve carve
  split
  case isTrue => rfl
  case isFalse hroom =>
      have hlt : s.nextUncarved < s.capacity := Nat.lt_of_not_le hroom
      rw [debugSlotPtr_of_lt hs hlt, debugSucc_of_lt hs hlt]
      rfl

/-- **A request** panics nowhere, whatever it asks for. -/
theorem Refines.debugAllocate_eq (hr : Refines R h p) (l : NonZeroLayout w) :
    debugAllocate R l h = .ok (allocate R l h) := by
  unfold debugAllocate allocate
  split
  · rfl
  split
  · rfl
  rw [hr.debugPopFree_eq]
  by_cases hzero : h.alloc.freeHead = 0
  · rw [popFree_zero hzero]
    show (debugCarve R h.alloc >>= _) = _
    rw [debugCarve_eq hr.shape]
    rfl
  · rw [hr.popFree hzero]
    rfl

theorem Issues.debugAllocate_eq (hi : Issues R n h G) (l : NonZeroLayout w) :
    debugAllocate R l h = .ok (Slab.allocate R l h) := by
  obtain ⟨p, hr, -⟩ := hi.outstanding
  exact hr.debugAllocate_eq l

theorem Issues.debugDeallocate_eq (hi : Issues R n h G) (hg : g ∈ G) :
    debugDeallocate R g.block.ptr g.layout h = .ok (Slab.deallocate R g.block.ptr g.layout h) := by
  obtain ⟨p, hr, hp⟩ := hi.outstanding
  obtain ⟨i, hlive, heq⟩ := List.mem_map.mp (hp.mem_iff.mp (List.mem_map_of_mem hg))
  rw [← heq]
  exact hr.debugDeallocate_eq hlive (hi.fits g hg)

end Slab

end ForgeAlloc
