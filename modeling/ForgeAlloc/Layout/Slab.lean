import ForgeAlloc.Core.Allocator
import ForgeAlloc.Core.FreelistProtection
import ForgeAlloc.Library.Threaded

set_option autoImplicit false

/-! # `Slab`

A fixed number of slots of one stride, in a region taken from the backing at construction. Free
slots form a list threaded through their own bytes: the first eight bytes of a free slot are a
`FreeLink`, the 1-based index of the next free slot and its tag. `allocate` pops the list, or
carves the next slot when the list is empty; `deallocate` pushes.

The region is found again at every call from the base of the backing and the offset recorded at
construction, so the whole value may be moved.

`Slab.Refines R h p` says that the slab in the heap `h` represents the pool `p`. `allocate` and
`deallocate` are the operations of the pool (`allocate_some`, `allocate_none`, `deallocate`).
-/

namespace ForgeAlloc

open MachineInt ByteMemory SlotPool Linked

variable {w : Nat} {β : Type} {T : RustType w}

/-- `size_of::<FreeLink>()`. -/
def freeLinkSize : Nat := 8

/-- `align_of::<FreeLink>()`. -/
def freeLinkAlign : Nat := 4

structure Slab (T : RustType w) (β : Type) where
  backing : β
  mac : FreelistProtection
  /-- Offset of the region from the base of the backing. -/
  baseOffset : Nat
  /-- 1-based index of the first free slot, `0` for none. -/
  freeHead : Nat
  nextUncarved : Nat
  blockStride : Nat
  strideShift : Nat
  capacity : Nat
  backingLayout : NonZeroLayout w
  corruptionEvents : Nat

namespace Slab

/-- `Slab::with_protection`. The width of the slot index is 32 bits. -/
def withProtection (A : Allocator w β) (R : FixedRange β) (T : RustType w) (capacity : Nat)
    (mac : FreelistProtection) (h : Heap β) : Option (Heap (Slab T β)) :=
  if capacity = 0 then none
  else if T.size = 0 then none
  else if 2 ^ 32 ≤ capacity then none
  else do
    let slotAlign := max T.align freeLinkAlign
    let rawStride := max T.size freeLinkSize
    let padded ← checkedAdd w rawStride (slotAlign - 1)
    let blockStride := maskDown w padded slotAlign
    let total ← checkedMul w blockStride capacity
    let backingLayout ← NonZeroLayout.fromSizeAlign w total slotAlign
    match A.allocate backingLayout h with
    | (none, _) => none
    | (some block, h') => do
        let baseOffset ← checkedSub block.ptr (R.base h'.alloc)
        let strideShift :=
          if blockStride.isPowerOfTwo then trailingZeros w blockStride else 0
        some ⟨⟨h'.alloc, mac, baseOffset, 0, 0, blockStride, strideShift, capacity,
          backingLayout, 0⟩, h'.mem⟩

/-- The slab after a move: the backing answers for its new address. -/
def moveTo (s : Slab T β) (b : β) : Slab T β := { s with backing := b }

def basePtr (R : FixedRange β) (s : Slab T β) : Nat := R.base s.backing + s.baseOffset

/-- Pointer to the slot `idx`, without a bounds check. -/
def slotPtr (R : FixedRange β) (s : Slab T β) (idx : Nat) : Nat :=
  s.basePtr R + idx * s.blockStride

/-- The index of the slot that starts at `p`. For strides that are powers of two the division is
a shift and a mask. -/
def slotIndex (R : FixedRange β) (s : Slab T β) (p : Nat) : Option Nat :=
  let base := s.basePtr R
  if p < base then none
  else
    let offset := p - base
    let (idx, rem) :=
      if s.strideShift ≠ 0 then (offset >>> s.strideShift, offset &&& (s.blockStride - 1))
      else (offset / s.blockStride, offset % s.blockStride)
    if rem ≠ 0 then none
    else if s.capacity ≤ idx then none
    else if idx < 2 ^ 32 then some idx
    else none

/-- Write `FreeLink { next_idx, mac }` at `p`. -/
def writeLink (m : Mem) (p nextIdx mac : Nat) : Mem := writeU32 (writeU32 m p nextIdx) (p + 4) mac

def deallocate (R : FixedRange β) (ptr : Nat) (_layout : NonZeroLayout w)
    (h : Heap (Slab T β)) : Heap (Slab T β) :=
  match h.alloc.slotIndex R ptr with
  | none => h
  | some idx =>
      let oldHead := h.alloc.freeHead
      let mac := h.alloc.mac.sign oldHead idx
      ⟨{ h.alloc with freeHead := idx + 1 }, writeLink h.mem (h.alloc.slotPtr R idx) oldHead mac⟩

/-- The freelist half of `allocate`: the popped slot, or no slot and an empty list. A link that
does not verify or is out of range is counted and the list abandoned. -/
def popFree (R : FixedRange β) (h : Heap (Slab T β)) : Option Block × Slab T β :=
  let s := h.alloc
  if s.freeHead ≠ 0 then
    let slotIdx := s.freeHead - 1
    let slot := s.slotPtr R slotIdx
    let nextIdx := readU32 h.mem slot
    if s.mac.verify nextIdx (readU32 h.mem (slot + 4)) slotIdx = true ∧ nextIdx ≤ s.capacity then
      (some ⟨slot, s.blockStride⟩, { s with freeHead := nextIdx })
    else
      (none, { s with corruptionEvents := wrappingAdd w s.corruptionEvents 1, freeHead := 0 })
  else (none, s)

/-- The other half: the next slot never issued. -/
def carve (R : FixedRange β) (s : Slab T β) : Option Block × Slab T β :=
  if s.capacity ≤ s.nextUncarved then (none, s)
  else (some ⟨s.slotPtr R s.nextUncarved, s.blockStride⟩,
    { s with nextUncarved := s.nextUncarved + 1 })

def allocate (R : FixedRange β) (l : NonZeroLayout w) (h : Heap (Slab T β)) :
    Option Block × Heap (Slab T β) :=
  if max T.align freeLinkAlign < l.align then (none, h)
  else if h.alloc.blockStride < l.size then (none, h)
  else
    match popFree R h with
    | (some b, s) => (some b, ⟨s, h.mem⟩)
    | (none, s) =>
        let (r, s') := s.carve R
        (r, ⟨s', h.mem⟩)

/-- The bounds that `allocate` tests first. -/
def FitsSlot (s : Slab T β) (l : NonZeroLayout w) : Prop :=
  l.align ≤ max T.align freeLinkAlign ∧ l.size ≤ s.blockStride

/-- `Slab` uses the default resizes. -/
def allocator (w : Nat) (T : RustType w) (R : FixedRange β) : Allocator w (Slab T β) where
  allocate := allocate R
  deallocate := deallocate R
  grow := defaultGrow (allocate R) (deallocate R)
  shrink := defaultShrink (allocate R) (deallocate R)
  usableSize := fun _ _ h => some h.alloc.blockStride

def range (T : RustType w) (R : FixedRange β) : FixedRange (Slab T β) where
  base := fun s => s.basePtr R
  size := fun s => s.capacity * s.blockStride
  commit := fun _ _ s => (true, s)

/-! ## The region -/

variable {R : FixedRange β} {s s' : Slab T β} {h h' : Heap (Slab T β)} {l : NonZeroLayout w}

/-- What construction fixes: a stride that holds a link, the shift that belongs to it, and a
region of `capacity` slots inside the range of the backing, which is inside the address space. -/
structure Shape (R : FixedRange β) (s : Slab T β) : Prop where
  link_le : freeLinkSize ≤ s.blockStride
  stride_lt : s.blockStride < 2 ^ w
  shift_eq : s.strideShift =
    if s.blockStride.isPowerOfTwo then trailingZeros w s.blockStride else 0
  capacity_pos : 0 < s.capacity
  capacity_lt : s.capacity < 2 ^ 32
  region_le : s.baseOffset + s.capacity * s.blockStride ≤ R.size s.backing
  base_pos : 0 < R.base s.backing
  inSpace : R.base s.backing + R.size s.backing ≤ 2 ^ w

/-- The fields that only construction and moves set are the same. -/
def SameShape (s s' : Slab T β) : Prop :=
  ∃ head carved events, s' = { s with freeHead := head, nextUncarved := carved,
                                      corruptionEvents := events }

theorem Shape.congr (hs : Shape R s) (h : SameShape s s') : Shape R s' := by
  obtain ⟨head, carved, events, rfl⟩ := h
  exact ⟨hs.link_le, hs.stride_lt, hs.shift_eq, hs.capacity_pos, hs.capacity_lt, hs.region_le,
    hs.base_pos, hs.inSpace⟩

/-- What finding the index of a slot rests on: a stride that holds a link, the shift that belongs to
it, and a capacity of 32 bits. -/
structure Geometry (s : Slab T β) : Prop where
  link_le : freeLinkSize ≤ s.blockStride
  stride_lt : s.blockStride < 2 ^ w
  shift_eq : s.strideShift =
    if s.blockStride.isPowerOfTwo then trailingZeros w s.blockStride else 0
  capacity_lt : s.capacity < 2 ^ 32

theorem Shape.geometry (hs : Shape R s) : Geometry s :=
  ⟨hs.link_le, hs.stride_lt, hs.shift_eq, hs.capacity_lt⟩

theorem Geometry.stride_pos (hg : Geometry s) : 0 < s.blockStride :=
  (by decide : 0 < freeLinkSize).trans_le hg.link_le

theorem Shape.stride_pos (hs : Shape R s) : 0 < s.blockStride := hs.geometry.stride_pos

/-- The shift is there for the strides that are powers of two, and is the exponent. -/
theorem Geometry.shift_cases (hg : Geometry s) :
    (¬ s.blockStride.isPowerOfTwo ∧ s.strideShift = 0) ∨
      (0 < s.strideShift ∧ s.strideShift < w ∧ s.blockStride = 2 ^ s.strideShift) := by
  have hshift := hg.shift_eq
  by_cases hpow : s.blockStride.isPowerOfTwo
  · right
    obtain ⟨k, hk⟩ := hpow
    have hlt := hg.stride_lt
    have hlink := hg.link_le
    rw [hk] at hlt hlink
    have hkw : k < w := (Nat.pow_lt_pow_iff_right (by decide)).mp hlt
    have hpos : 0 < k := by
      by_contra hzero
      rw [Nat.eq_zero_of_not_pos hzero] at hlink
      exact absurd hlink (by decide)
    rw [if_pos ⟨k, hk⟩, hk, trailingZeros_two_pow hkw] at hshift
    rw [hshift]
    exact ⟨hpos, hkw, hk⟩
  · left
    rw [if_neg hpow] at hshift
    exact ⟨hpow, hshift⟩

/-- Where there is a shift, the shift and the mask divide by the stride. -/
theorem Geometry.shift_mask (hg : Geometry s) (hshift : s.strideShift ≠ 0) (offset : Nat) :
    offset >>> s.strideShift = offset / s.blockStride ∧
      offset &&& (s.blockStride - 1) = offset % s.blockStride := by
  rcases hg.shift_cases with ⟨-, hzero⟩ | ⟨-, -, hstride⟩
  · exact absurd hzero hshift
  · rw [hstride, Nat.shiftRight_eq_div_pow, Nat.and_two_pow_sub_one_eq_mod]
    exact ⟨rfl, rfl⟩

/-- The two ways to divide by the stride agree. -/
theorem Geometry.div_mod (hg : Geometry s) (offset : Nat) :
    (if s.strideShift ≠ 0 then (offset >>> s.strideShift, offset &&& (s.blockStride - 1))
      else (offset / s.blockStride, offset % s.blockStride)) =
    (offset / s.blockStride, offset % s.blockStride) := by
  by_cases hshift : s.strideShift ≠ 0
  · obtain ⟨hquot, hrem⟩ := hg.shift_mask hshift offset
    rw [if_pos hshift, hquot, hrem]
  · rw [if_neg hshift]

theorem slotPtr_eq (idx : Nat) :
    s.slotPtr R idx = (slot (s.basePtr R) s.blockStride idx).ptr := rfl

/-- **`slot_index` is the partial inverse of `slot_ptr`**: it has an answer for the addresses at
which slots start, and no other. -/
theorem Geometry.slotIndex_eq_some_iff (hg : Geometry s) {p i : Nat} :
    s.slotIndex R p = some i ↔ i < s.capacity ∧ p = s.slotPtr R i := by
  have hcap := hg.capacity_lt
  simp only [slotIndex, hg.div_mod, slotPtr]
  constructor
  · intro hidx
    split at hidx
    · cases hidx
    case isFalse hbase =>
    split at hidx
    · cases hidx
    case isFalse hrem =>
    split at hidx
    · cases hidx
    case isFalse hlt =>
    split at hidx
    case isFalse => cases hidx
    case isTrue =>
        cases hidx
        have hmul : (p - s.basePtr R) / s.blockStride * s.blockStride = p - s.basePtr R :=
          Nat.div_mul_cancel (Nat.dvd_of_mod_eq_zero (not_not.mp hrem))
        rw [hmul]
        omega
  · rintro ⟨hi, rfl⟩
    have hsub : s.basePtr R + i * s.blockStride - s.basePtr R = i * s.blockStride :=
      Nat.add_sub_cancel_left _ _
    rw [if_neg (by omega), hsub, Nat.mul_mod_left, Nat.mul_div_cancel _ hg.stride_pos,
      if_neg (by simp), if_neg (by omega), if_pos (by omega)]

/-- The index of a slot is found again from its address. -/
theorem slotIndex_slotPtr (hs : Shape R s) {i : Nat} (hi : i < s.capacity) :
    s.slotIndex R (s.slotPtr R i) = some i :=
  hs.geometry.slotIndex_eq_some_iff.mpr ⟨hi, rfl⟩

/-- A slot is inside the region, and the region inside the backing. -/
theorem slot_within (hs : Shape R s) {i : Nat} (hi : i < s.capacity) :
    s.slotPtr R i + s.blockStride ≤ s.basePtr R + s.capacity * s.blockStride ∧
      s.basePtr R + s.capacity * s.blockStride ≤ R.base s.backing + R.size s.backing := by
  have h1 := slot_le (s.basePtr R) s.blockStride hi
  have h2 := hs.region_le
  rw [slotPtr_eq]
  simp only [slot, basePtr] at h1 ⊢
  omega

/-- The slots of the slab. -/
def region (R : FixedRange β) (s : Slab T β) : Set Nat :=
  {x | ∃ i < s.capacity, x ∈ (slot (s.basePtr R) s.blockStride i).bytes}

/-! ## Links -/

theorem writeLink_of_not_mem {m : Mem} {p next mac x : Nat}
    (hx : ¬ (p ≤ x ∧ x < p + freeLinkSize)) : writeLink m p next mac x = m x := by
  unfold freeLinkSize at hx
  rw [writeLink, writeU32_of_not_mem (by omega), writeU32_of_not_mem (by omega)]

theorem readU32_writeLink {m : Mem} {p next mac : Nat} (hnext : next < 2 ^ 32) :
    readU32 (writeLink m p next mac) p = next := by
  rw [writeLink, readU32_writeU32_of_disjoint (by omega), readU32_writeU32 hnext]

theorem readU32_writeLink_mac {m : Mem} {p next mac : Nat} (hmac : mac < 2 ^ 32) :
    readU32 (writeLink m p next mac) (p + 4) = mac := by
  rw [writeLink, readU32_writeU32 hmac]

/-! ## The slab represents a pool -/

variable {n : Nat} {p : Pool n}

structure Refines (R : FixedRange β) (h : Heap (Slab T β)) (p : Pool n) : Prop where
  shape : Shape R h.alloc
  capacity_eq : h.alloc.capacity = n
  mac_sound : h.alloc.mac.Sound
  retired_eq : p.retired = []
  threaded : Threaded (fun i => readU32 h.mem (h.alloc.slotPtr R i)) h.alloc.freeHead
    h.alloc.nextUncarved p
  /-- The link of every free slot verifies under the index of the slot. -/
  tagged : ∀ i ∈ p.free, h.alloc.mac.verify (readU32 h.mem (h.alloc.slotPtr R i))
    (readU32 h.mem (h.alloc.slotPtr R i + 4)) i = true
  corruption_eq : h.alloc.corruptionEvents = 0

theorem Refines.lt_capacity (hr : Refines R h p) {i : Nat} (hi : i < p.carved) :
    i < h.alloc.capacity := by
  rw [hr.capacity_eq]
  exact hi.trans_le p.carved_le

/-- The representation depends on the bytes of the free slots only, and on these relative to
the base of the region. -/
theorem Refines.congr (hr : Refines R h p) (hshape : Shape R h'.alloc)
    (hcap : h'.alloc.capacity = h.alloc.capacity) (hmac : h'.alloc.mac = h.alloc.mac)
    (hhead : h'.alloc.freeHead = h.alloc.freeHead)
    (hcarved : h'.alloc.nextUncarved = h.alloc.nextUncarved)
    (hevents : h'.alloc.corruptionEvents = h.alloc.corruptionEvents)
    (hbytes : ∀ i ∈ p.free, ∀ x < freeLinkSize,
      h'.mem (h'.alloc.slotPtr R i + x) = h.mem (h.alloc.slotPtr R i + x)) :
    Refines R h' p := by
  have hread : ∀ i ∈ p.free, ∀ o, o + 4 ≤ freeLinkSize →
      readU32 h'.mem (h'.alloc.slotPtr R i + o) = readU32 h.mem (h.alloc.slotPtr R i + o) := by
    intro i hi o ho
    unfold readU32
    simp only [add_assoc]
    rw [hbytes i hi o (by omega), hbytes i hi (o + 1) (by omega), hbytes i hi (o + 2) (by omega),
      hbytes i hi (o + 3) (by omega)]
  have hnext : ∀ i ∈ p.free,
      readU32 h'.mem (h'.alloc.slotPtr R i) = readU32 h.mem (h.alloc.slotPtr R i) :=
    fun i hi => hread i hi 0 (by decide)
  exact
    { shape := hshape
      capacity_eq := hcap.trans hr.capacity_eq
      mac_sound := hmac ▸ hr.mac_sound
      retired_eq := hr.retired_eq
      threaded := by
        rw [hhead, hcarved]
        exact hr.threaded.congr hnext
      tagged := fun i hi => by
        rw [hnext i hi, hread i hi 4 (by decide), hmac]
        exact hr.tagged i hi
      corruption_eq := hevents.trans hr.corruption_eq }

theorem Refines.mem_congr (hr : Refines R h p) {m : Mem}
    (hbytes : ∀ i ∈ p.free, ∀ x ∈ (slot (h.alloc.basePtr R) h.alloc.blockStride i).bytes,
      m x = h.mem x) : Refines R ⟨h.alloc, m⟩ p := by
  refine hr.congr hr.shape rfl rfl rfl rfl rfl fun i hi x hx => ?_
  have hlink := hr.shape.link_le
  refine hbytes i hi _ ⟨Nat.le_add_right _ _, ?_⟩
  rw [slotPtr_eq]
  simp only [slot]
  omega

/-- **The slab may be moved**: the base of the backing changes and the bytes of its range move
along. -/
theorem Refines.move (hr : Refines R h p) {b : β} {m : Mem}
    (hsize : R.size b = R.size h.alloc.backing) (hpos : 0 < R.base b)
    (hspace : R.base b + R.size b ≤ 2 ^ w)
    (hbytes : ∀ x < R.size b, m (R.base b + x) = h.mem (R.base h.alloc.backing + x)) :
    Refines R ⟨h.alloc.moveTo b, m⟩ p := by
  have hs := hr.shape
  have hshape : Shape R (h.alloc.moveTo b) :=
    ⟨hs.link_le, hs.stride_lt, hs.shift_eq, hs.capacity_pos, hs.capacity_lt,
      hs.region_le.trans (le_of_eq hsize.symm), hpos, hspace⟩
  refine hr.congr hshape rfl rfl rfl rfl rfl fun i hi x hx => ?_
  have hwithin := slot_within hs (hr.lt_capacity (p.lt_of_mem_free hi))
  have hlink := hs.link_le
  have hold : h.alloc.slotPtr R i + x
      = R.base h.alloc.backing + (h.alloc.baseOffset + i * h.alloc.blockStride + x) := by
    simp only [slotPtr, basePtr]
    omega
  have hnew : (h.alloc.moveTo b).slotPtr R i + x
      = R.base b + (h.alloc.baseOffset + i * h.alloc.blockStride + x) := by
    simp only [moveTo, slotPtr, basePtr]
    omega
  rw [hold, hnew]
  exact hbytes _ (by omega)

/-! ## The operations -/

theorem popFree_zero (hzero : h.alloc.freeHead = 0) : popFree R h = (none, h.alloc) := by
  simp [popFree, hzero]

/-- With a list in memory the pop finds a link that verifies and is in range. -/
theorem Refines.popFree (hr : Refines R h p) (hne : h.alloc.freeHead ≠ 0) :
    Slab.popFree R h =
      (some (slot (h.alloc.basePtr R) h.alloc.blockStride (h.alloc.freeHead - 1)),
        { h.alloc with
          freeHead := readU32 h.mem (h.alloc.slotPtr R (h.alloc.freeHead - 1)) }) := by
  obtain ⟨t, hfree, -⟩ := hr.threaded.free_eq_cons hne
  have htag := hr.tagged (h.alloc.freeHead - 1) (by rw [hfree]; exact List.mem_cons_self)
  have hle := hr.threaded.next_le hne
  rw [← hr.capacity_eq] at hle
  simp only [Slab.popFree, if_pos hne, htag, hle, and_self, if_true]
  rfl

/-- **`allocate` is `Pool.alloc`** for a request that fits the slot. -/
theorem allocate_of_fits (hr : Refines R h p) (hfits : h.alloc.FitsSlot l) :
    (p.alloc = none ∧ allocate R l h = (none, h)) ∨
      ∃ i q s', p.alloc = some (i, q) ∧
        allocate R l h =
          (some (slot (h.alloc.basePtr R) h.alloc.blockStride i), ⟨s', h.mem⟩) ∧
        Refines R ⟨s', h.mem⟩ q ∧ SameShape h.alloc s' := by
  have hcap := hr.capacity_eq
  have hstart : allocate R l h = match Slab.popFree R h with
      | (some b, s) => (some b, ⟨s, h.mem⟩)
      | (none, s) => ((s.carve R).1, ⟨(s.carve R).2, h.mem⟩) := by
    rw [allocate, if_neg (Nat.not_lt.mpr hfits.1), if_neg (Nat.not_lt.mpr hfits.2)]
  by_cases hzero : h.alloc.freeHead = 0
  · rw [popFree_zero hzero] at hstart
    simp only at hstart
    by_cases hfull : h.alloc.capacity ≤ h.alloc.nextUncarved
    · left
      refine ⟨hr.threaded.exhausted hzero (hcap ▸ hfull), ?_⟩
      rw [hstart, carve, if_pos hfull]
    · right
      obtain ⟨q, hq, hthreaded⟩ := hr.threaded.carve hzero (by omega)
      have hfree : q.free = p.free := by
        have h1 := hr.threaded.free_eq_nil hzero
        have h2 := hthreaded.free_eq_nil hzero
        rw [h1, h2]
      have hsame : SameShape h.alloc
          { h.alloc with nextUncarved := h.alloc.nextUncarved + 1 } := ⟨_, _, _, rfl⟩
      refine ⟨_, q, _, hq, by rw [hstart, carve, if_neg hfull]; rfl, ?_, hsame⟩
      exact
        { shape := hr.shape.congr hsame
          capacity_eq := hr.capacity_eq
          mac_sound := hr.mac_sound
          retired_eq := (Pool.alloc_cases hq).2.1.trans hr.retired_eq
          threaded := hthreaded
          tagged := fun i hi => hr.tagged i (hfree ▸ hi)
          corruption_eq := hr.corruption_eq }
  · right
    obtain ⟨q, hq, hthreaded⟩ := hr.threaded.pop hzero
    have hsub : ∀ i ∈ q.free, i ∈ p.free := by
      intro i hi
      rcases (Pool.alloc_cases hq).2.2 with ⟨hfree, -⟩ | ⟨-, hnil, -⟩
      · rw [hfree]
        exact List.mem_cons_of_mem _ hi
      · rw [hnil] at hi
        cases hi
    have hsame : SameShape h.alloc { h.alloc with
        freeHead := readU32 h.mem (h.alloc.slotPtr R (h.alloc.freeHead - 1)) } :=
      ⟨_, _, _, rfl⟩
    refine ⟨_, q, _, hq, by rw [hstart, hr.popFree hzero], ?_, hsame⟩
    exact
      { shape := hr.shape.congr hsame
        capacity_eq := hr.capacity_eq
        mac_sound := hr.mac_sound
        retired_eq := (Pool.alloc_cases hq).2.1.trans hr.retired_eq
        threaded := hthreaded
        tagged := fun i hi => hr.tagged i (hsub i hi)
        corruption_eq := hr.corruption_eq }

theorem allocate_of_not_fits (hfits : ¬ h.alloc.FitsSlot l) : allocate R l h = (none, h) := by
  unfold FitsSlot at hfits
  rw [allocate]
  split
  · rfl
  · rw [if_pos (by omega)]

/-- **`deallocate` is `Pool.release`** for a live slot, and writes into that slot only. -/
theorem deallocate_live (hr : Refines R h p) {i : Nat} (hi : i ∈ p.live) :
    deallocate R (h.alloc.slotPtr R i) l h =
        ⟨{ h.alloc with freeHead := i + 1 },
          writeLink h.mem (h.alloc.slotPtr R i) h.alloc.freeHead
            (h.alloc.mac.sign h.alloc.freeHead i)⟩ ∧
      Refines R (deallocate R (h.alloc.slotPtr R i) l h) (p.release i hi) := by
  have hs := hr.shape
  have hlt : i < h.alloc.capacity := hr.lt_capacity (p.lt_of_mem_live hi)
  have heq : deallocate R (h.alloc.slotPtr R i) l h =
      ⟨{ h.alloc with freeHead := i + 1 },
        writeLink h.mem (h.alloc.slotPtr R i) h.alloc.freeHead
          (h.alloc.mac.sign h.alloc.freeHead i)⟩ := by
    rw [deallocate, slotIndex_slotPtr hs hlt]
  have hhead : h.alloc.freeHead < 2 ^ 32 := by
    have := hr.threaded.head_le
    have := hr.capacity_eq
    have := hs.capacity_lt
    omega
  -- the links of the other slots are out of reach of the write
  have hother : ∀ j ∈ p.free, ∀ o, o + 4 ≤ freeLinkSize →
      readU32 (writeLink h.mem (h.alloc.slotPtr R i) h.alloc.freeHead
          (h.alloc.mac.sign h.alloc.freeHead i)) (h.alloc.slotPtr R j + o) =
        readU32 h.mem (h.alloc.slotPtr R j + o) := by
    intro j hj o ho
    have hne : j ≠ i := fun heq => p.not_mem_live_of_mem_free hj (heq ▸ hi)
    have hlink := hs.link_le
    have hfar := slot_lt_or_lt (h.alloc.basePtr R) h.alloc.blockStride hne
    rw [← slotPtr_eq, ← slotPtr_eq] at hfar
    exact readU32_congr fun x hx hx' => writeLink_of_not_mem (by omega)
  refine ⟨heq, heq ▸ ?_⟩
  exact
    { shape := hs.congr ⟨_, _, _, rfl⟩
      capacity_eq := hr.capacity_eq
      mac_sound := hr.mac_sound
      retired_eq := hr.retired_eq
      threaded := hr.threaded.push hi (readU32_writeLink hhead)
        fun j hj => hother j hj 0 (by decide)
      tagged := fun j hj => by
        rcases List.mem_cons.mp hj with rfl | hj
        · refine Eq.trans ?_ (hr.mac_sound.verify_sign h.alloc.freeHead j)
          rw [show slotPtr R { h.alloc with freeHead := j + 1 } j = h.alloc.slotPtr R j from rfl,
            readU32_writeLink hhead, readU32_writeLink_mac (hr.mac_sound.sign_lt _ _)]
        · have hnext := hother j hj 0 (by decide)
          rw [Nat.add_zero] at hnext
          have hmac := hother j hj 4 (by decide)
          exact (congrArg₂ (fun a b => h.alloc.mac.verify a b j) hnext hmac).trans (hr.tagged j hj)
      corruption_eq := hr.corruption_eq }

/-! ## Construction -/

variable {A : Allocator w β} {Inv : Heap β → Set (Grant w) → Prop} {L : Set (Grant w)}
  {capacity : Nat} {mac : FreelistProtection} {g : Heap β}

/-- What a successful construction has computed. -/
theorem withProtection_eq_some (hnew : withProtection A R T capacity mac g = some h) :
    ∃ block g', A.allocate h.alloc.backingLayout g = (some block, g') ∧
      0 < capacity ∧ capacity < 2 ^ 32 ∧
      h.alloc.blockStride = alignUp (max T.size freeLinkSize) (max T.align freeLinkAlign) ∧
      h.alloc.backingLayout.size = h.alloc.blockStride * capacity ∧
      h.alloc.backingLayout.align = max T.align freeLinkAlign ∧
      R.base g'.alloc ≤ block.ptr ∧
      h = ⟨⟨g'.alloc, mac, block.ptr - R.base g'.alloc, 0, 0, h.alloc.blockStride,
        if h.alloc.blockStride.isPowerOfTwo then trailingZeros w h.alloc.blockStride else 0,
        capacity, h.alloc.backingLayout, 0⟩, g'.mem⟩ := by
  unfold withProtection at hnew
  split at hnew
  · cases hnew
  split at hnew
  · cases hnew
  split at hnew
  · cases hnew
  case isFalse hpos _ hlt =>
      simp only [Option.bind_eq_bind, Option.bind_eq_some_iff, checkedAdd_eq_some,
        checkedMul_eq_some] at hnew
      obtain ⟨padded, ⟨hpad, rfl⟩, total, ⟨-, rfl⟩, layout, hlayout, hblock⟩ := hnew
      obtain ⟨hsize, halign⟩ := NonZeroLayout.fromSizeAlign_eq_some.mp hlayout
      obtain ⟨k, hk, hkw⟩ := layout.exists_align
      have hstride : maskDown w (max T.size freeLinkSize + (max T.align freeLinkAlign - 1))
          (max T.align freeLinkAlign)
            = alignUp (max T.size freeLinkSize) (max T.align freeLinkAlign) := by
        rw [← halign, hk] at hpad ⊢
        exact maskDown_add_pred hpad hkw
      split at hblock
      · cases hblock
      case h_2 block g' halloc =>
          simp only [Option.bind_eq_some_iff, checkedSub_eq_some] at hblock
          obtain ⟨off, ⟨hle, rfl⟩, hsome⟩ := hblock
          cases hsome
          exact ⟨block, g', halloc, Nat.pos_of_ne_zero hpos, Nat.lt_of_not_le hlt, hstride, hsize,
            halign, hle, rfl⟩

/-- The region of a constructed slab starts at a multiple of the alignment of a slot, and so does
every slot in it. -/
theorem withProtection_aligned (hA : HonoursRange A R Inv) (hinv : Inv g L)
    (hnew : withProtection A R T capacity mac g = some h) :
    max T.align freeLinkAlign ∣ h.alloc.basePtr R ∧
      max T.align freeLinkAlign ∣ h.alloc.blockStride := by
  obtain ⟨block, g', halloc, -, -, hstride, -, halign, hbase, heq⟩ := withProtection_eq_some hnew
  constructor
  · have hptr : h.alloc.basePtr R = block.ptr := by
      rw [heq]
      simp only [basePtr]
      omega
    rw [hptr, ← halign]
    exact (hA.allocate_satisfies hinv halloc).aligned
  · rw [hstride]
    exact dvd_alignUp _ _

/-- A constructed slab has its shape, whatever protects its links, and its slots hold a value of
the type. -/
theorem withProtection_shape (hA : HonoursRange A R Inv) (hinv : Inv g L)
    (hnew : withProtection A R T capacity mac g = some h) :
    Shape R h.alloc ∧ T.size ≤ h.alloc.blockStride := by
  obtain ⟨block, g', halloc, hpos, hlt, hstride, hsize, halign, hbase, heq⟩ :=
    withProtection_eq_some hnew
  have hiss := hA.allocate_some hinv halloc
  have hmem : (⟨block, h.alloc.backingLayout⟩ : Grant w) ∈
      insert (⟨block, h.alloc.backingLayout⟩ : Grant w) L := Set.mem_insert _ _
  have hlarge := (hA.satisfies hiss.inv hmem).large
  have hend := hA.le_end hiss.inv hmem
  have hspace := hA.end_le hiss.inv
  have hbpos := hA.base_pos hiss.inv
  have hapos : 0 < max T.align freeLinkAlign := halign ▸ h.alloc.backingLayout.align_pos
  have hraw : max T.size freeLinkSize ≤ h.alloc.blockStride := hstride ▸ le_alignUp hapos
  simp only at hlarge hend
  have hstride_lt : h.alloc.blockStride < 2 ^ w := by
    have hle := Nat.le_mul_of_pos_right h.alloc.blockStride hpos
    have hlayout := h.alloc.backingLayout.size_lt
    omega
  rw [hsize] at hlarge
  refine ⟨?_, (le_max_left _ _).trans hraw⟩
  rw [heq]
  exact ⟨(le_max_right _ _).trans hraw, hstride_lt, rfl, hpos, hlt, by
    simp only
    rw [mul_comm]
    omega, hbpos, hspace⟩

/-- **A constructed slab is an empty pool**, and its slots hold a value of the type. -/
theorem withProtection_refines (hA : HonoursRange A R Inv) (hinv : Inv g L) (hM : mac.Sound)
    (hnew : withProtection A R T capacity mac g = some h) :
    Refines R h (Pool.empty capacity) ∧ T.size ≤ h.alloc.blockStride := by
  obtain ⟨hshape, hsize⟩ := withProtection_shape hA hinv hnew
  obtain ⟨block, g', -, -, -, -, -, -, -, heq⟩ := withProtection_eq_some hnew
  refine ⟨?_, hsize⟩
  rw [heq] at hshape ⊢
  exact
    { shape := hshape
      capacity_eq := rfl
      mac_sound := hM
      retired_eq := rfl
      threaded := Threaded.empty _
      tagged := List.forall_mem_nil _
      corruption_eq := rfl }

end Slab

end ForgeAlloc
