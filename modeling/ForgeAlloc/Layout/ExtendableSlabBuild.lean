import ForgeAlloc.Layout.ExtendableSlab

set_option autoImplicit false

/-! # The size of a segment

`build_segment` computes the size of the mapping, and `Slab::with_protection` the layout of the
region it then takes from the mapping. The two computations agree: the region and the padding in
front of it fit the mapping wherever the system puts it. The one test that the mapping does not pass
beforehand is that of `NonZeroLayout`, which bounds the region by `isize::MAX`; a system that maps
more than that makes the construction fail (`buildSegment_isSome_iff`).
-/

namespace ForgeAlloc

open MachineInt ByteMemory

variable {w : Nat} {T : RustType w} {os : Os} {capacity request : Nat} {backing : MmapBacked}

/-- A mapping made by `MmapBacked::new` is committed, so a commit inside it succeeds. -/
theorem MmapBacked.osCommit_of_new {mapped : Option Nat}
    (hmap : MmapBacked.new w os request mapped = some backing) (hpage : os.pageSize ∣ backing.ptr)
    (hspace : backing.ptr + backing.len ≤ 2 ^ w) {off len : Nat} (hle : off + len ≤ backing.len) :
    (MmapBacked.osCommit w os off len backing).1 = true := by
  have hcommitted : backing.committed = backing.len := by
    unfold MmapBacked.new MmapBacked.withFlags at hmap
    split at hmap
    · cases hmap
    · simp only [Option.bind_eq_bind, Option.bind_eq_some_iff] at hmap
      obtain ⟨padded, -, ptr, -, hif⟩ := hmap
      split at hif
      · split at hif
        case isTrue hlazy => exact absurd hlazy.2 Bool.false_ne_true
        case isFalse =>
            cases hif
            rfl
      · cases hif
  have hge : os.pageSize ≤ backing.ptr := Nat.le_of_dvd backing.ptr_pos hpage
  have hpos := Nat.pos_of_isPowerOfTwo os.pageSize_pow
  have hfin : checkedAdd w off len = some (off + len) := checkedAdd_eq_some.mpr ⟨by omega, rfl⟩
  have hpad : checkedAdd w (off + len) (os.pageSize - 1) = some (off + len + (os.pageSize - 1)) :=
    checkedAdd_eq_some.mpr ⟨by omega, rfl⟩
  unfold MmapBacked.osCommit
  split
  · simp only [hfin, hpad]
    rw [if_pos (hcommitted ▸ min_le_right _ _)]
  · rfl

/-- A request that fits the mapping, padding included, is served. -/
theorem MmapBacked.allocate_isSome_of_new {mapped : Option Nat}
    (hmap : MmapBacked.new w os request mapped = some backing) (hpage : os.pageSize ∣ backing.ptr)
    (hspace : backing.ptr + backing.len ≤ 2 ^ w) {l : NonZeroLayout w}
    (hfits : l.size + (l.align - 1) ≤ backing.len) (m : Mem) :
    ∃ b h, MmapBacked.allocate os l ⟨backing, m⟩ = (some b, h) ∧ backing.ptr ≤ b.ptr ∧
      h.alloc.ptr = backing.ptr := by
  have hcursor : backing.cursor = 0 := (MmapBacked.withFlags_eq_some hmap).2.2.2.2
  have hpos := backing.ptr_pos
  obtain ⟨k, hk, hkw⟩ := l.exists_align
  have hlt := alignUp_lt_add (x := backing.ptr + backing.cursor) l.align_pos
  have hge := le_alignUp (x := backing.ptr + backing.cursor) l.align_pos
  have hbump : bump w backing.ptr backing.len backing.cursor l.size l.align =
      some (alignUp (backing.ptr + backing.cursor) l.align - backing.ptr,
        alignUp (backing.ptr + backing.cursor) l.align - backing.ptr + l.size) := by
    rw [hk] at hlt hge ⊢
    refine (bump_eq_some_iff hkw l.size_pos hspace (by omega)).mpr ⟨?_, rfl, rfl⟩
    unfold Fits
    rw [hk] at hfits
    omega
  have hcommit : (MmapBacked.osCommit w os
      (alignUp (backing.ptr + backing.cursor) l.align - backing.ptr) l.size backing).1 = true := by
    have halign := l.align_pos
    exact MmapBacked.osCommit_of_new hmap hpage hspace (by omega)
  obtain ⟨ok, committed, system, heq, -⟩ := MmapBacked.osCommit_eq w os
    (alignUp (backing.ptr + backing.cursor) l.align - backing.ptr) l.size backing
  rw [heq] at hcommit
  obtain rfl : ok = true := hcommit
  exact ⟨_, _, by simp only [MmapBacked.allocate, chainedBump_eq, hbump, heq]; rfl,
    Nat.le_add_right _ _, rfl⟩

namespace ExtendableSlab

/-- What the request is made of: the slots and the worst padding in front of them. -/
theorem segmentRequest_eq_some (hreq : segmentRequest T capacity = some request) :
    max T.size freeLinkSize + (max T.align freeLinkAlign - 1) < 2 ^ w ∧
      strideOf T * capacity < 2 ^ w ∧
      maskDown w (max T.size freeLinkSize + (max T.align freeLinkAlign - 1))
        (max T.align freeLinkAlign) = strideOf T ∧
      request = strideOf T * capacity + (max T.align freeLinkAlign - 1) := by
  simp only [segmentRequest, Option.bind_eq_bind, Option.bind_eq_some_iff, checkedAdd_eq_some,
    checkedMul_eq_some] at hreq
  obtain ⟨padded, ⟨hpad, rfl⟩, total, ⟨htotal, rfl⟩, -, rfl⟩ := hreq
  have hmask : maskDown w (max T.size freeLinkSize + (max T.align freeLinkAlign - 1))
      (max T.align freeLinkAlign) = strideOf T := by
    obtain ⟨k, hk⟩ := Slab.slotAlign_isPowerOfTwo T
    unfold Slab.slotAlign at hk
    have hkw : k ≤ w := by
      have hlt : (2 : Nat) ^ k < 2 ^ w := by
        have hsize : 0 < max T.size freeLinkSize := lt_max_of_lt_right (by decide)
        rw [hk] at hpad
        omega
      exact le_of_lt ((Nat.pow_lt_pow_iff_right (by decide)).mp hlt)
    unfold strideOf
    rw [hk] at hpad ⊢
    exact maskDown_add_pred hpad hkw
  rw [hmask] at htotal ⊢
  exact ⟨hpad, htotal, rfl, rfl⟩

/-- **The mapping is always large enough.** For every type that is not zero-sized, every capacity
and every page-aligned mapping, the construction of the segment succeeds if and only if what was
mapped is within `isize::MAX`. -/
theorem buildSegment_isSome_iff (hsize : 0 < T.size) (hpos : 0 < capacity) (hlt : capacity < 2 ^ 32)
    {x : Supply} (hreq : segmentRequest T capacity = some request)
    (hmap : MmapBacked.new w os request x.mapped = some backing)
    (hpage : os.pageSize ∣ backing.ptr) (hspace : backing.ptr + backing.len ≤ 2 ^ w) (m : Mem) :
    (buildSegment os T capacity x m).isSome ↔ request ≤ isizeMax w := by
  obtain ⟨hpad, htotal, hmask, hrequest⟩ := segmentRequest_eq_some hreq
  have hstride : 0 < strideOf T := by
    have hge : max T.size freeLinkSize ≤ strideOf T :=
      le_alignUp (Nat.pos_of_isPowerOfTwo (Slab.slotAlign_isPowerOfTwo T))
    exact (lt_max_of_lt_left hsize).trans_le hge
  have htpos : 0 < strideOf T * capacity := Nat.mul_pos hstride hpos
  have hbuild : buildSegment os T capacity x m =
      Slab.withProtection (MmapBacked.allocator w os) (MmapBacked.range w os) T capacity x.mac
        ⟨backing, m⟩ := by
    simp only [buildSegment, Option.bind_eq_bind, hreq, Option.bind_some, hmap]
  rw [hbuild]
  constructor
  · intro hsome
    obtain ⟨g, hg⟩ := Option.isSome_iff_exists.mp hsome
    obtain ⟨-, -, -, -, -, hstrideEq, hs, ha, -, -⟩ := Slab.withProtection_eq_some hg
    have hbound := g.alloc.backingLayout.bound
    rw [hs, ha, show g.alloc.blockStride = strideOf T from hstrideEq] at hbound
    exact hrequest ▸ hbound
  · intro hle
    rw [hrequest] at hle
    let layout : NonZeroLayout w := ⟨strideOf T * capacity, max T.align freeLinkAlign, htpos,
      Slab.slotAlign_isPowerOfTwo T, hle⟩
    have hlayout : NonZeroLayout.fromSizeAlign w (strideOf T * capacity)
        (max T.align freeLinkAlign) = some layout :=
      NonZeroLayout.fromSizeAlign_eq_some.mpr ⟨rfl, rfl⟩
    -- rounding up to pages only makes the mapping longer
    have hlen : layout.size + (layout.align - 1) ≤ backing.len := by
      obtain ⟨-, hround, -, hmasked, -⟩ := MmapBacked.withFlags_eq_some hmap
      obtain ⟨k, hk⟩ := os.pageSize_pow
      have hkw : k ≤ w := by
        have hlt : (2 : Nat) ^ k < 2 ^ w := by
          rw [hk] at hround
          omega
        exact le_of_lt ((Nat.pow_lt_pow_iff_right (by decide)).mp hlt)
      rw [hmasked, hk, maskDown_add_pred (hk ▸ hround) hkw]
      exact hrequest ▸ le_alignUp (Nat.two_pow_pos k)
    obtain ⟨b, h, hcall, hge, hptr⟩ :=
      MmapBacked.allocate_isSome_of_new hmap hpage hspace hlen m
    have hadd : checkedAdd w (max T.size freeLinkSize) (max T.align freeLinkAlign - 1) =
        some (max T.size freeLinkSize + (max T.align freeLinkAlign - 1)) :=
      checkedAdd_eq_some.mpr ⟨hpad, rfl⟩
    have hmul : checkedMul w (strideOf T) capacity = some (strideOf T * capacity) :=
      checkedMul_eq_some.mpr ⟨htotal, rfl⟩
    have hsub : checkedSub b.ptr ((MmapBacked.range w os).base h.alloc) =
        some (b.ptr - h.alloc.ptr) := checkedSub_eq_some.mpr ⟨hptr.trans_le hge, rfl⟩
    simp only [Slab.withProtection, if_neg (Nat.ne_of_gt hpos), if_neg (Nat.ne_of_gt hsize),
      if_neg (Nat.not_le.mpr hlt), hadd, Option.bind_eq_bind, Option.bind_some, hmask, hmul, hlayout,
      show (MmapBacked.allocator w os).allocate layout ⟨backing, m⟩ = _ from hcall, hsub,
      Option.isSome_some]

def os8192 : Os := ⟨false, 8192, 13, rfl⟩

def word32 : RustType 32 := .lit 32 8 8 (Eq.refl true)

def suppliedAt (p : Nat) : Supply := ⟨some p, .none, FreelistProtection.none_sound⟩

/-- A mapping at `ptr` of `len` bytes, as `MmapBacked::new` leaves it. -/
def fresh (ptr len : Nat) (h : 0 < ptr) : MmapBacked := ⟨ptr, len, 0, len, ⟨[], [⟨ptr, len⟩]⟩, h⟩

theorem buildSegment_isSome_iff_page :
    (buildSegment os8192 word32 4 (suppliedAt 8192) fun _ => 0).isSome := by
  have hreq : segmentRequest word32 4 = some 39 := by decide +kernel
  have hmap : MmapBacked.new 32 os8192 39 (suppliedAt 8192).mapped =
      some (fresh 8192 8192 (by decide)) := rfl
  exact (buildSegment_isSome_iff (by decide) (by decide) (by decide) hreq hmap (by decide)
    (by decide) _).mpr (by decide)

/-- A 32-bit system maps the two gigabytes and a page that are asked for, and the construction
fails: no layout has a size above `isize::MAX`. -/
theorem buildSegment_above_isizeMax :
    segmentRequest word32 (2 ^ 28) = some (2 ^ 31 + 7) ∧
      MmapBacked.new 32 os8192 (2 ^ 31 + 7) (suppliedAt 8192).mapped =
        some (fresh 8192 (2 ^ 31 + 8192) (by decide)) ∧
      (buildSegment os8192 word32 (2 ^ 28) (suppliedAt 8192) fun _ => 0).isSome = false :=
  ⟨by decide +kernel, rfl, by decide +kernel⟩

end ExtendableSlab

end ForgeAlloc
