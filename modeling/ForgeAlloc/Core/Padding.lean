import ForgeAlloc.Core.StdCompat

set_option autoImplicit false

/-! # Padding, arrays and conversions of layouts

A layout keeps its size so small that it can be rounded up to the alignment without an overflow, and
the rounded layout keeps the same bound: the largest size admitted for an alignment is a multiple of
it (`paddedSize_le`). This is what `pad_to_align`, `array` and the conversions to and from the
standard library's layouts rely on.

`arrayOf` is `array` on the bare size and alignment of an element, which need not be those of a Rust
type.
-/

namespace ForgeAlloc

open MachineInt ByteMemory

variable {w : Nat}

namespace NonZeroLayout

/-! ## Padding -/

/-- The size and the alignment stay below half of the word. -/
theorem add_align_le (l : NonZeroLayout w) : l.size + l.align ≤ 2 ^ (w - 1) := by
  have hbound := l.bound
  have hpos := l.align_pos
  have hhalf : 0 < (2 : Nat) ^ (w - 1) := Nat.two_pow_pos _
  unfold isizeMax at hbound
  omega

theorem half_lt (l : NonZeroLayout w) : 2 ^ (w - 1) < 2 ^ w :=
  Nat.pow_lt_pow_right (by decide) (Nat.sub_lt l.width_pos (by decide))

/-- The mask rounds up to the alignment. -/
theorem paddedSize_eq (l : NonZeroLayout w) : l.paddedSize = alignUp l.size l.align := by
  obtain ⟨k, hk, hkw⟩ := l.exists_align
  have hsum := l.add_align_le
  have hhalf := l.half_lt
  have hadd : l.size + l.align - 1 = l.size + (2 ^ k - 1) := by
    have hpos : 0 < (2 : Nat) ^ k := Nat.two_pow_pos k
    omega
  rw [paddedSize, hadd, hk, maskDown_add_pred (by omega) hkw]

theorem le_paddedSize (l : NonZeroLayout w) : l.size ≤ l.paddedSize := by
  rw [paddedSize_eq]
  exact le_alignUp l.align_pos

/-- **The rounded size keeps the bound**: the largest size that the bound admits is itself a multiple
of the alignment. -/
theorem paddedSize_le (l : NonZeroLayout w) : l.paddedSize + (l.align - 1) ≤ isizeMax w := by
  obtain ⟨k, hk, -⟩ := l.exists_align
  have hsum := l.add_align_le
  have hsize := l.size_pos
  have hpos := l.align_pos
  rw [hk] at hsum hpos
  have hdvd : (2 : Nat) ^ k ∣ 2 ^ (w - 1) := dvd_of_dvd_two_pow (by omega)
  have hle : alignUp l.size (2 ^ k) ≤ 2 ^ (w - 1) - 2 ^ k :=
    alignUp_le_of_dvd hpos (Nat.dvd_sub hdvd dvd_rfl) (by omega)
  rw [paddedSize_eq, hk, isizeMax]
  omega

/-- `NonZeroLayout::pad_to_align`. The size that was there is kept if the rounded one is zero. -/
def padToAlign (l : NonZeroLayout w) : NonZeroLayout w where
  size := if l.paddedSize = 0 then l.size else l.paddedSize
  align := l.align
  size_pos := by
    split
    · exact l.size_pos
    · omega
  align_pow := l.align_pow
  bound := by
    split
    · exact l.bound
    · exact l.paddedSize_le

/-- The rounded size is never zero. -/
theorem padToAlign_size_eq (l : NonZeroLayout w) : l.padToAlign.size = l.paddedSize := by
  have hle := l.le_paddedSize
  have hpos := l.size_pos
  exact if_neg (by omega)

theorem padToAlign_size (l : NonZeroLayout w) : l.padToAlign.size = alignUp l.size l.align :=
  l.padToAlign_size_eq.trans l.paddedSize_eq

theorem padToAlign_padToAlign (l : NonZeroLayout w) : l.padToAlign.padToAlign = l.padToAlign := by
  refine ext_size_align ?_ rfl
  rw [padToAlign_size, padToAlign_size]
  exact alignUp_of_dvd l.align_pos (dvd_alignUp _ _)

/-- What is to hold of the padding of a layout. -/
structure PadsExactly (l : NonZeroLayout w) : Prop where
  /-- The largest intermediate result. -/
  sum_lt : l.size + l.align < 2 ^ w
  /-- The assertion of a debug build. -/
  bound : l.paddedSize ≤ isizeMax w - (l.align - 1)
  /-- The rounded size is not zero, so it is the one that is used. -/
  size_eq : l.padToAlign.size = l.paddedSize
  align_eq : l.padToAlign.align = l.align
  dvd : l.align ∣ l.padToAlign.size
  le : l.size ≤ l.padToAlign.size
  least : ∀ m, l.align ∣ m → l.size ≤ m → l.padToAlign.size ≤ m
  /-- The test of `NonZeroLayout::new` for the alignment. -/
  accepted : fromSizeAlign w l.padToAlign.size l.align = some l.padToAlign
  idempotent : l.padToAlign.padToAlign = l.padToAlign

theorem padsExactly (l : NonZeroLayout w) : PadsExactly l where
  sum_lt := l.add_align_le.trans_lt l.half_lt
  bound := Nat.le_sub_of_add_le l.paddedSize_le
  size_eq := l.padToAlign_size_eq
  align_eq := rfl
  dvd := by
    rw [padToAlign_size]
    exact dvd_alignUp _ _
  le := by
    rw [padToAlign_size]
    exact le_alignUp l.align_pos
  least := by
    intro m hdvd hle
    rw [padToAlign_size]
    exact alignUp_le_of_dvd l.align_pos hdvd hle
  accepted := fromSizeAlign_eq_some.mpr ⟨rfl, rfl⟩
  idempotent := l.padToAlign_padToAlign

/-! ## Arrays -/

/-- `NonZeroLayout::array` for elements of the given size and alignment. -/
def arrayOf (w size align n : Nat) : Option (NonZeroLayout w) := do
  let elem ← fromSizeAlign w size align
  let padded := elem.padToAlign
  let total ← checkedMul w padded.size n
  fromSizeAlign w total padded.align

theorem array_eq_arrayOf (T : RustType w) (n : Nat) : array T n = arrayOf w T.size T.align n := by
  simp only [array, arrayOf, forType, padToAlign_size_eq]
  rfl

/-- The test of `NonZeroLayout::new`. -/
theorem fromSizeAlign_isSome_iff {size align : Nat} :
    (fromSizeAlign w size align).isSome ↔
      0 < size ∧ align.isPowerOfTwo ∧ size ≤ isizeMax w - (align - 1) := by
  unfold fromSizeAlign
  constructor
  · intro h
    split at h
    case isFalse => cases h
    case isTrue hsize =>
    split at h
    case isFalse => cases h
    case isTrue hpow =>
    split at h
    case isFalse => cases h
    case isTrue hle => exact ⟨hsize, hpow, hle⟩
  · rintro ⟨hsize, hpow, hle⟩
    rw [dif_pos hsize, dif_pos hpow, dif_pos hle]
    rfl

/-- **The array layout** exists exactly when the exact product is not zero and within the bound, and
has it for its size. -/
theorem arrayOf_eq_some_iff {size align n : Nat} {l : NonZeroLayout w} :
    arrayOf w size align n = some l ↔
      align.isPowerOfTwo ∧ 0 < n * alignUp size align ∧
        n * alignUp size align ≤ isizeMax w - (align - 1) ∧
        l.size = n * alignUp size align ∧ l.align = align := by
  constructor
  · intro h
    simp only [arrayOf, Option.bind_eq_bind, Option.bind_eq_some_iff, checkedMul_eq_some] at h
    obtain ⟨elem, helem, total, ⟨-, rfl⟩, hl⟩ := h
    obtain ⟨hsize, halign⟩ := fromSizeAlign_eq_some.mp helem
    obtain ⟨htotal, hltAlign⟩ := fromSizeAlign_eq_some.mp hl
    have helemAlign : elem.padToAlign.align = align := halign
    rw [padToAlign_size, hsize, halign, Nat.mul_comm] at htotal
    rw [helemAlign] at hltAlign
    have hpos := l.size_pos
    have hbound := l.bound
    rw [htotal] at hpos hbound
    rw [hltAlign] at hbound
    exact ⟨hltAlign ▸ l.align_pow, hpos, by omega, htotal, hltAlign⟩
  · rintro ⟨hpow, hpos, hle, hsize, halign⟩
    have hn : 0 < n := Nat.pos_of_mul_pos_right hpos
    have hpad : 0 < alignUp size align := Nat.pos_of_mul_pos_left hpos
    have halignPos := Nat.pos_of_isPowerOfTwo hpow
    -- one element is not larger than the array
    have helemLe : size ≤ isizeMax w - (align - 1) := by
      calc size ≤ alignUp size align := le_alignUp halignPos
        _ ≤ n * alignUp size align := Nat.le_mul_of_pos_left _ hn
        _ ≤ isizeMax w - (align - 1) := hle
    have helemPos : 0 < size := by
      by_contra hzero
      rw [Nat.eq_zero_of_not_pos hzero, alignUp_of_dvd halignPos (dvd_zero _)] at hpad
      exact absurd hpad (Nat.lt_irrefl 0)
    obtain ⟨elem, helem⟩ := Option.isSome_iff_exists.mp
      (fromSizeAlign_isSome_iff.mpr ⟨helemPos, hpow, helemLe⟩)
    obtain ⟨hs, ha⟩ := fromSizeAlign_eq_some.mp helem
    have htotal : elem.padToAlign.size * n = n * alignUp size align := by
      rw [padToAlign_size, hs, ha, Nat.mul_comm]
    have hword := isizeMax_lt w
    simp only [arrayOf, Option.bind_eq_bind, Option.bind_eq_some_iff, checkedMul_eq_some]
    refine ⟨elem, helem, _, ⟨by omega, rfl⟩, fromSizeAlign_eq_some.mpr ⟨?_, ?_⟩⟩
    · rw [hsize, htotal]
    · rw [halign]
      exact ha.symm

/-! ## Conversions -/

/-- `NonZeroLayout::to_layout`. -/
def toLayout (l : NonZeroLayout w) : CoreLayout w := ⟨l.size, l.align, l.align_pow, l.bound⟩

theorem toNonZero_toLayout (l : NonZeroLayout w) : l.toLayout.toNonZero = some l :=
  CoreLayout.toNonZero_eq_some.mpr ⟨rfl, rfl⟩

theorem toLayout_of_toNonZero {l : CoreLayout w} {n : NonZeroLayout w} (h : l.toNonZero = some n) :
    n.toLayout = l := by
  obtain ⟨hsize, halign⟩ := CoreLayout.toNonZero_eq_some.mp h
  cases l
  simp only [toLayout, CoreLayout.mk.injEq]
  exact ⟨hsize, halign⟩

end NonZeroLayout

namespace StdCompat

open NonZeroLayout

variable {σ : Type}

/-- Requests of the layout `n` reach the inner allocator, and none of them is answered by the adapter
itself. `zero` is any layout of size zero. -/
structure Forwarded (A : Allocator w σ) (n : NonZeroLayout w) (ptr : Nat) (h : Heap σ) : Prop where
  allocate_eq : allocate A n.toLayout h = A.allocate n h
  deallocate_eq : deallocate A ptr n.toLayout h = A.deallocate ptr n h
  grow_eq : ∀ old, grow A ptr (toLayout old) n.toLayout h = A.grow ptr old n h
  shrink_eq : ∀ old, shrink A ptr (toLayout old) n.toLayout h = A.shrink ptr old n h
  grow_from_zero : ∀ zero : CoreLayout w, zero.size = 0 →
    grow A ptr zero n.toLayout h = A.allocate n h
  shrink_from_zero : ∀ zero : CoreLayout w, zero.size = 0 →
    shrink A ptr zero n.toLayout h = (none, h)
  /-- A block that is shrunk to nothing is freed. -/
  shrink_to_zero : ∀ zero : CoreLayout w, zero.size = 0 →
    (shrink A ptr n.toLayout zero h).2 = A.deallocate ptr n h

theorem forwarded (A : Allocator w σ) (n : NonZeroLayout w) (ptr : Nat) (h : Heap σ) :
    Forwarded A n ptr h := by
  have hzero : ∀ zero : CoreLayout w, zero.size = 0 → zero.toNonZero = none :=
    fun _ => CoreLayout.toNonZero_eq_none_iff.mpr
  constructor
  · simp only [allocate, toNonZero_toLayout]
  · simp only [deallocate, toNonZero_toLayout]
  · intro old
    simp only [grow, toNonZero_toLayout]
  · intro old
    simp only [shrink, toNonZero_toLayout]
  · intro zero hsize
    simp only [grow, toNonZero_toLayout, hzero zero hsize]
  · intro zero hsize
    simp only [shrink, toNonZero_toLayout, hzero zero hsize]
  · intro zero hsize
    simp only [shrink, toNonZero_toLayout, hzero zero hsize]

end StdCompat

open NonZeroLayout StdCompat in
/-- **Layouts**, for every width of the pointers:

* padding is exact, without an overflow and within the bound;
* an array has a layout exactly when its exact size is not zero and within the bound;
* a layout of the standard library converts unless its size is zero, and comes back as it was, so
  that the adapter forwards every request that is not for zero bytes. -/
theorem layouts_correct (w : Nat) :
    (∀ l : NonZeroLayout w, PadsExactly l) ∧
      ((∀ size align n (l : NonZeroLayout w), arrayOf w size align n = some l ↔
          align.isPowerOfTwo ∧ 0 < n * alignUp size align ∧
            n * alignUp size align ≤ isizeMax w - (align - 1) ∧
            l.size = n * alignUp size align ∧ l.align = align) ∧
        ∀ (T : RustType w) n, array T n = arrayOf w T.size T.align n) ∧
      (∀ n : NonZeroLayout w, n.toLayout.toNonZero = some n) ∧
      ∀ l : CoreLayout w, (l.toNonZero = none ↔ l.size = 0) ∧
        ∀ n, l.toNonZero = some n → n.toLayout = l ∧
          ∀ (σ : Type) (A : Allocator w σ) ptr h, Forwarded A n ptr h := by
  refine ⟨padsExactly, ⟨fun _ _ _ _ => arrayOf_eq_some_iff, array_eq_arrayOf⟩, toNonZero_toLayout,
    fun l => ⟨CoreLayout.toNonZero_eq_none_iff, fun n hn => ⟨toLayout_of_toNonZero hn, ?_⟩⟩⟩
  exact fun σ A ptr h => forwarded A n ptr h

/-- 13 bytes at multiples of 8, and three of them. -/
example : (NonZeroLayout.lit 64 13 8 (Eq.refl true)).padToAlign = .lit 64 16 8 (Eq.refl true) ∧
    NonZeroLayout.arrayOf 64 13 8 3 = some (.lit 64 48 8 (Eq.refl true)) := by
  decide +kernel

end ForgeAlloc
