import ForgeAlloc.Library.MachineInt

set_option autoImplicit false

/-! # Layouts

`NonZeroLayout`, the request every allocator of the crate receives: a nonzero size and a
power-of-two alignment, with the size small enough that rounding it up to the alignment stays
within `isize::MAX`. The width `w` is that of `usize` on the target.

`CoreLayout` is `core::alloc::Layout`, which also admits size zero, and `RustType` the size and
alignment of a type.
-/

namespace ForgeAlloc

open MachineInt

/-- `isize::MAX as usize`. -/
def isizeMax (w : Nat) : Nat := 2 ^ (w - 1) - 1

theorem isizeMax_lt (w : Nat) : isizeMax w < 2 ^ w := by
  have h : (2 : Nat) ^ (w - 1) ≤ 2 ^ w := Nat.pow_le_pow_right (by decide) (by omega)
  have hpos : 0 < (2 : Nat) ^ (w - 1) := Nat.two_pow_pos _
  unfold isizeMax
  omega

/-- Size and alignment of a type. The language makes every size a multiple of the alignment and
at most `isize::MAX`. -/
structure RustType (w : Nat) where
  size : Nat
  align : Nat
  align_pow : align.isPowerOfTwo
  align_dvd : align ∣ size
  align_lt : align < 2 ^ w
  size_le : size ≤ isizeMax w

structure NonZeroLayout (w : Nat) where
  size : Nat
  align : Nat
  size_pos : 0 < size
  align_pow : align.isPowerOfTwo
  bound : size + (align - 1) ≤ isizeMax w
  deriving DecidableEq

/-- `core::alloc::Layout`. -/
structure CoreLayout (w : Nat) where
  size : Nat
  align : Nat
  align_pow : align.isPowerOfTwo
  bound : size + (align - 1) ≤ isizeMax w
  deriving DecidableEq

variable {w : Nat}

theorem NonZeroLayout.align_pos (l : NonZeroLayout w) : 0 < l.align :=
  Nat.pos_of_isPowerOfTwo l.align_pow

theorem NonZeroLayout.size_lt (l : NonZeroLayout w) : l.size < 2 ^ w := by
  have := l.bound
  have := isizeMax_lt w
  omega

/-- A layout exists only for words of some width. -/
theorem NonZeroLayout.width_pos (l : NonZeroLayout w) : 0 < w := by
  rcases Nat.eq_zero_or_pos w with rfl | hw
  · have hb := l.bound
    have hs := l.size_pos
    simp only [isizeMax] at hb
    omega
  · exact hw

theorem RustType.exists_align (T : RustType w) : ∃ k, T.align = 2 ^ k ∧ k ≤ w := by
  obtain ⟨k, hk⟩ := T.align_pow
  have hlt := T.align_lt
  rw [hk] at hlt
  exact ⟨k, hk, le_of_lt ((Nat.pow_lt_pow_iff_right (by decide)).mp hlt)⟩

/-- The alignment of a layout is `2 ^ k` for an exponent within the word. -/
theorem NonZeroLayout.exists_align (l : NonZeroLayout w) : ∃ k, l.align = 2 ^ k ∧ k ≤ w := by
  obtain ⟨k, hk⟩ := l.align_pow
  refine ⟨k, hk, ?_⟩
  have hb := l.bound
  have hs := l.size_pos
  have hi := isizeMax_lt w
  have hlt : (2 : Nat) ^ k < 2 ^ w := by
    rw [← hk]
    omega
  exact le_of_lt ((Nat.pow_lt_pow_iff_right (by decide)).mp hlt)

/-- `NonZeroLayout::from_size_align`, with the tests of `NonZeroLayout::new`. -/
def NonZeroLayout.fromSizeAlign (w size align : Nat) : Option (NonZeroLayout w) :=
  if hs : 0 < size then
    if ha : align.isPowerOfTwo then
      if hb : size ≤ isizeMax w - (align - 1) then
        some ⟨size, align, hs, ha, by omega⟩
      else none
    else none
  else none

theorem NonZeroLayout.fromSizeAlign_eq_some {size align : Nat} {l : NonZeroLayout w} :
    NonZeroLayout.fromSizeAlign w size align = some l ↔ l.size = size ∧ l.align = align := by
  constructor
  · intro h
    unfold NonZeroLayout.fromSizeAlign at h
    split at h
    · split at h
      · split at h
        · cases h
          exact ⟨rfl, rfl⟩
        · cases h
      · cases h
    · cases h
  · rintro ⟨rfl, rfl⟩
    have hb := l.bound
    have hs := l.size_pos
    rw [NonZeroLayout.fromSizeAlign, dif_pos hs, dif_pos l.align_pow, dif_pos (by omega)]

theorem NonZeroLayout.ext_size_align {l m : NonZeroLayout w} (hs : l.size = m.size)
    (ha : l.align = m.align) : l = m := by
  cases l
  cases m
  simp only at hs ha
  subst hs ha
  rfl

/-- A layout of known size and alignment. -/
def NonZeroLayout.lit (w size align : Nat)
    (h : decide (0 < size ∧ align.isPowerOfTwo ∧ size + (align - 1) ≤ isizeMax w) = true) :
    NonZeroLayout w :=
  ⟨size, align, (of_decide_eq_true h).1, (of_decide_eq_true h).2.1, (of_decide_eq_true h).2.2⟩

/-- A type of known size and alignment. -/
def RustType.lit (w size align : Nat)
    (h : decide (align.isPowerOfTwo ∧ align ∣ size ∧ align < 2 ^ w ∧ size ≤ isizeMax w) = true) :
    RustType w :=
  ⟨size, align, (of_decide_eq_true h).1, (of_decide_eq_true h).2.1, (of_decide_eq_true h).2.2.1,
    (of_decide_eq_true h).2.2.2⟩

/-- `NonZeroLayout::for_type`. -/
def NonZeroLayout.forType (T : RustType w) : Option (NonZeroLayout w) :=
  NonZeroLayout.fromSizeAlign w T.size T.align

/-- The size `pad_to_align` computes: `(size + align - 1) & !(align - 1)`. -/
def NonZeroLayout.paddedSize (l : NonZeroLayout w) : Nat :=
  maskDown w (l.size + l.align - 1) l.align

/-- `NonZeroLayout::array`. -/
def NonZeroLayout.array (T : RustType w) (n : Nat) : Option (NonZeroLayout w) := do
  let elem ← NonZeroLayout.forType T
  let total ← checkedMul w elem.paddedSize n
  NonZeroLayout.fromSizeAlign w total elem.align

/-- `TryFrom<Layout> for NonZeroLayout`. -/
def CoreLayout.toNonZero (l : CoreLayout w) : Option (NonZeroLayout w) :=
  NonZeroLayout.fromSizeAlign w l.size l.align

/-- The conversion fails for size zero only. -/
theorem CoreLayout.toNonZero_eq_none_iff {l : CoreLayout w} : l.toNonZero = none ↔ l.size = 0 := by
  have hb := l.bound
  constructor
  · intro h
    by_contra hne
    rw [CoreLayout.toNonZero, NonZeroLayout.fromSizeAlign, dif_pos (by omega),
      dif_pos l.align_pow, dif_pos (by omega)] at h
    cases h
  · intro h
    rw [CoreLayout.toNonZero, NonZeroLayout.fromSizeAlign, dif_neg (by omega)]

theorem CoreLayout.toNonZero_eq_some {l : CoreLayout w} {n : NonZeroLayout w} :
    l.toNonZero = some n ↔ n.size = l.size ∧ n.align = l.align :=
  NonZeroLayout.fromSizeAlign_eq_some

/-- A type's padded size is its size: it is a multiple of the alignment already. -/
theorem NonZeroLayout.paddedSize_forType {T : RustType w} {l : NonZeroLayout w}
    (h : NonZeroLayout.forType T = some l) : l.paddedSize = T.size := by
  obtain ⟨hs, ha⟩ := NonZeroLayout.fromSizeAlign_eq_some.mp h
  obtain ⟨k, hk, hkw⟩ := l.exists_align
  have hb := l.bound
  have hi := isizeMax_lt w
  have hpos : 0 < (2 : Nat) ^ k := Nat.two_pow_pos k
  have hdvd : (2 : Nat) ^ k ∣ T.size := by
    rw [← hk, ha]
    exact T.align_dvd
  have hadd : l.size + l.align - 1 = T.size + (2 ^ k - 1) := by omega
  rw [NonZeroLayout.paddedSize, hadd, hk, maskDown_add_pred (by omega) hkw,
    alignUp_of_dvd hpos hdvd]

/-- The array layout, when there is one, has the exact product for its size. -/
theorem NonZeroLayout.array_eq_some {T : RustType w} {n : Nat} {l : NonZeroLayout w}
    (h : NonZeroLayout.array T n = some l) : l.size = T.size * n ∧ l.align = T.align := by
  simp only [NonZeroLayout.array, Option.bind_eq_bind, Option.bind_eq_some_iff,
    checkedMul_eq_some] at h
  obtain ⟨elem, helem, total, ⟨-, rfl⟩, hl⟩ := h
  obtain ⟨hsize, halign⟩ := NonZeroLayout.fromSizeAlign_eq_some.mp hl
  rw [NonZeroLayout.paddedSize_forType helem] at hsize
  exact ⟨hsize, halign.trans (NonZeroLayout.fromSizeAlign_eq_some.mp helem).2⟩

end ForgeAlloc
