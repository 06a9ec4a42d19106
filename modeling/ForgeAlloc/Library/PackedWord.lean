import Mathlib

set_option autoImplicit false

/-! # Two fields packed into a word

A word of `n` bits holds a low field of `k` bits and a high field of the other `n - k`. `pack`
takes the high field of one word and the low field of another; `low` and `high` read the fields
back, and a word is determined by its two fields (`ext_fields`).
-/

namespace PackedWord

variable {n : Nat}

/-- The word whose low `k` bits are set. -/
def lowMask (n k : Nat) : BitVec n := BitVec.ofNat n (2 ^ k - 1)

/-- The low field, in its place. -/
def low (k : Nat) (x : BitVec n) : BitVec n := x &&& lowMask n k

/-- The high field, moved down. -/
def high (k : Nat) (x : BitVec n) : BitVec n := x >>> k

/-- The high field of `y` above the low field of `x`. -/
def pack (k : Nat) (y x : BitVec n) : BitVec n := (high k y <<< k) ||| low k x

@[simp] theorem getLsbD_lowMask (k i : Nat) :
    (lowMask n k).getLsbD i = (decide (i < k) && decide (i < n)) := by
  simp only [lowMask, BitVec.getLsbD_ofNat, Nat.testBit_two_pow_sub_one, Bool.and_comm]

@[simp] theorem getLsbD_low (k i : Nat) (x : BitVec n) :
    (low k x).getLsbD i = (decide (i < k) && x.getLsbD i) := by
  rw [low, BitVec.getLsbD_and, getLsbD_lowMask]
  by_cases hi : i < n
  · rw [decide_eq_true hi, Bool.and_true, Bool.and_comm]
  · rw [BitVec.getLsbD_of_ge x i (Nat.le_of_not_lt hi), Bool.false_and, Bool.and_false]

@[simp] theorem getLsbD_high (k i : Nat) (x : BitVec n) :
    (high k x).getLsbD i = x.getLsbD (k + i) := by
  simp [high]

@[simp] theorem getLsbD_pack (k i : Nat) (y x : BitVec n) :
    (pack k y x).getLsbD i = if i < k then x.getLsbD i else y.getLsbD i := by
  rw [pack, BitVec.getLsbD_or, BitVec.getLsbD_shiftLeft, getLsbD_low, getLsbD_high]
  by_cases hk : i < k
  · simp [hk]
  · have hsum : k + (i - k) = i := Nat.add_sub_cancel' (Nat.le_of_not_lt hk)
    by_cases hi : i < n
    · simp only [hk, hi, hsum, decide_true, decide_false, Bool.not_false, Bool.true_and,
        Bool.false_and, Bool.or_false, if_false]
    · simp only [hk, hi, BitVec.getLsbD_of_ge y i (Nat.le_of_not_lt hi), decide_false,
        Bool.false_and, Bool.or_false, if_false]

theorem low_low (k : Nat) (x : BitVec n) : low k (low k x) = low k x := by
  apply BitVec.eq_of_getLsbD_eq
  intro i _
  by_cases hk : i < k <;> simp [hk]

theorem low_pack (k : Nat) (y x : BitVec n) : low k (pack k y x) = low k x := by
  apply BitVec.eq_of_getLsbD_eq
  intro i _
  by_cases hk : i < k <;> simp [hk]

theorem high_pack (k : Nat) (y x : BitVec n) : high k (pack k y x) = high k y := by
  apply BitVec.eq_of_getLsbD_eq
  intro i _
  simp

/-- A word is determined by its two fields. -/
theorem ext_fields {k : Nat} {x y : BitVec n} (hlow : low k x = low k y)
    (hhigh : high k x = high k y) : x = y := by
  apply BitVec.eq_of_getLsbD_eq
  intro i _
  by_cases hk : i < k
  · have hbit := congrArg (fun z : BitVec n => z.getLsbD i) hlow
    simpa [hk] using hbit
  · have hbit := congrArg (fun z : BitVec n => z.getLsbD (i - k)) hhigh
    simpa [Nat.add_sub_cancel' (Nat.le_of_not_lt hk)] using hbit

/-- The low field is the word modulo `2 ^ k`. -/
theorem toNat_low {k : Nat} (hk : k ≤ n) (x : BitVec n) : (low k x).toNat = x.toNat % 2 ^ k := by
  have hlt : 2 ^ k - 1 < 2 ^ n := by
    have hle : (2 : Nat) ^ k ≤ 2 ^ n := Nat.pow_le_pow_right (by decide) hk
    have hpos : 0 < (2 : Nat) ^ k := Nat.two_pow_pos k
    omega
  rw [low, lowMask, BitVec.toNat_and, BitVec.toNat_ofNat, Nat.mod_eq_of_lt hlt,
    Nat.and_two_pow_sub_one_eq_mod]

/-- A number of at most `k` bits is its own low field. -/
theorem low_ofNat {k v : Nat} (hk : k ≤ n) (hv : v < 2 ^ k) :
    low k (BitVec.ofNat n v) = BitVec.ofNat n v := by
  have hle : (2 : Nat) ^ k ≤ 2 ^ n := Nat.pow_le_pow_right (by decide) hk
  apply BitVec.eq_of_toNat_eq
  rw [toNat_low hk, BitVec.toNat_ofNat, Nat.mod_eq_of_lt (hv.trans_le hle), Nat.mod_eq_of_lt hv]

end PackedWord
