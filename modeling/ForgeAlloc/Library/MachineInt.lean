import Mathlib

set_option autoImplicit false

/-! # Unsigned machine arithmetic

Words of width `w` are the natural numbers below `2 ^ w`. The operations below return `none`
where the machine reports an overflow. Alignments are powers of two, so rounding an address
is a bit mask on the machine (`maskDown`) and a division on the numbers (`alignUp`); the two
are identified by `maskDown_two_pow` and `maskDown_add_pred`.

`bump` is the address computation of a bump allocator: align the absolute address, go back to
an offset, test the end against the capacity. `bump_eq_some_iff` says what it computes as
exact integers. `chainedBump` and `hoistedBump` are other ways to write it.
-/

namespace MachineInt

/-! ## Checked and wrapping operations -/

def checkedAdd (w a b : Nat) : Option Nat := if a + b < 2 ^ w then some (a + b) else none

def checkedMul (w a b : Nat) : Option Nat := if a * b < 2 ^ w then some (a * b) else none

def checkedSub (a b : Nat) : Option Nat := if b ≤ a then some (a - b) else none

/-- Multiplication that stops at the largest machine integer. -/
def saturatingMul (w a b : Nat) : Nat := min (a * b) (2 ^ w - 1)

def saturatingAdd (w a b : Nat) : Nat := min (a + b) (2 ^ w - 1)

def wrappingAdd (w a b : Nat) : Nat := (a + b) % 2 ^ w

def wrappingSub (w a b : Nat) : Nat := (a + (2 ^ w - b)) % 2 ^ w

def wrappingMul (w a b : Nat) : Nat := a * b % 2 ^ w

theorem checkedAdd_eq_some {w a b c : Nat} :
    checkedAdd w a b = some c ↔ a + b < 2 ^ w ∧ c = a + b := by
  unfold checkedAdd
  split <;> simp_all [eq_comm]

theorem checkedAdd_eq_none {w a b : Nat} : checkedAdd w a b = none ↔ 2 ^ w ≤ a + b := by
  unfold checkedAdd
  split <;> simp_all

theorem checkedMul_eq_some {w a b c : Nat} :
    checkedMul w a b = some c ↔ a * b < 2 ^ w ∧ c = a * b := by
  unfold checkedMul
  split <;> simp_all [eq_comm]

theorem checkedSub_eq_some {a b c : Nat} : checkedSub a b = some c ↔ b ≤ a ∧ c = a - b := by
  unfold checkedSub
  split <;> simp_all [eq_comm]

theorem saturatingMul_of_lt {w a b : Nat} (h : a * b < 2 ^ w) : saturatingMul w a b = a * b :=
  min_eq_left (Nat.le_sub_one_of_lt h)

theorem saturatingAdd_of_lt {w a b : Nat} (h : a + b < 2 ^ w) : saturatingAdd w a b = a + b :=
  min_eq_left (by omega)

/-- Sums that saturate one after the other saturate as one. -/
theorem saturatingAdd_min (w a b : Nat) :
    saturatingAdd w (min a (2 ^ w - 1)) (min b (2 ^ w - 1)) = saturatingAdd w a b := by
  simp only [saturatingAdd]
  omega

theorem foldl_saturatingAdd {w a : Nat} (ha : a < 2 ^ w) (l : List Nat) :
    l.foldl (saturatingAdd w) a = min (a + l.sum) (2 ^ w - 1) := by
  induction l generalizing a with
  | nil => exact (min_eq_left (Nat.le_sub_one_of_lt ha)).symm
  | cons x l ih =>
      have hlt : saturatingAdd w a x < 2 ^ w := by
        rw [saturatingAdd]
        omega
      rw [List.foldl_cons, ih hlt, List.sum_cons, saturatingAdd]
      omega

theorem wrappingAdd_of_lt {w a b : Nat} (h : a + b < 2 ^ w) : wrappingAdd w a b = a + b :=
  Nat.mod_eq_of_lt h

theorem foldl_wrappingAdd {w a : Nat} {l : List Nat} (h : a + l.sum < 2 ^ w) :
    l.foldl (wrappingAdd w) a = a + l.sum := by
  induction l generalizing a with
  | nil => rfl
  | cons x l ih =>
      rw [List.sum_cons] at h
      rw [List.foldl_cons, wrappingAdd_of_lt (by omega), ih (by omega), List.sum_cons, Nat.add_assoc]

theorem foldlM_checkedAdd {w a c : Nat} {l : List Nat} (h : l.foldlM (checkedAdd w) a = some c) :
    c = a + l.sum := by
  induction l generalizing a with
  | nil => exact (Option.some.inj h).symm
  | cons x l ih =>
      rw [List.foldlM_cons, Option.bind_eq_bind, Option.bind_eq_some_iff] at h
      obtain ⟨b, hb, hrest⟩ := h
      rw [ih hrest, (checkedAdd_eq_some.mp hb).2, List.sum_cons, Nat.add_assoc]

theorem wrappingMul_of_lt {w a b : Nat} (h : a * b < 2 ^ w) : wrappingMul w a b = a * b :=
  Nat.mod_eq_of_lt h

theorem wrappingSub_of_le {w a b : Nat} (hb : b ≤ a) (ha : a < 2 ^ w) :
    wrappingSub w a b = a - b := by
  have h : a + (2 ^ w - b) = (a - b) + 2 ^ w := by omega
  rw [wrappingSub, h, Nat.add_mod_right, Nat.mod_eq_of_lt (by omega)]

theorem wrappingSub_of_lt {w a b : Nat} (hab : a < b) (hb : b < 2 ^ w) :
    wrappingSub w a b = a + 2 ^ w - b := by
  have h : a + (2 ^ w - b) = a + 2 ^ w - b := by omega
  rw [wrappingSub, h, Nat.mod_eq_of_lt (by omega)]

/-- **The wrapping range test.** `p - base < size`, computed with wrapping subtraction, holds
exactly for the addresses of a range that does not leave the address space. -/
theorem wrappingSub_lt_iff {w p base size : Nat} (hp : p < 2 ^ w) (hend : base + size ≤ 2 ^ w) :
    wrappingSub w p base < size ↔ base ≤ p ∧ p < base + size := by
  by_cases hle : base ≤ p
  · rw [wrappingSub_of_le hle hp]
    omega
  · by_cases hbase : base < 2 ^ w
    · rw [wrappingSub_of_lt (by omega) hbase]
      omega
    · have hzero : size = 0 := by omega
      subst hzero
      simp [hle]

/-! ## Masks and alignment -/

/-- The bitwise complement `!m` of a `w`-bit word. -/
def complement (w m : Nat) : Nat := 2 ^ w - 1 - m

/-- `x & !(a - 1)`: the low bits below the power of two `a` are cleared. -/
def maskDown (w x a : Nat) : Nat := x &&& complement w (a - 1)

/-- The least multiple of `a` that is not below `x`. -/
def alignUp (x a : Nat) : Nat := (x + (a - 1)) / a * a

theorem maskDown_two_pow {w k x : Nat} (hx : x < 2 ^ w) (hk : k ≤ w) :
    maskDown w x (2 ^ k) = x / 2 ^ k * 2 ^ k := by
  have hpow : (2 : Nat) ^ k * 2 ^ (w - k) = 2 ^ w := by rw [← pow_add, Nat.add_sub_cancel' hk]
  have hpos : 0 < (2 : Nat) ^ k := Nat.two_pow_pos k
  have hmask : complement w (2 ^ k - 1) = (2 ^ (w - k) - 1) * 2 ^ k := by
    rw [complement, Nat.sub_mul, one_mul, mul_comm (2 ^ (w - k)), hpow]
    omega
  rw [maskDown, hmask, ← Nat.shiftLeft_eq, ← Nat.shiftLeft_eq, ← Nat.shiftRight_eq_div_pow]
  apply Nat.eq_of_testBit_eq
  intro i
  rw [Nat.testBit_and, Nat.testBit_shiftLeft, Nat.testBit_shiftLeft, Nat.testBit_shiftRight,
    Nat.testBit_two_pow_sub_one]
  by_cases hik : k ≤ i
  · have hki : k + (i - k) = i := by omega
    rw [hki]
    by_cases hiw : i < w
    · have hsub : i - k < w - k := by omega
      simp [hik, hsub]
    · have hbit : x.testBit i = false :=
        Nat.testBit_eq_false_of_lt (hx.trans_le (Nat.pow_le_pow_right (by decide) (by omega)))
      simp [hbit]
  · simp [hik]

theorem maskDown_add_pred {w k x : Nat} (hx : x + (2 ^ k - 1) < 2 ^ w) (hk : k ≤ w) :
    maskDown w (x + (2 ^ k - 1)) (2 ^ k) = alignUp x (2 ^ k) :=
  maskDown_two_pow hx hk

theorem dvd_alignUp (x a : Nat) : a ∣ alignUp x a := Dvd.intro_left _ rfl

theorem le_alignUp {x a : Nat} (ha : 0 < a) : x ≤ alignUp x a := by
  have h := Nat.div_add_mod (x + (a - 1)) a
  have hm := Nat.mod_lt (x + (a - 1)) ha
  rw [mul_comm] at h
  unfold alignUp
  omega

theorem alignUp_lt_add {x a : Nat} (ha : 0 < a) : alignUp x a < x + a := by
  have h := Nat.div_mul_le_self (x + (a - 1)) a
  unfold alignUp
  omega

theorem alignUp_le_of_dvd {x a y : Nat} (ha : 0 < a) (hy : a ∣ y) (hxy : x ≤ y) :
    alignUp x a ≤ y := by
  obtain ⟨c, rfl⟩ := hy
  have hlt : (x + (a - 1)) / a < c + 1 := by
    apply Nat.div_lt_of_lt_mul
    rw [Nat.mul_add, Nat.mul_one]
    omega
  calc alignUp x a = a * ((x + (a - 1)) / a) := mul_comm _ _
    _ ≤ a * c := Nat.mul_le_mul_left _ (by omega)

theorem alignUp_of_dvd {x a : Nat} (ha : 0 < a) (hx : a ∣ x) : alignUp x a = x :=
  le_antisymm (alignUp_le_of_dvd ha hx le_rfl) (le_alignUp ha)

/-- The rounding test of the machine fails only when the rounded address is itself outside the
address space. -/
theorem alignUp_ge_of_overflow {w k x : Nat} (hk : k ≤ w) (h : 2 ^ w ≤ x + (2 ^ k - 1)) :
    2 ^ w ≤ alignUp x (2 ^ k) := by
  have hpos : 0 < (2 : Nat) ^ k := Nat.two_pow_pos k
  have hdvd : (2 : Nat) ^ k ∣ 2 ^ w := pow_dvd_pow 2 hk
  obtain ⟨c, hc⟩ := hdvd
  have hle : c ≤ (x + (2 ^ k - 1)) / 2 ^ k := by
    rw [Nat.le_div_iff_mul_le hpos, mul_comm, ← hc]
    exact h
  calc 2 ^ w = c * 2 ^ k := by rw [hc, mul_comm]
    _ ≤ alignUp x (2 ^ k) := Nat.mul_le_mul_right _ hle

theorem dvd_of_dvd_two_pow {j k : Nat} (h : (2 : Nat) ^ j ≤ 2 ^ k) : (2 : Nat) ^ j ∣ 2 ^ k :=
  pow_dvd_pow 2 ((Nat.pow_le_pow_iff_right (by decide)).mp h)

/-- Of two powers of two the smaller divides the larger. -/
theorem dvd_of_le_of_isPowerOfTwo {a b : Nat} (ha : a.isPowerOfTwo) (hb : b.isPowerOfTwo)
    (h : a ≤ b) : a ∣ b := by
  obtain ⟨j, rfl⟩ := ha
  obtain ⟨k, rfl⟩ := hb
  exact dvd_of_dvd_two_pow h

/-- An array whose start and stride are multiples of `a` keeps its alignment under a displacement
exactly when the displacement is a multiple of `a`. -/
theorem dvd_displaced_iff {a base base' off stride i : Nat} (hoff : a ∣ base + off)
    (hstride : a ∣ stride) : a ∣ base' + off + i * stride ↔ base' ≡ base [MOD a] := by
  rw [Nat.dvd_add_left (hstride.mul_left i)]
  constructor
  · intro hdvd
    have hmod : base' + off ≡ base + off [MOD a] :=
      (Nat.modEq_zero_iff_dvd.mpr hdvd).trans (Nat.modEq_zero_iff_dvd.mpr hoff).symm
    exact Nat.ModEq.add_right_cancel' off hmod
  · intro hmod
    exact Nat.modEq_zero_iff_dvd.mp ((hmod.add_right off).trans (Nat.modEq_zero_iff_dvd.mpr hoff))

/-! ## Trailing zeros -/

/-- The number of zero bits below the lowest set bit, `w` if there is none. -/
def trailingZeros (w x : Nat) : Nat := ((List.range w).find? fun i => x.testBit i).getD w

theorem trailingZeros_two_pow {w k : Nat} (h : k < w) : trailingZeros w (2 ^ k) = k := by
  have hfind : (List.range w).find? (fun i => (2 ^ k).testBit i) = some k := by
    rw [List.find?_range_eq_some]
    refine ⟨Nat.testBit_two_pow_self, List.mem_range.mpr h, fun j hj => ?_⟩
    rw [Nat.testBit_two_pow_of_ne (by omega)]
    rfl
  rw [trailingZeros, hfind]
  rfl

/-- The smallest power of two that is not below `x`. -/
def nextPowerOfTwo (x : Nat) : Nat := 2 ^ Nat.clog 2 x

theorem le_nextPowerOfTwo (x : Nat) : x ≤ nextPowerOfTwo x := Nat.le_pow_clog (by decide) x

/-! ## The bump computation -/

/-- One align-and-bump step in a region `[base, base + cap)` with the cursor at offset `cur`:
the offset of the block and the new cursor. -/
def bump (w base cap cur size align : Nat) : Option (Nat × Nat) := do
  let raw ← checkedAdd w base cur
  let padded ← checkedAdd w raw (align - 1)
  let aligned := maskDown w padded align
  let alignedOff := aligned - base
  let endOff ← checkedAdd w alignedOff size
  if endOff > cap then none else some (alignedOff, endOff)

/-- The step with the two additions in one chain. -/
def chainedBump (w base cap cur size align : Nat) : Option (Nat × Nat) :=
  match (checkedAdd w base cur).bind fun v => checkedAdd w v (align - 1) with
  | none => none
  | some padded =>
      let next := maskDown w padded align
      let alignedOff := next - base
      match checkedAdd w alignedOff size with
      | none => none
      | some endOff => if endOff > cap then none else some (alignedOff, endOff)

/-- The step with the constants of the mask computed beforehand. -/
def hoistedBump (w base cap cur size align : Nat) : Option (Nat × Nat) :=
  let alignMinusOne := align - 1
  let alignMask := complement w alignMinusOne
  match checkedAdd w base cur with
  | none => none
  | some raw =>
      match checkedAdd w raw alignMinusOne with
      | none => none
      | some padded =>
          let alignedOff := (padded &&& alignMask) - base
          match checkedAdd w alignedOff size with
          | none => none
          | some endOff => if endOff > cap then none else some (alignedOff, endOff)

theorem chainedBump_eq (w base cap cur size align : Nat) :
    chainedBump w base cap cur size align = bump w base cap cur size align := by
  unfold chainedBump bump
  cases checkedAdd w base cur with
  | none => rfl
  | some raw =>
      simp only [Option.bind_eq_bind, Option.bind_some]
      cases checkedAdd w raw (align - 1) with
      | none => rfl
      | some padded =>
          simp only [Option.bind_some]
          cases checkedAdd w (maskDown w padded align - base) size with
          | none => rfl
          | some endOff => rfl

theorem hoistedBump_eq (w base cap cur size align : Nat) :
    hoistedBump w base cap cur size align = bump w base cap cur size align := by
  unfold hoistedBump bump maskDown
  cases checkedAdd w base cur with
  | none => rfl
  | some raw =>
      simp only [Option.bind_eq_bind, Option.bind_some]
      cases checkedAdd w raw (align - 1) with
      | none => rfl
      | some padded =>
          simp only [Option.bind_some]
          cases checkedAdd w ((padded &&& complement w (align - 1)) - base) size with
          | none => rfl
          | some endOff => rfl

/-- A request of `size` bytes aligned to `align` fits above the cursor, as exact integers. -/
def Fits (base cap cur size align : Nat) : Prop :=
  alignUp (base + cur) align + size ≤ base + cap

instance (base cap cur size align : Nat) : Decidable (Fits base cap cur size align) :=
  inferInstanceAs (Decidable (_ ≤ _))

theorem bump_spec {w base cap cur size k off fin : Nat} (hk : k ≤ w)
    (h : bump w base cap cur size (2 ^ k) = some (off, fin)) :
    off = alignUp (base + cur) (2 ^ k) - base ∧ fin = off + size ∧ fin ≤ cap := by
  simp only [bump, Option.bind_eq_bind, Option.bind_eq_some_iff, checkedAdd_eq_some] at h
  obtain ⟨raw, ⟨-, rfl⟩, padded, ⟨hpad, rfl⟩, e, ⟨-, rfl⟩, hif⟩ := h
  rw [maskDown_add_pred hpad hk] at hif
  split at hif
  · cases hif
  · simp only [Option.some.injEq, Prod.mk.injEq] at hif
    obtain ⟨rfl, rfl⟩ := hif
    exact ⟨rfl, rfl, by omega⟩

/-- Whatever the alignment is, the new cursor is the end of the block and inside the region. -/
theorem bump_bounds {w base cap cur size align off fin : Nat}
    (h : bump w base cap cur size align = some (off, fin)) : fin = off + size ∧ fin ≤ cap := by
  simp only [bump, Option.bind_eq_bind, Option.bind_eq_some_iff, checkedAdd_eq_some] at h
  obtain ⟨_, -, _, -, _, ⟨-, rfl⟩, hif⟩ := h
  split at hif
  · cases hif
  · cases hif
    exact ⟨rfl, by omega⟩

/-- The address is aligned, whatever the region and the cursor are. -/
theorem dvd_add_of_bump {w base cap cur size k off fin : Nat} (hk : k ≤ w)
    (h : bump w base cap cur size (2 ^ k) = some (off, fin)) : 2 ^ k ∣ base + off := by
  obtain ⟨rfl, -, -⟩ := bump_spec hk h
  have hle : base + cur ≤ alignUp (base + cur) (2 ^ k) := le_alignUp (Nat.two_pow_pos k)
  have hptr : base + (alignUp (base + cur) (2 ^ k) - base) = alignUp (base + cur) (2 ^ k) := by
    omega
  rw [hptr]
  exact dvd_alignUp _ _

/-- The aligned address is not below the region. -/
theorem le_maskDown_add {w base cur k : Nat} (hk : k ≤ w) (h : base + cur + (2 ^ k - 1) < 2 ^ w) :
    base ≤ maskDown w (base + cur + (2 ^ k - 1)) (2 ^ k) := by
  rw [maskDown_add_pred h hk]
  have hle : base + cur ≤ alignUp (base + cur) (2 ^ k) := le_alignUp (Nat.two_pow_pos k)
  omega

/-- **What the bump step computes.** In a region inside the address space the overflow tests
never reject a request that fits. -/
theorem bump_eq_some_iff {w base cap cur size k off fin : Nat} (hk : k ≤ w) (hsize : 0 < size)
    (hend : base + cap ≤ 2 ^ w) (hcap : cap < 2 ^ w) :
    bump w base cap cur size (2 ^ k) = some (off, fin) ↔
      Fits base cap cur size (2 ^ k) ∧ off = alignUp (base + cur) (2 ^ k) - base ∧
        fin = off + size := by
  have hpos : 0 < (2 : Nat) ^ k := Nat.two_pow_pos k
  have hge : base + cur ≤ alignUp (base + cur) (2 ^ k) := le_alignUp hpos
  constructor
  · intro h
    obtain ⟨hoff, hfin, hle⟩ := bump_spec hk h
    refine ⟨?_, hoff, hfin⟩
    unfold Fits
    omega
  · rintro ⟨hfits, rfl, rfl⟩
    unfold Fits at hfits
    have hpad : base + cur + (2 ^ k - 1) < 2 ^ w := by
      by_contra hcon
      have := alignUp_ge_of_overflow hk (Nat.le_of_not_lt hcon)
      omega
    have h1 : checkedAdd w base cur = some (base + cur) :=
      checkedAdd_eq_some.mpr ⟨by omega, rfl⟩
    have h2 : checkedAdd w (base + cur) (2 ^ k - 1) = some (base + cur + (2 ^ k - 1)) :=
      checkedAdd_eq_some.mpr ⟨hpad, rfl⟩
    have h3 : checkedAdd w (alignUp (base + cur) (2 ^ k) - base) size
        = some (alignUp (base + cur) (2 ^ k) - base + size) :=
      checkedAdd_eq_some.mpr ⟨by omega, rfl⟩
    simp only [bump, h1, h2, Option.bind_eq_bind, Option.bind_some, maskDown_add_pred hpad hk, h3]
    rw [if_neg (by omega)]

theorem bump_eq_none_iff {w base cap cur size k : Nat} (hk : k ≤ w) (hsize : 0 < size)
    (hend : base + cap ≤ 2 ^ w) (hcap : cap < 2 ^ w) :
    bump w base cap cur size (2 ^ k) = none ↔ ¬ Fits base cap cur size (2 ^ k) := by
  constructor
  · intro hnone hfits
    have := (bump_eq_some_iff hk hsize hend hcap).mpr ⟨hfits, rfl, rfl⟩
    rw [hnone] at this
    cases this
  · intro hnot
    cases h : bump w base cap cur size (2 ^ k) with
    | none => rfl
    | some r => exact absurd ((bump_eq_some_iff hk hsize hend hcap).mp h).1 hnot

example : bump 8 16 64 5 8 16 = some (16, 24) := by decide

end MachineInt
