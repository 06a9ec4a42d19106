import Mathlib

set_option autoImplicit false

/-! # Linear maps of words and xorshift

A word of `n` bits is a vector over the field of two elements, with exclusive or as its addition. A
map of words that respects exclusive or (`XorLinear`) is determined by its values on the words with
one bit set (`XorLinear.eq_zero`).

Xorshift generators are compositions of `x ^^^ (x <<< k)` and `x ^^^ (x >>> k)`. Twice such a step is
the step for twice the shift, and a shift by the whole word leaves nothing: so each of them is
injective (`xorLeft_injective`, `xorRight_injective`), and zero is the only word they send to zero.

`combination f c x` is the sum of the iterates of `f` at `x` that the coefficients `c` select. If it
is zero for all words and the number of selected iterates is odd, then `f` fixes zero only
(`XorLinear.eq_zero_of_fixed`).
-/

namespace XorShift

variable {n : Nat}

/-! ## Linear maps -/

/-- The map respects exclusive or. -/
def XorLinear (f : BitVec n → BitVec n) : Prop := ∀ x y, f (x ^^^ y) = f x ^^^ f y

variable {f g : BitVec n → BitVec n}

theorem xorLinear_id : XorLinear (fun x : BitVec n => x) := fun _ _ => rfl

theorem xorLinear_zero : XorLinear (fun _ : BitVec n => 0#n) := fun _ _ => (BitVec.xor_self).symm

theorem XorLinear.map_zero (hf : XorLinear f) : f 0#n = 0#n := by
  have hself := hf 0#n 0#n
  rwa [BitVec.xor_self, BitVec.xor_self] at hself

theorem XorLinear.comp (hf : XorLinear f) (hg : XorLinear g) : XorLinear (fun x => f (g x)) := by
  intro x y
  simp only [hg x y, hf (g x) (g y)]

theorem XorLinear.xor (hf : XorLinear f) (hg : XorLinear g) :
    XorLinear (fun x => f x ^^^ g x) := by
  intro x y
  simp only [hf x y, hg x y]
  ac_rfl

/-- **A linear map is determined by the words with one bit set**: one that sends all of these to
zero sends every word there. -/
theorem XorLinear.eq_zero (hf : XorLinear f) (hbits : ∀ i < n, f (BitVec.twoPow n i) = 0#n)
    (x : BitVec n) : f x = 0#n := by
  -- induction on the number of low bits outside of which the word is zero
  have hlow : ∀ k, k ≤ n → ∀ y : BitVec n, (∀ i, k ≤ i → y.getLsbD i = false) → f y = 0#n := by
    intro k
    induction k with
    | zero =>
        intro _ y hy
        have hzero : y = 0#n := by
          apply BitVec.eq_of_getLsbD_eq
          intro i _
          simp [hy i (Nat.zero_le i)]
        rw [hzero, hf.map_zero]
    | succ k ih =>
        intro hk y hy
        by_cases hbit : y.getLsbD k = true
        · have hrest : f (y ^^^ BitVec.twoPow n k) = 0#n := by
            apply ih (by omega)
            intro i hi
            by_cases heq : k = i
            · subst heq
              simp [hbit]
              omega
            · simp [hy i (by omega), heq]
          rw [hf, hbits k (by omega), BitVec.xor_zero] at hrest
          exact hrest
        · apply ih (by omega) y
          intro i hi
          by_cases heq : k = i
          · subst heq
            simpa using hbit
          · exact hy i (by omega)
  exact hlow n le_rfl x fun i hi => BitVec.getLsbD_of_ge x i hi

/-! ## Sums of iterates -/

/-- The sum of the iterates `f^[i] x` for the positions `i` at which `c` is set, by Horner's rule. -/
def combination (f : BitVec n → BitVec n) : List Bool → BitVec n → BitVec n
  | [], _ => 0#n
  | b :: c, x => (if b then x else 0#n) ^^^ f (combination f c x)

theorem XorLinear.combination (hf : XorLinear f) (c : List Bool) :
    XorLinear (combination f c) := by
  induction c with
  | nil => exact xorLinear_zero
  | cons b c ih =>
      have hhead : XorLinear (fun x : BitVec n => if b then x else 0#n) := by
        cases b
        · exact xorLinear_zero
        · exact xorLinear_id
      exact hhead.xor (hf.comp ih)

/-- At a fixed word all iterates are the word itself, and they cancel in pairs. -/
theorem combination_of_fixed (hzero : f 0#n = 0#n) {x : BitVec n} (hfix : f x = x)
    (c : List Bool) : combination f c x = if c.count true % 2 = 1 then x else 0#n := by
  induction c with
  | nil => simp [combination]
  | cons b c ih =>
      have hstep : f (combination f c x) = combination f c x := by
        rw [ih]
        split
        · exact hfix
        · exact hzero
      rw [combination, hstep, ih]
      cases b with
      | false => simp
      | true =>
          simp only [if_true, List.count_cons_self]
          by_cases hodd : c.count true % 2 = 1
          · rw [if_pos hodd, if_neg (by omega), BitVec.xor_self]
          · rw [if_neg hodd, if_pos (by omega), BitVec.xor_zero]

/-- **No word but zero is fixed**, if the sum of an odd number of iterates vanishes. -/
theorem XorLinear.eq_zero_of_fixed (hf : XorLinear f) {c : List Bool} (hodd : c.count true % 2 = 1)
    (hbits : ∀ i < n, XorShift.combination f c (BitVec.twoPow n i) = 0#n) {x : BitVec n}
    (hfix : f x = x) : x = 0#n := by
  have hsum := (hf.combination c).eq_zero hbits x
  rwa [combination_of_fixed hf.map_zero hfix, if_pos hodd] at hsum

/-! ## Shifts -/

def xorLeft (k : Nat) (x : BitVec n) : BitVec n := x ^^^ (x <<< k)

def xorRight (k : Nat) (x : BitVec n) : BitVec n := x ^^^ (x >>> k)

theorem xorLinear_xorLeft (k : Nat) : XorLinear (xorLeft (n := n) k) := by
  intro x y
  simp only [xorLeft, BitVec.shiftLeft_xor_distrib]
  ac_rfl

theorem xorLinear_xorRight (k : Nat) : XorLinear (xorRight (n := n) k) := by
  intro x y
  simp only [xorRight, BitVec.ushiftRight_xor_distrib]
  ac_rfl

/-- The middle terms of a step made twice cancel. -/
theorem xor_cancel_middle (x y z : BitVec n) : (x ^^^ y) ^^^ (y ^^^ z) = x ^^^ z := by
  rw [BitVec.xor_assoc, ← BitVec.xor_assoc y y z, BitVec.xor_self, BitVec.zero_xor]

theorem xorLeft_xorLeft (k : Nat) (x : BitVec n) : xorLeft k (xorLeft k x) = xorLeft (k + k) x := by
  simp only [xorLeft, BitVec.shiftLeft_xor_distrib, xor_cancel_middle, BitVec.shiftLeft_add]

theorem xorRight_xorRight (k : Nat) (x : BitVec n) :
    xorRight k (xorRight k x) = xorRight (k + k) x := by
  simp only [xorRight, BitVec.ushiftRight_xor_distrib, xor_cancel_middle, BitVec.shiftRight_add]

theorem xorLeft_of_le {k : Nat} (hk : n ≤ k) (x : BitVec n) : xorLeft k x = x := by
  rw [xorLeft, BitVec.shiftLeft_eq_zero hk, BitVec.xor_zero]

theorem xorRight_of_le {k : Nat} (hk : n ≤ k) (x : BitVec n) : xorRight k x = x := by
  rw [xorRight, BitVec.ushiftRight_eq_zero hk, BitVec.xor_zero]

/-- A family of maps in which doubling the index is making the step twice, and which does nothing
from some index on, is injective: enough doublings lead to the identity. -/
theorem injective_of_doubling {α : Type*} {F : Nat → α → α} {N : Nat}
    (hdouble : ∀ k x, F k (F k x) = F (k + k) x) (hid : ∀ k, N ≤ k → ∀ x, F k x = x) {k : Nat}
    (hk : 0 < k) : Function.Injective (F k) := by
  -- induction on the distance to the index from which the map is the identity
  induction hd : N - k using Nat.strong_induction_on generalizing k with
  | _ d ih =>
      by_cases hle : N ≤ k
      · intro x y hxy
        rwa [hid k hle, hid k hle] at hxy
      · have htwice := ih (N - (k + k)) (by omega) (by omega) rfl
        intro x y hxy
        apply htwice
        rw [← hdouble, ← hdouble, hxy]

theorem xorLeft_injective {k : Nat} (hk : 0 < k) : Function.Injective (xorLeft (n := n) k) :=
  injective_of_doubling xorLeft_xorLeft (fun _ => xorLeft_of_le) hk

theorem xorRight_injective {k : Nat} (hk : 0 < k) : Function.Injective (xorRight (n := n) k) :=
  injective_of_doubling xorRight_xorRight (fun _ => xorRight_of_le) hk

/-- An injective linear map sends no other word than zero to zero. -/
theorem XorLinear.eq_zero_iff (hf : XorLinear f) (hinj : Function.Injective f) (x : BitVec n) :
    f x = 0#n ↔ x = 0#n := by
  constructor
  · intro hx
    exact hinj (hx.trans hf.map_zero.symm)
  · rintro rfl
    exact hf.map_zero

end XorShift
