import Mathlib

set_option autoImplicit false

/-! # Calls in flight

The calls that threads are in the middle of, each at its place in the code. Only the call matters
and not the thread it belongs to, so the calls in flight are a list whose order has no meaning: a
step picks the call number `i` and puts what is left of it back (`replace`), and a call that returns
is gone. Any number of threads is any length of the list.

What the calls hold together is a `flatMap` or a sum over the list. `flatMap_replace_perm` and
`sum_replace` say how a step changes it.
-/

namespace InFlight

variable {κ α : Type*} {calls : List κ} {i : Nat} {c : κ} {next : Option κ}

/-- The call number `i` has become `next`, or has returned. -/
def replace (calls : List κ) (i : Nat) (next : Option κ) : List κ :=
  next.toList ++ calls.eraseIdx i

theorem perm_cons_eraseIdx (h : calls[i]? = some c) : calls.Perm (c :: calls.eraseIdx i) := by
  induction calls generalizing i with
  | nil => cases h
  | cons a l ih =>
      cases i with
      | zero =>
          cases h
          exact List.Perm.refl _
      | succ i => exact ((ih h).cons a).trans (List.Perm.swap _ _ _)

theorem mem_replace {x : κ} (hx : x ∈ replace calls i next) : next = some x ∨ x ∈ calls := by
  rcases List.mem_append.mp hx with hx | hx
  · exact Or.inl (Option.mem_toList.mp hx)
  · exact Or.inr (List.mem_of_mem_eraseIdx hx)

/-- A call that is not the one that moves is there after the step. -/
theorem mem_or_mem_replace (h : calls[i]? = some c) (next : Option κ) {x : κ} (hx : x ∈ calls) :
    x = c ∨ x ∈ replace calls i next :=
  (List.mem_cons.mp ((perm_cons_eraseIdx h).mem_iff.mp hx)).imp_right (List.mem_append_right _)

theorem mem_replace_self {x : κ} (hnext : next = some x) : x ∈ replace calls i next :=
  List.mem_append_left _ (Option.mem_toList.mpr hnext)

/-- What the calls hold, before and after a step. -/
theorem flatMap_replace_perm (f : κ → List α) (h : calls[i]? = some c) (next : Option κ) :
    (f c ++ (replace calls i next).flatMap f).Perm
      (next.toList.flatMap f ++ calls.flatMap f) := by
  have hold : (calls.flatMap f).Perm (f c ++ (calls.eraseIdx i).flatMap f) :=
    (perm_cons_eraseIdx h).flatMap_right f
  rw [replace, List.flatMap_append, ← List.append_assoc]
  refine (List.perm_append_comm.append_right _).trans ?_
  rw [List.append_assoc]
  exact hold.symm.append_left _

theorem sum_replace (f : κ → Nat) (h : calls[i]? = some c) (next : Option κ) :
    f c + ((replace calls i next).map f).sum = (next.toList.map f).sum + (calls.map f).sum := by
  have hold : (calls.map f).sum = f c + ((calls.eraseIdx i).map f).sum :=
    ((perm_cons_eraseIdx h).map f).sum_eq
  rw [replace, List.map_append, List.sum_append, hold]
  omega

end InFlight
