import Mathlib

set_option autoImplicit false

/-! # Lists threaded through links

`Chain next head l`: starting at `head` and following `next`, one visits exactly the elements
of `l`, in order, and then stops. The list is determined by the links (`Chain.unique`), and it
has no repetition (`Chain.nodup`): a link structure with a chain is acyclic.

Intrusive lists often store a link as a number, `0` for the end and `i + 1` for the element `i`;
`ofLink` and `toLink` convert.
-/

namespace Linked

variable {α : Type*} {next next' : α → Option α} {head : Option α} {a : α} {l l' : List α}

def Chain (next : α → Option α) : Option α → List α → Prop
  | head, [] => head = none
  | head, a :: l => head = some a ∧ Chain next (next a) l

@[simp] theorem chain_nil : Chain next head [] ↔ head = none := Iff.rfl

@[simp] theorem chain_cons :
    Chain next head (a :: l) ↔ head = some a ∧ Chain next (next a) l := Iff.rfl

theorem chain_none : Chain next none l ↔ l = [] := by
  cases l <;> simp

theorem Chain.exists_cons (h : Chain next (some a) l) :
    ∃ t, l = a :: t ∧ Chain next (next a) t := by
  cases l with
  | nil => cases h
  | cons b t =>
      obtain ⟨hb, ht⟩ := h
      cases hb
      exact ⟨t, rfl, ht⟩

/-- A chain depends only on the links of its own elements. -/
theorem Chain.congr (hlink : ∀ b ∈ l, next' b = next b) (h : Chain next head l) :
    Chain next' head l := by
  induction l generalizing head with
  | nil => exact h
  | cons b t ih =>
      refine ⟨h.1, ?_⟩
      rw [hlink b List.mem_cons_self]
      exact ih (fun c hc => hlink c (List.mem_cons_of_mem b hc)) h.2

theorem Chain.push (ha : next' a = head) (hlink : ∀ b ∈ l, next' b = next b)
    (h : Chain next head l) : Chain next' (some a) (a :: l) := by
  refine ⟨rfl, ?_⟩
  rw [ha]
  exact h.congr hlink

theorem Chain.unique (h : Chain next head l) (h' : Chain next head l') : l = l' := by
  induction l generalizing head l' with
  | nil =>
      rw [chain_nil] at h
      subst h
      exact (chain_none.mp h').symm
  | cons b t ih =>
      obtain ⟨rfl, ht⟩ := h
      obtain ⟨t', rfl, ht'⟩ := h'.exists_cons
      rw [ih ht ht']

theorem Chain.suffix : ∀ {s : List α} {head : Option α},
    Chain next head (s ++ a :: l) → Chain next (some a) (a :: l)
  | [], _, h => ⟨rfl, h.2⟩
  | _ :: _, _, h => Chain.suffix h.2

/-- **A chain is acyclic**: no element is visited twice. -/
theorem Chain.nodup (h : Chain next head l) : l.Nodup := by
  induction l generalizing head with
  | nil => exact List.nodup_nil
  | cons b t ih =>
      rw [List.nodup_cons]
      refine ⟨fun hmem => ?_, ih h.2⟩
      obtain ⟨s, u, rfl⟩ := List.append_of_mem hmem
      -- the tail from the second visit of `b` and the list from the first are the same chain
      have hsnd : Chain next (some b) (b :: u) := Chain.suffix h.2
      have hfst : Chain next (some b) (b :: (s ++ b :: u)) := ⟨rfl, h.2⟩
      have hlen := congrArg List.length (hfst.unique hsnd)
      simp at hlen
      omega

/-! ## Links as numbers -/

/-- The element a stored link names: `0` ends the list, `i + 1` names `i`. -/
def ofLink : Nat → Option Nat
  | 0 => none
  | i + 1 => some i

/-- The stored link of a list head. -/
def toLink : Option Nat → Nat
  | none => 0
  | some i => i + 1

@[simp] theorem ofLink_zero : ofLink 0 = none := rfl

@[simp] theorem ofLink_succ (i : Nat) : ofLink (i + 1) = some i := rfl

@[simp] theorem ofLink_toLink (o : Option Nat) : ofLink (toLink o) = o := by
  cases o <;> rfl

@[simp] theorem toLink_ofLink (n : Nat) : toLink (ofLink n) = n := by
  cases n <;> rfl

theorem ofLink_eq_none {n : Nat} : ofLink n = none ↔ n = 0 := by
  cases n <;> simp

theorem ofLink_eq_some {n i : Nat} : ofLink n = some i ↔ n = i + 1 := by
  cases n <;> simp

/-- The head of a chain of links is its first element. -/
theorem Chain.toLink_head {next : Nat → Option Nat} {n : Nat} {l : List Nat}
    (h : Chain next (ofLink n) l) : n = toLink l.head? := by
  cases l with
  | nil => exact ofLink_eq_none.mp h
  | cons i t => exact ofLink_eq_some.mp h.1

end Linked
