import Mathlib

set_option autoImplicit false

/-! # Stacks of regions under a bump cursor

A bump cursor carves regions one above the other, each at some distance above the cursor, which
then moves to the end of the region. A stack allocator remembers for every region the value of
the cursor before it was carved, so that the top region can be given back with its padding.

`Stacked rs cursor` says that the regions `rs`, the top first, lead from offset zero to the
cursor. Everything else follows from it: the regions lie one above the other
(`Stacked.pairwise`), below the cursor (`Stacked.stop_le`), and giving back the regions from the
top brings the cursor through all its earlier values (`Stacked.of_append`) to zero.
-/

namespace RegionStack

/-- A carved region, as offsets, and the cursor it was carved at. -/
structure Region where
  before : Nat
  start : Nat
  stop : Nat
  deriving DecidableEq

def Stacked : List Region → Nat → Prop
  | [], cursor => cursor = 0
  | r :: rs, cursor => r.stop = cursor ∧ r.before ≤ r.start ∧ r.start < r.stop ∧ Stacked rs r.before

@[simp] theorem stacked_nil {cursor : Nat} : Stacked [] cursor ↔ cursor = 0 := Iff.rfl

theorem stacked_cons {r : Region} {rs : List Region} {cursor : Nat} :
    Stacked (r :: rs) cursor ↔
      r.stop = cursor ∧ r.before ≤ r.start ∧ r.start < r.stop ∧ Stacked rs r.before := Iff.rfl

/-- The cursor once the regions `xs` have been given back from the top. -/
def cursorBelow (xs : List Region) (cursor : Nat) : Nat := (xs.getLast?.map Region.before).getD cursor

@[simp] theorem cursorBelow_nil (cursor : Nat) : cursorBelow [] cursor = cursor := rfl

theorem cursorBelow_cons (r : Region) (xs : List Region) (cursor : Nat) :
    cursorBelow (r :: xs) cursor = cursorBelow xs r.before := by
  cases xs with
  | nil => rfl
  | cons x xs => simp [cursorBelow, List.getLast?_cons]

variable {r r' : Region} {rs xs ys : List Region} {cursor : Nat}

theorem Stacked.stop_le (h : Stacked rs cursor) (hr : r ∈ rs) : r.stop ≤ cursor := by
  induction rs generalizing cursor with
  | nil => cases hr
  | cons top rs ih =>
      rw [stacked_cons] at h
      rcases List.mem_cons.mp hr with rfl | hmem
      · exact h.1.le
      · have hle : r.stop ≤ top.before := ih h.2.2.2 hmem
        omega

/-- Every region ends where the ones above it have not started yet. -/
theorem Stacked.pairwise (h : Stacked rs cursor) :
    rs.Pairwise fun above below => below.stop ≤ above.start := by
  induction rs generalizing cursor with
  | nil => exact List.Pairwise.nil
  | cons top rs ih =>
      rw [stacked_cons] at h
      refine List.pairwise_cons.mpr ⟨fun below hmem => ?_, ih h.2.2.2⟩
      have hle : below.stop ≤ top.before := h.2.2.2.stop_le hmem
      omega

/-- The regions determine the cursor above them. -/
theorem Stacked.cursor_unique {cursor' : Nat} (h : Stacked rs cursor) (h' : Stacked rs cursor') :
    cursor = cursor' := by
  cases rs with
  | nil => exact h.trans h'.symm
  | cons top rs => exact h.1.symm.trans h'.1

/-- Below the regions `xs` lies the stack `ys`, under the cursor `xs` was carved from. -/
theorem Stacked.of_append (h : Stacked (xs ++ ys) cursor) : Stacked ys (cursorBelow xs cursor) := by
  induction xs generalizing cursor with
  | nil => exact h
  | cons top xs ih =>
      rw [cursorBelow_cons]
      rw [List.cons_append, stacked_cons] at h
      exact ih h.2.2.2

/-- A new region on top. -/
theorem Stacked.push (h : Stacked rs cursor) (hbefore : r.before = cursor)
    (hle : cursor ≤ r.start) (hlt : r.start < r.stop) : Stacked (r :: rs) r.stop := by
  subst hbefore
  exact stacked_cons.mpr ⟨rfl, hle, hlt, h⟩

end RegionStack
