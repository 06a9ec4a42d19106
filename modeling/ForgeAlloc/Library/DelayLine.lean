import Mathlib

set_option autoImplicit false

/-! # A ring buffer as a delay line

A ring of `E` cells that is written round robin: the write number `n` goes to the cell `n % E`, and
what it finds there is `E` writes old. `ringOf` is the contents of the ring after the writes of a
list, given with the newest first, and `ringOf_apply` says where each of the last `E` is.

The cell must be computed from the number of writes. `ringOf_zero` says what a write finds when it
goes to the cell `0` out of turn, as with a counter that has wrapped around.
-/

namespace DelayLine

variable {α : Type*} {E : Nat}

/-- The cell for the write number `n`. -/
def cell (hE : 0 < E) (n : Nat) : Fin E := ⟨n % E, Nat.mod_lt n hE⟩

/-- The contents of the ring after the writes `xs`, the newest first. -/
def ringOf (hE : 0 < E) : List α → Fin E → Option α
  | [] => fun _ => none
  | x :: xs => Function.update (ringOf hE xs) (cell hE xs.length) (some x)

variable (hE : 0 < E)

@[simp] theorem ringOf_nil : ringOf hE ([] : List α) = fun _ => none := rfl

theorem ringOf_cons (x : α) (xs : List α) :
    ringOf hE (x :: xs) = Function.update (ringOf hE xs) (cell hE xs.length) (some x) := rfl

theorem cell_eq_iff {n m : Nat} : cell hE n = cell hE m ↔ n ≡ m [MOD E] := Fin.mk_eq_mk

/-- Of two writes less than `E` apart the later one goes to another cell. -/
theorem cell_add_ne {n k : Nat} (hpos : 0 < k) (hlt : k < E) : cell hE (n + k) ≠ cell hE n := by
  intro heq
  have hmod : n + k ≡ n + 0 [MOD E] := (cell_eq_iff hE).mp heq
  have hzero : k ≡ 0 [MOD E] := Nat.ModEq.add_left_cancel' n hmod
  have hk : k % E = 0 % E := hzero
  rw [Nat.mod_eq_of_lt hlt, Nat.zero_mod] at hk
  omega

/-- **The last `E` writes are all there.** The one with `k` after it is in the cell of its number. -/
theorem ringOf_apply (xs : List α) {k : Nat} (hk : k < E) :
    ringOf hE xs (cell hE (xs.length + (E - 1 - k))) = xs[k]? := by
  induction xs generalizing k with
  | nil => rfl
  | cons x xs ih =>
      rw [ringOf_cons]
      cases k with
      | zero =>
          have hcell : cell hE ((x :: xs).length + (E - 1 - 0)) = cell hE xs.length := by
            rw [cell_eq_iff]
            have hsum : (x :: xs).length + (E - 1 - 0) = xs.length + E := by
              rw [List.length_cons]
              omega
            rw [hsum]
            exact Nat.add_modEq_right
          rw [hcell, Function.update_self]
          rfl
      | succ k =>
          have hsum : (x :: xs).length + (E - 1 - (k + 1)) = xs.length + (E - 1 - k) := by
            rw [List.length_cons]
            omega
          rw [hsum, Function.update_of_ne (cell_add_ne hE (by omega) (by omega)), ih (by omega)]
          rfl

/-- The next write finds the one that is `E` writes old. -/
theorem ringOf_next (xs : List α) : ringOf hE xs (cell hE xs.length) = xs[E - 1]? := by
  have happly := ringOf_apply hE xs (k := E - 1) (by omega)
  rwa [Nat.sub_self, Nat.add_zero] at happly

/-- A write that goes to the cell `0` out of turn finds one that is `r` writes old, for `r` the
number of writes since the cell `0` was written last. -/
theorem ringOf_zero (xs : List α) {r : Nat} (hr : xs.length % E = r) (hpos : 0 < r) :
    ringOf hE xs (cell hE 0) = xs[r - 1]? := by
  have hlt : r < E := hr ▸ Nat.mod_lt _ hE
  have hcell : cell hE (xs.length + (E - 1 - (r - 1))) = cell hE 0 := by
    rw [cell_eq_iff]
    have hsum : xs.length + (E - 1 - (r - 1)) = xs.length / E * E + 1 * E := by
      have hdiv := Nat.div_add_mod xs.length E
      rw [mul_comm] at hdiv
      omega
    rw [hsum, ← Nat.add_mul]
    exact Nat.modEq_zero_iff_dvd.mpr (Dvd.intro_left _ rfl)
  have happly := ringOf_apply hE xs (k := r - 1) (by omega)
  rwa [hcell] at happly

/-- What leaves the ring at the next write comes before what has left it already. -/
theorem drop_cons (hE : 0 < E) (x : α) (xs : List α) :
    (x :: xs).drop E = xs[E - 1]?.toList ++ xs.drop E := by
  obtain ⟨e, rfl⟩ := Nat.exists_eq_succ_of_ne_zero hE.ne'
  rw [List.drop_succ_cons, Nat.succ_sub_one]
  rcases h : xs[e]? with _ | y
  · rw [List.getElem?_eq_none_iff] at h
    rw [List.drop_eq_nil_of_le h, List.drop_eq_nil_of_le (by omega)]
    rfl
  · obtain ⟨hlt, rfl⟩ := List.getElem?_eq_some_iff.mp h
    exact List.drop_eq_getElem_cons hlt

/-! ## The entries of a ring -/

/-- What the cells hold, from the first cell to the last. -/
def contents (r : Fin E → Option α) : List α := (List.finRange E).filterMap r

theorem perm_filterMap_update {κ : Type*} [DecidableEq κ] (f : κ → Option α) {j : κ} (o : Option α)
    {l : List κ} (hj : j ∈ l) (hl : l.Nodup) :
    ((f j).toList ++ l.filterMap (Function.update f j o)).Perm (o.toList ++ l.filterMap f) := by
  induction l with
  | nil => cases hj
  | cons a l ih =>
      obtain ⟨ha, hl'⟩ := List.nodup_cons.mp hl
      rcases List.mem_cons.mp hj with rfl | hjl
      · have hrest : l.filterMap (Function.update f j o) = l.filterMap f :=
          List.filterMap_congr fun x hx => by
            have hne : x ≠ j := by
              rintro rfl
              exact ha hx
            rw [Function.update_of_ne hne]
        rw [List.filterMap_cons, List.filterMap_cons, hrest, Function.update_self]
        rcases f j with _ | x <;> rcases o with _ | y
        · exact List.Perm.refl _
        · exact List.Perm.refl _
        · exact List.Perm.refl _
        · exact List.Perm.swap _ _ _
      · have hne : a ≠ j := fun h => ha (h ▸ hjl)
        rw [List.filterMap_cons, List.filterMap_cons, Function.update_of_ne hne]
        rcases f a with _ | x
        · exact ih hjl hl'
        · exact (List.perm_middle.trans ((ih hjl hl').cons x)).trans List.perm_middle.symm

/-- A write into a cell takes out what was there and puts in what is written. -/
theorem contents_update (r : Fin E → Option α) (j : Fin E) (o : Option α) :
    ((r j).toList ++ contents (Function.update r j o)).Perm (o.toList ++ contents r) :=
  perm_filterMap_update r o (List.mem_finRange j) (List.nodup_finRange E)

theorem contents_map {β : Type*} (f : α → β) (r : Fin E → Option α) :
    contents (fun j => (r j).map f) = (contents r).map f := by
  rw [contents, contents, List.map_filterMap]

theorem contents_none : contents (fun _ : Fin E => (none : Option α)) = [] := by
  rw [contents, List.filterMap_eq_nil_iff]
  exact fun _ _ => rfl

/-- The ring holds the last `E` writes and nothing else. -/
theorem contents_ringOf (xs : List α) : (contents (ringOf hE xs)).Perm (xs.take E) := by
  induction xs with
  | nil => rw [ringOf_nil, contents_none, List.take_nil]
  | cons x xs ih =>
      have hwrite := contents_update (ringOf hE xs) (cell hE xs.length) (some x)
      rw [ringOf_next, ← ringOf_cons] at hwrite
      obtain ⟨e, rfl⟩ := Nat.exists_eq_succ_of_ne_zero hE.ne'
      rw [List.take_succ_cons]
      rw [Nat.succ_sub_one] at hwrite
      -- the entry that is overwritten is the oldest of the last `E`
      have htake : xs.take (e + 1) = xs.take e ++ xs[e]?.toList := List.take_add_one
      refine (List.perm_append_left_iff xs[e]?.toList).mp (hwrite.trans ?_)
      have hnew : (x :: contents (ringOf hE xs)).Perm ((x :: xs.take e) ++ xs[e]?.toList) := by
        rw [List.cons_append, ← htake]
        exact ih.cons x
      exact hnew.trans List.perm_append_comm

end DelayLine
