import ForgeAlloc.Core.Tracked

set_option autoImplicit false

/-! # Fuzz targets

A target keeps the blocks it was given in a vector, and frees one at an index that the input picks.
What it holds is what is out of the allocator (`Held`), whatever the input is.

A target panics where an assertion fails, where an index is out of bounds, where an `unwrap` finds
nothing, and where a call of the allocator panics.
-/

namespace ForgeAlloc

/-! ## The vector -/

/-- `Vec::swap_remove`: the last element takes the place of the one that goes. An index out of bounds
is a panic. -/
def swapRemove {α : Type} (xs : List α) (i : Nat) : Option (α × List α) :=
  xs[i]?.map fun x => (x, (xs.set i (xs.getLastD x)).dropLast)

section

variable {α : Type} {xs : List α} {i : Nat}

theorem exists_swapRemove (hi : i < xs.length) :
    ∃ x ys, swapRemove xs i = some (x, ys) ∧ xs.Perm (x :: ys) := by
  rw [swapRemove, List.getElem?_eq_getElem hi]
  refine ⟨xs[i], _, rfl, ?_⟩
  obtain rfl | ⟨init, last, rfl⟩ := List.eq_nil_or_concat' xs
  · exact absurd hi (Nat.not_lt_zero i)
  · rw [List.length_append, List.length_singleton] at hi
    rw [List.getLastD_concat]
    rcases Nat.lt_or_ge i init.length with hlt | hge
    · have hswap : (init.set i last).Perm (last :: init.eraseIdx i) :=
        List.set_perm_cons_eraseIdx hlt last
      have hback : (init[i] :: init.eraseIdx i).Perm init := List.getElem_cons_eraseIdx_perm hlt
      rw [List.getElem_append_left hlt, List.set_append_left _ _ hlt, List.dropLast_concat]
      calc List.Perm (init ++ [last]) (last :: init) := List.perm_append_singleton last init
        List.Perm _ (last :: init[i] :: init.eraseIdx i) := hback.symm.cons last
        List.Perm _ (init[i] :: last :: init.eraseIdx i) := List.Perm.swap _ _ _
        List.Perm _ (init[i] :: init.set i last) := hswap.symm.cons _
    · obtain rfl : i = init.length := by omega
      simp

end

/-! ## Panics -/

inductive FuzzFailure
  | assertion (message : String)
  | overflow
  | swapRemove (index len : Nat)
  | unwrap
  /-- A call of the allocator has panicked. -/
  | call (message : String)
  deriving DecidableEq

theorem foldlM_ok {ε α σ : Type} {step : σ → α → Except ε σ} {P : σ → Prop}
    (hstep : ∀ s x, P s → ∃ s', step s x = .ok s' ∧ P s') {s : σ} (hs : P s) (xs : List α) :
    ∃ s', xs.foldlM step s = .ok s' ∧ P s' := by
  induction xs generalizing s with
  | nil => exact ⟨s, rfl, hs⟩
  | cons x xs ih =>
      obtain ⟨t, ht, hPt⟩ := hstep s x hs
      obtain ⟨s', hs', hP⟩ := ih hPt
      refine ⟨s', ?_, hP⟩
      rw [List.foldlM_cons, ht]
      exact hs'

namespace Fuzz

variable {w : Nat}

/-- `assert!`. -/
def check (p : Prop) [Decidable p] (message : String) : Except FuzzFailure Unit :=
  if p then .ok () else .error (.assertion message)

theorem check_of {p : Prop} [Decidable p] (hp : p) (message : String) :
    check p message = .ok () := if_pos hp

theorem forM_check {α : Type} {p : α → Prop} [DecidablePred p] {xs : List α}
    (hp : ∀ x ∈ xs, p x) (message : String) :
    (xs.forM fun x => check (p x) message) = Except.ok () := by
  induction xs with
  | nil => rfl
  | cons x xs ih =>
      obtain ⟨hx, hxs⟩ := List.forall_mem_cons.mp hp
      show (check (p x) message >>= fun _ => xs.forM fun x => check (p x) message) = Except.ok ()
      rw [check_of hx]
      exact ih hxs

/-! ## The blocks of a target -/

/-- What the target holds of the blocks it was given. -/
structure Run (σ α : Type) where
  heap : Heap σ
  live : List α

section

variable {σ α : Type}

/-- The block at the index `idx % live.len()` is freed; `ticket` says what is handed back. -/
def freeAt (free : Ticket w → Heap σ → Except FuzzFailure (Heap σ)) (ticket : α → Ticket w)
    (idx : Nat) (s : Run σ α) : Except FuzzFailure (Run σ α) :=
  if s.live.isEmpty then .ok s
  else
    let idx := idx % s.live.length
    match swapRemove s.live idx with
    | none => .error (.swapRemove idx s.live.length)
    | some (x, live) => do
        let h ← free (ticket x) s.heap
        .ok ⟨h, live⟩

/-- What the target holds is out. -/
def Held (Inv : Heap σ → Set (Grant w) → Prop) (ticket : α → Ticket w) (s : Run σ α) : Prop :=
  Tracked Inv ∅ (s.live.map ticket) s.heap

variable {A : Allocator w σ} {Inv : Heap σ → Set (Grant w) → Prop} {ticket : α → Ticket w}
  {s : Run σ α}

/-- A free of what the target holds, where such frees do not panic. -/
theorem freeAt_ok (hA : HonoursCore A Inv) {free : Ticket w → Heap σ → Except FuzzFailure (Heap σ)}
    (hfree : ∀ {t ts h}, Tracked Inv ∅ (t :: ts) h → free t h = .ok (A.deallocate t.1 t.2 h))
    (hs : Held Inv ticket s) (idx : Nat) :
    ∃ s', freeAt free ticket idx s = .ok s' ∧ Held Inv ticket s' := by
  unfold freeAt
  split
  case isTrue => exact ⟨s, rfl, hs⟩
  case isFalse hlive =>
      have hpos : 0 < s.live.length :=
        List.length_pos_iff.mpr fun hnil => hlive (List.isEmpty_iff.mpr hnil)
      obtain ⟨x, live, hremove, hperm⟩ := exists_swapRemove (Nat.mod_lt idx hpos)
      have htracked : Tracked Inv ∅ (ticket x :: live.map ticket) s.heap :=
        hs.perm (hperm.symm.map ticket)
      simp only [hremove, hfree htracked]
      exact ⟨_, rfl, htracked.deallocate hA⟩

end

end Fuzz

end ForgeAlloc
