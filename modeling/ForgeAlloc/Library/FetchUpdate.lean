import ForgeAlloc.Library.Run

set_option autoImplicit false

/-! # `fetch_update` on an atomic cell

Any number of threads change one cell by a partial function `f`, each in a loop: load the value, stop
with it if `f` has none for it, and else put the new one in the cell with a compare-exchange, or go
on with the value that the compare-exchange has found. The accesses are relaxed and the
compare-exchange is a weak one, so a load and a compare-exchange that fails may return any value the
cell has had.

Whatever the threads do, the cell has gone through the values of `f` one after the other
(`Inv.chain`), one for each call that has updated it. A call stops only at the newest of them
(`Inv.stopped_newest`), since nothing came after it.
-/

namespace FetchUpdate

variable {α τ : Type*}

structure Cell (α τ : Type*) where
  /-- The values of the cell, newest first. -/
  history : List α
  /-- The value that a thread in the loop works with. -/
  loops : τ → Option α
  /-- The number of calls that have updated the cell. -/
  updated : Nat
  /-- The values at which calls have stopped. -/
  stopped : List α

inductive Access (α τ : Type*)
  /-- The first load, which returns `v`. -/
  | load (t : τ) (v : α)
  /-- The loop body, with a compare-exchange that succeeds, or fails and returns a value. -/
  | attempt (t : τ) (failure : Option α)

def Cell.init (v : α) : Cell α τ := ⟨[v], fun _ => none, 0, []⟩

/-- The current value. -/
def Cell.value (c : Cell α τ) : Option α := c.history.head?

/-- The value after `k` updates, if there is one. -/
def iterate (f : α → Option α) (k : Nat) (v : α) : Option α := (fun o => o.bind f)^[k] (some v)

def step [DecidableEq α] [DecidableEq τ] (f : α → Option α) (c : Cell α τ) :
    Access α τ → Option (Cell α τ)
  | .load t v =>
      match c.loops t with
      | some _ => none
      | none =>
          if v ∈ c.history then some { c with loops := Function.update c.loops t (some v) } else none
  | .attempt t failure =>
      match c.loops t with
      | none => none
      | some v =>
          match f v with
          | none =>
              some { c with loops := Function.update c.loops t none, stopped := v :: c.stopped }
          | some v' =>
              match failure with
              | none =>
                  if c.value = some v then
                    some { c with
                      history := v' :: c.history
                      loops := Function.update c.loops t none
                      updated := c.updated + 1 }
                  else none
              | some u =>
                  if u ∈ c.history then
                    some { c with loops := Function.update c.loops t (some u) }
                  else none

/-! ## The invariant -/

structure Inv (f : α → Option α) (start : α) (c : Cell α τ) : Prop where
  /-- Each value is what `f` makes of the one before it. -/
  chain : c.history.IsChain fun newer older => f older = some newer
  first : c.history.getLast? = some start
  length_eq : c.history.length = c.updated + 1
  loops_mem : ∀ t v, c.loops t = some v → v ∈ c.history
  stopped_mem : ∀ v ∈ c.stopped, v ∈ c.history ∧ f v = none

variable {f : α → Option α} {start v : α} {c c' : Cell α τ} {t : τ}

theorem inv_init : Inv f start (Cell.init start : Cell α τ) where
  chain := List.isChain_singleton start
  first := rfl
  length_eq := rfl
  loops_mem := fun t v h => by cases h
  stopped_mem := List.forall_mem_nil _

theorem Inv.loops_update [DecidableEq τ] (hi : Inv f start c) {o : Option α}
    (ho : ∀ v, o = some v → v ∈ c.history) : ∀ u v, Function.update c.loops t o u = some v → v ∈ c.history := by
  intro u v hv
  rw [Function.update_apply] at hv
  split at hv
  · exact ho v hv
  · exact hi.loops_mem u v hv

theorem inv_step [DecidableEq α] [DecidableEq τ] (hi : Inv f start c) {a : Access α τ}
    (h : step f c a = some c') :
    Inv f start c' := by
  cases a with
  | load t v =>
      simp only [step] at h
      split at h
      · cases h
      · split at h
        · cases h
          rename_i hv
          exact { hi with loops_mem := hi.loops_update (by rintro u ⟨⟩; exact hv) }
        · cases h
  | attempt t failure =>
      simp only [step] at h
      split at h
      · cases h
      · rename_i v hv
        have hmem := hi.loops_mem t v hv
        split at h
        · -- the loop stops
          rename_i hf
          cases h
          exact { hi with
            loops_mem := hi.loops_update (by rintro u ⟨⟩)
            stopped_mem := List.forall_mem_cons.mpr ⟨⟨hmem, hf⟩, hi.stopped_mem⟩ }
        · rename_i v' hf
          split at h
          · split at h
            · -- the update
              rename_i hhead
              cases h
              obtain ⟨rest, hrest⟩ := List.head?_eq_some_iff.mp hhead
              refine ⟨?_, ?_, ?_, ?_, ?_⟩
              · have hchain := hi.chain
                rw [hrest] at hchain ⊢
                exact List.isChain_cons_cons.mpr ⟨hf, hchain⟩
              · have hfirst := hi.first
                rw [hrest] at hfirst ⊢
                rw [List.getLast?_cons_cons]
                exact hfirst
              · rw [List.length_cons, hi.length_eq]
              · intro u w hw
                refine List.mem_cons_of_mem _ (hi.loops_update (t := t) (o := none) ?_ u w hw)
                rintro x ⟨⟩
              · intro w hw
                exact ⟨List.mem_cons_of_mem _ (hi.stopped_mem w hw).1, (hi.stopped_mem w hw).2⟩
            · cases h
          · split at h
            · rename_i hu
              cases h
              exact { hi with loops_mem := hi.loops_update (by rintro w ⟨⟩; exact hu) }
            · cases h

theorem inv_run [DecidableEq α] [DecidableEq τ] {es : List (Access α τ)}
    (h : Machine.run (step f) (Cell.init start) es = some c) : Inv f start c :=
  Machine.run_invariant (fun _ _ _ hi hstep => inv_step hi hstep) inv_init h

/-! ## What the calls come to -/

theorem iterate_succ (f : α → Option α) (k : Nat) (v : α) :
    iterate f (k + 1) v = (iterate f k v).bind f :=
  Function.iterate_succ_apply' _ _ _

/-- A chain goes through the iterates. -/
theorem head?_of_isChain : ∀ {l : List α},
    (l.IsChain fun newer older => f older = some newer) → l.getLast? = some start →
      l.head? = iterate f (l.length - 1) start := by
  intro l
  induction l with
  | nil => intro _ h; cases h
  | cons newer l ih =>
      intro hchain hlast
      cases l with
      | nil => exact hlast
      | cons older l =>
          rw [List.getLast?_cons_cons] at hlast
          obtain ⟨hf, hrest⟩ := List.isChain_cons_cons.mp hchain
          have hhead : some older = iterate f l.length start := ih hrest hlast
          show some newer = iterate f (l.length + 1) start
          rw [iterate_succ, ← hhead]
          exact hf.symm

/-- **No update is lost**: the value is the first one updated once for each call that did. -/
theorem Inv.value_eq (hi : Inv f start c) : c.value = iterate f c.updated start := by
  have h := head?_of_isChain hi.chain hi.first
  rwa [hi.length_eq, Nat.add_sub_cancel] at h

/-- **A call stops only at the newest value.** -/
theorem Inv.stopped_newest (hi : Inv f start c) (hv : v ∈ c.stopped) : c.value = some v := by
  obtain ⟨hmem, hf⟩ := hi.stopped_mem v hv
  obtain ⟨newer, older, heq⟩ := List.append_of_mem hmem
  have hchain := hi.chain
  rw [Cell.value, heq]
  rw [heq] at hchain
  cases newer using List.reverseRecOn with
  | nil => rfl
  | append_singleton rest u =>
      -- `u` would be the value of `f` at `v`
      rw [List.append_assoc, List.singleton_append] at hchain
      have hlink := (List.isChain_append.mp hchain).2.1
      have hsome := (List.isChain_cons_cons.mp hlink).1
      rw [hf] at hsome
      cases hsome

/-- A call that no other thread interrupts. -/
theorem run_alone [DecidableEq α] [DecidableEq τ] (hv : c.value = some v) (ht : c.loops t = none) :
    ∃ c', Machine.run (step f) c [.load t v, .attempt t none] = some c' ∧ c'.loops = c.loops ∧
      match f v with
      | none => c'.history = c.history ∧ c'.stopped = v :: c.stopped
      | some v' => c'.value = some v' ∧ c'.stopped = c.stopped := by
  have hmem : v ∈ c.history := List.mem_of_head? hv
  have hback : Function.update (Function.update c.loops t (some v)) t none = c.loops := by
    rw [Function.update_idem, ← ht, Function.update_eq_self]
  cases hf : f v with
  | none =>
      refine ⟨{ c with stopped := v :: c.stopped }, ?_, rfl, rfl, rfl⟩
      simp [step, ht, hmem, hf, hback]
  | some v' =>
      refine ⟨{ c with history := v' :: c.history, updated := c.updated + 1 }, ?_, rfl, rfl, rfl⟩
      simp [step, ht, hmem, hf, hback, show c.history.head? = some v from hv, Cell.value]

end FetchUpdate
