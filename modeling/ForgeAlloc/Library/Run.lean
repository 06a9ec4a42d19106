import Mathlib

set_option autoImplicit false

/-! # Runs of a labelled machine

A machine is a partial step function `step : σ → ε → Option σ`: the label carries everything
the environment chooses (which operation, which thread, which oracle answer), and `none` means
that the label is not enabled. A run is a list of labels.

* `run_invariant`: what every step preserves holds after every run.
* `run_induction`: the same for a property that looks back at the labels so far.
* `run_exists_step`: a run that leaves a set of states leaves it at one of its steps.
* `StepsSatisfy`: every step of a run meets a condition on the state it starts from and on its
  label. `run_invariant_of_stepsSatisfy` is the rule for invariants that only such steps
  preserve.
* `visited`: the states that a run goes through.
* `run_simulation`: a machine whose steps are matched by those of another one is matched by it in
  every run.
-/

namespace Machine

variable {σ ε : Type*} {step : σ → ε → Option σ}

/-- The state after the labels of a run, `none` if one of them is not enabled. -/
def run (step : σ → ε → Option σ) (s : σ) (es : List ε) : Option σ := es.foldlM step s

@[simp] theorem run_nil (s : σ) : run step s [] = some s := rfl

@[simp] theorem run_cons (s : σ) (e : ε) (es : List ε) :
    run step s (e :: es) = (step s e).bind fun s' => run step s' es := rfl

theorem run_append (s : σ) (es es' : List ε) :
    run step s (es ++ es') = (run step s es).bind fun s' => run step s' es' := by
  simp only [run, List.foldlM_append]
  rfl

theorem run_concat {s t u : σ} {es : List ε} {e : ε} (h : run step s es = some t)
    (he : step t e = some u) : run step s (es ++ [e]) = some u := by
  rw [run_append, h]
  simp [he]

theorem run_invariant {P : σ → Prop} (hstep : ∀ s e s', P s → step s e = some s' → P s') :
    ∀ {es : List ε} {s s' : σ}, P s → run step s es = some s' → P s' := by
  intro es
  induction es with
  | nil =>
      intro s s' hs h
      rw [run_nil, Option.some.injEq] at h
      exact h ▸ hs
  | cons e es ih =>
      intro s s' hs h
      rw [run_cons, Option.bind_eq_some_iff] at h
      obtain ⟨t, ht, hrest⟩ := h
      exact ih (hstep s e t hs ht) hrest

/-- Induction on the length of a run, for a property of the labels so far and the state. -/
theorem run_induction {s₀ : σ} {P : List ε → σ → Prop} (hnil : P [] s₀)
    (hstep : ∀ es s e s', run step s₀ es = some s → P es s → step s e = some s' →
      P (es ++ [e]) s') {es : List ε} {s : σ} (h : run step s₀ es = some s) : P es s := by
  induction es using List.reverseRecOn generalizing s with
  | nil =>
      rw [run_nil, Option.some.injEq] at h
      exact h ▸ hnil
  | append_singleton es e ih =>
      rw [run_append, Option.bind_eq_some_iff] at h
      obtain ⟨t, ht, hlast⟩ := h
      rw [run_cons, Option.bind_eq_some_iff] at hlast
      obtain ⟨u, hu, hrest⟩ := hlast
      rw [run_nil, Option.some.injEq] at hrest
      exact hstep es t e s ht (ih ht) (hrest ▸ hu)

/-- A run that leaves `P` leaves it at a step. -/
theorem run_exists_step {P : σ → Prop} :
    ∀ {es : List ε} {s s' : σ}, P s → run step s es = some s' → ¬ P s' →
      ∃ es₁ e es₂ t t', es = es₁ ++ e :: es₂ ∧ run step s es₁ = some t ∧ step t e = some t' ∧
        P t ∧ ¬ P t' := by
  intro es
  induction es with
  | nil =>
      intro s s' hs h hs'
      rw [run_nil, Option.some.injEq] at h
      exact absurd (h ▸ hs) hs'
  | cons e es ih =>
      intro s s' hs h hs'
      rw [run_cons, Option.bind_eq_some_iff] at h
      obtain ⟨t, ht, hrest⟩ := h
      by_cases hP : P t
      · obtain ⟨es₁, e', es₂, u, u', rfl, hrun, hstep, hu, hu'⟩ := ih hP hrest hs'
        exact ⟨e :: es₁, e', es₂, u, u', rfl, by rw [run_cons, ht]; exact hrun, hstep, hu, hu'⟩
      · exact ⟨[], e, es, s, t, rfl, rfl, ht, hs, hP⟩

/-- Every step of the run meets the condition `Q`. -/
def StepsSatisfy (step : σ → ε → Option σ) (Q : σ → ε → Prop) : σ → List ε → Prop
  | _, [] => True
  | s, e :: es => Q s e ∧ ∀ s', step s e = some s' → StepsSatisfy step Q s' es

instance decidableStepsSatisfy (Q : σ → ε → Prop) [∀ s e, Decidable (Q s e)] :
    ∀ (s : σ) (es : List ε), Decidable (StepsSatisfy step Q s es)
  | _, [] => isTrue trivial
  | s, e :: es =>
      match h : step s e with
      | none => decidable_of_iff (Q s e) ⟨fun hQ => ⟨hQ, fun _ h' => by simp [h] at h'⟩, And.left⟩
      | some s' =>
          have := decidableStepsSatisfy Q s' es
          decidable_of_iff (Q s e ∧ StepsSatisfy step Q s' es)
            ⟨fun hQ => ⟨hQ.1, fun t h' => by
              rw [h, Option.some.injEq] at h'
              exact h' ▸ hQ.2⟩, fun hQ => ⟨hQ.1, hQ.2 s' h⟩⟩

theorem run_invariant_of_stepsSatisfy {P : σ → Prop} {Q : σ → ε → Prop}
    (hstep : ∀ s e s', P s → Q s e → step s e = some s' → P s') :
    ∀ {es : List ε} {s s' : σ}, P s → StepsSatisfy step Q s es → run step s es = some s' →
      P s' := by
  intro es
  induction es with
  | nil =>
      intro s s' hs _ h
      rw [run_nil, Option.some.injEq] at h
      exact h ▸ hs
  | cons e es ih =>
      intro s s' hs hQ h
      rw [run_cons, Option.bind_eq_some_iff] at h
      obtain ⟨t, ht, hrest⟩ := h
      exact ih (hstep s e t hs hQ.1 ht) (hQ.2 t ht) hrest

theorem stepsSatisfy_concat {Q : σ → ε → Prop} {e : ε} :
    ∀ {es : List ε} {s t : σ}, run step s es = some t →
      (StepsSatisfy step Q s (es ++ [e]) ↔ StepsSatisfy step Q s es ∧ Q t e) := by
  intro es
  induction es with
  | nil =>
      intro s t h
      rw [run_nil, Option.some.injEq] at h
      subst h
      exact ⟨fun hQ => ⟨trivial, hQ.1⟩, fun hQ => ⟨hQ.2, fun _ _ => trivial⟩⟩
  | cons e' es ih =>
      intro s t h
      rw [run_cons, Option.bind_eq_some_iff] at h
      obtain ⟨u, hu, hrest⟩ := h
      have hnext : ∀ P : σ → Prop, (∀ s', step s e' = some s' → P s') ↔ P u := fun P =>
        ⟨fun hall => hall u hu, fun hP s' hs' => Option.some.inj (hu.symm.trans hs') ▸ hP⟩
      simp only [List.cons_append, StepsSatisfy, hnext, ih hrest, and_assoc]

/-- The states that a run goes through, the first and the last one included. -/
def visited (step : σ → ε → Option σ) (s : σ) (es : List ε) : Set σ :=
  {t | ∃ es₁, es₁ <+: es ∧ run step s es₁ = some t}

theorem visited_nil (s : σ) : visited step s [] = {s} := by
  ext t
  simp [visited, eq_comm]

theorem visited_concat {s t u : σ} {es : List ε} {e : ε} (h : run step s es = some t)
    (he : step t e = some u) : visited step s (es ++ [e]) = insert u (visited step s es) := by
  have hrun := run_concat h he
  ext v
  simp only [visited, Set.mem_ofPred_eq, Set.mem_insert_iff, List.prefix_concat_iff]
  constructor
  · rintro ⟨es₁, rfl | hpre, hv⟩
    · exact Or.inl (Option.some.inj (hv.symm.trans hrun))
    · exact Or.inr ⟨es₁, hpre, hv⟩
  · rintro (rfl | ⟨es₁, hpre, hv⟩)
    · exact ⟨es ++ [e], Or.inl rfl, hrun⟩
    · exact ⟨es₁, Or.inr hpre, hv⟩

/-- Forward simulation, step by step. `Matches` relates the labels of the two machines. -/
theorem run_simulation {τ δ : Type*} {step' : τ → δ → Option τ} {Rel : σ → τ → Prop}
    {Matches : ε → δ → Prop}
    (hstep : ∀ s t e s', Rel s t → step s e = some s' →
      ∃ d t', Matches e d ∧ step' t d = some t' ∧ Rel s' t') :
    ∀ {es : List ε} {s s' : σ} {t : τ}, Rel s t → run step s es = some s' →
      ∃ ds t', List.Forall₂ Matches es ds ∧ run step' t ds = some t' ∧ Rel s' t' := by
  intro es
  induction es with
  | nil =>
      intro s s' t hrel h
      rw [run_nil, Option.some.injEq] at h
      exact ⟨[], t, List.Forall₂.nil, rfl, h ▸ hrel⟩
  | cons e es ih =>
      intro s s' t hrel h
      rw [run_cons, Option.bind_eq_some_iff] at h
      obtain ⟨u, hu, hrest⟩ := h
      obtain ⟨d, t', hmatch, hd, hrel'⟩ := hstep s t e u hrel hu
      obtain ⟨ds, t'', hall, hds, hrel''⟩ := ih hrel' hrest
      refine ⟨d :: ds, t'', List.Forall₂.cons hmatch hall, ?_, hrel''⟩
      rw [run_cons, hd]
      exact hds

/-- Two machines side by side, with labels that belong together: where the one goes, so does the
other. -/
theorem run_lockstep {τ δ : Type*} {step' : τ → δ → Option τ} {Rel : σ → τ → Prop}
    {Matches : ε → δ → Prop}
    (hstep : ∀ s t e d s', Rel s t → Matches e d → step s e = some s' →
      ∃ t', step' t d = some t' ∧ Rel s' t') {es : List ε} {ds : List δ}
    (hlabels : List.Forall₂ Matches es ds) :
    ∀ {s s' : σ} {t : τ}, Rel s t → run step s es = some s' →
      ∃ t', run step' t ds = some t' ∧ Rel s' t' := by
  induction hlabels with
  | nil =>
      intro s s' t hrel h
      rw [run_nil, Option.some.injEq] at h
      exact ⟨t, rfl, h ▸ hrel⟩
  | cons hmatch _ ih =>
      intro s s' t hrel h
      rw [run_cons, Option.bind_eq_some_iff] at h
      obtain ⟨u, hu, hrest⟩ := h
      obtain ⟨t', ht', hrel'⟩ := hstep _ _ _ _ _ hrel hmatch hu
      obtain ⟨t'', ht'', hrel''⟩ := ih hrel' hrest
      refine ⟨t'', ?_, hrel''⟩
      rw [run_cons, ht']
      exact ht''

end Machine
