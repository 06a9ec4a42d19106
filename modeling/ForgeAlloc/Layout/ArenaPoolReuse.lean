import ForgeAlloc.Layout.ArenaPoolRun

set_option autoImplicit false

/-! # What a pool saves

`Backings.logged` writes down every call of the factory and every drop. Where the factory mints only
backings that an arena accepts, a run that takes arenas out and gives them back, starts with no more
of them than the cap and has no more out at once, drops nothing, and there are as many arenas as were
ever out at the same time (`run_peak`). A pool that has enough of them to begin with does not call
the factory at all (`run_steady`).
-/

namespace ForgeAlloc

open MachineInt ByteMemory

inductive BackingEvent (β : Type)
  | minted (b : β)
  | declined
  | dropped (b : β)

namespace BackingEvent

variable {β : Type}

def isMinted : BackingEvent β → Bool
  | .minted _ => true
  | .declined | .dropped _ => false

def isDropped : BackingEvent β → Bool
  | .dropped _ => true
  | .declined | .minted _ => false

end BackingEvent

namespace Backings

variable {β φ : Type}

/-- The factory and the destructor with a log, the last call first. -/
def logged (S : Backings β φ) : Backings β (φ × List (BackingEvent β)) where
  mint := fun s =>
    match S.mint s.1 with
    | (none, f) => (none, (f, .declined :: s.2))
    | (some b, f) => (some b, (f, .minted b :: s.2))
  drop := fun b s => (S.drop b s.1, .dropped b :: s.2)

end Backings

namespace PoolRun

open ArenaPool

variable {w : Nat} {β φ : Type} {R : FixedRange β} {S : Backings β φ} {O : PageRelease β}
  {s s' s₀ : PoolRun β φ} {ops : List (PoolOp w)} {i : Nat}

/-- The arenas that are there, in the pool or out. -/
def alive (s : PoolRun β φ) : Nat := s.pool.idle.length + s.out.length

/-- Arenas are taken out, used and given back, and no more than `k` are out at once. -/
def Cyclic (k : Nat) (s : PoolRun β φ) : PoolOp w → Prop
  | .checkout => s.out.length < k
  | .use _ _ | .write _ _ _ | .giveBack _ | .releaseIdle _ | .elsewhere _ => True
  | .discard _ | .prewarm _ | .clear => False

instance (k : Nat) (s : PoolRun β φ) : ∀ op : PoolOp w, Decidable (Cyclic k s op)
  | .checkout => inferInstanceAs (Decidable (_ < _))
  | .use _ _ | .write _ _ _ | .giveBack _ | .releaseIdle _ | .elsewhere _ => isTrue trivial
  | .discard _ | .prewarm _ | .clear => isFalse not_false

theorem length_eraseIdx_of_getElem? {α : Type} {l : List α} {a : α} (h : l[i]? = some a) :
    (l.eraseIdx i).length + 1 = l.length := by
  obtain ⟨hlt, -⟩ := List.getElem?_eq_some_iff.mp h
  rw [List.length_eraseIdx_of_lt hlt]
  omega

/-- **One step of such a run** keeps the arenas that are there, and leaves the factory alone; or it
takes out the last one that there is to be had. -/
theorem cyclic_cases {k : Nat} {op : PoolOp w} (hle : alive s ≤ s.pool.cap) (hop : Cyclic k s op)
    (hstep : step w R S O s op = some s') :
    s'.pool.cap = s.pool.cap ∧
      ((s'.pool.factory = s.pool.factory ∧ alive s' = alive s ∧ s'.out.length ≤ alive s) ∨
        (op = .checkout ∧ s.pool.idle = [] ∧ s'.pool.idle = [] ∧ ∃ a,
          mintArena w R S s.pool.factory = (a, s'.pool.factory) ∧
            s'.out.length = a.toList.length + s.out.length)) := by
  have hout : s.out.length ≤ alive s := Nat.le_add_left _ _
  have hreplace : ∀ {i : Nat} {r r' : ArenaRun β}, s.out[i]? = some r →
      (s.replace i r').out.length = s.out.length := fun hr => length_eraseIdx_of_getElem? hr
  cases op with
  | checkout =>
      simp only [step, checkout] at hstep
      cases hidle : s.pool.idle with
      | cons a idle =>
          rw [hidle] at hstep
          cases hstep
          refine ⟨rfl, Or.inl ⟨rfl, ?_, ?_⟩⟩
          · simp only [alive, hidle, Option.map_some, Option.toList_some, List.length_append,
              List.length_cons, List.length_nil]
            omega
          · simp only [alive, hidle, Option.map_some, Option.toList_some, List.length_append,
              List.length_cons, List.length_nil]
            omega
      | nil =>
          rw [hidle] at hstep
          rcases hmint : mintArena w R S s.pool.factory with ⟨a, f⟩
          rw [hmint] at hstep
          cases hstep
          refine ⟨rfl, Or.inr ⟨rfl, rfl, rfl, a, rfl, ?_⟩⟩
          cases a with
          | none => exact (Nat.zero_add _).symm
          | some a => exact Nat.add_comm _ _
  | use i op =>
      obtain ⟨r, hr, hmap⟩ := Option.bind_eq_some_iff.mp hstep
      obtain ⟨r', -, rfl⟩ := Option.map_eq_some_iff.mp hmap
      refine ⟨rfl, Or.inl ⟨rfl, ?_, ?_⟩⟩
      · exact congrArg (s.pool.idle.length + ·) (hreplace hr)
      · exact (hreplace hr).trans_le hout
  | write i e bytes =>
      simp only [step] at hstep
      split at hstep
      case h_1 => cases hstep
      case h_2 r hr =>
          split at hstep
          case isFalse => cases hstep
          case isTrue =>
              cases hstep
              refine ⟨rfl, Or.inl ⟨rfl, ?_, ?_⟩⟩
              · exact congrArg (s.pool.idle.length + ·) (hreplace hr)
              · exact (hreplace hr).trans_le hout
  | giveBack i =>
      obtain ⟨r, hr, rfl⟩ := Option.map_eq_some_iff.mp hstep
      have hlen := length_eraseIdx_of_getElem? hr
      -- one is out, so there is room for it
      have hroom : s.pool.idle.length < s.pool.cap := by
        unfold alive at hle
        omega
      simp only [giveBack, if_pos hroom, alive, List.length_cons]
      exact ⟨trivial, Or.inl ⟨trivial, by omega, by omega⟩⟩
  | discard i => exact hop.elim
  | prewarm n => exact hop.elim
  | clear => exact hop.elim
  | releaseIdle after =>
      cases hstep
      exact ⟨rfl, Or.inl ⟨rfl, rfl, hout⟩⟩
  | elsewhere after =>
      cases hstep
      exact ⟨rfl, Or.inl ⟨rfl, rfl, hout⟩⟩

/-- **A pool with enough arenas calls nobody.** Let there be `k` arenas in the pool or out, and no
more than the cap. In every run that takes arenas out only while fewer than `k` are out, and gives
them back, the factory is not called and no backing is dropped: the state that both work on is what
it was. -/
theorem run_steady (hle : alive s₀ ≤ s₀.pool.cap)
    (hsteps : Machine.StepsSatisfy (step w R S O) (Cyclic (alive s₀)) s₀ ops)
    (hrun : Machine.run (step w R S O) s₀ ops = some s) :
    s.pool.factory = s₀.pool.factory ∧ alive s = alive s₀ := by
  have hinv : s.pool.cap = s₀.pool.cap ∧ s.pool.factory = s₀.pool.factory ∧ alive s = alive s₀ := by
    refine Machine.run_invariant_of_stepsSatisfy
      (P := fun t => t.pool.cap = s₀.pool.cap ∧ t.pool.factory = s₀.pool.factory ∧
        alive t = alive s₀) ?_ ⟨rfl, rfl, rfl⟩ hsteps hrun
    rintro t op t' ⟨hcap, hfactory, halive⟩ hop hstep
    have hle' : alive t ≤ t.pool.cap := halive.trans_le (hle.trans_eq hcap.symm)
    obtain ⟨hcap', hcase⟩ := cyclic_cases hle' hop hstep
    refine ⟨hcap'.trans hcap, ?_⟩
    rcases hcase with ⟨hfactory', halive', -⟩ | ⟨rfl, hidle, -⟩
    · exact ⟨hfactory'.trans hfactory, halive'.trans halive⟩
    · -- the pool is empty, so all `k` of them are out
      have hlt : t.out.length < alive s₀ := hop
      have hall : alive t = t.out.length := by
        rw [alive, hidle, List.length_nil, Nat.zero_add]
      omega
  exact hinv.2

/-- A factory for a number of backings, each one of eight places. -/
def budget : Backings (Fin 8) Nat where
  mint := fun n => if n = 0 then (none, 0) else (some (Fin.ofNat 8 n), n - 1)
  drop := fun _ n => n

def places : FixedRange (Fin 8) where
  base := fun b => 64 * (b + 1)
  size := fun _ => 64
  commit := fun _ _ b => (true, b)

/-- A system that releases nothing. -/
def keeping : PageRelease (Fin 8) := ⟨places.region, fun _ _ => none⟩

/-- Two arenas and a factory that has nothing left. -/
def exhausted : PoolRun (Fin 8) Nat := ⟨⟨0, [⟨0, 64, 0⟩, ⟨1, 64, 0⟩], 2⟩, [], fun _ => 0⟩

/-- They go out and come back. -/
theorem run_steady_exhausted : ∃ s,
    Machine.run (step 16 places budget keeping) exhausted
        [.checkout, .giveBack 0, .checkout, .checkout] = some s ∧
      s.pool.factory = 0 ∧ alive s = 2 := by
  obtain ⟨s, hrun⟩ := Option.isSome_iff_exists.mp (by decide +kernel :
    (Machine.run (step 16 places budget keeping) exhausted
      [.checkout, .giveBack 0, .checkout, .checkout]).isSome)
  have hle : alive exhausted ≤ exhausted.pool.cap := by decide
  exact ⟨s, hrun, run_steady hle (by decide +kernel) hrun⟩

/-- The calls that mint, and those that drop. -/
def minted (s : PoolRun β (φ × List (BackingEvent β))) : Nat :=
  s.pool.factory.2.countP BackingEvent.isMinted

def dropped (s : PoolRun β (φ × List (BackingEvent β))) : Nat :=
  s.pool.factory.2.countP BackingEvent.isDropped

/-- One call of a factory whose backings are accepted. -/
theorem mintArena_logged (haccept : ∀ {f f' b}, S.mint f = (some b, f') →
      (BumpArena.new w R b).isSome) {f f' : φ × List (BackingEvent β)} {a : Option (BumpArena β)}
    (h : mintArena w R S.logged f = (a, f')) :
    f'.2.countP BackingEvent.isMinted = f.2.countP BackingEvent.isMinted + a.toList.length ∧
      f'.2.countP BackingEvent.isDropped = f.2.countP BackingEvent.isDropped := by
  unfold mintArena Backings.logged at h
  rcases hmint : S.mint f.1 with ⟨_ | b, f₁⟩
  · simp only [hmint] at h
    cases h
    exact ⟨rfl, rfl⟩
  · obtain ⟨a', ha'⟩ := Option.isSome_iff_exists.mp (haccept hmint)
    simp only [hmint, ha'] at h
    cases h
    exact ⟨List.countP_cons_of_pos rfl, List.countP_cons_of_neg Bool.false_ne_true⟩

/-- **The arenas that are there are those that were ever needed at once.** Let the factory mint only
backings that `BumpArena::new` accepts, or fail, and let there be no more arenas at the start than
the cap, idle and out together. In every run that takes arenas out and gives them back, with no more
out at once than the cap, no backing is dropped, and the number of arenas is the greatest of the
number at the start and the numbers that were out at once. What was minted is the difference to the
start. -/
theorem run_peak {s₀ s : PoolRun β (φ × List (BackingEvent β))}
    (haccept : ∀ {f f' b}, S.mint f = (some b, f') → (BumpArena.new w R b).isSome)
    (hle : alive s₀ ≤ s₀.pool.cap)
    (hsteps : Machine.StepsSatisfy (step w R S.logged O) (Cyclic s₀.pool.cap) s₀ ops)
    (hrun : Machine.run (step w R S.logged O) s₀ ops = some s) :
    IsGreatest (insert (alive s₀)
        ((fun t => t.out.length) '' Machine.visited (step w R S.logged O) s₀ ops)) (alive s) ∧
      s.minted + alive s₀ = s₀.minted + alive s ∧ s.dropped = s₀.dropped := by
  let P : List (PoolOp w) → PoolRun β (φ × List (BackingEvent β)) → Prop := fun ops s =>
    Machine.StepsSatisfy (step w R S.logged O) (Cyclic s₀.pool.cap) s₀ ops →
      (s.pool.cap = s₀.pool.cap ∧ alive s ≤ s₀.pool.cap) ∧
      IsGreatest (insert (alive s₀)
        ((fun t => t.out.length) '' Machine.visited (step w R S.logged O) s₀ ops)) (alive s) ∧
      s.minted + alive s₀ = s₀.minted + alive s ∧ s.dropped = s₀.dropped
  have hP : P ops s := by
    refine Machine.run_induction (P := P) ?_ ?_ hrun
    · refine fun _ => ⟨⟨rfl, hle⟩, ⟨Set.mem_insert _ _, ?_⟩, rfl, rfl⟩
      rw [Machine.visited_nil, Set.image_singleton]
      rintro n (rfl | rfl)
      · exact le_rfl
      · exact Nat.le_add_left _ _
    · intro ops t op t' hrun ih hstep hsteps
      obtain ⟨hsteps, hop⟩ := (Machine.stepsSatisfy_concat hrun).mp hsteps
      obtain ⟨⟨hcap, hle'⟩, hgreatest, hminted, hdropped⟩ := ih hsteps
      obtain ⟨hcap', hcase⟩ := cyclic_cases (hle'.trans_eq hcap.symm) (hcap ▸ hop) hstep
      rw [Machine.visited_concat hrun hstep, Set.image_insert_eq, Set.insert_comm]
      rcases hcase with ⟨hfactory, halive, hout⟩ | ⟨rfl, hidle, hidle', a, hmint, hout⟩
      · rw [halive]
        refine ⟨⟨hcap'.trans hcap, hle'⟩, ⟨Set.mem_insert_of_mem _ hgreatest.1, ?_⟩, ?_, ?_⟩
        · rintro n (rfl | hn)
          · exact hout
          · exact hgreatest.2 hn
        · rw [minted, hfactory]
          exact hminted
        · rw [dropped, hfactory]
          exact hdropped
      · have hlt : t.out.length < s₀.pool.cap := hop
        have hall : alive t = t.out.length := by
          rw [alive, hidle, List.length_nil, Nat.zero_add]
        have hall' : alive t' = t'.out.length := by
          rw [alive, hidle', List.length_nil, Nat.zero_add]
        obtain ⟨hminted', hdropped'⟩ := mintArena_logged haccept hmint
        have hone : a.toList.length ≤ 1 := Option.length_toList_le
        refine ⟨⟨hcap'.trans hcap, by omega⟩, ⟨?_, ?_⟩, ?_, hdropped'.trans hdropped⟩
        · rw [hall']
          exact Set.mem_insert _ _
        · rintro n (rfl | hn)
          · exact hall'.ge
          · have := hgreatest.2 hn
            omega
        · change t'.minted = t.minted + a.toList.length at hminted'
          omega
  exact (hP hsteps).2

/-- Two are out at once and the third request is declined: there are two. -/
theorem run_peak_budget : ∃ s,
    Machine.run (step 16 places budget.logged keeping) (init 4 (2, []) fun _ => 0)
        [.checkout, .checkout, .checkout, .giveBack 0, .checkout] = some s ∧
      alive s = 2 ∧ s.minted = 2 ∧ s.dropped = 0 := by
  have haccept : ∀ {f f' b}, budget.mint f = (some b, f') → (BumpArena.new 16 places b).isSome :=
    fun {_ _ b} _ => (by decide : ∀ b, (BumpArena.new 16 places b).isSome) b
  obtain ⟨s, hrun, halive⟩ := Option.map_eq_some_iff.mp (by decide +kernel :
    (Machine.run (step 16 places budget.logged keeping) (init 4 (2, []) fun _ => 0)
      [.checkout, .checkout, .checkout, .giveBack 0, .checkout]).map alive = some 2)
  obtain ⟨-, hminted, hdropped⟩ := run_peak haccept (by decide) (by decide +kernel) hrun
  exact ⟨s, hrun, halive, hminted.trans (by rw [halive]; rfl), hdropped⟩

end PoolRun

end ForgeAlloc
