import ForgeAlloc.Hardening.Forwarders
import ForgeAlloc.Library.FetchUpdate

set_option autoImplicit false

/-! # The fault policies

`NeverFail`, `AlwaysFail`, `FailAfter`, `FailEveryNth` and `FailOnSize`. The first two and the last
one have no state. `FailAfter` takes a credit with `fetch_update`: no interleaving loses a credit,
gives one out twice or brings one back (`FailAfter.run_credits`). `FailEveryNth` counts its calls
with one `fetch_add`, so only their order matters. Its counter wraps, and with it the cadence, unless
the period divides the number of values of a word (`FailEveryNth.verdicts_eq_iff`).
-/

namespace ForgeAlloc

open MachineInt

variable {w : Nat} {ρ τ : Type}

namespace AllocFaultPolicy

/-- What the policy says to one request after the other. -/
def verdicts (P : AllocFaultPolicy w ρ) : ρ → List (NonZeroLayout w) → List Bool
  | _, [] => []
  | p, l :: ls =>
      let (fails, p') := P.shouldFail l p
      fails :: P.verdicts p' ls

end AllocFaultPolicy

structure NeverFail

def NeverFail.policy : AllocFaultPolicy w NeverFail where
  shouldFail := fun _ p => (false, p)

structure AlwaysFail

def AlwaysFail.policy : AllocFaultPolicy w AlwaysFail where
  shouldFail := fun _ p => (true, p)

structure FailOnSize where
  minFailBytes : Nat

def FailOnSize.new (minFailBytes : Nat) : FailOnSize := ⟨minFailBytes⟩

def FailOnSize.policy : AllocFaultPolicy w FailOnSize where
  shouldFail := fun l p => (decide (p.minFailBytes ≤ l.size), p)

/-! ## Credits -/

structure FailAfter where
  successesLeft : Nat

namespace FailAfter

def new (successes : Nat) : FailAfter := ⟨successes⟩

def remaining (p : FailAfter) : Nat := p.successesLeft

/-- The function that `fetch_update` is called with. -/
def takeCredit (n : Nat) : Option Nat := checkedSub n 1

def policy : AllocFaultPolicy w FailAfter where
  shouldFail := fun _ p =>
    match takeCredit p.successesLeft with
    | some n => (false, ⟨n⟩)
    | none => (true, p)

theorem takeCredit_succ (n : Nat) : takeCredit (n + 1) = some n := rfl

theorem iterate_takeCredit {k n : Nat} :
    FetchUpdate.iterate takeCredit k n = if k ≤ n then some (n - k) else none := by
  induction k with
  | zero => rfl
  | succ k ih =>
      rw [FetchUpdate.iterate_succ, ih]
      by_cases hle : k + 1 ≤ n
      · obtain ⟨m, hm⟩ : ∃ m, n - k = m + 1 := ⟨n - (k + 1), by omega⟩
        rw [if_pos (by omega), if_pos hle, Option.bind_some, hm, takeCredit_succ]
        exact congrArg some (by omega)
      · rw [if_neg hle]
        split
        · have hzero : n - k = 0 := by omega
          rw [Option.bind_some, hzero]
          rfl
        · rfl

/-- One after the other: the credits, and then nothing. -/
theorem verdicts_eq (n : Nat) (ls : List (NonZeroLayout w)) :
    policy.verdicts (new n) ls =
      List.replicate (min n ls.length) false ++ List.replicate (ls.length - n) true := by
  induction ls generalizing n with
  | nil => simp [AllocFaultPolicy.verdicts]
  | cons l ls ih =>
      cases n with
      | zero =>
          have hrest := ih 0
          rw [Nat.zero_min, List.replicate_zero, List.nil_append, Nat.sub_zero] at hrest ⊢
          exact congrArg (List.cons true) hrest
      | succ n =>
          have hmin : min (n + 1) (l :: ls).length = min n ls.length + 1 := by
            simp only [List.length_cons]
            omega
          have hsub : (l :: ls).length - (n + 1) = ls.length - n := by
            simp only [List.length_cons]
            omega
          rw [hmin, hsub, List.replicate_succ, List.cons_append]
          exact congrArg (List.cons false) (ih n)

variable [DecidableEq τ] {successes : Nat} {es : List (FetchUpdate.Access Nat τ)}
  {c : FetchUpdate.Cell Nat τ}

/-- A call of `should_fail` that no other thread interrupts is one of the policy. -/
theorem policy_alone {t : τ} {p : FailAfter} (l : NonZeroLayout w)
    (hv : c.value = some p.successesLeft) (ht : c.loops t = none) :
    ∃ c', Machine.run (FetchUpdate.step takeCredit) c
        [.load t p.successesLeft, .attempt t none] = some c' ∧
      c'.value = some (policy.shouldFail l p).2.successesLeft ∧
      ((policy.shouldFail l p).1 = true ↔ c'.stopped ≠ c.stopped) := by
  obtain ⟨c', hrun, -, hpost⟩ := FetchUpdate.run_alone (f := takeCredit) hv ht
  refine ⟨c', hrun, ?_⟩
  simp only [policy]
  cases hf : takeCredit p.successesLeft with
  | none =>
      rw [hf] at hpost
      exact ⟨(congrArg List.head? hpost.1).trans hv, iff_of_true rfl (by simp [hpost.2])⟩
  | some n =>
      rw [hf] at hpost
      exact ⟨hpost.1, iff_of_false Bool.false_ne_true fun hne => hne hpost.2⟩

/-- **No credit is lost, given out twice or brought back.** Let any number of threads ask one policy
in any order of their steps. The credits left and the requests that were let through make up the
initial credits at any time, and a request is refused only when there are none left. -/
theorem run_credits
    (hrun : Machine.run (FetchUpdate.step takeCredit) (FetchUpdate.Cell.init successes) es = some c) :
    ∃ left, c.value = some left ∧ left + c.updated = successes ∧ (c.stopped ≠ [] → left = 0) := by
  have hi := FetchUpdate.inv_run hrun
  have hvalue := hi.value_eq
  rw [iterate_takeCredit] at hvalue
  split at hvalue
  case isFalse =>
      -- the cell has a value
      have hnil := List.head?_eq_none_iff.mp hvalue
      have hlength := hi.length_eq
      rw [hnil] at hlength
      cases hlength
  case isTrue hle =>
      refine ⟨_, hvalue, by omega, fun hne => ?_⟩
      obtain ⟨v, hv⟩ := List.exists_mem_of_ne_nil _ hne
      have hnewest := hi.stopped_newest hv
      have hnone := (hi.stopped_mem v hv).2
      rw [hvalue, Option.some.injEq] at hnewest
      rw [hnewest]
      cases v with
      | zero => rfl
      | succ v => cases hnone

/-- Two threads and one credit: both read it, one takes it, and the other one finds it gone. -/
theorem run_credits_twoThreads : ∃ c : FetchUpdate.Cell Nat Bool,
    Machine.run (FetchUpdate.step takeCredit) (FetchUpdate.Cell.init 1)
        [.load true 1, .load false 1, .attempt true none, .attempt false (some 0),
          .attempt false none] = some c ∧
      c.stopped = [0] ∧ ∃ left, c.value = some left ∧ left + c.updated = 1 ∧ left = 0 := by
  obtain ⟨c, hrun, hstopped⟩ := Option.map_eq_some_iff.mp
    (by decide : (Machine.run (FetchUpdate.step takeCredit)
      (FetchUpdate.Cell.init 1 : FetchUpdate.Cell Nat Bool)
        [.load true 1, .load false 1, .attempt true none, .attempt false (some 0),
          .attempt false none]).map FetchUpdate.Cell.stopped = some [0])
  obtain ⟨left, hvalue, hsum, hzero⟩ := run_credits hrun
  exact ⟨c, hrun, hstopped, left, hvalue, hsum, hzero (by rw [hstopped]; exact List.cons_ne_nil _ _)⟩

end FailAfter

/-! ## Cadence -/

structure FailEveryNth where
  period : Nat
  count : Nat
  /-- The assertion of `new`. -/
  one_le : 1 ≤ period

/-- The panic of `FailEveryNth::new`. -/
inductive PeriodPanic
  | zeroPeriod
  deriving DecidableEq, Repr

def PeriodPanic.message : PeriodPanic → String
  | .zeroPeriod => "FailEveryNth period must be >= 1"

namespace FailEveryNth

def new (period : Nat) : Except PeriodPanic FailEveryNth :=
  if h : 1 ≤ period then .ok ⟨period, 0, h⟩ else .error .zeroPeriod

def policy : AllocFaultPolicy w FailEveryNth where
  shouldFail := fun _ p =>
    (decide (p.count % p.period = p.period - 1), { p with count := wrappingAdd w p.count 1 })

variable {p : FailEveryNth} {period : Nat}

theorem new_eq_ok (h : new period = .ok p) : p.period = period ∧ p.count = 0 := by
  unfold new at h
  split at h
  · cases h
    exact ⟨rfl, rfl⟩
  · cases h

theorem mod_eq_pred_iff {n d : Nat} (hd : 1 ≤ d) : n % d = d - 1 ↔ d ∣ n + 1 := by
  have hlt := Nat.mod_lt n hd
  rw [Nat.dvd_iff_mod_eq_zero, Nat.add_mod]
  constructor
  · intro h
    rw [h, Nat.add_mod_mod, show d - 1 + 1 = d by omega, Nat.mod_self]
  · intro h
    by_contra hne
    rw [Nat.add_mod_mod, Nat.mod_eq_of_lt (by omega)] at h
    omega

/-- The verdicts from any count on: the counter wraps. -/
theorem verdicts_from (p : FailEveryNth) {k : Nat} (hcount : p.count = k % 2 ^ w)
    (ls : List (NonZeroLayout w)) :
    policy.verdicts p ls =
      (List.range' k ls.length).map fun n => decide (p.period ∣ n % 2 ^ w + 1) := by
  induction ls generalizing p k with
  | nil => rfl
  | cons l ls ih =>
      have hnext : wrappingAdd w p.count 1 = (k + 1) % 2 ^ w := by
        rw [wrappingAdd, hcount, Nat.mod_add_mod]
      have hhead : decide (p.count % p.period = p.period - 1) =
          decide (p.period ∣ k % 2 ^ w + 1) := by
        rw [hcount]
        exact decide_eq_decide.mpr (mod_eq_pred_iff p.one_le)
      rw [List.length_cons, List.range'_succ, List.map_cons]
      exact congrArg₂ List.cons hhead (ih { p with count := wrappingAdd w p.count 1 } hnext)

theorem verdicts_eq (hnew : new period = .ok p) (ls : List (NonZeroLayout w)) :
    policy.verdicts p ls =
      (List.range ls.length).map fun k => decide (period ∣ k % 2 ^ w + 1) := by
  obtain ⟨rfl, hcount⟩ := new_eq_ok hnew
  rw [verdicts_from p (hcount.trans (Nat.zero_mod _).symm) ls, List.range_eq_range']

/-- The first count at which the wrapped counter is out of step. -/
theorem exists_out_of_step (hpos : 1 ≤ period) (hnot : ¬ period ∣ 2 ^ w) :
    ∃ k, period ∣ k + 1 ∧ (period < 2 ^ w → ¬ period ∣ k % 2 ^ w + 1) := by
  have hlt := Nat.mod_lt (2 ^ w) hpos
  have hne : 2 ^ w % period ≠ 0 := fun h => hnot (Nat.dvd_of_mod_eq_zero h)
  have hdiv := Nat.div_add_mod (2 ^ w) period
  refine ⟨2 ^ w + (period - 1 - 2 ^ w % period), ?_, fun hw => ?_⟩
  · refine ⟨2 ^ w / period + 1, ?_⟩
    rw [Nat.mul_add]
    omega
  · rw [Nat.add_mod_left, Nat.mod_eq_of_lt (by omega)]
    intro hdvd
    have hle := Nat.le_of_dvd (Nat.succ_pos _) hdvd
    omega

/-- **Every `period`-th request fails, for as long as the process runs, if and only if** the period
divides the number of values of the counter. -/
theorem verdicts_eq_iff (l : NonZeroLayout w) (hnew : new period = .ok p) (hlt : period < 2 ^ w) :
    (∀ ls : List (NonZeroLayout w), policy.verdicts p ls =
      (List.range ls.length).map fun k => decide (period ∣ k + 1)) ↔ period ∣ 2 ^ w := by
  have hpos : 1 ≤ period := (new_eq_ok hnew).1 ▸ p.one_le
  constructor
  · intro hall
    by_contra hnot
    obtain ⟨k, hk, hwrapped⟩ := exists_out_of_step hpos hnot
    have heq := (verdicts_eq hnew _).symm.trans (hall (List.replicate (k + 1) l))
    have hkth := congrArg (fun vs => vs[k]?) heq
    simp only [List.length_replicate, List.getElem?_map, List.getElem?_range k.lt_succ_self,
      Option.map_some, Option.some.injEq, decide_eq_decide] at hkth
    exact hwrapped hlt (hkth.mpr hk)
  · intro hdvd ls
    rw [verdicts_eq hnew]
    refine List.map_congr_left fun k _ => decide_eq_decide.mpr ?_
    rw [Nat.dvd_iff_mod_eq_zero, Nat.dvd_iff_mod_eq_zero, Nat.add_mod, Nat.mod_mod_of_dvd _ hdvd,
      ← Nat.add_mod]

/-- Three does not divide `2 ^ 64`. -/
theorem verdicts_eq_iff_three : ∃ p, new 3 = .ok p ∧
    ¬ ∀ ls : List (NonZeroLayout 64), policy.verdicts p ls =
      (List.range ls.length).map fun k => decide (3 ∣ k + 1) := by
  refine ⟨⟨3, 0, by decide⟩, rfl, fun hall => ?_⟩
  have hdvd := (verdicts_eq_iff (.lit 64 8 8 (Eq.refl true)) rfl (by decide)).mp hall
  exact absurd hdvd (by decide)

end FailEveryNth

end ForgeAlloc
