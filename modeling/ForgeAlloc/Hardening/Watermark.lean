import ForgeAlloc.Core.Metering
import ForgeAlloc.Library.Run

set_option autoImplicit false

/-! # `Watermark`

A byte counter around the calls of an inner allocator, and two flags that are raised when the
counter crosses a percentage of the capacity. The counter and the flags are accessed by atomic steps
of their own, and so is the capacity, which the inner allocator may report anew at every query;
between any two steps of one call the other calls in flight may move. `WatermarkPc` is the place of
a call in its code, named after the next step.

The gate in `allocate` is computed at construction from the capacity reported then, rounded down.
`gate_le` says that it lets every count through that meets a threshold under a capacity no smaller.
The flags have three values, and each stands for what the handler has been told since the last
`rearm` (`Told`).
-/

namespace ForgeAlloc

open MachineInt ByteMemory InFlight

inductive WatermarkLevel
  | warn
  | critical
  | oom
  deriving DecidableEq

structure WatermarkEvent (w : Nat) where
  level : WatermarkLevel
  allocatedBytes : Nat
  capacityBytes : Nat
  requestedLayout : Option (NonZeroLayout w)

structure WatermarkThresholds where
  warnPct : UInt8
  criticalPct : UInt8

structure Watermark where
  thresholds : WatermarkThresholds
  capacityBytes : Nat
  warnThresholdBytes : Nat
  allocated : Nat
  /-- Bit 0: warn fired; bit 1: critical fired. -/
  fired : Nat

def firedWarn : Nat := 1

def firedCritical : Nat := 2

namespace Watermark

variable {w : Nat}

/-- `Watermark::with_thresholds` over an inner allocator that reports the capacity `reported`. -/
def withThresholds (w : Nat) (reported : Option Nat) (t : WatermarkThresholds) : Watermark :=
  let capacityBytes := reported.getD (2 ^ w - 1)
  let warnThresholdBytes :=
    if capacityBytes = 2 ^ w - 1 then 2 ^ w - 1
    else
      let pct := min (min t.warnPct.toNat 100) (min t.criticalPct.toNat 100)
      capacityBytes * pct / 100 % 2 ^ w
  ⟨t, capacityBytes, warnThresholdBytes, 0, 0⟩

/-- The percentage that `check_and_fire` computes. -/
def pct (newBytes capacity : Nat) : Nat := min (newBytes * 100 / capacity) 255

/-- The check of `check_and_fire`: the threshold that is met, if any. -/
def check (t : WatermarkThresholds) (newBytes capacity : Nat) : Option WatermarkLevel :=
  if capacity = 0 then none
  else if t.criticalPct.toNat ≤ pct newBytes capacity then some .critical
  else if t.warnPct.toNat ≤ pct newBytes capacity then some .warn
  else none

/-- The flags that a level raises, and the flag that says that it has been told. -/
def raises : WatermarkLevel → Nat × Nat
  | .critical => (firedCritical ||| firedWarn, firedCritical)
  | _ => (firedWarn, firedWarn)

/-- **The gate lets every crossing through.** -/
theorem gate_le {reported capacity newBytes : Nat} {t : WatermarkThresholds}
    (hreported : reported < 2 ^ w - 1) (hcapacity : reported ≤ capacity)
    (hmeets : (check t newBytes capacity).isSome) :
    (withThresholds w (some reported) t).warnThresholdBytes ≤ newBytes := by
  have hzero : capacity ≠ 0 := by
    rintro rfl
    simp [check] at hmeets
  have hpct : min (min t.warnPct.toNat 100) (min t.criticalPct.toNat 100) ≤
      newBytes * 100 / capacity := by
    rw [check, if_neg hzero, pct] at hmeets
    by_cases hcritical : t.criticalPct.toNat ≤ min (newBytes * 100 / capacity) 255
    · omega
    · rw [if_neg hcritical] at hmeets
      by_cases hwarn : t.warnPct.toNat ≤ min (newBytes * 100 / capacity) 255
      · omega
      · rw [if_neg hwarn] at hmeets
        cases hmeets
  have hbytes : min (min t.warnPct.toNat 100) (min t.criticalPct.toNat 100) * capacity ≤
      newBytes * 100 := (Nat.le_div_iff_mul_le (Nat.pos_of_ne_zero hzero)).mp hpct
  have hgate : (withThresholds w (some reported) t).warnThresholdBytes =
      reported * min (min t.warnPct.toNat 100) (min t.criticalPct.toNat 100) / 100 % 2 ^ w :=
    if_neg hreported.ne
  generalize min (min t.warnPct.toNat 100) (min t.criticalPct.toNat 100) = p at *
  rw [hgate]
  calc reported * p / 100 % 2 ^ w ≤ reported * p / 100 := Nat.mod_le _ _
    _ ≤ capacity * p / 100 := Nat.div_le_div_right (Nat.mul_le_mul_right p hcapacity)
    _ ≤ newBytes * 100 / 100 := Nat.div_le_div_right (by rw [Nat.mul_comm]; exact hbytes)
    _ = newBytes := Nat.mul_div_cancel _ (by decide)

end Watermark

/-! ## The machine -/

/-- The place of a call in its code, before the step it is named after. -/
inductive WatermarkPc (w : Nat)
  /-- `inner.allocate`. -/
  | allocate (l : NonZeroLayout w)
  /-- `allocated.fetch_add`. -/
  | addBytes (g : Grant w)
  /-- `inner.capacity_bytes` in `check_and_fire`. -/
  | readCapacity (g : Grant w) (newBytes : Nat)
  /-- `fired.fetch_or` for the level of the event. -/
  | fire (g : Grant w) (event : WatermarkEvent w)
  /-- The load of `allocated` after a failure. -/
  | loadOom (l : NonZeroLayout w)
  /-- `inner.capacity_bytes` for `on_oom`. -/
  | readOom (l : NonZeroLayout w) (cur : Nat)
  /-- `allocated.fetch_sub`. -/
  | subBytes (g : Grant w)
  /-- `inner.deallocate`. -/
  | deallocate (g : Grant w)

inductive WatermarkStep (w : Nat)
  /-- A thread calls `allocate`. -/
  | allocate (l : NonZeroLayout w)
  /-- A thread calls `deallocate` on the live block number `j`. -/
  | deallocate (j : Nat)
  | rearm
  /-- The inner allocator reports the capacity `c` from now on. -/
  | report (c : Option Nat)
  /-- `inner.allocate` returns `r`. -/
  | inner (i : Nat) (r : Option Block)
  /-- The load of the counter returns `v`. -/
  | load (i v : Nat)
  | advance (i : Nat)

structure WatermarkRun (w : Nat) where
  inner : Ledger w
  reported : Option Nat
  mark : Watermark
  live : List (Grant w)
  calls : List (WatermarkPc w)
  /-- The values the counter has had. -/
  bytes : List Nat
  /-- What the handler has been told of crossings, one list for each time between two rearms, the
  newest first. -/
  epochs : List (List (WatermarkEvent w))
  /-- The failures that the handler has been told of. -/
  ooms : List (WatermarkEvent w)

namespace WatermarkRun

variable {w : Nat}

def init (inner : Ledger w) (reported : Option Nat) (t : WatermarkThresholds) : WatermarkRun w :=
  ⟨inner, reported, .withThresholds w reported t, [], [], [0], [[]], []⟩

/-- `Watermark::current_capacity`. -/
def currentCapacity (s : WatermarkRun w) : Nat := s.reported.getD s.mark.capacityBytes

/-- The call number `i` goes on at `next`, or returns; the blocks `back` go to its client. -/
def move (s : WatermarkRun w) (i : Nat) (next : Option (WatermarkPc w)) (back : List (Grant w)) :
    WatermarkRun w :=
  { s with calls := replace s.calls i next, live := back ++ s.live }

/-- The handler is told of a crossing. -/
def tell (event : WatermarkEvent w) : List (List (WatermarkEvent w)) →
    List (List (WatermarkEvent w))
  | [] => [[event]]
  | e :: es => (event :: e) :: es

def innerStep (s : WatermarkRun w) (i : Nat) (r : Option Block) :
    WatermarkPc w → Option (WatermarkRun w)
  | .allocate l =>
      match r with
      | none => some (s.move i (some (.loadOom l)) [])
      | some b =>
          (s.inner.issue l b).map fun inner =>
            { s with inner := inner }.move i (some (.addBytes ⟨b, l⟩)) []
  | _ => none

def advanceStep (s : WatermarkRun w) (i : Nat) : WatermarkPc w → Option (WatermarkRun w)
  | .addBytes g =>
      let prev := s.mark.allocated
      let bytes := wrappingAdd w prev g.layout.size
      let newBytes := saturatingAdd w prev g.layout.size
      let t := { s with mark := { s.mark with allocated := bytes }, bytes := bytes :: s.bytes }
      if s.mark.warnThresholdBytes ≤ newBytes then
        some (t.move i (some (.readCapacity g newBytes)) [])
      else some (t.move i none [g])
  | .readCapacity g newBytes =>
      let capacity := s.currentCapacity
      match Watermark.check s.mark.thresholds newBytes capacity with
      | none => some (s.move i none [g])
      | some level => some (s.move i (some (.fire g ⟨level, newBytes, capacity, none⟩)) [])
  | .fire g event =>
      let prev := s.mark.fired
      let (mask, told) := Watermark.raises event.level
      let t := { s with mark := { s.mark with fired := prev ||| mask } }
      if prev &&& told = 0 then some ({ t with epochs := tell event s.epochs }.move i none [g])
      else some (t.move i none [g])
  | .readOom l cur =>
      some ({ s with ooms := ⟨.oom, cur, s.currentCapacity, some l⟩ :: s.ooms }.move i none [])
  | .subBytes g =>
      let bytes := wrappingSub w s.mark.allocated g.layout.size
      some ({ s with
        mark := { s.mark with allocated := bytes }
        bytes := bytes :: s.bytes }.move i (some (.deallocate g)) [])
  | .deallocate g => some ({ s with inner := s.inner.take g }.move i none [])
  | _ => none

def step (s : WatermarkRun w) : WatermarkStep w → Option (WatermarkRun w)
  | .allocate l => some { s with calls := .allocate l :: s.calls }
  | .deallocate j =>
      match s.live[j]? with
      | none => none
      | some g => some { s with live := s.live.eraseIdx j, calls := .subBytes g :: s.calls }
  | .rearm => some { s with mark := { s.mark with fired := 0 }, epochs := [] :: s.epochs }
  | .report c =>
      if s.mark.capacityBytes ≤ c.getD s.mark.capacityBytes then some { s with reported := c }
      else none
  | .inner i r => (s.calls[i]?).bind fun c => s.innerStep i r c
  | .load i v =>
      match s.calls[i]? with
      | some (.loadOom l) =>
          if v ∈ s.bytes then some (s.move i (some (.readOom l v)) []) else none
      | _ => none
  | .advance i => (s.calls[i]?).bind fun c => s.advanceStep i c

end WatermarkRun

/-! ## The invariant -/

namespace WatermarkPc

variable {w : Nat}

/-- The blocks that are out and in the hands of the call. -/
@[simp] def holds : WatermarkPc w → List (Grant w)
  | .addBytes g | .readCapacity g _ | .fire g _ | .subBytes g | .deallocate g => [g]
  | _ => []

/-- Those that the counter includes. -/
@[simp] def counted : WatermarkPc w → List (Grant w)
  | .readCapacity g _ | .fire g _ | .subBytes g => [g]
  | _ => []

theorem counted_sublist (c : WatermarkPc w) : c.counted.Sublist c.holds := by
  cases c with
  | addBytes g | deallocate g => exact List.nil_sublist _
  | _ => exact List.Sublist.refl _

end WatermarkPc

namespace WatermarkRun

variable {w : Nat} {s s' : WatermarkRun w} {inner : Ledger w} {reported : Nat}
  {t : WatermarkThresholds} {i : Nat} {c : WatermarkPc w}

/-- What the handler may have been told between two rearms, the newest first. -/
def Orderly (e : List (WatermarkEvent w)) : Prop :=
  e.map WatermarkEvent.level = [] ∨ e.map WatermarkEvent.level = [.warn] ∨
    e.map WatermarkEvent.level = [.critical] ∨ e.map WatermarkEvent.level = [.critical, .warn]

/-- The flags stand for what the handler has been told since the last rearm. -/
inductive Told : Nat → List (WatermarkEvent w) → Prop
  | nothing {e : List (WatermarkEvent w)} (h : e.map WatermarkEvent.level = []) : Told 0 e
  | warn {e : List (WatermarkEvent w)} (h : e.map WatermarkEvent.level = [.warn]) : Told 1 e
  | critical {e : List (WatermarkEvent w)} (h : e.map WatermarkEvent.level = [.critical]) : Told 3 e
  | both {e : List (WatermarkEvent w)} (h : e.map WatermarkEvent.level = [.critical, .warn]) :
      Told 3 e

theorem Told.orderly {n : Nat} {e : List (WatermarkEvent w)} (h : Told n e) : Orderly e := by
  cases h with
  | nothing h => exact Or.inl h
  | warn h => exact Or.inr (Or.inl h)
  | critical h => exact Or.inr (Or.inr (Or.inl h))
  | both h => exact Or.inr (Or.inr (Or.inr h))

/-- **The step of the flags**: the handler is told of a level when its flag was down. -/
theorem Told.fire {n : Nat} {e : List (WatermarkEvent w)} (h : Told n e) {event : WatermarkEvent w}
    (hlevel : event.level ≠ .oom) :
    (n &&& (Watermark.raises event.level).2 = 0 →
      Told (n ||| (Watermark.raises event.level).1) (event :: e)) ∧
    (n &&& (Watermark.raises event.level).2 ≠ 0 →
      Told (n ||| (Watermark.raises event.level).1) e) := by
  rcases hl : event.level with _ | _ | _
  · cases h with
    | nothing h =>
        exact ⟨fun _ => .warn (by rw [List.map_cons, hl, h]), fun hne => absurd rfl hne⟩
    | warn h => exact ⟨fun heq => absurd heq (by decide), fun _ => .warn h⟩
    | critical h => exact ⟨fun heq => absurd heq (by decide), fun _ => .critical h⟩
    | both h => exact ⟨fun heq => absurd heq (by decide), fun _ => .both h⟩
  · cases h with
    | nothing h =>
        exact ⟨fun _ => .critical (by rw [List.map_cons, hl, h]), fun hne => absurd rfl hne⟩
    | warn h => exact ⟨fun _ => .both (by rw [List.map_cons, hl, h]), fun hne => absurd rfl hne⟩
    | critical h => exact ⟨fun heq => absurd heq (by decide), fun _ => .critical h⟩
    | both h => exact ⟨fun heq => absurd heq (by decide), fun _ => .both h⟩
  · exact absurd hl hlevel

/-- After the step its flag is up. -/
theorem Told.raised {n : Nat} {e : List (WatermarkEvent w)} (h : Told n e) {level : WatermarkLevel}
    (hlevel : level ≠ .oom) :
    (n ||| (Watermark.raises level).1) &&& (Watermark.raises level).2 ≠ 0 := by
  rcases level with _ | _ | _
  · cases h <;> decide
  · cases h <;> decide
  · exact absurd rfl hlevel

/-- A flag that is up stands for a level that has been told, its own or a graver one. -/
theorem Told.exists_event {n : Nat} {e : List (WatermarkEvent w)} (h : Told n e)
    {level : WatermarkLevel} (hup : n &&& (Watermark.raises level).2 ≠ 0) (hlevel : level ≠ .oom) :
    ∃ event ∈ e, event.level = level ∨ event.level = .critical := by
  have hfind : ∀ {l}, l ∈ e.map WatermarkEvent.level → l = level ∨ l = .critical →
      ∃ event ∈ e, event.level = level ∨ event.level = .critical := by
    intro l hmem hl
    obtain ⟨event, hevent, rfl⟩ := List.mem_map.mp hmem
    exact ⟨event, hevent, hl⟩
  cases h with
  | nothing h => exact absurd (Nat.zero_and _) hup
  | critical h => exact hfind (h ▸ List.mem_singleton_self _) (Or.inr rfl)
  | both h => exact hfind (h ▸ List.mem_cons_self) (Or.inr rfl)
  | warn h =>
      refine hfind (h ▸ List.mem_singleton_self _) (Or.inl ?_)
      rcases level with _ | _ | _
      · rfl
      · exact absurd rfl hup
      · exact absurd rfl hlevel

structure Inv (reported : Nat) (t : WatermarkThresholds) (s : WatermarkRun w) : Prop where
  books : Books WatermarkPc.holds WatermarkPc.counted s.inner s.mark.allocated s.live s.calls
  thresholds_eq : s.mark.thresholds = t
  gate_eq : s.mark.warnThresholdBytes =
    (Watermark.withThresholds w (some reported) t).warnThresholdBytes
  construction_eq : s.mark.capacityBytes = reported
  capacity_le : reported ≤ s.currentCapacity
  told : ∃ e es, s.epochs = e :: es ∧ Told s.mark.fired e ∧ ∀ e' ∈ es, Orderly e'
  levels : ∀ g event, .fire g event ∈ s.calls → event.level ≠ .oom

theorem inv_init (inner : Ledger w) (reported : Nat) (t : WatermarkThresholds) :
    Inv reported t (init inner (some reported) t) where
  books := Books.init inner
  thresholds_eq := rfl
  gate_eq := rfl
  construction_eq := rfl
  capacity_le := le_rfl
  told := ⟨[], [], rfl, .nothing rfl, List.forall_mem_nil _⟩
  levels := fun _ _ h => by cases h

/-- A step that changes the shared state from `s` to `u` and the place of the call. -/
theorem Inv.move {u : WatermarkRun w} {next : Option (WatermarkPc w)} {back : List (Grant w)}
    (hi : Inv reported t s) (hc : s.calls[i]? = some c) (hcalls : u.calls = s.calls)
    (hlive : u.live = s.live) (hreported : u.reported = s.reported)
    (hmark : { u.mark with allocated := 0, fired := 0 } =
      { s.mark with allocated := 0, fired := 0 })
    (hholds : (c.holds ++ u.inner.grants).Perm
      (s.inner.grants ++ (back ++ next.toList.flatMap WatermarkPc.holds)))
    (hcounted : sizes c.counted + u.mark.allocated =
      s.mark.allocated + sizes (back ++ next.toList.flatMap WatermarkPc.counted))
    (htold : ∃ e es, u.epochs = e :: es ∧ Told u.mark.fired e ∧ ∀ e' ∈ es, Orderly e')
    (hlevels : ∀ g event, next = some (.fire g event) → event.level ≠ .oom) :
    Inv reported t (u.move i next back) := by
  simp only [Watermark.mk.injEq] at hmark
  obtain ⟨hthresholds, hcapacity, hgate, -, -⟩ := hmark
  refine ⟨?_, hthresholds.trans hi.thresholds_eq, hgate.trans hi.gate_eq,
    hcapacity.trans hi.construction_eq, ?_, htold, fun g event hmem => ?_⟩
  · show Books _ _ u.inner u.mark.allocated (back ++ u.live) (replace u.calls i next)
    rw [hlive, hcalls]
    exact hi.books.move hc hholds hcounted
  · show reported ≤ u.reported.getD u.mark.capacityBytes
    rw [hreported, hcapacity]
    exact hi.capacity_le
  · have hmem' : .fire g event ∈ replace s.calls i next := hcalls ▸ hmem
    rcases mem_replace hmem' with hnext | hold
    · exact hlevels g event hnext
    · exact hi.levels g event hold

theorem Inv.innerStep (hi : Inv reported t s) (hc : s.calls[i]? = some c) {r : Option Block}
    (hstep : s.innerStep i r c = some s') : Inv reported t s' := by
  cases c with
  | allocate l =>
      cases r with
      | none =>
          cases hstep
          exact hi.move hc rfl rfl rfl rfl (by simp) (by simp) hi.told (by simp)
      | some b =>
          simp only [WatermarkRun.innerStep, Option.map_eq_some_iff] at hstep
          obtain ⟨inner, hissue, rfl⟩ := hstep
          refine hi.move hc rfl rfl rfl rfl ?_ (by simp) hi.told (by simp)
          have hgrants := (Ledger.issue_eq_some hissue).1
          have hperm : ([⟨b, l⟩] ++ s.inner.grants : List (Grant w)).Perm
              (s.inner.grants ++ [⟨b, l⟩]) := List.perm_append_comm
          show inner.grants.Perm (s.inner.grants ++ [⟨b, l⟩])
          rw [hgrants]
          exact hperm
  | _ => cases hstep

theorem Inv.advanceStep (hi : Inv reported t s) (hc : s.calls[i]? = some c)
    (hstep : s.advanceStep i c = some s') : Inv reported t s' := by
  have hkeep : ∀ g : Grant w, ([g] ++ s.inner.grants).Perm (s.inner.grants ++ [g]) :=
    fun g => List.perm_append_comm
  cases c with
  | addBytes g =>
      have hadd := hi.books.add_lt WatermarkPc.counted_sublist hc (List.Sublist.refl _)
      simp only [WatermarkRun.advanceStep] at hstep
      split at hstep
      · cases hstep
        refine hi.move hc rfl rfl rfl rfl (hkeep g) ?_ hi.told (by simp)
        simp [wrappingAdd_of_lt hadd]
      · cases hstep
        refine hi.move hc rfl rfl rfl rfl (hkeep g) ?_ hi.told (by simp)
        simp [wrappingAdd_of_lt hadd]
  | readCapacity g newBytes =>
      simp only [WatermarkRun.advanceStep] at hstep
      split at hstep
      case h_1 =>
          cases hstep
          exact hi.move hc rfl rfl rfl rfl (hkeep g) (Nat.add_comm _ _) hi.told (by simp)
      case h_2 level hcheck =>
          cases hstep
          refine hi.move hc rfl rfl rfl rfl (hkeep g) (Nat.add_comm _ _) hi.told ?_
          rintro g' event hnext
          cases hnext
          exact check_ne_oom hcheck
  | fire g event =>
      obtain ⟨e, es, hepochs, htold, hrest⟩ := hi.told
      have hlevel := hi.levels g event (List.mem_of_getElem? hc)
      obtain ⟨hdown, hup⟩ := htold.fire hlevel
      simp only [WatermarkRun.advanceStep] at hstep
      split at hstep
      case isTrue hzero =>
          cases hstep
          refine hi.move hc rfl rfl rfl rfl (hkeep g) (Nat.add_comm _ _) ?_ (by simp)
          exact ⟨event :: e, es, by rw [hepochs]; rfl, hdown hzero, hrest⟩
      case isFalse hne =>
          cases hstep
          exact hi.move hc rfl rfl rfl rfl (hkeep g) (Nat.add_comm _ _)
            ⟨e, es, hepochs, hup hne, hrest⟩ (by simp)
  | readOom l cur =>
      cases hstep
      exact hi.move hc rfl rfl rfl rfl (by simp) (by simp) hi.told (by simp)
  | subBytes g =>
      cases hstep
      have hg : g ∈ WatermarkPc.counted (.subBytes g) := List.mem_cons_self
      have hle := hi.books.size_le (List.mem_of_getElem? hc) hg
      have hsub := wrappingSub_of_le hle (hi.books.counter_lt WatermarkPc.counted_sublist)
      refine hi.move hc rfl rfl rfl rfl (hkeep g) ?_ hi.told (by simp)
      simp only [hsub]
      simp
      omega
  | deallocate g =>
      cases hstep
      have hg : g ∈ s.inner.grants :=
        hi.books.mem_grants (List.mem_of_getElem? hc) List.mem_cons_self
      refine hi.move hc rfl rfl rfl rfl ?_ (by simp) hi.told (by simp)
      show (g :: s.inner.grants.erase g).Perm (s.inner.grants ++ [])
      rw [List.append_nil]
      exact (List.perm_cons_erase hg).symm
  | _ => cases hstep
where
  check_ne_oom {t : WatermarkThresholds} {newBytes capacity : Nat} {level : WatermarkLevel}
      (h : Watermark.check t newBytes capacity = some level) : level ≠ .oom := by
    rintro rfl
    simp only [Watermark.check] at h
    split at h
    · cases h
    · split at h
      · cases h
      · split at h <;> cases h

theorem Inv.step (hi : Inv reported t s) {e : WatermarkStep w} (hstep : s.step e = some s') :
    Inv reported t s' := by
  cases e with
  | allocate l =>
      cases hstep
      exact { hi with
        books := hi.books.start (List.Perm.refl _) rfl rfl
        levels := fun g event hmem =>
          hi.levels g event ((List.mem_cons.mp hmem).resolve_left (by simp)) }
  | deallocate j =>
      simp only [WatermarkRun.step] at hstep
      split at hstep
      case h_1 => cases hstep
      case h_2 g hg =>
          cases hstep
          exact { hi with
            books := hi.books.start (perm_cons_eraseIdx hg : s.live.Perm ([g] ++ _)) rfl rfl
            levels := fun g event hmem =>
              hi.levels g event ((List.mem_cons.mp hmem).resolve_left (by simp)) }
  | rearm =>
      cases hstep
      obtain ⟨e, es, hepochs, htold, hrest⟩ := hi.told
      refine { hi with told := ⟨[], s.epochs, rfl, .nothing rfl, ?_⟩ }
      rw [hepochs]
      exact List.forall_mem_cons.mpr ⟨htold.orderly, hrest⟩
  | report c =>
      simp only [WatermarkRun.step] at hstep
      split at hstep
      case isTrue hle =>
          cases hstep
          exact { hi with capacity_le := hi.construction_eq ▸ hle }
      case isFalse => cases hstep
  | inner i r =>
      obtain ⟨c, hc, hstep⟩ := Option.bind_eq_some_iff.mp hstep
      exact hi.innerStep hc hstep
  | load i v =>
      simp only [WatermarkRun.step] at hstep
      split at hstep
      case h_1 l hc =>
          split at hstep
          · cases hstep
            exact hi.move hc rfl rfl rfl rfl (by simp) (by simp) hi.told (by simp)
          · cases hstep
      case h_2 => cases hstep
  | advance i =>
      obtain ⟨c, hc, hstep⟩ := Option.bind_eq_some_iff.mp hstep
      exact hi.advanceStep hc hstep

theorem Inv.run (hi : Inv reported t s) {es : List (WatermarkStep w)}
    (hrun : Machine.run WatermarkRun.step s es = some s') : Inv reported t s' :=
  Machine.run_invariant (fun _ _ _ hi hstep => hi.step hstep) hi hrun

/-- A count that meets a threshold passes the gate, whatever capacity the check will find. -/
theorem Inv.gate_passed (hi : Inv reported t s) (hreported : reported < 2 ^ w - 1) {g : Grant w}
    (hc : s.calls[i]? = some (.addBytes g)) {capacity : Nat} (hcapacity : reported ≤ capacity)
    (hmeets : (Watermark.check t (saturatingAdd w s.mark.allocated g.layout.size)
      capacity).isSome) :
    ∃ s', s.step (.advance i) = some s' ∧
      .readCapacity g (saturatingAdd w s.mark.allocated g.layout.size) ∈ s'.calls := by
  have hgate : s.mark.warnThresholdBytes ≤ saturatingAdd w s.mark.allocated g.layout.size :=
    hi.gate_eq.trans_le (Watermark.gate_le hreported hcapacity hmeets)
  have hmem : .readCapacity g (saturatingAdd w s.mark.allocated g.layout.size) ∈
      replace s.calls i (some (.readCapacity g (saturatingAdd w s.mark.allocated g.layout.size))) :=
    mem_replace_self rfl
  have hstep : s.step (.advance i) = s.advanceStep i (.addBytes g) := by
    rw [WatermarkRun.step, hc, Option.bind_some]
  rw [WatermarkRun.advanceStep, if_pos hgate] at hstep
  exact ⟨_, hstep, hmem⟩

/-- A check that finds a level goes on to raise its flag. -/
theorem Inv.check_found (hi : Inv reported t s) {g : Grant w} {newBytes : Nat}
    (hc : s.calls[i]? = some (.readCapacity g newBytes)) {level : WatermarkLevel}
    (hcheck : Watermark.check t newBytes s.currentCapacity = some level) :
    ∃ s', s.step (.advance i) = some s' ∧
      .fire g ⟨level, newBytes, s.currentCapacity, none⟩ ∈ s'.calls := by
  have hstep : s.step (.advance i) = s.advanceStep i (.readCapacity g newBytes) := by
    rw [WatermarkRun.step, hc, Option.bind_some]
  simp only [WatermarkRun.advanceStep, hi.thresholds_eq, hcheck] at hstep
  exact ⟨_, hstep, mem_replace_self rfl⟩

/-- **The handler has been told**, now or since the last rearm, and the flag says so. -/
theorem Inv.fired (hi : Inv reported t s) {g : Grant w} {event : WatermarkEvent w}
    (hc : s.calls[i]? = some (.fire g event)) :
    ∃ s', s.step (.advance i) = some s' ∧
      s'.mark.fired &&& (Watermark.raises event.level).2 ≠ 0 ∧
      ∃ e es, s'.epochs = e :: es ∧
        (∃ event' ∈ e, event'.level = event.level ∨ event'.level = .critical) ∧
        (s.mark.fired &&& (Watermark.raises event.level).2 = 0 → event ∈ e) := by
  obtain ⟨e, es, hepochs, htold, -⟩ := hi.told
  have hlevel := hi.levels g event (List.mem_of_getElem? hc)
  obtain ⟨hdown, hup⟩ := htold.fire hlevel
  have hraised := htold.raised hlevel
  have hstep : s.step (.advance i) = s.advanceStep i (.fire g event) := by
    rw [WatermarkRun.step, hc, Option.bind_some]
  simp only [WatermarkRun.advanceStep] at hstep
  -- a flag that was up already was told of when it was raised
  by_cases hzero : s.mark.fired &&& (Watermark.raises event.level).2 = 0
  · rw [if_pos hzero] at hstep
    refine ⟨_, hstep, hraised, event :: e, es, ?_, (hdown hzero).exists_event hraised hlevel,
      fun _ => List.mem_cons_self⟩
    show tell event s.epochs = _
    rw [hepochs]
    rfl
  · rw [if_neg hzero] at hstep
    exact ⟨_, hstep, hraised, e, es, hepochs, (hup hzero).exists_event hraised hlevel,
      fun hdown => absurd hdown hzero⟩

/-- **Runs of `Watermark`.** Between two rearms the handler is told of each level at most once, and
not of a warning after it has been told that the level is critical; the flags say what it has been
told since the last one. An allocation whose count meets a threshold under the current capacity, or
under any the inner allocator may report, goes on to the check; where the check finds a level its
flag is raised, and the handler is told of it if the flag was down. Whenever no call is in flight the
counter is the sum of the layout sizes of the live blocks. -/
theorem watermark_run_correct (hreported : reported < 2 ^ w - 1) {es : List (WatermarkStep w)}
    (hrun : Machine.run WatermarkRun.step (init inner (some reported) t) es = some s) :
    (∀ e ∈ s.epochs, Orderly e) ∧
    reported ≤ s.currentCapacity ∧
    (∀ i g, s.calls[i]? = some (.addBytes g) → ∀ capacity, reported ≤ capacity →
      (Watermark.check t (saturatingAdd w s.mark.allocated g.layout.size) capacity).isSome →
      ∃ s', s.step (.advance i) = some s' ∧
        .readCapacity g (saturatingAdd w s.mark.allocated g.layout.size) ∈ s'.calls) ∧
    (s.calls = [] → s.mark.allocated = sizes s.live) ∧
    (∃ e es, s.epochs = e :: es ∧ Told s.mark.fired e) ∧
    (∀ i g newBytes level, s.calls[i]? = some (.readCapacity g newBytes) →
      Watermark.check t newBytes s.currentCapacity = some level →
      ∃ s', s.step (.advance i) = some s' ∧
        .fire g ⟨level, newBytes, s.currentCapacity, none⟩ ∈ s'.calls) ∧
    ∀ i g event, s.calls[i]? = some (.fire g event) →
      ∃ s', s.step (.advance i) = some s' ∧
        s'.mark.fired &&& (Watermark.raises event.level).2 ≠ 0 ∧
        ∃ e es, s'.epochs = e :: es ∧
          (∃ event' ∈ e, event'.level = event.level ∨ event'.level = .critical) ∧
          (s.mark.fired &&& (Watermark.raises event.level).2 = 0 → event ∈ e) := by
  have hi : Inv reported t s := (inv_init inner reported t).run hrun
  obtain ⟨e, es, hepochs, htold, hrest⟩ := hi.told
  refine ⟨?_, hi.capacity_le, fun i g hc capacity hle hmeets =>
    hi.gate_passed hreported hc hle hmeets, fun hquiet => ?_, ⟨e, es, hepochs, htold⟩,
    fun i g newBytes level hc hcheck => hi.check_found hc hcheck, fun i g event hc => hi.fired hc⟩
  · rw [hepochs]
    exact List.forall_mem_cons.mpr ⟨htold.orderly, hrest⟩
  · have hbooks := hi.books
    rw [hquiet] at hbooks
    exact hbooks.quiescent

/-- Sixteen bytes. -/
def watermarkLayout : NonZeroLayout 64 := .lit 64 16 4 (Eq.refl true)

/-- Two threads cross the thresholds 50 and 75 of a capacity of 32 bytes, the second before the first
has looked at the capacity. -/
def racingCrossings : List (WatermarkStep 64) :=
  [.allocate watermarkLayout, .inner 0 (some ⟨64, 16⟩), .advance 0,
    .allocate watermarkLayout, .inner 0 (some ⟨128, 16⟩), .advance 0,
    .advance 0, .advance 0, .advance 0, .advance 0]

theorem watermark_run_correct_racingCrossings :
    ∃ s, Machine.run WatermarkRun.step (init (Ledger.empty 64) (some 32) ⟨50, 75⟩)
        racingCrossings = some s ∧
      s.epochs.map (·.map WatermarkEvent.level) = [[.critical]] ∧
      s.mark.allocated = sizes s.live := by
  have hend : (Machine.run WatermarkRun.step (init (Ledger.empty 64) (some 32) ⟨50, 75⟩)
      racingCrossings).map (fun s => (s.calls.length, s.epochs.map (·.map WatermarkEvent.level)))
        = some (0, [[.critical]]) := by
    decide +kernel
  obtain ⟨s, hrun, hs⟩ := Option.map_eq_some_iff.mp hend
  obtain ⟨hlen, hepochs⟩ := Prod.mk.injEq .. ▸ hs
  obtain ⟨-, -, -, hquiet, -⟩ := watermark_run_correct (by decide) hrun
  exact ⟨s, hrun, hepochs, hquiet (List.length_eq_zero_iff.mp hlen)⟩

end WatermarkRun

end ForgeAlloc
