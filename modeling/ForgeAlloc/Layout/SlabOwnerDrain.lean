import ForgeAlloc.Layout.SlabOwnerRun

set_option autoImplicit false

/-! # Does an owner that only frees drain a full queue?

A remote that frees through `SlabRemote::deallocate` spins while the queue is full. The owner frees
blocks of its own, and each of these calls is a tick of `maybe_drain`: here the load returns the
current length and the lock is free.

The queue holds at most `queue_capacity` entries, so a threshold above it is never reached. The
lowest threshold a policy can come to is `BatchPolicy.minThreshold`; if it is at most the capacity,
`BatchPolicy.drainBound` ticks empty a full queue, and otherwise no number of ticks does
(`full_queue_drained_iff`). The adaptive controller goes down one level every
`adaptiveCooldownTicks + 1` ticks while the queue is full, which `AdaptiveState.distance` counts.
-/

namespace ForgeAlloc

open MachineInt ByteMemory

variable {w : Nat} {β ρ : Type} {T : RustType w} {R : FixedRange β} {n : Nat}

/-- The lowest threshold of the policy. -/
def BatchPolicy.minThreshold : BatchPolicy → Nat
  | .fixed n => n
  | .adaptive => adaptiveLevels ⟨0, by decide⟩

/-- Ticks after which a full queue is drained, if it ever is. -/
def BatchPolicy.drainBound : BatchPolicy → Nat
  | .fixed _ => 1
  | .adaptive => 4 * (adaptiveCooldownTicks + 1)

namespace AdaptiveState

/-- Ticks on a full queue until the lowest level is left for good. -/
def distance (s : AdaptiveState) : Nat := s.step.val * (adaptiveCooldownTicks + 1) + s.cooldown

theorem distance_le {s : AdaptiveState} (hs : s.cooldown ≤ adaptiveCooldownTicks) :
    s.distance ≤ 4 * (adaptiveCooldownTicks + 1) + adaptiveCooldownTicks := by
  have hstep := s.step.isLt
  unfold distance adaptiveCooldownTicks at *
  omega

theorem minThreshold_le (s : AdaptiveState) : BatchPolicy.minThreshold .adaptive ≤ s.threshold := by
  have hlevels : ∀ k : Fin 5, adaptiveLevels 0 ≤ adaptiveLevels k := by decide
  exact hlevels s.step

theorem threshold_le_128 (s : AdaptiveState) : s.threshold ≤ 128 := by
  have hlevels : ∀ k : Fin 5, adaptiveLevels k ≤ 128 := by decide
  exact hlevels s.step

theorem threshold_of_distance_le {s : AdaptiveState} (hs : s.distance ≤ adaptiveCooldownTicks) :
    s.threshold = BatchPolicy.minThreshold .adaptive := by
  have hzero : s.step = 0 := by
    apply Fin.ext
    unfold distance adaptiveCooldownTicks at hs
    show s.step.val = 0
    omega
  exact congrArg adaptiveLevels hzero

/-- On a full queue that stays below the threshold, a tick is one step down the distance. -/
theorem distance_tick {s : AdaptiveState} {cap : Nat} (hw : 16 ≤ w) (hcap : 0 < cap)
    (hmin : BatchPolicy.minThreshold .adaptive ≤ cap)
    (hbelow : cap < (s.tick w cap cap).threshold) :
    (s.tick w cap cap).distance + 1 = s.distance := by
  have hpow : (2 : Nat) ^ 16 ≤ 2 ^ w := Nat.pow_le_pow_right (by decide) hw
  have hlt : cap < 128 := hbelow.trans_le (threshold_le_128 _)
  -- so small a capacity is far from saturation
  have h4 : saturatingMul w cap 4 = cap * 4 := saturatingMul_of_lt (by omega)
  have h3 : saturatingMul w cap 3 = cap * 3 := saturatingMul_of_lt (by omega)
  unfold tick at hbelow ⊢
  by_cases hcool : 0 < s.cooldown
  · rw [if_pos hcool]
    unfold distance
    simp only
    omega
  rw [if_neg hcool] at hbelow ⊢
  by_cases hstep : 0 < s.step.val
  · rw [if_pos ⟨by omega, hstep⟩]
    unfold distance adaptiveCooldownTicks
    simp only
    omega
  · -- at the lowest level the threshold is reached
    rw [if_neg (by omega), dif_neg (by omega)] at hbelow
    have hzero : s.step = 0 := Fin.ext (by simpa using hstep)
    have hthreshold : s.threshold = BatchPolicy.minThreshold .adaptive :=
      congrArg adaptiveLevels hzero
    omega

end AdaptiveState

/-! ## Ticks -/

namespace SlabOwner

variable {h : Heap (SlabOwner T β)} {cap : Nat}

/-- One `deallocate` of the owner after the other, with the lock free. -/
def ticks (R : FixedRange β) (es : List (RemoteEntry w)) (h : Heap (SlabOwner T β)) :
    Heap (SlabOwner T β) :=
  es.foldl (fun h e => deallocate R h.alloc.remoteQueueLen false e h) h

/-- What a drain leaves of the queue. -/
structure Drained (cap : Nat) (s : SlabOwner T β) : Prop where
  capacity_eq : s.queueCapacity = cap
  queue_eq : s.remoteQueue = []
  len_eq : s.remoteQueueLen = 0
  closed_eq : s.closed = false

/-- The queue holds `queue`, which is all it can hold. -/
structure Full (policy : BatchPolicy) (queue : List (RemoteEntry w)) (s : SlabOwner T β) :
    Prop where
  policy_eq : s.batchPolicy = policy
  queue_eq : s.remoteQueue = queue
  len_eq : s.remoteQueueLen = queue.length
  capacity_eq : s.queueCapacity = queue.length
  closed_eq : s.closed = false

/-- Freeing entries is a matter of the slab and the memory. -/
theorem Drained.freeAll (hd : Drained cap h.alloc) (entries : List (RemoteEntry w)) :
    Drained cap (freeAll R entries h).alloc := by
  induction entries generalizing h with
  | nil => exact hd
  | cons e rest ih =>
      have hnext : Drained cap (freeEntry R h e).alloc :=
        ⟨hd.capacity_eq, hd.queue_eq, hd.len_eq, hd.closed_eq⟩
      exact ih hnext

theorem deallocate_drained (hd : Drained cap h.alloc) (e : RemoteEntry w) :
    Drained cap (deallocate R h.alloc.remoteQueueLen false e h).alloc := by
  obtain ⟨st, hst, -⟩ := OwnerRun.threshold_eq h.alloc.remoteQueueLen h.alloc
  show Drained cap (freeEntry R (maybeDrain R h.alloc.remoteQueueLen false h) e).alloc
  simp only [maybeDrain, hst]
  split
  · exact ⟨hd.capacity_eq, hd.queue_eq, hd.len_eq, hd.closed_eq⟩
  · simp only [takeQueue, hd.queue_eq, List.isEmpty_nil, if_true]
    exact ⟨hd.capacity_eq, hd.queue_eq, hd.len_eq, hd.closed_eq⟩

/-- A tick drains a full queue if the threshold is at most the capacity. -/
theorem deallocate_full {policy : BatchPolicy} {queue : List (RemoteEntry w)}
    (hf : Full policy queue h.alloc) (hne : queue ≠ []) (e : RemoteEntry w) :
    let (t, s) := h.alloc.threshold queue.length
    let h' := deallocate R h.alloc.remoteQueueLen false e h
    if t ≤ queue.length then Drained queue.length h'.alloc
    else Full policy queue h'.alloc ∧ h'.alloc.adaptive = s.adaptive := by
  obtain ⟨st, hst, -⟩ := OwnerRun.threshold_eq queue.length h.alloc
  rcases hthreshold : h.alloc.threshold queue.length with ⟨t, s⟩
  rw [hthreshold] at hst
  simp only at hst
  subst hst
  show if t ≤ queue.length then
      Drained queue.length (freeEntry R (maybeDrain R h.alloc.remoteQueueLen false h) e).alloc
    else Full policy queue (freeEntry R (maybeDrain R h.alloc.remoteQueueLen false h) e).alloc ∧
      (freeEntry R (maybeDrain R h.alloc.remoteQueueLen false h) e).alloc.adaptive = st
  have hqueue := hf.queue_eq
  simp only [maybeDrain, hf.len_eq, hthreshold]
  by_cases hle : t ≤ queue.length
  · rw [if_pos hle, if_neg (Nat.not_lt.mpr hle)]
    have hnot : ¬ queue.isEmpty = true := by rwa [List.isEmpty_iff]
    simp only [takeQueue, hqueue, if_neg hnot]
    have htaken : Drained queue.length { h.alloc with
        adaptive := st, remoteQueue := [], remoteQueueLen := 0 } :=
      ⟨hf.capacity_eq, rfl, rfl, hf.closed_eq⟩
    have hd := Drained.freeAll (R := R) (h := ⟨_, h.mem⟩) htaken queue
    exact ⟨hd.capacity_eq, hd.queue_eq, hd.len_eq, hd.closed_eq⟩
  · rw [if_neg hle, if_pos (Nat.lt_of_not_le hle)]
    exact ⟨⟨hf.policy_eq, hf.queue_eq, hf.len_eq, hf.capacity_eq, hf.closed_eq⟩, rfl⟩

theorem Drained.tryDeallocate {s : SlabOwner T β} (hd : Drained cap s) (hcap : 1 ≤ cap)
    (e : RemoteEntry w) : (s.tryDeallocate e).1 = true := by
  have hopen : ¬ s.closed = true := by simp [hd.closed_eq]
  have hroom : ¬ s.queueCapacity ≤ s.remoteQueue.length := by
    rw [hd.capacity_eq, hd.queue_eq, List.length_nil]
    omega
  simp only [SlabOwner.tryDeallocate, if_neg hopen, if_neg hroom]

theorem Full.tryDeallocate {s : SlabOwner T β} {policy : BatchPolicy}
    {queue : List (RemoteEntry w)} (hf : Full policy queue s) (e : RemoteEntry w) :
    (s.tryDeallocate e).1 = false := by
  have hopen : ¬ s.closed = true := by simp [hf.closed_eq]
  have hfull : s.queueCapacity ≤ s.remoteQueue.length := by rw [hf.capacity_eq, hf.queue_eq]
  simp only [SlabOwner.tryDeallocate, if_neg hopen, if_pos hfull]

theorem ticks_drained (hd : Drained cap h.alloc) (es : List (RemoteEntry w)) :
    Drained cap (ticks R es h).alloc := by
  induction es generalizing h with
  | nil => exact hd
  | cons e es ih => exact ih (deallocate_drained hd e)

/-- Below the lowest threshold nothing is ever drained. -/
theorem ticks_stuck {policy : BatchPolicy} {queue : List (RemoteEntry w)}
    (hlt : queue.length < policy.minThreshold) (hne : queue ≠ []) (es : List (RemoteEntry w))
    (hf : Full policy queue h.alloc) : Full policy queue (ticks R es h).alloc := by
  induction es generalizing h with
  | nil => exact hf
  | cons e es ih =>
      apply ih
      have hmin : policy.minThreshold ≤ (h.alloc.threshold queue.length).1 := by
        unfold threshold
        rw [hf.policy_eq]
        cases policy with
        | fixed k => exact le_rfl
        | adaptive => exact AdaptiveState.minThreshold_le _
      have htick := deallocate_full (R := R) hf hne e
      simp only at htick
      rw [if_neg (by omega)] at htick
      exact htick.1

/-- A fixed threshold is reached at the first tick. -/
theorem ticks_fixed {k : Nat} {queue : List (RemoteEntry w)} (hle : k ≤ queue.length)
    (hne : queue ≠ []) (e : RemoteEntry w) (hf : Full (.fixed k) queue h.alloc) :
    Drained queue.length (ticks R [e] h).alloc := by
  have htick := deallocate_full (R := R) hf hne e
  have hk : (h.alloc.threshold queue.length).1 = k := by
    unfold threshold
    rw [hf.policy_eq]
  simp only at htick
  rw [if_pos (hk.le.trans hle)] at htick
  exact htick

theorem threshold_adaptive {s : SlabOwner T β} (hs : s.batchPolicy = .adaptive) (pending : Nat) :
    s.threshold pending = ((s.adaptive.tick w s.queueCapacity pending).threshold,
      { s with adaptive := s.adaptive.tick w s.queueCapacity pending }) := by
  unfold threshold
  split
  case h_1 hfixed =>
      rw [hs] at hfixed
      cases hfixed
  case h_2 => rfl

/-- The adaptive threshold comes down a step at a time. -/
theorem ticks_adaptive {queue : List (RemoteEntry w)} (hw : 16 ≤ w)
    (hle : BatchPolicy.minThreshold .adaptive ≤ queue.length) (es : List (RemoteEntry w))
    (hf : Full .adaptive queue h.alloc) :
    Drained queue.length (ticks R es h).alloc ∨
      (Full .adaptive queue (ticks R es h).alloc ∧
        (ticks R es h).alloc.adaptive.distance + es.length = h.alloc.adaptive.distance ∧
        (es ≠ [] → queue.length < (ticks R es h).alloc.adaptive.threshold)) := by
  have hne : queue ≠ [] := by
    rintro rfl
    exact absurd hle (by show ¬ (8 ≤ 0); decide)
  induction es generalizing h with
  | nil => exact Or.inr ⟨hf, rfl, fun hnil => absurd rfl hnil⟩
  | cons e es ih =>
      have hthreshold := threshold_adaptive hf.policy_eq queue.length
      rw [hf.capacity_eq] at hthreshold
      have htick := deallocate_full (R := R) hf hne e
      rw [hthreshold] at htick
      simp only at htick
      by_cases hreached :
          (h.alloc.adaptive.tick w queue.length queue.length).threshold ≤ queue.length
      · rw [if_pos hreached] at htick
        exact Or.inl (ticks_drained htick es)
      · rw [if_neg hreached] at htick
        obtain ⟨hf', hadaptive⟩ := htick
        have hdist := AdaptiveState.distance_tick hw (List.length_pos_iff.mpr hne) hle
          (Nat.lt_of_not_le hreached)
        rcases ih hf' with hdrained | ⟨hfull, hsum, hbelow⟩
        · exact Or.inl hdrained
        · refine Or.inr ⟨hfull, ?_, fun _ => ?_⟩
          · rw [hadaptive] at hsum
            rw [List.length_cons, ← hdist, ← hsum]
            rfl
          · by_cases hes : es = []
            · subst hes
              show queue.length < AdaptiveState.threshold
                (deallocate R h.alloc.remoteQueueLen false e h).alloc.adaptive
              rw [hadaptive]
              exact Nat.lt_of_not_le hreached
            · exact hbelow hes

end SlabOwner

namespace OwnerRun

variable {s s' : OwnerRun T β} {policy : BatchPolicy} {qcap : Nat}

/-! ## The calls without interference are runs of the machine -/

theorem run_free {c : OwnerCall w} (entries : List (RemoteEntry w)) {s : OwnerRun T β}
    (hpc : s.pc = .free entries c) :
    Machine.run (step (ρ := ρ) R) s (List.replicate entries.length .advance) =
      some { s with
        heap := SlabOwner.freeAll R entries s.heap
        pc := .free [] c
        returned := s.returned ++ entries } := by
  induction entries generalizing s with
  | nil =>
      show some s = _
      rw [← hpc, List.append_nil]
      rfl
  | cons e rest ih =>
      rw [List.length_cons, List.replicate_succ, Machine.run_cons]
      simp only [step, hpc, Option.bind_some]
      rw [ih rfl]
      simp [SlabOwner.freeAll, List.append_assoc]

/-- A call of `deallocate` during which no remote runs. -/
theorem run_deallocate (hi : Inv R n policy qcap s) (hidle : s.pc = .idle) {e : RemoteEntry w}
    (he : e ∈ s.live) :
    ∃ (ops : List (OwnerStep w ρ)) (s' : OwnerRun T β),
      Machine.run (step R) s (.call (.deallocate e) :: ops) = some s' ∧ s'.pc = .idle ∧
        s'.live = s.live.erase e ∧
        s'.heap = SlabOwner.deallocate R s.heap.alloc.remoteQueueLen false e s.heap := by
  rcases hthreshold : s.heap.alloc.threshold s.heap.alloc.remoteQueueLen with ⟨t, o⟩
  by_cases hlt : s.heap.alloc.remoteQueueLen < t
  · refine ⟨[.load s.heap.alloc.remoteQueueLen, .advance], { s with
      heap := SlabOwner.freeEntry R ⟨o, s.heap.mem⟩ e, pc := .idle, live := s.live.erase e },
      ?_, rfl, rfl, ?_⟩
    · simp [Machine.run_cons, step, start, finish, hidle, he, hi.mirror_mem, hthreshold, hlt]
    · simp only [SlabOwner.deallocate, SlabOwner.maybeDrain, hthreshold, if_pos hlt]
  · rcases htake : o.takeQueue with ⟨entries, o'⟩
    let drained : OwnerRun T β := unlock { s with
      heap := ⟨o', s.heap.mem⟩, live := s.live.erase e, pc := .free entries (.deallocate e) }
    have hstart : Machine.run (step (ρ := ρ) R) s [.call (.deallocate e),
        .load s.heap.alloc.remoteQueueLen, .tryLock false] = some drained := by
      simp [Machine.run_cons, step, start, snapshot, hidle, he, hi.mirror_mem, hthreshold, hlt,
        htake, drained]
    have hfree := run_free (ρ := ρ) (R := R) entries (s := drained) rfl
    let final : OwnerRun T β := { drained with
      heap := SlabOwner.freeEntry R (SlabOwner.freeAll R entries ⟨o', s.heap.mem⟩) e, pc := .idle
      returned := s.returned ++ entries }
    let frees : List (OwnerStep w ρ) := List.replicate entries.length .advance ++ [.advance]
    have hrest : Machine.run (step (ρ := ρ) R) drained frees = some final := by
      rw [Machine.run_append, hfree]
      rfl
    have hrun : Machine.run (step (ρ := ρ) R) s ([.call (.deallocate e),
        .load s.heap.alloc.remoteQueueLen, .tryLock false] ++ frees) = some final := by
      rw [Machine.run_append, hstart, Option.bind_some, hrest]
    refine ⟨_, final, hrun, rfl, rfl, ?_⟩
    simp only [SlabOwner.deallocate, SlabOwner.maybeDrain, hthreshold, if_neg hlt, htake,
      Bool.false_eq_true, if_false, final]

theorem Inv.full (hi : Inv R n policy qcap s) (hidle : s.pc = .idle)
    (hfull : s.heap.alloc.remoteQueue.length = qcap) :
    SlabOwner.Full policy s.heap.alloc.remoteQueue s.heap.alloc where
  policy_eq := hi.policy_eq
  queue_eq := rfl
  len_eq := hi.len_eq
  capacity_eq := hi.capacity_eq.trans hfull.symm
  closed_eq := by
    rw [hi.closed_eq, hidle]
    rfl

/-- A threshold that the queue cannot reach. -/
theorem Inv.stuck (hi : Inv R n policy qcap s) (hidle : s.pc = .idle) (hqcap : 1 ≤ qcap)
    (hfull : s.heap.alloc.remoteQueue.length = qcap) (hlt : qcap < policy.minThreshold)
    (es : List (RemoteEntry w)) :
    (SlabOwner.ticks R es s.heap).alloc.remoteQueue = s.heap.alloc.remoteQueue ∧
      ∀ e, ((SlabOwner.ticks R es s.heap).alloc.tryDeallocate e).1 = false := by
  have hne : s.heap.alloc.remoteQueue ≠ [] := by
    rw [← List.length_pos_iff]
    omega
  have hf := SlabOwner.ticks_stuck (R := R) (hfull.symm ▸ hlt) hne es (hi.full hidle hfull)
  exact ⟨hf.queue_eq, fun e => hf.tryDeallocate e⟩

/-- **When an owner that only frees empties a full queue.** In every reachable state in which the
owner is between two calls and the queue is full, `drainBound` calls of `deallocate` drain it
exactly when the lowest threshold of the policy is at most the capacity of the queue. Then a
waiting remote gets through; otherwise the queue stays as it is however many calls follow. -/
theorem full_queue_drained_iff {A : Allocator w β} {BInv : Heap β → Set (Grant w) → Prop}
    {L : Set (Grant w)} (hA : HonoursRange A R BInv) {g : Heap β} (hinv : BInv g L)
    (hw : 16 ≤ w) (hqcap : 1 ≤ qcap) {h : Heap (SlabOwner T β)}
    (hnew : SlabOwner.withBatchPolicy A R T n policy qcap g = some h) {b : β}
    (hb : SlabOwner.MayMoveTo w R h.alloc.slab.backing b) {ops : List (OwnerStep w ρ)}
    (hrun : Machine.run (step R) (init (SlabOwner.intoArc R b h)) ops = some s)
    (hidle : s.pc = .idle) (hfull : s.heap.alloc.remoteQueue.length = qcap) :
    ((∀ es : List (RemoteEntry w), es.length = policy.drainBound →
        (SlabOwner.ticks R es s.heap).alloc.remoteQueue = [] ∧
          ∀ e, ((SlabOwner.ticks R es s.heap).alloc.tryDeallocate e).1 = true) ↔
      policy.minThreshold ≤ qcap) ∧
    (qcap < policy.minThreshold → ∀ es : List (RemoteEntry w),
      (SlabOwner.ticks R es s.heap).alloc.remoteQueue = s.heap.alloc.remoteQueue ∧
        ∀ e, ((SlabOwner.ticks R es s.heap).alloc.tryDeallocate e).1 = false) := by
  have hi := inv_run (inv_init hA hinv hnew hb) hrun
  have hf := hi.full hidle hfull
  have hne : s.heap.alloc.remoteQueue ≠ [] := by
    rw [← List.length_pos_iff]
    omega
  have hstuck := hi.stuck hidle hqcap hfull
  refine ⟨⟨fun hdrains => ?_, fun hle es hes => ?_⟩, hstuck⟩
  · by_contra hnot
    obtain ⟨e, rest, hqueue⟩ := List.exists_cons_of_ne_nil hne
    have hempty := (hdrains (List.replicate policy.drainBound e) List.length_replicate).1
    rw [(hstuck (Nat.lt_of_not_le hnot) _).1] at hempty
    exact hne hempty
  · have hdrained : SlabOwner.Drained qcap (SlabOwner.ticks R es s.heap).alloc := by
      rw [← hfull] at hle ⊢
      cases policy with
      | fixed k =>
          obtain ⟨e, rfl⟩ := List.length_eq_one_iff.mp hes
          exact SlabOwner.ticks_fixed hle hne e hf
      | adaptive =>
          rcases SlabOwner.ticks_adaptive hw hle es hf with hd | ⟨-, hsum, hbelow⟩
          · exact hd
          · -- after so many ticks the controller is at the lowest level
            have hmax := AdaptiveState.distance_le hi.cooldown_le
            have hbound : es.length = 4 * (adaptiveCooldownTicks + 1) := hes
            have hne' : es ≠ [] := by
              rw [← List.length_pos_iff]
              omega
            have hlowest := AdaptiveState.threshold_of_distance_le
              (s := (SlabOwner.ticks R es s.heap).alloc.adaptive) (by omega)
            have := hbelow hne'
            omega
    exact ⟨hdrained.queue_eq, fun e => hdrained.tryDeallocate hqcap e⟩

/-- Two blocks are issued and freed by a remote. -/
def twoQueued : List (OwnerStep 16 Unit) :=
  [.call (.allocate SlabRun.layout8), .load 0, .advance,
    .call (.allocate SlabRun.layout8), .load 0, .advance,
    .tryDeallocate () ⟨80, SlabRun.layout8⟩, .tryDeallocate () ⟨88, SlabRun.layout8⟩]

def twoEntries : List (RemoteEntry 16) := [⟨80, SlabRun.layout8⟩, ⟨88, SlabRun.layout8⟩]

theorem owner3_new (policy : BatchPolicy) (qcap : Nat) :
    SlabOwner.withBatchPolicy (BumpArena.allocator 16 SlabRun.movable)
      (BumpArena.range SlabRun.movable) SlabRun.word8 3 policy qcap ⟨⟨0, 64, 0⟩, fun _ => 0⟩ =
      some (owner3 policy qcap) := rfl

/-- With the threshold 2 the owner's next call drains the two entries. -/
theorem full_queue_drained_iff_fixed2 :
    ∃ s, Machine.run (step (BumpArena.range SlabRun.movable))
        (init (SlabOwner.intoArc (BumpArena.range SlabRun.movable) ⟨4, 64, 24⟩
          (owner3 (.fixed 2) 2))) twoQueued = some s ∧ s.heap.alloc.remoteQueue = twoEntries ∧
      (SlabOwner.ticks (BumpArena.range SlabRun.movable) [⟨96, SlabRun.layout8⟩]
        s.heap).alloc.remoteQueue = [] := by
  have hresult : (Machine.run (step (BumpArena.range SlabRun.movable))
      (init (SlabOwner.intoArc (BumpArena.range SlabRun.movable) ⟨4, 64, 24⟩
        (owner3 (.fixed 2) 2))) twoQueued).map (fun s => (s.pc, s.heap.alloc.remoteQueue)) =
      some (.idle, twoEntries) := rfl
  obtain ⟨s, hrun, hs⟩ := Option.map_eq_some_iff.mp hresult
  have hidle : s.pc = .idle := congrArg Prod.fst hs
  have hqueue : s.heap.alloc.remoteQueue = twoEntries := congrArg Prod.snd hs
  have hiff := full_queue_drained_iff
    (BumpArena.honours SlabRun.movable_lawful 16 (by decide)) (BumpArena.holds_new (b := 0) rfl _)
    (by decide) (by decide) (owner3_new (.fixed 2) 2) mayMoveTo_80 hrun hidle
    (congrArg List.length hqueue)
  exact ⟨s, hrun, hqueue, (hiff.1.mpr (by decide) [⟨96, SlabRun.layout8⟩] rfl).1⟩

/-- Under this policy a queue of two entries stays full however many blocks the owner frees. -/
def StaysFull (policy : BatchPolicy) : Prop :=
  ∃ s, Machine.run (step (BumpArena.range SlabRun.movable))
      (init (SlabOwner.intoArc (BumpArena.range SlabRun.movable) ⟨4, 64, 24⟩ (owner3 policy 2)))
        twoQueued = some s ∧ s.pc = .idle ∧ s.heap.alloc.remoteQueue = twoEntries ∧
    ∀ es, (SlabOwner.ticks (BumpArena.range SlabRun.movable) es s.heap).alloc.remoteQueue =
        twoEntries ∧
      ∀ e, ((SlabOwner.ticks (BumpArena.range SlabRun.movable) es s.heap).alloc.tryDeallocate e).1
        = false

theorem staysFull_of {policy : BatchPolicy} (hpolicy : policy = .fixed 64 ∨ policy = .adaptive) :
    StaysFull policy := by
  have hresult : (Machine.run (step (BumpArena.range SlabRun.movable))
      (init (SlabOwner.intoArc (BumpArena.range SlabRun.movable) ⟨4, 64, 24⟩
        (owner3 policy 2))) twoQueued).map (fun s => (s.pc, s.heap.alloc.remoteQueue)) =
      some (.idle, twoEntries) := by
    rcases hpolicy with rfl | rfl
    · rfl
    · rfl
  obtain ⟨s, hrun, hs⟩ := Option.map_eq_some_iff.mp hresult
  have hidle : s.pc = .idle := congrArg Prod.fst hs
  have hqueue : s.heap.alloc.remoteQueue = twoEntries := congrArg Prod.snd hs
  have hinit := inv_init (BumpArena.honours SlabRun.movable_lawful 16 (by decide))
    (BumpArena.holds_new (b := 0) rfl _) (owner3_new policy 2) mayMoveTo_80
  have hlt : 2 < policy.minThreshold := by
    rcases hpolicy with rfl | rfl
    · decide
    · decide
  refine ⟨s, hrun, hidle, hqueue, fun es => ?_⟩
  have hstuck := (inv_run hinit hrun).stuck hidle (by decide) (congrArg List.length hqueue) hlt es
  rw [hqueue] at hstuck
  exact hstuck

/-- The default threshold 64, and every level of the adaptive policy, are out of reach. -/
theorem full_queue_stuck : StaysFull (.fixed 64) ∧ StaysFull .adaptive :=
  ⟨staysFull_of (Or.inl rfl), staysFull_of (Or.inr rfl)⟩

end OwnerRun

end ForgeAlloc
