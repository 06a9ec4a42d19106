import ForgeAlloc.Hardening.Statistics
import ForgeAlloc.Library.Run

set_option autoImplicit false

/-! # Runs of `Statistics`

The invariant has three parts. `Books` ties the byte counter to the blocks that are out, `Tallies`
the two totals to the blocks counted, and `HighWater` the peak to the values the byte counter has
had: each of them is at most the peak, or at most the value that a call in flight is about to raise
the peak to.

Each part has one rule for the step of a call, which asks what the step does to the call alone.
-/

namespace ForgeAlloc

open MachineInt ByteMemory InFlight StatsPc

namespace StatsRun

variable {w : Nat} {s s' : StatsRun w} {i : Nat} {c : StatsPc w} {next : Option (StatsPc w)}
  {back : List (Grant w)}

/-- What the clients and the calls hold of the blocks that the totals have counted. -/
def talliedBlocks (s : StatsRun w) : List (Grant w) := s.live ++ s.calls.flatMap tallied

structure Tallies (s : StatsRun w) : Prop where
  balance : s.stats.totalAllocations = s.stats.totalDeallocations + s.talliedBlocks.length
  allocations_le : s.stats.totalAllocations + (s.calls.map allocationsLeft).sum ≤ s.begun
  deallocations_le : s.stats.totalDeallocations + (s.calls.map deallocationsLeft).sum ≤ s.begun

structure HighWater (s : StatsRun w) : Prop where
  newest : s.stats.bytesAllocated ∈ s.bytes
  zero_mem : 0 ∈ s.bytes
  peak_mem : s.stats.bytesPeak ∈ s.bytes
  /-- A value above the peak is about to be made the peak. -/
  le_peak : ∀ v ∈ s.bytes, v ≤ s.stats.bytesPeak ∨ ∃ c ∈ s.calls, v ≤ c.pendingPeak
  pending_mem : ∀ c ∈ s.calls, c.pendingPeak ∈ s.bytes
  peaks_le : ∀ v ∈ s.peaks, v ≤ s.stats.bytesPeak

structure Inv (s : StatsRun w) : Prop where
  books : Books holds counted s.inner s.stats.bytesAllocated s.live s.calls
  /-- The totals do not wrap as long as there are fewer calls than words. -/
  tallies : s.begun < 2 ^ w → Tallies s
  highWater : HighWater s

theorem inv_init (inner : Ledger w) : Inv (init inner) where
  books := Books.init inner
  tallies := fun _ => ⟨rfl, le_rfl, le_rfl⟩
  highWater :=
    { newest := List.mem_singleton_self 0
      zero_mem := List.mem_singleton_self 0
      peak_mem := List.mem_singleton_self 0
      le_peak := fun _ hv => Or.inl (List.mem_singleton.mp hv).le
      pending_mem := List.forall_mem_nil _
      peaks_le := fun _ hv => (List.mem_singleton.mp hv).le }

/-! ## One step of a call -/

/-- `s'` is `s` after a step that takes the call number `i` from `c` to `next` and hands the blocks
`back` to its client. -/
structure Steps (s s' : StatsRun w) (i : Nat) (c : StatsPc w) (next : Option (StatsPc w))
    (back : List (Grant w)) : Prop where
  call : s.calls[i]? = some c
  calls_eq : s'.calls = replace s.calls i next
  live_eq : s'.live = back ++ s.live
  begun_eq : s'.begun = s.begun

theorem Tallies.step (ht : Tallies s) (hs : Steps s s' i c next back)
    (hbalance : s'.stats.totalAllocations + s.stats.totalDeallocations + c.tallied.length =
      s.stats.totalAllocations + s'.stats.totalDeallocations +
        (back ++ next.toList.flatMap tallied).length)
    (hallocations : s'.stats.totalAllocations + (next.toList.map allocationsLeft).sum ≤
      s.stats.totalAllocations + c.allocationsLeft)
    (hdeallocations : s'.stats.totalDeallocations + (next.toList.map deallocationsLeft).sum ≤
      s.stats.totalDeallocations + c.deallocationsLeft) : Tallies s' := by
  have hlen := (flatMap_replace_perm tallied hs.call next).length_eq
  have hleft := sum_replace allocationsLeft hs.call next
  have hleft' := sum_replace deallocationsLeft hs.call next
  obtain ⟨hb, ha, hd⟩ := ht
  rw [talliedBlocks] at hb
  refine ⟨?_, ?_, ?_⟩
  · rw [talliedBlocks, hs.calls_eq, hs.live_eq]
    simp only [List.length_append] at *
    omega
  · rw [hs.calls_eq, hs.begun_eq]
    omega
  · rw [hs.calls_eq, hs.begun_eq]
    omega

theorem HighWater.step (hw : HighWater s) (hs : Steps s s' i c next back)
    (hnewest : s'.stats.bytesAllocated ∈ s'.bytes) (hpeak : s.stats.bytesPeak ≤ s'.stats.bytesPeak)
    (hmem : s'.stats.bytesPeak ∈ s'.bytes) (hold : ∀ v ∈ s.bytes, v ∈ s'.bytes)
    (hnew : ∀ v ∈ s'.bytes, (∃ u ∈ s.bytes, v ≤ u) ∨ ∃ n, next = some n ∧ v ≤ n.pendingPeak)
    (hcall : c.pendingPeak ≤ s'.stats.bytesPeak ∨
      ∃ n, next = some n ∧ c.pendingPeak ≤ n.pendingPeak)
    (hnext : ∀ n, next = some n → n.pendingPeak ∈ s'.bytes)
    (hpeaks : ∀ v ∈ s'.peaks, v ∈ s.peaks ∨ v ≤ s'.stats.bytesPeak) : HighWater s' where
  newest := hnewest
  zero_mem := hold 0 hw.zero_mem
  peak_mem := hmem
  le_peak := by
    have hpending : ∀ {v n}, next = some n → v ≤ n.pendingPeak →
        ∃ c ∈ s'.calls, v ≤ c.pendingPeak := by
      intro v n hn hv
      exact ⟨n, hs.calls_eq ▸ mem_replace_self hn, hv⟩
    intro v hv
    rcases hnew v hv with ⟨u, hu, hvu⟩ | ⟨n, hn, hvn⟩
    · rcases hw.le_peak u hu with hle | ⟨d, hd, hle⟩
      · exact Or.inl (by omega)
      · rcases mem_or_mem_replace hs.call next hd with rfl | hd'
        · rcases hcall with hle' | ⟨n, hn, hle'⟩
          · exact Or.inl (by omega)
          · exact Or.inr (hpending hn (by omega))
        · exact Or.inr ⟨d, hs.calls_eq ▸ hd', by omega⟩
    · exact Or.inr (hpending hn hvn)
  pending_mem := by
    intro d hd
    rw [hs.calls_eq] at hd
    rcases mem_replace hd with hn | hd
    · exact hnext d hn
    · exact hold _ (hw.pending_mem d hd)
  peaks_le := by
    intro v hv
    rcases hpeaks v hv with hv | hv
    · exact (hw.peaks_le v hv).trans hpeak
    · exact hv

/-- A step that leaves the peak and the values of the byte counter as they are. -/
theorem HighWater.quiet (hw : HighWater s) (hs : Steps s s' i c next back)
    (hallocated : s'.stats.bytesAllocated = s.stats.bytesAllocated)
    (hpeak : s'.stats.bytesPeak = s.stats.bytesPeak) (hbytes : s'.bytes = s.bytes)
    (hpeaks : s'.peaks = s.peaks)
    (hcall : c.pendingPeak ≤ s.stats.bytesPeak ∨
      ∃ n, next = some n ∧ c.pendingPeak ≤ n.pendingPeak)
    (hnext : ∀ n, next = some n → n.pendingPeak = c.pendingPeak ∨ n.pendingPeak = 0) :
    HighWater s' := by
  refine hw.step hs ?_ hpeak.ge ?_ (fun v hv => ?_) (fun v hv => ?_) ?_ (fun n hn => ?_)
    fun v hv => ?_
  · rw [hallocated, hbytes]
    exact hw.newest
  · rw [hpeak, hbytes]
    exact hw.peak_mem
  · rw [hbytes]
    exact hv
  · rw [hbytes] at hv
    exact Or.inl ⟨v, hv, le_rfl⟩
  · rw [hpeak]
    exact hcall
  · rw [hbytes]
    rcases hnext n hn with heq | heq
    · rw [heq]
      exact hw.pending_mem c (List.mem_of_getElem? hs.call)
    · rw [heq]
      exact hw.zero_mem
  · rw [hpeaks] at hv
    exact Or.inl hv

theorem steps_move (s : StatsRun w) (hc : s.calls[i]? = some c) :
    Steps s (s.move i next back) i c next back := ⟨hc, rfl, rfl, rfl⟩

/-- A call that begins with the blocks `out` of its client. -/
theorem Inv.begin_call (hi : Inv s) {live out : List (Grant w)} (hlive : s.live.Perm (out ++ live))
    (hholds : c.holds = out) (hcounted : c.counted = out) (htallied : c.tallied = out)
    (hallocations : c.allocationsLeft ≤ 1) (hdeallocations : c.deallocationsLeft ≤ 1)
    (hpending : c.pendingPeak = 0) :
    Inv { s with live := live, calls := c :: s.calls, begun := s.begun + 1 } where
  books := hi.books.start hlive hholds hcounted
  tallies := by
    intro hlt
    obtain ⟨hb, ha, hd⟩ := hi.tallies ((Nat.lt_succ_self _).trans hlt)
    have hlen := hlive.length_eq
    simp only [talliedBlocks, List.length_append] at hb hlen
    refine ⟨?_, ?_, ?_⟩
    · simp only [talliedBlocks, List.flatMap_cons, List.length_append, htallied]
      omega
    · simp only [List.map_cons, List.sum_cons]
      omega
    · simp only [List.map_cons, List.sum_cons]
      omega
  highWater :=
    { newest := hi.highWater.newest
      zero_mem := hi.highWater.zero_mem
      peak_mem := hi.highWater.peak_mem
      le_peak := fun v hv => (hi.highWater.le_peak v hv).imp_right fun ⟨d, hd, hle⟩ =>
        ⟨d, List.mem_cons_of_mem _ hd, hle⟩
      pending_mem := List.forall_mem_cons.mpr
        ⟨hpending ▸ hi.highWater.zero_mem, hi.highWater.pending_mem⟩
      peaks_le := hi.highWater.peaks_le }

theorem Inv.begin (hi : Inv s) {call : StatsCall w} (hstep : s.begin call = some s') : Inv s' := by
  have htake : ∀ {j g}, s.live[j]? = some g → s.live.Perm ([g] ++ s.live.eraseIdx j) :=
    fun hg => perm_cons_eraseIdx hg
  cases call with
  | allocate l =>
      cases hstep
      exact hi.begin_call (List.Perm.refl _) rfl rfl rfl le_rfl (Nat.zero_le _) rfl
  | deallocate j =>
      simp only [StatsRun.begin] at hstep
      split at hstep
      case h_1 => cases hstep
      case h_2 g hg =>
          cases hstep
          exact hi.begin_call (htake hg) rfl rfl rfl (Nat.zero_le _) le_rfl rfl
  | grow j new =>
      simp only [StatsRun.begin] at hstep
      split at hstep
      case h_1 => cases hstep
      case h_2 g hg =>
          split at hstep
          · cases hstep
            exact hi.begin_call (htake hg) rfl rfl rfl le_rfl le_rfl rfl
          · cases hstep
  | shrink j new =>
      simp only [StatsRun.begin] at hstep
      split at hstep
      case h_1 => cases hstep
      case h_2 g hg =>
          split at hstep
          · cases hstep
            exact hi.begin_call (htake hg) rfl rfl rfl le_rfl le_rfl rfl
          · cases hstep

/-- A step that changes nothing but the place of the call and the counters of the corruption events
and of the failures. -/
theorem Inv.quiet (hi : Inv s) (hs : Steps s s' i c next back) (hinner : s'.inner = s.inner)
    (hbytes : s'.bytes = s.bytes) (hpeaks : s'.peaks = s.peaks)
    (hstats : { s'.stats with failures := 0, corruptionEvents := 0 } =
      { s.stats with failures := 0, corruptionEvents := 0 })
    (hholds : c.holds.Perm (back ++ next.toList.flatMap holds))
    (hcounted : c.counted.Perm (back ++ next.toList.flatMap counted))
    (htallied : c.tallied.Perm (back ++ next.toList.flatMap tallied))
    (hallocations : (next.toList.map allocationsLeft).sum ≤ c.allocationsLeft)
    (hdeallocations : (next.toList.map deallocationsLeft).sum ≤ c.deallocationsLeft)
    (hcall : c.pendingPeak ≤ s.stats.bytesPeak ∨
      ∃ n, next = some n ∧ c.pendingPeak ≤ n.pendingPeak)
    (hnext : ∀ n, next = some n → n.pendingPeak = c.pendingPeak ∨ n.pendingPeak = 0) : Inv s' := by
  simp only [AllocStats.mk.injEq] at hstats
  obtain ⟨hta, htd, hba, hbp, -, -⟩ := hstats
  refine ⟨?_, fun hlt => ?_, hi.highWater.quiet hs hba hbp hbytes hpeaks hcall hnext⟩
  · rw [hinner, hba, hs.live_eq, hs.calls_eq]
    refine hi.books.move hs.call ?_ ?_
    · exact (hholds.append_right _).trans List.perm_append_comm
    · rw [sizes_perm hcounted, Nat.add_comm]
  · rw [hs.begun_eq] at hlt
    refine (hi.tallies hlt).step hs ?_ ?_ ?_
    · rw [hta, htd, htallied.length_eq]
    · rw [hta]
      exact Nat.add_le_add_left hallocations _
    · rw [htd]
      exact Nat.add_le_add_left hdeallocations _

/-- A step that changes the shared state from `s` to `t` and the place of the call. -/
theorem Inv.move {t : StatsRun w} (hi : Inv s) (hc : s.calls[i]? = some c)
    (hcalls : t.calls = s.calls) (hlive : t.live = s.live) (hbegun : t.begun = s.begun)
    (hholds : (c.holds ++ t.inner.grants).Perm
      (s.inner.grants ++ (back ++ next.toList.flatMap holds)))
    (hcounted : sizes c.counted + t.stats.bytesAllocated =
      s.stats.bytesAllocated + sizes (back ++ next.toList.flatMap counted))
    (htallies : Tallies s → s.begun < 2 ^ w →
      t.stats.totalAllocations + s.stats.totalDeallocations + c.tallied.length =
          s.stats.totalAllocations + t.stats.totalDeallocations +
            (back ++ next.toList.flatMap tallied).length ∧
        t.stats.totalAllocations + (next.toList.map allocationsLeft).sum ≤
          s.stats.totalAllocations + c.allocationsLeft ∧
        t.stats.totalDeallocations + (next.toList.map deallocationsLeft).sum ≤
          s.stats.totalDeallocations + c.deallocationsLeft)
    (hhighWater : Steps s (t.move i next back) i c next back → HighWater (t.move i next back)) :
    Inv (t.move i next back) := by
  have hs : Steps s (t.move i next back) i c next back :=
    ⟨hc, congrArg (replace · i next) hcalls, congrArg (back ++ ·) hlive, hbegun⟩
  refine ⟨?_, fun hlt => ?_, hhighWater hs⟩
  · rw [hs.live_eq, hs.calls_eq]
    exact hi.books.move hc hholds hcounted
  · rw [hs.begun_eq] at hlt
    have ht := hi.tallies hlt
    obtain ⟨hb, ha, hd⟩ := htallies ht hlt
    exact ht.step hs hb ha hd

/-- A call that goes on with the blocks it holds. -/
theorem keep_perm (gs grants : List (Grant w)) :
    (gs ++ grants).Perm (grants ++ ([] ++ (gs ++ []))) := by
  rw [List.nil_append, List.append_nil]
  exact List.perm_append_comm

/-- A total that the call is about to increment does not wrap. -/
theorem Tallies.allocations_lt (ht : Tallies s) (hlt : s.begun < 2 ^ w) (hc : s.calls[i]? = some c)
    (hone : c.allocationsLeft = 1) : s.stats.totalAllocations + 1 < 2 ^ w := by
  have hleft := sum_replace allocationsLeft hc none
  have hle := ht.allocations_le
  simp only [Option.toList_none, List.map_nil, List.sum_nil] at hleft
  omega

theorem Tallies.deallocations_lt (ht : Tallies s) (hlt : s.begun < 2 ^ w)
    (hc : s.calls[i]? = some c) (hone : c.deallocationsLeft = 1) :
    s.stats.totalDeallocations + 1 < 2 ^ w := by
  have hleft := sum_replace deallocationsLeft hc none
  have hle := ht.deallocations_le
  simp only [Option.toList_none, List.map_nil, List.sum_nil] at hleft
  omega

/-! ## The steps of the code -/

/-- How `allocate` returns. -/
theorem allocated_eq (s : StatsRun w) (i : Nat) (g : Grant w) (old : Option (Grant w)) :
    ∃ next back, s.allocated i g old = s.move i next back ∧
      (∀ f ∈ [holds, counted, tallied],
        (g :: old.toList).Perm (back ++ next.toList.flatMap f)) ∧
      (next.toList.map allocationsLeft).sum = 0 ∧
      (next.toList.map deallocationsLeft).sum = old.toList.length ∧
      ∀ n, next = some n → n.pendingPeak = 0 := by
  cases old with
  | none =>
      refine ⟨none, [g], rfl, fun f _ => List.Perm.refl _, rfl, rfl, fun n hn => by cases hn⟩
  | some o =>
      refine ⟨some (.countDeallocation o (some g)), [], rfl, ?_, rfl, rfl, fun n hn => ?_⟩
      · intro f hf
        simp only [List.mem_cons, List.not_mem_nil, or_false] at hf
        rcases hf with rfl | rfl | rfl <;> exact List.Perm.swap _ _ _
      · cases hn
        rfl

theorem Inv.innerStep (hi : Inv s) (hc : s.calls[i]? = some c) {r : Option Block}
    (hstep : s.innerStep i r c = some s') : Inv s' := by
  cases c with
  | allocate l old =>
      cases r with
      | none =>
          cases hstep
          exact hi.quiet (steps_move s hc) rfl rfl rfl rfl (by simp) (by simp) (by simp) (by simp)
            (by simp) (Or.inl (Nat.zero_le _)) (by simp)
      | some b =>
          simp only [StatsRun.innerStep, Option.map_eq_some_iff] at hstep
          obtain ⟨inner, hissue, rfl⟩ := hstep
          refine hi.move hc rfl rfl rfl ?_ ?_ (fun _ _ => by simp) fun hs =>
            hi.highWater.quiet hs rfl rfl rfl rfl (Or.inl (Nat.zero_le _)) (by simp)
          · show (old.toList ++ inner.grants).Perm (s.inner.grants ++ ((⟨b, l⟩ :: old.toList) ++ []))
            rw [(Ledger.issue_eq_some hissue).1, List.append_nil]
            exact (List.perm_middle.trans (List.perm_append_comm.cons _)).trans
              List.perm_middle.symm
          · show sizes old.toList + s.stats.bytesAllocated = s.stats.bytesAllocated + sizes (_ ++ [])
            rw [List.append_nil, Nat.add_comm]
            rfl
  | _ => cases hstep

theorem Inv.loadStep (hi : Inv s) (hc : s.calls[i]? = some c) {v : Nat}
    (hstep : s.loadStep i v c = some s') : Inv s' := by
  cases c with
  | loadMirror x k =>
      simp only [StatsRun.loadStep] at hstep
      split at hstep
      case isTrue =>
          cases hstep
          split
          · exact hi.quiet (steps_move s hc) rfl rfl rfl rfl (by simp) (by simp) (by simp)
              (by simp) (by simp) (Or.inr ⟨_, rfl, le_rfl⟩) (by simp)
          · exact hi.quiet (steps_move s hc) rfl rfl rfl rfl (by simp) (by simp) (by simp)
              (by simp) (by simp) (Or.inr ⟨_, rfl, le_rfl⟩) (by simp)
      case isFalse => cases hstep
  | loadPeak g new old =>
      simp only [StatsRun.loadStep] at hstep
      split at hstep
      case isTrue hv =>
          cases hstep
          split
          case isTrue =>
              exact hi.quiet (steps_move s hc) rfl rfl rfl rfl (by simp) (by simp) (by simp)
                (by simp) (by simp) (Or.inr ⟨_, rfl, le_rfl⟩) (by simp)
          case isFalse hle =>
              -- the peak was at least `v` when `v` was loaded, and only rises
              have hpeak : new ≤ s.stats.bytesPeak :=
                (Nat.not_lt.mp hle).trans (hi.highWater.peaks_le v hv)
              obtain ⟨next, back, heq, hperm, hallocations, hdeallocations, hpending⟩ :=
                allocated_eq s i g old
              rw [heq]
              exact hi.quiet (steps_move s hc) rfl rfl rfl rfl (hperm holds (by simp))
                (hperm counted (by simp)) (hperm tallied (by simp)) (by simp [hallocations])
                (by simp [hdeallocations]) (Or.inl hpeak) fun n hn => Or.inr (hpending n hn)
      case isFalse => cases hstep
  | _ => cases hstep

theorem Inv.advanceStep (hi : Inv s) (hc : s.calls[i]? = some c)
    (hstep : s.advanceStep i c = some s') : Inv s' := by
  cases c with
  | raiseMirror x k =>
      cases hstep
      exact hi.quiet ⟨hc, rfl, rfl, rfl⟩ rfl rfl rfl rfl (by simp) (by simp) (by simp) (by simp)
        (by simp) (Or.inr ⟨_, rfl, le_rfl⟩) (by simp)
  | countAllocation g old =>
      cases hstep
      refine hi.move hc rfl rfl rfl ?_ ?_ (fun ht hlt => ?_) fun hs =>
        hi.highWater.quiet hs rfl rfl rfl rfl (Or.inl (Nat.zero_le _)) (by simp)
      · exact keep_perm (g :: old.toList) _
      · simp [Nat.add_comm]
      · have htotal := ht.allocations_lt hlt hc rfl
        simp only [wrappingAdd_of_lt htotal]
        simp
        omega
  | addBytes g old =>
      cases hstep
      have hadd := hi.books.add_lt counted_sublist hc (List.Sublist.refl _)
      rw [saturatingAdd_of_lt hadd]
      refine hi.move hc rfl rfl rfl ?_ ?_ (fun _ _ => by simp) fun hs => hi.highWater.step hs
        ?_ le_rfl ?_ ?_ ?_ ?_ ?_ ?_
      · exact keep_perm (g :: old.toList) _
      · simp only [wrappingAdd_of_lt hadd]
        simp
        omega
      · exact List.mem_cons_self
      · exact List.mem_cons_of_mem _ hi.highWater.peak_mem
      · exact fun v hv => List.mem_cons_of_mem _ hv
      · intro v hv
        rcases List.mem_cons.mp hv with rfl | hv
        · exact Or.inr ⟨_, rfl, (wrappingAdd_of_lt hadd).le⟩
        · exact Or.inl ⟨v, hv, le_rfl⟩
      · exact Or.inl (Nat.zero_le _)
      · rintro n hn
        cases hn
        exact List.mem_cons.mpr (Or.inl (wrappingAdd_of_lt hadd).symm)
      · exact fun v hv => Or.inl hv
  | raisePeak g new old =>
      cases hstep
      obtain ⟨next, back, heq, hperm, hallocations, hdeallocations, hpending⟩ :=
        allocated_eq { s with
          stats := { s.stats with bytesPeak := max s.stats.bytesPeak new }
          peaks := max s.stats.bytesPeak new :: s.peaks } i g old
      have hnew := hi.highWater.pending_mem _ (List.mem_of_getElem? hc)
      simp only [pendingPeak] at hnew
      rw [heq]
      refine hi.move hc rfl rfl rfl ?_ ?_ (fun _ _ => ?_) fun hs => hi.highWater.step hs
        hi.highWater.newest (le_max_left _ _) ?_ (fun v hv => hv) (fun v hv => Or.inl ⟨v, hv, le_rfl⟩)
        (Or.inl (le_max_right _ _)) (fun n hn => ?_) fun v hv => ?_
      · exact ((hperm holds (by simp)).append_right _).trans List.perm_append_comm
      · rw [← sizes_perm (hperm counted (by simp))]
        exact Nat.add_comm _ _
      · rw [← (hperm tallied (by simp)).length_eq, hallocations, hdeallocations]
        exact ⟨rfl, le_rfl, le_rfl⟩
      · show max s.stats.bytesPeak new ∈ s.bytes
        rcases max_choice s.stats.bytesPeak new with heq | heq
        · rw [heq]
          exact hi.highWater.peak_mem
        · rw [heq]
          exact hnew
      · rw [hpending n hn]
        exact hi.highWater.zero_mem
      · rcases List.mem_cons.mp hv with rfl | hv
        · exact Or.inr le_rfl
        · exact Or.inl hv
  | countFailure old =>
      cases hstep
      exact hi.quiet ⟨hc, rfl, rfl, rfl⟩ rfl rfl rfl rfl (by simp) (by simp) (by simp) (by simp)
        (by simp) (Or.inl (Nat.zero_le _)) (by simp)
  | countDeallocation g got =>
      cases hstep
      refine hi.move hc rfl rfl rfl ?_ ?_ (fun ht hlt => ?_) fun hs =>
        hi.highWater.quiet hs rfl rfl rfl rfl (Or.inl (Nat.zero_le _)) (by simp)
      · exact keep_perm (g :: got.toList) _
      · simp [Nat.add_comm]
      · have htotal := ht.deallocations_lt hlt hc rfl
        simp only [wrappingAdd_of_lt htotal]
        simp
        omega
  | subBytes g got =>
      cases hstep
      have hg : g ∈ counted (.subBytes g got) := List.mem_cons_self
      have hle := hi.books.size_le (List.mem_of_getElem? hc) hg
      have hsub := wrappingSub_of_le hle (hi.books.counter_lt counted_sublist)
      refine hi.move hc rfl rfl rfl ?_ ?_ (fun _ _ => by simp) fun hs => hi.highWater.step hs
        List.mem_cons_self le_rfl (List.mem_cons_of_mem _ hi.highWater.peak_mem)
        (fun v hv => List.mem_cons_of_mem _ hv) (fun v hv => ?_) (Or.inl (Nat.zero_le _))
        (fun n hn => ?_) fun v hv => Or.inl hv
      · exact keep_perm (g :: got.toList) _
      · simp only [hsub]
        simp
        omega
      · rcases List.mem_cons.mp hv with rfl | hv
        · refine Or.inl ⟨_, hi.highWater.newest, ?_⟩
          rw [hsub]
          exact Nat.sub_le _ _
        · exact Or.inl ⟨v, hv, le_rfl⟩
      · cases hn
        exact List.mem_cons_of_mem _ hi.highWater.zero_mem
  | deallocate g got =>
      cases hstep
      have hg : g ∈ s.inner.grants :=
        hi.books.mem_grants (List.mem_of_getElem? hc) List.mem_cons_self
      refine hi.move hc rfl rfl rfl ?_ ?_ (fun _ _ => by simp) fun hs =>
        hi.highWater.quiet hs rfl rfl rfl rfl (Or.inl (Nat.zero_le _)) (by simp)
      · show (g :: got.toList ++ s.inner.grants.erase g).Perm (s.inner.grants ++ (got.toList ++ []))
        rw [List.append_nil]
        have htake := (List.perm_cons_erase hg).append_right got.toList
        exact (List.perm_append_comm.cons g).trans htake.symm
      · show sizes got.toList + s.stats.bytesAllocated =
          s.stats.bytesAllocated + sizes (got.toList ++ [])
        rw [List.append_nil, Nat.add_comm]
  | _ => cases hstep

/-! ## Whole runs -/

theorem Inv.step (hi : Inv s) {e : StatsStep w} (hstep : s.step e = some s') : Inv s' := by
  cases e with
  | call c => exact hi.begin hstep
  | inner i r =>
      obtain ⟨c, hc, hstep⟩ := Option.bind_eq_some_iff.mp hstep
      exact hi.innerStep hc hstep
  | poll i v =>
      simp only [StatsRun.step] at hstep
      split at hstep
      case h_1 k hc =>
          cases hstep
          exact hi.quiet (steps_move s hc) rfl rfl rfl rfl (by simp) (by simp) (by simp) (by simp)
            (by simp) (Or.inr ⟨_, rfl, le_rfl⟩) (by simp)
      case h_2 => cases hstep
  | load i v =>
      obtain ⟨c, hc, hstep⟩ := Option.bind_eq_some_iff.mp hstep
      exact hi.loadStep hc hstep
  | advance i =>
      obtain ⟨c, hc, hstep⟩ := Option.bind_eq_some_iff.mp hstep
      exact hi.advanceStep hc hstep

theorem Inv.run (hi : Inv s) {es : List (StatsStep w)}
    (hrun : Machine.run StatsRun.step s es = some s') : Inv s' :=
  Machine.run_invariant (fun _ _ _ hi hstep => hi.step hstep) hi hrun

/-- **Runs of `Statistics`.** No `fetch_sub` takes the byte counter below zero, and whenever no call
is in flight the byte counter is the sum of the layout sizes of the live blocks, the totals differ
by the number of live blocks, and the peak is the greatest value the byte counter has had. -/
theorem statistics_run_correct {inner : Ledger w} {es : List (StatsStep w)}
    (hrun : Machine.run StatsRun.step (init inner) es = some s) (hbegun : s.begun < 2 ^ w) :
    (∀ g got, .subBytes g got ∈ s.calls → g.layout.size ≤ s.stats.bytesAllocated) ∧
    (s.calls = [] →
      s.stats.bytesAllocated = sizes s.live ∧
      s.stats.totalAllocations = s.stats.totalDeallocations + s.live.length ∧
      IsGreatest {v | v ∈ s.bytes} s.stats.bytesPeak) := by
  have hi : Inv s := (inv_init inner).run hrun
  refine ⟨fun g got hc => hi.books.size_le hc List.mem_cons_self, fun hquiet => ?_⟩
  have hbooks := hi.books
  rw [hquiet] at hbooks
  refine ⟨hbooks.quiescent, ?_, hi.highWater.peak_mem, fun v hv => ?_⟩
  · have hbalance := (hi.tallies hbegun).balance
    rw [talliedBlocks, hquiet, List.flatMap_nil, List.append_nil] at hbalance
    exact hbalance
  · rcases hi.highWater.le_peak v hv with hle | ⟨c, hc, -⟩
    · exact hle
    · rw [hquiet] at hc
      cases hc

/-- Eight bytes. -/
def statsLayout : NonZeroLayout 64 := .lit 64 8 4 (Eq.refl true)

/-- Two threads request a block each. The second adds its bytes before the first has raised the
peak, and then loads a peak that is out of date. One of the blocks is freed. -/
def racingPeaks : List (StatsStep 64) :=
  [.call (.allocate statsLayout), .inner 0 (some ⟨64, 8⟩), .poll 0 0, .load 0 0, .advance 0,
    .call (.allocate statsLayout), .inner 0 (some ⟨128, 8⟩), .advance 1, .load 0 0, .poll 1 0,
    .load 0 0, .advance 0, .advance 0, .advance 1, .load 0 0, .advance 0,
    .call (.deallocate 0), .advance 0, .advance 0, .poll 0 0, .load 0 0, .advance 0]

theorem statistics_run_correct_racingPeaks :
    ∃ s, Machine.run StatsRun.step (init (Ledger.empty 64)) racingPeaks = some s ∧
      s.stats.bytesPeak = 16 ∧ s.stats.bytesAllocated = sizes s.live ∧
      IsGreatest {v | v ∈ s.bytes} s.stats.bytesPeak := by
  have hend : (Machine.run StatsRun.step (init (Ledger.empty 64)) racingPeaks).map
      (fun s => (s.begun, s.calls.length, s.stats.bytesPeak)) = some (3, 0, 16) := by
    decide +kernel
  obtain ⟨s, hrun, hs⟩ := Option.map_eq_some_iff.mp hend
  obtain ⟨hbegun, hlen, hpeak⟩ : s.begun = 3 ∧ s.calls.length = 0 ∧ s.stats.bytesPeak = 16 := by
    simpa using hs
  obtain ⟨-, hquiet⟩ := statistics_run_correct hrun (by rw [hbegun]; decide)
  obtain ⟨hbytes, -, hgreatest⟩ := hquiet (List.length_eq_zero_iff.mp hlen)
  exact ⟨s, hrun, hpeak, hbytes, hgreatest⟩

end StatsRun

end ForgeAlloc
