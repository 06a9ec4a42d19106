import ForgeAlloc.Hardening.Telemetry

set_option autoImplicit false

/-! # The count of corruption events

The answer of a composition is the sum of its counters, saturated once, however the saturating sums
are nested (`Metered.eq_sum`). A client that keeps to the contract sees no event, in any run over
any composition (`ClientRun.corruption_run_silent`), and `Statistics` mirrors none
(`ClientRun.statistics_run_silent`).
-/

namespace ForgeAlloc

open MachineInt ByteMemory

variable {w : Nat}

namespace Slab

variable {β : Type} {T : RustType w}

theorem telemetry_eq_sum {s : Slab T β} (hlt : s.corruptionEvents < 2 ^ 64) :
    s.corruptionEvents = min [s.corruptionEvents].sum (2 ^ 64 - 1) := by
  rw [List.sum_singleton]
  exact (min_eq_left (Nat.le_sub_one_of_lt hlt)).symm

theorem Issues.corruptionEvents_eq {R : FixedRange β} {n : Nat} {h : Heap (Slab T β)}
    {G : List (Grant w)} (hi : Issues R n h G) : h.alloc.corruptionEvents = 0 := by
  obtain ⟨p, hr, -⟩ := hi.outstanding
  exact hr.corruption_eq

end Slab

theorem SizeClassed.classCorruption_eq {β : Type} {n : Nat} (s : SizeClassed w n β) :
    s.classCorruption = min s.classCounters.sum (2 ^ 64 - 1) := by
  have hfold := foldl_saturatingAdd (w := 64) (a := 0) (by decide) s.classCounters
  rw [Nat.zero_add, classCounters, List.foldl_map] at hfold
  exact hfold

namespace Metered

variable {σ : Type} {C : Component w σ} {t : Telemetry σ} {h : Heap σ} {L : Set (Grant w)}

/-! ## The answer and the counters -/

/-- **The answer is the sum of the counters**, saturated at 64 bits. No counter is left out or taken
twice, and sums that saturate below the answer change nothing. -/
theorem eq_sum (hC : Metered C t) (s : σ) (hs : ∀ x ∈ t.counters s, x < 2 ^ 64) :
    t.corruptionEvents s = min (t.counters s).sum (2 ^ 64 - 1) := by
  induction hC with
  | bumpArena | stackAlloc | sharedBumpArena | mmapBacked => rfl
  | slab T R n c => exact Slab.telemetry_eq_sum (hs _ List.mem_cons_self)
  | slabOwner T R n c => exact Slab.telemetry_eq_sum (hs _ List.mem_cons_self)
  | extendableSlab =>
      exact foldl_saturatingAdd (hs _ List.mem_cons_self) _
  | sizeClassed _ _ _ _ ih =>
      have hinner := ih s.backing fun x hx => hs x (List.mem_append_right _ hx)
      have hclasses := SizeClassed.classCorruption_eq s
      show saturatingAdd 64 s.classCorruption _ = _
      rw [hinner, hclasses, saturatingAdd_min, saturatingAdd, ← List.sum_append]
      rfl
  | withFallback _ _ _ _ ihP ihS =>
      have hP := ihP s.primary fun x hx => hs x (List.mem_append_left _ hx)
      have hS := ihS s.secondary fun x hx => hs x (List.mem_append_right _ hx)
      show saturatingAdd 64 _ _ = _
      rw [hP, hS, saturatingAdd_min, saturatingAdd, ← List.sum_append]
      rfl
  | forwarder _ F k ih => exact ih (F.inner s) hs
  | quarantine _ E ih => exact ih s.inner hs
  | cacheJitter _ p ih => exact ih s.inner hs
  | canary _ value ih => exact ih s.inner hs
  | onFree _ S ih => exact ih (S.inner s) hs

/-- Two slabs that have each counted up to the edge: the answer of the pair saturates. -/
theorem eq_sum_saturated : ∃ slab : Heap ScrubRun.PageSlab,
    Slab.withProtection ScrubRun.pageArena ScrubRun.pages ScrubRun.page 4 .none
        ScrubRun.emptyPages = some slab ∧
      (WithFallback.telemetry (Slab.telemetry ScrubRun.page ScrubRun.pages)
          (Slab.telemetry ScrubRun.page ScrubRun.pages)
          (σ := ScrubRun.PageSlab) (π := ScrubRun.PageSlab)).corruptionEvents
        ⟨{ slab.alloc with corruptionEvents := 2 ^ 64 - 2 },
          { slab.alloc with corruptionEvents := 5 }⟩ = 2 ^ 64 - 1 := by
  obtain ⟨slab, hnew⟩ : ∃ slab, Slab.withProtection ScrubRun.pageArena ScrubRun.pages ScrubRun.page
      4 .none ScrubRun.emptyPages = some slab :=
    Option.isSome_iff_exists.mp (by decide +kernel)
  refine ⟨slab, hnew, ?_⟩
  have hdisj : Disjoint (Block.bytes ⟨4096, 1024⟩) (Block.bytes ⟨8192, 1024⟩) :=
    Block.disjoint_iff.mpr (by decide)
  have hpair := withFallback (w := 64) (.slab ScrubRun.page ScrubRun.pages 4 ⟨4096, 1024⟩)
    (.slab ScrubRun.page ScrubRun.pages 4 ⟨8192, 1024⟩) rfl hdisj
  refine hpair.eq_sum _ ?_
  intro x hx
  simp only [WithFallback.telemetry, Slab.telemetry, List.cons_append, List.nil_append,
    List.mem_cons, List.not_mem_nil, or_false] at hx
  rcases hx with rfl | rfl <;> decide

/-! ## No event without tampering -/

/-- Every counter stands at 0 where the invariant holds. -/
theorem silent (hC : Metered C t) (hinv : C.inv h L) : ∀ x ∈ t.counters h.alloc, x = 0 := by
  induction hC generalizing L with
  | bumpArena | stackAlloc | sharedBumpArena | mmapBacked => exact List.forall_mem_nil _
  | slab T R n c =>
      obtain ⟨⟨G, -, hi⟩, -⟩ := hinv
      exact List.forall_mem_singleton.mpr hi.corruptionEvents_eq
  | slabOwner T R n c =>
      obtain ⟨⟨G, -, Q, -, hi⟩, -⟩ := hinv
      exact List.forall_mem_singleton.mpr hi.corruptionEvents_eq
  | extendableSlab =>
      obtain ⟨⟨live, -, ht⟩, hrouted⟩ := hinv
      refine List.forall_mem_cons.mpr ⟨hrouted, ?_⟩
      intro x hx
      obtain ⟨seg, hseg, rfl⟩ := List.mem_map.mp hx
      obtain ⟨k, hget⟩ := List.mem_iff_getElem?.mp hseg
      exact (ht.inv.ledgers k seg hget).corruptionEvents_eq
  | sizeClassed _ _ _ _ ih =>
      obtain ⟨K, pools, layouts, F, ha⟩ := hinv
      refine List.forall_mem_append.mpr ⟨?_, ih ha.holds.backing_inv⟩
      intro x hx
      obtain ⟨i, -, rfl⟩ := List.mem_map.mp hx
      exact (ha.holds.refines i).corruption_eq
  | withFallback _ _ _ _ ihP ihS =>
      obtain ⟨LP, LS, -, hh⟩ := hinv
      exact List.forall_mem_append.mpr ⟨ihP hh.primary, ihS hh.secondary⟩
  | forwarder _ F k ih =>
      obtain ⟨⟨K, -, hh⟩, -⟩ := hinv
      exact ih hh.inner
  | quarantine _ E ih =>
      obtain ⟨G, hh⟩ := hinv
      exact ih hh.inner
  | cacheJitter _ p ih =>
      obtain ⟨⟨K, -, hh⟩, -⟩ := hinv
      exact ih hh.inner
  | canary _ value ih =>
      obtain ⟨⟨K, -, hh⟩, -⟩ := hinv
      exact ih hh.inner
  | onFree _ S ih => exact ih (h := S.heap h) hinv

theorem corruptionEvents_eq (hC : Metered C t) (hinv : C.inv h L) :
    t.corruptionEvents h.alloc = 0 := by
  have hzero := hC.silent hinv
  rw [hC.eq_sum h.alloc fun x hx => (hzero x hx).symm ▸ Nat.two_pow_pos 64,
    List.sum_eq_zero hzero]
  rfl

theorem allocate_corruptionEvents_eq (hC : Metered C t) (hinv : C.inv h L) (l : NonZeroLayout w) :
    t.corruptionEvents (C.calls.allocate l h).2.alloc = 0 := by
  rcases hcall : C.calls.allocate l h with ⟨_ | b, h'⟩
  · exact hC.corruptionEvents_eq (hC.lawful.allocate_none hinv hcall).inv
  · exact hC.corruptionEvents_eq (hC.lawful.allocate_some hinv hcall).inv

end Metered

/-! ## The mirror of `Statistics` -/

namespace AllocStats

theorem mirrorCorruption_zero (w : Nat) (s : AllocStats) : s.mirrorCorruption w 0 = s := by
  rw [mirrorCorruption, Nat.zero_min, if_neg (Nat.not_lt_zero _)]

theorem countAllocate_corruptionEvents (l : NonZeroLayout w) (s : AllocStats) (r : Option Block) :
    (s.countAllocate l r).corruptionEvents = s.corruptionEvents := by cases r <;> rfl

end AllocStats

namespace Statistics

variable {σ : Type} {C : Component w σ} {t : Telemetry σ}

/-- `Statistics` over an allocator that answers `t`, with the mirror at 0. -/
def unmirrored (C : Component w σ) (t : Telemetry σ) : Component w (Statistics σ) :=
  (C.forwarded (forwarder t.corruptionEvents) ()).restricted fun s => s.stats.corruptionEvents = 0

theorem unmirrored_lawful (hC : Metered C t) : (unmirrored C t).Lawful := by
  refine (hC.lawful.forwarded _ ()).restricted ?_ ?_ ?_
  · rintro h L l ⟨⟨K, -, hh⟩, -⟩ hzero
    show ((forwarder t.corruptionEvents).allocate C.calls l h).2.alloc.stats.corruptionEvents = 0
    rcases (forwarder t.corruptionEvents).allocate_cases C.calls l h with
      ⟨-, hcall⟩ | ⟨il, -, -, hcall⟩
    · rw [hcall]
      exact hzero
    · -- the mirror is read after the request
      have hinner : t.corruptionEvents (C.calls.allocate il (h.map Statistics.inner)).2.alloc = 0 :=
        hC.allocate_corruptionEvents_eq hh.inner il
      rw [hcall]
      show ((h.alloc.stats.mirrorCorruption w (t.corruptionEvents
        (C.calls.allocate il (h.map Statistics.inner)).2.alloc)).countAllocate l
          _).corruptionEvents = 0
      rw [AllocStats.countAllocate_corruptionEvents, hinner, AllocStats.mirrorCorruption_zero]
      exact hzero
  · rintro h L g ⟨⟨K, -, hh⟩, -⟩ - hzero
    -- and before the free
    have hinner : t.corruptionEvents h.alloc.inner = 0 := hC.corruptionEvents_eq hh.inner
    show ((h.alloc.stats.countDeallocate g.layout).mirrorCorruption w
      (t.corruptionEvents h.alloc.inner)).corruptionEvents = 0
    rw [hinner, AllocStats.mirrorCorruption_zero]
    exact hzero
  · intro h L g h' hinv hg hfree hzero
    obtain ⟨r, -, hput⟩ := Option.bind_eq_some_iff.mp hfree
    cases hput
    exact hzero

end Statistics

/-! ## Runs -/

namespace ClientRun

variable {ι σ : Type} [DecidableEq ι] {C : Component w σ} {t : Telemetry σ}
  {ops : List (ClientOp w ι)}

/-- **No false alarm.** Let slabs, arenas, size classes and the wrappers that `Metered` covers be
composed in any way, with nothing out. However a client requests, writes, resizes and frees, from
whatever threads, the composition answers 0 to `corruption_events`, and every counter in it stands at
0. -/
theorem corruption_run_silent (hC : Metered C t) {h : Heap σ} (hstart : C.inv h ∅)
    {s : ClientRun w ι σ} (hrun : Machine.run (step C) ⟨h, fun _ => none⟩ ops = some s) :
    t.corruptionEvents s.heap.alloc = 0 ∧ ∀ x ∈ t.counters s.heap.alloc, x = 0 := by
  have hinv := run_inv hC.lawful hC.honours hstart hrun
  exact ⟨hC.corruptionEvents_eq hinv, hC.silent hinv⟩

/-- Poison over a jitter over a slab of pages counts nothing while its blocks come and go. -/
theorem corruption_run_silent_pages : ∃ slab s,
    Slab.withProtection ScrubRun.pageArena ScrubRun.pages ScrubRun.page 4 .none
        ScrubRun.emptyPages = some slab ∧
      Machine.run (step (PoisonOnFree.scrubber.component (ScrubRun.jitteredPages slab)))
        ⟨ScrubRun.poisoned slab, fun _ => none⟩
        [.allocate 0 ScrubRun.word, .allocate 1 ScrubRun.wideWord, .write 0 3 7, .deallocate 0,
          .deallocate 1, .allocate 2 ScrubRun.word] = some s ∧
      s.heap.alloc.inner.inner.corruptionEvents = 0 := by
  have hsome : ((Slab.withProtection ScrubRun.pageArena ScrubRun.pages ScrubRun.page 4 .none
      ScrubRun.emptyPages).bind fun slab =>
        Machine.run (step (PoisonOnFree.scrubber.component (ScrubRun.jitteredPages slab)))
          ⟨ScrubRun.poisoned slab, fun _ => none⟩
          [.allocate 0 ScrubRun.word, .allocate 1 ScrubRun.wideWord, .write 0 3 7, .deallocate 0,
            .deallocate 1, .allocate 2 ScrubRun.word]).isSome := by decide +kernel
  obtain ⟨s, hbind⟩ := Option.isSome_iff_exists.mp hsome
  obtain ⟨slab, hnew, hrun⟩ := Option.bind_eq_some_iff.mp hbind
  have hC : Metered (PoisonOnFree.scrubber.component (ScrubRun.jitteredPages slab)) _ :=
    .onFree (.cacheJitter (.slab ScrubRun.page ScrubRun.pages 4 _) ScrubRun.oneLine)
      PoisonOnFree.scrubber
  exact ⟨slab, s, hnew, hrun,
    (corruption_run_silent hC (ScrubRun.poisoned_fresh hnew) hrun).1⟩

/-- **`Statistics` mirrors no event** in such a run, and the method that it hands on answers 0. -/
theorem statistics_run_silent (hC : Metered C t) {h : Heap (Statistics σ)}
    (hstart : C.inv (h.map Statistics.inner) ∅) (hzero : h.alloc.stats.corruptionEvents = 0)
    {s : ClientRun w ι (Statistics σ)}
    (hrun : Machine.run (step (C.forwarded (Statistics.forwarder t.corruptionEvents) ()))
      ⟨h, fun _ => none⟩ ops = some s) :
    s.heap.alloc.stats.corruptionEvents = 0 ∧ t.corruptionEvents s.heap.alloc.inner = 0 := by
  have hlawful := Statistics.unmirrored_lawful hC
  have hfresh : (Statistics.unmirrored C t).inv h ∅ :=
    ⟨Component.forwarded_fresh (F := Statistics.forwarder t.corruptionEvents) hstart, hzero⟩
  obtain ⟨⟨⟨K, -, hh⟩, -⟩, hmirror⟩ :=
    run_inv hlawful (hlawful.honours_of_defaults rfl rfl) hfresh hrun
  exact ⟨hmirror, hC.corruptionEvents_eq hh.inner⟩

/-- `Statistics` over a slab of pages: two requests and a free are counted, and no event. -/
theorem statistics_run_silent_pages : ∃ slab s,
    Slab.withProtection ScrubRun.pageArena ScrubRun.pages ScrubRun.page 4 .none
        ScrubRun.emptyPages = some slab ∧
      Machine.run (step ((Slab.component ScrubRun.page ScrubRun.pages 4
          ((Slab.range ScrubRun.page ScrubRun.pages).block slab.alloc)).forwarded
            (Statistics.forwarder
              (Slab.telemetry ScrubRun.page ScrubRun.pages).corruptionEvents) ()))
        ⟨⟨⟨slab.alloc, .new⟩, slab.mem⟩, fun _ => none⟩
        [.allocate 0 ScrubRun.word, .write 0 3 7, .deallocate 0, .allocate 1 ScrubRun.word]
          = some s ∧
      s.heap.alloc.stats.totalAllocations = 2 ∧ s.heap.alloc.stats.corruptionEvents = 0 := by
  have hsome : ((Slab.withProtection ScrubRun.pageArena ScrubRun.pages ScrubRun.page 4 .none
      ScrubRun.emptyPages).bind fun slab =>
        (Machine.run (step ((Slab.component ScrubRun.page ScrubRun.pages 4
          ((Slab.range ScrubRun.page ScrubRun.pages).block slab.alloc)).forwarded
            (Statistics.forwarder
              (Slab.telemetry ScrubRun.page ScrubRun.pages).corruptionEvents) ()))
          ⟨⟨⟨slab.alloc, .new⟩, slab.mem⟩, fun _ => none⟩
          [.allocate 0 ScrubRun.word, .write 0 3 7, .deallocate 0, .allocate 1 ScrubRun.word]).map
            fun s => s.heap.alloc.stats.totalAllocations) = some 2 := by decide +kernel
  obtain ⟨slab, hnew, hmap⟩ := Option.bind_eq_some_iff.mp hsome
  obtain ⟨s, hrun, htotal⟩ := Option.map_eq_some_iff.mp hmap
  have hA := BumpArena.honours (w := 64) (InlineBacked.range_lawful 64 1024) 4096 (by decide)
  have hempty := BumpArena.holds_new (w := 64) (R := InlineBacked.range 64 1024)
    (b := InlineBacked.lit 64 1024 4096 (Eq.refl true)) rfl fun _ => 0
  have hfresh := Slab.component_fresh hA hempty FreelistProtection.none_sound hnew
  have hsilent := statistics_run_silent (h := ⟨⟨slab.alloc, .new⟩, slab.mem⟩)
    (.slab ScrubRun.page ScrubRun.pages 4 _) hfresh rfl hrun
  exact ⟨slab, s, hnew, hrun, htotal, hsilent.1⟩

end ClientRun

end ForgeAlloc
