import ForgeAlloc.Hardening.Telemetry

set_option autoImplicit false

/-! # The capacity of a composition

What a client has out of a composition is never more than its `capacity_bytes`
(`ClientRun.capacity_run_bounds`). Two wrappers answer for a part only: `SizeClassed` for its
classes and `WithFallback` for its primary. There the bound is on the blocks in that part.
-/

namespace ForgeAlloc

open MachineInt ByteMemory

variable {w : Nat}

namespace ExtendableSlab

variable {os : Os} {T : RustType w} {n : Nat} {h : Heap (ExtendableSlab T)}
  {live : Nat → List (Grant w)}

/-- The slots of the segments. -/
def segmentBlocks (os : Os) (s : ExtendableSlab T) : List Block :=
  s.segments.map (Slab.range T (MmapBacked.range w os)).block

theorem Inv.shape (hi : Inv os n ⟨h, [], live⟩) {seg : Segment T} (hseg : seg ∈ h.alloc.segments) :
    Slab.Shape (MmapBacked.range w os) seg := by
  obtain ⟨k, hget⟩ := List.mem_iff_getElem?.mp hseg
  exact (hi.ledgers k seg hget).outstanding.shape

theorem Inv.segmentBlocks_disjoint (hi : Inv os n ⟨h, [], live⟩) :
    (segmentBlocks os h.alloc).Pairwise fun b c => Disjoint b.bytes c.bytes := by
  have hapart : (h.alloc.segments.map mapping).Pairwise _ := hi.apart_segments
  rw [segmentBlocks, List.pairwise_map]
  rw [List.pairwise_map] at hapart
  refine hapart.imp_of_mem fun hseg hseg' hdisj => ?_
  exact hdisj.mono (range_subset_mapping (hi.shape hseg)) (range_subset_mapping (hi.shape hseg'))

/-- The sum over the segments does not wrap: they are disjoint ranges of the address space. -/
theorem Inv.capacityBytes_eq (hi : Inv os n ⟨h, [], live⟩) :
    h.alloc.capacityBytes = some ((segmentBlocks os h.alloc).map Block.len).sum := by
  have hlen : h.alloc.segments.map (fun seg => seg.capacity * seg.blockStride) =
      (segmentBlocks os h.alloc).map Block.len := by
    rw [segmentBlocks, List.map_map]
    rfl
  have hle : ((segmentBlocks os h.alloc).map Block.len).sum ≤ 2 ^ w - 1 := by
    refine sum_len_le hi.segmentBlocks_disjoint ?_
    intro b hb
    obtain ⟨seg, hseg, rfl⟩ := List.mem_map.mp hb
    have hs := hi.shape hseg
    have hspace := Slab.region_inSpace hs
    have hpos := hs.base_pos
    rintro x ⟨hge, hlt⟩
    simp only [FixedRange.block, Slab.range, Slab.basePtr] at hge hlt hspace
    exact ⟨by omega, by omega⟩
  have hpos : 0 < 2 ^ w := Nat.two_pow_pos w
  rw [capacityBytes, hlen, foldl_wrappingAdd (by omega), Nat.zero_add]

end ExtendableSlab

/-- A component with a range keeps its blocks there. -/
theorem Component.Lawful.within_range {σ : Type} {C : Component w σ} (hC : C.Lawful)
    {R : FixedRange σ} {c : Block} (hR : C.range = some (R, c)) {h : Heap σ} {L : Set (Grant w)}
    {g : Grant w} (hinv : C.inv h L) (hg : g ∈ L) :
    ∃ c ∈ [R.block h.alloc], g.block.bytes ⊆ c.bytes := by
  obtain ⟨hterritory, hblock⟩ := hC.range_spec hR
  refine ⟨_, List.mem_singleton_self _, ?_⟩
  rw [(hblock hinv).1, ← hterritory]
  exact hC.subset hinv hg

/-- The block that a guard hands out is where the inner one is. -/
theorem Guard.Holds.within {σ τ κ π : Type} {W : Guard w σ τ κ π} {P : κ → Carving w → Mem → Prop}
    {I : Heap σ → Set (Grant w) → Prop} {h : Heap τ} {K : Set (Carving w)} {c : Carving w}
    {cs : List Block} (hh : W.Holds P I h K) (hP : ∀ k, Carves (P k)) (hc : c ∈ K)
    (hin : ∃ b ∈ cs, c.inner.block.bytes ⊆ b.bytes) :
    ∃ b ∈ cs, c.user.block.bytes ⊆ b.bytes := by
  obtain ⟨b, hb, hsub⟩ := hin
  exact ⟨b, hb, ((hP _).subset (hh.holds c hc)).trans hsub⟩

namespace Metered

variable {σ : Type} {C : Component w σ} {t : Telemetry σ} {h : Heap σ} {L : Set (Grant w)}
  {g : Grant w} {n : Nat}

/-- The capacity is the length of the ranges it is about. -/
theorem capacity_eq (hC : Metered C t) (hinv : C.inv h L)
    (hcap : t.capacityBytes h.alloc = some n) :
    n = ((t.home h.alloc).map Block.len).sum := by
  induction hC generalizing L n with
  | bumpArena | stackAlloc | sharedBumpArena | mmapBacked | slab | slabOwner =>
      cases hcap
      exact List.sum_singleton.symm
  | extendableSlab =>
      obtain ⟨⟨live, -, ht⟩, -⟩ := hinv
      exact Option.some.inj (hcap.symm.trans ht.inv.capacityBytes_eq)
  | sizeClassed =>
      have hsum := foldlM_checkedAdd hcap
      rw [Nat.zero_add] at hsum
      rw [hsum]
      simp only [SizeClassed.telemetry, List.map_map]
      rfl
  | withFallback _ _ _ _ ihP =>
      obtain ⟨LP, LS, -, hh⟩ := hinv
      exact ihP hh.primary hcap
  | forwarder _ F k ih =>
      obtain ⟨⟨K, -, hh⟩, -⟩ := hinv
      exact ih hh.inner hcap
  | quarantine _ E ih =>
      obtain ⟨G, hh⟩ := hinv
      exact ih hh.inner hcap
  | cacheJitter _ p ih =>
      obtain ⟨⟨K, -, hh⟩, -⟩ := hinv
      exact ih hh.inner hcap
  | canary _ value ih =>
      obtain ⟨⟨K, -, hh⟩, -⟩ := hinv
      exact ih hh.inner hcap
  | onFree _ S ih => exact ih (h := S.heap h) hinv hcap

/-- Where nothing overflows, every block is in one of the ranges. -/
theorem within_home (hC : Metered C t) (hover : t.overflows = false) (hinv : C.inv h L)
    (hg : g ∈ L) : ∃ c ∈ t.home h.alloc, g.block.bytes ⊆ c.bytes := by
  induction hC generalizing L g with
  | bumpArena hR hbase c => exact (BumpArena.lawful hR hbase c).within_range rfl hinv hg
  | stackAlloc hR hbase c => exact (StackAlloc.lawful hR hbase c).within_range rfl hinv hg
  | sharedBumpArena hbase hend c =>
      exact (SharedBumpArena.Handle.lawful hbase hend c).within_range rfl hinv hg
  | mmapBacked os hbase c => exact (MmapBacked.lawful w os hbase c).within_range rfl hinv hg
  | slab T R n c => exact (Slab.lawful T R n c).within_range rfl hinv hg
  | slabOwner T R n c => exact (OwnerView.lawful T R n c).within_range rfl hinv hg
  | extendableSlab =>
      obtain ⟨⟨live, rfl, ht⟩, -⟩ := hinv
      obtain ⟨k, hk⟩ := hg
      obtain ⟨seg, hget⟩ := ht.inv.exists_segment hk
      have hmem := List.mem_of_getElem? hget
      exact ⟨_, List.mem_map_of_mem hmem,
        ((ht.inv.ledgers k seg hget).subset_region hk).trans (Slab.region_subset_range _ _)⟩
  | sizeClassed | withFallback => cases hover
  | forwarder _ F k ih =>
      obtain ⟨⟨K, rfl, hh⟩, -⟩ := hinv
      obtain ⟨c, hc, rfl⟩ := hg
      exact hh.within F.carves hc (ih hover hh.inner (Set.mem_image_of_mem _ hc))
  | quarantine _ E ih =>
      obtain ⟨G, hh⟩ := hinv
      exact ih hover hh.inner (Or.inl hg)
  | @cacheJitter _ C _ _ p ih =>
      obtain ⟨⟨K, rfl, hh⟩, -⟩ := hinv
      obtain ⟨c, hc, rfl⟩ := hg
      exact hh.within (CacheJitter.sound C.calls).carves hc
        (ih hover hh.inner (Set.mem_image_of_mem _ hc))
  | @canary _ C _ _ value ih =>
      obtain ⟨⟨K, rfl, hh⟩, -⟩ := hinv
      obtain ⟨c, hc, rfl⟩ := hg
      exact hh.within (Canary.sound C.calls).carves hc
        (ih hover hh.inner (Set.mem_image_of_mem _ hc))
  | onFree _ S ih => exact ih (h := S.heap h) hover hinv hg

end Metered

namespace ClientRun

variable {ι σ : Type} [DecidableEq ι] {C : Component w σ} {t : Telemetry σ} {n : Nat}
  {s : ClientRun w ι σ}

omit [DecidableEq ι] in
/-- The blocks of some objects. -/
theorem Agrees.pairwise_disjoint {a : ObjectStore.Store ι} (h : Agrees C s a) {names : List ι}
    (hnodup : names.Nodup) :
    ((names.filterMap s.objects).map Grant.block).Pairwise
      fun b c => Disjoint b.bytes c.bytes := by
  rw [List.pairwise_map, List.pairwise_filterMap]
  refine hnodup.imp fun hne g hg g' hg' => ?_
  exact h.represents.disjoint _ _ _ _ hne (congrArg (Option.map Grant.block) hg)
    (congrArg (Option.map Grant.block) hg')

/-- **A client never has more out than `capacity_bytes`.** In any state that a run of a client over
a composition of `Metered` reaches, take some of its objects. If the composition holds no
`SizeClassed` and no `WithFallback`, the slices of the objects are together at most as long as the
capacity. With one of them the same holds of objects that lie in the classes or in the primary,
whatever is out beside them. -/
theorem capacity_run_bounds (hC : Metered C t) {h : Heap σ} (hstart : C.inv h ∅)
    {ops : List (ClientOp w ι)} (hrun : Machine.run (step C) ⟨h, fun _ => none⟩ ops = some s)
    (hcap : t.capacityBytes s.heap.alloc = some n) {names : List ι} (hnodup : names.Nodup)
    (hhome : t.overflows = false ∨ ∀ i ∈ names, ∀ g, s.objects i = some g →
      ∃ c ∈ t.home s.heap.alloc, g.block.bytes ⊆ c.bytes) :
    ((names.filterMap s.objects).map fun g => g.block.len).sum ≤ n := by
  obtain ⟨-, a, -, -, hagrees⟩ := Machine.run_simulation
    (fun s a op s' => agrees_step hC.lawful hC.honours op) (agrees_start hstart) hrun
  have hin : ∀ b ∈ (names.filterMap s.objects).map Grant.block,
      ∃ c ∈ t.home s.heap.alloc, b.bytes ⊆ c.bytes := by
    intro b hb
    obtain ⟨g, hg, rfl⟩ := List.mem_map.mp hb
    obtain ⟨i, hi, hg⟩ := List.mem_filterMap.mp hg
    rcases hhome with hover | hhome
    · exact hC.within_home hover hagrees.inv (mem_live hg)
    · exact hhome i hi g hg
  have hsum := sum_len_le_sum_len (hagrees.pairwise_disjoint hnodup) hin
  rw [← hC.capacity_eq hagrees.inv hcap, List.map_map] at hsum
  exact hsum

/-- Poison over a jitter over a slab of four pages of 256 bytes: a word and a wide word are out. -/
theorem capacity_run_bounds_pages : ∃ slab s,
    Slab.withProtection ScrubRun.pageArena ScrubRun.pages ScrubRun.page 4 .none
        ScrubRun.emptyPages = some slab ∧
      Machine.run (step (PoisonOnFree.scrubber.component (ScrubRun.jitteredPages slab)))
        ⟨ScrubRun.poisoned slab, fun _ => none⟩
        [.allocate 0 ScrubRun.word, .allocate 1 ScrubRun.wideWord, .write 0 3 7] = some s ∧
      s.heap.alloc.inner.inner.capacity * s.heap.alloc.inner.inner.blockStride = 1024 ∧
      (([0, 1].filterMap s.objects).map fun g => g.block.len).sum ≤ 1024 := by
  have hsome : ((Slab.withProtection ScrubRun.pageArena ScrubRun.pages ScrubRun.page 4 .none
      ScrubRun.emptyPages).bind fun slab =>
        (Machine.run (step (PoisonOnFree.scrubber.component (ScrubRun.jitteredPages slab)))
          ⟨ScrubRun.poisoned slab, fun _ => none⟩
          [.allocate 0 ScrubRun.word, .allocate 1 ScrubRun.wideWord, .write 0 3 7]).map fun s =>
            s.heap.alloc.inner.inner.capacity * s.heap.alloc.inner.inner.blockStride) =
      some 1024 := by decide +kernel
  obtain ⟨slab, hnew, hmap⟩ := Option.bind_eq_some_iff.mp hsome
  obtain ⟨s, hrun, hcap⟩ := Option.map_eq_some_iff.mp hmap
  have hC : Metered (PoisonOnFree.scrubber.component (ScrubRun.jitteredPages slab)) _ :=
    .onFree (.cacheJitter (.slab ScrubRun.page ScrubRun.pages 4 _) ScrubRun.oneLine)
      PoisonOnFree.scrubber
  exact ⟨slab, s, hnew, hrun, hcap, capacity_run_bounds hC (ScrubRun.poisoned_fresh hnew) hrun
    (congrArg some hcap) (by decide) (Or.inl rfl)⟩

end ClientRun

end ForgeAlloc
