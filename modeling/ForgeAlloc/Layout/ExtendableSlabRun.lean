import ForgeAlloc.Core.Ledger
import ForgeAlloc.Layout.ExtendableSlab
import ForgeAlloc.Library.InFlight
import ForgeAlloc.Library.Run

set_option autoImplicit false

/-! # Threads on one `ExtendableSlab`

Any number of threads allocate and free. A label of the machine is one critical section, or the
construction of a segment between two of them:

* `begin`: phase 1 of an `allocate`. The call is over, or goes on to build a segment;
* `build`: the construction, with what the system and the policy factory answer. It may fail;
* `install`: phase 3;
* `free`: a `deallocate` of a live block;
* `write`: a byte of a live block, or one outside all mappings, changes.

The system maps a segment inside the address space and apart from all mappings there are. The
ledgers `live` are those of the segments, by their number.
-/

namespace ForgeAlloc

namespace ExtendableSlab

open MachineInt ByteMemory

variable {w : Nat} {T : RustType w}

/-- A call of `allocate` between its critical sections: the length of the list at the end of
phase 1, and the new segment once it is built. -/
structure Call (T : RustType w) where
  thread : Nat
  layout : NonZeroLayout w
  lenBefore : Nat
  newSeg : Option (Segment T)

structure Shared (T : RustType w) where
  heap : Heap (ExtendableSlab T)
  calls : List (Call T)
  live : Nat → List (Grant w)

inductive Event (w : Nat)
  | begin (thread : Nat) (l : NonZeroLayout w)
  | build (i : Nat) (x : Supply)
  | install (i : Nat)
  | free (k : Nat) (g : Grant w)
  | write (a : Nat) (v : UInt8)

namespace Shared

def segments (s : Shared T) : List (Segment T) := s.heap.alloc.segments

/-- The segments that are built and not installed. -/
def spares (s : Shared T) : List (Segment T) := s.calls.flatMap fun c => c.newSeg.toList

def init (h : Heap (ExtendableSlab T)) : Shared T := ⟨h, [], fun _ => []⟩

/-- What the system promises of the mapping of a new segment. -/
def MapsApart (s : Shared T) (seg : Segment T) : Prop :=
  (mapping seg).ptr + (mapping seg).len < 2 ^ w ∧
    ∀ seg' ∈ s.segments ++ s.spares, Disjoint (mapping seg).bytes (mapping seg').bytes

instance (s : Shared T) (seg : Segment T) : Decidable (s.MapsApart seg) :=
  inferInstanceAs (Decidable (_ ∧ _))

/-- The program may write the byte at `a`. -/
def MayWrite (s : Shared T) (a : Nat) : Prop :=
  (∃ k < s.segments.length, ∃ g ∈ s.live k, a ∈ g.block.bytes) ∨
    ∀ seg ∈ s.segments ++ s.spares, a ∉ (mapping seg).bytes

instance (s : Shared T) (a : Nat) : Decidable (s.MayWrite a) :=
  inferInstanceAs (Decidable (_ ∨ _))

/-- The block `g` of the segment number `k` is live. -/
def Owns (s : Shared T) (k : Nat) (g : Grant w) : Prop := g ∈ s.live k

instance (s : Shared T) (k : Nat) (g : Grant w) : Decidable (s.Owns k g) :=
  inferInstanceAs (Decidable (g ∈ s.live k))

/-- The block `b` of the segment number `k` is handed out for `l`. -/
def issue (s : Shared T) (k : Nat) (b : Block) (l : NonZeroLayout w) : Nat → List (Grant w) :=
  Function.update s.live k (⟨b, l⟩ :: s.live k)

end Shared

def step (os : Os) (s : Shared T) : Event w → Option (Shared T)
  | .begin t l =>
      if ∃ c ∈ s.calls, c.thread = t then none
      else
        match fromExisting os l s.heap with
        | (some (k, b), h) => some ⟨h, s.calls, s.issue k b l⟩
        | (none, h) => some ⟨h, ⟨t, l, h.alloc.segments.length, none⟩ :: s.calls, s.live⟩
  | .build i x =>
      match s.calls[i]? with
      | some ⟨t, l, len, none⟩ =>
          match buildSegment os T s.heap.alloc.segmentCapacity x s.heap.mem with
          | none => some { s with calls := InFlight.replace s.calls i none }
          | some g =>
              if s.MapsApart g.alloc then
                some ⟨⟨s.heap.alloc, g.mem⟩,
                  InFlight.replace s.calls i (some ⟨t, l, len, some g.alloc⟩), s.live⟩
              else none
      | _ => none
  | .install i =>
      match s.calls[i]? with
      | some ⟨_, l, len, some newSeg⟩ =>
          match install os l len newSeg s.heap with
          | (some (k, b), h) => some ⟨h, InFlight.replace s.calls i none, s.issue k b l⟩
          | (none, h) => some ⟨h, InFlight.replace s.calls i none, s.live⟩
      | _ => none
  | .free k g =>
      if s.Owns k g then
        some { s with
          heap := deallocate os g.block.ptr g.layout s.heap
          live := Function.update s.live k ((s.live k).erase g) }
      else none
  | .write a v =>
      if s.MayWrite a then
        some { s with heap := ⟨s.heap.alloc, writeByte s.heap.mem a v⟩ }
      else none

/-! ## The invariant -/

variable {os : Os} {n : Nat} {s s' : Shared T} {l : NonZeroLayout w} {seg seg' : Segment T}
  {k : Nat} {b : Block} {g : Grant w}

structure Inv (os : Os) (n : Nat) (s : Shared T) : Prop where
  capacity_eq : s.heap.alloc.segmentCapacity = n
  ledgers : Ledgers os n s.live s.segments s.heap.mem
  unissued : ∀ k, s.segments.length ≤ k → s.live k = []
  spare : ∀ seg ∈ s.spares, Slab.Issues (MmapBacked.range w os) n ⟨seg, s.heap.mem⟩ []
  apart : Apart (s.segments ++ s.spares)
  stride_eq : ∀ seg ∈ s.segments ++ s.spares, seg.blockStride = strideOf T
  lenBefore_le : ∀ c ∈ s.calls, c.lenBefore ≤ s.segments.length
  hint : s.heap.alloc.firstOpenHint < s.segments.length ∨ s.heap.alloc.firstOpenHint = 0

theorem Apart.subperm {xs ys : List (Segment T)} (ha : Apart xs) (h : ys.Subperm xs) : Apart ys := by
  obtain ⟨zs, hperm, hsub⟩ := h
  have hzs : (zs.map mapping).Pairwise fun b c => Disjoint b.bytes c.bytes :=
    List.Pairwise.sublist (hsub.map mapping) ha
  exact (hperm.map mapping).pairwise_iff (fun {b c} hbc => Disjoint.symm hbc) |>.mp hzs

theorem Inv.apart_segments (hi : Inv os n s) : Apart s.segments :=
  hi.apart.subperm (List.sublist_append_left _ _).subperm

theorem Inv.exists_segment (hi : Inv os n s) (hg : g ∈ s.live k) :
    ∃ seg, s.segments[k]? = some seg := by
  have hlt : k < s.segments.length := by
    by_contra hle
    rw [hi.unissued k (Nat.le_of_not_lt hle)] at hg
    cases hg
  exact ⟨_, List.getElem?_eq_getElem hlt⟩

/-- One segment gets a new value of the same shape. -/
theorem apart_set {segs spares : List (Segment T)} (ha : Apart (segs ++ spares))
    (hget : segs[k]? = some seg) (hs : Slab.SameShape seg seg') :
    Apart (segs.set k seg' ++ spares) := by
  unfold Apart at ha ⊢
  rw [List.map_append] at ha ⊢
  rw [map_mapping_set hget (mapping_congr hs)]
  exact ha

theorem stride_set {segs spares : List (Segment T)}
    (hstride : ∀ seg ∈ segs ++ spares, seg.blockStride = strideOf T)
    (hget : segs[k]? = some seg) (hs : Slab.SameShape seg seg') :
    ∀ seg ∈ segs.set k seg' ++ spares, seg.blockStride = strideOf T := by
  obtain ⟨head, carved, events, rfl⟩ := hs
  intro seg₁ hmem
  rcases List.mem_append.mp hmem with hset | hspare
  · rcases List.mem_or_eq_of_mem_set hset with hold | rfl
    · exact hstride seg₁ (List.mem_append_left _ hold)
    · exact hstride seg (List.mem_append_left _ (List.mem_of_getElem? hget))
  · exact hstride seg₁ (List.mem_append_right _ hspare)

theorem hint_set {segs : List (Segment T)} {old hint : Nat}
    (hold : old < segs.length ∨ old = 0) (hget : segs[k]? = some seg)
    (hhint : hint = old ∨ hint = k) :
    hint < (segs.set k seg').length ∨ hint = 0 := by
  have hlt := lt_length_of_getElem? hget
  rw [List.length_set]
  omega

theorem unissued_update {live : Nat → List (Grant w)} {len : Nat} {G : List (Grant w)}
    (hnone : ∀ j, len ≤ j → live j = []) (hlt : k < len) :
    ∀ j, len ≤ j → Function.update live k G j = [] := by
  intro j hj
  rw [Function.update_of_ne (by omega)]
  exact hnone j hj

/-- A segment serves a request. -/
theorem Inv.serve (hi : Inv os n s) (hget : s.segments[k]? = some seg)
    (hserves : Serves os l s.heap.mem seg b seg') {hint : Nat}
    (hhint : hint = s.heap.alloc.firstOpenHint ∨ hint = k) :
    Inv os n ⟨⟨{ s.heap.alloc with segments := s.segments.set k seg', firstOpenHint := hint },
      s.heap.mem⟩, s.calls, s.issue k b l⟩ := by
  have hsame := ((hi.ledgers k seg hget).allocate_some hserves).2.2.2
  exact
    { capacity_eq := hi.capacity_eq
      ledgers := hi.ledgers.serve hget hserves
      unissued := fun j hj => unissued_update hi.unissued (lt_length_of_getElem? hget) j
        (List.length_set.symm.trans_le hj)
      spare := hi.spare
      apart := apart_set hi.apart hget hsame
      stride_eq := stride_set hi.stride_eq hget hsame
      lenBefore_le := fun c hc => (hi.lenBefore_le c hc).trans_eq List.length_set.symm
      hint := hint_set hi.hint hget hhint }

/-- Calls come and go. A new segment that is not installed is unmapped. -/
theorem Inv.withCalls (hi : Inv os n s) {calls : List (Call T)}
    (hspare : (calls.flatMap fun c => c.newSeg.toList).Subperm s.spares)
    (hle : ∀ c ∈ calls, c.lenBefore ≤ s.segments.length) :
    Inv os n { s with calls := calls } where
  capacity_eq := hi.capacity_eq
  ledgers := hi.ledgers
  unissued := hi.unissued
  spare := fun seg hseg => hi.spare seg (hspare.subset hseg)
  apart := hi.apart.subperm ((List.subperm_append_left _).mpr hspare)
  stride_eq := fun seg hseg =>
    hi.stride_eq seg (((List.subperm_append_left _).mpr hspare).subset hseg)
  lenBefore_le := hle
  hint := hi.hint

/-- A call is over. -/
theorem Inv.leave (hi : Inv os n s) {i : Nat} {c : Call T} (hc : s.calls[i]? = some c) :
    Inv os n { s with calls := InFlight.replace s.calls i none } := by
  have hperm := InFlight.flatMap_replace_perm (fun c : Call T => c.newSeg.toList) hc none
  refine hi.withCalls ?_ fun d hd => ?_
  · exact (List.sublist_append_right c.newSeg.toList _).subperm.trans hperm.subperm
  · rcases InFlight.mem_replace hd with heq | hmem
    · cases heq
    · exact hi.lenBefore_le d hmem

/-- A segment is built. -/
theorem Inv.built (hi : Inv os n s) {i : Nat} {c : Call T} {x : Supply} {h : Heap (Segment T)}
    (hc : s.calls[i]? = some c) (hnone : c.newSeg = none)
    (hbuild : buildSegment os T s.heap.alloc.segmentCapacity x s.heap.mem = some h)
    (hmaps : s.MapsApart h.alloc) :
    Inv os n ⟨⟨s.heap.alloc, h.mem⟩,
      InFlight.replace s.calls i (some ⟨c.thread, c.layout, c.lenBefore, some h.alloc⟩),
      s.live⟩ := by
  rw [hi.capacity_eq] at hbuild
  obtain ⟨hissues, hmem, hstride⟩ := buildSegment_spec hbuild hmaps.1
  rw [hmem]
  have hperm := InFlight.flatMap_replace_perm (fun c : Call T => c.newSeg.toList) hc
    (some ⟨c.thread, c.layout, c.lenBefore, some h.alloc⟩)
  simp only [hnone, Option.toList_none, List.nil_append, Option.toList_some,
    List.flatMap_cons, List.flatMap_nil, List.append_nil] at hperm
  have hmiddle := (List.Perm.append_left s.segments hperm).trans List.perm_middle
  have hcons : Apart (h.alloc :: (s.segments ++ s.spares)) :=
    List.pairwise_cons.mpr ⟨List.forall_mem_map.mpr hmaps.2, hi.apart⟩
  refine ⟨hi.capacity_eq, hi.ledgers, hi.unissued, fun seg hseg => ?_,
    hcons.subperm hmiddle.subperm, fun seg hseg => ?_, fun d hd => ?_, hi.hint⟩
  · rcases List.mem_cons.mp (hperm.subset hseg) with rfl | hold
    · have hfresh := hissues
      rw [← hmem]
      exact hfresh
    · exact hi.spare seg hold
  · rcases List.mem_cons.mp (hmiddle.subset hseg) with rfl | hold
    · exact hstride
    · exact hi.stride_eq seg hold
  · rcases InFlight.mem_replace hd with heq | hold
    · cases heq
      exact hi.lenBefore_le c (List.mem_of_getElem? hc)
    · exact hi.lenBefore_le d hold

/-- A built segment serves the request of its call and is installed. -/
theorem Inv.pushed (hi : Inv os n s) {i : Nat} {c : Call T} (hc : s.calls[i]? = some c)
    (hsome : c.newSeg = some seg) (hserves : Serves os l s.heap.mem seg b seg') :
    Inv os n ⟨⟨{ s.heap.alloc with segments := s.segments ++ [seg'],
                                   firstOpenHint := s.segments.length }, s.heap.mem⟩,
      InFlight.replace s.calls i none, s.issue s.segments.length b l⟩ := by
  have hperm := InFlight.flatMap_replace_perm (fun c : Call T => c.newSeg.toList) hc none
  simp only [hsome, Option.toList_none, List.flatMap_nil, List.nil_append, Option.toList_some,
    List.singleton_append] at hperm
  have hspare := hi.spare seg (hperm.subset List.mem_cons_self)
  obtain ⟨hissues, -, -, hsame⟩ := hspare.allocate_some hserves
  have happend : (s.segments ++ [seg] ++ (InFlight.replace s.calls i none).flatMap
      fun c : Call T => c.newSeg.toList).Perm (s.segments ++ s.spares) := by
    rw [List.append_assoc]
    exact hperm.append_left _
  have hlen : (s.segments ++ [seg']).length = s.segments.length + 1 := by simp
  have hmap : (s.segments ++ [seg'] ++ (InFlight.replace s.calls i none).flatMap
      fun c : Call T => c.newSeg.toList).map mapping =
      (s.segments ++ [seg] ++ (InFlight.replace s.calls i none).flatMap
        fun c : Call T => c.newSeg.toList).map mapping := by
    simp only [List.map_append, List.map_cons, mapping_congr hsame]
  have hold : Apart _ := hi.apart.subperm happend.subperm
  unfold Apart at hold
  rw [← hmap] at hold
  refine ⟨hi.capacity_eq, ?_, fun j hj => ?_, fun d hd => ?_, hold, fun d hd => ?_,
    fun d hd => ?_, Or.inl (hlen ▸ Nat.lt_succ_self _)⟩
  · unfold Shared.issue
    rw [hi.unissued _ le_rfl]
    exact hi.ledgers.push hissues
  · have hj' : s.segments.length + 1 ≤ j := hlen ▸ hj
    exact unissued_update (fun j hj => hi.unissued j (by omega)) (Nat.lt_succ_self _) j hj'
  · exact hi.spare d (hperm.subset (List.mem_cons_of_mem _ hd))
  · obtain ⟨head, carved, events, rfl⟩ := hsame
    rcases List.mem_append.mp hd with hseg | hrest
    · rcases List.mem_append.mp hseg with hmem | hlast
      · exact hi.stride_eq d (List.mem_append_left _ hmem)
      · rw [List.mem_singleton.mp hlast]
        exact hi.stride_eq seg (List.mem_append_right _ (hperm.subset List.mem_cons_self))
    · exact hi.stride_eq d
        (List.mem_append_right _ (hperm.subset (List.mem_cons_of_mem _ hrest)))
  · show d.lenBefore ≤ (s.segments ++ [seg']).length
    rw [hlen]
    rcases InFlight.mem_replace hd with heq | hmem
    · cases heq
    · exact (hi.lenBefore_le d hmem).trans (Nat.le_succ _)

theorem Inv.spare_disjoint (hi : Inv os n s) (hget : s.segments[k]? = some seg)
    (hspare : seg' ∈ s.spares) : Disjoint (mapping seg').bytes (mapping seg).bytes := by
  have hpair := hi.apart
  unfold Apart at hpair
  rw [List.map_append, List.pairwise_append] at hpair
  exact (hpair.2.2 _ (List.mem_map_of_mem (List.mem_of_getElem? hget)) _
    (List.mem_map_of_mem hspare)).symm

/-- A live block is freed. -/
theorem Inv.freed (hi : Inv os n s) (hg : g ∈ s.live k) :
    Inv os n { s with
      heap := deallocate os g.block.ptr l s.heap
      live := Function.update s.live k ((s.live k).erase g) } := by
  obtain ⟨seg, hget⟩ := hi.exists_segment hg
  have hissues := hi.ledgers k seg hget
  obtain ⟨-, hsame, hframe⟩ := hissues.deallocate (l := l) hg
  rw [hi.ledgers.deallocate hi.apart_segments hget hg]
  exact
    { capacity_eq := hi.capacity_eq
      ledgers := hi.ledgers.free hi.apart_segments hget hg
      unissued := fun j hj => unissued_update hi.unissued (lt_length_of_getElem? hget) j
        (List.length_set.symm.trans_le hj)
      spare := fun seg' hspare => by
        have heqOn := eqOn_region_of_frame (hi.spare seg' hspare).outstanding.shape hissues hg
          (hi.spare_disjoint hget hspare) hframe
        exact (hi.spare seg' hspare).mem_congr (heqOn.mono Set.sdiff_subset)
      apart := apart_set hi.apart hget hsame
      stride_eq := stride_set hi.stride_eq hget hsame
      lenBefore_le := fun c hc => (hi.lenBefore_le c hc).trans_eq List.length_set.symm
      hint := hint_set hi.hint hget (min_choice _ _) }

/-- A write into a live block, or outside the mappings. -/
theorem Inv.wrote (hi : Inv os n s) {a : Nat} (ha : s.MayWrite a) (v : UInt8) :
    Inv os n { s with heap := ⟨s.heap.alloc, writeByte s.heap.mem a v⟩ } := by
  have hseen : ∀ {seg : Segment T} {G : List (Grant w)}, seg ∈ s.segments ++ s.spares →
      Slab.Issues (MmapBacked.range w os) n ⟨seg, s.heap.mem⟩ G →
      (∀ j g, g ∈ s.live j → a ∈ g.block.bytes → a ∈ (mapping seg).bytes → g ∈ G) →
      Slab.Issues (MmapBacked.range w os) n ⟨seg, writeByte s.heap.mem a v⟩ G := by
    intro seg G hseg hissues hown
    refine hissues.mem_congr fun x hx => writeByte_of_ne v ?_
    rintro rfl
    have hxmap : x ∈ (mapping seg).bytes := range_subset_mapping hissues.outstanding.shape
      (Slab.region_subset_range _ _ hx.1)
    rcases ha with ⟨j, -, g, hg, hxg⟩ | hout
    · exact hx.2 ⟨g, hown j g hg hxg hxmap, hxg⟩
    · exact hout seg hseg hxmap
  -- a byte of a live block lies in the mapping of its own segment only
  have hin : ∀ j g, g ∈ s.live j → a ∈ g.block.bytes →
      ∃ seg, s.segments[j]? = some seg ∧ a ∈ (mapping seg).bytes := by
    intro j g hg hag
    obtain ⟨seg, hget⟩ := hi.exists_segment hg
    have hissues := hi.ledgers j seg hget
    exact ⟨seg, hget, range_subset_mapping hissues.outstanding.shape
      (Slab.region_subset_range _ _ (hissues.subset_region hg hag))⟩
  refine ⟨hi.capacity_eq, fun j seg hget => ?_, hi.unissued, fun seg hspare => ?_, hi.apart,
    hi.stride_eq, hi.lenBefore_le, hi.hint⟩
  · refine hseen (List.mem_append_left _ (List.mem_of_getElem? hget)) (hi.ledgers j seg hget)
      fun j' g hg hag hmap => ?_
    obtain ⟨seg', hget', hmap'⟩ := hin j' g hg hag
    by_cases hjj : j' = j
    · exact hjj ▸ hg
    · exact absurd hmap
        (Set.disjoint_left.mp (hi.apart_segments.disjoint hjj hget' hget) hmap')
  · refine hseen (List.mem_append_right _ hspare) (hi.spare seg hspare)
      fun j' g hg hag hmap => ?_
    obtain ⟨seg', hget', hmap'⟩ := hin j' g hg hag
    exact absurd hmap' (Set.disjoint_left.mp (hi.spare_disjoint hget' hspare) hmap)

/-! ## Steps -/

/-- What a step can do. -/
inductive Moves (os : Os) (s : Shared T) : Event w → Shared T → Prop
  | beginServed {t k hint : Nat} {l : NonZeroLayout w} {b : Block} {seg seg' : Segment T}
      (hidle : ∀ c ∈ s.calls, c.thread ≠ t) (hget : s.segments[k]? = some seg)
      (hserves : Serves os l s.heap.mem seg b seg')
      (hhint : hint = s.heap.alloc.firstOpenHint ∨ hint = k) :
      Moves os s (.begin t l) ⟨⟨{ s.heap.alloc with segments := s.segments.set k seg',
                                                    firstOpenHint := hint }, s.heap.mem⟩,
        s.calls, s.issue k b l⟩
  | beginWaits {t : Nat} {l : NonZeroLayout w} (hidle : ∀ c ∈ s.calls, c.thread ≠ t)
      (hall : ∀ seg ∈ s.segments, Refuses os l s.heap.mem seg) :
      Moves os s (.begin t l) { s with calls := ⟨t, l, s.segments.length, none⟩ :: s.calls }
  | buildFailed {i : Nat} {c : Call T} {x : Supply} (hc : s.calls[i]? = some c) :
      Moves os s (.build i x) { s with calls := InFlight.replace s.calls i none }
  | built {i : Nat} {c : Call T} {x : Supply} {h : Heap (Segment T)} (hc : s.calls[i]? = some c)
      (hnone : c.newSeg = none)
      (hbuild : buildSegment os T s.heap.alloc.segmentCapacity x s.heap.mem = some h)
      (hmaps : s.MapsApart h.alloc) :
      Moves os s (.build i x) ⟨⟨s.heap.alloc, h.mem⟩,
        InFlight.replace s.calls i (some ⟨c.thread, c.layout, c.lenBefore, some h.alloc⟩), s.live⟩
  | installServed {i k hint : Nat} {c : Call T} {b : Block} {seg seg' : Segment T}
      (hc : s.calls[i]? = some c) (hget : s.segments[k]? = some seg)
      (hserves : Serves os c.layout s.heap.mem seg b seg')
      (hhint : hint = s.heap.alloc.firstOpenHint ∨ hint = k) :
      Moves os s (.install i) ⟨⟨{ s.heap.alloc with segments := s.segments.set k seg',
                                                    firstOpenHint := hint }, s.heap.mem⟩,
        InFlight.replace s.calls i none, s.issue k b c.layout⟩
  | installed {i : Nat} {c : Call T} {b : Block} {seg seg' : Segment T}
      (hc : s.calls[i]? = some c) (hsome : c.newSeg = some seg)
      (hserves : Serves os c.layout s.heap.mem seg b seg')
      (hall : ∀ seg ∈ s.segments.drop c.lenBefore, Refuses os c.layout s.heap.mem seg) :
      Moves os s (.install i) ⟨⟨{ s.heap.alloc with segments := s.segments ++ [seg'],
                                                    firstOpenHint := s.segments.length },
          s.heap.mem⟩,
        InFlight.replace s.calls i none, s.issue s.segments.length b c.layout⟩
  | refused {i : Nat} {c : Call T} (hc : s.calls[i]? = some c) :
      Moves os s (.install i) { s with calls := InFlight.replace s.calls i none }
  | freed {k : Nat} {g : Grant w} (hg : g ∈ s.live k) :
      Moves os s (.free k g) { s with
        heap := deallocate os g.block.ptr g.layout s.heap
        live := Function.update s.live k ((s.live k).erase g) }
  | wrote {a : Nat} {v : UInt8} (ha : s.MayWrite a) :
      Moves os s (.write a v) { s with heap := ⟨s.heap.alloc, writeByte s.heap.mem a v⟩ }

theorem Inv.moves (hi : Inv os n s) {e : Event w} (hstep : step os s e = some s') :
    Moves os s e s' := by
  cases e with
  | begin t l =>
      simp only [step] at hstep
      split at hstep
      · cases hstep
      case isFalse hidle =>
          have hidle' : ∀ c ∈ s.calls, c.thread ≠ t := fun c hc heq => hidle ⟨c, hc, heq⟩
          generalize hout : fromExisting os l s.heap = out at hstep
          cases hout ▸ hi.ledgers.fromExisting (l := l) with
          | served hget hserves hhint =>
              cases hstep
              exact .beginServed hidle' hget hserves hhint
          | refused hall =>
              cases hstep
              exact .beginWaits hidle' hall
  | build i x =>
      simp only [step] at hstep
      split at hstep
      case h_1 t l len hc =>
          split at hstep
          · cases hstep
            exact .buildFailed hc
          case h_2 g hbuild =>
              split at hstep
              case isTrue hmaps =>
                  cases hstep
                  exact .built hc rfl hbuild hmaps
              case isFalse => cases hstep
      case h_2 => cases hstep
  | install i =>
      simp only [step] at hstep
      split at hstep
      case h_1 t l len newSeg hc =>
          have hmem := List.mem_of_getElem? hc
          have hspare : newSeg ∈ s.spares :=
            List.mem_flatMap.mpr ⟨_, hmem, List.mem_singleton_self _⟩
          generalize hout : ExtendableSlab.install os l len newSeg s.heap = out at hstep
          cases hout ▸ hi.ledgers.install (l := l) (hi.lenBefore_le _ hmem)
              (hi.spare newSeg hspare) with
          | served hget hserves hhint =>
              cases hstep
              exact .installServed hc hget hserves hhint
          | pushed hserves hall =>
              cases hstep
              exact .installed hc rfl hserves hall
          | refused =>
              cases hstep
              exact .refused hc
      case h_2 => cases hstep
  | free k g =>
      simp only [step] at hstep
      split at hstep
      case isTrue hg =>
          cases hstep
          exact .freed hg
      case isFalse => cases hstep
  | write a v =>
      simp only [step] at hstep
      split at hstep
      case isTrue ha =>
          cases hstep
          exact .wrote ha
      case isFalse => cases hstep

/-- **Every step keeps the invariant.** -/
theorem Inv.step (hi : Inv os n s) {e : Event w} (hstep : step os s e = some s') :
    Inv os n s' := by
  cases hi.moves hstep with
  | beginServed hidle hget hserves hhint => exact hi.serve hget hserves hhint
  | beginWaits hidle hall =>
      exact hi.withCalls (List.Subperm.refl _)
        (List.forall_mem_cons.mpr ⟨le_rfl, hi.lenBefore_le⟩)
  | buildFailed hc => exact hi.leave hc
  | built hc hnone hbuild hmaps => exact hi.built hc hnone hbuild hmaps
  | installServed hc hget hserves hhint =>
      exact (hi.leave hc).serve hget hserves hhint
  | installed hc hsome hserves hall => exact hi.pushed hc hsome hserves
  | refused hc => exact hi.leave hc
  | freed hg => exact hi.freed hg
  | wrote ha => exact hi.wrote ha _

/-! ## Runs -/

/-- What the system promises of the mappings of the initial segments. -/
structure MappedApart (segs : List (Segment T)) : Prop where
  apart : Apart segs
  inSpace : ∀ seg ∈ segs, (mapping seg).ptr + (mapping seg).len < 2 ^ w

variable {count : Nat} {supply : Nat → Supply} {m : Mem} {h₀ : Heap (ExtendableSlab T)}

/-- The segments of a new value are empty. -/
theorem withInitialSegments_spec (hnew : withInitialSegments os T count n supply m = some h₀) :
    h₀.alloc.segmentCapacity = n ∧ h₀.alloc.firstOpenHint = 0 ∧ h₀.mem = m ∧
      ∀ seg ∈ h₀.alloc.segments, (mapping seg).ptr + (mapping seg).len < 2 ^ w →
        Slab.Issues (MmapBacked.range w os) n ⟨seg, m⟩ [] ∧ seg.blockStride = strideOf T := by
  simp only [withInitialSegments, Option.bind_eq_bind, Option.bind_eq_some_iff] at hnew
  obtain ⟨h, hfold, hsome⟩ := hnew
  cases hsome
  refine ⟨rfl, rfl, ?_⟩
  refine Machine.run_invariant (P := fun h : Heap (List (Segment T)) => h.mem = m ∧
    ∀ seg ∈ h.alloc, (mapping seg).ptr + (mapping seg).len < 2 ^ w →
      Slab.Issues (MmapBacked.range w os) n ⟨seg, m⟩ [] ∧ seg.blockStride = strideOf T)
    (fun h k h' hh hstep => ?_) ⟨rfl, List.forall_mem_nil _⟩ hfold
  simp only [Option.bind_eq_some_iff] at hstep
  obtain ⟨g, hbuild, hsome⟩ := hstep
  cases hsome
  rw [hh.1] at hbuild
  have hmem : g.mem = m := buildSegment_mem hbuild
  refine ⟨hmem, fun seg hseg hspace => ?_⟩
  rcases List.mem_append.mp hseg with hold | hlast
  · exact hh.2 seg hold hspace
  · rw [List.mem_singleton.mp hlast] at hspace ⊢
    obtain ⟨hissues, -, hstride⟩ := buildSegment_spec hbuild hspace
    refine ⟨?_, hstride⟩
    rw [← hmem]
    exact hissues

theorem inv_init (hnew : withInitialSegments os T count n supply m = some h₀)
    (hmapped : MappedApart h₀.alloc.segments) : Inv os n (Shared.init h₀) := by
  obtain ⟨hcap, hhint, hmem, hsegs⟩ := withInitialSegments_spec hnew
  subst hmem
  exact
    { capacity_eq := hcap
      ledgers := fun k seg hget =>
        (hsegs seg (List.mem_of_getElem? hget)
          (hmapped.inSpace seg (List.mem_of_getElem? hget))).1
      unissued := fun _ _ => rfl
      spare := List.forall_mem_nil _
      apart := (List.append_nil h₀.alloc.segments).symm ▸ hmapped.apart
      stride_eq := fun seg hseg => by
        have hold : seg ∈ h₀.alloc.segments := List.append_nil h₀.alloc.segments ▸ hseg
        exact (hsegs seg hold (hmapped.inSpace seg hold)).2
      lenBefore_le := List.forall_mem_nil _
      hint := Or.inr hhint }

variable {s₀ : Shared T} {es : List (Event w)} {e : Event w} {c : Call T}

theorem Inv.run (hi : Inv os n s₀) (hrun : Machine.run (ExtendableSlab.step os) s₀ es = some s) :
    Inv os n s :=
  Machine.run_invariant (fun _ _ _ hi hstep => hi.step hstep) hi hrun

/-- Phase 1 of the call `c` in the run `es`: the last `begin` of its thread. No segment of that
moment served the request. -/
def Began (os : Os) (s₀ : Shared T) (es : List (Event w)) (c : Call T) : Prop :=
  ∃ es₁ es₂ t, es = es₁ ++ .begin c.thread c.layout :: es₂ ∧
    (∀ l, Event.begin c.thread l ∉ es₂) ∧ Machine.run (step os) s₀ es₁ = some t ∧
    t.segments.length = c.lenBefore ∧
    ∀ seg ∈ t.segments, Refuses os c.layout t.heap.mem seg

theorem Began.extend (hb : Began os s₀ es c) (he : ∀ l, e ≠ .begin c.thread l) :
    Began os s₀ (es ++ [e]) c := by
  obtain ⟨es₁, es₂, t, rfl, hlast, hrun, hlen, hall⟩ := hb
  refine ⟨es₁, es₂ ++ [e], t, by rw [List.append_assoc, List.cons_append], fun l hl => ?_, hrun,
    hlen, hall⟩
  rcases List.mem_append.mp hl with hold | hnew
  · exact hlast l hold
  · exact he l (List.mem_singleton.mp hnew).symm

/-- Every call in flight has begun with a scan that found nothing. -/
theorem Inv.began (hi : Inv os n s₀) (hidle : s₀.calls = [])
    (hrun : Machine.run (ExtendableSlab.step os) s₀ es = some s) :
    ∀ c ∈ s.calls, Began os s₀ es c := by
  refine Machine.run_induction (P := fun es s => ∀ c ∈ s.calls, Began os s₀ es c)
    (hidle ▸ List.forall_mem_nil _) (fun es t e t' hrun hb hstep => ?_) hrun
  have hleave : ∀ {i : Nat}, (∀ t l, e ≠ .begin t l) →
      ∀ d ∈ InFlight.replace t.calls i none, Began os s₀ (es ++ [e]) d := by
    intro i hne d hd
    rcases InFlight.mem_replace hd with heq | hmem
    · cases heq
    · exact (hb d hmem).extend (hne _)
  cases (hi.run hrun).moves hstep with
  | beginServed hidle =>
      intro d hd
      refine (hb d hd).extend fun l heq => ?_
      cases heq
      exact hidle d hd rfl
  | @beginWaits t l hidle hall =>
      refine List.forall_mem_cons.mpr ⟨⟨es, [], _, rfl, fun _ => List.not_mem_nil, hrun, rfl,
        hall⟩, fun d hd => (hb d hd).extend fun l heq => ?_⟩
      cases heq
      exact hidle d hd rfl
  | buildFailed => exact hleave fun t l heq => by cases heq
  | built hc =>
      intro d hd
      rcases InFlight.mem_replace hd with heq | hmem
      · cases heq
        exact (hb _ (List.mem_of_getElem? hc)).extend fun l heq => by cases heq
      · exact (hb d hmem).extend fun l heq => by cases heq
  | installServed => exact hleave fun t l heq => by cases heq
  | installed => exact hleave fun t l heq => by cases heq
  | refused => exact hleave fun t l heq => by cases heq
  | freed => exact fun d hd => (hb d hd).extend fun l heq => by cases heq
  | wrote => exact fun d hd => (hb d hd).extend fun l heq => by cases heq

/-! ## Full segments -/

/-- The request fits the slots of the segments. -/
def Fits (T : RustType w) (l : NonZeroLayout w) : Prop :=
  l.align ≤ max T.align freeLinkAlign ∧ l.size ≤ strideOf T

/-- A segment that refuses a request that fits its slots has all of them out. -/
theorem Inv.full_of_refuses_at (hi : Inv os n s) (hfits : Fits T l)
    (hget : s.segments[k]? = some seg) (hrefuses : Refuses os l s.heap.mem seg) :
    (s.live k).length = n := by
  have hslot : seg.FitsSlot l := by
    unfold Slab.FitsSlot
    rw [hi.stride_eq seg (List.mem_append_left _ (List.mem_of_getElem? hget))]
    exact hfits
  have hfull := ((hi.ledgers k seg hget).outstanding.allocate_eq_none_iff hslot).mp hrefuses
  rwa [List.length_map] at hfull

theorem Inv.full_of_refuses (hi : Inv os n s) (hfits : Fits T l)
    (hall : ∀ seg ∈ s.segments, Refuses os l s.heap.mem seg) (hk : k < s.segments.length) :
    (s.live k).length = n :=
  hi.full_of_refuses_at hfits (List.getElem?_eq_getElem hk) (hall _ (List.getElem_mem hk))

/-- A segment that serves a request has slots that the request fits. -/
theorem Inv.fits_of_serves (hi : Inv os n s) (hspare : seg ∈ s.spares)
    (hserves : Serves os l s.heap.mem seg b seg') : Fits T l := by
  have hslot := ((hi.spare seg hspare).outstanding.allocate_some hserves).1
  unfold Slab.FitsSlot at hslot
  rw [hi.stride_eq seg (List.mem_append_right _ hspare)] at hslot
  exact hslot

/-! ## The slab in every run -/

/-- Every live block is a slot of its segment, and no two of them are the same slot. -/
structure LiveApart (os : Os) (s : Shared T) : Prop where
  slot : ∀ k g, g ∈ s.live k → ∃ seg i, s.segments[k]? = some seg ∧ i < seg.capacity ∧
    g.block = SlotPool.slot (seg.basePtr (MmapBacked.range w os)) seg.blockStride i
  nodup : ∀ k, (s.live k).Nodup
  disjoint : ∀ k k' g g', g ∈ s.live k → g' ∈ s.live k' → (k ≠ k' ∨ g ≠ g') →
    Disjoint g.block.bytes g'.block.bytes

/-- The list of segments has grown at its end, by at most one, and the segments that were there have
changed in their free slots only. -/
structure Appended (s s' : Shared T) : Prop where
  kept : ∀ (k : Nat) (seg : Segment T), s.segments[k]? = some seg →
    ∃ seg' : Segment T, s'.segments[k]? = some seg' ∧ Slab.SameShape seg seg'
  length_le : s'.segments.length ≤ s.segments.length + 1

/-- The block `g` of the segment number `k` is freed, and in that segment. -/
def FreedIn (os : Os) (s s' : Shared T) (k : Nat) (g : Grant w) : Prop :=
  ∃ seg, s.segments[k]? = some seg ∧ route os g.block.ptr s.segments = some k ∧
    s'.segments = s.segments.set k
      (Slab.deallocate (MmapBacked.range w os) g.block.ptr g.layout ⟨seg, s.heap.mem⟩).alloc ∧
    s'.heap.mem =
      (Slab.deallocate (MmapBacked.range w os) g.block.ptr g.layout ⟨seg, s.heap.mem⟩).mem

/-- The step after the run `es` is the end of a call that installs its segment. Every segment was
full when the call began, in a state `t` of the run, and the segments installed since are full. -/
def InstalledLast (os : Os) (n : Nat) (s₀ : Shared T) (es : List (Event w)) (s : Shared T)
    (e : Event w) (s' : Shared T) : Prop :=
  ∃ i c, e = .install i ∧ s.calls[i]? = some c ∧ s'.calls = InFlight.replace s.calls i none ∧
    (∃ es₁ es₂ t, es = es₁ ++ .begin c.thread c.layout :: es₂ ∧
      (∀ l, Event.begin c.thread l ∉ es₂) ∧ Machine.run (step os) s₀ es₁ = some t ∧
      t.segments.length = c.lenBefore ∧ ∀ k < c.lenBefore, (t.live k).length = n) ∧
    ∀ k, c.lenBefore ≤ k → k < s.segments.length → (s.live k).length = n

/-- The label is a part of an `allocate`. -/
def Event.ofAllocate : Event w → Bool
  | .begin _ _ | .build _ _ | .install _ => true
  | .free _ _ | .write _ _ => false

theorem Inv.liveApart (hi : Inv os n s) : LiveApart os s where
  slot := by
    intro k g hg
    obtain ⟨seg, hget⟩ := hi.exists_segment hg
    obtain ⟨i, hlt, heq⟩ := (hi.ledgers k seg hget).block_eq_slot hg
    exact ⟨seg, i, hget, hlt, heq⟩
  nodup := by
    intro k
    by_cases hlt : k < s.segments.length
    · exact (hi.ledgers k _ (List.getElem?_eq_getElem hlt)).outstanding.nodup.of_map _
    · rw [hi.unissued k (Nat.le_of_not_lt hlt)]
      exact List.nodup_nil
  disjoint := by
    intro k k' g g' hg hg' hne
    obtain ⟨seg, hget⟩ := hi.exists_segment hg
    obtain ⟨seg', hget'⟩ := hi.exists_segment hg'
    have hissues := hi.ledgers k seg hget
    have hissues' := hi.ledgers k' seg' hget'
    by_cases hk : k = k'
    · subst hk
      cases hget.symm.trans hget'
      exact hissues.disjoint hg hg' (hne.resolve_left (fun h => h rfl))
    · -- blocks of two segments lie in two mappings
      have hsub := fun {seg : Segment T} {G : List (Grant w)} {g : Grant w}
          (hissues : Slab.Issues (MmapBacked.range w os) n ⟨seg, s.heap.mem⟩ G) (hg : g ∈ G) =>
        (hissues.subset_region hg).trans ((Slab.region_subset_range _ _).trans
          (range_subset_mapping hissues.outstanding.shape))
      exact (hi.apart_segments.disjoint hk hget hget').mono (hsub hissues hg) (hsub hissues' hg')

theorem Appended.of_eq (h : s'.segments = s.segments) : Appended s s' where
  kept := fun k seg hget => ⟨seg, h ▸ hget, ⟨_, _, _, rfl⟩⟩
  length_le := by
    rw [h]
    exact Nat.le_succ _

theorem Appended.of_set (hget : s.segments[k]? = some seg) (hs : Slab.SameShape seg seg')
    (h : s'.segments = s.segments.set k seg') : Appended s s' where
  kept := by
    intro j seg₁ hj
    rw [h, List.getElem?_set]
    split
    case isTrue heq =>
        subst heq
        cases hget.symm.trans hj
        exact ⟨seg', if_pos (lt_length_of_getElem? hget), hs⟩
    case isFalse => exact ⟨seg₁, hj, ⟨_, _, _, rfl⟩⟩
  length_le := by
    rw [h, List.length_set]
    exact Nat.le_succ _

theorem Appended.of_append (h : s'.segments = s.segments ++ [seg']) : Appended s s' where
  kept := by
    intro j seg₁ hj
    rw [h, List.getElem?_append_left (lt_length_of_getElem? hj)]
    exact ⟨seg₁, hj, ⟨_, _, _, rfl⟩⟩
  length_le := by
    rw [h, List.length_append]
    exact le_rfl

theorem Inv.freedIn (hi : Inv os n s) (hg : g ∈ s.live k)
    (hstep : s'.heap = deallocate os g.block.ptr g.layout s.heap) : FreedIn os s s' k g := by
  obtain ⟨seg, hget⟩ := hi.exists_segment hg
  rw [hi.ledgers.deallocate hi.apart_segments hget hg] at hstep
  refine ⟨seg, hget, hi.ledgers.route hi.apart_segments hget hg, ?_, ?_⟩
  · unfold Shared.segments
    rw [hstep]
  · rw [hstep]

theorem Inv.appended (hi : Inv os n s) (hmove : Moves os s e s') : Appended s s' := by
  cases hmove with
  | beginServed _ hget hserves =>
      exact .of_set hget ((hi.ledgers _ _ hget).allocate_some hserves).2.2.2 rfl
  | beginWaits => exact .of_eq rfl
  | buildFailed => exact .of_eq rfl
  | built => exact .of_eq rfl
  | installServed _ hget hserves =>
      exact .of_set hget ((hi.ledgers _ _ hget).allocate_some hserves).2.2.2 rfl
  | installed => exact .of_append rfl
  | refused => exact .of_eq rfl
  | @freed k g hg =>
      have hfreed : FreedIn os s { s with
          heap := deallocate os g.block.ptr g.layout s.heap
          live := Function.update s.live k ((s.live k).erase g) } k g := hi.freedIn hg rfl
      obtain ⟨seg, hget, -, hsegs, -⟩ := hfreed
      exact .of_set hget ((hi.ledgers _ _ hget).deallocate hg).2.1 hsegs
  | wrote => exact .of_eq rfl

/-- A step of `allocate` issues a block, or leaves the segments, the memory and the live blocks as
they are. -/
theorem Moves.issued_or_unchanged (hmove : Moves os s e s') (he : e.ofAllocate = true) :
    (∃ k b l, s'.live = s.issue k b l) ∨ (s'.heap = s.heap ∧ s'.live = s.live) := by
  cases hmove with
  | beginServed => exact Or.inl ⟨_, _, _, rfl⟩
  | beginWaits => exact Or.inr ⟨rfl, rfl⟩
  | buildFailed => exact Or.inr ⟨rfl, rfl⟩
  | built _ _ hbuild =>
      rw [buildSegment_mem hbuild]
      exact Or.inr ⟨rfl, rfl⟩
  | installServed => exact Or.inl ⟨_, _, _, rfl⟩
  | installed => exact Or.inl ⟨_, _, _, rfl⟩
  | refused => exact Or.inr ⟨rfl, rfl⟩
  | freed => cases he
  | wrote => cases he

/-- The list grows only where a call installs its segment. -/
theorem Inv.installedLast (hi : Inv os n s₀) (hidle : s₀.calls = [])
    (hrun : Machine.run (ExtendableSlab.step os) s₀ es = some s) (hmove : Moves os s e s')
    (hgrow : s.segments.length < s'.segments.length) : InstalledLast os n s₀ es s e s' := by
  have his := hi.run hrun
  cases hmove with
  | beginServed => exact absurd hgrow (by simp [Shared.segments])
  | beginWaits => exact absurd hgrow (lt_irrefl _)
  | buildFailed => exact absurd hgrow (lt_irrefl _)
  | built => exact absurd hgrow (lt_irrefl _)
  | installServed => exact absurd hgrow (by simp [Shared.segments])
  | @installed i c b seg seg' hc hsome hserves hall =>
      have hmem := List.mem_of_getElem? hc
      have hspare : seg ∈ s.spares :=
        List.mem_flatMap.mpr ⟨c, hmem, Option.mem_toList.mpr hsome⟩
      have hfits := his.fits_of_serves hspare hserves
      obtain ⟨es₁, es₂, t, hes, hlast, hrun₁, hlen, hbefore⟩ := hi.began hidle hrun c hmem
      refine ⟨i, c, rfl, hc, rfl, ⟨es₁, es₂, t, hes, hlast, hrun₁, hlen, fun k hk => ?_⟩,
        fun k hk hlt => ?_⟩
      · exact (hi.run hrun₁).full_of_refuses hfits hbefore (hlen.symm ▸ hk)
      · refine his.full_of_refuses_at hfits (List.getElem?_eq_getElem hlt) (hall _ ?_)
        refine List.mem_of_getElem? (i := k - c.lenBefore) ?_
        rw [List.getElem?_drop, Nat.add_sub_cancel' hk]
        exact List.getElem?_eq_getElem hlt
  | refused => exact absurd hgrow (lt_irrefl _)
  | freed hg =>
      refine absurd hgrow ?_
      simp only [Shared.segments, length_deallocate, lt_irrefl, not_false_eq_true]
  | wrote => exact absurd hgrow (lt_irrefl _)

/-- **Any number of threads, any schedule.** No two live blocks share a byte. Segments are only
appended, at most one in a step; a step that appends is the last of its call, after a scan that
found every segment full and a second one that found the segments of the others full. A freed block
goes back to the segment that issued it, and a step of `allocate` that issues nothing leaves the
segments, the memory and the live blocks as they are. -/
theorem extendableSlab_correct
    (hnew : withInitialSegments os T count n supply m = some h₀)
    (hmapped : MappedApart h₀.alloc.segments)
    (hrun : Machine.run (step os) (Shared.init h₀) es = some s)
    (hstep : step os s e = some s') :
    LiveApart os s ∧ Appended s s' ∧
      (∀ k g, e = .free k g → FreedIn os s s' k g) ∧
      (s.segments.length < s'.segments.length →
        InstalledLast os n (Shared.init h₀) es s e s') ∧
      (e.ofAllocate = true →
        (∃ k b l, s'.live = s.issue k b l) ∨ (s'.heap = s.heap ∧ s'.live = s.live)) := by
  have hinit := inv_init hnew hmapped
  have hi := hinit.run hrun
  have hmove := hi.moves hstep
  refine ⟨hi.liveApart, hi.appended hmove, fun k g heq => ?_, hinit.installedLast rfl hrun hmove,
    hmove.issued_or_unchanged⟩
  subst heq
  cases hmove with
  | freed hg => exact hi.freedIn hg rfl

def os16 : Os := ⟨false, 16, 4, rfl⟩

def word16 : RustType 16 := .lit 16 8 8 (Eq.refl true)

def wordLayout16 : NonZeroLayout 16 := .lit 16 8 8 (Eq.refl true)

def mappedAt (p : Nat) : Supply := ⟨some p, .none, FreelistProtection.none_sound⟩

/-- Two threads find no segment, and both build one. -/
def twoBuilders : List (Event 16) :=
  [.begin 0 wordLayout16, .begin 1 wordLayout16, .build 1 (mappedAt 64), .build 1 (mappedAt 96),
    .install 1]

/-- The second thread finds the segment of the first full, and installs its own. -/
theorem extendableSlab_correct_twoBuilders :
    ∃ s s' : Shared word16,
      Machine.run (step os16) (Shared.init ⟨new word16 1, fun _ => 0⟩) twoBuilders = some s ∧
      step os16 s (.install 0) = some s' ∧ s.segments.length = 1 ∧ s'.segments.length = 2 ∧
      LiveApart os16 s ∧ InstalledLast os16 1 (Shared.init ⟨new word16 1, fun _ => 0⟩) twoBuilders s
        (.install 0) s' := by
  have hlen : ((Machine.run (step os16) (Shared.init ⟨new word16 1, fun _ => 0⟩)
      twoBuilders).bind fun s => (step os16 s (.install 0)).map fun s' =>
        (s.segments.length, s'.segments.length)) = some (1, 2) := by decide +kernel
  obtain ⟨s, hrun, hmap⟩ := Option.bind_eq_some_iff.mp hlen
  obtain ⟨s', hstep, heq⟩ := Option.map_eq_some_iff.mp hmap
  obtain ⟨hs, hs'⟩ := Prod.mk.inj heq
  have hnew : withInitialSegments os16 word16 0 1 (fun _ => mappedAt 64) (fun _ => 0) =
      some ⟨new word16 1, fun _ => 0⟩ := rfl
  have hcorrect := extendableSlab_correct hnew ⟨List.Pairwise.nil, List.forall_mem_nil _⟩ hrun hstep
  exact ⟨s, s', hrun, hstep, hs, hs', hcorrect.1, hcorrect.2.2.2.1 (by omega)⟩

end ExtendableSlab

end ForgeAlloc
