import ForgeAlloc.Core.Component
import ForgeAlloc.Layout.ExtendableSlabAlone

set_option autoImplicit false

/-! # `ExtendableSlab` as a component

The slab grows: a request that no segment serves asks the system for a mapping. `Growing` counts the
requests, and the system answers each of them with a mapping (or none) that may depend on the
segments there are. What the system promises is `MapsInto`: a new mapping lies in a fixed set of
addresses, the territory, and apart from the segments that are mapped.

The slab owns no range, because its segments may lie anywhere in the territory.
-/

namespace ForgeAlloc

open MachineInt ByteMemory

namespace ExtendableSlab

variable {w : Nat} {T : RustType w}

/-- `ExtendableSlab::usable_size`: the stride of the segment that the pointer is routed to. -/
def usableSize (os : Os) (ptr : Nat) (_l : NonZeroLayout w) (h : Heap (ExtendableSlab T)) :
    Option Nat := do
  let i ← route os ptr h.alloc.segments
  let seg ← h.alloc.segments[i]?
  some seg.blockStride

structure Growing (T : RustType w) where
  slab : ExtendableSlab T
  requests : Nat

/-- The system's answers to the requests for a mapping. -/
abbrev System (T : RustType w) := Nat → List (Segment T) → Supply

/-- What the system promises of the mappings. -/
def MapsInto (os : Os) (n : Nat) (Z : Set Nat) (sys : System T) : Prop :=
  ∀ k segs m g, buildSegment os T n (sys k segs) m = some g →
    (mapping g.alloc).ptr + (mapping g.alloc).len < 2 ^ w ∧ (mapping g.alloc).bytes ⊆ Z ∧
      ∀ seg ∈ segs, Disjoint (mapping g.alloc).bytes (mapping seg).bytes

/-! ## One request -/

section

variable {os : Os} {n : Nat} {x : Supply} {l : NonZeroLayout w} {h h' : Heap (ExtendableSlab T)}
  {live : Nat → List (Grant w)} {k : Nat} {g g' : Grant w} {b : Block} {m : Mem}

/-- The outcomes of a request. -/
inductive Allocated (os : Os) (n : Nat) (l : NonZeroLayout w) (x : Supply)
    (h : Heap (ExtendableSlab T)) : Option (Nat × Block) × Heap (ExtendableSlab T) → Prop
  | served {k hint : Nat} {b : Block} {seg seg' : Segment T}
      (hget : h.alloc.segments[k]? = some seg) (hserves : Serves os l h.mem seg b seg') :
      Allocated os n l x h (some (k, b),
        ⟨{ h.alloc with segments := h.alloc.segments.set k seg', firstOpenHint := hint }, h.mem⟩)
  | pushed {hint : Nat} {b : Block} {t : Heap (Segment T)} {seg' : Segment T}
      (hbuild : buildSegment os T n x h.mem = some t) (hserves : Serves os l h.mem t.alloc b seg') :
      Allocated os n l x h (some (h.alloc.segments.length, b),
        ⟨{ h.alloc with segments := h.alloc.segments ++ [seg'], firstOpenHint := hint }, h.mem⟩)
  | refused : Allocated os n l x h (none, h)

theorem Inv.allocate (hi : Inv os n ⟨h, [], live⟩)
    (hspace : ∀ t, buildSegment os T n x h.mem = some t →
      (mapping t.alloc).ptr + (mapping t.alloc).len < 2 ^ w) :
    Allocated os n l x h (allocate os l x h) := by
  have hledgers : Ledgers os n live h.alloc.segments h.mem := hi.ledgers
  have hcap : h.alloc.segmentCapacity = n := hi.capacity_eq
  unfold ExtendableSlab.allocate
  generalize hout : fromExisting os l h = out
  cases hout ▸ hledgers.fromExisting (l := l) with
  | served hget hserves => exact .served hget hserves
  | refused =>
      simp only [hcap]
      rcases hbuild : buildSegment os T n x h.mem with _ | t
      · exact .refused
      · obtain ⟨hissues, hmem, -⟩ := buildSegment_spec hbuild (hspace t hbuild)
        have hnew : Slab.Issues (MmapBacked.range w os) n ⟨t.alloc, h.mem⟩ [] := hmem ▸ hissues
        simp only [hmem]
        generalize hinst : install os l h.alloc.segments.length t.alloc h = out
        cases hinst ▸ hledgers.install (l := l) le_rfl hnew with
        | served hget hserves => exact .served hget hserves
        | pushed hserves => exact .pushed hbuild hserves
        | refused => exact .refused

/-- A request of one thread is a run of the machine of all threads, so it keeps the invariant. -/
theorem Inv.allocate_inv (hi : Inv os n ⟨h, [], live⟩)
    (hmaps : ∀ t, buildSegment os T n x h.mem = some t →
      (mapping t.alloc).ptr + (mapping t.alloc).len < 2 ^ w ∧
        ∀ seg ∈ h.alloc.segments, Disjoint (mapping t.alloc).bytes (mapping seg).bytes) :
    Inv os n ⟨(ExtendableSlab.allocate os l x h).2, [],
      Alone.after ⟨h, live⟩ l (ExtendableSlab.allocate os l x h).1⟩ := by
  have hmapped : Alone.MapsApart os x ⟨h, live⟩ := by
    unfold Alone.MapsApart
    rw [show h.alloc.segmentCapacity = n from hi.capacity_eq, Option.all_eq_true]
    intro t hbuild
    obtain ⟨hspace, hdisj⟩ := hmaps t hbuild
    refine decide_eq_true ⟨hspace, fun seg hseg => hdisj seg ?_⟩
    rw [show (Alone.shared ⟨h, live⟩).spares = [] from rfl, List.append_nil] at hseg
    exact hseg
  have hstep : stepAlone os ⟨h, live⟩ (.allocate l x) =
      some ⟨(ExtendableSlab.allocate os l x h).2,
        Alone.after ⟨h, live⟩ l (ExtendableSlab.allocate os l x h).1⟩ := if_pos hmapped
  exact Alone.inv_step hi hstep

/-- The blocks of all segments. -/
def ledger (live : Nat → List (Grant w)) : Set (Grant w) := {g | ∃ k, g ∈ live k}

/-- A block belongs to one segment, and stands once in its ledger. -/
theorem Inv.segment_unique (hi : Inv os n ⟨h, [], live⟩) {j : Nat} (hg : g ∈ live k)
    (hg' : g ∈ live j) : k = j := by
  by_contra hne
  obtain ⟨seg, hget⟩ := hi.exists_segment hg
  have hpos := ((hi.ledgers k seg hget).satisfies hg).len_pos
  exact not_disjoint_self hpos (hi.liveApart.disjoint k j g g hg hg' (Or.inl hne))

theorem ledger_issue (live : Nat → List (Grant w)) (k : Nat) (g : Grant w) :
    ledger (Function.update live k (g :: live k)) = insert g (ledger live) := by
  ext g'
  constructor
  · rintro ⟨j, hj⟩
    rcases eq_or_ne j k with rfl | hne
    · rw [Function.update_self] at hj
      exact (List.mem_cons.mp hj).imp id fun hmem => ⟨j, hmem⟩
    · rw [Function.update_of_ne hne] at hj
      exact Or.inr ⟨j, hj⟩
  · rintro (rfl | ⟨j, hj⟩)
    · exact ⟨k, by rw [Function.update_self]; exact List.mem_cons_self⟩
    · refine ⟨j, ?_⟩
      rcases eq_or_ne j k with rfl | hne
      · rw [Function.update_self]
        exact List.mem_cons_of_mem _ hj
      · rw [Function.update_of_ne hne]
        exact hj

theorem Inv.ledger_free (hi : Inv os n ⟨h, [], live⟩) (hg : g ∈ live k) :
    ledger (Function.update live k ((live k).erase g)) = ledger live \ {g} := by
  ext g'
  constructor
  · rintro ⟨j, hj⟩
    rcases eq_or_ne j k with rfl | hne
    · rw [Function.update_self, (hi.liveApart.nodup j).mem_erase_iff] at hj
      exact ⟨⟨j, hj.2⟩, hj.1⟩
    · rw [Function.update_of_ne hne] at hj
      refine ⟨⟨j, hj⟩, ?_⟩
      rintro rfl
      exact hne (hi.segment_unique hj hg)
  · rintro ⟨⟨j, hj⟩, hne⟩
    refine ⟨j, ?_⟩
    rcases eq_or_ne j k with rfl | hjk
    · rw [Function.update_self, (hi.liveApart.nodup j).mem_erase_iff]
      exact ⟨hne, hj⟩
    · rw [Function.update_of_ne hjk]
      exact hj

theorem Inv.subset_mapping (hi : Inv os n ⟨h, [], live⟩) (hg : g ∈ live k) :
    ∃ seg, h.alloc.segments[k]? = some seg ∧ g.block.bytes ⊆ (mapping seg).bytes := by
  obtain ⟨seg, hget⟩ := hi.exists_segment hg
  have hissues := hi.ledgers k seg hget
  exact ⟨seg, hget, (hissues.subset_region hg).trans ((Slab.region_subset_range _ _).trans
    (range_subset_mapping hissues.outstanding.shape))⟩

/-- What is written outside the free slots is not seen. -/
theorem Inv.mem_congr (hi : Inv os n ⟨h, [], live⟩) {Z : Set Nat}
    (hZ : ∀ seg ∈ h.alloc.segments, (mapping seg).bytes ⊆ Z)
    (hm : Set.EqOn m h.mem (Z \ liveBytes (ledger live))) : Inv os n ⟨⟨h.alloc, m⟩, [], live⟩ := by
  refine { hi with ledgers := ?_, spare := fun _ hseg => absurd hseg List.not_mem_nil }
  intro k seg hget
  have hissues := hi.ledgers k seg hget
  refine hissues.mem_congr (hm.mono ?_)
  rintro x ⟨hx, hdead⟩
  have hxmap : x ∈ (mapping seg).bytes := range_subset_mapping hissues.outstanding.shape
    (Slab.region_subset_range _ _ hx)
  refine ⟨hZ seg (List.mem_of_getElem? hget) hxmap, ?_⟩
  rintro ⟨g, ⟨j, hj⟩, hxg⟩
  -- a byte of a live block lies in the mapping of its own segment only
  obtain ⟨seg', hget', hsub⟩ := hi.subset_mapping hj
  by_cases hjk : j = k
  · subst hjk
    exact hdead ⟨g, hj, hxg⟩
  · exact Set.disjoint_left.mp (hi.apart_segments.disjoint hjk hget' hget) (hsub hxg) hxmap

/-- A live block is freed in its segment, which writes into the block only. -/
theorem Inv.free_frame (hi : Inv os n ⟨h, [], live⟩) (hg : g ∈ live k) :
    ∀ x ∉ g.block.bytes, (deallocate os g.block.ptr l h).mem x = h.mem x := by
  obtain ⟨seg, hget⟩ := hi.exists_segment hg
  have hcall := Ledgers.deallocate (l := l) hi.ledgers hi.apart_segments hget hg
  simp only at hcall
  rw [hcall]
  exact ((hi.ledgers k seg hget).deallocate (l := l) hg).2.2

/-- The mappings are those from before. -/
theorem Inv.free_mapping (hi : Inv os n ⟨h, [], live⟩) (hg : g ∈ live k) :
    (deallocate os g.block.ptr l h).alloc.segments.map mapping = h.alloc.segments.map mapping := by
  obtain ⟨seg, hget⟩ := hi.exists_segment hg
  have hcall := Ledgers.deallocate (l := l) hi.ledgers hi.apart_segments hget hg
  simp only at hcall
  rw [hcall]
  exact map_mapping_set hget
    (mapping_congr ((hi.ledgers k seg hget).deallocate (l := l) hg).2.1)

theorem Inv.usableSize_eq (hi : Inv os n ⟨h, [], live⟩) (hg : g ∈ live k) :
    usableSize os g.block.ptr l h = some g.block.len := by
  obtain ⟨seg, hget⟩ := hi.exists_segment hg
  have hget' : h.alloc.segments[k]? = some seg := hget
  have hroute := Ledgers.route hi.ledgers hi.apart_segments hget hg
  have hroute' : route os g.block.ptr h.alloc.segments = some k := hroute
  rw [usableSize, hroute', Option.bind_eq_bind, Option.bind_some, hget', Option.bind_eq_bind,
    Option.bind_some, (hi.ledgers k seg hget).len_eq g hg]

end

/-! ## The slab as a component -/

namespace Growing

def slabHeap (h : Heap (Growing T)) : Heap (ExtendableSlab T) := h.map Growing.slab

def allocate (os : Os) (sys : System T) (l : NonZeroLayout w) (h : Heap (Growing T)) :
    Option Block × Heap (Growing T) :=
  let x := sys h.alloc.requests h.alloc.slab.segments
  let (r, t) := ExtendableSlab.allocate os l x (slabHeap h)
  (r.map Prod.snd, ⟨⟨t.alloc, h.alloc.requests + 1⟩, t.mem⟩)

def deallocate (os : Os) (ptr : Nat) (l : NonZeroLayout w) (h : Heap (Growing T)) :
    Heap (Growing T) :=
  let t := ExtendableSlab.deallocate os ptr l (slabHeap h)
  ⟨{ h.alloc with slab := t.alloc }, t.mem⟩

def allocator (os : Os) (sys : System T) : Allocator w (Growing T) where
  allocate := allocate os sys
  deallocate := deallocate os
  grow := defaultGrow (allocate os sys) (deallocate os)
  shrink := defaultShrink (allocate os sys) (deallocate os)
  usableSize := fun ptr l h => usableSize os ptr l (slabHeap h)

/-- The blocks `live` are out, and all mappings lie in `Z`. -/
structure Tended (os : Os) (n : Nat) (Z : Set Nat) (h : Heap (Growing T))
    (live : Nat → List (Grant w)) : Prop where
  inv : Inv os n ⟨slabHeap h, [], live⟩
  inside : ∀ seg ∈ h.alloc.slab.segments, (mapping seg).bytes ⊆ Z

def component (os : Os) (T : RustType w) (n : Nat) (Z : Set Nat) (sys : System T) :
    Component w (Growing T) where
  calls := allocator os sys
  range := none
  territory := Z
  inv := fun h L => ∃ live, L = ledger live ∧ Tended os n Z h live
  answer := fun g => some g.block.len
  roomy := fun l _ => decide (l.size < strideOf T)
  leaks := fun _ _ => false
  remoteFree := fun _ _ _ => none

variable {os : Os} {n : Nat} {Z : Set Nat} {sys : System T} {l : NonZeroLayout w}
  {h h' : Heap (Growing T)} {live : Nat → List (Grant w)} {k : Nat} {g g' : Grant w} {b : Block}
  {m : Mem}

theorem Tended.subset (ht : Tended os n Z h live) (hg : g ∈ live k) : g.block.bytes ⊆ Z := by
  obtain ⟨seg, hget, hsub⟩ := ht.inv.subset_mapping hg
  exact hsub.trans (ht.inside seg (List.mem_of_getElem? hget))

theorem Tended.satisfies (ht : Tended os n Z h live) (hg : g ∈ live k) :
    Satisfies g.block g.layout := by
  obtain ⟨seg, hget⟩ := ht.inv.exists_segment hg
  exact (ht.inv.ledgers k seg hget).satisfies hg

theorem Tended.len_eq (ht : Tended os n Z h live) (hg : g ∈ live k) :
    g.block.len = strideOf T := by
  obtain ⟨seg, hget⟩ := ht.inv.exists_segment hg
  have hmem := List.mem_append_left [] (List.mem_of_getElem? hget)
  exact ((ht.inv.ledgers k seg hget).len_eq g hg).trans (ht.inv.stride_eq seg hmem)

theorem Tended.disjoint (ht : Tended os n Z h live) (hg : g ∈ ledger live) (hg' : g' ∈ ledger live)
    (hne : g ≠ g') : Disjoint g.block.bytes g'.block.bytes := by
  obtain ⟨k, hk⟩ := hg
  obtain ⟨j, hj⟩ := hg'
  exact ht.inv.liveApart.disjoint k j g g' hk hj (Or.inr hne)

/-- **A request** writes nothing, and issues at most one block. -/
theorem Tended.allocate (hsys : MapsInto os n Z sys) (ht : Tended os n Z h live)
    (l : NonZeroLayout w) :
    (Growing.allocate os sys l h).2.mem = h.mem ∧
      match (Growing.allocate os sys l h).1 with
      | none => Tended os n Z (Growing.allocate os sys l h).2 live
      | some b => ∃ k, Tended os n Z (Growing.allocate os sys l h).2
          (Function.update live k (⟨b, l⟩ :: live k)) := by
  have hinside : ∀ seg ∈ (slabHeap h).alloc.segments, (mapping seg).bytes ⊆ Z := ht.inside
  have hmaps := hsys h.alloc.requests h.alloc.slab.segments h.mem
  have hcases := ht.inv.allocate (l := l) fun t hbuild => (hmaps t hbuild).1
  generalize hout : ExtendableSlab.allocate os l (sys h.alloc.requests h.alloc.slab.segments)
    (slabHeap h) = out at hcases
  have hinv := ht.inv.allocate_inv (l := l) fun t hbuild =>
    ⟨(hmaps t hbuild).1, (hmaps t hbuild).2.2⟩
  rw [hout] at hinv
  have hcall : Growing.allocate os sys l h =
      (out.1.map Prod.snd, ⟨⟨out.2.alloc, h.alloc.requests + 1⟩, out.2.mem⟩) := by
    rw [← hout]
    rfl
  rw [hcall]
  cases hcases with
  | @served k hint b seg seg' hget hserves =>
      refine ⟨rfl, k, hinv, fun seg₁ hseg => ?_⟩
      rcases List.mem_or_eq_of_mem_set hseg with hold | rfl
      · exact hinside seg₁ hold
      · have hsame := ((ht.inv.ledgers k seg hget).allocate_some hserves).2.2.2
        rw [mapping_congr hsame]
        exact hinside seg (List.mem_of_getElem? hget)
  | @pushed hint b t seg' hbuild hserves =>
      obtain ⟨hspace, hsub, -⟩ := hmaps t hbuild
      obtain ⟨hissues, hmem, -⟩ := buildSegment_spec hbuild hspace
      have hnew : Slab.Issues (MmapBacked.range w os) n ⟨t.alloc, h.mem⟩ [] := hmem ▸ hissues
      refine ⟨rfl, _, hinv, fun seg₁ hseg => ?_⟩
      rcases List.mem_append.mp hseg with hold | hlast
      · exact hinside seg₁ hold
      · rw [List.mem_singleton.mp hlast, mapping_congr (hnew.allocate_some hserves).2.2.2]
        exact hsub
  | refused => exact ⟨rfl, hinv, hinside⟩

theorem Tended.free (ht : Tended os n Z h live) (hg : g ∈ live k) :
    Tended os n Z (Growing.deallocate os g.block.ptr g.layout h)
      (Function.update live k ((live k).erase g)) := by
  refine ⟨ht.inv.freed hg, fun seg hseg => ?_⟩
  have hmap := List.mem_map_of_mem (f := mapping) hseg
  have hsame : (deallocate os g.block.ptr g.layout h).alloc.slab.segments.map mapping =
      h.alloc.slab.segments.map mapping := ht.inv.free_mapping hg
  rw [hsame] at hmap
  obtain ⟨seg₀, hseg₀, heq⟩ := List.mem_map.mp hmap
  rw [← heq]
  exact ht.inside seg₀ hseg₀

theorem Tended.mem_congr (ht : Tended os n Z h live)
    (hm : Set.EqOn m h.mem (Z \ liveBytes (ledger live))) : Tended os n Z ⟨h.alloc, m⟩ live :=
  ⟨ht.inv.mem_congr ht.inside hm, ht.inside⟩

theorem core (hsys : MapsInto os n Z sys) :
    HonoursCore (component os T n Z sys).calls (component os T n Z sys).inv where
  satisfies := by
    rintro h L g ⟨live, rfl, ht⟩ ⟨k, hg⟩
    exact ht.satisfies hg
  disjoint := by
    rintro h L g g' ⟨live, rfl, ht⟩ hg hg' hne
    exact ht.disjoint hg hg' hne
  allocate_some := by
    rintro h L l b h' ⟨live, rfl, ht⟩ heq
    obtain ⟨hmem, hcase⟩ := ht.allocate hsys l
    rw [show allocate os sys l h = (some b, h') from heq] at hmem hcase
    obtain ⟨k, ht'⟩ := hcase
    refine ⟨⟨_, (ledger_issue live k ⟨b, l⟩).symm, ht'⟩, ?_, fun x _ => congrFun hmem x⟩
    rintro g ⟨j, hj⟩
    have hnew : (⟨b, l⟩ : Grant w) ∈ Function.update live k (⟨b, l⟩ :: live k) k := by
      rw [Function.update_self]
      exact List.mem_cons_self
    by_cases hjk : j = k
    · subst hjk
      -- a block stands in the ledger of its segment once
      have hnodup := ht'.inv.liveApart.nodup j
      simp only [Function.update_self, List.nodup_cons] at hnodup
      have hold : g ∈ Function.update live j (⟨b, l⟩ :: live j) j := by
        rw [Function.update_self]
        exact List.mem_cons_of_mem _ hj
      refine ht'.disjoint ⟨j, hnew⟩ ⟨j, hold⟩ ?_
      rintro rfl
      exact hnodup.1 hj
    · have hold : g ∈ Function.update live k (⟨b, l⟩ :: live k) j := by
        rw [Function.update_of_ne hjk]
        exact hj
      exact ht'.inv.liveApart.disjoint k j _ g hnew hold (Or.inl (Ne.symm hjk))
  allocate_none := by
    rintro h L l h' ⟨live, rfl, ht⟩ heq
    obtain ⟨hmem, hcase⟩ := ht.allocate hsys l
    rw [show allocate os sys l h = (none, h') from heq] at hmem hcase
    exact ⟨⟨live, rfl, hcase⟩, fun x _ => congrFun hmem x⟩
  deallocate := by
    rintro h L g ⟨live, rfl, ht⟩ ⟨k, hg⟩
    refine ⟨⟨_, (ht.inv.ledger_free hg).symm, ht.free hg⟩, ?_⟩
    rintro x ⟨g', ⟨hg', hne⟩, hx⟩
    have hdisj := ht.disjoint hg' ⟨k, hg⟩ hne
    exact ht.inv.free_frame hg x fun hxg => Set.disjoint_left.mp hdisj hx hxg
  write := by
    rintro h L m ⟨live, rfl, ht⟩ hm
    exact ⟨live, rfl, ht.mem_congr (hm.mono fun _ hx => hx.2)⟩

/-- **The slab is a lawful component** in the territory that the system maps for it. -/
theorem lawful (hsys : MapsInto os n Z sys) : (component os T n Z sys).Lawful where
  toHonoursCore := core hsys
  subset := by
    rintro h L g ⟨live, rfl, ht⟩ ⟨k, hg⟩
    exact ht.subset hg
  allocate_frame := by
    rintro h L l ⟨live, rfl, ht⟩
    exact fun x _ => congrFun (ht.allocate hsys l).1 x
  deallocate_frame := by
    rintro h L g ⟨live, rfl, ht⟩ ⟨k, hg⟩
    exact fun x hx => ht.inv.free_frame hg x fun hxg => hx (ht.subset hg hxg)
  mem_congr := by
    rintro h L m ⟨live, rfl, ht⟩ hm
    exact ⟨live, rfl, ht.mem_congr hm⟩
  range_spec := by
    rintro R c ⟨⟩
  answer_eq := by
    rintro h L g ⟨live, rfl, ht⟩ ⟨k, hg⟩
    exact ht.inv.usableSize_eq (l := g.layout) hg
  answer_le := by
    rintro h L g p ⟨live, rfl, ht⟩ ⟨k, hg⟩ ⟨⟩
    exact ⟨(ht.satisfies hg).large, le_rfl⟩
  roomy_iff := by
    rintro h L l b h' ⟨live, rfl, ht⟩ heq
    obtain ⟨-, hcase⟩ := ht.allocate hsys l
    rw [show allocate os sys l h = (some b, h') from heq] at hcase
    obtain ⟨k, ht'⟩ := hcase
    have hnew : (⟨b, l⟩ : Grant w) ∈ Function.update live k (⟨b, l⟩ :: live k) k := by
      rw [Function.update_self]
      exact List.mem_cons_self
    rw [show b.len = strideOf T from ht'.len_eq hnew]
    exact decide_eq_true_iff
  leaks_iff := fun _ _ => Component.false_iff_lt_self rfl
  remote_free := by
    rintro h L g h' - - ⟨⟩

theorem component_fresh {count : Nat} {supply : Nat → Supply} {s : Heap (ExtendableSlab T)}
    (hnew : withInitialSegments os T count n supply m = some s)
    (hmapped : MappedApart s.alloc.segments)
    (hinside : ∀ seg ∈ s.alloc.segments, (mapping seg).bytes ⊆ Z) :
    (component os T n Z sys).inv ⟨⟨s.alloc, 0⟩, s.mem⟩ ∅ := by
  refine ⟨fun _ => [], ?_, inv_init hnew hmapped, hinside⟩
  symm
  refine Set.eq_empty_of_forall_notMem ?_
  rintro g ⟨k, hg⟩
  cases hg

end Growing

end ExtendableSlab

end ForgeAlloc
