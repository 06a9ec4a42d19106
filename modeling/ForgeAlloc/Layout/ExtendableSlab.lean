import ForgeAlloc.Backing.Mmap
import ForgeAlloc.Layout.SlabContract

set_option autoImplicit false

/-! # `ExtendableSlab`

A list of `Slab` segments behind a lock, each in a mapping of its own. `allocate` works in three
phases. With the lock it scans the segments (`fromExisting`); without the lock it builds a new
segment (`buildSegment`); with the lock again it scans what was installed in between and installs
its own segment (`install`).

The code returns the block only. The model also returns the number of the segment that issued it.

`Scanned`, `FromExisting` and `Installed` say what the phases do to segments that keep their ledgers.
-/

namespace ForgeAlloc

open MachineInt ByteMemory

variable {w : Nat} {T : RustType w}

abbrev Segment (T : RustType w) := Slab T MmapBacked

structure ExtendableSlab (T : RustType w) where
  segmentCapacity : Nat
  segments : List (Segment T)
  /-- The lowest segment that might have free slots. -/
  firstOpenHint : Nat
  routingFailures : Nat

namespace ExtendableSlab

/-- What the construction of a segment gets from outside: where the system maps, and the policy the
factory makes. -/
structure Supply where
  mapped : Option Nat
  mac : FreelistProtection
  sound : mac.Sound

/-- `ExtendableSlab::new`. -/
def new (T : RustType w) (segmentCapacity : Nat) : ExtendableSlab T := ⟨segmentCapacity, [], 0, 0⟩

/-- The size that `build_segment` asks to be mapped: `with_slack`. -/
def segmentRequest (T : RustType w) (capacity : Nat) : Option Nat := do
  let slotAlign := max T.align freeLinkAlign
  let rawStride := max T.size freeLinkSize
  let padded ← checkedAdd w rawStride (slotAlign - 1)
  let blockStride := maskDown w padded slotAlign
  let total ← checkedMul w blockStride capacity
  checkedAdd w total (slotAlign - 1)

def buildSegment (os : Os) (T : RustType w) (capacity : Nat) (x : Supply) (m : Mem) :
    Option (Heap (Segment T)) := do
  let withSlack ← segmentRequest T capacity
  let backing ← MmapBacked.new w os withSlack x.mapped
  Slab.withProtection (MmapBacked.allocator w os) (MmapBacked.range w os) T capacity x.mac
    ⟨backing, m⟩

/-- `ExtendableSlab::with_initial_segments`. -/
def withInitialSegments (os : Os) (T : RustType w) (count segmentCapacity : Nat)
    (supply : Nat → Supply) (m : Mem) : Option (Heap (ExtendableSlab T)) := do
  let h ← (List.range count).foldlM (fun h k => do
    let g ← buildSegment os T segmentCapacity (supply k) h.mem
    some ⟨h.alloc ++ [g.alloc], g.mem⟩) (⟨[], m⟩ : Heap (List (Segment T)))
  some ⟨⟨segmentCapacity, h.alloc, 0, 0⟩, h.mem⟩

/-- The loops of `allocate`: the first of the segments that serves the request. -/
def scan (os : Os) (l : NonZeroLayout w) : List (Segment T) → Mem →
    Option (Nat × Block) × Heap (List (Segment T))
  | [], m => (none, ⟨[], m⟩)
  | seg :: segs, m =>
      match Slab.allocate (MmapBacked.range w os) l ⟨seg, m⟩ with
      | (some b, h) => (some (0, b), ⟨h.alloc :: segs, h.mem⟩)
      | (none, h) =>
          let (r, g) := scan os l segs h.mem
          (r.map fun (i, b) => (i + 1, b), ⟨h.alloc :: g.alloc, g.mem⟩)

/-- Phase 1: from the hinted segment on, then the segments before it. -/
def fromExisting (os : Os) (l : NonZeroLayout w) (h : Heap (ExtendableSlab T)) :
    Option (Nat × Block) × Heap (ExtendableSlab T) :=
  let s := h.alloc
  let start := min s.firstOpenHint s.segments.length
  match scan os l (s.segments.drop start) h.mem with
  | (some (i, b), g) =>
      let offset := start + i
      let hint := if start < offset then max s.firstOpenHint offset else s.firstOpenHint
      (some (offset, b),
        ⟨{ s with segments := s.segments.take start ++ g.alloc, firstOpenHint := hint }, g.mem⟩)
  | (none, g) =>
      if 0 < start then
        match scan os l (s.segments.take start) g.mem with
        | (some (i, b), g') =>
            (some (i, b), ⟨{ s with segments := g'.alloc ++ g.alloc,
                                    firstOpenHint := min s.firstOpenHint i }, g'.mem⟩)
        | (none, g') => (none, ⟨{ s with segments := g'.alloc ++ g.alloc }, g'.mem⟩)
      else (none, ⟨{ s with segments := s.segments.take start ++ g.alloc }, g.mem⟩)

/-- Phase 3: the segments installed since `lenBefore` was read, then the new one. A new segment that
is not installed is dropped. -/
def install (os : Os) (l : NonZeroLayout w) (lenBefore : Nat) (newSeg : Segment T)
    (h : Heap (ExtendableSlab T)) : Option (Nat × Block) × Heap (ExtendableSlab T) :=
  let s := h.alloc
  let later := s.segments.drop lenBefore
  match if lenBefore < s.segments.length then scan os l later h.mem else (none, ⟨later, h.mem⟩) with
  | (some (i, b), g) =>
      (some (lenBefore + i, b),
        ⟨{ s with segments := s.segments.take lenBefore ++ g.alloc,
                  firstOpenHint := max s.firstOpenHint (lenBefore + i) }, g.mem⟩)
  | (none, g) =>
      let segs := s.segments.take lenBefore ++ g.alloc
      match Slab.allocate (MmapBacked.range w os) l ⟨newSeg, g.mem⟩ with
      | (none, g') => (none, ⟨{ s with segments := segs }, g'.mem⟩)
      | (some b, g') =>
          (some (segs.length, b),
            ⟨{ s with segments := segs ++ [g'.alloc], firstOpenHint := segs.length }, g'.mem⟩)

/-- `ExtendableSlab::allocate` by a thread that no other one interrupts. -/
def allocate (os : Os) (l : NonZeroLayout w) (x : Supply) (h : Heap (ExtendableSlab T)) :
    Option (Nat × Block) × Heap (ExtendableSlab T) :=
  match fromExisting os l h with
  | (some r, h') => (some r, h')
  | (none, h') =>
      match buildSegment os T h'.alloc.segmentCapacity x h'.mem with
      | none => (none, h')
      | some g => install os l h'.alloc.segments.length g.alloc ⟨h'.alloc, g.mem⟩

/-- The segment that `deallocate` finds for a pointer. -/
def route (os : Os) (ptr : Nat) (segs : List (Segment T)) : Option Nat :=
  segs.findIdx? fun seg => (Slab.range T (MmapBacked.range w os)).contains w ptr seg

def deallocate (os : Os) (ptr : Nat) (l : NonZeroLayout w) (h : Heap (ExtendableSlab T)) :
    Heap (ExtendableSlab T) :=
  let s := h.alloc
  match route os ptr s.segments with
  | none => ⟨{ s with routingFailures := wrappingAdd w s.routingFailures 1 }, h.mem⟩
  | some i =>
      match s.segments[i]? with
      | none => h
      | some seg =>
          let g := Slab.deallocate (MmapBacked.range w os) ptr l ⟨seg, h.mem⟩
          ⟨{ s with segments := s.segments.set i g.alloc,
                    firstOpenHint := min s.firstOpenHint i }, g.mem⟩

/-! ## The mapping of a segment -/

theorem length_deallocate (os : Os) (ptr : Nat) (l : NonZeroLayout w)
    (h : Heap (ExtendableSlab T)) :
    (deallocate os ptr l h).alloc.segments.length = h.alloc.segments.length := by
  simp only [deallocate]
  split
  · rfl
  · split
    · rfl
    · exact List.length_set

variable {os : Os} {l : NonZeroLayout w} {n : Nat} {m m' : Mem} {seg seg' : Segment T}
  {segs : List (Segment T)} {live : Nat → List (Grant w)} {h : Heap (ExtendableSlab T)}

/-- The mapping under a segment. -/
def mapping (seg : Segment T) : Block := ⟨seg.backing.ptr, seg.backing.len⟩

theorem mapping_congr (hs : Slab.SameShape seg seg') : mapping seg' = mapping seg := by
  obtain ⟨head, carved, events, rfl⟩ := hs
  rfl

/-- The slots of a segment lie in its mapping. -/
theorem range_subset_mapping (hs : Slab.Shape (MmapBacked.range w os) seg) :
    ((Slab.range T (MmapBacked.range w os)).block seg).bytes ⊆ (mapping seg).bytes := by
  have hle := hs.region_le
  rintro x ⟨hge, hlt⟩
  simp only [FixedRange.block, Slab.range, Slab.basePtr, MmapBacked.range] at hge hlt hle
  simp only [mapping, Block.mem_bytes]
  omega

/-! ## Ledgers of the segments -/

/-- The grants `live k` are the outstanding blocks of the segment number `k`. -/
def Ledgers (os : Os) (n : Nat) (live : Nat → List (Grant w)) (segs : List (Segment T)) (m : Mem) :
    Prop :=
  ∀ k seg, segs[k]? = some seg → Slab.Issues (MmapBacked.range w os) n ⟨seg, m⟩ (live k)

/-- The segment does not serve the request. -/
def Refuses (os : Os) (l : NonZeroLayout w) (m : Mem) (seg : Segment T) : Prop :=
  (Slab.allocate (MmapBacked.range w os) l ⟨seg, m⟩).1 = none

/-- The segment serves the request with the block `b` and becomes `seg'`. -/
def Serves (os : Os) (l : NonZeroLayout w) (m : Mem) (seg : Segment T) (b : Block)
    (seg' : Segment T) : Prop :=
  Slab.allocate (MmapBacked.range w os) l ⟨seg, m⟩ = (some b, ⟨seg', m⟩)

/-- The outcomes of a scan. -/
inductive Scanned (os : Os) (l : NonZeroLayout w) (segs : List (Segment T)) (m : Mem) :
    Option (Nat × Block) × Heap (List (Segment T)) → Prop
  | served {i : Nat} {b : Block} {seg seg' : Segment T} (hget : segs[i]? = some seg)
      (hserves : Serves os l m seg b seg') : Scanned os l segs m (some (i, b), ⟨segs.set i seg', m⟩)
  | refused (hall : ∀ seg ∈ segs, Refuses os l m seg) : Scanned os l segs m (none, ⟨segs, m⟩)

theorem Ledgers.tail (hl : Ledgers os n live (seg :: segs) m) :
    Ledgers os n (fun k => live (k + 1)) segs m := fun k => hl (k + 1)

theorem Ledgers.drop (hl : Ledgers os n live segs m) (i : Nat) :
    Ledgers os n (fun k => live (i + k)) (segs.drop i) m := by
  intro k seg hget
  rw [List.getElem?_drop] at hget
  exact hl (i + k) seg hget

theorem Ledgers.take (hl : Ledgers os n live segs m) (i : Nat) :
    Ledgers os n live (segs.take i) m := by
  intro k seg hget
  rw [List.getElem?_take] at hget
  split at hget
  · exact hl k seg hget
  · cases hget

/-- A segment that has its ledger serves a request without a write, or refuses it and stays as it
is. -/
theorem serves_or_refuses {G : List (Grant w)}
    (hi : Slab.Issues (MmapBacked.range w os) n ⟨seg, m⟩ G) :
    (∃ b seg', Serves os l m seg b seg') ∨
      Slab.allocate (MmapBacked.range w os) l ⟨seg, m⟩ = (none, ⟨seg, m⟩) := by
  rcases hcall : Slab.allocate (MmapBacked.range w os) l ⟨seg, m⟩ with ⟨_ | b, seg', m'⟩
  · right
    rw [(hi.outstanding.allocate_none hcall).1]
  · left
    obtain ⟨-, -, rfl, -⟩ := hi.allocate_some hcall
    exact ⟨b, seg', hcall⟩

theorem scan_cons_of_serves {b : Block} (hserves : Serves os l m seg b seg') :
    scan os l (seg :: segs) m = (some (0, b), ⟨seg' :: segs, m⟩) := by
  unfold Serves at hserves
  rw [scan, hserves]

theorem scan_cons_of_refuses
    (hrefuses : Slab.allocate (MmapBacked.range w os) l ⟨seg, m⟩ = (none, ⟨seg, m⟩)) :
    scan os l (seg :: segs) m = ((scan os l segs m).1.map fun (i, b) => (i + 1, b),
      ⟨seg :: (scan os l segs m).2.alloc, (scan os l segs m).2.mem⟩) := by
  rw [scan, hrefuses]

/-- **A scan** takes the first segment that serves the request, or leaves all as they are. -/
theorem Ledgers.scan (hl : Ledgers os n live segs m) : Scanned os l segs m (scan os l segs m) := by
  induction segs generalizing live with
  | nil => exact .refused (List.forall_mem_nil _)
  | cons seg segs ih =>
      rcases serves_or_refuses (l := l) (hl 0 seg rfl) with ⟨b, seg', hserves⟩ | hrefuses
      · rw [scan_cons_of_serves hserves]
        exact .served rfl hserves
      · rw [scan_cons_of_refuses hrefuses]
        generalize hrest : ExtendableSlab.scan os l segs m = out
        cases hrest ▸ ih hl.tail with
        | @served i b found found' hget hserves => exact .served (i := i + 1) hget hserves
        | refused hall =>
            exact .refused (List.forall_mem_cons.mpr ⟨congrArg Prod.fst hrefuses, hall⟩)

/-! ## The phases -/

/-- The outcomes of phase 1. -/
inductive FromExisting (os : Os) (l : NonZeroLayout w) (h : Heap (ExtendableSlab T)) :
    Option (Nat × Block) × Heap (ExtendableSlab T) → Prop
  | served {k hint : Nat} {b : Block} {seg seg' : Segment T}
      (hget : h.alloc.segments[k]? = some seg) (hserves : Serves os l h.mem seg b seg')
      (hhint : hint = h.alloc.firstOpenHint ∨ hint = k) :
      FromExisting os l h (some (k, b),
        ⟨{ h.alloc with segments := h.alloc.segments.set k seg', firstOpenHint := hint }, h.mem⟩)
  | refused (hall : ∀ seg ∈ h.alloc.segments, Refuses os l h.mem seg) :
      FromExisting os l h (none, h)

theorem take_append_set_drop {α : Type} (xs : List α) {i : Nat} (hi : i ≤ xs.length) (j : Nat)
    (a : α) : xs.take i ++ (xs.drop i).set j a = xs.set (i + j) a := by
  have hlen : (xs.take i).length = i := by rw [List.length_take, Nat.min_eq_left hi]
  conv_rhs => rw [← List.take_append_drop i xs]
  rw [List.set_append_right _ _ (by omega), hlen, Nat.add_sub_cancel_left]

theorem set_take_append_drop {α : Type} (xs : List α) {i j : Nat} {a b : α}
    (hget : (xs.take i)[j]? = some a) : (xs.take i).set j b ++ xs.drop i = xs.set j b := by
  conv_rhs => rw [← List.take_append_drop i xs]
  rw [List.set_append_left _ _ (List.getElem?_eq_some_iff.mp hget).1]

/-- **Phase 1** serves the request from one segment, or finds that none of them serves it. -/
theorem Ledgers.fromExisting (hl : Ledgers os n live h.alloc.segments h.mem) :
    FromExisting os l h (fromExisting os l h) := by
  have hstart : min h.alloc.firstOpenHint h.alloc.segments.length ≤ h.alloc.segments.length :=
    min_le_right _ _
  simp only [ExtendableSlab.fromExisting]
  generalize min h.alloc.firstOpenHint h.alloc.segments.length = start at hstart ⊢
  generalize hfst : ExtendableSlab.scan os l (h.alloc.segments.drop start) h.mem = out
  cases hfst ▸ (hl.drop start).scan (l := l) with
  | @served i b seg seg' hget hserves =>
      simp only
      rw [take_append_set_drop _ hstart]
      rw [List.getElem?_drop] at hget
      refine .served hget hserves ?_
      split
      · exact max_choice _ _
      · exact Or.inl rfl
  | refused hall =>
      simp only
      split
      · generalize hsnd : ExtendableSlab.scan os l (h.alloc.segments.take start) h.mem = out
        cases hsnd ▸ (hl.take start).scan (l := l) with
        | @served i b seg seg' hget hserves =>
            simp only
            rw [set_take_append_drop _ hget]
            rw [List.getElem?_take] at hget
            split at hget
            · exact .served hget hserves (min_choice _ _)
            · cases hget
        | refused hbefore =>
            simp only
            rw [List.take_append_drop]
            refine .refused fun seg hseg => ?_
            rw [← List.take_append_drop start h.alloc.segments, List.mem_append] at hseg
            exact hseg.elim (hbefore seg) (hall seg)
      case isFalse hpos =>
          obtain rfl : start = 0 := by omega
          exact .refused hall

/-- The outcomes of phase 3. -/
inductive Installed (os : Os) (l : NonZeroLayout w) (lenBefore : Nat) (newSeg : Segment T)
    (h : Heap (ExtendableSlab T)) : Option (Nat × Block) × Heap (ExtendableSlab T) → Prop
  | served {k hint : Nat} {b : Block} {seg seg' : Segment T}
      (hget : h.alloc.segments[k]? = some seg) (hserves : Serves os l h.mem seg b seg')
      (hhint : hint = h.alloc.firstOpenHint ∨ hint = k) :
      Installed os l lenBefore newSeg h (some (k, b),
        ⟨{ h.alloc with segments := h.alloc.segments.set k seg', firstOpenHint := hint }, h.mem⟩)
  | pushed {b : Block} {seg' : Segment T} (hserves : Serves os l h.mem newSeg b seg')
      (hall : ∀ seg ∈ h.alloc.segments.drop lenBefore, Refuses os l h.mem seg) :
      Installed os l lenBefore newSeg h (some (h.alloc.segments.length, b),
        ⟨{ h.alloc with segments := h.alloc.segments ++ [seg'],
                        firstOpenHint := h.alloc.segments.length }, h.mem⟩)
  | refused (hnew : Refuses os l h.mem newSeg) : Installed os l lenBefore newSeg h (none, h)

/-- **Phase 3** pushes the new segment only when none of the segments installed since `lenBefore`
was read serves the request. -/
theorem Ledgers.install (hl : Ledgers os n live h.alloc.segments h.mem) {lenBefore : Nat}
    {newSeg : Segment T} {G : List (Grant w)} (hle : lenBefore ≤ h.alloc.segments.length)
    (hi : Slab.Issues (MmapBacked.range w os) n ⟨newSeg, h.mem⟩ G) :
    Installed os l lenBefore newSeg h (install os l lenBefore newSeg h) := by
  -- with no segment installed in between the scan is one of the empty list
  have hscan : (if lenBefore < h.alloc.segments.length then
        ExtendableSlab.scan os l (h.alloc.segments.drop lenBefore) h.mem
      else (none, ⟨h.alloc.segments.drop lenBefore, h.mem⟩)) =
      ExtendableSlab.scan os l (h.alloc.segments.drop lenBefore) h.mem := by
    split
    · rfl
    · rw [List.drop_of_length_le (by omega)]
      rfl
  unfold ExtendableSlab.install
  simp only [hscan]
  generalize hlater : ExtendableSlab.scan os l (h.alloc.segments.drop lenBefore) h.mem = out
  cases hlater ▸ (hl.drop lenBefore).scan (l := l) with
  | @served i b seg seg' hget hserves =>
      simp only
      rw [take_append_set_drop _ hle]
      rw [List.getElem?_drop] at hget
      exact .served hget hserves (max_choice _ _)
  | refused hall =>
      simp only [List.take_append_drop]
      rcases serves_or_refuses (l := l) hi with ⟨b, seg', hserves⟩ | hrefuses
      · rw [show Slab.allocate (MmapBacked.range w os) l ⟨newSeg, h.mem⟩ = _ from hserves]
        exact .pushed hserves hall
      · rw [hrefuses]
        exact .refused (congrArg Prod.fst hrefuses)

/-! ## Routing -/

/-- The mappings of the segments have no byte in common. -/
def Apart (segs : List (Segment T)) : Prop :=
  (segs.map mapping).Pairwise fun b c => Disjoint b.bytes c.bytes

theorem Apart.disjoint (ha : Apart segs) {i j : Nat} (hne : i ≠ j) (hi : segs[i]? = some seg)
    (hj : segs[j]? = some seg') : Disjoint (mapping seg).bytes (mapping seg').bytes := by
  obtain ⟨hilt, rfl⟩ := List.getElem?_eq_some_iff.mp hi
  obtain ⟨hjlt, rfl⟩ := List.getElem?_eq_some_iff.mp hj
  have hpair := List.pairwise_iff_getElem.mp (List.pairwise_map.mp ha)
  rcases Nat.lt_or_gt_of_ne hne with hlt | hlt
  · exact hpair i j hilt hjlt hlt
  · exact (hpair j i hjlt hilt hlt).symm

theorem map_mapping_set {k : Nat} (hget : segs[k]? = some seg)
    (hmap : mapping seg' = mapping seg) : (segs.set k seg').map mapping = segs.map mapping := by
  obtain ⟨hlt, rfl⟩ := List.getElem?_eq_some_iff.mp hget
  have hlt' : k < (segs.map mapping).length := by rwa [List.length_map]
  rw [List.map_set, hmap, ← List.getElem_map mapping (h := hlt'), List.set_getElem_self hlt']

/-- The first byte of a block lies in the range of its segment. -/
theorem contains_of_mem {G : List (Grant w)} {g : Grant w}
    (hi : Slab.Issues (MmapBacked.range w os) n ⟨seg, m⟩ G) (hg : g ∈ G) :
    (Slab.range T (MmapBacked.range w os)).contains w g.block.ptr seg = true := by
  have hspace := Slab.region_inSpace hi.outstanding.shape
  have hwithin := hi.within hg
  have hlen : 0 < g.block.len := hi.len_eq g hg ▸ hi.outstanding.shape.stride_pos
  simp only at hwithin hspace
  refine (FixedRange.contains_iff (by omega) hspace).mpr ⟨hwithin.1, ?_⟩
  simp only [Slab.range]
  omega

/-- **A live block is routed to the segment that issued it.** -/
theorem Ledgers.route (hl : Ledgers os n live segs m) (ha : Apart segs) {k : Nat} {g : Grant w}
    (hget : segs[k]? = some seg) (hg : g ∈ live k) : route os g.block.ptr segs = some k := by
  obtain ⟨hlt, rfl⟩ := List.getElem?_eq_some_iff.mp hget
  have hcontains := contains_of_mem (hl k _ hget) hg
  rw [ExtendableSlab.route, List.findIdx?_eq_some_iff_getElem]
  refine ⟨hlt, hcontains, fun j hj hother => ?_⟩
  -- the pointer would lie in two mappings
  have hjget : segs[j]? = some segs[j] := List.getElem?_eq_getElem (by omega)
  have hshape := (hl k _ hget).outstanding.shape
  have hjshape := (hl j _ hjget).outstanding.shape
  have hptr : g.block.ptr < 2 ^ w := by
    have hspace := Slab.region_inSpace hshape
    have hwithin := (hl k _ hget).within hg
    have hlen : 0 < g.block.len := (hl k _ hget).len_eq g hg ▸ hshape.stride_pos
    simp only at hwithin hspace
    omega
  have hk := (FixedRange.contains_iff hptr (Slab.region_inSpace hshape)).mp hcontains
  have hj' := (FixedRange.contains_iff hptr (Slab.region_inSpace hjshape)).mp hother
  exact Set.disjoint_left.mp (ha.disjoint (Nat.ne_of_lt hj) hjget hget)
    (range_subset_mapping hjshape hj') (range_subset_mapping hshape hk)

/-- `deallocate` of a live block is `Slab::deallocate` on the segment that issued it. -/
theorem Ledgers.deallocate (hl : Ledgers os n live h.alloc.segments h.mem)
    (ha : Apart h.alloc.segments) {k : Nat} {g : Grant w}
    (hget : h.alloc.segments[k]? = some seg) (hg : g ∈ live k) :
    deallocate os g.block.ptr l h =
      ⟨{ h.alloc with
          segments := h.alloc.segments.set k
            (Slab.deallocate (MmapBacked.range w os) g.block.ptr l ⟨seg, h.mem⟩).alloc
          firstOpenHint := min h.alloc.firstOpenHint k },
        (Slab.deallocate (MmapBacked.range w os) g.block.ptr l ⟨seg, h.mem⟩).mem⟩ := by
  simp only [ExtendableSlab.deallocate, hl.route ha hget hg, hget]

/-! ## The ledgers after a call -/

theorem lt_length_of_getElem? {k : Nat} (hget : segs[k]? = some seg) : k < segs.length :=
  (List.getElem?_eq_some_iff.mp hget).1

/-- A call that works on one segment and leaves the slots of the others alone. -/
theorem Ledgers.set (hl : Ledgers os n live segs m) {k : Nat} {G : List (Grant w)}
    (hi : Slab.Issues (MmapBacked.range w os) n ⟨seg', m'⟩ G)
    (hframe : ∀ j seg, j ≠ k → segs[j]? = some seg →
      Set.EqOn m' m (seg.region (MmapBacked.range w os))) :
    Ledgers os n (Function.update live k G) (segs.set k seg') m' := by
  intro j seg hget
  rw [List.getElem?_set] at hget
  split at hget
  case isTrue heq =>
      subst heq
      split at hget
      · cases hget
        rw [Function.update_self]
        exact hi
      · cases hget
  case isFalse hne =>
      rw [Function.update_of_ne (Ne.symm hne)]
      exact (hl j seg hget).mem_congr ((hframe j seg (Ne.symm hne) hget).mono Set.sdiff_subset)

theorem Ledgers.serve (hl : Ledgers os n live segs m) {k : Nat} {b : Block}
    (hget : segs[k]? = some seg) (hserves : Serves os l m seg b seg') :
    Ledgers os n (Function.update live k (⟨b, l⟩ :: live k)) (segs.set k seg') m :=
  hl.set ((hl k seg hget).allocate_some hserves).1 fun _ _ _ _ _ _ => rfl

/-- The bytes of a segment that is apart from the block are not written with it. -/
theorem eqOn_region_of_frame {g : Grant w} {seg₁ : Segment T} {G : List (Grant w)}
    (hs : Slab.Shape (MmapBacked.range w os) seg₁)
    (hi : Slab.Issues (MmapBacked.range w os) n ⟨seg, m⟩ G) (hg : g ∈ G)
    (hdisj : Disjoint (mapping seg₁).bytes (mapping seg).bytes)
    (hframe : ∀ x ∉ g.block.bytes, m' x = m x) :
    Set.EqOn m' m (seg₁.region (MmapBacked.range w os)) := by
  intro x hx
  have hxs : x ∈ (mapping seg₁).bytes :=
    range_subset_mapping hs (Slab.region_subset_range _ _ hx)
  refine hframe x fun hxg => Set.disjoint_left.mp hdisj hxs ?_
  exact range_subset_mapping hi.outstanding.shape
    (Slab.region_subset_range _ _ (hi.subset_region hg hxg))

theorem Ledgers.free (hl : Ledgers os n live segs m) (ha : Apart segs) {k : Nat} {g : Grant w}
    (hget : segs[k]? = some seg) (hg : g ∈ live k) :
    let freed := Slab.deallocate (MmapBacked.range w os) g.block.ptr l ⟨seg, m⟩
    Ledgers os n (Function.update live k ((live k).erase g)) (segs.set k freed.alloc)
      freed.mem := by
  obtain ⟨hi, -, hframe⟩ := (hl k seg hget).deallocate (l := l) hg
  refine hl.set hi fun j seg₁ hne hj => ?_
  exact eqOn_region_of_frame (hl j seg₁ hj).outstanding.shape (hl k seg hget) hg
    (ha.disjoint hne hj hget) hframe

theorem Ledgers.push (hl : Ledgers os n live segs m) {G : List (Grant w)}
    (hi : Slab.Issues (MmapBacked.range w os) n ⟨seg', m⟩ G) :
    Ledgers os n (Function.update live segs.length G) (segs ++ [seg']) m := by
  intro j seg hget
  rcases Nat.lt_trichotomy j segs.length with hlt | rfl | hgt
  · rw [List.getElem?_append_left hlt] at hget
    rw [Function.update_of_ne (Nat.ne_of_lt hlt)]
    exact hl j seg hget
  · rw [List.getElem?_concat_length] at hget
    cases hget
    rw [Function.update_self]
    exact hi
  · have hlt := lt_length_of_getElem? hget
    rw [List.length_append, List.length_singleton] at hlt
    omega

/-! ## Construction of a segment -/

/-- The stride of every segment. -/
def strideOf (T : RustType w) : Nat :=
  alignUp (max T.size freeLinkSize) (max T.align freeLinkAlign)

/-- Building writes nothing. -/
theorem buildSegment_mem {x : Supply} {g : Heap (Segment T)}
    (hbuild : buildSegment os T n x m = some g) : g.mem = m := by
  simp only [buildSegment, Option.bind_eq_bind, Option.bind_eq_some_iff] at hbuild
  obtain ⟨withSlack, -, backing, hmap, hnew⟩ := hbuild
  obtain ⟨block, g', halloc, -, -, -, -, -, -, heq⟩ := Slab.withProtection_eq_some hnew
  have hframe : (MmapBacked.allocate os g.alloc.backingLayout ⟨backing, m⟩).2.mem = m :=
    (MmapBacked.allocate_frame _ _).1
  rw [show MmapBacked.allocate os g.alloc.backingLayout ⟨backing, m⟩ = _ from halloc] at hframe
  rw [heq]
  exact hframe

/-- **A built segment** has no block out. -/
theorem buildSegment_spec {x : Supply} {g : Heap (Segment T)}
    (hbuild : buildSegment os T n x m = some g)
    (hspace : (mapping g.alloc).ptr + (mapping g.alloc).len < 2 ^ w) :
    Slab.Issues (MmapBacked.range w os) n g [] ∧ g.mem = m ∧
      g.alloc.blockStride = strideOf T := by
  have hmem := buildSegment_mem hbuild
  simp only [buildSegment, Option.bind_eq_bind, Option.bind_eq_some_iff] at hbuild
  obtain ⟨withSlack, -, backing, hmap, hnew⟩ := hbuild
  obtain ⟨block, g', halloc, -, -, hstride, -, -, -, heq⟩ := Slab.withProtection_eq_some hnew
  have hframe : (MmapBacked.allocate os g.alloc.backingLayout ⟨backing, m⟩).2.alloc.ptr =
        backing.ptr ∧
      (MmapBacked.allocate os g.alloc.backingLayout ⟨backing, m⟩).2.alloc.len = backing.len :=
    (MmapBacked.allocate_frame _ _).2
  obtain ⟨hptr, hlen⟩ := hframe
  rw [show MmapBacked.allocate os g.alloc.backingLayout ⟨backing, m⟩ = _ from halloc] at hptr hlen
  have hback : g.alloc.backing = g'.alloc := by rw [heq]
  rw [mapping, hback, hptr, hlen] at hspace
  have hholds := MmapBacked.holds_new hmap hspace m
  obtain ⟨G, hG, hi⟩ := Slab.holds_new (MmapBacked.honours w os backing.ptr_pos) hholds x.sound hnew
  obtain rfl : G = [] := List.eq_nil_iff_forall_not_mem.mpr fun a ha => by
    have : a ∈ (∅ : Set (Grant w)) := hG ▸ ha
    exact this
  exact ⟨hi, hmem, hstride⟩

end ExtendableSlab

end ForgeAlloc
