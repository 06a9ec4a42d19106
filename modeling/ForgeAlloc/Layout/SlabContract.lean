import ForgeAlloc.Core.OwnedRange
import ForgeAlloc.Layout.SlabBlocks

set_option autoImplicit false

/-! # A `Slab` meets the `Allocator` contract

`Slab.Holds R n h L` says that the blocks of the ledger `L` are the outstanding ones, each as long as
a slot and requested under a layout that fits a slot. The region and the stride are multiples of the
alignment of a slot (`Aligned`), which construction sees to.
-/

namespace ForgeAlloc

namespace Slab

open MachineInt ByteMemory SlotPool

variable {w : Nat} {β : Type} {T : RustType w} {R : FixedRange β} {h h' : Heap (Slab T β)}
  {n : Nat} {L : Set (Grant w)} {g : Grant w} {l : NonZeroLayout w} {b : Block}

/-- The alignment of a slot. -/
def slotAlign (T : RustType w) : Nat := max T.align freeLinkAlign

theorem slotAlign_isPowerOfTwo (T : RustType w) : (slotAlign T).isPowerOfTwo := by
  unfold slotAlign
  rcases max_choice T.align freeLinkAlign with heq | heq
  · rw [heq]
    exact T.align_pow
  · rw [heq]
    exact ⟨2, rfl⟩

structure Aligned (R : FixedRange β) (s : Slab T β) : Prop where
  base_dvd : slotAlign T ∣ s.basePtr R
  stride_dvd : slotAlign T ∣ s.blockStride

theorem Aligned.congr {s s' : Slab T β} (ha : Aligned R s) (hs : SameShape s s') :
    Aligned R s' := by
  obtain ⟨head, carved, events, rfl⟩ := hs
  exact ⟨ha.base_dvd, ha.stride_dvd⟩

/-- A slot is aligned for every layout that fits it. -/
theorem Aligned.dvd_slotPtr {s : Slab T β} (ha : Aligned R s) (hfits : s.FitsSlot l) (i : Nat) :
    l.align ∣ s.slotPtr R i := by
  have hdvd : l.align ∣ slotAlign T :=
    dvd_of_le_of_isPowerOfTwo l.align_pow (slotAlign_isPowerOfTwo T) hfits.1
  exact hdvd.trans (Nat.dvd_add ha.base_dvd (ha.stride_dvd.mul_left i))

/-- The grants `G` are the outstanding blocks. -/
structure Issues (R : FixedRange β) (n : Nat) (h : Heap (Slab T β)) (G : List (Grant w)) :
    Prop where
  outstanding : Outstanding R h n (G.map fun g => g.block.ptr)
  aligned : Aligned R h.alloc
  len_eq : ∀ g ∈ G, g.block.len = h.alloc.blockStride
  fits : ∀ g ∈ G, h.alloc.FitsSlot g.layout

def Holds (R : FixedRange β) (n : Nat) (h : Heap (Slab T β)) (L : Set (Grant w)) : Prop :=
  ∃ G : List (Grant w), L = {g | g ∈ G} ∧ Issues R n h G

variable {G : List (Grant w)}

theorem Issues.exists_slot (hi : Issues R n h G) (hg : g ∈ G) :
    ∃ i < h.alloc.capacity, g.block.ptr = h.alloc.slotPtr R i := by
  obtain ⟨i, hlt, heq⟩ := hi.outstanding.exists_slot (List.mem_map_of_mem hg)
  exact ⟨i, hlt.trans_le (hi.outstanding.carved_le.trans_eq hi.outstanding.capacity_eq.symm), heq⟩

theorem Issues.within (hi : Issues R n h G) (hg : g ∈ G) :
    h.alloc.basePtr R ≤ g.block.ptr ∧ g.block.ptr + g.block.len ≤
      h.alloc.basePtr R + h.alloc.capacity * h.alloc.blockStride := by
  obtain ⟨i, hlt, heq⟩ := hi.exists_slot hg
  have hwithin := (slot_within hi.outstanding.shape hlt).1
  rw [hi.len_eq g hg, heq]
  exact ⟨Nat.le_add_right _ _, hwithin⟩

theorem region_inSpace {s : Slab T β} (hs : Shape R s) :
    s.basePtr R + s.capacity * s.blockStride ≤ 2 ^ w := by
  have hle := hs.region_le
  have hspace := hs.inSpace
  simp only [basePtr]
  omega

theorem Issues.satisfies (hi : Issues R n h G) (hg : g ∈ G) : Satisfies g.block g.layout := by
  obtain ⟨i, -, heq⟩ := hi.exists_slot hg
  have hs := hi.outstanding.shape
  have hwithin := hi.within hg
  have hspace := region_inSpace hs
  have hpos := hs.base_pos
  refine ⟨?_, ?_, ?_, hwithin.2.trans hspace⟩
  · rw [heq]
    exact hi.aligned.dvd_slotPtr (hi.fits g hg) i
  · rw [hi.len_eq g hg]
    exact (hi.fits g hg).2
  · have hbase : R.base h.alloc.backing ≤ h.alloc.basePtr R := Nat.le_add_right _ _
    omega

theorem Issues.eq_of_ptr (hi : Issues R n h G) {g' : Grant w} (hg : g ∈ G) (hg' : g' ∈ G)
    (hptr : g.block.ptr = g'.block.ptr) : g = g' :=
  List.inj_on_of_nodup_map hi.outstanding.nodup hg hg' hptr

theorem Issues.disjoint (hi : Issues R n h G) {g' : Grant w} (hg : g ∈ G) (hg' : g' ∈ G)
    (hne : g ≠ g') : Disjoint g.block.bytes g'.block.bytes := by
  have hdisj := hi.outstanding.disjoint (List.mem_map_of_mem hg) (List.mem_map_of_mem hg')
    fun hptr => hne (hi.eq_of_ptr hg hg' hptr)
  rw [← hi.len_eq g hg] at hdisj
  rw [Block.disjoint_iff] at hdisj ⊢
  rw [hi.len_eq g' hg', ← hi.len_eq g hg]
  exact hdisj

theorem Issues.allocate_some (hi : Issues R n h G) (heq : allocate R l h = (some b, h')) :
    Issues R n h' (⟨b, l⟩ :: G) ∧ (∀ g ∈ G, Disjoint b.bytes g.block.bytes) ∧ h'.mem = h.mem ∧
      SameShape h.alloc h'.alloc := by
  obtain ⟨hfits, hlen, hout, hsame, hmem⟩ := hi.outstanding.allocate_some heq
  have hstride : h'.alloc.blockStride = h.alloc.blockStride := by
    obtain ⟨head, carved, events, hs⟩ := hsame
    rw [hs]
  refine ⟨⟨hout, hi.aligned.congr hsame, ?_, ?_⟩, ?_, hmem, hsame⟩
  · refine List.forall_mem_cons.mpr ⟨hlen.trans hstride.symm, fun g hg => ?_⟩
    rw [hstride]
    exact hi.len_eq g hg
  · unfold FitsSlot
    rw [hstride]
    exact List.forall_mem_cons.mpr ⟨hfits, hi.fits⟩
  · intro g hg
    have hdisj := hi.outstanding.allocate_disjoint heq (List.mem_map_of_mem hg)
    rw [← hi.len_eq g hg] at hdisj
    exact hdisj

theorem Issues.deallocate (hi : Issues R n h G) (hg : g ∈ G) :
    Issues R n (Slab.deallocate R g.block.ptr l h) (G.erase g) ∧
      SameShape h.alloc (Slab.deallocate R g.block.ptr l h).alloc ∧
      ∀ x ∉ g.block.bytes, (Slab.deallocate R g.block.ptr l h).mem x = h.mem x := by
  have hperm : (g.block.ptr :: (G.erase g).map fun g => g.block.ptr).Perm
      (G.map fun g => g.block.ptr) :=
    ((List.perm_cons_erase hg).map fun g : Grant w => g.block.ptr).symm
  obtain ⟨hout, hsame, hframe, -⟩ :=
    (hi.outstanding.perm hperm).deallocate (l := l)
  have hstride : (Slab.deallocate R g.block.ptr l h).alloc.blockStride = h.alloc.blockStride := by
    obtain ⟨head, carved, events, hs⟩ := hsame
    rw [hs]
  refine ⟨⟨hout, hi.aligned.congr hsame, fun g' hg' => ?_, fun g' hg' => ?_⟩, hsame, ?_⟩
  · rw [hstride]
    exact hi.len_eq g' (List.mem_of_mem_erase hg')
  · unfold FitsSlot
    rw [hstride]
    exact hi.fits g' (List.mem_of_mem_erase hg')
  · rw [← hi.len_eq g hg] at hframe
    exact hframe

theorem Issues.block_eq_slot (hi : Issues R n h G) (hg : g ∈ G) :
    ∃ i < h.alloc.capacity, g.block = slot (h.alloc.basePtr R) h.alloc.blockStride i := by
  obtain ⟨i, hlt, hptr⟩ := hi.exists_slot hg
  refine ⟨i, hlt, ?_⟩
  calc g.block = ⟨g.block.ptr, g.block.len⟩ := rfl
    _ = slot (h.alloc.basePtr R) h.alloc.blockStride i := by
      rw [hptr, hi.len_eq g hg]
      rfl

theorem Issues.subset_region (hi : Issues R n h G) (hg : g ∈ G) :
    g.block.bytes ⊆ h.alloc.region R := by
  obtain ⟨i, hlt, heq⟩ := hi.block_eq_slot hg
  exact fun x hx => ⟨i, hlt, heq ▸ hx⟩

/-- A change of memory inside the outstanding blocks or outside the region is not seen. -/
theorem Issues.mem_congr (hi : Issues R n h G) {m : Mem}
    (hm : Set.EqOn m h.mem (h.alloc.region R \ liveBytes {g | g ∈ G})) :
    Issues R n ⟨h.alloc, m⟩ G := by
  refine ⟨hi.outstanding.mem_congr fun i hlt hfree x hx => hm ⟨⟨i, ?_, hx⟩, ?_⟩, hi.aligned,
    hi.len_eq, hi.fits⟩
  · rw [hi.outstanding.capacity_eq]
    exact hlt
  · rintro ⟨g, hg, hxg⟩
    obtain ⟨j, -, hj⟩ := hi.block_eq_slot hg
    -- the slot of the block and a slot that is not outstanding have no byte in common
    have hne : i ≠ j := by
      rintro rfl
      refine hfree ?_
      rw [slotPtr_eq, ← hj]
      exact List.mem_map_of_mem hg
    rw [hj] at hxg
    exact Set.disjoint_left.mp (slot_disjoint hne) hx hxg

theorem basePtr_congr {s s' : Slab T β} (hs : SameShape s s') : s'.basePtr R = s.basePtr R := by
  obtain ⟨head, carved, events, rfl⟩ := hs
  rfl

/-- **A slab meets the `Allocator` contract.** -/
theorem honours (T : RustType w) (R : FixedRange β) (n : Nat) :
    HonoursRange (allocator w T R) (range T R) (Holds R n) := by
  have hcore : HonoursCore (allocator w T R) (Holds R n) :=
    { satisfies := by
        rintro h L g ⟨G, rfl, hi⟩ hg
        exact hi.satisfies hg
      disjoint := by
        rintro h L g g' ⟨G, rfl, hi⟩ hg hg' hne
        exact hi.disjoint hg hg' hne
      allocate_some := by
        rintro h L l b h' ⟨G, rfl, hi⟩ heq
        obtain ⟨hi', hfresh, hmem, -⟩ := hi.allocate_some heq
        exact ⟨⟨_, (List.setOfPred_mem_cons _ _).symm, hi'⟩, hfresh, fun x _ => congrFun hmem x⟩
      allocate_none := by
        rintro h L l h' ⟨G, rfl, hi⟩ heq
        obtain ⟨rfl, -⟩ := hi.outstanding.allocate_none heq
        exact ⟨⟨G, rfl, hi⟩, fun _ _ => rfl⟩
      deallocate := by
        rintro h L g ⟨G, rfl, hi⟩ hg
        obtain ⟨hi', -, hframe⟩ := hi.deallocate (l := g.layout) hg
        have hnodup : G.Nodup := hi.outstanding.nodup.of_map _
        refine ⟨⟨G.erase g, (set_erase hnodup g).symm, hi'⟩, ?_⟩
        rintro x ⟨g', hg', hx⟩
        exact hframe x fun hxg =>
          Set.disjoint_left.mp (hi.disjoint hg'.1 hg fun heq => hg'.2 heq) hx hxg
      write := by
        rintro h L m ⟨G, rfl, hi⟩ hm
        exact ⟨G, rfl, hi.mem_congr (hm.mono fun x hx => hx.2)⟩ }
  exact
    { hcore.withDefaults rfl rfl (by
        rintro h L g n' ⟨G, rfl, hi⟩ hg heq
        cases heq
        exact (hi.fits g hg).2) with
      base_le := by
        rintro h L g ⟨G, rfl, hi⟩ hg
        exact (hi.within hg).1
      le_end := by
        rintro h L g ⟨G, rfl, hi⟩ hg
        exact (hi.within hg).2
      base_pos := by
        rintro h L ⟨G, rfl, hi⟩
        exact Nat.add_pos_left hi.outstanding.shape.base_pos _
      end_le := by
        rintro h L ⟨G, rfl, hi⟩
        exact region_inSpace hi.outstanding.shape
      base_allocate := by
        rintro h L l ⟨G, rfl, hi⟩
        show (allocate R l h).2.alloc.basePtr R = h.alloc.basePtr R
        rcases hcall : allocate R l h with ⟨_ | b, h'⟩
        · rw [(hi.outstanding.allocate_none hcall).1]
        · exact basePtr_congr (hi.allocate_some hcall).2.2.2
      base_deallocate := by
        rintro h L g ⟨G, rfl, hi⟩ hg
        show (deallocate R g.block.ptr g.layout h).alloc.basePtr R = h.alloc.basePtr R
        exact basePtr_congr (hi.deallocate hg).2.1 }

theorem block_congr {s s' : Slab T β} (hs : SameShape s s') :
    (range T R).block s' = (range T R).block s := by
  obtain ⟨head, carved, events, rfl⟩ := hs
  rfl

theorem region_subset_range (R : FixedRange β) (s : Slab T β) :
    s.region R ⊆ ((range T R).block s).bytes := by
  rintro x ⟨i, hi, hx⟩
  have hle : (i + 1) * s.blockStride ≤ s.capacity * s.blockStride := Nat.mul_le_mul_right _ hi
  have hsucc : (i + 1) * s.blockStride = i * s.blockStride + s.blockStride := Nat.succ_mul _ _
  have hx' : s.basePtr R + i * s.blockStride ≤ x ∧
      x < s.basePtr R + i * s.blockStride + s.blockStride := hx
  show s.basePtr R ≤ x ∧ x < s.basePtr R + s.capacity * s.blockStride
  omega

theorem Issues.inRange_allocate (hi : Issues R n h G) :
    InRange (range T R) h (allocate R l h).2 := by
  rcases hcall : allocate R l h with ⟨_ | b, h'⟩
  · rw [(hi.outstanding.allocate_none hcall).1]
    exact InRange.of_mem_eq rfl rfl
  · obtain ⟨-, -, hmem, hsame⟩ := hi.allocate_some hcall
    exact InRange.of_mem_eq (block_congr hsame) hmem

theorem Issues.inRange_deallocate (hi : Issues R n h G) (hg : g ∈ G) :
    InRange (range T R) h (Slab.deallocate R g.block.ptr l h) := by
  obtain ⟨-, hsame, hframe⟩ := hi.deallocate (l := l) hg
  refine ⟨block_congr hsame, fun x hx => hframe x fun hxg => hx ?_⟩
  exact region_subset_range R h.alloc (hi.subset_region hg hxg)

/-- **A slab owns the range of its slots.** The links of the free list lie in slots. -/
theorem ownsRange (T : RustType w) (R : FixedRange β) (n : Nat) :
    OwnsRange (allocator w T R) (defaultAllocateZeroed (allocate R)) (range T R) (Holds R n) := by
  have hcore : HonoursCore (allocator w T R) (Holds R n) := (honours T R n).toHonoursCore
  have hsubset : ∀ {h : Heap (Slab T β)} {L : Set (Grant w)} {g : Grant w},
      Holds R n h L → g ∈ L → g.block.bytes ⊆ ((range T R).block h.alloc).bytes := by
    rintro h L g ⟨G, rfl, hi⟩ hg
    exact (hi.subset_region hg).trans (region_subset_range R h.alloc)
  have hconf : ∀ {h : Heap (Slab T β)} {L : Set (Grant w)} {l : NonZeroLayout w},
      Holds R n h L → InRange (range T R) h (allocate R l h).2 := by
    rintro h L l ⟨G, rfl, hi⟩
    exact hi.inRange_allocate
  exact
    { hcore with
      subset := hsubset
      inRange_allocate := hconf
      inRange_deallocate := by
        rintro h L g ⟨G, rfl, hi⟩ hg
        exact hi.inRange_deallocate (l := g.layout) hg
      zeroed_in := AllocatesIn.defaultZeroed hcore
        ⟨hcore.allocate_some, hcore.allocate_none, hconf⟩ hsubset
      mem_congr := by
        rintro h L m ⟨G, rfl, hi⟩ hm
        have hsub := region_subset_range R h.alloc
        exact ⟨G, rfl, hi.mem_congr (hm.mono (Set.sdiff_subset_sdiff_left hsub))⟩ }

/-- A constructed slab has no block out. -/
theorem holds_new {A : Allocator w β} {Inv : Heap β → Set (Grant w) → Prop}
    {K : Set (Grant w)} (hA : HonoursRange A R Inv) {g : Heap β} (hinv : Inv g K)
    {mac : FreelistProtection} (hM : mac.Sound)
    (hnew : withProtection A R T n mac g = some h) : Holds R n h (∅ : Set (Grant w)) := by
  obtain ⟨hbase, hstride⟩ := withProtection_aligned hA hinv hnew
  refine ⟨[], ?_, outstanding_new hA hinv hM hnew, ⟨hbase, hstride⟩, List.forall_mem_nil _,
    List.forall_mem_nil _⟩
  ext g
  simp

end Slab

end ForgeAlloc
