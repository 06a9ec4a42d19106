import ForgeAlloc.Core.Component
import ForgeAlloc.Layout.SlabContract
import ForgeAlloc.Layout.SlabOwner

set_option autoImplicit false

/-! # Slabs as components

A slab owns its range. It answers its stride to `usable_size`, and its slices are as long as that.

`SlabOwner` is a slab whose queue holds blocks that its clients have already freed. For the slab they
are still out (`SlabOwner.Queued`), until the owner drains the queue. What the owner sees of the
remotes is not known to it: `OwnerView` adds what the next loads of the mirror return and whether the
next attempts at the lock fail.
-/

namespace ForgeAlloc

open ByteMemory

variable {w : Nat} {β : Type} {T : RustType w} {R : FixedRange β} {n : Nat} {c : Block}

namespace Slab

def component (T : RustType w) (R : FixedRange β) (n : Nat) (c : Block) : Component w (Slab T β) :=
  .ofRange (allocator w T R) (range T R) (Holds R n) (fun g => some g.block.len)
    (fun l h => decide (l.size < h.alloc.blockStride)) c

theorem lawful (T : RustType w) (R : FixedRange β) (n : Nat) (c : Block) :
    (component T R n c).Lawful := by
  refine (ownsRange T R n).lawful (honours T R n) c ?_ ?_
  · rintro h L g ⟨G, rfl, hi⟩ hg
    exact ⟨congrArg some (hi.len_eq g hg).symm, rfl⟩
  · rintro h L l b h' ⟨G, rfl, hi⟩ hcall
    obtain ⟨-, hlen, -⟩ := hi.outstanding.allocate_some hcall
    rw [hlen, decide_eq_true_iff]

theorem component_fresh {A : Allocator w β} {Inv : Heap β → Set (Grant w) → Prop}
    {K : Set (Grant w)} (hA : HonoursRange A R Inv) {g : Heap β} (hinv : Inv g K)
    {mac : FreelistProtection} (hM : mac.Sound) {h : Heap (Slab T β)}
    (hnew : withProtection A R T n mac g = some h) :
    (component T R n ((range T R).block h.alloc)).inv h ∅ := ⟨holds_new hA hinv hM hnew, rfl⟩

/-- A slab sees the order of its ledger in nothing. -/
theorem Issues.perm {h : Heap (Slab T β)} {G G' : List (Grant w)} (hi : Issues R n h G)
    (hperm : G'.Perm G) : Issues R n h G' where
  outstanding := hi.outstanding.perm (hperm.map _)
  aligned := hi.aligned
  len_eq := fun g hg => hi.len_eq g (hperm.mem_iff.mp hg)
  fits := fun g hg => hi.fits g (hperm.mem_iff.mp hg)

/-- The range and the number of its slots give the stride. -/
theorem Issues.stride_eq {h h' : Heap (Slab T β)} {G G' : List (Grant w)} (hi : Issues R n h G)
    (hi' : Issues R n h' G') (hblock : (range T R).block h'.alloc = (range T R).block h.alloc) :
    h'.alloc.blockStride = h.alloc.blockStride := by
  have hlen : h'.alloc.capacity * h'.alloc.blockStride = h.alloc.capacity * h.alloc.blockStride :=
    congrArg Block.len hblock
  have hpos : 0 < n := hi.outstanding.capacity_eq ▸ hi.outstanding.shape.capacity_pos
  rw [hi'.outstanding.capacity_eq, hi.outstanding.capacity_eq] at hlen
  exact Nat.eq_of_mul_eq_mul_left hpos hlen

theorem Issues.nodup {h : Heap (Slab T β)} {G : List (Grant w)} (hi : Issues R n h G) : G.Nodup :=
  hi.outstanding.nodup.of_map _

end Slab

/-! ## `SlabOwner` -/

structure OwnerView (T : RustType w) (β : Type) where
  owner : SlabOwner T β
  /-- For each of the next calls, what the load of the mirror returns and whether the lock is
  taken. -/
  sees : Nat → Nat × Bool

namespace SlabOwner

/-- The entry of the queue for a block. -/
def entry (g : Grant w) : RemoteEntry w := ⟨g.block.ptr, g.layout⟩

/-- The blocks `G` are out, and those in the queue. -/
def Queued (R : FixedRange β) (n : Nat) (h : Heap (SlabOwner T β)) (G : List (Grant w)) : Prop :=
  ∃ Q : List (Grant w), h.alloc.remoteQueue = Q.map entry ∧
    Slab.Issues R n (slabHeap h) (G ++ Q)

/-- The outcome of a call that leaves the blocks `G` alone and keeps to the slab. -/
structure Kept (R : FixedRange β) (n : Nat) (G : List (Grant w)) (h h' : Heap (SlabOwner T β)) :
    Prop where
  queued : Queued R n h' G
  inRange : InRange (Slab.range T R) (slabHeap h) (slabHeap h')
  frame : Set.EqOn h'.mem h.mem (liveBytes {g | g ∈ G})

variable {h h' h'' : Heap (SlabOwner T β)} {G Q : List (Grant w)} {g : Grant w}
  {l : NonZeroLayout w} {b : Block}

theorem Queued.kept (hq : Queued R n h G) : Kept R n G h h :=
  ⟨hq, InRange.of_mem_eq rfl rfl, fun _ _ => rfl⟩

theorem Kept.trans (hk : Kept R n G h h') (hk' : Kept R n G h' h'') : Kept R n G h h'' := by
  refine ⟨hk'.queued, ⟨hk'.inRange.block_eq.trans hk.inRange.block_eq, ?_⟩,
    hk'.frame.trans hk.frame⟩
  have hframe := hk'.inRange.frame
  rw [hk.inRange.block_eq] at hframe
  exact hframe.trans hk.inRange.frame

/-- A block of the queue goes back to the slab. -/
theorem freeEntry_kept (hi : Slab.Issues R n (slabHeap h) (G ++ g :: Q)) :
    Slab.Issues R n (slabHeap (freeEntry R h (entry g))) (G ++ Q) ∧
      InRange (Slab.range T R) (slabHeap h) (slabHeap (freeEntry R h (entry g))) ∧
      Set.EqOn (freeEntry R h (entry g)).mem h.mem (liveBytes {g | g ∈ G}) := by
  have hg : g ∈ G ++ g :: Q := List.mem_append_right _ List.mem_cons_self
  obtain ⟨hi', -, hframe⟩ := hi.deallocate (l := g.layout) hg
  have hnot : g ∉ G := fun hmem =>
    (List.disjoint_of_nodup_append hi.nodup) hmem List.mem_cons_self
  rw [List.erase_append_right _ hnot, List.erase_cons_head] at hi'
  refine ⟨hi', hi.inRange_deallocate (l := g.layout) hg, ?_⟩
  rintro x ⟨g', hg', hx⟩
  have hne : g' ≠ g := fun heq => hnot (heq ▸ hg')
  exact hframe x fun hxg =>
    Set.disjoint_left.mp (hi.disjoint (List.mem_append_left _ hg') hg hne) hx hxg

theorem freeAll_kept (hq : h.alloc.remoteQueue = [])
    (hi : Slab.Issues R n (slabHeap h) (G ++ Q)) : Kept R n G h (freeAll R (Q.map entry) h) := by
  induction Q generalizing h with
  | nil => exact Queued.kept ⟨[], hq, hi⟩
  | cons g Q ih =>
      obtain ⟨hi', hin, hframe⟩ := freeEntry_kept hi
      have hrest := ih (h := freeEntry R h (entry g)) hq hi'
      refine ⟨hrest.queued, ⟨hrest.inRange.block_eq.trans hin.block_eq, ?_⟩,
        hrest.frame.trans hframe⟩
      have hrestFrame := hrest.inRange.frame
      rw [hin.block_eq] at hrestFrame
      exact hrestFrame.trans hin.frame

theorem takeQueue_kept (hq : Queued R n h G) {s : SlabOwner T β}
    (hslab : s.slab = h.alloc.slab) (hqueue : s.remoteQueue = h.alloc.remoteQueue) :
    Kept R n G h (freeAll R s.takeQueue.1 ⟨s.takeQueue.2, h.mem⟩) := by
  obtain ⟨Q, hQ, hi⟩ := hq
  have hheap : slabHeap ⟨s.takeQueue.2, h.mem⟩ = slabHeap h := by
    simp only [takeQueue, slabHeap]
    split <;> rw [hslab]
  have hempty : (s.takeQueue.2).remoteQueue = [] := by
    simp only [takeQueue]
    split
    case isTrue hnil => exact List.isEmpty_iff.mp hnil
    case isFalse => rfl
  have hentries : s.takeQueue.1 = Q.map entry := by
    simp only [takeQueue]
    split
    case isTrue hnil => exact (List.isEmpty_iff.mp hnil).symm.trans (hqueue.trans hQ)
    case isFalse => exact hqueue.trans hQ
  have hkept := freeAll_kept (h := ⟨s.takeQueue.2, h.mem⟩) hempty (hheap ▸ hi)
  rw [hentries]
  exact ⟨hkept.queued, hheap ▸ hkept.inRange, hkept.frame⟩

theorem drain_kept (hq : Queued R n h G) : Kept R n G h (drain R h) :=
  takeQueue_kept hq rfl rfl

theorem maybeDrain_kept (hq : Queued R n h G) (pending : Nat) (contended : Bool) :
    Kept R n G h (maybeDrain R pending contended h) := by
  rcases hthreshold : h.alloc.threshold pending with ⟨threshold, s⟩
  have hs : s.slab = h.alloc.slab ∧ s.remoteQueue = h.alloc.remoteQueue := by
    unfold SlabOwner.threshold at hthreshold
    split at hthreshold <;> cases hthreshold <;> exact ⟨rfl, rfl⟩
  have hsame : Kept R n G h ⟨s, h.mem⟩ := by
    have hheap : slabHeap ⟨s, h.mem⟩ = slabHeap h := by rw [slabHeap, hs.1]; rfl
    obtain ⟨Q, hQ, hi⟩ := hq
    refine ⟨⟨Q, hs.2.trans hQ, hheap ▸ hi⟩, ?_, fun _ _ => rfl⟩
    rw [hheap]
    exact InRange.of_mem_eq rfl rfl
  simp only [maybeDrain, hthreshold]
  split
  · exact hsame
  · split
    · exact hsame
    · exact takeQueue_kept hq hs.1 hs.2

/-! ### The owner's calls -/

theorem allocateSlab_queued (hq : Queued R n h G) (heq : allocateSlab R l h = (some b, h')) :
    Queued R n h' (⟨b, l⟩ :: G) ∧ (∀ g ∈ G, Disjoint b.bytes g.block.bytes) ∧ h'.mem = h.mem ∧
      InRange (Slab.range T R) (slabHeap h) (slabHeap h') := by
  obtain ⟨Q, hQ, hi⟩ := hq
  obtain ⟨hcall, -, slab, rfl⟩ := allocateSlab_some hi.outstanding heq
  obtain ⟨hi', hfresh, hmem, hsame⟩ := hi.allocate_some hcall
  exact ⟨⟨Q, hQ, hi'⟩, fun g hg => hfresh g (List.mem_append_left _ hg), rfl,
    InRange.of_mem_eq (Slab.block_congr hsame) hmem⟩

theorem allocateSlab_kept (hq : Queued R n h G) (heq : allocateSlab R l h = (none, h')) :
    h' = h := by
  obtain ⟨Q, -, hi⟩ := hq
  exact (allocateSlab_none hi.outstanding heq).1

/-- **A request**: drains, and then at most one block from the slab. -/
theorem allocate_cases (hq : Queued R n h G) (pending : Nat) (contended : Bool)
    (l : NonZeroLayout w) :
    ∃ h₁, Kept R n G h h₁ ∧
      ((∃ b h₂, allocateSlab R l h₁ = (some b, h₂) ∧
          allocate R pending contended l h = (some b, h₂)) ∨
        allocate R pending contended l h = (none, h₁)) := by
  have hkept := maybeDrain_kept hq pending contended
  rcases hfirst : allocateSlab R l (maybeDrain R pending contended h) with ⟨_ | b, h₁⟩
  · obtain rfl := allocateSlab_kept hkept.queued hfirst
    have hdrain := hkept.trans (drain_kept hkept.queued)
    have hretry : allocate R pending contended l h =
        allocateSlab R l (drain R (maybeDrain R pending contended h)) := by
      simp only [allocate, hfirst]
    rcases hsecond : allocateSlab R l (drain R (maybeDrain R pending contended h)) with
      ⟨_ | b, h₂⟩
    · obtain rfl := allocateSlab_kept hdrain.queued hsecond
      exact ⟨_, hdrain, Or.inr (hretry.trans hsecond)⟩
    · exact ⟨_, hdrain, Or.inl ⟨b, h₂, hsecond, hretry.trans hsecond⟩⟩
  · refine ⟨_, hkept, Or.inl ⟨b, h₁, hfirst, ?_⟩⟩
    simp only [allocate, hfirst]

theorem deallocate_kept (hq : Queued R n h G) (pending : Nat) (contended : Bool) (hg : g ∈ G) :
    Kept R n (G.erase g) h (deallocate R pending contended (entry g) h) := by
  have hkept := maybeDrain_kept hq pending contended
  obtain ⟨Q, hQ, hi⟩ := hkept.queued
  have hgQ : g ∈ G ++ Q := List.mem_append_left _ hg
  obtain ⟨hi', -, hframe⟩ := hi.deallocate (l := g.layout) hgQ
  rw [List.erase_append_left _ hg] at hi'
  have hin := hi.inRange_deallocate (l := g.layout) hgQ
  have hblocks := hkept.inRange.block_eq
  refine ⟨⟨Q, hQ, hi'⟩, ⟨hin.block_eq.trans hblocks, ?_⟩, ?_⟩
  · have hinFrame := hin.frame
    rw [hblocks] at hinFrame
    exact hinFrame.trans hkept.inRange.frame
  · rintro x ⟨g', hg', hx⟩
    have hmem := (List.Nodup.mem_erase_iff (List.Nodup.of_append_left hi.nodup)).mp hg'
    have hdisj := hi.disjoint (List.mem_append_left _ hmem.2) hgQ hmem.1
    exact (hframe x fun hxg => Set.disjoint_left.mp hdisj hx hxg).trans
      (hkept.frame ⟨g', hmem.2, hx⟩)

end SlabOwner

/-! ### The owner as a component -/

namespace OwnerView

open SlabOwner

def ownerHeap (h : Heap (OwnerView T β)) : Heap (SlabOwner T β) := h.map OwnerView.owner

/-- The heap after a call of the owner. -/
def after (h : Heap (OwnerView T β)) (t : Heap (SlabOwner T β)) : Heap (OwnerView T β) :=
  ⟨⟨t.alloc, fun k => h.alloc.sees (k + 1)⟩, t.mem⟩

def allocate (R : FixedRange β) (l : NonZeroLayout w) (h : Heap (OwnerView T β)) :
    Option Block × Heap (OwnerView T β) :=
  let (pending, contended) := h.alloc.sees 0
  let (r, t) := SlabOwner.allocate R pending contended l (ownerHeap h)
  (r, after h t)

def deallocate (R : FixedRange β) (ptr : Nat) (l : NonZeroLayout w) (h : Heap (OwnerView T β)) :
    Heap (OwnerView T β) :=
  let (pending, contended) := h.alloc.sees 0
  after h (SlabOwner.deallocate R pending contended ⟨ptr, l⟩ (ownerHeap h))

def allocator (R : FixedRange β) : Allocator w (OwnerView T β) where
  allocate := allocate R
  deallocate := deallocate R
  grow := defaultGrow (allocate R) (deallocate R)
  shrink := defaultShrink (allocate R) (deallocate R)
  usableSize := fun ptr l h => SlabOwner.usableSize ptr l (ownerHeap h)

def component (T : RustType w) (R : FixedRange β) (n : Nat) (c : Block) :
    Component w (OwnerView T β) where
  calls := allocator R
  range := some ((Slab.range T R).through (fun s => s.owner.slab)
    fun s t => { s with owner := { s.owner with slab := t } }, c)
  territory := c.bytes
  inv := fun h L => (∃ G, L = {g | g ∈ G} ∧ Queued R n (ownerHeap h) G) ∧
    (Slab.range T R).block h.alloc.owner.slab = c
  answer := fun g => some g.block.len
  roomy := fun l h => decide (l.size < h.alloc.owner.slab.blockStride)
  leaks := fun _ _ => false
  remoteFree := fun ptr l h =>
    match h.alloc.owner.tryDeallocate ⟨ptr, l⟩ with
    | (true, s) => some ⟨{ h.alloc with owner := s }, h.mem⟩
    | (false, _) => none

variable {h h' : Heap (OwnerView T β)} {t : Heap (SlabOwner T β)} {L : Set (Grant w)}
  {G : List (Grant w)} {g : Grant w} {l : NonZeroLayout w} {b : Block}

/-- The owner's range is as it was, and nothing outside has been written. -/
theorem inRange_after (hblock : (Slab.range T R).block h.alloc.owner.slab = c)
    (hin : InRange (Slab.range T R) (slabHeap (ownerHeap h)) (slabHeap t)) :
    (Slab.range T R).block (after h t).alloc.owner.slab = c ∧
      Set.EqOn (after h t).mem h.mem c.bytesᶜ := by
  have hframe := hin.frame
  rw [show (Slab.range T R).block (slabHeap (ownerHeap h)).alloc = c from hblock] at hframe
  exact ⟨hin.block_eq.trans hblock, hframe⟩

theorem allocate_eq (l : NonZeroLayout w) (h : Heap (OwnerView T β)) :
    allocate R l h =
      let r := SlabOwner.allocate R (h.alloc.sees 0).1 (h.alloc.sees 0).2 l (ownerHeap h)
      (r.1, after h r.2) := rfl

/-- A request of the owner, in terms of its drains and its slab. -/
theorem allocate_spec (hq : Queued R n (ownerHeap h) G)
    (hblock : (Slab.range T R).block h.alloc.owner.slab = c) (l : NonZeroLayout w) :
    (Slab.range T R).block (allocate R l h).2.alloc.owner.slab = c ∧
      Set.EqOn (allocate R l h).2.mem h.mem c.bytesᶜ ∧
      Set.EqOn (allocate R l h).2.mem h.mem (liveBytes {g | g ∈ G}) ∧
      match (allocate R l h).1 with
      | none => Queued R n (ownerHeap (allocate R l h).2) G
      | some b => Queued R n (ownerHeap (allocate R l h).2) (⟨b, l⟩ :: G) ∧
          ∀ g ∈ G, Disjoint b.bytes g.block.bytes := by
  obtain ⟨h₁, hkept, ⟨b, h₂, hslab, hcall⟩ | hcall⟩ :=
    allocate_cases hq (h.alloc.sees 0).1 (h.alloc.sees 0).2 l
  · rw [allocate_eq, hcall]
    obtain ⟨hq', hfresh, hmem, hin⟩ := allocateSlab_queued hkept.queued hslab
    have hinFrame := hin.frame
    rw [hkept.inRange.block_eq] at hinFrame
    have hboth : InRange (Slab.range T R) (slabHeap (ownerHeap h)) (slabHeap h₂) :=
      ⟨hin.block_eq.trans hkept.inRange.block_eq, hinFrame.trans hkept.inRange.frame⟩
    obtain ⟨hblock', hframe⟩ := inRange_after hblock hboth
    refine ⟨hblock', hframe, fun x hx => ?_, hq', hfresh⟩
    exact (congrFun hmem x).trans (hkept.frame hx)
  · rw [allocate_eq, hcall]
    obtain ⟨hblock', hframe⟩ := inRange_after hblock hkept.inRange
    exact ⟨hblock', hframe, hkept.frame, hkept.queued⟩

theorem remoteFree_queued (hq : Queued R n (ownerHeap h) G) (hg : g ∈ G)
    (hcall : (component T R n c).remoteFree g.block.ptr g.layout h = some h') :
    Queued R n (ownerHeap h') (G.erase g) ∧ h'.alloc.owner.slab = h.alloc.owner.slab ∧
      h'.mem = h.mem := by
  obtain ⟨Q, hQ, hi⟩ := hq
  simp only [component, tryDeallocate] at hcall
  split at hcall
  case h_2 => cases hcall
  case h_1 s hs =>
  split at hs
  · cases hs
  split at hs
  · cases hs
  cases hs
  cases hcall
  refine ⟨⟨Q ++ [g], ?_, hi.perm ?_⟩, rfl, rfl⟩
  · show h.alloc.owner.remoteQueue ++ _ = _
    rw [List.map_append, ← hQ]
    rfl
  · rw [← List.append_assoc]
    have hback : (G.erase g ++ Q ++ [g]).Perm (g :: G.erase g ++ Q) :=
      List.perm_append_singleton g _
    exact hback.trans ((List.perm_cons_erase hg).symm.append_right Q)

theorem core (T : RustType w) (R : FixedRange β) (n : Nat) (c : Block) :
    HonoursCore (component T R n c).calls (component T R n c).inv where
  satisfies := by
    rintro h L g ⟨⟨G, rfl, Q, -, hi⟩, -⟩ hg
    exact hi.satisfies (List.mem_append_left Q hg)
  disjoint := by
    rintro h L g g' ⟨⟨G, rfl, Q, -, hi⟩, -⟩ hg hg' hne
    exact hi.disjoint (List.mem_append_left Q hg) (List.mem_append_left Q hg') hne
  allocate_some := by
    rintro h L l b h' ⟨⟨G, rfl, hq⟩, hblock⟩ heq
    change allocate R l h = (some b, h') at heq
    have hspec := allocate_spec hq hblock l
    rw [heq] at hspec
    obtain ⟨hblock', -, hframe, hq', hfresh⟩ := hspec
    exact ⟨⟨⟨_, (List.setOfPred_mem_cons _ _).symm, hq'⟩, hblock'⟩, hfresh, hframe⟩
  allocate_none := by
    rintro h L l h' ⟨⟨G, rfl, hq⟩, hblock⟩ heq
    change allocate R l h = (none, h') at heq
    have hspec := allocate_spec hq hblock l
    rw [heq] at hspec
    obtain ⟨hblock', -, hframe, hq'⟩ := hspec
    exact ⟨⟨⟨G, rfl, hq'⟩, hblock'⟩, hframe⟩
  deallocate := by
    rintro h L g ⟨⟨G, rfl, hq⟩, hblock⟩ hg
    have hkept := deallocate_kept hq (h.alloc.sees 0).1 (h.alloc.sees 0).2 hg
    have hnodup : G.Nodup := by
      obtain ⟨Q, -, hi⟩ := hq
      exact List.Nodup.of_append_left hi.nodup
    rw [← set_erase hnodup]
    exact ⟨⟨⟨_, rfl, hkept.queued⟩, (inRange_after hblock hkept.inRange).1⟩, hkept.frame⟩
  write := by
    rintro h L m ⟨⟨G, rfl, Q, hQ, hi⟩, hblock⟩ hm
    refine ⟨⟨G, rfl, Q, hQ, hi.mem_congr (hm.mono ?_)⟩, hblock⟩
    rintro x ⟨-, hx⟩ ⟨g, hg, hxg⟩
    exact hx ⟨g, List.mem_append_left Q hg, hxg⟩

/-- **The owner is a lawful component**, whatever it sees of the remotes. -/
theorem lawful (T : RustType w) (R : FixedRange β) (n : Nat) (c : Block) :
    (component T R n c).Lawful where
  toHonoursCore := core T R n c
  subset := by
    rintro h L g ⟨⟨G, rfl, Q, -, hi⟩, rfl⟩ hg
    exact (hi.subset_region (List.mem_append_left Q hg)).trans (Slab.region_subset_range R _)
  allocate_frame := by
    rintro h L l ⟨⟨G, rfl, hq⟩, hblock⟩
    exact (allocate_spec hq hblock l).2.1
  deallocate_frame := by
    rintro h L g ⟨⟨G, rfl, hq⟩, hblock⟩ hg
    have hkept := deallocate_kept hq (h.alloc.sees 0).1 (h.alloc.sees 0).2 hg
    exact (inRange_after hblock hkept.inRange).2
  mem_congr := by
    rintro h L m ⟨⟨G, rfl, Q, hQ, hi⟩, rfl⟩ hm
    refine ⟨⟨G, rfl, Q, hQ, hi.mem_congr (hm.mono ?_)⟩, rfl⟩
    rintro x ⟨hx, hdead⟩
    refine ⟨Slab.region_subset_range R _ hx, ?_⟩
    rintro ⟨g, hg, hxg⟩
    exact hdead ⟨g, List.mem_append_left Q hg, hxg⟩
  range_spec := by
    rintro R' c' ⟨⟩
    refine ⟨rfl, ?_⟩
    rintro h L ⟨⟨G, rfl, Q, -, hi⟩, rfl⟩
    have hshape := hi.outstanding.shape
    exact ⟨rfl, Nat.add_pos_left hshape.base_pos _, Slab.region_inSpace hshape⟩
  answer_eq := by
    rintro h L g ⟨⟨G, rfl, Q, -, hi⟩, -⟩ hg
    exact congrArg some (hi.len_eq g (List.mem_append_left Q hg)).symm
  answer_le := by
    rintro h L g k ⟨⟨G, rfl, Q, -, hi⟩, -⟩ hg ⟨⟩
    exact ⟨(hi.satisfies (List.mem_append_left Q hg)).large, le_rfl⟩
  roomy_iff := by
    rintro h L l b h' ⟨⟨G, rfl, hq⟩, hblock⟩ heq
    change allocate R l h = (some b, h') at heq
    have hspec := allocate_spec hq hblock l
    rw [heq] at hspec
    obtain ⟨hblock', -, -, ⟨Q', -, hi'⟩, -⟩ := hspec
    obtain ⟨Q, -, hi⟩ := hq
    have hlen : b.len = h'.alloc.owner.slab.blockStride := hi'.len_eq ⟨b, l⟩ List.mem_cons_self
    rw [hlen, show h'.alloc.owner.slab.blockStride = _ from
      hi.stride_eq hi' (hblock'.trans hblock.symm)]
    exact decide_eq_true_iff
  leaks_iff := fun _ _ => Component.false_iff_lt_self rfl
  remote_free := by
    rintro h L g h' ⟨⟨G, rfl, hq⟩, hblock⟩ hg hcall
    obtain ⟨hq', hslab, hmem⟩ := remoteFree_queued hq hg hcall
    have hnodup : G.Nodup := by
      obtain ⟨Q, -, hi⟩ := hq
      exact List.Nodup.of_append_left hi.nodup
    exact ⟨⟨⟨_, (set_erase hnodup g).symm, hq'⟩, hslab ▸ hblock⟩, hmem⟩

/-- An owner whose slab stays where it is when the shared state goes into its `Arc`. -/
theorem component_fresh {A : Allocator w β} {Inv : Heap β → Set (Grant w) → Prop}
    {K : Set (Grant w)} (hA : HonoursRange A R Inv) {t : Heap β} (hinv : Inv t K)
    {policy : BatchPolicy} {queueCapacity : Nat} {owner : Heap (SlabOwner T β)}
    (hnew : withBatchPolicy A R T n policy queueCapacity t = some owner)
    (sees : Nat → Nat × Bool) :
    (component T R n ((Slab.range T R).block owner.alloc.slab)).inv
      ⟨⟨owner.alloc, sees⟩, owner.mem⟩ ∅ := by
  obtain ⟨slab, hslab, hsome⟩ := Option.bind_eq_some_iff.mp hnew
  cases hsome
  obtain ⟨G, hG, hi⟩ := Slab.holds_new hA hinv FreelistProtection.none_sound hslab
  exact ⟨⟨G, hG, [], rfl, (List.append_nil G).symm ▸ hi⟩, rfl⟩

end OwnerView

end ForgeAlloc
