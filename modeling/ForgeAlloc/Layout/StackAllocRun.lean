import ForgeAlloc.Layout.StackAlloc
import ForgeAlloc.Library.Run
import ForgeAlloc.Backing.Inline

set_option autoImplicit false

/-! # Runs of a `StackAlloc`

A run is any sequence of requests and frees; a free may name any address at all. Beside the value
it keeps the blocks that are live and the blocks that were freed but not given back, because they
were not on top (`refused`), both with the cursor from before their request.

`Inv` is the invariant: the value records the live and the refused blocks, and the live ones in
the order of the stack. A refused block stays in the way of everything below it, so the cursor
comes back to zero exactly when none is still recorded (`Inv.freeAll_live`).

The resizes of the trait ask for the new block first and free the old one after, which on a
stack is an order that cannot work (`resize_frees_iff`).
-/

namespace ForgeAlloc

open MachineInt ByteMemory RegionStack StackAlloc

/-! ## The run state -/

structure StackRun (w : Nat) (β : Type) where
  stack : StackAlloc β
  /-- The live blocks, the newest first. -/
  live : List (StackBlock w)
  refused : List (StackBlock w)

inductive StackOp (w : Nat)
  | allocate (l : NonZeroLayout w)
  | deallocate (ptr : Nat)

namespace StackRun

variable {w : Nat} {β : Type} {R : FixedRange β} {base : Nat}

def init (w : Nat) (a : StackAlloc β) : StackRun w β := ⟨a, [], []⟩

/-- One call. The pointer of a free is an address; the layout does not matter. -/
def step (R : FixedRange β) (s : StackRun w β) : StackOp w → Option (StackRun w β)
  | .allocate l =>
      match StackAlloc.allocate R l s.stack with
      | (none, a) => some { s with stack := a }
      | (some b, a) => some { s with stack := a, live := ⟨b, l, s.stack.cursor⟩ :: s.live }
  | .deallocate ptr =>
      if ptr < 2 ^ w then
        let kept := s.live.filter fun i => i.block.ptr ≠ ptr
        match StackAlloc.deallocate w R ptr s.stack with
        | (.popped, a) => some ⟨a, kept, s.refused.filter fun i => i.block.ptr ≠ ptr⟩
        | (_, a) => some ⟨a, kept, (s.live.filter fun i => i.block.ptr = ptr) ++ s.refused⟩
      else none

/-! ## The invariant -/

structure Inv (R : FixedRange β) (base capacity : Nat) (s : StackRun w β)
    (K : List (StackBlock w)) : Prop where
  holds : Holds R base s.stack K
  capacity_eq : s.stack.capacity = capacity
  perm : K.Perm (s.live ++ s.refused)
  sublist : s.live.Sublist K

variable {capacity : Nat} {s s' : StackRun w β} {K : List (StackBlock w)} {i : StackBlock w}
  {l : NonZeroLayout w} {ptr : Nat}

theorem Inv.step_allocate (hR : R.Lawful) (hinv : Inv R base capacity s K)
    (hstep : step R s (.allocate l) = some s') : ∃ K', Inv R base capacity s' K' := by
  simp only [step] at hstep
  split at hstep
  case h_1 a heq =>
      cases hstep
      obtain ⟨hholds, hcap⟩ := hinv.holds.allocate_none hR heq
      exact ⟨K, hholds, hcap.trans hinv.capacity_eq, hinv.perm, hinv.sublist⟩
  case h_2 b a heq =>
      cases hstep
      obtain ⟨hholds, hcap⟩ := hinv.holds.allocate_some hR heq
      exact ⟨_, hholds, hcap.trans hinv.capacity_eq, hinv.perm.cons _, hinv.sublist.cons_cons _⟩

/-- The address of the top block names no block below it. -/
theorem Inv.filter_tail (hinv : Inv R base capacity s (i :: K)) :
    (i :: K).filter (fun j => j.block.ptr ≠ i.block.ptr) = K := by
  have hnodup := hinv.holds.nodup_ptr
  rw [List.map_cons, List.nodup_cons] at hnodup
  have hkeep : ∀ j ∈ K, decide (j.block.ptr ≠ i.block.ptr) = true := by
    intro j hj
    have hne : j.block.ptr ≠ i.block.ptr := fun heq => hnodup.1 (heq ▸ List.mem_map_of_mem hj)
    simpa using hne
  rw [List.filter_cons_of_neg (by simp), List.filter_eq_self.mpr hkeep]

theorem capacity_deallocate (w : Nat) (R : FixedRange β) (ptr : Nat) (a : StackAlloc β) :
    (deallocate w R ptr a).2.capacity = a.capacity := by
  simp only [deallocate]
  split
  · rfl
  · split <;> rfl

theorem Inv.step_deallocate (hinv : Inv R base capacity s K)
    (hstep : step R s (.deallocate ptr) = some s') : ∃ K', Inv R base capacity s' K' := by
  simp only [step] at hstep
  split at hstep
  case isFalse => cases hstep
  case isTrue hlt =>
      have hcap := capacity_deallocate w R ptr s.stack
      rcases hinv.holds.deallocate_cases hlt with ⟨i, K', rfl, rfl, hout, -, hholds⟩ | ⟨hout, hsame⟩
      · -- the top block goes, and its address with it wherever it stood
        split at hstep
        case h_1 a heq =>
            rw [heq] at hholds hcap
            cases hstep
            have hperm := hinv.perm.filter fun j => j.block.ptr ≠ i.block.ptr
            have hsub := hinv.sublist.filter fun j => j.block.ptr ≠ i.block.ptr
            rw [hinv.filter_tail] at hperm hsub
            rw [List.filter_append] at hperm
            exact ⟨K', hholds, hcap.trans hinv.capacity_eq, hperm, hsub⟩
        case h_2 hne heq =>
            rw [heq] at hout
            exact absurd hout hne
      · -- nothing goes: a live block with this address is refused
        have hnew : s' = ⟨s.stack, s.live.filter fun i => i.block.ptr ≠ ptr,
            (s.live.filter fun i => i.block.ptr = ptr) ++ s.refused⟩ := by
          split at hstep
          case h_1 a heq => exact absurd (congrArg Prod.fst heq) hout
          case h_2 a _ heq =>
              rw [heq] at hsame
              cases hsame
              exact (Option.some.inj hstep).symm
        subst hnew
        refine ⟨K, hinv.holds, hinv.capacity_eq, ?_, List.filter_sublist.trans hinv.sublist⟩
        have hsplit := List.filter_append_perm (fun i : StackBlock w => i.block.ptr = ptr) s.live
        rw [← List.append_assoc]
        refine hinv.perm.trans (List.Perm.append_right _ ?_)
        refine hsplit.symm.trans (List.perm_append_comm.trans ?_)
        simp

/-! ## Whole runs -/

theorem Inv.init {b : β} {a : StackAlloc β} {maxDepth : Nat} {reserved : Bool}
    (hnew : withMaxDepth R b maxDepth reserved = some a) (hend : R.base b + R.size b ≤ 2 ^ w) :
    Inv R (R.base b) a.capacity (init w a) [] :=
  ⟨holds_new hnew hend, rfl, List.Perm.refl _, List.Sublist.refl _⟩

theorem run_inv (hR : R.Lawful) {es : List (StackOp w)} (hinv : ∃ K, Inv R base capacity s K)
    (hrun : Machine.run (step R) s es = some s') : ∃ K, Inv R base capacity s' K := by
  refine Machine.run_invariant (P := fun s => ∃ K, Inv R base capacity s K) ?_ hinv hrun
  rintro s e s' ⟨K, hK⟩ hstep
  cases e with
  | allocate l => exact hK.step_allocate hR hstep
  | deallocate ptr => exact hK.step_deallocate hstep

theorem Inv.mem_of_live (hinv : Inv R base capacity s K) (hi : i ∈ s.live) : i ∈ K :=
  hinv.perm.mem_iff.mpr (List.mem_append_left _ hi)

theorem Inv.mem_of_refused (hinv : Inv R base capacity s K) (hi : i ∈ s.refused) : i ∈ K :=
  hinv.perm.mem_iff.mpr (List.mem_append_right _ hi)

theorem Inv.nodup_ptr (hinv : Inv R base capacity s K) :
    ((s.live ++ s.refused).map fun i => i.block.ptr).Nodup :=
  (hinv.perm.map fun i => i.block.ptr).nodup_iff.mp hinv.holds.nodup_ptr

/-- With nothing refused the live blocks are the recorded ones, in the same order. -/
theorem Inv.live_eq (hinv : Inv R base capacity s K) (hrefused : s.refused = []) : s.live = K := by
  refine hinv.sublist.eq_of_length ?_
  have hlen := hinv.perm.length_eq
  rw [hrefused, List.append_nil] at hlen
  exact hlen.symm

/-- **Freeing the live blocks, the newest first,** brings the cursor back to zero exactly when no
refused block is recorded. -/
theorem Inv.freeAll_live (hinv : Inv R base capacity s K) :
    (freeAll w R (s.live.map fun i => i.block.ptr) s.stack).cursor = 0 ↔ s.refused = [] := by
  constructor
  · intro hzero
    by_contra hne
    obtain ⟨r, hr⟩ := List.exists_mem_of_ne_nil _ hne
    have hlt : ∀ p ∈ s.live.map fun i => i.block.ptr, p < 2 ^ w := by
      intro p hp
      obtain ⟨i, hi, rfl⟩ := List.mem_map.mp hp
      exact hinv.holds.ptr_lt (hinv.mem_of_live hi)
    have hother : ∀ p ∈ s.live.map fun i => i.block.ptr, p ≠ r.block.ptr := by
      intro p hp heq
      have hnodup := hinv.nodup_ptr
      rw [List.map_append] at hnodup
      exact (List.nodup_append.mp hnodup).2.2 p hp r.block.ptr (List.mem_map_of_mem hr) heq
    obtain ⟨K', hholds, hmem⟩ := hinv.holds.mem_freeAll (hinv.mem_of_refused hr) hlt hother
    have hpos := hholds.cursor_pos hmem
    omega
  · intro hnil
    have hlive := hinv.live_eq hnil
    have hholds : Holds R base s.stack (s.live ++ []) := by
      rw [List.append_nil, hlive]
      exact hinv.holds
    exact (hholds.freeAll_append.1).stacked

/-- The frames in the order of the stack. -/
theorem Inv.frames_pairwise (hinv : Inv R base capacity s K) :
    s.stack.frames.Pairwise fun above below => below.1 < above.1 := by
  rw [hinv.holds.frames_eq, List.pairwise_map]
  refine hinv.holds.pairwise.imp_of_mem fun _ hbelow hle => ?_
  have hbase := hinv.holds.base_le _ hbelow
  have hpos := hinv.holds.len_pos hbelow
  simp only [frame]
  omega

theorem Inv.pairwise_disjoint (hinv : Inv R base capacity s K) :
    (s.live ++ s.refused).Pairwise fun i j => Disjoint i.block.bytes j.block.bytes := by
  have hK : K.Pairwise fun i j => Disjoint i.block.bytes j.block.bytes :=
    hinv.holds.pairwise.imp fun hle => Block.disjoint_of_le (Or.inr hle)
  exact hinv.perm.pairwise hK fun hij => hij.symm

/-- The block on top of the frames is the one recorded last. -/
theorem Inv.top_iff (hinv : Inv R base capacity s K) (hi : i ∈ K) :
    s.stack.frames.head? = some (frame base i) ↔ ∃ K', K = i :: K' := by
  rw [hinv.holds.frames_eq]
  cases K with
  | nil => cases hi
  | cons j K =>
      constructor
      · intro hhead
        have hframe : frame base j = frame base i := Option.some.inj hhead
        exact ⟨K, by rw [hinv.holds.frame_injective List.mem_cons_self hi hframe]⟩
      · rintro ⟨K', heq⟩
        cases heq
        rfl

theorem Inv.deallocate_top (hinv : Inv R base capacity s K) (hi : i ∈ K)
    (htop : s.stack.frames.head? = some (frame base i)) :
    deallocate w R i.block.ptr s.stack =
      (.popped, { s.stack with cursor := i.before, frames := s.stack.frames.tail }) := by
  obtain ⟨K', rfl⟩ := (hinv.top_iff hi).mp htop
  exact hinv.holds.deallocate_top.1

theorem Inv.deallocate_not_top (hinv : Inv R base capacity s K) (hi : i ∈ K)
    (htop : s.stack.frames.head? ≠ some (frame base i)) :
    (deallocate w R i.block.ptr s.stack).1 ≠ .popped ∧
      (deallocate w R i.block.ptr s.stack).2 = s.stack := by
  refine hinv.holds.deallocate_refused (hinv.holds.ptr_lt hi) fun j hj heq => htop ?_
  rw [hinv.top_iff hi]
  cases K with
  | nil => cases hj
  | cons k K =>
      cases hj
      exact ⟨K, by rw [hinv.holds.eq_of_ptr List.mem_cons_self hi heq]⟩

/-- **Runs of a stack allocator.** The frames are those of the live and the refused blocks, which
are disjoint, aligned and inside the region. A free of a live block on top restores the cursor
from before its request, and of one that is not on top changes nothing; freeing all live blocks,
the newest first, ends at zero exactly when no refused block is still recorded; a failed request
leaves cursor and frames as they are. -/
theorem stackAlloc_run_correct (hR : R.Lawful) {b : β} {a : StackAlloc β} {maxDepth : Nat}
    {reserved : Bool} (hnew : withMaxDepth R b maxDepth reserved = some a)
    (hend : R.base b + R.size b ≤ 2 ^ w) {es : List (StackOp w)}
    (hrun : Machine.run (step R) (init w a) es = some s) :
    (s.stack.frames.Perm ((s.live ++ s.refused).map (frame (R.base b))) ∧
      s.stack.frames.Pairwise fun above below => below.1 < above.1) ∧
    ((s.live ++ s.refused).Pairwise fun i j => Disjoint i.block.bytes j.block.bytes) ∧
    (∀ i ∈ s.live ++ s.refused, i.layout.align ∣ i.block.ptr ∧ i.block.len = i.layout.size ∧
      R.base b ≤ i.block.ptr ∧ i.block.ptr + i.block.len ≤ R.base b + a.capacity) ∧
    (∀ i ∈ s.live, s.stack.frames.head? = some (frame (R.base b) i) →
      deallocate w R i.block.ptr s.stack =
        (.popped, { s.stack with cursor := i.before, frames := s.stack.frames.tail })) ∧
    (∀ i ∈ s.live, s.stack.frames.head? ≠ some (frame (R.base b) i) →
      (deallocate w R i.block.ptr s.stack).2 = s.stack) ∧
    ((freeAll w R (s.live.map fun i => i.block.ptr) s.stack).cursor = 0 ↔ s.refused = []) ∧
    ∀ (l : NonZeroLayout w) (a' : StackAlloc β), StackAlloc.allocate R l s.stack = (none, a') →
      a'.cursor = s.stack.cursor ∧ a'.frames = s.stack.frames := by
  obtain ⟨K, hinv⟩ := run_inv hR ⟨[], Inv.init hnew hend⟩ hrun
  have hmem : ∀ {i}, i ∈ s.live ++ s.refused → i ∈ K := fun hi => hinv.perm.mem_iff.mpr hi
  refine ⟨⟨?_, hinv.frames_pairwise⟩, hinv.pairwise_disjoint, fun i hi => ?_, fun i hi htop => ?_,
    fun i hi htop => ?_, hinv.freeAll_live, fun l a' hnone => ?_⟩
  · rw [hinv.holds.frames_eq]
    exact hinv.perm.map _
  · have hle := hinv.holds.le_cursor (hmem hi)
    have hcursor := hinv.holds.cursor_le
    have hcap := hinv.capacity_eq
    exact ⟨hinv.holds.aligned i (hmem hi), hinv.holds.len_eq i (hmem hi),
      hinv.holds.base_le i (hmem hi), by omega⟩
  · exact hinv.deallocate_top (hinv.mem_of_live hi) htop
  · exact (hinv.deallocate_not_top (hinv.mem_of_live hi) htop).2
  · obtain ⟨hcursor, hframes, -⟩ := StackAlloc.allocate_none hR hnone
    exact ⟨hcursor, hframes⟩

/-- A backing of 64 bytes. -/
def inline : InlineBacked 64 64 := .lit 64 64 64 (Eq.refl true)

def bytes8 : NonZeroLayout 64 := .lit 64 8 8 (Eq.refl true)

def bytes16 : NonZeroLayout 64 := .lit 64 16 8 (Eq.refl true)

abbrev inlineRange : FixedRange (InlineBacked 64 64) := InlineBacked.range 64 64

/-- Two blocks, and a free of the lower one. -/
def outOfOrder : List (StackOp 64) := [.allocate bytes8, .allocate bytes8, .deallocate 64]

/-- The free is refused, and the live block that is left keeps the cursor above zero. -/
theorem stackAlloc_run_correct_outOfOrder :
    ∃ s, Machine.run (step inlineRange) (init 64 ⟨inline, 64, 0, []⟩) outOfOrder = some s ∧
      s.stack.frames.Perm ((s.live ++ s.refused).map (frame 64)) ∧ s.refused ≠ [] := by
  have hnew : withMaxDepth inlineRange inline 0 false = some ⟨inline, 64, 0, []⟩ := rfl
  obtain ⟨s, hrun, hrefused⟩ : ∃ s,
      Machine.run (step inlineRange) (init 64 ⟨inline, 64, 0, []⟩) outOfOrder = some s ∧
        s.refused = [⟨⟨64, 8⟩, bytes8, 0⟩] := ⟨_, rfl, rfl⟩
  obtain ⟨⟨hperm, -⟩, -⟩ := stackAlloc_run_correct (InlineBacked.range_lawful 64 64) hnew
    (show 64 + 64 ≤ 2 ^ 64 by decide) hrun
  exact ⟨s, hrun, hperm, by simp [hrefused]⟩

/-- **A refused free keeps the cursor from coming back.** The lower of two blocks is freed first;
freeing the other one, which is all that is live, leaves the cursor at 8. -/
theorem freeAll_live_stuck :
    ∃ s, Machine.run (step inlineRange) (init 64 ⟨inline, 64, 0, []⟩) outOfOrder = some s ∧
      s.live.length = 1 ∧
      (freeAll 64 inlineRange (s.live.map fun i => i.block.ptr) s.stack).cursor = 8 :=
  ⟨_, rfl, rfl, rfl⟩

end StackRun

end ForgeAlloc
