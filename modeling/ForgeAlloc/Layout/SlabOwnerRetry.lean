import ForgeAlloc.Layout.SlabOwnerRun

set_option autoImplicit false

/-! # When `allocate` fails

`SlabOwner::allocate` looks at the queue before its first attempt, but may leave it alone: below
the threshold, or when the lock is contended. If the attempt fails, the queue is drained for
certain and the slab is asked again. While the drained entries are freed the remotes go on, so the
queue need not be empty when the second attempt fails.

At the moment the drain took the queue, however, every slot was live
(`slabOwner_allocate_failed`). From then to the second attempt, each entry freed takes one block
off the outstanding ones and no other step changes their number (`step_to_retry`); the attempt
fails only if as many blocks are outstanding as there are slots.
-/

namespace ForgeAlloc

open MachineInt ByteMemory SlotPool Linked

variable {w : Nat} {β ρ : Type} {T : RustType w} {R : FixedRange β} {n : Nat}

/-- The second attempt does not look at the mirror. -/
def OwnerPc.Forced : OwnerPc w → Prop
  | .load (.retry _) | .tryLock (.retry _) => False
  | _ => True

namespace OwnerRun

variable {s s' : OwnerRun T β} {policy : BatchPolicy} {qcap : Nat} {l : NonZeroLayout w}

theorem forced_start {c : OwnerCall w} (hstep : s.start c = some s') : s'.pc.Forced := by
  cases c with
  | retry l => cases hstep
  | deallocate e =>
      simp only [start] at hstep
      split at hstep
      · cases hstep
        trivial
      · cases hstep
  | _ =>
      cases hstep
      trivial

theorem forced_finish (c : OwnerCall w) : (s.finish R c).pc.Forced := by
  cases c with
  | allocate l | retry l =>
      simp only [finish]
      split
      · trivial
      · trivial
  | _ => trivial

theorem forced_step (op : OwnerStep w ρ) (hf : s.pc.Forced) (hstep : step R s op = some s') :
    s'.pc.Forced := by
  cases op with
  | call c =>
      simp only [step] at hstep
      split at hstep
      · exact forced_start hstep
      · cases hstep
  | load v =>
      simp only [step] at hstep
      split at hstep
      case h_2 => cases hstep
      case h_1 c hpc =>
          split at hstep
          case isFalse => cases hstep
          case isTrue =>
              rw [hpc] at hf
              cases hstep
              simp only
              split
              · trivial
              · cases c with
                | retry l => exact hf
                | _ => trivial
  | tryLock contended =>
      simp only [step] at hstep
      split at hstep
      case h_2 => cases hstep
      case h_1 =>
          split at hstep
          · cases hstep
            trivial
          · cases hstep
            trivial
  | lock =>
      simp only [step] at hstep
      split at hstep
      case h_1 =>
          cases hstep
          trivial
      case h_2 =>
          cases hstep
          trivial
      case h_3 => cases hstep
  | advance =>
      simp only [step] at hstep
      split at hstep
      case h_1 =>
          cases hstep
          trivial
      case h_2 c _ =>
          cases hstep
          exact forced_finish c
      case h_3 => cases hstep
  | tryDeallocate r e =>
      simp only [step] at hstep
      split at hstep
      case isFalse => cases hstep
      case isTrue =>
          split at hstep
          · cases hstep
            exact hf
          · cases hstep
            exact hf
  | write e i v =>
      simp only [step] at hstep
      split at hstep
      · cases hstep
        exact hf
      · cases hstep
  | writeOutside a v =>
      simp only [step] at hstep
      split at hstep
      · cases hstep
      · cases hstep
        exact hf

/-! ## The number of outstanding blocks -/

theorem length_outstanding : s.outstanding.length =
    s.live.length + s.pc.arg.length + s.heap.alloc.remoteQueue.length + s.pc.drained.length := by
  simp only [outstanding, held, List.length_append]

/-- A finished call frees no more entries. -/
theorem finish_pc_ne (c : OwnerCall w) (entries : List (RemoteEntry w)) (c' : OwnerCall w) :
    (s.finish R c).pc ≠ .free entries c' := by
  intro hpc
  cases c with
  | allocate l | retry l =>
      simp only [finish] at hpc
      split at hpc
      · cases hpc
      · cases hpc
  | _ => cases hpc

/-- A call that starts has nothing to free yet. -/
theorem start_pc_ne {c : OwnerCall w} (hstep : s.start c = some s')
    (entries : List (RemoteEntry w)) (c' : OwnerCall w) : s'.pc ≠ .free entries c' := by
  intro hpc
  cases c with
  | retry l => cases hstep
  | deallocate e =>
      simp only [start] at hstep
      split at hstep
      · cases hstep
        cases hpc
      · cases hstep
  | _ =>
      cases hstep
      cases hpc

/-- A remote free leaves the number of outstanding blocks as it is, accepted or not. -/
theorem length_tryDeallocate {r : ρ} {e : RemoteEntry w}
    (hstep : step R s (.tryDeallocate r e) = some s') :
    s'.pc = s.pc ∧ s'.outstanding.length = s.outstanding.length := by
  simp only [step, SlabOwner.tryDeallocate] at hstep
  split at hstep
  case isFalse => cases hstep
  case isTrue hlive =>
      have herase := List.length_erase_of_mem hlive
      have hpos := List.length_pos_of_mem hlive
      by_cases hclosed : s.heap.alloc.closed = true
      · rw [if_pos hclosed] at hstep
        cases hstep
        exact ⟨rfl, rfl⟩
      rw [if_neg hclosed] at hstep
      by_cases hfull : s.heap.alloc.queueCapacity ≤ s.heap.alloc.remoteQueue.length
      · rw [if_pos hfull] at hstep
        cases hstep
        exact ⟨rfl, rfl⟩
      rw [if_neg hfull] at hstep
      cases hstep
      refine ⟨rfl, ?_⟩
      simp only [length_outstanding, unlock, herase, List.length_append, List.length_singleton]
      omega

/-- **How a step leads to the second attempt or keeps the owner on its way there**: it is the drain
that precedes the attempt, or one entry fewer is to be freed for each block that came back. -/
theorem step_to_retry (op : OwnerStep w ρ) (hf : s.pc.Forced) (hstep : step R s op = some s')
    {entries' : List (RemoteEntry w)} (hpc' : s'.pc = .free entries' (.retry l)) :
    (op = .lock ∧ s.pc = .lock (.retry l)) ∨
      (op ≠ .lock ∧ ∃ entries, s.pc = .free entries (.retry l) ∧
        s'.outstanding.length + entries.length = s.outstanding.length + entries'.length) := by
  cases op with
  | call c =>
      simp only [step] at hstep
      split at hstep
      case h_2 => cases hstep
      case h_1 => exact absurd hpc' (start_pc_ne hstep _ _)
  | load v =>
      simp only [step] at hstep
      split at hstep
      case h_2 => cases hstep
      case h_1 c hpc =>
          split at hstep
          case isFalse => cases hstep
          case isTrue =>
              cases hstep
              simp only at hpc'
              split at hpc'
              · cases hpc'
                rw [hpc] at hf
                exact hf.elim
              · cases hpc'
  | tryLock contended =>
      simp only [step] at hstep
      split at hstep
      case h_2 => cases hstep
      case h_1 c hpc =>
          -- the owner only tries the lock in calls that are not the second attempt
          rw [hpc] at hf
          split at hstep
          · cases hstep
            cases hpc'
            exact hf.elim
          · cases hstep
            cases hpc'
            exact hf.elim
  | lock =>
      left
      simp only [step] at hstep
      split at hstep
      case h_1 =>
          cases hstep
          cases hpc'
      case h_2 c _ hpc =>
          cases hstep
          cases hpc'
          exact ⟨rfl, hpc⟩
      case h_3 => cases hstep
  | advance =>
      right
      refine ⟨(by rintro ⟨⟩), ?_⟩
      simp only [step] at hstep
      split at hstep
      case h_1 e _ c hpc =>
          cases hstep
          cases hpc'
          refine ⟨e :: entries', hpc, ?_⟩
          simp only [length_outstanding, hpc, OwnerPc.arg, OwnerPc.drained, List.length_cons,
            SlabOwner.freeEntry, SlabOwner.onSlab]
          omega
      case h_2 c _ =>
          cases hstep
          exact absurd hpc' (finish_pc_ne c _ _)
      case h_3 => cases hstep
  | tryDeallocate r e =>
      right
      obtain ⟨hpc, hlen⟩ := length_tryDeallocate hstep
      exact ⟨(by rintro ⟨⟩), entries', hpc ▸ hpc', by rw [hlen]⟩
  | write e i v =>
      right
      simp only [step] at hstep
      split at hstep
      case isTrue =>
          cases hstep
          exact ⟨(by rintro ⟨⟩), entries', hpc', rfl⟩
      case isFalse => cases hstep
  | writeOutside a v =>
      right
      simp only [step] at hstep
      split at hstep
      case isTrue => cases hstep
      case isFalse =>
          cases hstep
          exact ⟨(by rintro ⟨⟩), entries', hpc', rfl⟩

/-- The labels since the lock of the drain that precedes the second attempt. -/
def SinceDrain (R : FixedRange β) (s₀ : OwnerRun T β) (ops : List (OwnerStep w ρ))
    (s : OwnerRun T β) : Prop :=
  s.pc.Forced ∧ ∀ entries l, s.pc = .free entries (.retry l) →
    ∃ before after t t', ops = before ++ .lock :: after ∧
      Machine.run (step R) s₀ before = some t ∧ t.pc = .lock (.retry l) ∧
      step (ρ := ρ) R t .lock = some t' ∧ Machine.run (step R) t' after = some s ∧
      .lock ∉ after ∧
      s.outstanding.length + t'.pc.drained.length = t'.outstanding.length + entries.length

/-! ## The second attempt -/

theorem sinceDrain_run {s₀ : OwnerRun T β} (hidle : s₀.pc = .idle) {ops : List (OwnerStep w ρ)}
    (hrun : Machine.run (step R) s₀ ops = some s) : SinceDrain R s₀ ops s := by
  refine Machine.run_induction (P := SinceDrain R s₀) ⟨?_, ?_⟩ ?_ hrun
  · rw [hidle]
    trivial
  · intro entries l hpc
    rw [hidle] at hpc
    cases hpc
  rintro ops s op s' hrun ⟨hforced, hsince⟩ hstep
  refine ⟨forced_step op hforced hstep, fun entries' l hpc' => ?_⟩
  rcases step_to_retry op hforced hstep hpc' with ⟨rfl, hpc⟩ | ⟨hop, entries, hpc, hlen⟩
  · -- the drain itself
    refine ⟨ops, [], s, s', rfl, hrun, hpc, hstep, rfl, List.not_mem_nil, ?_⟩
    rw [hpc', OwnerPc.drained]
  · obtain ⟨before, after, t, t', rfl, hbefore, hlock, hdrain, hafter, hnot, hsum⟩ :=
      hsince entries l hpc
    refine ⟨before, after ++ [op], t, t', by simp, hbefore, hlock, hdrain,
      Machine.run_concat hafter hstep, ?_, by omega⟩
    rw [List.mem_append, List.mem_singleton, not_or]
    exact ⟨hnot, Ne.symm hop⟩

/-- With as many blocks outstanding as there are slots, every slot is outstanding. -/
theorem Inv.slotPtr_mem_of_full (hi : Inv R n policy qcap s) (hfull : s.outstanding.length = n)
    {i : Nat} (hlt : i < n) : s.heap.alloc.slab.slotPtr R i ∈ s.outstanding.map RemoteEntry.ptr := by
  obtain ⟨free, -, -, hfree, hlen⟩ := hi.blocks.freelist
  have hcarved : s.heap.alloc.slab.nextUncarved ≤ n := hi.blocks.carved_le
  rw [List.length_map, hfull] at hlen
  have hcarved' : (SlabOwner.slabHeap s.heap).alloc.nextUncarved = s.heap.alloc.slab.nextUncarved :=
    rfl
  have hnil : free = [] := List.length_eq_zero_iff.mp (by omega)
  by_contra hnot
  have hmem : i ∈ free := (hfree i).mpr ⟨by omega, hnot⟩
  rw [hnil] at hmem
  cases hmem

theorem Inv.length_outstanding_le (hi : Inv R n policy qcap s) : s.outstanding.length ≤ n := by
  obtain ⟨free, -, -, -, hlen⟩ := hi.blocks.freelist
  have hcarved := hi.blocks.carved_le
  rw [List.length_map] at hlen
  omega

/-- The attempt that ends the call without a block. -/
theorem allocateSlab_of_failed (hpc : s.pc = .free [] (.retry l))
    (hstep : step (ρ := ρ) R s .advance = some s') (hfailed : s'.live = s.live) :
    (SlabOwner.allocateSlab R l s.heap).1 = none := by
  simp only [step, hpc, finish] at hstep
  rcases hcall : SlabOwner.allocateSlab R l s.heap with ⟨_ | b, h⟩
  · rfl
  · rw [hcall] at hstep
    cases hstep
    have hlen := congrArg List.length hfailed
    simp at hlen

/-- **A queued free is never the reason that `allocate` fails.** Let the second attempt of a call
end without a block, for a layout that fits the slot. Then the last time the owner held the lock,
in the drain of this call, the queue was empty, no drained entry was left to be freed, and every
slot was live. -/
theorem slabOwner_allocate_failed {A : Allocator w β} {BInv : Heap β → Set (Grant w) → Prop}
    {L : Set (Grant w)} (hA : HonoursRange A R BInv) {g : Heap β} (hinv : BInv g L)
    {h : Heap (SlabOwner T β)}
    (hnew : SlabOwner.withBatchPolicy A R T n policy qcap g = some h) {b : β}
    (hb : SlabOwner.MayMoveTo w R h.alloc.slab.backing b) {ops : List (OwnerStep w ρ)}
    (hrun : Machine.run (step R) (init (SlabOwner.intoArc R b h)) ops = some s)
    (hpc : s.pc = .free [] (.retry l)) (hfits : s.heap.alloc.slab.FitsSlot l)
    (hstep : step (ρ := ρ) R s .advance = some s') (hfailed : s'.live = s.live) :
    ∃ before after t t', ops = before ++ .lock :: after ∧
      Machine.run (step R) (init (SlabOwner.intoArc R b h)) before = some t ∧
      t.pc = .lock (.retry l) ∧ step (ρ := ρ) R t .lock = some t' ∧
      Machine.run (step R) t' after = some s ∧ .lock ∉ after ∧
      t.heap.alloc.remoteQueue = [] ∧ t'.heap.alloc.remoteQueue = [] ∧ t'.pc.drained = [] ∧
      ∀ i < n, At R t' i .live ∧ ∀ place, At R t' i place → place = .live := by
  have hinit := inv_init hA hinv hnew hb
  obtain ⟨before, after, t, t', rfl, hbefore, hlock, hdrain, hafter, hnot, hsum⟩ :=
    (sinceDrain_run rfl hrun).2 [] l hpc
  have ht := inv_run hinit hbefore
  have ht' := inv_step .lock ht hdrain
  -- the second attempt finds as many blocks outstanding as there are slots
  have hfull : s.outstanding.length = n := by
    have hi := inv_run hinit hrun
    have hnone := allocateSlab_of_failed hpc hstep hfailed
    rcases hcall : SlabOwner.allocateSlab R l s.heap with ⟨r, h'⟩
    rw [hcall] at hnone
    simp only at hnone
    subst hnone
    have hlen := (SlabOwner.allocateSlab_none hi.blocks hcall).2 hfits
    rwa [List.length_map] at hlen
  have hle := ht'.length_outstanding_le
  rw [hfull, List.length_nil] at hsum
  have hdrained : t'.pc.drained = [] := List.length_eq_zero_iff.mp (by omega)
  obtain ⟨hqueue, hqueue'⟩ : t'.pc.drained = t.heap.alloc.remoteQueue ∧
      t'.heap.alloc.remoteQueue = [] := by
    simp only [step, hlock, snapshot, takeQueue_eq ht.len_eq] at hdrain
    cases hdrain
    exact ⟨rfl, rfl⟩
  refine ⟨before, after, t, t', rfl, hbefore, hlock, hdrain, hafter, hnot, hqueue ▸ hdrained,
    hqueue', hdrained, fun i hi => ?_⟩
  have hlive : At R t' i .live := by
    have hmem := ht'.slotPtr_mem_of_full (by omega) hi
    rw [mem_outstanding, hqueue', hdrained] at hmem
    simpa [At] using hmem
  exact ⟨hlive, fun place hplace => (ht'.existsUnique_place i).unique hplace hlive⟩

/-- Three blocks are issued from a slab of three slots, and a fourth is asked for; a remote frees
one of the three between the drain and the second attempt. -/
def lateFree : List (OwnerStep 16 Unit) :=
  [.call (.allocate SlabRun.layout8), .load 0, .advance,
    .call (.allocate SlabRun.layout8), .load 0, .advance,
    .call (.allocate SlabRun.layout8), .load 0, .advance,
    .call (.allocate SlabRun.layout8), .load 0, .advance, .lock,
    .tryDeallocate () ⟨88, SlabRun.layout8⟩]

/-- The attempt fails with a free in the queue, but at the drain there was none. -/
theorem slabOwner_allocate_failed_lateFree :
    ∃ s, Machine.run (step (BumpArena.range SlabRun.movable))
        (init (SlabOwner.intoArc (BumpArena.range SlabRun.movable) ⟨4, 64, 24⟩
          (owner3 (.fixed 1) 4))) lateFree = some s ∧
      s.heap.alloc.remoteQueue = [⟨88, SlabRun.layout8⟩] ∧
      ∃ before after t', lateFree = before ++ .lock :: after ∧
        Machine.run (step (BumpArena.range SlabRun.movable)) t' after = some s ∧
        t'.heap.alloc.remoteQueue = [] ∧
        ∀ i < 3, At (BumpArena.range SlabRun.movable) t' i .live := by
  have hresult : (Machine.run (step (BumpArena.range SlabRun.movable))
      (init (SlabOwner.intoArc (BumpArena.range SlabRun.movable) ⟨4, 64, 24⟩
        (owner3 (.fixed 1) 4))) lateFree).bind (fun s =>
          (step (ρ := Unit) (BumpArena.range SlabRun.movable) s .advance).map fun s' =>
            (s.pc, s.heap.alloc.remoteQueue, s.heap.alloc.slab.blockStride, s.live, s'.live)) =
      some (.free [] (.retry SlabRun.layout8), [⟨88, SlabRun.layout8⟩], 8,
        [⟨96, SlabRun.layout8⟩, ⟨80, SlabRun.layout8⟩],
        [⟨96, SlabRun.layout8⟩, ⟨80, SlabRun.layout8⟩]) := rfl
  obtain ⟨s, hrun, hrest⟩ := Option.bind_eq_some_iff.mp hresult
  obtain ⟨s', hstep, hs⟩ := Option.map_eq_some_iff.mp hrest
  simp only [Prod.mk.injEq] at hs
  obtain ⟨hpc, hqueue, hstride, hlive, hlive'⟩ := hs
  have hnew : SlabOwner.withBatchPolicy (BumpArena.allocator 16 SlabRun.movable)
      (BumpArena.range SlabRun.movable) SlabRun.word8 3 (.fixed 1) 4 ⟨⟨0, 64, 0⟩, fun _ => 0⟩ =
      some (owner3 (.fixed 1) 4) := rfl
  have hfits : s.heap.alloc.slab.FitsSlot SlabRun.layout8 := ⟨by decide, hstride ▸ by decide⟩
  obtain ⟨before, after, t, t', hops, -, -, -, hafter, -, -, hempty, -, hall⟩ :=
    slabOwner_allocate_failed (BumpArena.honours SlabRun.movable_lawful 16 (by decide))
      (BumpArena.holds_new (b := 0) rfl _) hnew mayMoveTo_80 hrun hpc hfits hstep
      (hlive'.trans hlive.symm)
  exact ⟨s, hrun, hqueue, before, after, t', hops, hafter, hempty, fun i hi => (hall i hi).1⟩

end OwnerRun

end ForgeAlloc
