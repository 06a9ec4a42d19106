import ForgeAlloc.Layout.SlabOwner
import ForgeAlloc.Layout.SlabRun
import ForgeAlloc.Library.Run

set_option autoImplicit false

/-! # One owner and any number of remotes

The machine interleaves the steps of the owner's calls with the calls of the remotes. A critical
section of the queue is one step, since all that it reads and writes is behind the mutex, the
mirror of the length apart: the owner loads the mirror without the lock, and the load may return
any value the mirror has had. Freeing one entry of a drained batch is one step of the owner, so a
remote may run between any two of them.

A block that a client holds is freed once: by the owner, or by one remote through whichever handle.
`accepted` and `returned` are the remote frees that were accepted and those that have reached the
freelist, in order.

`OwnerRun.Inv` carries `slabOwner_run_correct`: the outstanding blocks of the slab are the blocks
the clients hold, the entries of the queue and the entries drained but not yet freed.
-/

namespace ForgeAlloc

open MachineInt ByteMemory SlotPool Linked

/-- A call of the owner. `retry` is the second attempt inside `allocate`. -/
inductive OwnerCall (w : Nat)
  | allocate (l : NonZeroLayout w)
  | retry (l : NonZeroLayout w)
  | deallocate (e : RemoteEntry w)
  | drain
  | drop

/-- Where the owner is in its call. -/
inductive OwnerPc (w : Nat)
  | idle
  /-- Before the load of the mirror. -/
  | load (c : OwnerCall w)
  /-- The threshold is reached, the lock not yet tried. -/
  | tryLock (c : OwnerCall w)
  | lock (c : OwnerCall w)
  /-- Without the lock; these entries are still to be freed, then the slab does its part. -/
  | free (entries : List (RemoteEntry w)) (c : OwnerCall w)
  | gone

/-- The blocks of clients that a call is about to free. -/
def OwnerCall.arg {w : Nat} : OwnerCall w → List (RemoteEntry w)
  | .deallocate e => [e]
  | _ => []

def OwnerPc.arg {w : Nat} : OwnerPc w → List (RemoteEntry w)
  | .load c | .tryLock c | .lock c | .free _ c => c.arg
  | _ => []

/-- The entries drained but not yet freed. -/
def OwnerPc.drained {w : Nat} : OwnerPc w → List (RemoteEntry w)
  | .free entries _ => entries
  | _ => []

/-- The drop has closed the queue. -/
def OwnerPc.dropping {w : Nat} : OwnerPc w → Bool
  | .free _ .drop | .gone => true
  | _ => false

/-- A drop takes the lock without looking at the mirror. -/
def OwnerPc.Sane {w : Nat} : OwnerPc w → Prop
  | .load c | .tryLock c => c ≠ .drop
  | _ => True

structure OwnerRun {w : Nat} (T : RustType w) (β : Type) where
  heap : Heap (SlabOwner T β)
  pc : OwnerPc w
  /-- The blocks the clients hold. -/
  live : List (RemoteEntry w)
  /-- The values the mirror has had. -/
  mirrors : List Nat
  /-- The lengths the queue had when the lock was released. -/
  lengths : List Nat
  accepted : List (RemoteEntry w)
  returned : List (RemoteEntry w)

inductive OwnerStep (w : Nat) (ρ : Type)
  | call (c : OwnerCall w)
  | load (v : Nat)
  | tryLock (contended : Bool)
  | lock
  /-- The owner frees an entry or does its part of the call. -/
  | advance
  | tryDeallocate (r : ρ) (e : RemoteEntry w)
  | write (e : RemoteEntry w) (i : Nat) (v : UInt8)
  | writeOutside (a : Nat) (v : UInt8)

namespace OwnerRun

variable {w : Nat} {β ρ : Type} {T : RustType w} {R : FixedRange β} {n : Nat}

def init (h : Heap (SlabOwner T β)) : OwnerRun T β := ⟨h, .idle, [], [0], [0], [], []⟩

/-- The release of the lock. -/
def unlock (s : OwnerRun T β) : OwnerRun T β :=
  { s with
    mirrors := s.heap.alloc.remoteQueueLen :: s.mirrors
    lengths := s.heap.alloc.remoteQueue.length :: s.lengths }

/-- A critical section of the owner that takes the entries of the queue. -/
def snapshot (take : SlabOwner T β → List (RemoteEntry w) × SlabOwner T β) (c : OwnerCall w)
    (s : OwnerRun T β) : OwnerRun T β :=
  let (entries, o) := take s.heap.alloc
  unlock { s with heap := ⟨o, s.heap.mem⟩, pc := .free entries c }

/-- What a call does when nothing is left to be freed. -/
def finish (R : FixedRange β) (s : OwnerRun T β) : OwnerCall w → OwnerRun T β
  | .allocate l =>
      match SlabOwner.allocateSlab R l s.heap with
      | (some b, h) => { s with heap := h, pc := .idle, live := ⟨b.ptr, l⟩ :: s.live }
      | (none, h) => { s with heap := h, pc := .lock (.retry l) }
  | .retry l =>
      match SlabOwner.allocateSlab R l s.heap with
      | (some b, h) => { s with heap := h, pc := .idle, live := ⟨b.ptr, l⟩ :: s.live }
      | (none, h) => { s with heap := h, pc := .idle }
  | .deallocate e => { s with heap := SlabOwner.freeEntry R s.heap e, pc := .idle }
  | .drain => { s with pc := .idle }
  | .drop => { s with pc := .gone }

/-- The start of a call. -/
def start (s : OwnerRun T β) : OwnerCall w → Option (OwnerRun T β)
  | .allocate l => some { s with pc := .load (.allocate l) }
  | .retry _ => none
  | .deallocate e =>
      if e ∈ s.live then some { s with live := s.live.erase e, pc := .load (.deallocate e) }
      else none
  | .drain => some { s with pc := .lock .drain }
  | .drop => some { s with pc := .lock .drop }

def step (R : FixedRange β) (s : OwnerRun T β) : OwnerStep w ρ → Option (OwnerRun T β)
  | .call c =>
      match s.pc with
      | .idle => s.start c
      | _ => none
  | .load v =>
      match s.pc with
      | .load c =>
          if v ∈ s.mirrors then
            let (threshold, o) := s.heap.alloc.threshold v
            some { s with
              heap := ⟨o, s.heap.mem⟩
              pc := if v < threshold then .free [] c else .tryLock c }
          else none
      | _ => none
  | .tryLock contended =>
      match s.pc with
      | .tryLock c =>
          if contended = true then some { s with pc := .free [] c }
          else some (s.snapshot SlabOwner.takeQueue c)
      | _ => none
  | .lock =>
      match s.pc with
      | .lock .drop => some (s.snapshot SlabOwner.close .drop)
      | .lock c => some (s.snapshot SlabOwner.takeQueue c)
      | _ => none
  | .advance =>
      match s.pc with
      | .free (e :: rest) c =>
          some { s with
            heap := SlabOwner.freeEntry R s.heap e
            pc := .free rest c
            returned := s.returned ++ [e] }
      | .free [] c => some (s.finish R c)
      | _ => none
  | .tryDeallocate _ e =>
      if e ∈ s.live then
        match s.heap.alloc.tryDeallocate e with
        | (true, o) =>
            some (unlock { s with
              heap := ⟨o, s.heap.mem⟩
              live := s.live.erase e
              accepted := s.accepted ++ [e] })
        | (false, o) => some (unlock { s with heap := ⟨o, s.heap.mem⟩ })
      else none
  | .write e i v =>
      if e ∈ s.live ∧ i < s.heap.alloc.slab.blockStride then
        some { s with heap := ⟨s.heap.alloc, writeByte s.heap.mem (e.ptr + i) v⟩ }
      else none
  | .writeOutside a v =>
      let base := s.heap.alloc.slab.basePtr R
      if base ≤ a ∧ a < base + s.heap.alloc.slab.capacity * s.heap.alloc.slab.blockStride then none
      else some { s with heap := ⟨s.heap.alloc, writeByte s.heap.mem a v⟩ }

/-! ## The invariant -/

/-- The blocks that are live: held by a client, or in the hands of a `deallocate` of the owner. -/
def held (s : OwnerRun T β) : List (RemoteEntry w) := s.live ++ s.pc.arg

/-- Everything the slab has issued and not got back. -/
def outstanding (s : OwnerRun T β) : List (RemoteEntry w) :=
  s.held ++ s.heap.alloc.remoteQueue ++ s.pc.drained

structure Inv (R : FixedRange β) (n : Nat) (policy : BatchPolicy) (qcap : Nat)
    (s : OwnerRun T β) : Prop where
  blocks : Slab.Outstanding R (SlabOwner.slabHeap s.heap) n (s.outstanding.map RemoteEntry.ptr)
  accounts : s.accepted = s.returned ++ s.pc.drained ++ s.heap.alloc.remoteQueue
  len_eq : s.heap.alloc.remoteQueueLen = s.heap.alloc.remoteQueue.length
  len_le : s.heap.alloc.remoteQueue.length ≤ qcap
  policy_eq : s.heap.alloc.batchPolicy = policy
  capacity_eq : s.heap.alloc.queueCapacity = qcap
  mirror_mem : s.heap.alloc.remoteQueueLen ∈ s.mirrors
  mirrors_sub : ∀ v ∈ s.mirrors, v ∈ s.lengths
  closed_eq : s.heap.alloc.closed = s.pc.dropping
  closed_queue : s.heap.alloc.closed = true → s.heap.alloc.remoteQueue = []
  cooldown_le : s.heap.alloc.adaptive.cooldown ≤ adaptiveCooldownTicks
  sane : s.pc.Sane

variable {s s' : OwnerRun T β} {policy : BatchPolicy} {qcap : Nat}

theorem inv_init {A : Allocator w β} {BInv : Heap β → Set (Grant w) → Prop}
    {L : Set (Grant w)} (hA : HonoursRange A R BInv) {g : Heap β} (hinv : BInv g L)
    {h : Heap (SlabOwner T β)}
    (hnew : SlabOwner.withBatchPolicy A R T n policy qcap g = some h) {b : β}
    (hb : SlabOwner.MayMoveTo w R h.alloc.slab.backing b) :
    Inv R n policy qcap (init (SlabOwner.intoArc R b h)) := by
  simp only [SlabOwner.withBatchPolicy, Option.bind_eq_bind, Option.bind_eq_some_iff] at hnew
  obtain ⟨g', hslab, heq⟩ := hnew
  cases heq
  have hblocks := Slab.outstanding_new hA hinv FreelistProtection.none_sound hslab
  exact
    { blocks := hblocks.move hb.size_eq hb.base_pos hb.inSpace fun x hx => copyBytes_add hx
      accounts := rfl
      len_eq := rfl
      len_le := Nat.zero_le _
      policy_eq := rfl
      capacity_eq := rfl
      mirror_mem := List.mem_singleton_self 0
      mirrors_sub := fun _ hv => hv
      closed_eq := rfl
      closed_queue := fun _ => rfl
      cooldown_le := Nat.zero_le _
      sane := trivial }

/-! ## The critical sections -/

/-- With an exact mirror the test for the empty queue makes no difference. -/
theorem takeQueue_eq {o : SlabOwner T β} (hlen : o.remoteQueueLen = o.remoteQueue.length) :
    o.takeQueue = (o.remoteQueue, { o with remoteQueue := [], remoteQueueLen := 0 }) := by
  unfold SlabOwner.takeQueue
  split
  case isTrue hempty =>
      have hnil : o.remoteQueue = [] := List.isEmpty_iff.mp hempty
      have hzero : o.remoteQueueLen = 0 := by rw [hlen, hnil, List.length_nil]
      rw [← hnil, ← hzero]
  case isFalse => rfl

/-- A critical section of the owner moves the queue into the owner's hands. -/
theorem Inv.snapshot (hi : Inv R n policy qcap s) {c : OwnerCall w} {closed : Bool}
    (hpc : s.pc.arg = c.arg) (hdrained : s.pc.drained = [])
    (hclosed : closed = (OwnerPc.free s.heap.alloc.remoteQueue c).dropping) :
    Inv R n policy qcap (unlock { s with
      heap := ⟨{ s.heap.alloc with remoteQueue := [], remoteQueueLen := 0, closed := closed },
        s.heap.mem⟩
      pc := .free s.heap.alloc.remoteQueue c }) where
  blocks := by
    have hblocks := hi.blocks
    simp only [SlabOwner.slabHeap, outstanding, held, hpc, hdrained] at hblocks
    simpa [SlabOwner.slabHeap, outstanding, held, unlock, OwnerPc.arg, OwnerPc.drained] using hblocks
  accounts := by
    have haccounts := hi.accounts
    rw [hdrained] at haccounts
    simpa [unlock, OwnerPc.drained] using haccounts
  len_eq := rfl
  len_le := Nat.zero_le _
  policy_eq := hi.policy_eq
  capacity_eq := hi.capacity_eq
  mirror_mem := List.mem_cons_self
  mirrors_sub := by
    intro v hv
    rcases List.mem_cons.mp hv with rfl | hv
    · exact List.mem_cons_self
    · exact List.mem_cons_of_mem _ (hi.mirrors_sub v hv)
  closed_eq := hclosed
  closed_queue := fun _ => rfl
  cooldown_le := hi.cooldown_le
  sane := trivial

theorem Inv.takeQueue (hi : Inv R n policy qcap s) {c : OwnerCall w} (hpc : s.pc.arg = c.arg)
    (hdrained : s.pc.drained = []) (hc : c ≠ .drop) (hdropping : s.pc.dropping = false) :
    Inv R n policy qcap (s.snapshot SlabOwner.takeQueue c) := by
  have hclosed : s.heap.alloc.closed = (OwnerPc.free s.heap.alloc.remoteQueue c).dropping := by
    rw [hi.closed_eq, hdropping]
    cases c with
    | drop => exact absurd rfl hc
    | _ => rfl
  unfold OwnerRun.snapshot
  rw [takeQueue_eq hi.len_eq]
  exact hi.snapshot hpc hdrained hclosed

theorem Inv.close (hi : Inv R n policy qcap s) (hpc : s.pc.arg = []) (hdrained : s.pc.drained = []) :
    Inv R n policy qcap (s.snapshot SlabOwner.close .drop) :=
  hi.snapshot (c := .drop) hpc hdrained rfl

/-- A remote's critical section. An accepted entry goes from the clients to the queue. -/
theorem Inv.tryDeallocate (hi : Inv R n policy qcap s) {r : ρ} {e : RemoteEntry w}
    (hstep : step R s (.tryDeallocate r e) = some s') : Inv R n policy qcap s' := by
  simp only [step, SlabOwner.tryDeallocate] at hstep
  have hsame : Inv R n policy qcap (unlock s) :=
    { hi with
      mirror_mem := List.mem_cons_self
      mirrors_sub := by
        intro v hv
        rcases List.mem_cons.mp hv with rfl | hv
        · rw [hi.len_eq]
          exact List.mem_cons_self
        · exact List.mem_cons_of_mem _ (hi.mirrors_sub v hv) }
  split at hstep
  case isFalse => cases hstep
  case isTrue hlive =>
      by_cases hclosed : s.heap.alloc.closed = true
      · rw [if_pos hclosed] at hstep
        cases hstep
        exact hsame
      rw [if_neg hclosed] at hstep
      by_cases hfull : s.heap.alloc.queueCapacity ≤ s.heap.alloc.remoteQueue.length
      · rw [if_pos hfull] at hstep
        cases hstep
        exact hsame
      rw [if_neg hfull] at hstep
      cases hstep
      exact
        { blocks := by
            refine hi.blocks.perm (List.Perm.map _ (List.perm_iff_count.mpr fun x => ?_))
            have herase := (List.perm_cons_erase hlive).count_eq x
            simp only [List.count_cons] at herase
            simp only [outstanding, held, unlock, List.count_append, List.count_singleton]
            omega
          accounts := by
            have haccounts := hi.accounts
            simp only [unlock, haccounts, List.append_assoc]
          len_eq := rfl
          len_le := by
            have hcap := hi.capacity_eq
            simp only [unlock, List.length_append, List.length_singleton]
            omega
          policy_eq := hi.policy_eq
          capacity_eq := hi.capacity_eq
          mirror_mem := List.mem_cons_self
          mirrors_sub := by
            intro v hv
            rcases List.mem_cons.mp hv with rfl | hv
            · exact List.mem_cons_self
            · exact List.mem_cons_of_mem _ (hi.mirrors_sub v hv)
          closed_eq := hi.closed_eq
          closed_queue := fun hc => absurd hc hclosed
          cooldown_le := hi.cooldown_le
          sane := hi.sane }

/-! ## The steps without the lock -/

/-- The owner moves on in its code; the controller may have ticked. -/
theorem Inv.moveOn (hi : Inv R n policy qcap s) {pc : OwnerPc w} {st : AdaptiveState}
    (harg : pc.arg = s.pc.arg) (hdrained : pc.drained = s.pc.drained)
    (hdropping : pc.dropping = s.pc.dropping) (hsane : pc.Sane)
    (hcooldown : st.cooldown ≤ adaptiveCooldownTicks) :
    Inv R n policy qcap
      { s with heap := ⟨{ s.heap.alloc with adaptive := st }, s.heap.mem⟩, pc := pc } :=
  { hi with
    blocks := by
      have hblocks := hi.blocks
      simp only [outstanding, held] at hblocks ⊢
      rw [harg, hdrained]
      exact hblocks
    accounts := by
      rw [hdrained]
      exact hi.accounts
    closed_eq := hi.closed_eq.trans hdropping.symm
    cooldown_le := hcooldown
    sane := hsane }

theorem Inv.call (hi : Inv R n policy qcap s) {c : OwnerCall w}
    (hstep : step (ρ := ρ) R s (.call c) = some s') : Inv R n policy qcap s' := by
  simp only [step] at hstep
  split at hstep
  case h_2 => cases hstep
  case h_1 hpc =>
      have harg : s.pc.arg = [] := by rw [hpc]; rfl
      have hdrained : s.pc.drained = [] := by rw [hpc]; rfl
      have hdropping : s.pc.dropping = false := by rw [hpc]; rfl
      cases c with
      | allocate l =>
          cases hstep
          exact hi.moveOn harg.symm hdrained.symm hdropping.symm nofun hi.cooldown_le
      | retry l => cases hstep
      | deallocate e =>
          simp only [start] at hstep
          split at hstep
          case isFalse => cases hstep
          case isTrue hlive =>
              cases hstep
              have hblocks := hi.blocks
              have haccounts := hi.accounts
              simp only [outstanding, held, harg, hdrained] at hblocks
              rw [hdrained] at haccounts
              refine { hi with
                blocks := ?_, accounts := haccounts
                closed_eq := hi.closed_eq.trans hdropping, sane := nofun }
              refine hblocks.perm (List.Perm.map _ ?_)
              have herase : (s.live.erase e ++ [e]).Perm (s.live ++ []) := by
                rw [List.append_nil]
                exact (List.perm_append_singleton e _).trans (List.perm_cons_erase hlive).symm
              exact (herase.append_right _).append_right _
      | drain =>
          cases hstep
          exact hi.moveOn harg.symm hdrained.symm hdropping.symm trivial hi.cooldown_le
      | drop =>
          cases hstep
          exact hi.moveOn harg.symm hdrained.symm hdropping.symm trivial hi.cooldown_le

/-- A tick changes the state of the controller only. -/
theorem threshold_eq (v : Nat) (o : SlabOwner T β) :
    ∃ st : AdaptiveState, (o.threshold v).2 = { o with adaptive := st } ∧
      (o.adaptive.cooldown ≤ adaptiveCooldownTicks → st.cooldown ≤ adaptiveCooldownTicks) := by
  unfold SlabOwner.threshold
  split
  · exact ⟨o.adaptive, rfl, id⟩
  · refine ⟨_, rfl, fun hle => ?_⟩
    unfold AdaptiveState.tick
    split
    · exact (Nat.sub_le _ _).trans hle
    split
    · exact le_rfl
    split
    · exact le_rfl
    · exact hle

theorem dropping_free {c : OwnerCall w} (hc : c ≠ .drop) (entries : List (RemoteEntry w)) :
    (OwnerPc.free entries c).dropping = false := by
  cases c with
  | drop => exact absurd rfl hc
  | _ => rfl

theorem Inv.load (hi : Inv R n policy qcap s) {v : Nat}
    (hstep : step (ρ := ρ) R s (.load v) = some s') : Inv R n policy qcap s' := by
  simp only [step] at hstep
  split at hstep
  case h_2 => cases hstep
  case h_1 c hpc =>
      obtain ⟨st, hst, hcooldown⟩ := threshold_eq v s.heap.alloc
      have hc : c ≠ .drop := by
        have hsane := hi.sane
        rwa [hpc] at hsane
      split at hstep
      case isFalse => cases hstep
      case isTrue hv =>
          simp only [hst, Option.some.injEq] at hstep
          subst hstep
          by_cases hlt : v < (s.heap.alloc.threshold v).1
          · rw [if_pos hlt]
            exact hi.moveOn (by rw [hpc]; rfl) (by rw [hpc]; rfl)
              (by rw [hpc, dropping_free hc]; rfl) trivial (hcooldown hi.cooldown_le)
          · rw [if_neg hlt]
            exact hi.moveOn (by rw [hpc]; rfl) (by rw [hpc]; rfl) (by rw [hpc]; rfl) hc
              (hcooldown hi.cooldown_le)

theorem Inv.tryLock (hi : Inv R n policy qcap s) {contended : Bool}
    (hstep : step (ρ := ρ) R s (.tryLock contended) = some s') : Inv R n policy qcap s' := by
  simp only [step] at hstep
  split at hstep
  case h_2 => cases hstep
  case h_1 c hpc =>
      have hc : c ≠ .drop := by
        have hsane := hi.sane
        rwa [hpc] at hsane
      split at hstep
      case isTrue =>
          cases hstep
          exact hi.moveOn (by rw [hpc]; rfl) (by rw [hpc]; rfl)
            (by rw [hpc, dropping_free hc]; rfl) trivial hi.cooldown_le
      case isFalse =>
          cases hstep
          exact hi.takeQueue (by rw [hpc]; rfl) (by rw [hpc]; rfl) hc (by rw [hpc]; rfl)

theorem Inv.lock (hi : Inv R n policy qcap s)
    (hstep : step (ρ := ρ) R s .lock = some s') : Inv R n policy qcap s' := by
  simp only [step] at hstep
  split at hstep
  case h_1 hpc =>
      cases hstep
      exact hi.close (by rw [hpc]; rfl) (by rw [hpc]; rfl)
  case h_2 c hc hpc =>
      cases hstep
      exact hi.takeQueue (by rw [hpc]; rfl) (by rw [hpc]; rfl) hc (by rw [hpc]; rfl)
  case h_3 => cases hstep

theorem Inv.free (hi : Inv R n policy qcap s) {e : RemoteEntry w} {rest : List (RemoteEntry w)}
    {c : OwnerCall w} (hpc : s.pc = .free (e :: rest) c) :
    Inv R n policy qcap { s with
      heap := SlabOwner.freeEntry R s.heap e
      pc := .free rest c
      returned := s.returned ++ [e] } := by
  have hclosed := hi.closed_eq
  have hblocks := hi.blocks
  have haccounts := hi.accounts
  simp only [outstanding, held, hpc, OwnerPc.arg, OwnerPc.drained] at hblocks
  rw [hpc] at hclosed haccounts
  refine { hi with
    blocks := SlabOwner.freeEntry_blocks (hblocks.perm ?_), accounts := ?_, closed_eq := ?_
    sane := trivial }
  · show List.Perm (List.map RemoteEntry.ptr (e :: (s.live ++ c.arg ++ s.heap.alloc.remoteQueue
      ++ rest))) _
    exact List.Perm.map _ List.perm_middle.symm
  · rw [haccounts]
    simp [OwnerPc.drained, SlabOwner.freeEntry, SlabOwner.onSlab]
  · show s.heap.alloc.closed = _
    rw [hclosed]
    cases c with
    | _ => rfl

/-- The slab's part of an `allocate`, whether it succeeds or not. -/
theorem Inv.allocateSlab (hi : Inv R n policy qcap s) {l : NonZeroLayout w} {pc : OwnerPc w}
    (harg : s.pc.arg = []) (hdrained : s.pc.drained = []) (hopen : s.pc.dropping = false)
    (hpc : pc.arg = [] ∧ pc.drained = [] ∧ pc.dropping = false ∧ pc.Sane) :
    Inv R n policy qcap (match SlabOwner.allocateSlab R l s.heap with
      | (some b, h) => { s with heap := h, pc := .idle, live := ⟨b.ptr, l⟩ :: s.live }
      | (none, h) => { s with heap := h, pc := pc }) := by
  obtain ⟨hpcarg, hpcdrained, hpcopen, hpcsane⟩ := hpc
  have hclosed := hi.closed_eq.trans hopen
  have hblocks := hi.blocks
  have haccounts := hi.accounts
  simp only [outstanding, held, harg, hdrained, List.append_nil] at hblocks
  rw [hdrained] at haccounts
  rcases hcall : SlabOwner.allocateSlab R l s.heap with ⟨_ | b, h⟩
  · obtain ⟨rfl, -⟩ := SlabOwner.allocateSlab_none hblocks hcall
    refine { hi with
      blocks := ?_, accounts := ?_, closed_eq := hclosed.trans hpcopen.symm, sane := hpcsane }
    · simpa only [outstanding, held, hpcarg, hpcdrained, List.append_nil] using hblocks
    · simpa only [hpcdrained] using haccounts
  · obtain ⟨-, hnew, slab, rfl⟩ := SlabOwner.allocateSlab_some hblocks hcall
    refine { hi with
      blocks := hnew.perm ?_, accounts := haccounts, closed_eq := hclosed, sane := trivial }
    simp [outstanding, held, OwnerPc.arg, OwnerPc.drained]

theorem Inv.advance (hi : Inv R n policy qcap s)
    (hstep : step (ρ := ρ) R s .advance = some s') : Inv R n policy qcap s' := by
  simp only [step] at hstep
  split at hstep
  case h_1 hpc =>
      cases hstep
      exact hi.free hpc
  case h_2 c hpc =>
      have harg : s.pc.arg = c.arg := by rw [hpc]; rfl
      have hdrained : s.pc.drained = [] := by rw [hpc]; rfl
      cases c with
      | allocate l =>
          cases hstep
          exact hi.allocateSlab harg hdrained (by rw [hpc]; rfl) ⟨rfl, rfl, rfl, trivial⟩
      | retry l =>
          cases hstep
          exact hi.allocateSlab harg hdrained (by rw [hpc]; rfl) ⟨rfl, rfl, rfl, trivial⟩
      | deallocate e =>
          cases hstep
          have hblocks := hi.blocks
          have haccounts := hi.accounts
          have hclosed := hi.closed_eq
          simp only [outstanding, held, harg, hdrained, List.append_nil] at hblocks
          rw [hdrained] at haccounts
          rw [hpc] at hclosed
          refine { hi with
            blocks := SlabOwner.freeEntry_blocks (hblocks.perm ?_), accounts := haccounts
            closed_eq := hclosed, sane := trivial }
          show List.Perm (List.map RemoteEntry.ptr (e :: (s.live ++ [] ++ s.heap.alloc.remoteQueue
            ++ []))) (List.map RemoteEntry.ptr (s.live ++ [e] ++ s.heap.alloc.remoteQueue))
          refine List.Perm.map _ ?_
          simpa using List.perm_middle.symm
      | drain =>
          cases hstep
          exact hi.moveOn harg.symm hdrained.symm (by rw [hpc]; rfl) trivial hi.cooldown_le
      | drop =>
          cases hstep
          exact hi.moveOn harg.symm hdrained.symm (by rw [hpc]; rfl) trivial hi.cooldown_le
  case h_3 => cases hstep

theorem Inv.write (hi : Inv R n policy qcap s) {e : RemoteEntry w} {i : Nat} {v : UInt8}
    (hstep : step (ρ := ρ) R s (.write e i v) = some s') : Inv R n policy qcap s' := by
  simp only [step] at hstep
  split at hstep
  case isFalse => cases hstep
  case isTrue hguard =>
      obtain ⟨he, hlt⟩ := hguard
      cases hstep
      have hmem : e.ptr ∈ s.outstanding.map RemoteEntry.ptr := by
        apply List.mem_map_of_mem
        simp only [outstanding, held, List.mem_append]
        tauto
      have hbyte : e.ptr + i ∈ (⟨e.ptr, s.heap.alloc.slab.blockStride⟩ : Block).bytes := by
        rw [Block.mem_bytes]
        simp only
        omega
      exact { hi with blocks := hi.blocks.writeByte hmem hbyte v }

theorem Inv.writeOutside (hi : Inv R n policy qcap s) {a : Nat} {v : UInt8}
    (hstep : step (ρ := ρ) R s (.writeOutside a v) = some s') : Inv R n policy qcap s' := by
  simp only [step] at hstep
  split at hstep
  case isTrue => cases hstep
  case isFalse hout =>
      cases hstep
      have hcap : s.heap.alloc.slab.capacity = n := hi.blocks.capacity_eq
      rw [hcap] at hout
      exact { hi with blocks := hi.blocks.writeOutside hout v }

theorem inv_step (op : OwnerStep w ρ) (hi : Inv R n policy qcap s)
    (hstep : step R s op = some s') : Inv R n policy qcap s' := by
  cases op with
  | call c => exact hi.call hstep
  | load v => exact hi.load hstep
  | tryLock contended => exact hi.tryLock hstep
  | lock => exact hi.lock hstep
  | advance => exact hi.advance hstep
  | tryDeallocate r e => exact hi.tryDeallocate hstep
  | write e i v => exact hi.write hstep
  | writeOutside a v => exact hi.writeOutside hstep

theorem inv_run {ops : List (OwnerStep w ρ)} (hi : Inv R n policy qcap s)
    (hrun : Machine.run (step R) s ops = some s') : Inv R n policy qcap s' :=
  Machine.run_invariant (P := Inv R n policy qcap) (fun _ op _ hi hstep => inv_step op hi hstep) hi
    hrun

/-! ## Where the slots are -/

inductive Place
  | live
  | queued
  | drained
  | free
  | uncarved

/-- Five conditions of which exactly one holds. -/
theorem existsUnique_place_of {P : Place → Prop} {carved : Prop}
    (hcarved : P .live ∨ P .queued ∨ P .drained → carved)
    (hfree : P .free ↔ carved ∧ ¬ (P .live ∨ P .queued ∨ P .drained))
    (huncarved : P .uncarved ↔ ¬ carved) (hlq : ¬ (P .live ∧ P .queued))
    (hld : ¬ (P .live ∧ P .drained)) (hqd : ¬ (P .queued ∧ P .drained)) :
    ∃! place, P place := by
  by_cases hc : carved
  · by_cases hl : P .live
    · refine ⟨.live, hl, fun place hplace => ?_⟩
      cases place <;> simp_all
    by_cases hq : P .queued
    · refine ⟨.queued, hq, fun place hplace => ?_⟩
      cases place <;> simp_all
    by_cases hd : P .drained
    · refine ⟨.drained, hd, fun place hplace => ?_⟩
      cases place <;> simp_all
    · refine ⟨.free, hfree.mpr ⟨hc, by tauto⟩, fun place hplace => ?_⟩
      cases place <;> simp_all
  · refine ⟨.uncarved, huncarved.mpr hc, fun place hplace => ?_⟩
    cases place <;> simp_all

/-- The slot `i` is in the place, according to the lists of the run and the freelist in memory. -/
def At (R : FixedRange β) (s : OwnerRun T β) (i : Nat) : Place → Prop
  | .live => s.heap.alloc.slab.slotPtr R i ∈ s.held.map RemoteEntry.ptr
  | .queued => s.heap.alloc.slab.slotPtr R i ∈ s.heap.alloc.remoteQueue.map RemoteEntry.ptr
  | .drained => s.heap.alloc.slab.slotPtr R i ∈ s.pc.drained.map RemoteEntry.ptr
  | .free => ∃ free : List Nat, Chain (Slab.linkOf R (SlabOwner.slabHeap s.heap))
      (ofLink s.heap.alloc.slab.freeHead) free ∧ i ∈ free
  | .uncarved => s.heap.alloc.slab.nextUncarved ≤ i

theorem mem_outstanding {q : Nat} :
    q ∈ s.outstanding.map RemoteEntry.ptr ↔ q ∈ s.held.map RemoteEntry.ptr ∨
      q ∈ s.heap.alloc.remoteQueue.map RemoteEntry.ptr ∨
      q ∈ s.pc.drained.map RemoteEntry.ptr := by
  simp only [outstanding, List.map_append, List.mem_append, or_assoc]

/-- No address is in two of the three lists. -/
theorem Inv.places_disjoint (hi : Inv R n policy qcap s) (q : Nat) :
    ¬ (q ∈ s.held.map RemoteEntry.ptr ∧ q ∈ s.heap.alloc.remoteQueue.map RemoteEntry.ptr) ∧
      ¬ (q ∈ s.held.map RemoteEntry.ptr ∧ q ∈ s.pc.drained.map RemoteEntry.ptr) ∧
      ¬ (q ∈ s.heap.alloc.remoteQueue.map RemoteEntry.ptr ∧
        q ∈ s.pc.drained.map RemoteEntry.ptr) := by
  have hnodup := hi.blocks.nodup
  simp only [outstanding, List.map_append] at hnodup
  obtain ⟨hleft, -, hright⟩ := List.nodup_append.mp hnodup
  obtain ⟨-, -, hmid⟩ := List.nodup_append.mp hleft
  refine ⟨?_, ?_, ?_⟩
  · rintro ⟨hheld, hqueue⟩
    exact hmid q hheld q hqueue rfl
  · rintro ⟨hheld, hdrained⟩
    exact hright q (List.mem_append_left _ hheld) q hdrained rfl
  · rintro ⟨hqueue, hdrained⟩
    exact hright q (List.mem_append_right _ hqueue) q hdrained rfl

/-- The free slots are the carved ones that are not outstanding. -/
theorem Inv.at_free_iff (hi : Inv R n policy qcap s) {i : Nat} :
    At R s i .free ↔ i < s.heap.alloc.slab.nextUncarved ∧
      s.heap.alloc.slab.slotPtr R i ∉ s.outstanding.map RemoteEntry.ptr := by
  obtain ⟨free, hchain, -, hfree, -⟩ := hi.blocks.freelist
  refine Iff.trans ?_ (hfree i)
  constructor
  · rintro ⟨free', hchain', hmem⟩
    exact hchain'.unique hchain ▸ hmem
  · intro hmem
    exact ⟨free, hchain, hmem⟩

/-- Every slot is in exactly one place. -/
theorem Inv.existsUnique_place (hi : Inv R n policy qcap s) (i : Nat) :
    ∃! place, At R s i place := by
  have hcarved : s.heap.alloc.slab.slotPtr R i ∈ s.outstanding.map RemoteEntry.ptr →
      i < s.heap.alloc.slab.nextUncarved := by
    intro hq
    obtain ⟨j, hj, heq⟩ := hi.blocks.exists_slot hq
    exact Slab.slotPtr_injective hi.blocks.shape heq ▸ hj
  have hfree := hi.at_free_iff (i := i)
  have huncarved : At R s i .uncarved ↔ ¬ i < s.heap.alloc.slab.nextUncarved := Nat.not_lt.symm
  rw [mem_outstanding] at hcarved hfree
  obtain ⟨hlq, hld, hqd⟩ := hi.places_disjoint (s.heap.alloc.slab.slotPtr R i)
  exact existsUnique_place_of hcarved hfree huncarved hlq hld hqd

/-- **One owner and any number of remotes.** In every state of every interleaving:

* each slot is live, queued, drained, free or uncarved, and in one of these places only; an address
  is in the lists of outstanding blocks at most once, and each of them is a slot;
* the accepted remote frees are, in order, those that have reached the freelist, those drained and
  those queued; the free of a drained entry puts its slot, which is not free, on top of the list;
* a block the slab issues overlaps no block that is live, queued or drained;
* once the queue is closed it is empty and accepts nothing, and once the owner is gone it is closed
  and every accepted free has reached the freelist. -/
theorem slabOwner_run_correct {A : Allocator w β} {BInv : Heap β → Set (Grant w) → Prop}
    {L : Set (Grant w)} (hA : HonoursRange A R BInv) {g : Heap β} (hinv : BInv g L)
    {h : Heap (SlabOwner T β)}
    (hnew : SlabOwner.withBatchPolicy A R T n policy qcap g = some h) {b : β}
    (hb : SlabOwner.MayMoveTo w R h.alloc.slab.backing b) {ops : List (OwnerStep w ρ)}
    (hrun : Machine.run (step R) (init (SlabOwner.intoArc R b h)) ops = some s) :
    let slab := s.heap.alloc.slab
    let queue := s.heap.alloc.remoteQueue
    (∀ i, ∃! place, At R s i place) ∧ (s.outstanding.map RemoteEntry.ptr).Nodup ∧
      (∀ e ∈ s.outstanding, ∃ i < n, e.ptr = slab.slotPtr R i) ∧
      s.accepted = s.returned ++ s.pc.drained ++ queue ∧
      (∀ e rest c, s.pc = .free (e :: rest) c →
        ∃ i < n, e.ptr = slab.slotPtr R i ∧ ¬ At R s i .free ∧
          (SlabOwner.freeEntry R s.heap e).alloc.slab.freeHead = i + 1) ∧
      (∀ l b h', SlabOwner.allocateSlab R l s.heap = (some b, h') →
        ∀ e ∈ s.outstanding, Disjoint b.bytes (⟨e.ptr, slab.blockStride⟩ : Block).bytes) ∧
      (s.heap.alloc.closed = true → queue = [] ∧
        ∀ e, (s.heap.alloc.tryDeallocate e).1 = false) ∧
      (s.pc = .gone → s.heap.alloc.closed = true ∧ s.accepted = s.returned) := by
  intro slab queue
  have hi := inv_run (inv_init hA hinv hnew hb) hrun
  have hslot : ∀ e ∈ s.outstanding, ∃ i < n, e.ptr = slab.slotPtr R i := by
    intro e he
    obtain ⟨i, hlt, heq⟩ := hi.blocks.exists_slot (List.mem_map_of_mem he)
    exact ⟨i, hlt.trans_le hi.blocks.carved_le, heq⟩
  refine ⟨hi.existsUnique_place, hi.blocks.nodup, hslot, hi.accounts, ?_, ?_, ?_, ?_⟩
  · intro e rest c hpc
    have he : e ∈ s.outstanding := by
      simp only [outstanding, hpc, OwnerPc.drained, List.mem_append, List.mem_cons]
      tauto
    obtain ⟨i, hlt, heq⟩ := hslot e he
    refine ⟨i, hlt, heq, ?_, ?_⟩
    · rw [hi.at_free_iff]
      rintro ⟨-, hnot⟩
      exact hnot (heq ▸ List.mem_map_of_mem he)
    · have hperm : List.Perm (e.ptr :: (s.outstanding.erase e).map RemoteEntry.ptr)
          (s.outstanding.map RemoteEntry.ptr) := (List.perm_cons_erase he).symm.map _
      exact (Slab.Outstanding.deallocate (l := e.layout) (hi.blocks.perm hperm)).2.2.2 i heq
  · intro l b' h' hcall e he
    obtain ⟨hslab, -, -⟩ := SlabOwner.allocateSlab_some hi.blocks hcall
    exact hi.blocks.allocate_disjoint hslab (List.mem_map_of_mem he)
  · intro hclosed
    refine ⟨hi.closed_queue hclosed, fun e => ?_⟩
    simp only [SlabOwner.tryDeallocate, if_pos hclosed]
  · intro hpc
    have hclosed : s.heap.alloc.closed = true := by
      rw [hi.closed_eq, hpc]
      rfl
    refine ⟨hclosed, ?_⟩
    have haccounts := hi.accounts
    rw [hi.closed_queue hclosed, hpc] at haccounts
    simpa [OwnerPc.drained] using haccounts

/-- Two blocks are freed by two remotes, drained by the next `allocate` and one is issued again;
then the owner is dropped. -/
def twoRemotes : List (OwnerStep 16 Bool) :=
  [.call (.allocate SlabRun.layout8), .load 0, .advance,
    .call (.allocate SlabRun.layout8), .load 0, .advance,
    .tryDeallocate false ⟨80, SlabRun.layout8⟩, .tryDeallocate true ⟨88, SlabRun.layout8⟩,
    .call (.allocate SlabRun.layout8), .load 2, .tryLock false, .advance, .advance, .advance,
    .call .drop, .lock, .advance]

/-- An owner of three slots that drains at every entry. -/
def owner3 (policy : BatchPolicy) (qcap : Nat) : Heap (SlabOwner SlabRun.word8 (BumpArena Nat)) :=
  ⟨⟨⟨SlabRun.slab8.alloc, qcap, [], 0, false⟩, policy, .initial⟩, SlabRun.slab8.mem⟩

theorem mayMoveTo_80 : SlabOwner.MayMoveTo 16 (BumpArena.range SlabRun.movable)
    SlabRun.slab8.alloc.backing ⟨4, 64, 24⟩ :=
  ⟨rfl, by decide, by decide⟩

theorem slabOwner_run_correct_twoRemotes :
    ∃ s, Machine.run (step (BumpArena.range SlabRun.movable))
        (init (SlabOwner.intoArc (BumpArena.range SlabRun.movable) ⟨4, 64, 24⟩
          (owner3 (.fixed 1) 4))) twoRemotes = some s ∧
      s.live = [⟨88, SlabRun.layout8⟩] ∧
      s.returned = [⟨80, SlabRun.layout8⟩, ⟨88, SlabRun.layout8⟩] ∧
      s.heap.alloc.remoteQueue = [] ∧
      (s.heap.alloc.tryDeallocate ⟨88, SlabRun.layout8⟩).1 = false := by
  have hresult : (Machine.run (step (BumpArena.range SlabRun.movable))
      (init (SlabOwner.intoArc (BumpArena.range SlabRun.movable) ⟨4, 64, 24⟩
        (owner3 (.fixed 1) 4))) twoRemotes).map (fun s => (s.live, s.returned,
          s.heap.alloc.closed)) =
      some ([⟨88, SlabRun.layout8⟩], [⟨80, SlabRun.layout8⟩, ⟨88, SlabRun.layout8⟩], true) := by
    decide +kernel
  obtain ⟨s, hrun, hs⟩ := Option.map_eq_some_iff.mp hresult
  have hnew : SlabOwner.withBatchPolicy (BumpArena.allocator 16 SlabRun.movable)
      (BumpArena.range SlabRun.movable) SlabRun.word8 3 (.fixed 1) 4 ⟨⟨0, 64, 0⟩, fun _ => 0⟩ =
      some (owner3 (.fixed 1) 4) := rfl
  have hcorrect := slabOwner_run_correct
    (BumpArena.honours SlabRun.movable_lawful 16 (by decide)) (BumpArena.holds_new (b := 0) rfl _)
    hnew mayMoveTo_80 hrun
  have hclosed : s.heap.alloc.closed = true := congrArg (fun t => t.2.2) hs
  obtain ⟨hempty, hrefused⟩ := hcorrect.2.2.2.2.2.2.1 hclosed
  exact ⟨s, hrun, congrArg Prod.fst hs, congrArg (fun t => t.2.1) hs, hempty, hrefused _⟩

end OwnerRun

end ForgeAlloc
