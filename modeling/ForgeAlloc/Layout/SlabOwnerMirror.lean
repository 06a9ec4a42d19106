import ForgeAlloc.Layout.SlabOwnerRun

set_option autoImplicit false

/-! # The mirror of the queue's length

`OwnerRun` takes a critical section of the queue as one step. Here the sections are taken apart:
the thread that holds the lock tests, changes the queue, stores the mirror and releases the lock
in steps of their own, and whatever does not need the lock may happen in between. One owner
drains, ticks or is dropped, and between its drains it calls the slab; any number of remotes push
entries, one label `remote r e` for each attempt. A section that nothing interrupts does what
`SlabOwner.tryDeallocate`, `takeQueue` and `close` do at once.

The owner's load of the mirror is `Relaxed` and without the lock. It returns any value that has
been stored so far, also one whose section is still going on. The debug assertions are recorded
with their outcome in `asserted`.

`MirrorRun.Inv` says what holds at each line of a section. `slabOwner_mirror_correct` is the result
about the runs: the mirror is exact whenever the lock is free, and a load that does not return the
length at an earlier release returns the one at the release to come.
-/

namespace ForgeAlloc

open MachineInt ByteMemory

/-- Where the owner is, outside of its critical sections. -/
inductive MirrorPc (w : Nat)
  | idle
  /-- In `maybe_drain`, before the load. -/
  | load
  | tryLock
  /-- In `drain`, or in the drop. -/
  | lock (drop : Bool)
  | locked
  /-- The entries of a drain are freed after the lock is released. -/
  | free (entries : List (RemoteEntry w)) (drop : Bool)
  /-- Before the lock for the first assertion of the drop. -/
  | checkQueue
  /-- Before the load for the second one. -/
  | checkMirror
  | gone

/-- The drop has closed the queue. -/
def MirrorPc.closing {w : Nat} : MirrorPc w → Bool
  | .free _ true | .checkQueue | .checkMirror | .gone => true
  | _ => false

/-- The next line of the critical section in progress. -/
inductive Section (w : Nat)
  /-- In `try_deallocate`, before the two tests. -/
  | tests (e : RemoteEntry w)
  | pushBack (e : RemoteEntry w)
  | storeLen
  /-- In a drain, before the test for the empty queue. -/
  | isEmpty
  | setClosed
  | drainAll (drop : Bool)
  | storeZero (entries : List (RemoteEntry w)) (drop : Bool)
  /-- The first assertion of the drop. -/
  | checkEmpty
  /-- Before the release. The owner goes on as it is told, and a remote has no part in that. -/
  | unlock (next : Option (MirrorPc w))

/-- The owner is in the section, and not a remote. -/
def Section.byOwner {w : Nat} : Section w → Bool
  | .tests _ | .pushBack _ | .storeLen | .unlock none => false
  | _ => true

def Section.closing {w : Nat} : Section w → Bool
  | .drainAll true | .storeZero _ true | .checkEmpty => true
  | .unlock (some pc) => pc.closing
  | _ => false

structure MirrorRun {w : Nat} (T : RustType w) (β : Type) where
  heap : Heap (SlabOwner T β)
  pc : MirrorPc w
  /-- The critical section in progress, if the lock is held. -/
  holder : Option (Section w)
  /-- The values stored in the mirror. -/
  stores : List Nat
  /-- The lengths the queue had when the lock was released, and at first. -/
  lengths : List Nat
  /-- The outcomes of the debug assertions. -/
  asserted : List Bool

inductive MirrorStep (w : Nat) (ρ : Type)
  | drain
  | maybeDrain
  | drop
  | load (v : Nat)
  | tryLock
  | lock
  /-- The owner frees an entry, or ends its call. -/
  | advance
  /-- The slab's part of `allocate`, before or after a drain, and of `deallocate`. -/
  | allocateSlab (l : NonZeroLayout w)
  | freeSlot (e : RemoteEntry w)
  /-- A remote takes the lock in `try_deallocate`. -/
  | remote (r : ρ) (e : RemoteEntry w)
  /-- The next line of the critical section. -/
  | inside

namespace MirrorRun

variable {w : Nat} {β ρ : Type} {T : RustType w} {R : FixedRange β}

def init (h : Heap (SlabOwner T β)) : MirrorRun T β := ⟨h, .idle, none, [0], [0], []⟩

/-- A change of the shared state by the holder of the lock, and its next line. -/
def update (s : MirrorRun T β) (o : SlabOwner T β) (next : Section w) : MirrorRun T β :=
  { s with heap := ⟨o, s.heap.mem⟩, holder := some next }

/-- One line of a critical section. -/
def inside (s : MirrorRun T β) : Section w → MirrorRun T β
  | .tests e =>
      if s.heap.alloc.closed = true then { s with holder := some (.unlock none) }
      else if s.heap.alloc.queueCapacity ≤ s.heap.alloc.remoteQueue.length then
        { s with holder := some (.unlock none) }
      else { s with holder := some (.pushBack e) }
  | .pushBack e =>
      s.update { s.heap.alloc with remoteQueue := s.heap.alloc.remoteQueue ++ [e] } .storeLen
  | .storeLen =>
      let len := s.heap.alloc.remoteQueue.length
      { s.update { s.heap.alloc with remoteQueueLen := len } (.unlock none) with
        stores := len :: s.stores }
  | .isEmpty =>
      if s.heap.alloc.remoteQueue.isEmpty then
        { s with
          holder := some (.unlock (some .idle))
          asserted := decide (s.heap.alloc.remoteQueueLen = 0) :: s.asserted }
      else { s with holder := some (.drainAll false) }
  | .setClosed => s.update { s.heap.alloc with closed := true } (.drainAll true)
  | .drainAll drop =>
      s.update { s.heap.alloc with remoteQueue := [] } (.storeZero s.heap.alloc.remoteQueue drop)
  | .storeZero entries drop =>
      { s.update { s.heap.alloc with remoteQueueLen := 0 } (.unlock (some (.free entries drop))) with
        stores := 0 :: s.stores }
  | .checkEmpty =>
      { s with
        holder := some (.unlock (some .checkMirror))
        asserted := s.heap.alloc.remoteQueue.isEmpty :: s.asserted }
  | .unlock next =>
      { s with
        pc := next.getD s.pc
        holder := none
        lengths := s.heap.alloc.remoteQueue.length :: s.lengths }

def step (R : FixedRange β) (s : MirrorRun T β) : MirrorStep w ρ → Option (MirrorRun T β)
  | .drain =>
      match s.pc with
      | .idle => some { s with pc := .lock false }
      | _ => none
  | .maybeDrain =>
      match s.pc with
      | .idle => some { s with pc := .load }
      | _ => none
  | .drop =>
      match s.pc with
      | .idle => some { s with pc := .lock true }
      | _ => none
  | .load v =>
      match s.pc with
      | .load =>
          if v ∈ s.stores then
            let (threshold, o) := s.heap.alloc.threshold v
            some { s with
              heap := ⟨o, s.heap.mem⟩, pc := if v < threshold then .idle else .tryLock }
          else none
      | _ => none
  | .tryLock =>
      match s.pc, s.holder with
      | .tryLock, none => some { s with pc := .locked, holder := some .isEmpty }
      -- contended
      | .tryLock, some _ => some { s with pc := .idle }
      | _, _ => none
  | .lock =>
      match s.pc, s.holder with
      | .lock false, none => some { s with pc := .locked, holder := some .isEmpty }
      | .lock true, none => some { s with pc := .locked, holder := some .setClosed }
      | .checkQueue, none => some { s with pc := .locked, holder := some .checkEmpty }
      | _, _ => none
  | .advance =>
      match s.pc with
      | .free (e :: rest) drop =>
          some { s with heap := SlabOwner.freeEntry R s.heap e, pc := .free rest drop }
      | .free [] false => some { s with pc := .idle }
      | .free [] true => some { s with pc := .checkQueue }
      | .checkMirror =>
          -- no value older than the owner's own store of zero can be read here
          some { s with
            pc := .gone
            asserted := decide (s.heap.alloc.remoteQueueLen = 0) :: s.asserted }
      | _ => none
  | .allocateSlab l =>
      match s.pc with
      | .idle => some { s with heap := (SlabOwner.allocateSlab R l s.heap).2 }
      | _ => none
  | .freeSlot e =>
      match s.pc with
      | .idle => some { s with heap := SlabOwner.freeEntry R s.heap e }
      | _ => none
  | .remote _ e =>
      match s.holder with
      | none => some { s with holder := some (.tests e) }
      | some _ => none
  | .inside => s.holder.map s.inside

/-! ## The invariant -/

/-- What is true of the shared state before a line of a section, and while the lock is free. -/
def Before (qcap : Nat) (o : SlabOwner T β) : Option (Section w) → Prop
  | some (.pushBack _) =>
      o.remoteQueueLen = o.remoteQueue.length ∧ o.closed = false ∧ o.remoteQueue.length < qcap
  | some .storeLen => o.closed = false
  | some (.storeZero _ _) => o.remoteQueue = []
  | some (.unlock (some pc)) => o.remoteQueueLen = o.remoteQueue.length ∧ pc ≠ .locked
  | _ => o.remoteQueueLen = o.remoteQueue.length

structure Inv (qcap : Nat) (s : MirrorRun T β) : Prop where
  capacity_eq : s.heap.alloc.queueCapacity = qcap
  len_le : s.heap.alloc.remoteQueue.length ≤ qcap
  before : Before qcap s.heap.alloc s.holder
  /-- The owner is in a critical section exactly when the section is one of its own. -/
  owner : s.pc = .locked ↔ ∃ sec, s.holder = some sec ∧ sec.byOwner = true
  closing : s.pc.closing = true ∨ (∃ sec, s.holder = some sec ∧ sec.closing = true) →
    s.heap.alloc.closed = true
  closed_queue : s.heap.alloc.closed = true →
    s.heap.alloc.remoteQueue = [] ∨ ∃ drop, s.holder = some (.drainAll drop)
  /-- Only a store whose section is not over may be ahead of the releases. -/
  stores_sub : ∀ v ∈ s.stores, v ∈ s.lengths ∨
    ∃ next, s.holder = some (.unlock next) ∧ v = s.heap.alloc.remoteQueue.length
  asserted_true : ∀ b ∈ s.asserted, b = true

variable {s s' : MirrorRun T β} {qcap : Nat}

theorem inv_init {h : Heap (SlabOwner T β)} (hcap : h.alloc.queueCapacity = qcap)
    (hqueue : h.alloc.remoteQueue = []) (hlen : h.alloc.remoteQueueLen = 0) :
    Inv qcap (init h) where
  capacity_eq := hcap
  len_le := by
    show h.alloc.remoteQueue.length ≤ qcap
    rw [hqueue]
    exact Nat.zero_le _
  before := by
    show h.alloc.remoteQueueLen = h.alloc.remoteQueue.length
    rw [hqueue, hlen, List.length_nil]
  owner := by
    constructor
    · rintro ⟨⟩
    · rintro ⟨sec, ⟨⟩, -⟩
  closing := by
    rintro (hpc | ⟨sec, ⟨⟩, -⟩)
    exact absurd hpc Bool.false_ne_true
  closed_queue := fun _ => Or.inl hqueue
  stores_sub := fun _ hv => Or.inl hv
  asserted_true := fun _ hb => absurd hb List.not_mem_nil

/-! ## Steps without the lock -/

/-- The owner goes on outside of a section. The slab and the controller may change. -/
theorem Inv.moveOn (hi : Inv qcap s) {slab : Slab T β} {st : AdaptiveState} {m : Mem}
    {pc : MirrorPc w} {asserted : List Bool} (hpc : s.pc ≠ .locked) (hpc' : pc ≠ .locked)
    (hclosing : pc.closing = true → s.heap.alloc.closed = true)
    (hasserted : ∀ b ∈ asserted, b = true) :
    Inv qcap { s with
      heap := ⟨{ s.heap.alloc with slab := slab, adaptive := st }, m⟩
      pc := pc
      asserted := asserted } where
  capacity_eq := hi.capacity_eq
  len_le := hi.len_le
  before := by
    have hbefore := hi.before
    unfold Before at hbefore ⊢
    exact hbefore
  owner := by
    have howner := hi.owner
    simp only [hpc, false_iff] at howner
    simp only [hpc', false_iff]
    exact howner
  closing := by
    rintro (hclosed | hclosed)
    · exact hclosing hclosed
    · exact hi.closing (Or.inr hclosed)
  closed_queue := hi.closed_queue
  stores_sub := hi.stores_sub
  asserted_true := hasserted

/-- Somebody takes the lock. -/
theorem Inv.acquire (hi : Inv qcap s) (hfree : s.holder = none) {sec : Section w}
    {pc : MirrorPc w} (hbefore : Before qcap s.heap.alloc none → Before qcap s.heap.alloc (some sec))
    (howner : pc = .locked ↔ sec.byOwner = true)
    (hclosing : pc.closing = true ∨ sec.closing = true → s.heap.alloc.closed = true) :
    Inv qcap { s with pc := pc, holder := some sec } where
  capacity_eq := hi.capacity_eq
  len_le := hi.len_le
  before := hbefore (hfree ▸ hi.before)
  owner := by simpa using howner
  closing := by simpa using hclosing
  closed_queue := by
    intro hclosed
    rcases hi.closed_queue hclosed with hnil | ⟨drop, hdrain⟩
    · exact Or.inl hnil
    · rw [hfree] at hdrain
      cases hdrain
  stores_sub := by
    intro v hv
    rcases hi.stores_sub v hv with hmem | ⟨next, hnext, -⟩
    · exact Or.inl hmem
    · rw [hfree] at hnext
      cases hnext
  asserted_true := hi.asserted_true

/-! ## The lines of a section -/

/-- Until the last line of a section every stored value has been at a release. -/
theorem Inv.stores_mem (hi : Inv qcap s) {sec : Section w} (hsec : s.holder = some sec)
    (hlast : ∀ next, sec ≠ .unlock next) {v : Nat} (hv : v ∈ s.stores) : v ∈ s.lengths := by
  rcases hi.stores_sub v hv with hmem | ⟨next, hnext, -⟩
  · exact hmem
  · rw [hsec, Option.some.injEq] at hnext
    exact absurd hnext (hlast next)

/-- The holder of the lock goes from one line to the next. -/
theorem Inv.nextLine (hi : Inv qcap s) {sec sec' : Section w} (hsec : s.holder = some sec)
    {o : SlabOwner T β} {stores : List Nat} {asserted : List Bool}
    (hcap : o.queueCapacity = s.heap.alloc.queueCapacity) (hlen : o.remoteQueue.length ≤ qcap)
    (hbefore : Before qcap o (some sec')) (howner : sec'.byOwner = sec.byOwner)
    (hmono : s.heap.alloc.closed = true → o.closed = true)
    (hclosing : sec'.closing = true → o.closed = true)
    (hqueue : o.closed = true → o.remoteQueue = [] ∨ ∃ drop, sec' = .drainAll drop)
    (hstores : ∀ v ∈ stores, v ∈ s.lengths ∨
      ∃ next, sec' = .unlock next ∧ v = o.remoteQueue.length)
    (hasserted : ∀ b ∈ asserted, b = true) :
    Inv qcap { s with
      heap := ⟨o, s.heap.mem⟩, holder := some sec', stores := stores, asserted := asserted } where
  capacity_eq := hcap.trans hi.capacity_eq
  len_le := hlen
  before := hbefore
  owner := by
    have hiff := hi.owner
    simp only [hsec, Option.some.injEq, exists_eq_left'] at hiff
    simp only [Option.some.injEq, exists_eq_left', howner]
    exact hiff
  closing := by
    rintro (hpc | ⟨sec, hnew, hsecclosing⟩)
    · exact hmono (hi.closing (Or.inl hpc))
    · cases hnew
      exact hclosing hsecclosing
  closed_queue := by simpa using hqueue
  stores_sub := by simpa using hstores
  asserted_true := hasserted

/-- The queue is empty once it is closed, except before the drop takes the entries. -/
theorem Inv.queue_nil (hi : Inv qcap s) {sec : Section w} (hsec : s.holder = some sec)
    (hdrain : ∀ drop, sec ≠ .drainAll drop) (hclosed : s.heap.alloc.closed = true) :
    s.heap.alloc.remoteQueue = [] := by
  rcases hi.closed_queue hclosed with hnil | ⟨drop, hdrop⟩
  · exact hnil
  · rw [hsec, Option.some.injEq] at hdrop
    exact absurd hdrop (hdrain drop)

theorem Inv.tests (hi : Inv qcap s) {e : RemoteEntry w} (hsec : s.holder = some (.tests e)) :
    Inv qcap (s.inside (.tests e)) := by
  have hbefore := hi.before
  rw [hsec] at hbefore
  have hstores : ∀ v ∈ s.stores, v ∈ s.lengths := fun v hv =>
    hi.stores_mem hsec (by rintro next ⟨⟩) hv
  have hnil := hi.queue_nil hsec (by rintro drop ⟨⟩)
  simp only [inside]
  split
  case isTrue hclosed =>
      exact hi.nextLine hsec rfl hi.len_le hbefore rfl id (by rintro ⟨⟩)
        (fun hc => Or.inl (hnil hc)) (fun v hv => Or.inl (hstores v hv)) hi.asserted_true
  case isFalse hopen =>
      split
      case isTrue hfull =>
          exact hi.nextLine hsec rfl hi.len_le hbefore rfl id (by rintro ⟨⟩)
            (fun hc => Or.inl (hnil hc)) (fun v hv => Or.inl (hstores v hv)) hi.asserted_true
      case isFalse hroom =>
          rw [Bool.not_eq_true] at hopen
          rw [hi.capacity_eq, not_le] at hroom
          exact hi.nextLine hsec rfl hi.len_le ⟨hbefore, hopen, hroom⟩ rfl id (by rintro ⟨⟩)
            (fun hc => Or.inl (hnil hc)) (fun v hv => Or.inl (hstores v hv)) hi.asserted_true

theorem Inv.pushBack (hi : Inv qcap s) {e : RemoteEntry w}
    (hsec : s.holder = some (.pushBack e)) : Inv qcap (s.inside (.pushBack e)) := by
  have hbefore := hi.before
  rw [hsec] at hbefore
  obtain ⟨-, hopen, hroom⟩ := hbefore
  refine hi.nextLine hsec rfl ?_ hopen rfl id (by rintro ⟨⟩) ?_
    (fun v hv => Or.inl (hi.stores_mem hsec (by rintro next ⟨⟩) hv)) hi.asserted_true
  · rw [List.length_append, List.length_singleton]
    exact hroom
  · intro hclosed
    exact absurd (hopen.symm.trans hclosed) Bool.false_ne_true

/-- The store makes the mirror exact again, before the lock is released. -/
theorem Inv.storeLen (hi : Inv qcap s) (hsec : s.holder = some .storeLen) :
    Inv qcap (s.inside .storeLen) := by
  have hopen : s.heap.alloc.closed = false := by
    have hbefore := hi.before
    rwa [hsec] at hbefore
  refine hi.nextLine hsec rfl hi.len_le rfl rfl id (by rintro ⟨⟩) ?_ ?_ hi.asserted_true
  · intro hclosed
    exact absurd (hopen.symm.trans hclosed) Bool.false_ne_true
  · intro v hv
    rcases List.mem_cons.mp hv with rfl | hv
    · exact Or.inr ⟨none, rfl, rfl⟩
    · exact Or.inl (hi.stores_mem hsec (by rintro next ⟨⟩) hv)

/-- Where the queue is empty the assertion on the mirror holds. -/
theorem Inv.isEmpty (hi : Inv qcap s) (hsec : s.holder = some .isEmpty) :
    Inv qcap (s.inside .isEmpty) := by
  have hbefore := hi.before
  rw [hsec] at hbefore
  have hnil := hi.queue_nil hsec (by rintro drop ⟨⟩)
  have hstores : ∀ v ∈ s.stores, v ∈ s.lengths := fun v hv =>
    hi.stores_mem hsec (by rintro next ⟨⟩) hv
  simp only [inside]
  split
  case isTrue hempty =>
      have hexact : s.heap.alloc.remoteQueueLen = s.heap.alloc.remoteQueue.length := hbefore
      have hzero : s.heap.alloc.remoteQueueLen = 0 := by
        rw [hexact, List.isEmpty_iff.mp hempty, List.length_nil]
      refine hi.nextLine hsec rfl hi.len_le ⟨hexact, by rintro ⟨⟩⟩ rfl id ?_
        (fun hc => Or.inl (hnil hc)) (fun v hv => Or.inl (hstores v hv)) ?_
      · exact fun hc => absurd hc Bool.false_ne_true
      · exact List.forall_mem_cons.mpr ⟨decide_eq_true hzero, hi.asserted_true⟩
  case isFalse =>
      exact hi.nextLine hsec rfl hi.len_le hbefore rfl id (fun hc => absurd hc Bool.false_ne_true)
        (fun hc => Or.inl (hnil hc)) (fun v hv => Or.inl (hstores v hv)) hi.asserted_true

theorem Inv.setClosed (hi : Inv qcap s) (hsec : s.holder = some .setClosed) :
    Inv qcap (s.inside .setClosed) := by
  have hbefore := hi.before
  rw [hsec] at hbefore
  exact hi.nextLine hsec rfl hi.len_le hbefore rfl (fun _ => rfl) (fun _ => rfl)
    (fun _ => Or.inr ⟨true, rfl⟩)
    (fun v hv => Or.inl (hi.stores_mem hsec (by rintro next ⟨⟩) hv)) hi.asserted_true

theorem Inv.drainAll (hi : Inv qcap s) {drop : Bool} (hsec : s.holder = some (.drainAll drop)) :
    Inv qcap (s.inside (.drainAll drop)) := by
  refine hi.nextLine hsec rfl (Nat.zero_le _) rfl rfl id ?_ (fun _ => Or.inl rfl)
    (fun v hv => Or.inl (hi.stores_mem hsec (by rintro next ⟨⟩) hv)) hi.asserted_true
  intro hclosing
  apply hi.closing
  right
  refine ⟨.drainAll drop, hsec, ?_⟩
  cases drop with
  | true => rfl
  | false => exact hclosing

theorem Inv.storeZero (hi : Inv qcap s) {entries : List (RemoteEntry w)} {drop : Bool}
    (hsec : s.holder = some (.storeZero entries drop)) :
    Inv qcap (s.inside (.storeZero entries drop)) := by
  have hnil : s.heap.alloc.remoteQueue = [] := by
    have hbefore := hi.before
    rwa [hsec] at hbefore
  refine hi.nextLine hsec rfl hi.len_le ⟨?_, by rintro ⟨⟩⟩ rfl id ?_ (fun _ => Or.inl hnil) ?_
    hi.asserted_true
  · show 0 = s.heap.alloc.remoteQueue.length
    rw [hnil, List.length_nil]
  · intro hclosing
    apply hi.closing
    right
    refine ⟨_, hsec, ?_⟩
    cases drop with
    | true => rfl
    | false => exact hclosing
  · intro v hv
    rcases List.mem_cons.mp hv with rfl | hv
    · refine Or.inr ⟨_, rfl, ?_⟩
      rw [hnil, List.length_nil]
    · exact Or.inl (hi.stores_mem hsec (by rintro next ⟨⟩) hv)

/-- When the drop looks again the queue is closed, and so it is empty. -/
theorem Inv.checkEmpty (hi : Inv qcap s) (hsec : s.holder = some .checkEmpty) :
    Inv qcap (s.inside .checkEmpty) := by
  have hbefore := hi.before
  rw [hsec] at hbefore
  have hclosed : s.heap.alloc.closed = true := hi.closing (Or.inr ⟨_, hsec, rfl⟩)
  have hnil := hi.queue_nil hsec (by rintro drop ⟨⟩) hclosed
  refine hi.nextLine hsec rfl hi.len_le ⟨hbefore, by rintro ⟨⟩⟩ rfl id (fun _ => hclosed)
    (fun _ => Or.inl hnil) (fun v hv => Or.inl (hi.stores_mem hsec (by rintro next ⟨⟩) hv)) ?_
  exact List.forall_mem_cons.mpr ⟨List.isEmpty_iff.mpr hnil, hi.asserted_true⟩

/-- The release adds the length to those at a release, and the owner leaves its section. -/
theorem Inv.unlock (hi : Inv qcap s) {next : Option (MirrorPc w)}
    (hsec : s.holder = some (.unlock next)) : Inv qcap (s.inside (.unlock next)) := by
  have hbefore := hi.before
  have howner := hi.owner
  have hnil := hi.queue_nil hsec (by rintro drop ⟨⟩)
  rw [hsec] at hbefore
  simp only [hsec, Option.some.injEq, exists_eq_left'] at howner
  have hexact : s.heap.alloc.remoteQueueLen = s.heap.alloc.remoteQueue.length := by
    cases next with
    | none => exact hbefore
    | some pc => exact hbefore.1
  refine
    { capacity_eq := hi.capacity_eq
      len_le := hi.len_le
      before := hexact
      owner := ?_
      closing := ?_
      closed_queue := fun hclosed => Or.inl (hnil hclosed)
      stores_sub := ?_
      asserted_true := hi.asserted_true }
  · have hpc : next.getD s.pc ≠ .locked := by
      cases next with
      | none => simpa [Section.byOwner] using howner
      | some pc => exact hbefore.2
    constructor
    · exact fun heq => absurd heq hpc
    · rintro ⟨sec, ⟨⟩, -⟩
  · rintro (hpc | ⟨sec, ⟨⟩, -⟩)
    apply hi.closing
    cases next with
    | none => exact Or.inl hpc
    | some pc => exact Or.inr ⟨_, hsec, hpc⟩
  · intro v hv
    left
    rcases hi.stores_sub v hv with hmem | ⟨next', -, rfl⟩
    · exact List.mem_cons_of_mem _ hmem
    · exact List.mem_cons_self

theorem Inv.inside (hi : Inv qcap s) {sec : Section w} (hsec : s.holder = some sec) :
    Inv qcap (s.inside sec) := by
  cases sec with
  | tests e => exact hi.tests hsec
  | pushBack e => exact hi.pushBack hsec
  | storeLen => exact hi.storeLen hsec
  | isEmpty => exact hi.isEmpty hsec
  | setClosed => exact hi.setClosed hsec
  | drainAll drop => exact hi.drainAll hsec
  | storeZero entries drop => exact hi.storeZero hsec
  | checkEmpty => exact hi.checkEmpty hsec
  | unlock next => exact hi.unlock hsec

/-! ## Runs -/

/-- At the end of the drop the mirror is zero, whatever a remote is doing. -/
theorem Inv.mirror_eq_zero (hi : Inv qcap s) (hpc : s.pc = .checkMirror) :
    s.heap.alloc.remoteQueueLen = 0 := by
  have hclosed : s.heap.alloc.closed = true := hi.closing (Or.inl (by rw [hpc]; rfl))
  have howner := hi.owner
  simp only [hpc, reduceCtorEq, false_iff, not_exists, not_and] at howner
  have hnil : s.heap.alloc.remoteQueue = [] := by
    rcases hi.closed_queue hclosed with hnil | ⟨drop, hdrain⟩
    · exact hnil
    · exact absurd rfl (howner _ hdrain)
  suffices hexact : s.heap.alloc.remoteQueueLen = s.heap.alloc.remoteQueue.length by
    rw [hexact, hnil, List.length_nil]
  have hbefore := hi.before
  rcases hholder : s.holder with _ | sec
  · rwa [hholder] at hbefore
  · rw [hholder] at hbefore
    have hremote := howner sec hholder
    -- a remote that finds the queue closed does not store
    cases sec with
    | tests e => exact hbefore
    | pushBack e => exact hbefore.1
    | storeLen => exact absurd (hclosed.symm.trans hbefore) (Ne.symm Bool.false_ne_true)
    | unlock next =>
        cases next with
        | none => exact hbefore
        | some pc => exact absurd rfl hremote
    | _ => exact absurd rfl hremote

theorem Inv.tryLock (hi : Inv qcap s) (hstep : step (ρ := ρ) R s .tryLock = some s') :
    Inv qcap s' := by
  simp only [step] at hstep
  split at hstep
  case h_1 hpc hfree =>
      cases hstep
      refine hi.acquire hfree id ?_ ?_
      · exact ⟨fun _ => rfl, fun _ => rfl⟩
      · rintro (hclosing | hclosing)
        · cases hclosing
        · cases hclosing
  case h_2 hpc _ =>
      cases hstep
      exact hi.moveOn (by rw [hpc]; rintro ⟨⟩) (by rintro ⟨⟩)
        (fun hclosing => absurd hclosing Bool.false_ne_true) hi.asserted_true
  case h_3 => cases hstep

theorem Inv.lock (hi : Inv qcap s) (hstep : step (ρ := ρ) R s .lock = some s') : Inv qcap s' := by
  simp only [step] at hstep
  split at hstep
  case h_1 hpc hfree =>
      cases hstep
      refine hi.acquire hfree id ⟨fun _ => rfl, fun _ => rfl⟩ ?_
      rintro (hclosing | hclosing)
      · cases hclosing
      · cases hclosing
  case h_2 hpc hfree =>
      cases hstep
      refine hi.acquire hfree id ⟨fun _ => rfl, fun _ => rfl⟩ ?_
      rintro (hclosing | hclosing)
      · cases hclosing
      · cases hclosing
  case h_3 hpc hfree =>
      cases hstep
      refine hi.acquire hfree id ⟨fun _ => rfl, fun _ => rfl⟩ fun _ => ?_
      exact hi.closing (Or.inl (by rw [hpc]; rfl))
  case h_4 => cases hstep

theorem Inv.load (hi : Inv qcap s) {v : Nat} (hstep : step (ρ := ρ) R s (.load v) = some s') :
    Inv qcap s' := by
  simp only [step] at hstep
  split at hstep
  case h_2 => cases hstep
  case h_1 hpc =>
      split at hstep
      case isFalse => cases hstep
      case isTrue =>
          obtain ⟨st, hst, -⟩ := OwnerRun.threshold_eq v s.heap.alloc
          simp only [hst, Option.some.injEq] at hstep
          subst hstep
          have hpc' : s.pc ≠ .locked := by
            rw [hpc]
            rintro ⟨⟩
          by_cases hlt : v < (s.heap.alloc.threshold v).1
          · rw [if_pos hlt]
            exact hi.moveOn hpc' (by rintro ⟨⟩)
              (fun hclosing => absurd hclosing Bool.false_ne_true) hi.asserted_true
          · rw [if_neg hlt]
            exact hi.moveOn hpc' (by rintro ⟨⟩)
              (fun hclosing => absurd hclosing Bool.false_ne_true) hi.asserted_true

theorem Inv.advance (hi : Inv qcap s) (hstep : step (ρ := ρ) R s .advance = some s') :
    Inv qcap s' := by
  simp only [step] at hstep
  split at hstep
  case h_1 e rest drop hpc =>
      cases hstep
      refine hi.moveOn (by rw [hpc]; rintro ⟨⟩) (by rintro ⟨⟩) (fun hclosing => ?_)
        hi.asserted_true
      apply hi.closing
      left
      rw [hpc]
      cases drop with
      | true => rfl
      | false => exact hclosing
  case h_2 hpc =>
      cases hstep
      exact hi.moveOn (by rw [hpc]; rintro ⟨⟩) (by rintro ⟨⟩)
        (fun hclosing => absurd hclosing Bool.false_ne_true) hi.asserted_true
  case h_3 hpc =>
      cases hstep
      exact hi.moveOn (by rw [hpc]; rintro ⟨⟩) (by rintro ⟨⟩)
        (fun _ => hi.closing (Or.inl (by rw [hpc]; rfl))) hi.asserted_true
  case h_4 hpc =>
      cases hstep
      refine hi.moveOn (by rw [hpc]; rintro ⟨⟩) (by rintro ⟨⟩)
        (fun _ => hi.closing (Or.inl (by rw [hpc]; rfl))) ?_
      exact List.forall_mem_cons.mpr ⟨decide_eq_true (hi.mirror_eq_zero hpc), hi.asserted_true⟩
  case h_5 => cases hstep

/-- The owner starts a call. -/
theorem Inv.start (hi : Inv qcap s) (hpc : s.pc = .idle) {pc : MirrorPc w} (hpc' : pc ≠ .locked)
    (hclosing : pc.closing = false) : Inv qcap { s with pc := pc } :=
  hi.moveOn (by rw [hpc]; rintro ⟨⟩) hpc'
    (fun hclosed => absurd (hclosing.symm.trans hclosed) Bool.false_ne_true) hi.asserted_true

theorem inv_step (op : MirrorStep w ρ) (hi : Inv qcap s) (hstep : step R s op = some s') :
    Inv qcap s' := by
  cases op with
  | load v => exact hi.load hstep
  | tryLock => exact hi.tryLock hstep
  | lock => exact hi.lock hstep
  | advance => exact hi.advance hstep
  | drain =>
      simp only [step] at hstep
      split at hstep
      case h_1 hpc =>
          cases hstep
          exact hi.start hpc (by rintro ⟨⟩) rfl
      case h_2 => cases hstep
  | maybeDrain =>
      simp only [step] at hstep
      split at hstep
      case h_1 hpc =>
          cases hstep
          exact hi.start hpc (by rintro ⟨⟩) rfl
      case h_2 => cases hstep
  | drop =>
      simp only [step] at hstep
      split at hstep
      case h_1 hpc =>
          cases hstep
          exact hi.start hpc (by rintro ⟨⟩) rfl
      case h_2 => cases hstep
  | allocateSlab l =>
      simp only [step] at hstep
      split at hstep
      case h_1 hpc =>
          cases hstep
          exact hi.moveOn (by rw [hpc]; rintro ⟨⟩) (by rw [hpc]; rintro ⟨⟩)
            (fun hclosing => hi.closing (Or.inl hclosing)) hi.asserted_true
      case h_2 => cases hstep
  | freeSlot e =>
      simp only [step] at hstep
      split at hstep
      case h_1 hpc =>
          cases hstep
          exact hi.moveOn (by rw [hpc]; rintro ⟨⟩) (by rw [hpc]; rintro ⟨⟩)
            (fun hclosing => hi.closing (Or.inl hclosing)) hi.asserted_true
      case h_2 => cases hstep
  | remote r e =>
      simp only [step] at hstep
      split at hstep
      case h_1 hfree =>
          cases hstep
          have howner := hi.owner
          simp only [hfree, reduceCtorEq, false_and, exists_false, iff_false] at howner
          refine hi.acquire hfree id ?_ ?_
          · simpa [Section.byOwner] using howner
          · rintro (hclosing | hclosing)
            · exact hi.closing (Or.inl hclosing)
            · cases hclosing
      case h_2 => cases hstep
  | inside =>
      obtain ⟨sec, hsec, rfl⟩ := Option.map_eq_some_iff.mp hstep
      exact hi.inside hsec

theorem inv_run {ops : List (MirrorStep w ρ)} (hi : Inv qcap s)
    (hrun : Machine.run (step R) s ops = some s') : Inv qcap s' :=
  Machine.run_invariant (P := Inv qcap) (fun _ op _ hi hstep => inv_step op hi hstep) hi hrun

/-! ## Sections that nothing interrupts -/

theorem run_inside {sec : Section w} (hsec : s.holder = some sec) (k : Nat) :
    Machine.run (step (ρ := ρ) R) s (List.replicate (k + 1) .inside) =
      Machine.run (step (ρ := ρ) R) (s.inside sec) (List.replicate k .inside) := by
  rw [List.replicate_succ, Machine.run_cons]
  simp only [step, hsec, Option.map_some, Option.bind_some]

/-- The lines of `try_deallocate` in a row. -/
theorem run_tests {e : RemoteEntry w} (hsec : s.holder = some (.tests e)) :
    ∃ k s', Machine.run (step (ρ := ρ) R) s (List.replicate k .inside) = some s' ∧
      s'.holder = none ∧ s'.pc = s.pc ∧
      s'.heap = ⟨(s.heap.alloc.tryDeallocate e).2, s.heap.mem⟩ := by
  simp only [SlabOwner.tryDeallocate]
  by_cases hclosed : s.heap.alloc.closed = true
  · have htests : s.inside (.tests e) = { s with holder := some (.unlock none) } := by
      simp only [inside, if_pos hclosed]
    refine ⟨2, inside { s with holder := some (.unlock none) } (.unlock none), ?_, rfl, rfl, ?_⟩
    · rw [run_inside hsec, htests, run_inside rfl]
      rfl
    · rw [if_pos hclosed]
      rfl
  by_cases hfull : s.heap.alloc.queueCapacity ≤ s.heap.alloc.remoteQueue.length
  · have htests : s.inside (.tests e) = { s with holder := some (.unlock none) } := by
      simp only [inside, if_neg hclosed, if_pos hfull]
    refine ⟨2, inside { s with holder := some (.unlock none) } (.unlock none), ?_, rfl, rfl, ?_⟩
    · rw [run_inside hsec, htests, run_inside rfl]
      rfl
    · rw [if_neg hclosed, if_pos hfull]
      rfl
  · have htests : s.inside (.tests e) = { s with holder := some (.pushBack e) } := by
      simp only [inside, if_neg hclosed, if_neg hfull]
    refine ⟨4, inside (inside (inside { s with holder := some (.pushBack e) } (.pushBack e))
      .storeLen) (.unlock none), ?_, rfl, rfl, ?_⟩
    · rw [run_inside hsec, htests, run_inside rfl, run_inside rfl, run_inside rfl]
      rfl
    · rw [if_neg hclosed, if_neg hfull]
      rfl

/-- The lines of a drain in a row. -/
theorem run_isEmpty (hsec : s.holder = some .isEmpty) :
    ∃ k s', Machine.run (step (ρ := ρ) R) s (List.replicate k .inside) = some s' ∧
      s'.holder = none ∧ s'.heap = ⟨s.heap.alloc.takeQueue.2, s.heap.mem⟩ ∧
      s'.pc = if s.heap.alloc.remoteQueue.isEmpty then .idle
        else .free s.heap.alloc.takeQueue.1 false := by
  simp only [SlabOwner.takeQueue]
  by_cases hempty : s.heap.alloc.remoteQueue.isEmpty = true
  · have htest : s.inside .isEmpty = { s with
        holder := some (.unlock (some .idle))
        asserted := decide (s.heap.alloc.remoteQueueLen = 0) :: s.asserted } := by
      simp only [inside, if_pos hempty]
    refine ⟨2, inside (s.inside .isEmpty) (.unlock (some .idle)), ?_, rfl, ?_, ?_⟩
    · rw [run_inside hsec, htest, run_inside rfl]
      rfl
    · rw [if_pos hempty, htest]
      rfl
    · rw [if_pos hempty]
      rfl
  · have htest : s.inside .isEmpty = { s with holder := some (.drainAll false) } := by
      simp only [inside, if_neg hempty]
    refine ⟨4, inside (inside (inside { s with holder := some (.drainAll false) } (.drainAll false))
      (.storeZero s.heap.alloc.remoteQueue false))
      (.unlock (some (.free s.heap.alloc.remoteQueue false))), ?_, rfl, ?_, ?_⟩
    · rw [run_inside hsec, htest, run_inside rfl, run_inside rfl, run_inside rfl]
      rfl
    · rw [if_neg hempty]
      rfl
    · rw [if_neg hempty, if_neg hempty]
      rfl

/-- The lines of the drop's section in a row. -/
theorem run_setClosed (hsec : s.holder = some .setClosed) :
    ∃ k s', Machine.run (step (ρ := ρ) R) s (List.replicate k .inside) = some s' ∧
      s'.holder = none ∧ s'.heap = ⟨s.heap.alloc.close.2, s.heap.mem⟩ ∧
      s'.pc = .free s.heap.alloc.close.1 true := by
  refine ⟨4, inside (inside (inside (s.inside .setClosed) (.drainAll true))
    (.storeZero s.heap.alloc.remoteQueue true))
    (.unlock (some (.free s.heap.alloc.remoteQueue true))), ?_, rfl, rfl, rfl⟩
  rw [run_inside hsec, run_inside rfl, run_inside rfl, run_inside rfl]
  rfl

/-! ## The result -/

/-- **The mirror, line by line.** In every state of every interleaving:

* while the lock is free the mirror is the length of the queue;
* the queue never holds more than its capacity;
* no debug assertion has failed;
* a load of `maybe_drain` returns the length at an earlier release of the lock, or else the lock is
  held, the store is done, and the value is the length at the release to come. -/
theorem slabOwner_mirror_correct {A : Allocator w β} {n : Nat} {policy : BatchPolicy} {g : Heap β}
    {h : Heap (SlabOwner T β)}
    (hnew : SlabOwner.withBatchPolicy A R T n policy qcap g = some h) (b : β)
    {ops : List (MirrorStep w ρ)}
    (hrun : Machine.run (step R) (init (SlabOwner.intoArc R b h)) ops = some s) :
    (s.holder = none → s.heap.alloc.remoteQueueLen = s.heap.alloc.remoteQueue.length) ∧
      s.heap.alloc.remoteQueue.length ≤ qcap ∧ (∀ b ∈ s.asserted, b = true) ∧
      ∀ v, (step (ρ := ρ) R s (.load v)).isSome → v ∈ s.lengths ∨
        ∃ next, s.holder = some (.unlock next) ∧ v = s.heap.alloc.remoteQueue.length := by
  have hinit : Inv qcap (init (SlabOwner.intoArc R b h)) := by
    simp only [SlabOwner.withBatchPolicy, Option.bind_eq_bind, Option.bind_eq_some_iff] at hnew
    obtain ⟨g', -, heq⟩ := hnew
    cases heq
    exact inv_init rfl rfl rfl
  have hi := inv_run hinit hrun
  refine ⟨fun hfree => ?_, hi.len_le, hi.asserted_true, fun v hload => ?_⟩
  · have hbefore := hi.before
    rwa [hfree] at hbefore
  · apply hi.stores_sub
    simp only [step] at hload
    split at hload
    case h_1 =>
        split at hload
        case isTrue hv => exact hv
        case isFalse => cases hload
    case h_2 => cases hload

/-- A block is issued. Then a remote frees it while the owner is in `maybe_drain`, and has stored
the mirror but not released the lock. -/
def earlyStore : List (MirrorStep 16 Unit) :=
  [.maybeDrain, .load 0, .allocateSlab SlabRun.layout8, .maybeDrain,
    .remote () ⟨80, SlabRun.layout8⟩, .inside, .inside, .inside]

/-- **The load may be ahead of the releases**: it returns 1, and the queue has had the length 0 at
every release of the lock so far, and at first. -/
theorem slabOwner_mirror_early :
    ∃ s, Machine.run (step (BumpArena.range SlabRun.movable))
        (init (SlabOwner.intoArc (BumpArena.range SlabRun.movable) ⟨4, 64, 24⟩
          (OwnerRun.owner3 (.fixed 64) 4))) earlyStore = some s ∧
      (step (ρ := Unit) (BumpArena.range SlabRun.movable) s (.load 1)).isSome ∧
      s.lengths = [0] ∧ s.heap.alloc.remoteQueue = [⟨80, SlabRun.layout8⟩] :=
  ⟨_, rfl, rfl, rfl, rfl⟩

theorem slabOwner_mirror_correct_earlyStore :
    ∃ s, Machine.run (step (BumpArena.range SlabRun.movable))
        (init (SlabOwner.intoArc (BumpArena.range SlabRun.movable) ⟨4, 64, 24⟩
          (OwnerRun.owner3 (.fixed 64) 4))) earlyStore = some s ∧
      s.heap.alloc.remoteQueue.length ≤ 4 ∧
      ∃ next, s.holder = some (.unlock next) ∧ 1 = s.heap.alloc.remoteQueue.length := by
  have hresult : (Machine.run (step (BumpArena.range SlabRun.movable))
      (init (SlabOwner.intoArc (BumpArena.range SlabRun.movable) ⟨4, 64, 24⟩
        (OwnerRun.owner3 (.fixed 64) 4))) earlyStore).map (fun s =>
          ((step (ρ := Unit) (BumpArena.range SlabRun.movable) s (.load 1)).isSome, s.lengths)) =
      some (true, [0]) := rfl
  obtain ⟨s, hrun, hs⟩ := Option.map_eq_some_iff.mp hresult
  obtain ⟨hload, hlengths⟩ := Prod.mk.inj hs
  have hnew : SlabOwner.withBatchPolicy (BumpArena.allocator 16 SlabRun.movable)
      (BumpArena.range SlabRun.movable) SlabRun.word8 3 (.fixed 64) 4 ⟨⟨0, 64, 0⟩, fun _ => 0⟩ =
      some (OwnerRun.owner3 (.fixed 64) 4) := rfl
  obtain ⟨-, hle, -, hloads⟩ := slabOwner_mirror_correct hnew ⟨4, 64, 24⟩ hrun
  rcases hloads 1 hload with hmem | hlater
  · rw [hlengths] at hmem
    exact absurd hmem (by decide)
  · exact ⟨s, hrun, hle, hlater⟩

end MirrorRun

end ForgeAlloc
