import ForgeAlloc.Layout.SlabBlocks

set_option autoImplicit false

/-! # `SlabOwner` and `SlabRemote`

A slab whose blocks may be freed by any thread. Only the owner touches the slab; a remote thread
puts the pair of pointer and layout into a queue behind a mutex, and the owner *drains* the queue:
it takes all entries in one critical section and frees them after the lock is released.

The owner's calls look at the queue first (`maybeDrain`). The look is an unlocked load of the
atomic mirror of the queue's length, and the lock is only tried; what the load returns and whether
the lock is contended are arguments here. The threshold of the batch policy decides whether the
queue is drained, and for the adaptive policy it moves through five levels.

The functions of this module are the critical sections and the owner's calls without
interference. `OwnerRun` interleaves their steps with the remotes.
-/

namespace ForgeAlloc

open MachineInt ByteMemory

/-- An entry of the remote-free queue. -/
structure RemoteEntry (w : Nat) where
  ptr : Nat
  layout : NonZeroLayout w
  deriving DecidableEq

inductive BatchPolicy
  | fixed (n : Nat)
  | adaptive

/-- `ADAPTIVE_LEVELS`. -/
def adaptiveLevels : Fin 5 → Nat := ![8, 16, 32, 64, 128]

/-- `ADAPTIVE_COOLDOWN_TICKS`. -/
def adaptiveCooldownTicks : Nat := 16

/-- The index into the levels, and the ticks before it may change again. -/
structure AdaptiveState where
  step : Fin 5
  cooldown : Nat

namespace AdaptiveState

def initial : AdaptiveState := ⟨3, 0⟩

def threshold (s : AdaptiveState) : Nat := adaptiveLevels s.step

/-- `adaptive_threshold`, up to the store of the new state: one tick of the controller. -/
def tick (w cap pending : Nat) (s : AdaptiveState) : AdaptiveState :=
  if 0 < s.cooldown then { s with cooldown := s.cooldown - 1 }
  else if saturatingMul w cap 3 < saturatingMul w pending 4 ∧ 0 < s.step.val then
    ⟨⟨s.step.val - 1, (Nat.sub_le _ _).trans_lt s.step.isLt⟩, adaptiveCooldownTicks⟩
  else if h : saturatingMul w pending 4 < cap ∧ s.step.val < 4 then
    ⟨⟨s.step.val + 1, Nat.succ_lt_succ h.2⟩, adaptiveCooldownTicks⟩
  else s

end AdaptiveState

variable {w : Nat} {β : Type} {T : RustType w}

/-- The state the owner and the remotes share. -/
structure SlabInner (T : RustType w) (β : Type) where
  slab : Slab T β
  queueCapacity : Nat
  /-- The remote-free queue, the oldest entry first. -/
  remoteQueue : List (RemoteEntry w)
  /-- Mirror of the length of the queue, written under the lock. -/
  remoteQueueLen : Nat
  closed : Bool

structure SlabOwner (T : RustType w) (β : Type) extends SlabInner T β where
  batchPolicy : BatchPolicy
  adaptive : AdaptiveState

namespace SlabOwner

/-- `SlabOwner::with_batch_policy`. The slab is one without freelist protection. -/
def withBatchPolicy (A : Allocator w β) (R : FixedRange β) (T : RustType w) (capacity : Nat)
    (batchPolicy : BatchPolicy) (queueCapacity : Nat) (h : Heap β) :
    Option (Heap (SlabOwner T β)) := do
  let g ← Slab.withProtection A R T capacity .none h
  some ⟨⟨⟨g.alloc, queueCapacity, [], 0, false⟩, batchPolicy, .initial⟩, g.mem⟩

/-- The shared state goes into its `Arc`. This is a move of the slab, the only one. -/
def intoArc (R : FixedRange β) (b : β) (h : Heap (SlabOwner T β)) : Heap (SlabOwner T β) :=
  let old := h.alloc.slab.backing
  ⟨{ h.alloc with slab := h.alloc.slab.moveTo b },
    copyBytes h.mem (R.base old) (R.base b) (R.size b)⟩

/-- An address the value may move to. -/
structure MayMoveTo (w : Nat) (R : FixedRange β) (old b : β) : Prop where
  size_eq : R.size b = R.size old
  base_pos : 0 < R.base b
  inSpace : R.base b + R.size b ≤ 2 ^ w

/-! ## The critical sections -/

/-- The critical section of `drain` and of the slow path of `maybe_drain`. -/
def takeQueue (s : SlabOwner T β) : List (RemoteEntry w) × SlabOwner T β :=
  if s.remoteQueue.isEmpty then ([], s)
  else (s.remoteQueue, { s with remoteQueue := [], remoteQueueLen := 0 })

/-- The critical section of the owner's drop. -/
def close (s : SlabOwner T β) : List (RemoteEntry w) × SlabOwner T β :=
  (s.remoteQueue, { s with remoteQueue := [], remoteQueueLen := 0, closed := true })

/-- `SlabRemote::try_deallocate`: whether the entry was accepted. -/
def tryDeallocate (e : RemoteEntry w) (s : SlabOwner T β) : Bool × SlabOwner T β :=
  if s.closed = true then (false, s)
  else if s.queueCapacity ≤ s.remoteQueue.length then (false, s)
  else
    let q := s.remoteQueue ++ [e]
    (true, { s with remoteQueue := q, remoteQueueLen := q.length })

/-! ## The owner's calls -/

/-- The threshold for an observed queue depth. Under the adaptive policy this is a tick. -/
def threshold (pending : Nat) (s : SlabOwner T β) : Nat × SlabOwner T β :=
  match s.batchPolicy with
  | .fixed n => (n, s)
  | .adaptive =>
      let st := s.adaptive.tick w s.queueCapacity pending
      (st.threshold, { s with adaptive := st })

/-- The inner slab. -/
def slabHeap (h : Heap (SlabOwner T β)) : Heap (Slab T β) := ⟨h.alloc.slab, h.mem⟩

/-- A call of the inner slab. -/
def onSlab (f : Heap (Slab T β) → Heap (Slab T β)) (h : Heap (SlabOwner T β)) :
    Heap (SlabOwner T β) :=
  let g := f (slabHeap h)
  ⟨{ h.alloc with slab := g.alloc }, g.mem⟩

def freeEntry (R : FixedRange β) (h : Heap (SlabOwner T β)) (e : RemoteEntry w) :
    Heap (SlabOwner T β) := onSlab (Slab.deallocate R e.ptr e.layout) h

/-- The second phase of a drain, after the lock is released. -/
def freeAll (R : FixedRange β) (entries : List (RemoteEntry w)) (h : Heap (SlabOwner T β)) :
    Heap (SlabOwner T β) := entries.foldl (freeEntry R) h

def drain (R : FixedRange β) (h : Heap (SlabOwner T β)) : Heap (SlabOwner T β) :=
  let (entries, s) := h.alloc.takeQueue
  freeAll R entries ⟨s, h.mem⟩

/-- `maybe_drain`, where the load of the mirror returns `pending`. -/
def maybeDrain (R : FixedRange β) (pending : Nat) (contended : Bool)
    (h : Heap (SlabOwner T β)) : Heap (SlabOwner T β) :=
  let (threshold, s) := h.alloc.threshold pending
  if pending < threshold then ⟨s, h.mem⟩
  else if contended = true then ⟨s, h.mem⟩
  else
    let (entries, s) := s.takeQueue
    freeAll R entries ⟨s, h.mem⟩

def deallocate (R : FixedRange β) (pending : Nat) (contended : Bool) (e : RemoteEntry w)
    (h : Heap (SlabOwner T β)) : Heap (SlabOwner T β) :=
  freeEntry R (maybeDrain R pending contended h) e

def allocateSlab (R : FixedRange β) (l : NonZeroLayout w) (h : Heap (SlabOwner T β)) :
    Option Block × Heap (SlabOwner T β) :=
  let (r, g) := Slab.allocate R l (slabHeap h)
  (r, ⟨{ h.alloc with slab := g.alloc }, g.mem⟩)

/-- A first attempt that fails is repeated after a drain. -/
def allocate (R : FixedRange β) (pending : Nat) (contended : Bool) (l : NonZeroLayout w)
    (h : Heap (SlabOwner T β)) : Option Block × Heap (SlabOwner T β) :=
  match allocateSlab R l (maybeDrain R pending contended h) with
  | (some b, h) => (some b, h)
  | (none, h) => allocateSlab R l (drain R h)

/-- `usable_size`. -/
def usableSize (_ptr : Nat) (_l : NonZeroLayout w) (h : Heap (SlabOwner T β)) : Option Nat :=
  some h.alloc.slab.blockStride

/-! ## The inner slab -/

variable {R : FixedRange β} {h h' : Heap (SlabOwner T β)} {n : Nat} {ptrs : List Nat}
  {l : NonZeroLayout w} {b : Block} {e : RemoteEntry w}

theorem freeEntry_blocks (hb : Slab.Outstanding R (slabHeap h) n (e.ptr :: ptrs)) :
    Slab.Outstanding R (slabHeap (freeEntry R h e)) n ptrs :=
  (Slab.Outstanding.deallocate (l := e.layout) hb).1

/-- An allocation changes the slab only. -/
theorem allocateSlab_some (hb : Slab.Outstanding R (slabHeap h) n ptrs)
    (heq : allocateSlab R l h = (some b, h')) :
    Slab.allocate R l (slabHeap h) = (some b, slabHeap h') ∧
      Slab.Outstanding R (slabHeap h') n (b.ptr :: ptrs) ∧
      ∃ slab, h' = ⟨{ h.alloc with slab := slab }, h.mem⟩ := by
  rcases hcall : Slab.allocate R l (slabHeap h) with ⟨r, g⟩
  simp only [allocateSlab, hcall, Prod.mk.injEq] at heq
  obtain ⟨rfl, rfl⟩ := heq
  obtain ⟨-, -, hblocks, -, hmem⟩ := hb.allocate_some hcall
  have hmem' : g.mem = h.mem := hmem
  exact ⟨rfl, hblocks, g.alloc, by rw [hmem']⟩

theorem allocateSlab_none (hb : Slab.Outstanding R (slabHeap h) n ptrs)
    (heq : allocateSlab R l h = (none, h')) :
    h' = h ∧ (h.alloc.slab.FitsSlot l → ptrs.length = n) := by
  rcases hcall : Slab.allocate R l (slabHeap h) with ⟨r, g⟩
  simp only [allocateSlab, hcall, Prod.mk.injEq] at heq
  obtain ⟨rfl, rfl⟩ := heq
  obtain ⟨hsame, hfull⟩ := hb.allocate_none hcall
  subst hsame
  exact ⟨rfl, hfull⟩

end SlabOwner

end ForgeAlloc
