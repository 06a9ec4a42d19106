import ForgeAlloc.Core.Metering

set_option autoImplicit false

/-! # `Statistics`

Counters around the calls of an inner allocator. Every access to a counter is an atomic step of its
own, and so are the calls of the inner allocator; between any two steps of one call the other calls
in flight may move. `StatsPc` is the place of a call in its code, named after the next step.

The accesses are relaxed. A load may return any value its counter has had, a read-modify-write acts
on the newest one.

The resizes are the trait's: the new block is requested, the bytes are copied, the old block is
freed, each through the wrapper. `old` and `got` in a place of the code are the blocks that a resize
has in hand besides: the old block while the new one is requested, and the new one while the old one
is freed.
-/

namespace ForgeAlloc

open MachineInt ByteMemory InFlight

structure AllocStats where
  totalAllocations : Nat
  totalDeallocations : Nat
  bytesAllocated : Nat
  bytesPeak : Nat
  failures : Nat
  corruptionEvents : Nat

/-- `AllocStats::new`. -/
def AllocStats.new : AllocStats := ⟨0, 0, 0, 0, 0, 0⟩

/-- A call of the trait on the live block number `j`. -/
inductive StatsCall (w : Nat)
  | allocate (l : NonZeroLayout w)
  | deallocate (j : Nat)
  | grow (j : Nat) (new : NonZeroLayout w)
  | shrink (j : Nat) (new : NonZeroLayout w)

/-- The place of a call in its code, before the step it is named after. -/
inductive StatsPc (w : Nat)
  /-- `inner.allocate`. -/
  | allocate (l : NonZeroLayout w) (old : Option (Grant w))
  /-- `inner.corruption_events`, the first step of `mirror_corruption`; then `k`. -/
  | poll (k : StatsPc w)
  | loadMirror (v : Nat) (k : StatsPc w)
  | raiseMirror (v : Nat) (k : StatsPc w)
  /-- `total_allocations.fetch_add`. -/
  | countAllocation (g : Grant w) (old : Option (Grant w))
  /-- `bytes_allocated.fetch_add`. -/
  | addBytes (g : Grant w) (old : Option (Grant w))
  | loadPeak (g : Grant w) (new : Nat) (old : Option (Grant w))
  /-- `bytes_peak.fetch_max`. -/
  | raisePeak (g : Grant w) (new : Nat) (old : Option (Grant w))
  /-- `failures.fetch_add`. -/
  | countFailure (old : Option (Grant w))
  /-- `total_deallocations.fetch_add`. -/
  | countDeallocation (g : Grant w) (got : Option (Grant w))
  /-- `bytes_allocated.fetch_sub`. -/
  | subBytes (g : Grant w) (got : Option (Grant w))
  /-- `inner.deallocate`. -/
  | deallocate (g : Grant w) (got : Option (Grant w))

/-- A thread begins a call, or the call number `i` takes its next step. -/
inductive StatsStep (w : Nat)
  | call (c : StatsCall w)
  /-- `inner.allocate` returns `r`. -/
  | inner (i : Nat) (r : Option Block)
  /-- `inner.corruption_events` returns `v`. -/
  | poll (i v : Nat)
  /-- A load returns `v`. -/
  | load (i v : Nat)
  | advance (i : Nat)

structure StatsRun (w : Nat) where
  inner : Ledger w
  stats : AllocStats
  /-- The blocks the clients hold. -/
  live : List (Grant w)
  calls : List (StatsPc w)
  /-- The values that `bytes_allocated` has had, the newest first. -/
  bytes : List Nat
  /-- The values that `bytes_peak` has had. -/
  peaks : List Nat
  /-- The values that `corruption_events` has had. -/
  mirrors : List Nat
  /-- The number of calls begun. -/
  begun : Nat

namespace StatsRun

variable {w : Nat}

/-- `Statistics::new`. -/
def init (inner : Ledger w) : StatsRun w := ⟨inner, .new, [], [], [0], [0], [0], 0⟩

/-- The call number `i` goes on at `next`, or returns; the blocks `back` go to its client. -/
def move (s : StatsRun w) (i : Nat) (next : Option (StatsPc w)) (back : List (Grant w)) :
    StatsRun w :=
  { s with calls := replace s.calls i next, live := back ++ s.live }

/-- `allocate` returns the block `g`: to its client, or to the resize that goes on to free the old
block. -/
def allocated (s : StatsRun w) (i : Nat) (g : Grant w) : Option (Grant w) → StatsRun w
  | none => s.move i none [g]
  | some old => s.move i (some (.countDeallocation old (some g))) []

/-- The begin of a call. A resize has the preconditions of the trait. -/
def begin (s : StatsRun w) : StatsCall w → Option (StatsRun w)
  | .allocate l => some { s with calls := .allocate l none :: s.calls, begun := s.begun + 1 }
  | .deallocate j =>
      match s.live[j]? with
      | none => none
      | some g =>
          some { s with
            live := s.live.eraseIdx j
            calls := .countDeallocation g none :: s.calls
            begun := s.begun + 1 }
  | .grow j new =>
      match s.live[j]? with
      | none => none
      | some g =>
          if g.layout.size ≤ new.size ∧ g.layout.align = new.align then
            some { s with
              live := s.live.eraseIdx j
              calls := .allocate new (some g) :: s.calls
              begun := s.begun + 1 }
          else none
  | .shrink j new =>
      match s.live[j]? with
      | none => none
      | some g =>
          if new.size ≤ g.layout.size ∧ g.layout.align = new.align then
            some { s with
              live := s.live.eraseIdx j
              calls := .allocate new (some g) :: s.calls
              begun := s.begun + 1 }
          else none

/-- `inner.allocate` at the place `c` of the call number `i`. -/
def innerStep (s : StatsRun w) (i : Nat) (r : Option Block) : StatsPc w → Option (StatsRun w)
  | .allocate l old =>
      match r with
      | none => some (s.move i (some (.poll (.countFailure old))) [])
      | some b =>
          (s.inner.issue l b).map fun inner =>
            { s with inner := inner }.move i (some (.poll (.countAllocation ⟨b, l⟩ old))) []
  | _ => none

def loadStep (s : StatsRun w) (i v : Nat) : StatsPc w → Option (StatsRun w)
  | .loadMirror x k =>
      if v ∈ s.mirrors then
        some (s.move i (some (if v < x then .raiseMirror x k else k)) [])
      else none
  | .loadPeak g new old =>
      if v ∈ s.peaks then
        some (if v < new then s.move i (some (.raisePeak g new old)) [] else s.allocated i g old)
      else none
  | _ => none

def advanceStep (s : StatsRun w) (i : Nat) : StatsPc w → Option (StatsRun w)
  | .raiseMirror x k =>
      let events := max s.stats.corruptionEvents x
      some ({ s with
        stats := { s.stats with corruptionEvents := events }
        mirrors := events :: s.mirrors }.move i (some k) [])
  | .countAllocation g old =>
      some ({ s with
        stats := { s.stats with
          totalAllocations := wrappingAdd w s.stats.totalAllocations 1 } }.move i
            (some (.addBytes g old)) [])
  | .addBytes g old =>
      let prev := s.stats.bytesAllocated
      let bytes := wrappingAdd w prev g.layout.size
      let new := saturatingAdd w prev g.layout.size
      some ({ s with
        stats := { s.stats with bytesAllocated := bytes }
        bytes := bytes :: s.bytes }.move i (some (.loadPeak g new old)) [])
  | .raisePeak g new old =>
      let peak := max s.stats.bytesPeak new
      some ({ s with
        stats := { s.stats with bytesPeak := peak }
        peaks := peak :: s.peaks }.allocated i g old)
  | .countFailure old =>
      some ({ s with
        stats := { s.stats with failures := wrappingAdd w s.stats.failures 1 } }.move i none
          old.toList)
  | .countDeallocation g got =>
      some ({ s with
        stats := { s.stats with
          totalDeallocations := wrappingAdd w s.stats.totalDeallocations 1 } }.move i
            (some (.subBytes g got)) [])
  | .subBytes g got =>
      let bytes := wrappingSub w s.stats.bytesAllocated g.layout.size
      some ({ s with
        stats := { s.stats with bytesAllocated := bytes }
        bytes := bytes :: s.bytes }.move i (some (.poll (.deallocate g got))) [])
  | .deallocate g got => some ({ s with inner := s.inner.take g }.move i none got.toList)
  | _ => none

def step (s : StatsRun w) : StatsStep w → Option (StatsRun w)
  | .call c => s.begin c
  | .inner i r => (s.calls[i]?).bind fun c => s.innerStep i r c
  | .poll i v =>
      match s.calls[i]? with
      | some (.poll k) => some (s.move i (some (.loadMirror (min v (2 ^ w - 1)) k)) [])
      | _ => none
  | .load i v => (s.calls[i]?).bind fun c => s.loadStep i v c
  | .advance i => (s.calls[i]?).bind fun c => s.advanceStep i c

end StatsRun

/-! ## What a call holds -/

namespace StatsPc

variable {w : Nat}

/-- The blocks that are out and in the hands of the call. -/
@[simp] def holds : StatsPc w → List (Grant w)
  | .allocate _ old | .countFailure old => old.toList
  | .poll k | .loadMirror _ k | .raiseMirror _ k => k.holds
  | .countAllocation g old | .addBytes g old | .loadPeak g _ old | .raisePeak g _ old =>
      g :: old.toList
  | .countDeallocation g got | .subBytes g got | .deallocate g got => g :: got.toList

/-- Those that `bytes_allocated` includes. -/
@[simp] def counted : StatsPc w → List (Grant w)
  | .allocate _ old | .countFailure old | .countAllocation _ old | .addBytes _ old => old.toList
  | .poll k | .loadMirror _ k | .raiseMirror _ k => k.counted
  | .loadPeak g _ old | .raisePeak g _ old => g :: old.toList
  | .countDeallocation g got | .subBytes g got => g :: got.toList
  | .deallocate _ got => got.toList

/-- Those that `total_allocations` has counted and `total_deallocations` has not. -/
@[simp] def tallied : StatsPc w → List (Grant w)
  | .allocate _ old | .countFailure old | .countAllocation _ old => old.toList
  | .poll k | .loadMirror _ k | .raiseMirror _ k => k.tallied
  | .addBytes g old | .loadPeak g _ old | .raisePeak g _ old => g :: old.toList
  | .countDeallocation g got => g :: got.toList
  | .subBytes _ got | .deallocate _ got => got.toList

/-- The increments of `total_allocations` that the call may still make. -/
@[simp] def allocationsLeft : StatsPc w → Nat
  | .allocate _ _ | .countAllocation _ _ => 1
  | .poll k | .loadMirror _ k | .raiseMirror _ k => k.allocationsLeft
  | _ => 0

/-- The increments of `total_deallocations` that the call may still make. -/
@[simp] def deallocationsLeft : StatsPc w → Nat
  | .allocate _ old | .countAllocation _ old | .addBytes _ old | .loadPeak _ _ old
  | .raisePeak _ _ old => old.toList.length
  | .poll k | .loadMirror _ k | .raiseMirror _ k => k.deallocationsLeft
  | .countDeallocation _ _ => 1
  | _ => 0

/-- The value that the call may still raise the peak to. -/
@[simp] def pendingPeak : StatsPc w → Nat
  | .loadPeak _ new _ | .raisePeak _ new _ => new
  | .poll k | .loadMirror _ k | .raiseMirror _ k => k.pendingPeak
  | _ => 0

theorem counted_sublist (c : StatsPc w) : c.counted.Sublist c.holds := by
  induction c with
  | allocate | countFailure | loadPeak | raisePeak | countDeallocation | subBytes =>
      exact List.Sublist.refl _
  | poll k ih | loadMirror v k ih | raiseMirror v k ih => exact ih
  | countAllocation | addBytes | deallocate => exact List.sublist_cons_self _ _

end StatsPc

end ForgeAlloc
