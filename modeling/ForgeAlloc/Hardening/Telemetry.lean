import ForgeAlloc.Hardening.StackClient

set_option autoImplicit false

/-! # What a composition says about itself

`corruption_events` says how often an allocator has found its own metadata broken, `capacity_bytes`
how much it can have out. Slabs and size classes count links that do not verify, an `ExtendableSlab`
also counts frees that no segment takes. All others hand the questions on or answer for themselves.

`Metered` pairs a composition with its answers, with the counters that the first one is made of, and
with the ranges that the second one is about.
-/

namespace ForgeAlloc

open MachineInt ByteMemory

variable {w : Nat}

/-! ## A fact that the calls keep -/

namespace Component

variable {σ : Type} {C : Component w σ} {Q : σ → Prop}

/-- The component, where `Q` holds of its value. -/
def restricted (C : Component w σ) (Q : σ → Prop) : Component w σ :=
  { C with inv := fun h L => C.inv h L ∧ Q h.alloc }

theorem Lawful.restricted (hC : C.Lawful)
    (halloc : ∀ {h L l}, C.inv h L → Q h.alloc → Q (C.calls.allocate l h).2.alloc)
    (hdealloc : ∀ {h L g}, C.inv h L → g ∈ L → Q h.alloc →
      Q (C.calls.deallocate g.block.ptr g.layout h).alloc)
    (hremote : ∀ {h L g h'}, C.inv h L → g ∈ L →
      C.remoteFree g.block.ptr g.layout h = some h' → Q h.alloc → Q h'.alloc) :
    (C.restricted Q).Lawful where
  toHonoursCore := hC.toHonoursCore.restrict halloc hdealloc
  subset := fun hinv hg => hC.subset hinv.1 hg
  allocate_frame := fun hinv => hC.allocate_frame hinv.1
  deallocate_frame := fun hinv hg => hC.deallocate_frame hinv.1 hg
  mem_congr := fun hinv hm => ⟨hC.mem_congr hinv.1 hm, hinv.2⟩
  range_spec := fun hR => ⟨(hC.range_spec hR).1, fun hinv => (hC.range_spec hR).2 hinv.1⟩
  answer_eq := fun hinv hg => hC.answer_eq hinv.1 hg
  answer_le := fun hinv hg hn => hC.answer_le hinv.1 hg hn
  roomy_iff := fun hinv hcall => hC.roomy_iff hinv.1 hcall
  leaks_iff := fun hinv hcall => hC.leaks_iff hinv.1 hcall
  remote_free := by
    intro h L g h' hinv hg hfree
    obtain ⟨hinv', hmem⟩ := hC.remote_free hinv.1 hg hfree
    exact ⟨⟨hinv', hremote hinv.1 hg hfree hinv.2⟩, hmem⟩

end Component

/-! ## The answers -/

structure Telemetry (σ : Type) where
  corruptionEvents : σ → Nat
  /-- The counters below the allocator. -/
  counters : σ → List Nat
  capacityBytes : σ → Option Nat
  /-- The ranges that the capacity is about. -/
  home : σ → List Block
  /-- Blocks may lie elsewhere. -/
  overflows : Bool

/-- A wrapper that asks its inner allocator. -/
def Telemetry.through {ω σ : Type} (t : Telemetry σ) (inner : ω → σ) : Telemetry ω where
  corruptionEvents := fun s => t.corruptionEvents (inner s)
  counters := fun s => t.counters (inner s)
  capacityBytes := fun s => t.capacityBytes (inner s)
  home := fun s => t.home (inner s)
  overflows := t.overflows

/-- An arena has no metadata to check. Its capacity is its size. -/
def FixedRange.telemetry {β : Type} (R : FixedRange β) : Telemetry β where
  corruptionEvents := fun _ => 0
  counters := fun _ => []
  capacityBytes := fun s => some (R.size s)
  home := fun s => [R.block s]
  overflows := false

def Slab.telemetry {β : Type} (T : RustType w) (R : FixedRange β) : Telemetry (Slab T β) where
  corruptionEvents := fun s => s.corruptionEvents
  counters := fun s => [s.corruptionEvents]
  capacityBytes := fun s => some (s.capacity * s.blockStride)
  home := fun s => [(range T R).block s]
  overflows := false

namespace ExtendableSlab

variable {T : RustType w}

/-- `ExtendableSlab::corruption_events`. -/
def corruptionEvents (s : ExtendableSlab T) : Nat :=
  (s.segments.map fun seg => seg.corruptionEvents).foldl (saturatingAdd 64) s.routingFailures

/-- `ExtendableSlab::capacity_bytes`. -/
def capacityBytes (s : ExtendableSlab T) : Option Nat :=
  some ((s.segments.map fun seg => seg.capacity * seg.blockStride).foldl (wrappingAdd w) 0)

def telemetry (os : Os) (T : RustType w) : Telemetry (ExtendableSlab T) where
  corruptionEvents := corruptionEvents
  counters := fun s => s.routingFailures :: s.segments.map fun seg => seg.corruptionEvents
  capacityBytes := capacityBytes
  home := fun s => s.segments.map (Slab.range T (MmapBacked.range w os)).block
  overflows := false

end ExtendableSlab

namespace SizeClassed

variable {β : Type} {n : Nat}

def classCounters (s : SizeClassed w n β) : List Nat :=
  (List.finRange n).map fun i => (s.slabs i).corruptionEvents

/-- `SizeClassed::corruption_events`, over a backing that answers `ofBacking`. -/
def corruptionEvents (ofBacking : β → Nat) (s : SizeClassed w n β) : Nat :=
  saturatingAdd 64 s.classCorruption (ofBacking s.backing)

/-- `SizeClassed::capacity_bytes`, without the backing. -/
def capacityBytes (s : SizeClassed w n β) : Option Nat :=
  ((List.finRange n).map fun i => (s.slabs i).capacity * (s.slabs i).blockStride).foldlM
    (checkedAdd w) 0

/-- The region of a class. -/
def classBlock (R : FixedRange β) (s : SizeClassed w n β) (i : Fin n) : Block :=
  ⟨(s.slabs i).basePtr (R.base s.backing), (s.slabs i).capacity * (s.slabs i).blockStride⟩

def telemetry (R : FixedRange β) (n : Nat) (t : Telemetry β) :
    Telemetry (SizeClassed w n β) where
  corruptionEvents := corruptionEvents t.corruptionEvents
  counters := fun s => s.classCounters ++ t.counters s.backing
  capacityBytes := capacityBytes
  home := fun s => (List.finRange n).map (s.classBlock R)
  overflows := true

end SizeClassed

namespace WithFallback

variable {π σ : Type}

/-- `WithFallback::corruption_events`, over halves that answer `ofPrimary` and `ofSecondary`. -/
def corruptionEvents (ofPrimary : π → Nat) (ofSecondary : σ → Nat) (s : WithFallback π σ) : Nat :=
  saturatingAdd 64 (ofPrimary s.primary) (ofSecondary s.secondary)

/-- The capacity is that of the primary. -/
def telemetry (t : Telemetry π) (u : Telemetry σ) : Telemetry (WithFallback π σ) where
  corruptionEvents := corruptionEvents t.corruptionEvents u.corruptionEvents
  counters := fun s => t.counters s.primary ++ u.counters s.secondary
  capacityBytes := fun s => t.capacityBytes s.primary
  home := fun s => t.home s.primary
  overflows := true

end WithFallback

/-- A growing slab that has routed every free. -/
def ExtendableSlab.Growing.routed (os : Os) (T : RustType w) (n : Nat) (Z : Set Nat)
    (sys : System T) : Component w (Growing T) :=
  (component os T n Z sys).restricted fun s => s.slab.routingFailures = 0

/-- The compositions of the crate, with what they answer. What `Stack` leaves out is left out here:
`GuardPage`, and `System`, `InlineBacked`, `HugePageBacked` and `LockedMmapBacked` but as the backing
of an arena. -/
inductive Metered : {σ : Type} → Component w σ → Telemetry σ → Prop
  | bumpArena {β : Type} {R : FixedRange β} {base : Nat} (hR : R.Lawful) (hbase : 0 < base)
      (c : Block) : Metered (BumpArena.component w R base c) (BumpArena.range R).telemetry
  | stackAlloc {β : Type} {R : FixedRange β} {base : Nat} (hR : R.Lawful) (hbase : 0 < base)
      (c : Block) : Metered (StackAlloc.component w R base c) (StackAlloc.debugRange R).telemetry
  | sharedBumpArena {β τ : Type} [DecidableEq τ] {R : FixedRange β} {arena : SharedBumpArena β}
      (hbase : 0 < R.base arena.backing) (hend : R.base arena.backing + arena.capacity ≤ 2 ^ w)
      (c : Block) :
      Metered (SharedBumpArena.Handle.component (τ := τ) R arena c)
        (SharedBumpArena.Handle.range R).telemetry
  | mmapBacked (os : Os) {base : Nat} (hbase : 0 < base) (c : Block) :
      Metered (MmapBacked.component w os base c) (MmapBacked.range w os).telemetry
  | slab {β : Type} (T : RustType w) (R : FixedRange β) (n : Nat) (c : Block) :
      Metered (Slab.component T R n c) (Slab.telemetry T R)
  | slabOwner {β : Type} (T : RustType w) (R : FixedRange β) (n : Nat) (c : Block) :
      Metered (OwnerView.component T R n c) ((Slab.telemetry T R).through fun v => v.owner.slab)
  | extendableSlab {os : Os} {T : RustType w} {n : Nat} {Z : Set Nat}
      {sys : ExtendableSlab.System T} (hsys : ExtendableSlab.MapsInto os n Z sys) :
      Metered (ExtendableSlab.Growing.routed os T n Z sys)
        ((ExtendableSlab.telemetry os T).through ExtendableSlab.Growing.slab)
  | sizeClassed {β : Type} {C : Component w β} {t : Telemetry β} {R : FixedRange β} {c : Block}
      {n : Nat} (hC : Metered C t) (hR : C.range = some (R, c)) (cap : Nat)
      (regions : Fin n → Grant w) :
      Metered (SizeClassed.component C R c cap regions) (SizeClassed.telemetry R n t)
  | withFallback {π σ : Type} {P : Component w π} {S : Component w σ} {t : Telemetry π}
      {u : Telemetry σ} {R : FixedRange π} {c : Block} (hP : Metered P t) (hS : Metered S u)
      (hR : P.range = some (R, c)) (hdisj : Disjoint P.territory S.territory) :
      Metered (WithFallback.component P R c S) (WithFallback.telemetry t u)
  | forwarder {σ ω κ : Type} {C : Component w σ} {t : Telemetry σ} (hC : Metered C t)
      (F : Forwarder w ω σ κ) (k : κ) : Metered (C.forwarded F k) (t.through F.inner)
  | quarantine {σ : Type} {C : Component w σ} {t : Telemetry σ} (hC : Metered C t) (E : Nat) :
      Metered (Quarantine.component C E) (t.through Quarantine.inner)
  | cacheJitter {σ : Type} {C : Component w σ} {t : Telemetry σ} (hC : Metered C t)
      (p : JitterParams w) : Metered (CacheJitter.component C p) (t.through CacheJitter.inner)
  | canary {σ : Type} {C : Component w σ} {t : Telemetry σ} (hC : Metered C t) (value : BitVec 64) :
      Metered (Canary.component C value) (t.through Canary.inner)
  | onFree {σ ω : Type} {C : Component w σ} {t : Telemetry σ} (hC : Metered C t)
      (S : Scrubber ω σ) : Metered (S.component C) (t.through S.inner)

namespace ExtendableSlab.Growing

variable {os : Os} {T : RustType w} {n : Nat} {Z : Set Nat} {sys : System T}

/-- No free of a block that is out misses its segment. -/
theorem routed_lawful (hsys : MapsInto os n Z sys) : (routed os T n Z sys).Lawful := by
  refine (lawful hsys).restricted ?_ ?_ ?_
  · rintro h L l ⟨live, rfl, ht⟩ hrouted
    have hcases := ht.inv.allocate (x := sys h.alloc.requests h.alloc.slab.segments) (l := l)
      fun t hbuild => (hsys _ _ _ t hbuild).1
    show (ExtendableSlab.allocate os l (sys h.alloc.requests h.alloc.slab.segments)
      (slabHeap h)).2.alloc.routingFailures = 0
    generalize ExtendableSlab.allocate os l (sys h.alloc.requests h.alloc.slab.segments)
      (slabHeap h) = out at hcases
    cases hcases with
    | served | pushed | refused => exact hrouted
  · rintro h L g ⟨live, rfl, ht⟩ ⟨k, hg⟩ hrouted
    obtain ⟨seg, hget⟩ := ht.inv.exists_segment hg
    have hcall := Ledgers.deallocate (l := g.layout) ht.inv.ledgers ht.inv.apart_segments hget hg
    show (ExtendableSlab.deallocate os g.block.ptr g.layout (slabHeap h)).alloc.routingFailures = 0
    rw [show ExtendableSlab.deallocate os g.block.ptr g.layout (slabHeap h) = _ from hcall]
    exact hrouted
  · rintro h L g h' - - ⟨⟩

end ExtendableSlab.Growing

namespace Metered

variable {σ : Type} {C : Component w σ} {t : Telemetry σ} {h : Heap σ} {L : Set (Grant w)}

theorem lawful (hC : Metered C t) : C.Lawful := by
  induction hC with
  | bumpArena hR hbase c => exact BumpArena.lawful hR hbase c
  | stackAlloc hR hbase c => exact StackAlloc.lawful hR hbase c
  | sharedBumpArena hbase hend c => exact SharedBumpArena.Handle.lawful hbase hend c
  | mmapBacked os hbase c => exact MmapBacked.lawful w os hbase c
  | slab T R n c => exact Slab.lawful T R n c
  | slabOwner T R n c => exact OwnerView.lawful T R n c
  | extendableSlab hsys => exact ExtendableSlab.Growing.routed_lawful hsys
  | sizeClassed _ hR cap regions ih => exact SizeClassed.lawful ih hR
  | withFallback _ _ hR hdisj ihP ihS => exact WithFallback.lawful ihP ihS hR hdisj
  | forwarder _ F k ih => exact ih.forwarded F k
  | quarantine _ E ih => exact Quarantine.lawful ih E
  | cacheJitter _ p ih => exact CacheJitter.lawful ih p
  | canary _ value ih => exact Canary.lawful ih value
  | onFree _ S ih => exact S.lawful ih

theorem honours (hC : Metered C t) : Honours C.calls C.inv := by
  have hlawful := hC.lawful
  cases hC with
  | bumpArena hR hbase c => exact BumpArena.component_honours hR hbase
  | stackAlloc | sharedBumpArena | mmapBacked | slab | slabOwner | extendableSlab | sizeClassed
  | withFallback | forwarder | quarantine | cacheJitter | canary | onFree =>
      exact hlawful.honours_of_defaults rfl rfl

end Metered

end ForgeAlloc
