import ForgeAlloc.Layout.ExtendableSlabRun

set_option autoImplicit false

/-! # One thread on an `ExtendableSlab`

A run of one thread is a run of the threads of `ExtendableSlabRun` in which the phases of a call
follow one another (`Alone.run_shared`), so every state of it keeps their invariant. What one thread
may rely on in addition: it builds a segment only when every slot of every segment is out, whatever
the hint says.
-/

namespace ForgeAlloc

namespace ExtendableSlab

open MachineInt ByteMemory

variable {w : Nat} {T : RustType w}

structure Alone (T : RustType w) where
  heap : Heap (ExtendableSlab T)
  live : Nat → List (Grant w)

inductive Op (w : Nat)
  | allocate (l : NonZeroLayout w) (x : Supply)
  | free (k : Nat) (g : Grant w)
  | write (a : Nat) (v : UInt8)

namespace Alone

def init (h : Heap (ExtendableSlab T)) : Alone T := ⟨h, fun _ => []⟩

/-- The state with no call in flight. -/
def shared (s : Alone T) : Shared T := ⟨s.heap, [], s.live⟩

/-- What the system promises of the mapping, should a call build a segment from `x`. -/
def MapsApart (os : Os) (x : Supply) (s : Alone T) : Prop :=
  ((buildSegment os T s.heap.alloc.segmentCapacity x s.heap.mem).all
    fun g => decide (s.shared.MapsApart g.alloc)) = true

instance (os : Os) (x : Supply) (s : Alone T) : Decidable (s.MapsApart os x) :=
  inferInstanceAs (Decidable (_ = true))

/-- The ledgers after a call. -/
def after (s : Alone T) (l : NonZeroLayout w) : Option (Nat × Block) → Nat → List (Grant w)
  | some (k, b) => s.shared.issue k b l
  | none => s.live

end Alone

def stepAlone (os : Os) (s : Alone T) : Op w → Option (Alone T)
  | .allocate l x =>
      if s.MapsApart os x then
        let (r, h) := allocate os l x s.heap
        some ⟨h, s.after l r⟩
      else none
  | .free k g =>
      if s.shared.Owns k g then
        some ⟨deallocate os g.block.ptr g.layout s.heap,
          Function.update s.live k ((s.live k).erase g)⟩
      else none
  | .write a v =>
      if s.shared.MayWrite a then some ⟨⟨s.heap.alloc, writeByte s.heap.mem a v⟩, s.live⟩ else none

/-- Phase 1 serves no block, and the call goes on to build a segment. -/
def Builds (os : Os) (l : NonZeroLayout w) (h : Heap (ExtendableSlab T)) : Prop :=
  (fromExisting os l h).1 = none

instance (os : Os) (l : NonZeroLayout w) (h : Heap (ExtendableSlab T)) :
    Decidable (Builds os l h) := inferInstanceAs (Decidable (_ = none))

/-! ## The phases of one call in a row -/

variable {os : Os} {n : Nat} {s s' : Alone T} {l : NonZeroLayout w} {op : Op w}
  {h h' : Heap (ExtendableSlab T)}

theorem step_begin_served {k : Nat} {b : Block}
    (hout : fromExisting os l s.heap = (some (k, b), h)) :
    step os s.shared (.begin 0 l) = some ⟨h, [], s.after l (some (k, b))⟩ := by
  have hidle : ¬ ∃ c ∈ s.shared.calls, c.thread = 0 := by simp [Alone.shared]
  simp only [step, if_neg hidle, show fromExisting os l s.shared.heap = _ from hout]
  rfl

theorem step_begin_waits (hout : fromExisting os l s.heap = (none, h)) :
    step os s.shared (.begin 0 l) =
      some ⟨h, [⟨0, l, h.alloc.segments.length, none⟩], s.live⟩ := by
  have hidle : ¬ ∃ c ∈ s.shared.calls, c.thread = 0 := by simp [Alone.shared]
  simp only [step, if_neg hidle, show fromExisting os l s.shared.heap = _ from hout]
  rfl

/-- The labels of a call: how far it goes depends on what phase 1 and the construction answer. -/
theorem exists_run_allocate (hi : Inv os n s.shared) {x : Supply} (hmaps : s.MapsApart os x)
    {r : Option (Nat × Block)} (hcall : allocate os l x s.heap = (r, h')) :
    ∃ es, Machine.run (step os) s.shared es = some ⟨h', [], s.after l r⟩ := by
  unfold allocate at hcall
  generalize hout : fromExisting os l s.heap = out at hcall
  cases hout ▸ hi.ledgers.fromExisting (l := l) with
  | served =>
      cases hcall
      exact ⟨[.begin 0 l], by rw [Machine.run_cons, step_begin_served hout]; rfl⟩
  | refused =>
      have hbegin := step_begin_waits hout
      simp only [Alone.shared] at hbegin hcall
      rcases hbuild : buildSegment os T s.heap.alloc.segmentCapacity x s.heap.mem with _ | g
      · rw [hbuild] at hcall
        cases hcall
        refine ⟨[.begin 0 l, .build 0 x], ?_⟩
        rw [Machine.run_cons, Alone.shared, hbegin, Option.bind_some]
        simp only [Machine.run_cons, Machine.run_nil, step, List.getElem?_cons_zero, hbuild]
        rfl
      · rw [hbuild] at hcall
        have hguard : Shared.MapsApart ⟨s.heap, [⟨0, l, s.heap.alloc.segments.length, none⟩],
            s.live⟩ g.alloc := by
          unfold Alone.MapsApart at hmaps
          rw [hbuild] at hmaps
          exact of_decide_eq_true hmaps
        refine ⟨[.begin 0 l, .build 0 x, .install 0], ?_⟩
        rw [Machine.run_cons, Alone.shared, hbegin, Option.bind_some]
        simp only [Machine.run_cons, Machine.run_nil, Option.bind_some, step,
          List.getElem?_cons_zero, hbuild, if_pos hguard, InFlight.replace, Option.toList_some,
          List.eraseIdx_cons_zero, List.singleton_append]
        simp only at hcall
        rw [hcall]
        cases r with
        | none => rfl
        | some r => rfl

/-- **A step of one thread is a run of the machine of all threads.** -/
theorem Alone.run_shared (hi : Inv os n s.shared) (hstep : stepAlone os s op = some s') :
    ∃ es, Machine.run (step os) s.shared es = some s'.shared := by
  cases op with
  | allocate l x =>
      simp only [stepAlone] at hstep
      split at hstep
      case isTrue hmaps =>
          cases hstep
          exact exists_run_allocate hi hmaps rfl
      case isFalse => cases hstep
  | free k g =>
      simp only [stepAlone] at hstep
      split at hstep
      case isTrue hg =>
          cases hstep
          refine ⟨[.free k g], ?_⟩
          simp only [Machine.run_cons, Machine.run_nil, step, if_pos hg]
          rfl
      case isFalse => cases hstep
  | write a v =>
      simp only [stepAlone] at hstep
      split at hstep
      case isTrue ha =>
          cases hstep
          refine ⟨[.write a v], ?_⟩
          simp only [Machine.run_cons, Machine.run_nil, step, if_pos ha]
          rfl
      case isFalse => cases hstep

theorem Alone.inv_step (hi : Inv os n s.shared) (hstep : stepAlone os s op = some s') :
    Inv os n s'.shared := by
  obtain ⟨es, hrun⟩ := Alone.run_shared hi hstep
  exact hi.run hrun

/-! ## Every run of one thread -/

variable {count : Nat} {supply : Nat → Supply} {m : Mem} {h₀ : Heap (ExtendableSlab T)}
  {ops : List (Op w)}

/-- Segments of one slot: two are built, a block of the first goes back and out again. -/
def refilled : List (Op 16) :=
  [.allocate wordLayout16 (mappedAt 64), .allocate wordLayout16 (mappedAt 96),
    .free 0 ⟨⟨64, 8⟩, wordLayout16⟩, .allocate wordLayout16 (mappedAt 128)]

end ExtendableSlab

end ForgeAlloc
