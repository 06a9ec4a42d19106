import ForgeAlloc.Hardening.FaultyRun

set_option autoImplicit false

/-! # Bulk reclaims

`Allocator::reset` takes back everything that is out. An arena moves its cursor back. `Faulty` hands
the call on without asking its policy, and so do the scrubbing wrappers, which scrub nothing then.
Every other allocator of the crate has the trait's `reset`, which refuses.

A client of such an arena, however it is wrapped, has a store of objects that a reset empties
(`ClientRun.resetting_run_refines`).
-/

namespace ForgeAlloc

open ByteMemory ObjectStore

variable {w : Nat} {ι : Type}

/-- `reset` of the trait, for `BumpArena`. -/
def BumpArena.allocatorReset {β : Type} (a : BumpArena β) : Option (BumpArena β) := some a.reset

/-- `Faulty::reset`, over an inner allocator with `reset`. -/
def Faulty.reset {σ ρ : Type} (reset : σ → Option σ) (s : Faulty σ ρ) : Option (Faulty σ ρ) :=
  (reset s.inner).map fun t => { s with inner := t }

/-- `reset` of `PoisonOnFree` and `ZeroizeOnFree`. -/
def Scrubber.reset {ω σ : Type} (S : Scrubber ω σ) (reset : σ → Option σ) (s : ω) : Option ω :=
  (reset (S.inner s)).map (S.put s)

/-- The cursor at 0 is in the range. -/
theorem BumpArena.Sound.reset {β : Type} {R : FixedRange β} {base : Nat} {a : BumpArena β}
    (hs : Sound w R base a) : Sound w R base a.reset where
  base_eq := hs.base_eq
  end_lt := hs.end_lt
  cursor_le := Nat.zero_le _

/-- The compositions that can be reset. -/
inductive Resettable : {σ : Type} → Component w σ → (σ → Option σ) → Prop
  | bumpArena {β : Type} {R : FixedRange β} {base : Nat} (hR : R.Lawful) (hbase : 0 < base)
      (c : Block) : Resettable (BumpArena.component w R base c) BumpArena.allocatorReset
  | faulty {σ ρ : Type} {C : Component w σ} {reset : σ → Option σ} (hC : Resettable C reset)
      (P : AllocFaultPolicy w ρ) :
      Resettable (C.forwarded (Faulty.forwarder P) ()) (Faulty.reset reset)
  | onFree {σ ω : Type} {C : Component w σ} {reset : σ → Option σ} (hC : Resettable C reset)
      (S : Scrubber ω σ) : Resettable (S.component C) (S.reset reset)

namespace Resettable

variable {σ : Type} {C : Component w σ} {reset : σ → Option σ} {h : Heap σ} {L : Set (Grant w)}

theorem lawful (hC : Resettable C reset) : C.Lawful := by
  induction hC with
  | bumpArena hR hbase c => exact BumpArena.lawful hR hbase c
  | faulty _ P ih => exact ih.forwarded (Faulty.forwarder P) ()
  | onFree _ S ih => exact S.lawful ih

theorem honours (hC : Resettable C reset) : Honours C.calls C.inv := by
  have hlawful := hC.lawful
  cases hC with
  | bumpArena hR hbase c => exact BumpArena.component_honours hR hbase
  | faulty | onFree => exact hlawful.honours_of_defaults rfl rfl

/-- **A reset succeeds**, and nothing is out after it. -/
theorem reset_spec (hC : Resettable C reset) (hinv : C.inv h L) :
    ∃ t, reset h.alloc = some t ∧ C.inv ⟨t, h.mem⟩ ∅ := by
  induction hC generalizing L with
  | bumpArena hR hbase c =>
      obtain ⟨hh, hblock⟩ := hinv
      exact ⟨_, rfl, BumpArena.holds_empty hh.sound.reset _, hblock⟩
  | faulty _ P ih =>
      obtain ⟨⟨K, -, hh⟩, -⟩ := hinv
      obtain ⟨t, hreset, hfresh⟩ := ih hh.inner
      refine ⟨{ h.alloc with inner := t }, ?_, Component.forwarded_fresh hfresh⟩
      exact congrArg (Option.map _) hreset
  | onFree _ S ih =>
      obtain ⟨t, hreset, hfresh⟩ := ih (h := S.heap h) hinv
      refine ⟨S.put h.alloc t, congrArg (Option.map _) hreset, ?_⟩
      rw [← S.heap_after h ⟨t, (S.heap h).mem⟩] at hfresh
      exact hfresh

end Resettable

inductive ResettingOp (w : Nat) (ι : Type)
  | call (op : ClientOp w ι)
  | reset

namespace ClientRun

variable {σ : Type} [DecidableEq ι] {C : Component w σ} {reset : σ → Option σ}
  {s s' : ClientRun w ι σ} {a : Store ι}

/-- A reset that succeeds takes all objects from the client. -/
def resettingStep (C : Component w σ) (reset : σ → Option σ) (s : ClientRun w ι σ) :
    ResettingOp w ι → Option (ClientRun w ι σ)
  | .call op => step C s op
  | .reset =>
      match reset s.heap.alloc with
      | none => some s
      | some t => some ⟨⟨t, s.heap.mem⟩, fun _ => none⟩

inductive ResettingDoes : ResettingOp w ι → Op ι → Prop
  | call {op : ClientOp w ι} {d : Op ι} (h : Does op d) : ResettingDoes (.call op) d
  | reset : ResettingDoes .reset .clear

theorem agrees_resettingStep (hC : Resettable C reset) (op : ResettingOp w ι) (h : Agrees C s a)
    (hstep : resettingStep C reset s op = some s') :
    ∃ d a', ResettingDoes op d ∧ ObjectStore.step a d = some a' ∧ Agrees C s' a' := by
  cases op with
  | call op =>
      obtain ⟨d, a', hdoes, hstore, hagrees⟩ := agrees_step hC.lawful hC.honours op h hstep
      exact ⟨d, a', .call hdoes, hstore, hagrees⟩
  | reset =>
      obtain ⟨t, hreset, hfresh⟩ := hC.reset_spec h.inv
      simp only [resettingStep, hreset] at hstep
      cases hstep
      exact ⟨.clear, ObjectStore.empty, .reset, rfl, agrees_start hfresh⟩

/-- **The client of an arena that it resets has a store of objects.** Let an arena be wrapped in
`Faulty`, `PoisonOnFree` and `ZeroizeOnFree`, in any order and number. Every run of requests, zeroed
requests, writes, resizes, frees and resets is a run of the store. Each reset empties it, each other
operation does what it says or is refused where it is a request. So no object that was there before
a reset is in the way of a later one, and the memory holds every byte that the store knows. -/
theorem resetting_run_refines (hC : Resettable C reset) {h : Heap σ} (hstart : C.inv h ∅)
    {ops : List (ResettingOp w ι)}
    (hrun : Machine.run (resettingStep C reset) ⟨h, fun _ => none⟩ ops = some s) :
    ∃ ds a, List.Forall₂ ResettingDoes ops ds ∧
      Machine.run ObjectStore.step ObjectStore.empty ds = some a ∧
      Represents s.heap.mem (place s.objects) a ∧
      ∀ i g, s.objects i = some g → Satisfies g.block g.layout ∧ g.block.bytes ⊆ C.territory ∧
        ∃ o, a i = some o ∧ o.size = g.layout.size := by
  obtain ⟨ds, a, hds, hstore, hagrees⟩ := Machine.run_simulation
    (fun s a op s' => agrees_resettingStep hC op) (agrees_start hstart) hrun
  exact ⟨ds, a, hds, hstore, hagrees.represents, fun i g hg => hagrees.object_spec hC.lawful hg⟩

/-- Poison over `Faulty` over an arena of a kilobyte. -/
def resettableArena : Component 64
    (PoisonOnFree (Faulty (BumpArena (InlineBacked 64 1024)) FailAfter)) :=
  PoisonOnFree.scrubber.component
    ((kilobyteAt 4096).forwarded (Faulty.forwarder FailAfter.policy) ())

def resettableStart : Heap (PoisonOnFree (Faulty (BumpArena (InlineBacked 64 1024)) FailAfter)) :=
  ⟨.new ⟨ScrubRun.emptyPages.alloc, .new 9⟩, fun _ => 0⟩

/-- The whole arena. -/
def kilobyte : NonZeroLayout 64 := .lit 64 1024 8 (Eq.refl true)

/-- The arena is given out whole, refuses a word, and is given out whole again after a reset. -/
theorem resetting_run_refines_kilobyte : ∃ s ds a,
    Machine.run (resettingStep resettableArena
        (PoisonOnFree.scrubber.reset (Faulty.reset BumpArena.allocatorReset)))
        ⟨resettableStart, fun _ => none⟩
        [.call (.allocate 0 kilobyte), .call (.allocate 1 ScrubRun.word), .call (.write 0 3 7),
          .reset, .call (.allocate 1 kilobyte)] = some s ∧
      (s.objects 0).isNone ∧ (s.objects 1).isSome ∧
      Machine.run ObjectStore.step (ObjectStore.empty : Store Nat) ds = some a ∧
      Represents s.heap.mem (place s.objects) a := by
  have hsome : (Machine.run (resettingStep resettableArena
      (PoisonOnFree.scrubber.reset (Faulty.reset BumpArena.allocatorReset)))
      ⟨resettableStart, fun _ => none⟩
      [.call (.allocate 0 kilobyte), .call (.allocate 1 ScrubRun.word), .call (.write 0 3 7),
        .reset, .call (.allocate 1 kilobyte)]).map
          (fun s => ((s.objects 0).isNone, (s.objects 1).isSome)) = some (true, true) := by
    decide +kernel
  obtain ⟨s, hrun, hobjects⟩ := Option.map_eq_some_iff.mp hsome
  obtain ⟨hnone, hone⟩ := Prod.mk.inj hobjects
  have hC : Resettable resettableArena _ :=
    .onFree (.faulty (.bumpArena (InlineBacked.range_lawful 64 1024) (by decide) ⟨4096, 1024⟩)
      FailAfter.policy) PoisonOnFree.scrubber
  have hfresh : resettableArena.inv resettableStart ∅ :=
    Component.forwarded_fresh (F := Faulty.forwarder FailAfter.policy)
      (BumpArena.component_fresh (b := InlineBacked.lit 64 1024 4096 (Eq.refl true)) rfl fun _ => 0)
  obtain ⟨ds, a, -, hstore, hrep, -⟩ := resetting_run_refines hC hfresh hrun
  exact ⟨s, ds, a, hrun, hnone, hone, hstore, hrep⟩

end ClientRun

end ForgeAlloc
