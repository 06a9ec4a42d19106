import ForgeAlloc.Core.ClientView
import ForgeAlloc.Hardening.FaultPolicy
import ForgeAlloc.Hardening.StackClient

set_option autoImplicit false

/-! # Runs of `Faulty`

A request that the policy refuses consumes nothing. `Faulty` forwards no resize, so its resizes are
the default ones of the trait, whatever those of the allocator underneath do. A run of a client over
`Faulty` is a run over the allocator with the default resizes in place of its own
(`Component.withDefaults`), the refused requests left out (`ClientRun.faulty_run_permits`).

A `WithFallback` whose primary always fails is its secondary (`ClientRun.alwaysFail_run`).
-/

namespace ForgeAlloc

open ByteMemory

variable {w : Nat} {ι σ ρ π : Type}

namespace AllocFaultPolicy

/-- The operations that are left when the refused requests are left out. -/
def permits (P : AllocFaultPolicy w ρ) : ρ → List (ClientOp w ι) → List (ClientOp w ι)
  | _, [] => []
  | p, op :: ops =>
      match op.request with
      | none => op :: P.permits p ops
      | some l =>
          let (fails, p') := P.shouldFail l p
          if fails then P.permits p' ops else op :: P.permits p' ops

/-- The policy after it has been asked about the requests of the operations. -/
def after (P : AllocFaultPolicy w ρ) (p : ρ) (ops : List (ClientOp w ι)) : ρ :=
  (ops.filterMap ClientOp.request).foldl (fun p l => (P.shouldFail l p).2) p

variable {P : AllocFaultPolicy w ρ} {p : ρ} {op : ClientOp w ι} {ops : List (ClientOp w ι)}
  {l : NonZeroLayout w}

theorem permits_of_none (h : op.request = none) :
    P.permits p (op :: ops) = op :: P.permits p ops ∧ P.after p (op :: ops) = P.after p ops := by
  constructor
  · rw [permits, h]
  · rw [after, List.filterMap_cons_none h, after]

theorem after_of_some (h : op.request = some l) :
    P.after p (op :: ops) = P.after (P.shouldFail l p).2 ops := by
  rw [after, List.filterMap_cons_some h, List.foldl_cons, after]

theorem permits_of_fails (h : op.request = some l) (hfails : (P.shouldFail l p).1 = true) :
    P.permits p (op :: ops) = P.permits (P.shouldFail l p).2 ops := by
  rw [permits, h]
  exact if_pos hfails

theorem permits_of_passes (h : op.request = some l) (hfails : (P.shouldFail l p).1 = false) :
    P.permits p (op :: ops) = op :: P.permits (P.shouldFail l p).2 ops := by
  rw [permits, h]
  exact if_neg (by rw [hfails]; exact Bool.false_ne_true)

/-- A policy that does not change. -/
theorem permits_of_stateless {f : ρ → NonZeroLayout w → Bool}
    (hP : ∀ l p, P.shouldFail l p = (f p l, p)) (p : ρ) (ops : List (ClientOp w ι)) :
    P.permits p ops = ops.filter fun op => op.request.all fun l => !f p l := by
  induction ops with
  | nil => rfl
  | cons op ops ih =>
      cases hreq : op.request with
      | none => rw [(permits_of_none hreq).1, ih, List.filter_cons_of_pos (by simp [hreq])]
      | some l =>
          cases hf : f p l with
          | true =>
              rw [permits_of_fails hreq (by rw [hP, hf]), hP, ih,
                List.filter_cons_of_neg (by simp [hreq, hf])]
          | false =>
              rw [permits_of_passes hreq (by rw [hP, hf]), hP, ih,
                List.filter_cons_of_pos (by simp [hreq, hf])]

end AllocFaultPolicy

/-- `Faulty<I, NeverFail>` lets everything through. -/
theorem NeverFail.permits_eq (p : NeverFail) (ops : List (ClientOp w ι)) :
    policy.permits p ops = ops := by
  rw [AllocFaultPolicy.permits_of_stateless (f := fun _ _ => false) fun _ _ => rfl]
  refine List.filter_eq_self.mpr fun op _ => ?_
  cases op.request <;> rfl

theorem FailOnSize.permits_eq (p : FailOnSize) (ops : List (ClientOp w ι)) :
    policy.permits p ops =
      ops.filter fun op => op.request.all fun l => !decide (p.minFailBytes ≤ l.size) :=
  AllocFaultPolicy.permits_of_stateless (P := policy)
    (f := fun p l => decide (p.minFailBytes ≤ l.size)) (fun _ _ => rfl) p ops

namespace FailAfter

/-- The operations without the requests after the first `n`. -/
def firstRequests : Nat → List (ClientOp w ι) → List (ClientOp w ι)
  | _, [] => []
  | n, op :: ops =>
      match op.request, n with
      | none, n => op :: firstRequests n ops
      | some _, 0 => firstRequests 0 ops
      | some _, n + 1 => op :: firstRequests n ops

theorem permits_eq (n : Nat) (ops : List (ClientOp w ι)) :
    policy.permits (new n) ops = firstRequests n ops := by
  induction ops generalizing n with
  | nil => rfl
  | cons op ops ih =>
      cases hreq : op.request with
      | none =>
          rw [(AllocFaultPolicy.permits_of_none hreq).1, ih]
          simp only [firstRequests, hreq]
      | some l =>
          cases n with
          | zero =>
              rw [AllocFaultPolicy.permits_of_fails hreq rfl]
              simp only [firstRequests, hreq]
              exact ih 0
          | succ n =>
              rw [AllocFaultPolicy.permits_of_passes hreq rfl]
              simp only [firstRequests, hreq]
              exact congrArg (List.cons op) (ih n)

end FailAfter

namespace Faulty

variable {P : AllocFaultPolicy w ρ} {C : Component w σ} {h : Heap (Faulty σ ρ)} {l : NonZeroLayout w}

def component (P : AllocFaultPolicy w ρ) (C : Component w σ) : Component w (Faulty σ ρ) :=
  C.forwarded (forwarder P) ()

theorem allocate_of_fails (hfails : (P.shouldFail l h.alloc.policy).1 = true) :
    (component P C).calls.allocate l h =
      (none, ⟨{ h.alloc with policy := (P.shouldFail l h.alloc.policy).2 }, h.mem⟩) :=
  Forwarder.allocate_refused (F := forwarder P) hfails

theorem allocate_of_passes (hfails : (P.shouldFail l h.alloc.policy).1 = false) :
    (component P C).calls.allocate l h =
      let r := C.calls.allocate l (h.map inner)
      (r.1, ⟨⟨r.2.alloc, (P.shouldFail l h.alloc.policy).2⟩, r.2.mem⟩) :=
  Forwarder.allocate_forwarded (F := forwarder P) hfails rfl

/-- The frees go on to the inner allocator, and leave the policy alone. -/
theorem passes (P : AllocFaultPolicy w ρ) (C : Component w σ) (p : ρ) (B : Set (Grant w)) :
    ClientRun.Passes (component P C) C inner (fun s => s.policy = p) B where
  deallocate := fun _ hp => ⟨rfl, hp⟩
  remoteFree := by
    intro g h h' _ hp hfree
    change ((C.remoteFree g.block.ptr g.layout (h.map inner)).bind fun t =>
      some ⟨{ h.alloc with inner := t.alloc }, t.mem⟩) = some h' at hfree
    obtain ⟨t, ht, heq⟩ := Option.bind_eq_some_iff.mp hfree
    cases heq
    exact ⟨ht, hp⟩
  grow_eq := rfl
  shrink_eq := rfl

/-- A request that the policy lets through. -/
theorem passesRequest (hfails : (P.shouldFail l h.alloc.policy).1 = false) :
    ClientRun.PassesRequest (component P C) C inner
      (fun s => s.policy = (P.shouldFail l h.alloc.policy).2) l h where
  allocate := by rw [allocate_of_passes hfails]; rfl
  keeps := by rw [allocate_of_passes hfails]

end Faulty

namespace ClientRun

variable [DecidableEq ι] {P : AllocFaultPolicy w ρ} {C : Component w σ}
  {ops : List (ClientOp w ι)}

/-- **A refused request consumes nothing.** Whatever the policy and the allocator, each run of a
client over `Faulty` is the run of the operations that the policy permits over the allocator with
the trait's default resizes in place of its own: the allocator, the memory and what the client has
are the same in the end. -/
theorem faulty_run_permits {s s' : ClientRun w ι (Faulty σ ρ)}
    (hrun : Machine.run (step (Faulty.component P C)) s ops = some s') :
    Machine.run (step C.withDefaults) (s.map Faulty.inner) (P.permits s.heap.alloc.policy ops) =
        some (s'.map Faulty.inner) ∧
      s'.heap.alloc.policy = P.after s.heap.alloc.policy ops := by
  induction ops generalizing s with
  | nil =>
      rw [Machine.run_nil, Option.some.injEq] at hrun
      subst hrun
      exact ⟨rfl, rfl⟩
  | cons op ops ih =>
      rw [Machine.run_cons, Option.bind_eq_some_iff] at hrun
      obtain ⟨t, ht, hrest⟩ := hrun
      obtain ⟨hinner, hpolicy⟩ := ih hrest
      cases hreq : op.request with
      | none =>
          obtain ⟨hstep, hkeeps⟩ := step_map (Faulty.passes P C s.heap.alloc.policy _)
            (fun _ => rfl) (fun l hl => by simp [hreq] at hl) ht
          obtain ⟨hpermits, hafter⟩ := AllocFaultPolicy.permits_of_none hreq
          rw [hkeeps] at hinner hpolicy
          rw [hpermits, hafter, Machine.run_cons, hstep]
          exact ⟨hinner, hpolicy⟩
      | some l =>
          rw [AllocFaultPolicy.after_of_some hreq]
          cases hfails : (P.shouldFail l s.heap.alloc.policy).1 with
          | true =>
              have heq := step_of_none hreq (Faulty.allocate_of_fails hfails) rfl rfl ht
              subst heq
              rw [AllocFaultPolicy.permits_of_fails hreq hfails]
              exact ⟨hinner, hpolicy⟩
          | false =>
              have hpass := step_map (Faulty.passes P C (P.shouldFail l s.heap.alloc.policy).2 _)
                (fun hnone => by simp [hreq] at hnone)
                (fun l' hl' => by
                  rw [hreq, Option.some.injEq] at hl'
                  subst hl'
                  exact Faulty.passesRequest hfails) ht
              obtain ⟨hstep, hkeeps⟩ := hpass
              rw [hkeeps] at hinner hpolicy
              rw [AllocFaultPolicy.permits_of_passes hreq hfails, Machine.run_cons, hstep]
              exact ⟨hinner, hpolicy⟩

/-- An arena of a kilobyte at `base`. -/
abbrev kilobyteAt (base : Nat) : Component 64 (BumpArena (InlineBacked 64 1024)) :=
  BumpArena.component 64 (InlineBacked.range 64 1024) base ⟨base, 1024⟩

/-- With two credits the third request is refused. -/
theorem faulty_run_permits_twoCredits : ∃ s,
    Machine.run (step (Faulty.component FailAfter.policy (kilobyteAt 4096)))
        ⟨⟨⟨ScrubRun.emptyPages.alloc, FailAfter.new 2⟩, fun _ => 0⟩, fun _ : Nat => none⟩
        [.allocate 0 ScrubRun.word, .write 0 3 7, .resize .grow 0 (.lit 64 16 8 (Eq.refl true)),
          .allocate 1 ScrubRun.word, .deallocate 0] = some s ∧
      Machine.run (step (kilobyteAt 4096).withDefaults) ⟨ScrubRun.emptyPages, fun _ => none⟩
        [.allocate 0 ScrubRun.word, .write 0 3 7, .resize .grow 0 (.lit 64 16 8 (Eq.refl true)),
          .deallocate 0] = some (s.map Faulty.inner) := by
  obtain ⟨s, hrun⟩ := Option.isSome_iff_exists.mp
    (by decide +kernel : (Machine.run (step (Faulty.component FailAfter.policy (kilobyteAt 4096)))
      ⟨⟨⟨ScrubRun.emptyPages.alloc, FailAfter.new 2⟩, fun _ => 0⟩, fun _ : Nat => none⟩
      [.allocate 0 ScrubRun.word, .write 0 3 7, .resize .grow 0 (.lit 64 16 8 (Eq.refl true)),
        .allocate 1 ScrubRun.word, .deallocate 0]).isSome)
  exact ⟨s, hrun, (faulty_run_permits hrun).1⟩

end ClientRun

/-! ## A primary that always fails -/

namespace WithFallback

variable {P : Component w π} {R : FixedRange (Faulty π AlwaysFail)} {c : Block} {C : Component w σ}
  {h h' : Heap (WithFallback (Faulty π AlwaysFail) σ)} {B : Set (Grant w)} {g : Grant w}
  {l : NonZeroLayout w}

/-- `WithFallback<Faulty<P, AlwaysFail>, S>`. -/
def forced (P : Component w π) (R : FixedRange (Faulty π AlwaysFail)) (c : Block)
    (C : Component w σ) : Component w (WithFallback (Faulty π AlwaysFail) σ) :=
  component (Faulty.component AlwaysFail.policy P) R c C

/-- The primary is asked, and is as it was. -/
theorem forced_allocate (l : NonZeroLayout w) (h : Heap (WithFallback (Faulty π AlwaysFail) σ)) :
    (forced P R c C).calls.allocate l h =
      ((C.calls.allocate l (secondaryHeap h)).1,
        setSecondary h (C.calls.allocate l (secondaryHeap h)).2) := by
  have hcall : (Faulty.component AlwaysFail.policy P).calls.allocate l (primaryHeap h) =
      (none, primaryHeap h) := Faulty.allocate_of_fails rfl
  show allocateWith (Faulty.component AlwaysFail.policy P).calls.allocate C.calls.allocate l h = _
  rw [allocateWith, hcall]
  rfl

theorem forced_passesRequest (l : NonZeroLayout w)
    (h : Heap (WithFallback (Faulty π AlwaysFail) σ)) :
    ClientRun.PassesRequest (forced P R c C) C secondary
      (fun s => s.primary = h.alloc.primary) l h where
  allocate := by rw [forced_allocate]; rfl
  keeps := by rw [forced_allocate]; rfl

/-- A block that is not in the range of the primary goes back to the secondary. -/
theorem forced_passes {p : Faulty π AlwaysFail} (hB : ∀ g ∈ B, R.contains w g.block.ptr p = false) :
    ClientRun.Passes (forced P R c C) C secondary (fun s => s.primary = p) B where
  deallocate := by
    intro g h hg hp
    have hnot : ¬ R.contains w g.block.ptr h.alloc.primary = true := by
      rw [hp, hB g hg]
      exact Bool.false_ne_true
    have hfree : (forced P R c C).calls.deallocate g.block.ptr g.layout h =
        setSecondary h (C.calls.deallocate g.block.ptr g.layout (secondaryHeap h)) := if_neg hnot
    rw [hfree]
    exact ⟨rfl, hp⟩
  remoteFree := by
    intro g h h' hg hp hfree
    have hnot : ¬ R.contains w g.block.ptr h.alloc.primary = true := by
      rw [hp, hB g hg]
      exact Bool.false_ne_true
    have hcall : (forced P R c C).remoteFree g.block.ptr g.layout h =
        (C.remoteFree g.block.ptr g.layout (secondaryHeap h)).map (setSecondary h) := if_neg hnot
    rw [hcall] at hfree
    obtain ⟨t, ht, rfl⟩ := Option.map_eq_some_iff.mp hfree
    exact ⟨ht, hp⟩
  grow_eq := rfl
  shrink_eq := rfl

end WithFallback

namespace ClientRun

variable [DecidableEq ι] {P : Component w π} {R : FixedRange (Faulty π AlwaysFail)} {c : Block}
  {C : Component w σ} {ops : List (ClientOp w ι)}

/-- A client of the `WithFallback`, and one of its secondary. -/
structure Forced (C : Component w σ) (p : Faulty π AlwaysFail)
    (s : ClientRun w ι (WithFallback (Faulty π AlwaysFail) σ)) (t : ClientRun w ι σ) : Prop where
  map_eq : t = s.map WithFallback.secondary
  primary_eq : s.heap.alloc.primary = p
  agrees : ∃ a, Agrees C.withDefaults t a

omit [DecidableEq ι] in
/-- The blocks of the secondary are not in the range of the primary. -/
theorem Forced.not_contains {p : Faulty π AlwaysFail}
    {s : ClientRun w ι (WithFallback (Faulty π AlwaysFail) σ)} {t : ClientRun w ι σ}
    (h : Forced C p s t) (hC : C.Lawful) (hblock : R.block p = c) (hend : c.ptr + c.len ≤ 2 ^ w)
    (hdisj : Disjoint c.bytes C.territory) {g : Grant w} (hg : g ∈ live s.objects) :
    R.contains w g.block.ptr p = false := by
  obtain ⟨a, hagrees⟩ := h.agrees
  rw [h.map_eq] at hagrees
  have hsat := hC.withDefaults.satisfies hagrees.inv hg
  have hmem := hC.withDefaults.subset hagrees.inv hg (WithFallback.first_mem hsat)
  have hbase : R.base p = c.ptr := congrArg Block.ptr hblock
  have hsize : R.size p = c.len := congrArg Block.len hblock
  rw [Bool.eq_false_iff, ne_eq, FixedRange.contains_iff (WithFallback.ptr_lt hsat)
    (by rw [hbase, hsize]; exact hend), hbase, hsize]
  exact fun hin => Set.disjoint_left.mp hdisj hin hmem

theorem forced_step (hC : C.Lawful) {p : Faulty π AlwaysFail} (hblock : R.block p = c)
    (hend : c.ptr + c.len ≤ 2 ^ w) (hdisj : Disjoint c.bytes C.territory)
    (s : ClientRun w ι (WithFallback (Faulty π AlwaysFail) σ)) (t : ClientRun w ι σ)
    (op : ClientOp w ι) (s' : ClientRun w ι (WithFallback (Faulty π AlwaysFail) σ))
    (h : Forced C p s t) (hstep : step (WithFallback.forced P R c C) s op = some s') :
    ∃ (op' : ClientOp w ι) (t' : ClientRun w ι σ), op = op' ∧
      step C.withDefaults t op' = some t' ∧ Forced C p s' t' := by
  obtain ⟨hmap, hkeeps⟩ := step_map
    (WithFallback.forced_passes fun g hg => h.not_contains hC hblock hend hdisj hg)
    (fun _ => h.primary_eq)
    (fun l _ => h.primary_eq ▸ WithFallback.forced_passesRequest l s.heap) hstep
  obtain ⟨a, hagrees⟩ := h.agrees
  have hD : C.withDefaults.Lawful := hC.withDefaults
  rw [← h.map_eq] at hmap
  obtain ⟨-, a', -, -, hagrees'⟩ := agrees_step hD (hD.honours_of_defaults rfl rfl) op hagrees hmap
  exact ⟨op, _, rfl, hmap, rfl, hkeeps, a', hagrees'⟩

/-- **Every request goes to the secondary.** Let the primary of a `WithFallback` always fail, and let
its range lie apart from where the secondary works. Each run of a client is a run over the secondary
with the trait's default resizes in place of its own, and the primary is as it was. -/
theorem alwaysFail_run (hC : C.Lawful) {h : Heap (WithFallback (Faulty π AlwaysFail) σ)}
    {s : ClientRun w ι (WithFallback (Faulty π AlwaysFail) σ)}
    (hblock : R.block h.alloc.primary = c) (hend : c.ptr + c.len ≤ 2 ^ w)
    (hdisj : Disjoint c.bytes C.territory) (hstart : C.inv (h.map WithFallback.secondary) ∅)
    (hrun : Machine.run (step (WithFallback.forced P R c C)) ⟨h, fun _ => none⟩ ops = some s) :
    Machine.run (step C.withDefaults) ⟨h.map WithFallback.secondary, fun _ => none⟩ ops =
        some (s.map WithFallback.secondary) ∧
      s.heap.alloc.primary = h.alloc.primary := by
  have hinit : Forced C h.alloc.primary ⟨h, fun _ : ι => none⟩
      ⟨h.map WithFallback.secondary, fun _ => none⟩ :=
    ⟨rfl, rfl, ObjectStore.empty, agrees_start (C := C.withDefaults) hstart⟩
  obtain ⟨ops', t, hops, hrun', hforced⟩ :=
    Machine.run_simulation (forced_step hC hblock hend hdisj) hinit hrun
  rw [List.forall₂_eq_eq_eq] at hops
  subst hops
  rw [hforced.map_eq] at hrun'
  exact ⟨hrun', hforced.primary_eq⟩

/-- The first of two arenas always fails. -/
abbrev forcedArenas : Component 64
    (WithFallback (Faulty (BumpArena (InlineBacked 64 1024)) AlwaysFail)
      (BumpArena (InlineBacked 64 1024))) :=
  WithFallback.forced (kilobyteAt 4096)
    ((BumpArena.range (InlineBacked.range 64 1024)).through Faulty.inner fun s t =>
      { s with inner := t }) ⟨4096, 1024⟩ (kilobyteAt 8192)

def forcedStart : Heap (WithFallback (Faulty (BumpArena (InlineBacked 64 1024)) AlwaysFail)
    (BumpArena (InlineBacked 64 1024))) :=
  ⟨⟨⟨ScrubRun.emptyPages.alloc, ⟨⟩⟩, ⟨.lit 64 1024 8192 (Eq.refl true), 1024, 0⟩⟩, fun _ => 0⟩

theorem alwaysFail_run_twoArenas : ∃ s,
    Machine.run (step forcedArenas) ⟨forcedStart, fun _ : Nat => none⟩
        [.allocate 0 ScrubRun.word, .write 0 3 7, .allocateZeroed 1 ScrubRun.wideWord,
          .deallocate 0] = some s ∧
      s.heap.alloc.primary = forcedStart.alloc.primary := by
  obtain ⟨s, hrun⟩ := Option.isSome_iff_exists.mp
    (by decide +kernel : (Machine.run (step forcedArenas) ⟨forcedStart, fun _ : Nat => none⟩
      [.allocate 0 ScrubRun.word, .write 0 3 7, .allocateZeroed 1 ScrubRun.wideWord,
        .deallocate 0]).isSome)
  have hdisj : Disjoint (Block.mk 4096 1024).bytes (kilobyteAt 8192).territory :=
    Block.disjoint_of_le (Or.inl (by decide))
  have hlawful : (kilobyteAt 8192).Lawful :=
    BumpArena.lawful (InlineBacked.range_lawful 64 1024) (by decide) ⟨8192, 1024⟩
  have hstart : (kilobyteAt 8192).inv (forcedStart.map WithFallback.secondary) ∅ :=
    BumpArena.component_fresh (b := InlineBacked.lit 64 1024 8192 (Eq.refl true)) rfl fun _ => 0
  obtain ⟨-, hprimary⟩ := alwaysFail_run (c := ⟨4096, 1024⟩) hlawful rfl (by decide) hdisj hstart hrun
  exact ⟨s, hrun, hprimary⟩

end ClientRun

end ForgeAlloc
