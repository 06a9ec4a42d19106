import ForgeAlloc.Core.ClientRun

set_option autoImplicit false

/-! # A client seen from underneath

Where the calls of a wrapper are, through a part `f` of its value, the calls of the allocator
underneath, the client of the wrapper is a client of that allocator (`ClientRun.step_map`). A wrapper
that has the resizes of the trait is seen over the allocator with these resizes.
-/

namespace ForgeAlloc

open ByteMemory

variable {w : Nat} {ι σ τ : Type}

namespace Component

variable {C : Component w σ}

/-- The component with the trait's resizes in the place of its own. -/
def withDefaults (C : Component w σ) : Component w σ := { C with calls := C.calls.withDefaults }

theorem Lawful.withDefaults (hC : C.Lawful) : C.withDefaults.Lawful :=
  { hC with toHonoursCore := hC.toHonoursCore.congr rfl rfl }

end Component

/-- The layout that an operation requests. -/
def ClientOp.request : ClientOp w ι → Option (NonZeroLayout w)
  | .allocate _ l => some l
  | .allocateZeroed _ l => some l
  | .resize _ _ new => some new
  | .write _ _ _ => none
  | .deallocate _ => none
  | .remoteFree _ => none

namespace ClientRun

def map (f : τ → σ) (s : ClientRun w ι τ) : ClientRun w ι σ := ⟨s.heap.map f, s.objects⟩

@[simp] theorem map_heap (f : τ → σ) (s : ClientRun w ι τ) : (s.map f).heap = s.heap.map f := rfl

@[simp] theorem map_objects (f : τ → σ) (s : ClientRun w ι τ) : (s.map f).objects = s.objects := rfl

/-- At the values `S`, the frees of `D` of the blocks `B` are through `f` those of `C`. -/
structure Passes (D : Component w τ) (C : Component w σ) (f : τ → σ) (S : τ → Prop)
    (B : Set (Grant w)) : Prop where
  deallocate : ∀ {g h}, g ∈ B → S h.alloc →
    C.calls.deallocate g.block.ptr g.layout (h.map f) =
        (D.calls.deallocate g.block.ptr g.layout h).map f ∧
      S (D.calls.deallocate g.block.ptr g.layout h).alloc
  remoteFree : ∀ {g h h'}, g ∈ B → S h.alloc → D.remoteFree g.block.ptr g.layout h = some h' →
    C.remoteFree g.block.ptr g.layout (h.map f) = some (h'.map f) ∧ S h'.alloc
  grow_eq : D.calls.grow = defaultGrow D.calls.allocate D.calls.deallocate
  shrink_eq : D.calls.shrink = defaultShrink D.calls.allocate D.calls.deallocate

/-- A request is through `f` one of `C`, and leaves `D` at a value of `S`. -/
structure PassesRequest (D : Component w τ) (C : Component w σ) (f : τ → σ) (S : τ → Prop)
    (l : NonZeroLayout w) (h : Heap τ) : Prop where
  allocate : C.calls.allocate l (h.map f) =
    ((D.calls.allocate l h).1, (D.calls.allocate l h).2.map f)
  keeps : S (D.calls.allocate l h).2.alloc

variable [DecidableEq ι] {D : Component w τ} {C : Component w σ} {f : τ → σ} {S : τ → Prop}
  {s s' : ClientRun w ι τ} {l old : NonZeroLayout w} {op : ClientOp w ι}

theorem map_receive (f : τ → σ) (s : ClientRun w ι τ) (i : ι) (l : NonZeroLayout w)
    (r : Option Block × Heap τ) :
    (s.receive i l r).map f = (s.map f).receive i l (r.1, r.2.map f) := by
  rcases r with ⟨_ | b, h⟩ <;> rfl

theorem receive_heap (s : ClientRun w ι τ) (i : ι) (l : NonZeroLayout w)
    (r : Option Block × Heap τ) : (s.receive i l r).heap = r.2 := by
  rcases r with ⟨_ | b, h⟩ <;> rfl

theorem PassesRequest.zeroed {h : Heap τ} (hr : PassesRequest D C f S l h) :
    defaultAllocateZeroed C.calls.allocate l (h.map f) =
        ((defaultAllocateZeroed D.calls.allocate l h).1,
          (defaultAllocateZeroed D.calls.allocate l h).2.map f) ∧
      S (defaultAllocateZeroed D.calls.allocate l h).2.alloc := by
  have hcall := hr.allocate
  have hkeeps := hr.keeps
  simp only [defaultAllocateZeroed, hcall]
  rcases hD : D.calls.allocate l h with ⟨_ | b, h'⟩
  · exact ⟨rfl, by rwa [hD] at hkeeps⟩
  · exact ⟨rfl, by rwa [hD] at hkeeps⟩

theorem PassesRequest.resize {h : Heap τ} {B : Set (Grant w)} {r : Resize} {g : Grant w}
    (hp : Passes D C f S B) (hr : PassesRequest D C f S l h) (hg : g ∈ B)
    (hlegal : r.Legal g.layout l) :
    r.call C.withDefaults.calls g.block.ptr g.layout l (h.map f) =
        ((r.call D.calls g.block.ptr g.layout l h).1,
          (r.call D.calls g.block.ptr g.layout l h).2.map f) ∧
      S (r.call D.calls g.block.ptr g.layout l h).2.alloc := by
  have hcall : C.withDefaults.calls.allocate l (h.map f) = _ := hr.allocate
  have hkeeps := hr.keeps
  cases halloc : D.calls.allocate l h with
  | mk answer h' =>
      rw [halloc] at hcall hkeeps
      cases answer with
      | none =>
          rw [Resize.call_of_none hp.grow_eq hp.shrink_eq g.block.ptr halloc]
          exact ⟨Resize.call_of_none rfl rfl g.block.ptr hcall, hkeeps⟩
      | some b =>
          rw [Resize.call_of_some hp.grow_eq hp.shrink_eq g.block.ptr hlegal halloc]
          -- the free comes after the copy
          obtain ⟨hfree, hafter⟩ := hp.deallocate (h := ⟨h'.alloc,
            copyBytes h'.mem g.block.ptr b.ptr (min g.layout.size l.size)⟩) hg hkeeps
          refine ⟨(Resize.call_of_some rfl rfl g.block.ptr hlegal hcall).trans ?_, hafter⟩
          exact congrArg (Prod.mk (some b)) hfree

/-- **An operation goes through**, if what it requests does. -/
theorem step_map (hp : Passes D C f S (live s.objects)) (hS : op.request = none → S s.heap.alloc)
    (hr : ∀ l, op.request = some l → PassesRequest D C f S l s.heap)
    (hstep : step D s op = some s') :
    step C.withDefaults (s.map f) op = some (s'.map f) ∧ S s'.heap.alloc := by
  cases op with
  | allocate i l =>
      simp only [step] at hstep
      split at hstep
      case h_1 => cases hstep
      case h_2 hfree =>
          cases hstep
          have hcall : C.withDefaults.calls.allocate l (s.heap.map f) = _ := (hr l rfl).allocate
          rw [receive_heap]
          refine ⟨?_, (hr l rfl).keeps⟩
          simp only [step, map_objects, map_heap, hfree, hcall, map_receive]
  | allocateZeroed i l =>
      simp only [step] at hstep
      split at hstep
      case h_1 => cases hstep
      case h_2 hfree =>
          cases hstep
          obtain ⟨hcall, hkeeps⟩ := (hr l rfl).zeroed
          rw [receive_heap]
          refine ⟨?_, hkeeps⟩
          simp only [step, map_objects, map_heap, hfree, map_receive]
          exact congrArg (fun r => some ((s.map f).receive i l r)) hcall
  | write i k v =>
      simp only [step] at hstep
      split at hstep
      case h_1 => cases hstep
      case h_2 g hg =>
          split at hstep
          case isFalse => cases hstep
          case isTrue hk =>
              cases hstep
              refine ⟨?_, hS rfl⟩
              simp only [step, map_objects, map_heap, hg, if_pos hk]
              rfl
  | resize r i new =>
      simp only [step] at hstep
      split at hstep
      case h_1 => cases hstep
      case h_2 g hg =>
          split at hstep
          case isFalse => cases hstep
          case isTrue hk =>
              cases hstep
              obtain ⟨hcall, hkeeps⟩ := (hr new rfl).resize hp (mem_live hg) hk.1
              rw [receive_heap]
              refine ⟨?_, hkeeps⟩
              simp only [step, map_objects, map_heap, hg, if_pos hk, hcall, map_receive]
  | deallocate i =>
      simp only [step] at hstep
      split at hstep
      case h_1 => cases hstep
      case h_2 g hg =>
          cases hstep
          obtain ⟨hfree, hkeeps⟩ := hp.deallocate (mem_live hg) (hS rfl)
          refine ⟨?_, hkeeps⟩
          simp only [step, map_objects, map_heap, hg]
          exact congrArg (fun h => some (ClientRun.mk h (Function.update s.objects i none))) hfree
  | remoteFree i =>
      simp only [step] at hstep
      split at hstep
      case h_1 => cases hstep
      case h_2 g hg =>
          obtain ⟨h', hfree, rfl⟩ := Option.map_eq_some_iff.mp hstep
          obtain ⟨hpass, hkeeps⟩ := hp.remoteFree (mem_live hg) (hS rfl) hfree
          refine ⟨?_, hkeeps⟩
          simp only [step, map_objects, map_heap, hg]
          exact congrArg (Option.map fun h => ClientRun.mk h (Function.update s.objects i none)) hpass

/-- A request that fails, of an allocator with the trait's resizes. -/
theorem step_of_none {h' : Heap τ} (hreq : op.request = some l)
    (hcall : D.calls.allocate l s.heap = (none, h'))
    (hgrow : D.calls.grow = defaultGrow D.calls.allocate D.calls.deallocate)
    (hshrink : D.calls.shrink = defaultShrink D.calls.allocate D.calls.deallocate)
    (hstep : step D s op = some s') : s' = { s with heap := h' } := by
  cases op with
  | allocate i l' =>
      cases hreq
      simp only [step, hcall] at hstep
      split at hstep
      · cases hstep
      · exact (Option.some.inj hstep).symm
  | allocateZeroed i l' =>
      cases hreq
      simp only [step, defaultAllocateZeroed, hcall] at hstep
      split at hstep
      · cases hstep
      · exact (Option.some.inj hstep).symm
  | resize r i new =>
      cases hreq
      simp only [step] at hstep
      split at hstep
      · cases hstep
      · split at hstep
        · rw [Resize.call_of_none hgrow hshrink _ hcall] at hstep
          exact (Option.some.inj hstep).symm
        · cases hstep
  | write _ _ _ => cases hreq
  | deallocate _ => cases hreq
  | remoteFree _ => cases hreq

end ClientRun

end ForgeAlloc
