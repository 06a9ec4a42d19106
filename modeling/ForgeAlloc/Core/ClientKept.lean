import ForgeAlloc.Core.ClientRun

set_option autoImplicit false

/-! # What the calls of a component keep

A property of the heap and of the blocks that are out is *kept* by a component (`Component.Keeps`) if
its calls keep it, and the writes of those who have the blocks. Over a component with the resizes of
the trait it then holds in every state of a client's run (`ClientRun.keeps_run`).
-/

namespace ForgeAlloc

open ByteMemory ObjectStore

variable {w : Nat} {ι σ : Type} {C : Component w σ} {P : Heap σ → Set (Grant w) → Prop}

structure Component.Keeps (C : Component w σ) (P : Heap σ → Set (Grant w) → Prop) : Prop where
  issued : ∀ {h L l b h'}, C.inv h L → P h L → C.calls.allocate l h = (some b, h') →
    P h' (insert ⟨b, l⟩ L)
  refused : ∀ {h L l h'}, C.inv h L → P h L → C.calls.allocate l h = (none, h') → P h' L
  freed : ∀ {h L g}, C.inv h L → g ∈ L → P h L →
    P (C.calls.deallocate g.block.ptr g.layout h) (L \ {g})
  written : ∀ {h L m}, C.inv h L → P h L → Set.EqOn m h.mem (liveBytes L)ᶜ → P ⟨h.alloc, m⟩ L
  remotelyFreed : ∀ {h L g h'}, C.inv h L → g ∈ L → P h L →
    C.remoteFree g.block.ptr g.layout h = some h' → P h' (L \ {g})

namespace Component.Keeps

variable {h h' : Heap σ} {L : Set (Grant w)} {g : Grant w} {l new : NonZeroLayout w} {b : Block}

/-- The zeros of a request go into the new block. -/
theorem zeroed_issued (hP : C.Keeps P) (hC : C.Lawful) (hinv : C.inv h L) (hp : P h L)
    (hcall : defaultAllocateZeroed C.calls.allocate l h = (some b, h')) :
    P h' (insert ⟨b, l⟩ L) := by
  unfold defaultAllocateZeroed at hcall
  split at hcall
  case h_1 => cases hcall
  case h_2 b' h₁ halloc =>
      cases hcall
      have hissued := (hC.allocate_some hinv halloc).inv
      have hsat := hC.allocate_satisfies hinv halloc
      exact hP.written hissued (hP.issued hinv hp halloc) (hsat.zeros_eqOn L h₁.mem)

theorem zeroed_refused (hP : C.Keeps P) (hinv : C.inv h L) (hp : P h L)
    (hcall : defaultAllocateZeroed C.calls.allocate l h = (none, h')) : P h' L := by
  unfold defaultAllocateZeroed at hcall
  split at hcall
  case h_1 h₁ halloc =>
      cases hcall
      exact hP.refused hinv hp halloc
  case h_2 => cases hcall

/-- A resize is a request, a copy into the new block and a free. -/
theorem resized (hP : C.Keeps P) (hC : C.Lawful)
    (hgrow : C.calls.grow = defaultGrow C.calls.allocate C.calls.deallocate)
    (hshrink : C.calls.shrink = defaultShrink C.calls.allocate C.calls.deallocate)
    (hinv : C.inv h L) (hg : g ∈ L) (hp : P h L) {r : Resize} (hlegal : r.Legal g.layout new)
    (hcall : r.call C.calls g.block.ptr g.layout new h = (some b, h')) :
    P h' (insert ⟨b, new⟩ (L \ {g})) := by
  rcases halloc : C.calls.allocate new h with ⟨_ | dst, h₁⟩
  · rw [Resize.call_of_none hgrow hshrink _ halloc] at hcall
    cases hcall
  · rw [Resize.call_of_some hgrow hshrink _ hlegal halloc] at hcall
    cases hcall
    have hiss := hC.allocate_some hinv halloc
    have hsat := hC.allocate_satisfies hinv halloc
    have hne : g ≠ ⟨b, new⟩ := hC.ne_of_disjoint hinv hg (hiss.fresh g hg)
    have hle : min g.layout.size new.size ≤ new.size := Nat.min_le_right _ _
    have hcopy := hC.copy_inv hinv g.block.ptr hle halloc
    have hp₁ := hP.written hiss.inv (hP.issued hinv hp halloc)
      (hsat.copy_eqOn hle L g.block.ptr h₁.mem)
    have hfree := hP.freed hcopy (Set.mem_insert_of_mem _ hg) hp₁
    rwa [Set.insert_sdiff_of_notMem _ fun hmem => hne hmem.symm] at hfree

theorem resize_refused (hP : C.Keeps P)
    (hgrow : C.calls.grow = defaultGrow C.calls.allocate C.calls.deallocate)
    (hshrink : C.calls.shrink = defaultShrink C.calls.allocate C.calls.deallocate)
    (hinv : C.inv h L) (hp : P h L) {r : Resize} (hlegal : r.Legal g.layout new)
    (hcall : r.call C.calls g.block.ptr g.layout new h = (none, h')) : P h' L := by
  rcases halloc : C.calls.allocate new h with ⟨_ | dst, h₁⟩
  · rw [Resize.call_of_none hgrow hshrink _ halloc] at hcall
    cases hcall
    exact hP.refused hinv hp halloc
  · rw [Resize.call_of_some hgrow hshrink _ hlegal halloc] at hcall
    cases hcall

end Component.Keeps

namespace ClientRun

variable [DecidableEq ι] {s s' : ClientRun w ι σ} {a : Store ι} {ops : List (ClientOp w ι)}

/-- One operation of the client. -/
theorem keeps_step (hP : C.Keeps P) (hC : C.Lawful)
    (hgrow : C.calls.grow = defaultGrow C.calls.allocate C.calls.deallocate)
    (hshrink : C.calls.shrink = defaultShrink C.calls.allocate C.calls.deallocate)
    (op : ClientOp w ι) (h : Agrees C s a) (hp : P s.heap (live s.objects))
    (hstep : step C s op = some s') : P s'.heap (live s'.objects) := by
  cases op with
  | allocate i l =>
      simp only [step] at hstep
      split at hstep
      case h_1 => cases hstep
      case h_2 hfree =>
          rcases hcall : C.calls.allocate l s.heap with ⟨_ | b, h'⟩
          · rw [hcall] at hstep
            cases hstep
            exact hP.refused h.inv hp hcall
          · rw [hcall] at hstep
            cases hstep
            simp only [receive, live_update_some, live_update_none_of_none hfree]
            exact hP.issued h.inv hp hcall
  | allocateZeroed i l =>
      simp only [step] at hstep
      split at hstep
      case h_1 => cases hstep
      case h_2 hfree =>
          rcases hcall : defaultAllocateZeroed C.calls.allocate l s.heap with ⟨_ | b, h'⟩
          · rw [hcall] at hstep
            cases hstep
            exact hP.zeroed_refused h.inv hp hcall
          · rw [hcall] at hstep
            cases hstep
            simp only [receive, live_update_some, live_update_none_of_none hfree]
            exact hP.zeroed_issued hC h.inv hp hcall
  | write i k v =>
      simp only [step] at hstep
      split at hstep
      case h_1 => cases hstep
      case h_2 g hg =>
          split at hstep
          case isFalse => cases hstep
          case isTrue hk =>
              cases hstep
              exact hP.written h.inv hp (writeByte_eqOn_live (mem_live hg) hk s.heap.mem v)
  | resize r i new =>
      simp only [step] at hstep
      split at hstep
      case h_1 => cases hstep
      case h_2 g hg =>
          split at hstep
          case isFalse => cases hstep
          case isTrue hguard =>
              rcases hcall : r.call C.calls g.block.ptr g.layout new s.heap with ⟨_ | b, h'⟩
              · rw [hcall] at hstep
                cases hstep
                exact hP.resize_refused hgrow hshrink h.inv hp hguard.1 hcall
              · rw [hcall] at hstep
                cases hstep
                simp only [receive, live_update_some, live_update_none h.injective hg]
                exact hP.resized hC hgrow hshrink h.inv (mem_live hg) hp hguard.1 hcall
  | deallocate i =>
      simp only [step] at hstep
      split at hstep
      case h_1 => cases hstep
      case h_2 g hg =>
          cases hstep
          simp only [live_update_none h.injective hg]
          exact hP.freed h.inv (mem_live hg) hp
  | remoteFree i =>
      simp only [step] at hstep
      split at hstep
      case h_1 => cases hstep
      case h_2 g hg =>
          obtain ⟨h', hfree, rfl⟩ := Option.map_eq_some_iff.mp hstep
          simp only [live_update_none h.injective hg]
          exact hP.remotelyFreed h.inv (mem_live hg) hp hfree

/-- **What a component keeps holds along every run** of a client, for the blocks the client has. -/
theorem keeps_run (hP : C.Keeps P) (hC : C.Lawful)
    (hgrow : C.calls.grow = defaultGrow C.calls.allocate C.calls.deallocate)
    (hshrink : C.calls.shrink = defaultShrink C.calls.allocate C.calls.deallocate)
    {h : Heap σ} (hstart : C.inv h ∅) (hp : P h ∅)
    (hrun : Machine.run (step C) ⟨h, fun _ => none⟩ ops = some s) :
    P s.heap (live s.objects) := by
  have hA := hC.honours_of_defaults hgrow hshrink
  have hagrees : Agrees C ⟨h, fun _ => none⟩ (ObjectStore.empty : Store ι) := agrees_start hstart
  have hempty : P h (live fun _ : ι => (none : Option (Grant w))) := by
    have hnone : live (fun _ : ι => (none : Option (Grant w))) = ∅ := by
      refine Set.eq_empty_of_forall_notMem ?_
      rintro g ⟨i, ⟨⟩⟩
    exact hnone ▸ hp
  have hinvariant := Machine.run_invariant
    (P := fun u : ClientRun w ι σ => (∃ a, Agrees C u a) ∧ P u.heap (live u.objects))
    (fun u op u' hu hstep => by
      obtain ⟨⟨a, hagrees⟩, hp⟩ := hu
      obtain ⟨-, a', -, -, hagrees'⟩ := agrees_step hC hA op hagrees hstep
      exact ⟨⟨a', hagrees'⟩, keeps_step hP hC hgrow hshrink op hagrees hp hstep⟩)
    ⟨⟨_, hagrees⟩, hempty⟩ hrun
  exact hinvariant.2

end ClientRun

end ForgeAlloc
