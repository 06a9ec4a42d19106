import ForgeAlloc.Core.ClientRun
import ForgeAlloc.Hardening.ScrubStack

set_option autoImplicit false

/-! # Clients of stacks

Every stack of `Stack` meets the whole contract of `Allocator`, resizes included (`Stack.honours`),
and so does a scrubbing wrapper over it (`Scrubber.lawful`). The client of such a composition has a
store of objects, however it is put together from what `Stack` covers (`stack_client_refines`).
-/

namespace ForgeAlloc

open ByteMemory ObjectStore

variable {w : Nat}

/-! ## Resizes -/

namespace BumpArena

variable {β : Type} {R : FixedRange β} {base : Nat} {c : Block}

theorem capacity_allocate (hR : R.Lawful) (l : NonZeroLayout w) (h : Heap (BumpArena β)) :
    (allocate R l h).2.alloc.capacity = h.alloc.capacity :=
  congrArg Block.len (quiet_allocate hR l h).1

theorem capacity_relocate (hR : R.Lawful) (ptr : Nat) (old new : NonZeroLayout w)
    (h : Heap (BumpArena β)) : (relocate R ptr old new h).2.alloc.capacity = h.alloc.capacity := by
  have halloc := capacity_allocate hR new h
  unfold relocate
  split
  case h_1 h' heq => rwa [heq] at halloc
  case h_2 dst h' heq => rwa [heq] at halloc

theorem capacity_grow (hR : R.Lawful) (ptr : Nat) (old new : NonZeroLayout w)
    (h : Heap (BumpArena β)) : (grow R ptr old new h).2.alloc.capacity = h.alloc.capacity := by
  simp only [grow]
  split
  · split
    · rfl
    · split
      · split <;> rfl
      · exact capacity_relocate hR ptr old new h
  · exact capacity_relocate hR ptr old new h

/-- The arena of a component extends blocks in place. -/
theorem component_honours (hR : R.Lawful) (hbase : 0 < base) :
    Honours (component w R base c).calls (component w R base c).inv := by
  have hC := lawful (w := w) hR hbase c
  have hA := honours (w := w) hR base hbase
  have hdefault := hC.toHonoursCore
  have hblock : ∀ {h h' : Heap (BumpArena β)} {L L' : Set (Grant w)}, Holds R base h L →
      Holds R base h' L' → h'.alloc.capacity = h.alloc.capacity →
      (range R).block h.alloc = c → (range R).block h'.alloc = c := by
    rintro h h' L L' hh hh' hcap rfl
    have hsame : R.base h'.alloc.backing = R.base h.alloc.backing :=
      hh'.sound.base_eq.trans hh.sound.base_eq.symm
    simp only [FixedRange.block, range, hsame, hcap]
  exact
    { hdefault with
      grow_some := by
        rintro h L g new b h' ⟨hh, hc⟩ hg hsize halign heq
        obtain ⟨hiss, hcopy⟩ := hA.grow_some hh hg hsize halign heq
        have hcap := capacity_grow hR g.block.ptr g.layout new h
        change grow R g.block.ptr g.layout new h = (some b, h') at heq
        rw [heq] at hcap
        exact ⟨⟨⟨hiss.inv, hblock hh hiss.inv hcap hc⟩, hiss.fresh, hiss.frame⟩, hcopy⟩
      grow_none := by
        rintro h L g new h' ⟨hh, hc⟩ hg hsize halign heq
        have hun := hA.grow_none hh hg hsize halign heq
        have hcap := capacity_grow hR g.block.ptr g.layout new h
        change grow R g.block.ptr g.layout new h = (none, h') at heq
        rw [heq] at hcap
        exact ⟨⟨hun.inv, hblock hh hun.inv hcap hc⟩, hun.frame⟩
      shrink_some := fun hinv hg hsize _ heq => hdefault.defaultShrink_some hinv hg hsize heq
      shrink_none := fun hinv _ _ _ heq => hdefault.defaultShrink_none hinv heq
      usableSize := fun _ _ heq => by cases heq }

end BumpArena

/-! ## Every stack -/

variable {σ ι : Type} {C : Component w σ} {jittered : Bool}

/-- **Every stack meets the contract**, resizes included. -/
theorem Stack.honours (hC : Stack jittered C) : Honours C.calls C.inv := by
  have hlawful := hC.lawful
  cases hC with
  | bumpArena hR hbase c => exact BumpArena.component_honours hR hbase
  | stackAlloc => exact hlawful.honours_of_defaults rfl rfl
  | sharedBumpArena => exact hlawful.honours_of_defaults rfl rfl
  | mmapBacked => exact hlawful.honours_of_defaults rfl rfl
  | slab => exact hlawful.honours_of_defaults rfl rfl
  | slabOwner => exact hlawful.honours_of_defaults rfl rfl
  | extendableSlab => exact hlawful.honours_of_defaults rfl rfl
  | sizeClassed => exact hlawful.honours_of_defaults rfl rfl
  | withFallback => exact hlawful.honours_of_defaults rfl rfl
  | forwarder => exact hlawful.honours_of_defaults rfl rfl
  | quarantine => exact hlawful.honours_of_defaults rfl rfl
  | cacheJitter => exact hlawful.honours_of_defaults rfl rfl
  | canary => exact hlawful.honours_of_defaults rfl rfl

/-! ## Scrubbing wrappers -/

variable {ω : Type}

namespace Scrubber

/-- The component of a scrubbing wrapper over `C`. -/
def component (S : Scrubber ω σ) (C : Component w σ) : Component w ω where
  calls := onFree S C.calls
  range := C.range.map fun (R, c) => (R.through S.inner S.put, c)
  territory := C.territory
  inv := fun h L => C.inv (S.heap h) L
  answer := C.answer
  roomy := fun l h => C.roomy l (S.heap h)
  leaks := fun l h => C.leaks l (S.heap h)
  remoteFree := fun ptr l h => (C.remoteFree ptr l (S.heap h)).map (S.after h)

theorem lawful (S : Scrubber ω σ) (hC : C.Lawful) : (S.component C).Lawful where
  toHonoursCore := honoursCore hC.honoursUsable
  subset := fun hinv hg => hC.subset hinv hg
  allocate_frame := fun hinv => hC.allocate_frame hinv
  deallocate_frame := by
    intro h L g hinv hg x hx
    have hscrubs := ScrubRun.scrubs S hC hinv hg
    show ((onFree S C.calls).deallocate g.block.ptr g.layout h).mem x = h.mem x
    rw [hscrubs.free_eq]
    -- neither the free nor the scrub leaves the territory
    refine (hC.deallocate_frame hscrubs.kept hg hx).trans (fillBytes_of_not_mem _ fun hin => hx ?_)
    exact hC.subset hinv hg (hscrubs.inside hin)
  mem_congr := fun hinv hm => hC.mem_congr hinv hm
  range_spec := by
    intro R c hR
    obtain ⟨⟨R', c'⟩, hR', heq⟩ := Option.map_eq_some_iff.mp hR
    cases heq
    obtain ⟨hterritory, hblock⟩ := hC.range_spec hR'
    exact ⟨hterritory, fun hinv => hblock hinv⟩
  answer_eq := fun hinv hg => hC.answer_eq hinv hg
  answer_le := fun hinv hg hn => hC.answer_le hinv hg hn
  roomy_iff := fun hinv hcall => hC.roomy_iff hinv (allocate_inner hcall)
  leaks_iff := fun hinv hcall => hC.leaks_iff hinv (allocate_inner hcall)
  remote_free := by
    intro h L g h' hinv hg hfree
    obtain ⟨t, ht, rfl⟩ := Option.map_eq_some_iff.mp hfree
    obtain ⟨hinv', hmem⟩ := hC.remote_free hinv hg ht
    refine ⟨?_, hmem⟩
    show C.inv (S.heap (S.after h t)) (L \ {g})
    rw [heap_after]
    exact hinv'

end Scrubber

/-! ## Zeroed requests

`WithFallback`, `Quarantine` and the scrubbing wrappers pass `allocate_zeroed` on, where the others
have the trait's. It comes to the same. -/

namespace WithFallback

variable {π : Type} {P : Allocator w π} {S : Allocator w σ}

theorem allocateZeroed_eq : allocateWith (defaultAllocateZeroed P.allocate)
    (defaultAllocateZeroed S.allocate) =
      defaultAllocateZeroed (allocateWith P.allocate S.allocate) := by
  funext l h
  simp only [allocateWith, defaultAllocateZeroed]
  cases P.allocate l (primaryHeap h) with
  | mk answer r =>
      cases answer with
      | some b => rfl
      | none =>
          -- the secondary is asked with the primary's part in place
          cases hS : S.allocate l (secondaryHeap (setPrimary h r)) with
          | mk answer r' => cases answer <;> simp [hS, setSecondary]

end WithFallback

namespace Quarantine

variable {E : Nat}

/-- `Quarantine::allocate_zeroed`. -/
def allocateZeroed (A : Allocator w σ) (l : NonZeroLayout w) (h : Heap (Quarantine w σ E)) :
    Option Block × Heap (Quarantine w σ E) :=
  let (r, h') := defaultAllocateZeroed A.allocate l (heap h)
  (r, ⟨{ h.alloc with inner := h'.alloc }, h'.mem⟩)

theorem allocateZeroed_eq (A : Allocator w σ) :
    allocateZeroed A = defaultAllocateZeroed (allocate A) (σ := Quarantine w σ E) := by
  funext l h
  simp only [allocateZeroed, allocate, defaultAllocateZeroed]
  cases hA : A.allocate l (heap h) with
  | mk answer h' => cases answer <;> simp [hA]

end Quarantine

namespace Scrubber

/-- `allocate_zeroed` of `PoisonOnFree` and `ZeroizeOnFree`. -/
def allocateZeroed (S : Scrubber ω σ) (A : Allocator w σ) (l : NonZeroLayout w) (h : Heap ω) :
    Option Block × Heap ω :=
  let (r, h') := defaultAllocateZeroed A.allocate l (S.heap h)
  (r, S.after h h')

theorem allocateZeroed_eq (S : Scrubber ω σ) (A : Allocator w σ) :
    S.allocateZeroed A = defaultAllocateZeroed (onFree S A).allocate := by
  funext l h
  simp only [allocateZeroed, allocate_eq, defaultAllocateZeroed]
  cases A.allocate l (S.heap h) with
  | mk answer h' => cases answer <;> rfl

end Scrubber

/-- A stack, bare or under scrubbing wrappers. -/
inductive Composition (jittered : Bool) : {σ : Type} → Component w σ → Prop
  | stack {σ : Type} {C : Component w σ} (hC : Stack jittered C) : Composition jittered C
  | onFree {σ ω : Type} {C : Component w σ} (S : Scrubber ω σ) (hC : Composition jittered C) :
      Composition jittered (S.component C)

theorem Composition.lawful (hC : Composition jittered C) : C.Lawful := by
  induction hC with
  | stack hC => exact hC.lawful
  | onFree S _ ih => exact S.lawful ih

theorem Composition.honours (hC : Composition jittered C) : Honours C.calls C.inv := by
  cases hC with
  | stack hC => exact hC.honours
  | onFree S hC => exact (S.lawful hC.lawful).honours_of_defaults rfl rfl

namespace ClientRun

variable [DecidableEq ι] {s : ClientRun w ι σ} {ops : List (ClientOp w ι)}

/-- **The client of a composition has a store of objects.** Let slabs, arenas and mappings be stacked
with the wrappers of the crate that `Stack` covers, in any order and number, with or without
scrubbing wrappers on top, and nothing be out. Every run of requests, zeroed requests, writes,
resizes, frees and frees from other threads is a run of the store, where each operation does what it
says or is refused where it is a request. In the end every object of the client is in a block that
satisfies its layout, apart from the others, and the memory holds every byte that the store knows. -/
theorem stack_client_refines (hC : Composition jittered C) {h : Heap σ} (hstart : C.inv h ∅)
    (hrun : Machine.run (step C) ⟨h, fun _ => none⟩ ops = some s) :
    ∃ ds a, List.Forall₂ Does ops ds ∧ Machine.run ObjectStore.step ObjectStore.empty ds = some a ∧
      Represents s.heap.mem (place s.objects) a ∧
      ∀ i g, s.objects i = some g → Satisfies g.block g.layout ∧ g.block.bytes ⊆ C.territory ∧
        ∃ o, a i = some o ∧ o.size = g.layout.size :=
  client_run_refines hC.lawful hC.honours hstart hrun

/-- Poison over a jitter over a slab of pages: a zeroed word is written and grows, and a wide word
comes and goes. -/
theorem stack_client_refines_pages : ∃ slab s ds a,
    Slab.withProtection ScrubRun.pageArena ScrubRun.pages ScrubRun.page 4 .none
        ScrubRun.emptyPages = some slab ∧
      Machine.run (step (PoisonOnFree.scrubber.component (ScrubRun.jitteredPages slab)))
        ⟨ScrubRun.poisoned slab, fun _ => none⟩
        [.allocateZeroed 0 ScrubRun.word, .allocate 1 ScrubRun.wideWord, .write 0 3 7,
          .deallocate 1, .resize .grow 0 (.lit 64 16 8 (Eq.refl true))] = some s ∧
      Machine.run ObjectStore.step (ObjectStore.empty : Store Nat) ds = some a ∧
      Represents s.heap.mem (place s.objects) a := by
  have hsome : ((Slab.withProtection ScrubRun.pageArena ScrubRun.pages ScrubRun.page 4 .none
      ScrubRun.emptyPages).bind fun slab =>
        (Machine.run (step (PoisonOnFree.scrubber.component (ScrubRun.jitteredPages slab)))
          ⟨ScrubRun.poisoned slab, fun _ => none⟩
          [.allocateZeroed 0 ScrubRun.word, .allocate 1 ScrubRun.wideWord, .write 0 3 7,
            .deallocate 1, .resize .grow 0 (.lit 64 16 8 (Eq.refl true))]).map fun s =>
              (s.objects 0).isSome && (s.objects 1).isNone) = some true := by decide +kernel
  obtain ⟨slab, hnew, hmap⟩ := Option.bind_eq_some_iff.mp hsome
  obtain ⟨s, hrun, -⟩ := Option.map_eq_some_iff.mp hmap
  have hC : Composition true (PoisonOnFree.scrubber.component (ScrubRun.jitteredPages slab)) :=
    .onFree PoisonOnFree.scrubber (.stack (ScrubRun.jitteredPages_stack slab))
  obtain ⟨ds, a, -, hstore, hrep, -⟩ :=
    stack_client_refines hC (ScrubRun.poisoned_fresh hnew) hrun
  exact ⟨slab, s, ds, a, hnew, hrun, hstore, hrep⟩

end ClientRun

end ForgeAlloc
