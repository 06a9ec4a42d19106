import ForgeAlloc.Core.Wrapping
import ForgeAlloc.Hardening.CacheJitterRun
import ForgeAlloc.Hardening.Canary
import ForgeAlloc.Hardening.Quarantine

set_option autoImplicit false

/-! # The hardening wrappers as components

`Canary` and `CacheJitter` hand out a part of the inner block and answer nothing to `usable_size`.
`CacheJitter` hands on a request whose alignment is above its line: the inner slice goes to the
client as it is, and the answer is still none. So the request leaks if that slice is longer than it
(`CacheJitter.roomy`).

`Quarantine` hands on the block and the answer.
-/

namespace ForgeAlloc

open ByteMemory

variable {w : Nat} {σ : Type} {C : Component w σ}

namespace Canary

def component (C : Component w σ) (value : BitVec 64) : Component w (Canary σ) :=
  C.guarded (guard C.calls) Sealed value (fun s t => { s with inner := t }) (fun _ _ _ => none)
    (fun _ => none) (fun _ _ => false) fun _ _ => false

theorem lawful (hC : C.Lawful) (value : BitVec 64) : (component C value).Lawful := by
  refine hC.guarded (sound C.calls) (fun _ _ _ => ⟨rfl, fun _ hn => by cases hn⟩) ?_
  rintro h K l b h' hh rfl heq
  obtain ⟨g, t, -, -, hinner, -, hpost⟩ := (sound C.calls).allocate_some heq
  have hlen := (hpost (hC.allocate_satisfies hh.inner hinner)).2.len_eq
  simp only at hlen
  exact ⟨Component.false_iff_lt_self hlen.symm, Component.false_iff_lt_self hlen.symm⟩

theorem component_fresh {s : σ} {m : Mem} (hinner : C.inv ⟨s, m⟩ ∅) (seed : BitVec 64) :
    (component C (newWithSeed s seed).canaryValue).inv ⟨newWithSeed s seed, m⟩ ∅ :=
  ⟨⟨∅, (Set.image_empty _).symm, Guard.holds_empty hinner⟩, rfl⟩

end Canary

namespace CacheJitter

/-- The request goes through, and the inner slice would be longer than it. -/
def roomy (C : Component w σ) (l : NonZeroLayout w) (h : Heap (CacheJitter w σ)) : Bool :=
  match h.alloc.innerLayoutFor l with
  | none => C.roomy l (h.map CacheJitter.inner)
  | some _ => false

def component (C : Component w σ) (p : JitterParams w) : Component w (CacheJitter w σ) :=
  C.guarded (guard C.calls) Jittered p (fun s t => { s with inner := t }) (fun _ _ _ => none)
    (fun _ => none) (roomy C) (roomy C)

theorem lawful (hC : C.Lawful) (p : JitterParams w) : (component C p).Lawful := by
  refine hC.guarded (sound C.calls) (fun _ _ _ => ⟨rfl, fun _ hn => by cases hn⟩) ?_
  rintro h K l b h' hh rfl heq
  change allocate C.calls l h = (some b, h') at heq
  rw [Option.getD_none, and_self, roomy]
  rcases hl : h.alloc.innerLayoutFor l with _ | _ | il
  · rcases hinner : C.calls.allocate l (h.map CacheJitter.inner) with ⟨_ | block, t⟩
    · simp [allocate, hl, hinner] at heq
    · simp only [allocate, hl, hinner, Prod.mk.injEq, Option.some.injEq] at heq
      obtain ⟨rfl, -⟩ := heq
      exact hC.roomy_iff hh.inner hinner
  · simp [allocate, hl] at heq
  · rcases hinner : C.calls.allocate il (h.map CacheJitter.inner) with ⟨_ | block, t⟩
    · simp [allocate, hl, hinner] at heq
    · -- the slice is as long as the request
      simp only [allocate, hl, hinner, Prod.mk.injEq, Option.some.injEq] at heq
      obtain ⟨rfl, -⟩ := heq
      exact Component.false_iff_lt_self rfl

theorem component_fresh {s : σ} {m : Mem} (hinner : C.inv ⟨s, m⟩ ∅) (p : JitterParams w)
    (rng : BitVec 64) : (component C p).inv ⟨⟨p, s, rng⟩, m⟩ ∅ :=
  ⟨⟨∅, (Set.image_empty _).symm, Guard.holds_empty hinner⟩, rfl⟩

end CacheJitter

namespace Quarantine

variable {E : Nat} {h : Heap (Quarantine w σ E)} {L : Set (Grant w)}
  {G : Fin E → Option (Grant w)} {g : Grant w}

def component (C : Component w σ) (E : Nat) : Component w (Quarantine w σ E) where
  calls := allocator E C.calls
  range := C.range.map fun (R, c) =>
    (R.through Quarantine.inner fun s t => { s with inner := t }, c)
  territory := C.territory
  inv := fun h L => ∃ G, Holds C.inv h L G
  answer := C.answer
  roomy := fun l h => C.roomy l (heap h)
  leaks := fun l h => C.leaks l (heap h)
  remoteFree := fun ptr l h => do
    let t ← C.remoteFree ptr l (heap h)
    some ⟨{ h.alloc with inner := t.alloc }, t.mem⟩

/-- A free gives up a block of the ring, if it touches the inner allocator at all. -/
theorem deallocate_frame (hC : C.Lawful) (hh : Holds C.inv h L G) (g : Grant w) :
    Set.EqOn (deallocate C.calls g.block.ptr g.layout h).mem h.mem C.territoryᶜ := by
  rcases hcell : G h.alloc.next with _ | p
  · have hnone : h.alloc.ring h.alloc.next = none := by rw [hh.ring_eq, hcell]; rfl
    have hheap := heap_deallocate_none (A := C.calls) (l := g.layout) g.block.ptr hnone
    exact fun x _ => congrFun (congrArg Heap.mem hheap) x
  · have hsome : h.alloc.ring h.alloc.next = some p.ticket := by rw [hh.ring_eq, hcell]; rfl
    have hheap := heap_deallocate_some (A := C.calls) (l := g.layout) g.block.ptr hsome
    have hframe := hC.deallocate_frame hh.inner (Or.inr ⟨_, hcell⟩ : p ∈ L ∪ held G)
    exact fun x hx => (congrFun (congrArg Heap.mem hheap) x).trans (hframe hx)

theorem allocate_inner {h' : Heap (Quarantine w σ E)} {l : NonZeroLayout w} {b : Block}
    (heq : (component C E).calls.allocate l h = (some b, h')) :
    C.calls.allocate l (heap h) = (some b, (C.calls.allocate l (heap h)).2) := by
  rcases hcall : C.calls.allocate l (heap h) with ⟨r, t⟩
  simp only [component, allocator, allocate, hcall, Prod.mk.injEq] at heq
  obtain ⟨rfl, -⟩ := heq
  rfl

theorem lawful (hC : C.Lawful) (E : Nat) : (component C E).Lawful where
  toHonoursCore := honoursCore hC.toHonoursCore
  subset := by
    rintro h L g ⟨G, hh⟩ hg
    exact hC.subset hh.inner (Or.inl hg)
  allocate_frame := by
    rintro h L l ⟨G, hh⟩
    exact hC.allocate_frame (l := l) hh.inner
  deallocate_frame := by
    rintro h L g ⟨G, hh⟩ -
    exact deallocate_frame hC hh g
  mem_congr := by
    rintro h L m ⟨G, hh⟩ hm
    have hsub := Set.sdiff_subset_sdiff_right (s := C.territory)
      (liveBytes_mono (Set.subset_union_left : L ⊆ L ∪ held G))
    exact ⟨G, hh.ring_eq, hC.mem_congr hh.inner (hm.mono hsub), hh.injective, hh.fresh⟩
  range_spec := by
    intro R c hR
    obtain ⟨⟨R', c'⟩, hR', heq⟩ := Option.map_eq_some_iff.mp hR
    cases heq
    obtain ⟨hterritory, hblock⟩ := hC.range_spec hR'
    refine ⟨hterritory, ?_⟩
    rintro h L ⟨G, hh⟩
    exact hblock hh.inner
  answer_eq := by
    rintro h L g ⟨G, hh⟩ hg
    exact hC.answer_eq hh.inner (Or.inl hg)
  answer_le := by
    rintro h L g n ⟨G, hh⟩ hg hn
    exact hC.answer_le hh.inner (Or.inl hg) hn
  roomy_iff := by
    rintro h L l b h' ⟨G, hh⟩ heq
    exact hC.roomy_iff hh.inner (allocate_inner heq)
  leaks_iff := by
    rintro h L l b h' ⟨G, hh⟩ heq
    exact hC.leaks_iff hh.inner (allocate_inner heq)
  remote_free := by
    rintro h L g h' ⟨G, hh⟩ hg hcall
    simp only [component, Option.bind_eq_bind, Option.bind_eq_some_iff, Option.some.injEq] at hcall
    obtain ⟨t, hfree, rfl⟩ := hcall
    obtain ⟨hinv, hmem⟩ := hC.remote_free hh.inner (Or.inl hg) hfree
    have hring : g ∉ held G := by
      rintro ⟨_, hj⟩
      exact hh.fresh hj hg
    rw [Set.union_sdiff_distrib, Set.sdiff_singleton_eq_self hring] at hinv
    exact ⟨⟨G, hh.ring_eq, hinv, hh.injective, fun hj hmem => hh.fresh hj hmem.1⟩, hmem⟩

theorem component_fresh {s : σ} {m : Mem} (hinner : C.inv ⟨s, m⟩ ∅) (hE : 0 < E) :
    (component C E).inv ⟨new w s hE, m⟩ ∅ := ⟨_, holds_new hE hinner⟩

end Quarantine

end ForgeAlloc
