import ForgeAlloc.Hardening.Canary
import ForgeAlloc.Core.GuardRun
import ForgeAlloc.Backing.Inline
import ForgeAlloc.Layout.Bump

set_option autoImplicit false

/-! # Runs of `Canary`

`Canary` over any allocator that meets the contract, in runs that allocate, free live blocks and
write into live blocks. Every live block is sealed (`Sealed`), so its words are intact and the
next free succeeds; a block whose words have been changed from outside makes the free panic before
the inner allocator sees the block.
-/

namespace ForgeAlloc

open MachineInt ByteMemory

namespace Canary

variable {w : Nat} {σ : Type} {A : Allocator w σ} {I : Heap σ → Set (Grant w) → Prop}
  {value : BitVec 64} {c c' : Carving w} {m : Mem}

/-- The bytes of a block and of its two words. -/
def footprint (c : Carving w) : Set Nat :=
  (preWord c).bytes ∪ c.user.block.bytes ∪ (postWord c).bytes

theorem Sealed.footprint_subset (hs : Sealed value c m) : footprint c ⊆ c.inner.block.bytes := by
  obtain ⟨hpre, huser, hpost, -⟩ := hs.parts
  exact Set.union_subset (Set.union_subset hpre huser) hpost

/-- The block is where the request wants it, inside the inner block and apart from its words. -/
structure Placed (c : Carving w) : Prop where
  aligned : c.user.layout.align ∣ c.user.block.ptr
  exact_len : c.user.block.len = c.user.layout.size
  inside : footprint c ⊆ c.inner.block.bytes
  apart_pre : Disjoint c.user.block.bytes (preWord c).bytes
  apart_post : Disjoint c.user.block.bytes (postWord c).bytes

theorem Sealed.placed (hs : Sealed value c m)
    (hsat : Satisfies c.inner.block c.inner.layout) : Placed c := by
  obtain ⟨-, -, -, hdpre, hdpost, -⟩ := hs.parts
  constructor
  · exact ((carves value).satisfies hs hsat).aligned
  · exact hs.len_eq
  · exact hs.footprint_subset
  · exact hdpre.symm
  · exact hdpost

/-- **Runs of `Canary`.** Live blocks are placed as requested and apart from each other and from
every canary word; the inner allocator gets back exactly the tickets it issued; no check trips;
a changed word makes the free panic with the inner allocator untouched; a request whose parts do
not fit into a layout is refused. -/
theorem canary_run_correct (hA : HonoursCore A I) {inner : σ} {m : Mem} (hinit : I ⟨inner, m⟩ ∅)
    (seed : BitVec 64) {ops : List (GuardOp w)} {s : GuardRun w (Canary (Recorded w σ)) CanaryPanic}
    (hrun : Machine.run (GuardRun.step (guard (recorded A)))
      (GuardRun.init (newWithSeed ⟨inner, [], []⟩ seed) m) ops = some s) :
    (∀ c ∈ s.live, Placed c) ∧
    (∀ c ∈ s.live, ∀ c' ∈ s.live, c ≠ c' → Disjoint (footprint c) (footprint c')) ∧
    (s.heap.alloc.inner.received = s.freed.map fun c => c.inner.ticket) ∧
    (s.heap.alloc.inner.issued.Perm ((s.freed ++ s.live).map fun c => c.inner.ticket)) ∧
    s.panicked = none ∧
    (∀ c ∈ s.live, ∀ m' : Mem,
      (readU64 m' (preWord c).ptr ≠ readU64 s.heap.mem (preWord c).ptr ∨
        readU64 m' (postWord c).ptr ≠ readU64 s.heap.mem (postWord c).ptr) →
      ∃ p, deallocate (recorded A) c.user.block.ptr c.user.layout ⟨s.heap.alloc, m'⟩ =
        (some p, ⟨s.heap.alloc, m'⟩)) ∧
    (∀ l : NonZeroLayout w,
      (∀ il, innerLayout l = some il → il.size = max 8 l.align + l.size + 8 ∧
        il.align = max 8 l.align) ∧
      (innerLayout l = none ↔ isizeMax w < max 8 l.align + l.size + 8 + (max 8 l.align - 1)) ∧
      (innerLayout l = none → allocate (recorded A) l s.heap = (none, s.heap)) ∧
      (allocate (recorded A) l s.heap).1.isSome = (serves (recorded A) l s.heap).isSome) := by
  have hsound := sound (recorded A)
  have hstart := GuardRun.Inv.init (W := guard (recorded A)) (P := Sealed)
    (s := newWithSeed ⟨inner, [], []⟩ seed) (m := m) hinit rfl rfl
  have hinv := GuardRun.run_inv hsound hA hstart hrun
  have hrec := recorded_honoursCore hA
  have hsealed : ∀ c ∈ s.live, Sealed s.heap.alloc.value c s.heap.mem :=
    fun c hc => hinv.holds.holds c hc
  refine ⟨fun c hc => ?_, fun c hc c' hc' hne => ?_, hinv.received_eq, hinv.issued_perm,
    hinv.panicked_eq, fun c hc m' hchanged => ?_, fun l => ⟨fun il hil => ?_, ?_, fun hnone => ?_,
      hinv.isSome_allocate hsound hA l⟩⟩
  · exact (hsealed c hc).placed (hinv.holds.inner_satisfies hrec hc)
  · have hinner := hinv.holds.inner_disjoint hrec hc hc' hne
    exact hinner.mono (hsealed c hc).footprint_subset (hsealed c' hc').footprint_subset
  · have hpre : readU64 s.heap.mem (preWord c).ptr = s.heap.alloc.value.toNat :=
      (hsealed c hc).pre_eq
    have hpost : readU64 s.heap.mem (postWord c).ptr = s.heap.alloc.value.toNat :=
      (hsealed c hc).post_eq
    rw [hpre, hpost] at hchanged
    exact deallocate_changed hchanged
  · rw [← prePad_eq_max]
    exact innerLayout_eq_some hil
  · rw [← prePad_eq_max]
    exact innerLayout_eq_none_iff
  · simp only [allocate, hnone]

/-! ## A buffer of 256 bytes -/

def buffer256 : Heap (BumpArena (InlineBacked 64 256)) :=
  ⟨⟨.lit 64 256 4096 (Eq.refl true), 256, 0⟩, fun _ => 0⟩

theorem buffer256_holds :
    BumpArena.Holds (InlineBacked.range 64 256) 4096 buffer256 (∅ : Set (Grant 64)) :=
  BumpArena.holds_new (b := InlineBacked.lit 64 256 4096 (Eq.refl true)) rfl _

/-- Two blocks of 13 bytes, one of them written to and freed. -/
theorem canary_run_correct_buffer256 :
    ∃ s, Machine.run (GuardRun.step (guard (recorded
          (BumpArena.allocator 64 (InlineBacked.range 64 256)))))
        (GuardRun.init (newWithSeed ⟨buffer256.alloc, [], []⟩ 0#64) buffer256.mem)
        [.allocate (.lit 64 13 1 (Eq.refl true)), .allocate (.lit 64 13 32 (Eq.refl true)),
          .write 1 12 255, .deallocate 1] = some s ∧
      s.panicked = none ∧ (∀ c ∈ s.live, Placed c) ∧
      s.heap.alloc.inner.received = s.freed.map fun c => c.inner.ticket := by
  have hsome : (Machine.run (GuardRun.step (guard (recorded
        (BumpArena.allocator 64 (InlineBacked.range 64 256)))))
      (GuardRun.init (newWithSeed ⟨buffer256.alloc, [], []⟩ 0#64) buffer256.mem)
      [.allocate (.lit 64 13 1 (Eq.refl true)), .allocate (.lit 64 13 32 (Eq.refl true)),
        .write 1 12 255, .deallocate 1]).isSome := by decide +kernel
  obtain ⟨s, hrun⟩ := Option.isSome_iff_exists.mp hsome
  have hA := BumpArena.honours (w := 64) (InlineBacked.range_lawful 64 256) 4096 (by decide)
  obtain ⟨hplaced, -, hreceived, -, hpanicked, -⟩ :=
    canary_run_correct hA.toHonoursCore buffer256_holds 0#64 hrun
  exact ⟨s, hrun, hpanicked, hplaced, hreceived⟩

end Canary

end ForgeAlloc
