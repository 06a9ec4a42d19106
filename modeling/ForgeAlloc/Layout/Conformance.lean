import ForgeAlloc.Backing.Inline
import ForgeAlloc.Core.Testing
import ForgeAlloc.Layout.ArenaComponents

set_option autoImplicit false

/-! # Conformance

A component that meets the contract passes the conformance helpers as long as it serves their
requests. The one exception is the last check of `assert_combined_invariants`, which takes an address
half the address space away to be outside any range: a longer range fails it.
-/

namespace ForgeAlloc

open MachineInt ByteMemory

variable {w : Nat} {σ : Type} {C : Component w σ} {h : Heap σ}

/-- **A component that meets the contract passes the conformance helpers.** With nothing out,

* `assert_allocator_respects_alignment` does not fail;
* `assert_allocator_basic_round_trip` fails only where a request is not served;
* over a range, `assert_combined_invariants` fails besides only where the range is longer than
  `isize::MAX`, with the pointer that it takes to be far outside.

Where they do not fail, nothing is out again. -/
theorem Component.Lawful.conforms (hC : C.Lawful) (hw : 16 ≤ w) (hinv : C.inv h ∅) :
    Outcome (fun _ => False) (fun h' => C.inv h' ∅)
        (assertAllocatorRespectsAlignment C.calls h) ∧
      Outcome ContractFailure.Refused (fun h' => C.inv h' ∅)
        (assertAllocatorBasicRoundTrip C.calls h) ∧
      ∀ R c, C.range = some (R, c) →
        Outcome (fun f => f.Refused ∨ f = .containsOutside ∧ isizeMax w < c.len)
          (fun h' => C.inv h' ∅) (assertCombinedInvariants C.calls R h) := by
  have hcore := hC.toHonoursCore
  refine ⟨alignments_conform hcore hw (fun k hk => List.mem_range.mp hk) hinv,
    roundTrip_conforms hcore hw hinv fun _ hf => hf, fun R c hR => ?_⟩
  obtain ⟨hterritory, hblock⟩ := hC.range_spec hR
  have hends : ∀ {h L}, C.inv h L → R.base h.alloc = c.ptr ∧ R.size h.alloc = c.len ∧
      R.base h.alloc + R.size h.alloc ≤ 2 ^ w := by
    intro h L hinv
    obtain ⟨hc, -, hend⟩ := hblock hinv
    have hbase : R.base h.alloc = c.ptr := congrArg Block.ptr hc
    have hsize : R.size h.alloc = c.len := congrArg Block.len hc
    exact ⟨hbase, hsize, by rw [hbase, hsize]; exact hend⟩
  obtain ⟨l, hl, hsize, halign⟩ : ∃ l : NonZeroLayout w,
      NonZeroLayout.fromSizeAlign w 64 8 = some l ∧ l.size = 64 ∧ l.align = 8 :=
    exists_layout (k := 3) hw rfl (by decide)
  rw [assertCombinedInvariants, fixedRange_conforms (hends hinv).2.2, hl]
  refine Outcome.bind (Q := fun _ => True) trivial fun _ _ => ?_
  refine Outcome.expect ?_
  refine Outcome.expectBlock (Or.inl (Or.inr (Or.inr (Or.inr rfl)))) fun p h' hcall => ?_
  have hiss := hcore.allocate_some hinv hcall
  have hsat := hcore.satisfies hiss.inv (Set.mem_insert _ _)
  obtain ⟨hbase, hlen, hend⟩ := hends hiss.inv
  have hcontains : R.contains w p.ptr h'.alloc = true := by
    have hpos : 0 < p.len := hsat.len_pos
    have hspace : p.ptr + p.len ≤ 2 ^ w := hsat.inSpace
    have hfirst : p.ptr ∈ p.bytes := ⟨le_rfl, Nat.lt_add_of_pos_right hpos⟩
    have hin := hC.subset hiss.inv (Set.mem_insert _ _) hfirst
    rw [hterritory, Block.mem_bytes] at hin
    rw [FixedRange.contains_iff (by omega) hend, hbase, hlen]
    exact hin
  refine Outcome.require hcontains ?_
  have hfree := (hcore.deallocate (g := ⟨p, l⟩) hiss.inv (Set.mem_insert _ _)).inv
  rw [Set.insert_sdiff_of_mem _ (Set.mem_singleton _), Set.empty_sdiff] at hfree
  have hrest := roundTrip_conforms hcore hw hfree
    (E := fun f => f.Refused ∨ f = .containsOutside ∧ isizeMax w < c.len) fun _ hf => Or.inl hf
  rcases Nat.lt_or_ge (isizeMax w) c.len with hlong | hshort
  · -- the last check may fail
    refine Outcome.bind (Q := fun _ => True) ?_ fun _ _ => hrest
    rw [require]
    split
    · trivial
    · exact Or.inr ⟨rfl, hlong⟩
  · refine Outcome.require (fun _ => contains_outside hend ?_) hrest
    rw [hlen]
    exact hshort

/-- An arena of a kilobyte. -/
abbrev kilobyte : Component 64 (BumpArena (InlineBacked 64 1024)) :=
  BumpArena.component 64 (InlineBacked.range 64 1024) 4096 ⟨4096, 1024⟩

def emptyKilobyte : Heap (BumpArena (InlineBacked 64 1024)) :=
  ⟨⟨.lit 64 1024 4096 (Eq.refl true), 1024, 0⟩, fun _ => 0⟩

theorem Component.Lawful.conforms_kilobyte : ∃ h',
    assertCombinedInvariants kilobyte.calls (BumpArena.range (InlineBacked.range 64 1024))
      emptyKilobyte = .ok h' ∧ kilobyte.inv h' ∅ := by
  have hlawful : kilobyte.Lawful :=
    BumpArena.lawful (InlineBacked.range_lawful 64 1024) (by decide) ⟨4096, 1024⟩
  have hstart : kilobyte.inv emptyKilobyte ∅ :=
    BumpArena.component_fresh (b := InlineBacked.lit 64 1024 4096 (Eq.refl true)) rfl fun _ => 0
  obtain ⟨-, -, hcombined⟩ := hlawful.conforms (by decide) hstart
  have houtcome := hcombined _ _ rfl
  have hok : (assertCombinedInvariants kilobyte.calls (BumpArena.range (InlineBacked.range 64 1024))
      emptyKilobyte).toOption.isSome := by decide +kernel
  cases hresult : assertCombinedInvariants kilobyte.calls
      (BumpArena.range (InlineBacked.range 64 1024)) emptyKilobyte with
  | ok h' =>
      rw [hresult] at houtcome
      exact ⟨h', rfl, houtcome⟩
  | error f =>
      rw [hresult] at hok
      cases hok

end ForgeAlloc
