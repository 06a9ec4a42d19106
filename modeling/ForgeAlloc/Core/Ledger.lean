import ForgeAlloc.Core.Allocator
import ForgeAlloc.Library.Run

set_option autoImplicit false

/-! # An allocator as its callers see it

A `Ledger` is the list of the blocks an allocator has issued and not taken back. It carries the
contract as its invariant: every block satisfies its layout, and no two share a byte. An allocator
about which nothing else is known may issue any block that keeps the invariant (`issue`), and may
fail whenever it likes. What is proved of a wrapper over such an allocator holds over every
allocator that meets the contract: what its callers do with it is a run of its ledger
(`HonoursCore.run_ledger`).
-/

namespace ForgeAlloc

open ByteMemory

variable {w : Nat}

instance (b : Block) (l : NonZeroLayout w) : Decidable (Satisfies b l) :=
  decidable_of_iff (l.align ∣ b.ptr ∧ l.size ≤ b.len ∧ 0 < b.ptr ∧ b.ptr + b.len ≤ 2 ^ w)
    ⟨fun h => ⟨h.1, h.2.1, h.2.2.1, h.2.2.2⟩,
      fun h => ⟨h.aligned, h.large, h.nonnull, h.inSpace⟩⟩

instance (b c : Block) : Decidable (Disjoint b.bytes c.bytes) :=
  decidable_of_iff _ Block.disjoint_iff.symm

structure Ledger (w : Nat) where
  grants : List (Grant w)
  satisfies : ∀ g ∈ grants, Satisfies g.block g.layout
  disjoint : grants.Pairwise fun g g' => Disjoint g.block.bytes g'.block.bytes

namespace Ledger

def empty (w : Nat) : Ledger w := ⟨[], List.forall_mem_nil _, List.Pairwise.nil⟩

/-- The block `b` is issued for `l`, if the contract lets an allocator do so. -/
def issue (L : Ledger w) (l : NonZeroLayout w) (b : Block) : Option (Ledger w) :=
  if h : Satisfies b l ∧ ∀ g ∈ L.grants, Disjoint b.bytes g.block.bytes then
    some ⟨⟨b, l⟩ :: L.grants, List.forall_mem_cons.mpr ⟨h.1, L.satisfies⟩,
      List.pairwise_cons.mpr ⟨h.2, L.disjoint⟩⟩
  else none

/-- The grant `g` is taken back. -/
def take (L : Ledger w) (g : Grant w) : Ledger w where
  grants := L.grants.erase g
  satisfies := fun g' hg' => L.satisfies g' (List.mem_of_mem_erase hg')
  disjoint := L.disjoint.sublist List.erase_sublist

variable {L L' : Ledger w} {l : NonZeroLayout w} {b : Block} {g : Grant w}

theorem issue_eq_some (h : L.issue l b = some L') :
    L'.grants = ⟨b, l⟩ :: L.grants ∧ Satisfies b l ∧
      ∀ g ∈ L.grants, Disjoint b.bytes g.block.bytes := by
  unfold issue at h
  split at h
  case isTrue hok =>
      cases h
      exact ⟨rfl, hok⟩
  case isFalse => cases h

theorem nodup (L : Ledger w) : L.grants.Nodup := by
  refine L.disjoint.imp_of_mem fun {g g'} hg _ hdisj => ?_
  rintro rfl
  exact not_disjoint_self (L.satisfies g hg).len_pos hdisj

/-- **The sizes of the blocks that are out add up to less than the address space.** -/
theorem sum_size_lt (L : Ledger w) : (L.grants.map fun g => g.layout.size).sum < 2 ^ w := by
  have hlen : ((L.grants.map Grant.block).map Block.len).sum ≤ 2 ^ w - 1 := by
    refine sum_len_le (List.pairwise_map.mpr L.disjoint) fun b hb x hx => ?_
    obtain ⟨g, hg, rfl⟩ := List.mem_map.mp hb
    have hsat := L.satisfies g hg
    exact ⟨hsat.nonnull.trans_le hx.1, hx.2.trans_le hsat.inSpace⟩
  have hle : (L.grants.map fun g => g.layout.size).sum ≤
      ((L.grants.map Grant.block).map Block.len).sum := by
    rw [List.map_map]
    exact List.sum_le_sum fun g hg => (L.satisfies g hg).large
  have hpos := Nat.two_pow_pos w
  omega

/-- A move of the ledger. A request that fails is none. -/
inductive Move (w : Nat)
  | issue (l : NonZeroLayout w) (b : Block)
  | take (g : Grant w)

def step (L : Ledger w) : Move w → Option (Ledger w)
  | .issue l b => L.issue l b
  | .take g => if g ∈ L.grants then some (L.take g) else none

end Ledger

/-! ## The allocators that a ledger stands for -/

variable {σ : Type} {A : Allocator w σ} {Inv : Heap σ → Set (Grant w) → Prop} {h h' : Heap σ}
  {L : Ledger w} {l : NonZeroLayout w} {b : Block} {g : Grant w}

/-- A block that is issued is one that the ledger may issue. -/
theorem HonoursCore.exists_issue (hA : HonoursCore A Inv) (hinv : Inv h {g | g ∈ L.grants})
    (hcall : A.allocate l h = (some b, h')) :
    ∃ L', L.issue l b = some L' ∧ Inv h' {g | g ∈ L'.grants} := by
  have hiss := hA.allocate_some hinv hcall
  have hok : Satisfies b l ∧ ∀ g ∈ L.grants, Disjoint b.bytes g.block.bytes :=
    ⟨hA.allocate_satisfies hinv hcall, fun g hg => hiss.fresh g hg⟩
  refine ⟨_, dif_pos hok, ?_⟩
  rw [List.setOfPred_mem_cons]
  exact hiss.inv

theorem HonoursCore.take_inv (hA : HonoursCore A Inv) (hinv : Inv h {g | g ∈ L.grants})
    (hg : g ∈ L.grants) :
    Inv (A.deallocate g.block.ptr g.layout h) {g' | g' ∈ (L.take g).grants} := by
  show Inv _ {g' | g' ∈ L.grants.erase g}
  rw [set_erase L.nodup]
  exact (hA.deallocate hinv hg).inv

/-- An allocator and the blocks that its callers have. -/
structure CallRun (w : Nat) (σ : Type) where
  heap : Heap σ
  out : List (Grant w)

inductive Call (w : Nat)
  | allocate (l : NonZeroLayout w)
  | deallocate (g : Grant w)

namespace CallRun

def step (A : Allocator w σ) (s : CallRun w σ) : Call w → Option (CallRun w σ)
  | .allocate l =>
      match A.allocate l s.heap with
      | (none, h) => some ⟨h, s.out⟩
      | (some b, h) => some ⟨h, ⟨b, l⟩ :: s.out⟩
  | .deallocate g =>
      if g ∈ s.out then some ⟨A.deallocate g.block.ptr g.layout s.heap, s.out.erase g⟩ else none

/-- The blocks that are out are those of the ledger. -/
structure Follows (Inv : Heap σ → Set (Grant w) → Prop) (s : CallRun w σ) (L : Ledger w) :
    Prop where
  out_eq : s.out = L.grants
  inv : Inv s.heap {g | g ∈ L.grants}

variable {s s' : CallRun w σ} {call : Call w}

/-- A call is a move of the ledger, or fails and leaves it as it is. -/
theorem Follows.step (hA : HonoursCore A Inv) (hf : Follows Inv s L)
    (hstep : CallRun.step A s call = some s') :
    ∃ moves L', Machine.run Ledger.step L moves = some L' ∧ Follows Inv s' L' := by
  cases call with
  | allocate l =>
      simp only [CallRun.step] at hstep
      split at hstep
      case h_1 h hcall =>
          cases hstep
          exact ⟨[], L, rfl, hf.out_eq, (hA.allocate_none hf.inv hcall).inv⟩
      case h_2 b h hcall =>
          cases hstep
          obtain ⟨L', hissue, hinv⟩ := hA.exists_issue hf.inv hcall
          refine ⟨[.issue l b], L', by rw [Machine.run_cons, Ledger.step, hissue]; rfl, ?_, hinv⟩
          rw [(Ledger.issue_eq_some hissue).1, hf.out_eq]
  | deallocate g =>
      simp only [CallRun.step] at hstep
      split at hstep
      case isTrue hg =>
          cases hstep
          have hmem : g ∈ L.grants := hf.out_eq ▸ hg
          refine ⟨[.take g], L.take g, by rw [Machine.run_cons, Ledger.step, if_pos hmem]; rfl, ?_,
            hA.take_inv hf.inv hmem⟩
          show s.out.erase g = L.grants.erase g
          rw [hf.out_eq]
      case isFalse => cases hstep

end CallRun

/-- **What the callers of an allocator do with it is a run of its ledger.** -/
theorem HonoursCore.run_ledger (hA : HonoursCore A Inv) (hinv : Inv h {g | g ∈ L.grants})
    {calls : List (Call w)} {s : CallRun w σ}
    (hrun : Machine.run (CallRun.step A) ⟨h, L.grants⟩ calls = some s) :
    ∃ moves L', Machine.run Ledger.step L moves = some L' ∧ CallRun.Follows Inv s L' := by
  refine Machine.run_invariant (P := fun s => ∃ moves L', Machine.run Ledger.step L moves = some L' ∧
    CallRun.Follows Inv s L') ?_ ⟨[], L, rfl, rfl, hinv⟩ hrun
  rintro s call s' ⟨moves, L', hmoves, hf⟩ hstep
  obtain ⟨more, L'', hmore, hf'⟩ := hf.step hA hstep
  exact ⟨moves ++ more, L'', by rw [Machine.run_append, hmoves]; exact hmore, hf'⟩

end ForgeAlloc
