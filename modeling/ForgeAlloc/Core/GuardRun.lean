import ForgeAlloc.Core.Carving
import ForgeAlloc.Library.Run

set_option autoImplicit false

/-! # Runs of a guard

A run allocates, frees live blocks and writes into live blocks, over an inner allocator that keeps
a record of its calls (`recorded A`). The state remembers each block with the inner block that
serves it, the blocks freed so far, and the last panic.

`run_inv` is the rule for every sound guard: its invariant holds in every state a run reaches, no
call has panicked, and what the inner allocator has been handed back are the tickets it issued
for the freed blocks, in the order of the frees.
-/

namespace ForgeAlloc

open ByteMemory

structure GuardRun (w : Nat) (τ π : Type) where
  heap : Heap τ
  live : List (Carving w)
  /-- The blocks freed so far, the newest first. -/
  freed : List (Carving w)
  panicked : Option π

inductive GuardOp (w : Nat)
  | allocate (l : NonZeroLayout w)
  /-- Free the live block number `i`. -/
  | deallocate (i : Nat)
  /-- The holder of the live block number `i` writes a byte into it. -/
  | write (i off : Nat) (v : UInt8)

namespace GuardRun

variable {w : Nat} {σ τ κ π : Type}

def init (s : τ) (m : Mem) : GuardRun w τ π := ⟨⟨s, m⟩, [], [], none⟩

def step (W : Guard w (Recorded w σ) τ κ π) (s : GuardRun w τ π) :
    GuardOp w → Option (GuardRun w τ π)
  | .allocate l =>
      match W.allocate l s.heap, W.serves l s.heap with
      | (some b, h), some g => some { s with heap := h, live := ⟨⟨b, l⟩, g⟩ :: s.live }
      | (_, h), _ => some { s with heap := h }
  | .deallocate i =>
      match s.live[i]? with
      | none => none
      | some c =>
          match W.deallocate c.user.block.ptr c.user.layout s.heap with
          | (none, h) =>
              some { s with heap := h, live := s.live.erase c, freed := c :: s.freed }
          | (some p, h) => some { s with heap := h, panicked := some p }
  | .write i off v =>
      match s.live[i]? with
      | none => none
      | some c =>
          if off < c.user.block.len then
            some { s with heap :=
              ⟨s.heap.alloc, writeByte s.heap.mem (c.user.block.ptr + off) v⟩ }
          else none

/-! ## The invariant -/

structure Inv (W : Guard w (Recorded w σ) τ κ π) (P : κ → Carving w → Mem → Prop)
    (I : Heap σ → Set (Grant w) → Prop) (k : κ) (s : GuardRun w τ π) : Prop where
  holds : W.Holds P (fun h L => I (Recorded.heap h) L) s.heap {c | c ∈ s.live}
  nodup : s.live.Nodup
  key_eq : W.key s.heap.alloc = k
  panicked_eq : s.panicked = none
  received_eq : (W.inner s.heap.alloc).received = s.freed.map fun c => c.inner.ticket
  issued_perm : (W.inner s.heap.alloc).issued.Perm
    ((s.freed ++ s.live).map fun c => c.inner.ticket)

variable {W : Guard w (Recorded w σ) τ κ π} {A : Allocator w σ} {P : κ → Carving w → Mem → Prop}
  {I : Heap σ → Set (Grant w) → Prop} {k : κ} {s s' : GuardRun w τ π} {l : NonZeroLayout w}

theorem Inv.init {s : τ} {m : Mem} (hinv : I (Recorded.heap (W.heap ⟨s, m⟩)) ∅)
    (hissued : (W.inner s).issued = []) (hreceived : (W.inner s).received = []) :
    Inv W P I (W.key s) (init s m) where
  holds := by
    have hempty : {c | c ∈ ([] : List (Carving w))} = ∅ :=
      Set.eq_empty_of_forall_notMem fun _ hc => List.not_mem_nil hc
    show W.Holds P _ ⟨s, m⟩ {c | c ∈ ([] : List (Carving w))}
    rw [hempty]
    exact Guard.holds_init hinv
  nodup := List.nodup_nil
  key_eq := rfl
  panicked_eq := rfl
  received_eq := hreceived
  issued_perm := by
    show (W.inner s).issued.Perm []
    rw [hissued]

/-- A request is served by a block of the inner allocator or not at all. -/
theorem Inv.isSome_allocate (hW : W.Sound (recorded A) P) (hA : HonoursCore A I)
    (hinv : Inv W P I k s) (l : NonZeroLayout w) :
    (W.allocate l s.heap).1.isSome = (W.serves l s.heap).isSome := by
  rcases hcall : W.allocate l s.heap with ⟨r, h⟩
  cases r with
  | none =>
      obtain ⟨hserves, -⟩ := hinv.holds.allocate_none hW (recorded_honoursCore hA) hcall
      rw [hserves]
      rfl
  | some b =>
      obtain ⟨g, t, hserves, -⟩ := hinv.holds.allocate_some hW (recorded_honoursCore hA) hcall
      rw [hserves]
      rfl

theorem Inv.step_allocate (hW : W.Sound (recorded A) P) (hA : HonoursCore A I)
    (hinv : Inv W P I k s) (hstep : step W s (.allocate l) = some s') : Inv W P I k s' := by
  have hrec := recorded_honoursCore hA
  rcases hcall : W.allocate l s.heap with ⟨r, h⟩
  cases r with
  | none =>
      obtain ⟨hserves, hholds, -⟩ := hinv.holds.allocate_none hW hrec hcall
      obtain ⟨-, hkey, hinner⟩ := hW.allocate_none hcall
      simp only [step, hcall, hserves, Option.some.injEq] at hstep
      subst hstep
      -- a refused request leaves the record as it was
      have hrecord : (W.inner h.alloc).issued = (W.inner s.heap.alloc).issued ∧
          (W.inner h.alloc).received = (W.inner s.heap.alloc).received := by
        rcases hinner with hsame | ⟨l', hnone⟩
        · have halloc : W.inner h.alloc = W.inner s.heap.alloc := congrArg Heap.alloc hsame
          rw [halloc]
          exact ⟨rfl, rfl⟩
        · obtain ⟨-, hheap⟩ := note_eq_none hnone
          exact ⟨congrArg (fun h => h.alloc.issued) hheap,
            congrArg (fun h => h.alloc.received) hheap⟩
      constructor
      · exact hholds
      · exact hinv.nodup
      · exact hkey.trans hinv.key_eq
      · exact hinv.panicked_eq
      · exact hrecord.2.trans hinv.received_eq
      · show (W.inner h.alloc).issued.Perm _
        rw [hrecord.1]
        exact hinv.issued_perm
  | some b =>
      obtain ⟨g, t, hserves, hinner, halloc, hholds, hfresh, -⟩ :=
        hinv.holds.allocate_some hW hrec hcall
      obtain ⟨-, -, -, hkey, -⟩ := hW.allocate_some hcall
      simp only [step, hcall, hserves, Option.some.injEq] at hstep
      subst hstep
      obtain ⟨-, ht⟩ := note_eq_some hinner
      have hrecord : W.inner h.alloc = t.alloc := halloc
      have hnew : (⟨⟨b, l⟩, g⟩ : Carving w) ∉ s.live := by
        intro hmem
        have hself := hfresh _ hmem
        exact not_disjoint_self (hinv.holds.inner_satisfies hrec hmem).len_pos hself
      rw [← List.setOfPred_mem_cons] at hholds
      constructor
      · exact hholds
      · exact List.nodup_cons.mpr ⟨hnew, hinv.nodup⟩
      · exact hkey.trans hinv.key_eq
      · exact hinv.panicked_eq
      · show (W.inner h.alloc).received = _
        rw [hrecord, ht]
        exact hinv.received_eq
      · show (W.inner h.alloc).issued.Perm _
        rw [hrecord, ht]
        show ((g.block.ptr, g.layout) :: (W.inner s.heap.alloc).issued).Perm
          ((s.freed ++ ⟨⟨b, l⟩, g⟩ :: s.live).map fun c => c.inner.ticket)
        have hmid : (s.freed ++ ⟨⟨b, l⟩, g⟩ :: s.live).Perm (⟨⟨b, l⟩, g⟩ :: (s.freed ++ s.live)) :=
          List.perm_middle
        exact (hinv.issued_perm.cons _).trans (hmid.map fun c : Carving w => c.inner.ticket).symm

theorem Inv.step_deallocate (hW : W.Sound (recorded A) P) (hA : HonoursCore A I)
    (hinv : Inv W P I k s) {i : Nat} (hstep : step W s (.deallocate i) = some s') :
    Inv W P I k s' := by
  rcases hget : s.live[i]? with _ | c
  · simp only [step, hget] at hstep
    cases hstep
  · have hmem : c ∈ s.live := List.mem_of_getElem? hget
    obtain ⟨h, m, hcall, hheap, hholds, -⟩ :=
      hinv.holds.deallocate hW (recorded_honoursCore hA) hmem
    obtain ⟨h₁, -, hcall', hkey, -⟩ := hW.deallocate (hinv.holds.holds c hmem)
      (hinv.holds.inner_satisfies (recorded_honoursCore hA) hmem)
    have hsame : h₁ = h := congrArg Prod.snd (hcall'.symm.trans hcall)
    subst hsame
    simp only [step, hget, hcall, Option.some.injEq] at hstep
    subst hstep
    rw [← set_erase hinv.nodup] at hholds
    constructor
    · exact hholds
    · exact hinv.nodup.erase c
    · exact hkey.trans hinv.key_eq
    · exact hinv.panicked_eq
    · calc (W.inner h₁.alloc).received = c.inner.ticket :: (W.inner s.heap.alloc).received :=
            congrArg (fun h => h.alloc.received) hheap
        _ = (c :: s.freed).map fun c => c.inner.ticket := by rw [hinv.received_eq, List.map_cons]
    · have hissued : (W.inner h₁.alloc).issued = (W.inner s.heap.alloc).issued :=
        congrArg (fun h => h.alloc.issued) hheap
      have hmid : (c :: s.freed ++ s.live.erase c).Perm (s.freed ++ s.live) :=
        List.perm_middle.symm.trans ((List.perm_cons_erase hmem).symm.append_left s.freed)
      show (W.inner h₁.alloc).issued.Perm _
      rw [hissued]
      exact hinv.issued_perm.trans (hmid.map fun c => c.inner.ticket).symm

theorem Inv.step_write (hW : W.Sound (recorded A) P) (hA : HonoursCore A I)
    (hinv : Inv W P I k s) {i off : Nat} {v : UInt8}
    (hstep : step W s (.write i off v) = some s') : Inv W P I k s' := by
  rcases hget : s.live[i]? with _ | c
  · simp only [step, hget] at hstep
    cases hstep
  · simp only [step, hget] at hstep
    split at hstep
    case isFalse => cases hstep
    case isTrue hoff =>
        cases hstep
        have hmem : c ∈ s.live := List.mem_of_getElem? hget
        refine ⟨hinv.holds.write hW (recorded_honoursCore hA) ?_, hinv.nodup, hinv.key_eq,
          hinv.panicked_eq, hinv.received_eq, hinv.issued_perm⟩
        exact writeByte_eqOn_live (g := c.user) (Set.mem_image_of_mem _ hmem) hoff s.heap.mem v

theorem Inv.step (hW : W.Sound (recorded A) P) (hA : HonoursCore A I) (hinv : Inv W P I k s)
    {op : GuardOp w} (hstep : step W s op = some s') : Inv W P I k s' := by
  cases op with
  | allocate l => exact hinv.step_allocate hW hA hstep
  | deallocate i => exact hinv.step_deallocate hW hA hstep
  | write i off v => exact hinv.step_write hW hA hstep

/-- **The invariant holds in every state a run reaches.** -/
theorem run_inv (hW : W.Sound (recorded A) P) (hA : HonoursCore A I) {ops : List (GuardOp w)}
    (hinv : Inv W P I k s) (hrun : Machine.run (GuardRun.step W) s ops = some s') :
    Inv W P I k s' :=
  Machine.run_invariant (fun _ _ _ hs hstep => hs.step hW hA hstep) hinv hrun

end GuardRun

end ForgeAlloc
