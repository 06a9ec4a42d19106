import ForgeAlloc.Layout.SizeClassedBacking
import ForgeAlloc.Layout.Bump
import ForgeAlloc.Core.Recording
import ForgeAlloc.Library.Run

set_option autoImplicit false

/-! # Runs of a `SizeClassed`

The client of a run allocates, frees live blocks and writes into them. The backing keeps a record
of its calls (`recorded`), so that the run shows what reaches it. Each live block carries its
origin, the class it was served from or `none` for the backing: a block came from the backing
exactly when the call left a new ticket in the record.

`ClassRun.Inv` says that the value holds a pool for each class, whose live slots are the live
blocks of that origin, and that the fallback blocks are the live blocks without a class.
-/

namespace ForgeAlloc

open MachineInt ByteMemory SlotPool Linked

/-- A live block with its origin. -/
structure LiveBlock (w n : Nat) where
  grant : Grant w
  origin : Option (Fin n)
  deriving DecidableEq

structure ClassRun (w n : Nat) (β : Type) where
  heap : Heap (SizeClassed w n (Recorded w β))
  live : List (LiveBlock w n)

inductive ClassOp (w n : Nat)
  | allocate (l : NonZeroLayout w)
  | deallocate (e : LiveBlock w n)
  | write (e : LiveBlock w n) (k : Nat) (v : UInt8)

namespace ClassRun

variable {w n : Nat} {β : Type} {A : Allocator w β} {R : FixedRange β}

/-- The class a block was served from, judged by the record before and after the call. -/
def originOf (before after : Heap (SizeClassed w n (Recorded w β))) (l : NonZeroLayout w) :
    Option (Fin n) :=
  if after.alloc.backing.issued.length = before.alloc.backing.issued.length then
    before.alloc.pickClass l.size l.align
  else none

def step (A : Allocator w β) (R : FixedRange β) (s : ClassRun w n β) :
    ClassOp w n → Option (ClassRun w n β)
  | .allocate l =>
      match SizeClassed.allocate (recorded A) (R.recorded w) l s.heap with
      | (none, h) => some ⟨h, s.live⟩
      | (some b, h) => some ⟨h, ⟨⟨b, l⟩, originOf s.heap h l⟩ :: s.live⟩
  | .deallocate e =>
      if e ∈ s.live then
        some ⟨SizeClassed.deallocate (recorded A) (R.recorded w) e.grant.block.ptr e.grant.layout
          s.heap, s.live.erase e⟩
      else none
  | .write e k v =>
      if e ∈ s.live ∧ k < e.grant.block.len then
        some { s with
          heap := ⟨s.heap.alloc, writeByte s.heap.mem (e.grant.block.ptr + k) v⟩ }
      else none

/-! ## Blocks by origin -/

def ofOrigin (o : Option (Fin n)) (live : List (LiveBlock w n)) : List (LiveBlock w n) :=
  live.filter fun e => e.origin = o

/-- The live blocks that the backing has issued. -/
def fallback (live : List (LiveBlock w n)) : List (Grant w) :=
  (ofOrigin none live).map LiveBlock.grant

variable {o : Option (Fin n)} {e : LiveBlock w n} {live : List (LiveBlock w n)}

theorem mem_ofOrigin : e ∈ ofOrigin o live ↔ e ∈ live ∧ e.origin = o := by
  simp [ofOrigin]

theorem ofOrigin_cons_self (e : LiveBlock w n) (live : List (LiveBlock w n)) :
    ofOrigin e.origin (e :: live) = e :: ofOrigin e.origin live := by
  simp [ofOrigin]

theorem ofOrigin_cons_of_ne (hne : e.origin ≠ o) :
    ofOrigin o (e :: live) = ofOrigin o live := by
  simp [ofOrigin, hne]

theorem ofOrigin_erase_self (he : e ∈ live) :
    (ofOrigin e.origin live).Perm (e :: ofOrigin e.origin (live.erase e)) := by
  rw [← ofOrigin_cons_self]
  exact (List.perm_cons_erase he).filter _

theorem ofOrigin_erase_of_ne (he : e ∈ live) (hne : e.origin ≠ o) :
    (ofOrigin o live).Perm (ofOrigin o (live.erase e)) := by
  have hcons : ofOrigin o (e :: live.erase e) = ofOrigin o (live.erase e) := ofOrigin_cons_of_ne hne
  rw [← hcons]
  exact (List.perm_cons_erase he).filter _

theorem mem_fallback (he : e ∈ live) (ho : e.origin = none) : e.grant ∈ fallback live :=
  List.mem_map_of_mem (mem_ofOrigin.mpr ⟨he, ho⟩)

/-! ## The invariant -/

open SizeClassed

variable {BInv : Heap β → Set (Grant w) → Prop} {cap base : Nat} {old : List (Grant w)}
  {regions : Fin n → Grant w} {s s' : ClassRun w n β} {pools : Fin n → Pool cap}
  {l : NonZeroLayout w}

/-- What the backing has granted for good: the blocks out before the run, and the regions. -/
def kept (old : List (Grant w)) (regions : Fin n → Grant w) : Set (Grant w) :=
  {g | g ∈ old} ∪ {g | g ∈ List.ofFn regions}

structure Inv (R : FixedRange β) (BInv : Heap β → Set (Grant w) → Prop) (base : Nat)
    (old : List (Grant w)) (regions : Fin n → Grant w) (s : ClassRun w n β)
    (pools : Fin n → Pool cap) : Prop where
  holds : Holds (R.recorded w) (Logged BInv old) base (kept old regions) regions s.heap pools
    (fallback s.live)
  class_live : ∀ i, ((ofOrigin (some i) s.live).map fun e => e.grant.block).Perm
    ((pools i).live.map (classSlot s.heap.alloc base i))
  satisfies : ∀ e ∈ s.live, Satisfies e.grant.block e.grant.layout
  disjoint : s.live.Pairwise fun e e' => Disjoint e.grant.block.bytes e'.grant.block.bytes

/-- A live block is a live slot of its class, or a fallback block. -/
theorem Inv.live_cases (hi : Inv R BInv base old regions s pools) (he : e ∈ s.live) :
    (∃ i, e.origin = some i ∧ ∃ j ∈ (pools i).live,
        e.grant.block = classSlot s.heap.alloc base i j) ∨
      (e.origin = none ∧ e.grant ∈ fallback s.live) := by
  cases horigin : e.origin with
  | none => exact Or.inr ⟨rfl, mem_fallback he horigin⟩
  | some i =>
      left
      have hmem : e.grant.block ∈ (ofOrigin (some i) s.live).map fun e => e.grant.block :=
        List.mem_map_of_mem (mem_ofOrigin.mpr ⟨he, horigin⟩)
      rw [(hi.class_live i).mem_iff, List.mem_map] at hmem
      obtain ⟨j, hj, heq⟩ := hmem
      exact ⟨i, rfl, j, hj, heq.symm⟩

theorem class_live_congr {t : SizeClassed w n (Recorded w β)}
    (hi : Inv R BInv base old regions s pools) (hslabs : t.slabs = s.heap.alloc.slabs)
    (hsizes : t.classSizes = s.heap.alloc.classSizes) (i : Fin n) :
    ((ofOrigin (some i) s.live).map fun e => e.grant.block).Perm
      ((pools i).live.map (classSlot t base i)) := by
  have heq : classSlot t base i = classSlot s.heap.alloc base i := by
    funext j
    simp only [classSlot, hslabs, hsizes]
  rw [heq]
  exact hi.class_live i

/-- A block that the backing issues overlaps no live block. -/
theorem Inv.backing_fresh (hi : Inv R BInv base old regions s pools)
    (hA : HonoursRange A R BInv) {b : Block}
    (hfresh : ∀ g ∈ kept old regions ∪ {g | g ∈ fallback s.live}, Disjoint b.bytes g.block.bytes)
    (he : e ∈ s.live) : Disjoint b.bytes e.grant.block.bytes := by
  rcases hi.live_cases he with ⟨i, -, j, hj, heq⟩ | ⟨-, hF⟩
  · have hlt : j < cap := ((pools i).lt_of_mem_live hj).trans_le (pools i).carved_le
    rw [heq]
    exact (hfresh _ (hi.holds.region_grant i)).mono_right
      (hi.holds.classSlot_within (recorded_honours hA old) hlt)
  · exact hfresh _ (Or.inr hF)

/-- A block from the backing leaves a ticket in the record. -/
theorem allocateBacking_issued {h h' : Heap (SizeClassed w n (Recorded w β))} {b : Block}
    (hcall : SizeClassed.allocateBacking (recorded A) l h = (some b, h')) :
    h'.alloc.backing.issued = (b.ptr, l) :: h.alloc.backing.issued := by
  have hsome : ((recorded A).allocate l ⟨h.alloc.backing, h.mem⟩).1 = some b :=
    congrArg Prod.fst hcall
  have hbacking : ((recorded A).allocate l ⟨h.alloc.backing, h.mem⟩).2.alloc = h'.alloc.backing :=
    congrArg (fun r => r.2.alloc.backing) hcall
  have hnote := (note_eq_some (h := ⟨h.alloc.backing, h.mem⟩) (Prod.ext hsome rfl)).2
  rw [← hbacking]
  exact congrArg (fun g => g.alloc.issued) hnote

/-- The step of a request that the backing answers. -/
theorem Inv.allocateBacking (hi : Inv R BInv base old regions s pools)
    (hA : HonoursRange A R BInv)
    (heq : SizeClassed.allocate (recorded A) (R.recorded w) l s.heap =
      SizeClassed.allocateBacking (recorded A) l s.heap)
    (hstep : step A R s (.allocate l) = some s') : Inv R BInv base old regions s' pools := by
  have hA' := recorded_honours hA old
  simp only [step, heq] at hstep
  rcases hcall : SizeClassed.allocateBacking (recorded A) l s.heap with ⟨_ | b, h'⟩
  · rw [hcall] at hstep
    cases hstep
    obtain ⟨-, hholds, hslabs, hsizes⟩ := hi.holds.allocateBacking_none hA' hcall
    have hlive := class_live_congr hi hslabs hsizes
    exact ⟨hholds, hlive, hi.satisfies, hi.disjoint⟩
  · obtain ⟨-, hholds, hslabs, hsizes, hfresh⟩ := hi.holds.allocateBacking_some hA' hcall
    have hlive := class_live_congr hi hslabs hsizes
    -- the record has one more ticket, so the block has no class
    have horigin : originOf s.heap h' l = none := by
      rw [originOf, allocateBacking_issued hcall, if_neg]
      simp
    rw [hcall] at hstep
    simp only [horigin] at hstep
    cases hstep
    have hlast : (⟨b, l⟩ : Grant w) ∈ kept old regions ∪ {g | g ∈ (⟨b, l⟩ : Grant w) ::
        fallback s.live} := Or.inr List.mem_cons_self
    refine ⟨?_, fun i => ?_, fun e he => ?_, ?_⟩
    · show Holds _ _ _ _ _ _ _ (fallback (⟨⟨b, l⟩, none⟩ :: s.live))
      have hcons := ofOrigin_cons_self (⟨⟨b, l⟩, none⟩ : LiveBlock w n) s.live
      rw [fallback, hcons]
      exact hholds
    · have hcons : ofOrigin (some i) (⟨⟨b, l⟩, none⟩ :: s.live) = ofOrigin (some i) s.live :=
        ofOrigin_cons_of_ne nofun
      rw [hcons]
      exact hlive i
    · rcases List.mem_cons.mp he with rfl | he
      · exact hA'.satisfies hholds.backing_inv hlast
      · exact hi.satisfies e he
    · exact List.pairwise_cons.mpr ⟨fun e he => hi.backing_fresh hA hfresh he, hi.disjoint⟩

/-- The step of a request that a class answers. -/
theorem Inv.allocateClass (hi : Inv R BInv base old regions s pools) (hA : HonoursRange A R BInv)
    {i : Fin n} {j : Nat} {q : Pool cap} {slab : UntypedSlab}
    (hpick : s.heap.alloc.pickClass l.size l.align = some i) (hq : (pools i).alloc = some (j, q))
    (heq : SizeClassed.allocate (recorded A) (R.recorded w) l s.heap =
      (some (classSlot s.heap.alloc base i j), ⟨s.heap.alloc.setSlab i slab, s.heap.mem⟩))
    (hsame : (s.heap.alloc.slabs i).SameRegion slab)
    (hholds : Holds (R.recorded w) (Logged BInv old) base (kept old regions) regions
      ⟨s.heap.alloc.setSlab i slab, s.heap.mem⟩ (Function.update pools i q) (fallback s.live))
    (hstep : step A R s (.allocate l) = some s') :
    Inv R BInv base old regions s' (Function.update pools i q) := by
  have hA' := recorded_honours hA old
  have hj : j < cap := Pool.alloc_lt hq
  have hlive : q.live = j :: (pools i).live := (Pool.alloc_cases hq).1
  have horigin : originOf s.heap ⟨s.heap.alloc.setSlab i slab, s.heap.mem⟩ l = some i := by
    rw [← hpick]
    exact if_pos rfl
  have hslot : ∀ i', classSlot (s.heap.alloc.setSlab i slab) base i'
      = classSlot s.heap.alloc base i' := fun i' => funext (classSlot_setSlab hsame i')
  simp only [step, heq, horigin] at hstep
  cases hstep
  refine ⟨?_, fun i' => ?_, fun e he => ?_, ?_⟩
  · have hcons : ofOrigin none ((⟨⟨classSlot s.heap.alloc base i j, l⟩, some i⟩ : LiveBlock w n)
        :: s.live) = ofOrigin none s.live := ofOrigin_cons_of_ne nofun
    show Holds _ _ _ _ _ _ _ (fallback _)
    rw [fallback, hcons]
    exact hholds
  · show (List.map _ (ofOrigin (some i') (⟨⟨classSlot s.heap.alloc base i j, l⟩, some i⟩
      :: s.live))).Perm _
    rw [hslot]
    by_cases hi' : i' = i
    · subst hi'
      have hcons := ofOrigin_cons_self
        (⟨⟨classSlot s.heap.alloc base i' j, l⟩, some i'⟩ : LiveBlock w n) s.live
      rw [hcons, Function.update_self, hlive]
      exact (hi.class_live i').cons _
    · have hcons : ofOrigin (some i') ((⟨⟨classSlot s.heap.alloc base i j, l⟩, some i⟩ :
          LiveBlock w n) :: s.live) = ofOrigin (some i') s.live :=
        ofOrigin_cons_of_ne fun heq => hi' (Option.some.inj heq).symm
      rw [hcons, Function.update_of_ne hi']
      exact hi.class_live i'
  · rcases List.mem_cons.mp he with rfl | he
    · exact hi.holds.classSlot_satisfies hA' hj (pickClass_eq_some hi.holds.sized l.width_pos hpick).1
    · exact hi.satisfies e he
  · refine List.pairwise_cons.mpr ⟨fun e he => ?_, hi.disjoint⟩
    show Disjoint (classSlot s.heap.alloc base i j).bytes e.grant.block.bytes
    rcases hi.live_cases he with ⟨i', -, j', hj', hblock⟩ | ⟨-, hF⟩
    · have hlt : j' < cap := ((pools i').lt_of_mem_live hj').trans_le (pools i').carved_le
      rw [hblock]
      apply hi.holds.classSlot_disjoint hA' hj hlt
      rintro ⟨⟩
      exact Pool.alloc_not_mem hq hj'
    · exact (hi.holds.fallback_disjoint hA' hF i).symm.mono_left
        (hi.holds.classSlot_within hA' hj)

theorem Inv.allocate (hi : Inv R BInv base old regions s pools) (hA : HonoursRange A R BInv)
    (hstep : step A R s (.allocate l) = some s') :
    ∃ qs : Fin n → Pool cap, Inv R BInv base old regions s' qs := by
  cases hpick : s.heap.alloc.pickClass l.size l.align with
  | none => exact ⟨pools, hi.allocateBacking hA (allocate_of_no_class hpick) hstep⟩
  | some i =>
      rcases hi.holds.allocate_class hpick with ⟨-, heq⟩ | ⟨j, q, slab, hq, heq, hsame, hholds⟩
      · exact ⟨pools, hi.allocateBacking hA heq hstep⟩
      · exact ⟨_, hi.allocateClass hA hpick hq heq hsame hholds hstep⟩

/-- The fallback blocks may be listed in any order. -/
theorem holds_perm {h : Heap (SizeClassed w n (Recorded w β))} {F F' : List (Grant w)}
    (hh : Holds (R.recorded w) (Logged BInv old) base (kept old regions) regions h pools F)
    (hperm : F.Perm F') :
    Holds (R.recorded w) (Logged BInv old) base (kept old regions) regions h pools F' := by
  have hset : {g | g ∈ F'} = {g | g ∈ F} := Set.ext fun _ => hperm.symm.mem_iff
  exact
    { hh with
      fallback_not_mem := fun g hg => hh.fallback_not_mem g (hperm.mem_iff.mpr hg)
      fallback_nodup := hperm.nodup_iff.mp hh.fallback_nodup
      backing_inv := by
        rw [hset]
        exact hh.backing_inv }

theorem Inv.deallocate (hi : Inv R BInv base old regions s pools) (hA : HonoursRange A R BInv)
    (hstep : step A R s (.deallocate e) = some s') :
    ∃ qs : Fin n → Pool cap, Inv R BInv base old regions s' qs := by
  have hA' := recorded_honours hA old
  simp only [step] at hstep
  split at hstep
  case isFalse => cases hstep
  case isTrue he =>
    have hsat : ∀ e' ∈ s.live.erase e, Satisfies e'.grant.block e'.grant.layout :=
      fun e' he' => hi.satisfies e' (List.mem_of_mem_erase he')
    have hdisj := hi.disjoint.sublist (List.erase_sublist (a := e))
    rcases hi.live_cases he with ⟨i, horigin, j, hj, hblock⟩ | ⟨horigin, hF⟩
    · obtain ⟨slab, m, heq, hsame, hholds⟩ :=
        hi.holds.deallocate_class (l := e.grant.layout) hA' hj
      rw [hblock, heq] at hstep
      cases hstep
      have hne : e.origin ≠ none := by simp [horigin]
      refine ⟨Function.update pools i ((pools i).release j hj), ⟨?_, fun i' => ?_, hsat, hdisj⟩⟩
      · exact holds_perm hholds ((ofOrigin_erase_of_ne he hne).map _)
      · have hslot : classSlot (s.heap.alloc.setSlab i slab) base i'
            = classSlot s.heap.alloc base i' := funext (classSlot_setSlab hsame i')
        show (List.map _ (ofOrigin (some i') (s.live.erase e))).Perm (List.map
          (classSlot (s.heap.alloc.setSlab i slab) base i') _)
        rw [hslot]
        by_cases hi' : i' = i
        · -- the block and the slot leave their lists together
          subst hi'
          rw [Function.update_self]
          have hl := (ofOrigin_erase_self he).map fun e => e.grant.block
          rw [horigin] at hl
          have hp := (List.perm_cons_erase hj).map (classSlot s.heap.alloc base i')
          have hboth := (hl.symm.trans (hi.class_live i')).trans hp
          rw [List.map_cons, List.map_cons, hblock] at hboth
          exact hboth.cons_inv
        · rw [Function.update_of_ne hi']
          have hne' : e.origin ≠ some i' := by
            rw [horigin]
            exact fun heq => hi' (Option.some.inj heq).symm
          exact ((ofOrigin_erase_of_ne he hne').map _).symm.trans (hi.class_live i')
    · obtain ⟨bk, m, -, heq, hholds⟩ := hi.holds.deallocate_fallback hA' hF
      rw [heq] at hstep
      cases hstep
      refine ⟨pools, ⟨?_, fun i => ?_, hsat, hdisj⟩⟩
      · apply holds_perm hholds
        have hl := (ofOrigin_erase_self he).map LiveBlock.grant
        rw [horigin, List.map_cons] at hl
        exact ((List.perm_cons_erase hF).symm.trans hl).cons_inv
      · have hne : e.origin ≠ some i := by simp [horigin]
        exact ((ofOrigin_erase_of_ne he hne).map _).symm.trans (hi.class_live i)

theorem Inv.write (hi : Inv R BInv base old regions s pools) (hA : HonoursRange A R BInv)
    {k : Nat} {v : UInt8} (hstep : step A R s (.write e k v) = some s') :
    Inv R BInv base old regions s' pools := by
  simp only [step] at hstep
  split at hstep
  case isFalse => cases hstep
  case isTrue hlegal =>
    cases hstep
    obtain ⟨he, hk⟩ := hlegal
    refine ⟨?_, hi.class_live, hi.satisfies, hi.disjoint⟩
    apply hi.holds.write (recorded_honours hA old) (c := e.grant.block)
    · intro x hx
      apply writeByte_of_ne
      rintro rfl
      exact hx ⟨Nat.le_add_right _ _, by omega⟩
    · rcases hi.live_cases he with ⟨i, -, j, hj, hblock⟩ | ⟨-, hF⟩
      · exact Or.inl ⟨i, j, hj, hblock⟩
      · exact Or.inr ⟨e.grant, hF, rfl⟩

theorem inv_step (hA : HonoursRange A R BInv) (op : ClassOp w n)
    (hi : ∃ pools : Fin n → Pool cap, Inv R BInv base old regions s pools)
    (hstep : step A R s op = some s') :
    ∃ pools : Fin n → Pool cap, Inv R BInv base old regions s' pools := by
  obtain ⟨pools, hi⟩ := hi
  cases op with
  | allocate l => exact hi.allocate hA hstep
  | deallocate e => exact hi.deallocate hA hstep
  | write e k v => exact ⟨pools, hi.write hA hstep⟩

theorem inv_run (hA : HonoursRange A R BInv) {ops : List (ClassOp w n)}
    (hi : ∃ pools : Fin n → Pool cap, Inv R BInv base old regions s pools)
    (hrun : Machine.run (step A R) s ops = some s') :
    ∃ pools : Fin n → Pool cap, Inv R BInv base old regions s' pools :=
  Machine.run_invariant
    (P := fun u : ClassRun w n β => ∃ pools : Fin n → Pool cap, Inv R BInv base old regions u pools)
    (fun _ op _ hu hstep => inv_step hA op hu hstep) hi hrun

/-- A new value satisfies the invariant, with the regions it has taken. -/
theorem inv_new (hA : HonoursRange A R BInv) {g : Heap β} (hold : old.Nodup)
    (hinv : BInv g {x | x ∈ old}) {sizes : Fin n → Nat} (hslots : cap < 2 ^ 32)
    {h : Heap (SizeClassed w n (Recorded w β))}
    (hnew : withClassSizes (recorded A) (R.recorded w) sizes cap ⟨⟨g.alloc, [], []⟩, g.mem⟩ =
      .ok h) :
    ∃ regions : Fin n → Grant w, (List.ofFn regions).Nodup ∧
      (∀ x ∈ List.ofFn regions, x ∉ old) ∧
      Inv R BInv (R.base g.alloc) old regions ⟨h, []⟩ (fun _ => Pool.empty cap) := by
  have hstart : Logged BInv old ⟨⟨g.alloc, [], []⟩, g.mem⟩ {x | x ∈ old} :=
    logged_init hinv hold
  obtain ⟨regions, hnodup, hnot, -, hholds⟩ :=
    withClassSizes_holds (recorded_honours hA old) hstart hslots hnew
  exact ⟨regions, hnodup, hnot, hholds, fun _ => List.Perm.nil,
    fun _ he => absurd he List.not_mem_nil, List.Pairwise.nil⟩

/-! ## What the invariant says -/

/-- A slot that is not live overlaps no live block. -/
theorem Inv.disjoint_classSlot (hi : Inv R BInv base old regions s pools)
    (hA : HonoursRange A R BInv) {i : Fin n} {j : Nat} (hj : j < cap)
    (hnot : j ∉ (pools i).live) (he : e ∈ s.live) :
    Disjoint (classSlot s.heap.alloc base i j).bytes e.grant.block.bytes := by
  have hA' := recorded_honours hA old
  rcases hi.live_cases he with ⟨i', -, j', hj', hblock⟩ | ⟨-, hF⟩
  · have hlt : j' < cap := ((pools i').lt_of_mem_live hj').trans_le (pools i').carved_le
    rw [hblock]
    apply hi.holds.classSlot_disjoint hA' hj hlt
    rintro ⟨⟩
    exact hnot hj'
  · exact (hi.holds.fallback_disjoint hA' hF i).symm.mono_left (hi.holds.classSlot_within hA' hj)

/-- The live slots of a class are the slots that some live block occupies. -/
theorem Inv.mem_live_iff (hi : Inv R BInv base old regions s pools) (hA : HonoursRange A R BInv)
    {i : Fin n} {j : Nat} (hj : j < cap) :
    j ∈ (pools i).live ↔ ∃ e ∈ s.live, e.grant.block = classSlot s.heap.alloc base i j := by
  constructor
  · intro hlive
    have hmem := (hi.class_live i).mem_iff.mpr (List.mem_map_of_mem hlive)
    rw [List.mem_map] at hmem
    obtain ⟨e, he, heq⟩ := hmem
    exact ⟨e, (mem_ofOrigin.mp he).1, heq⟩
  · rintro ⟨e, he, heq⟩
    by_contra hnot
    have hdisj := hi.disjoint_classSlot hA hj hnot he
    rw [heq] at hdisj
    have hpos := (hi.satisfies e he).len_pos
    rw [heq] at hpos
    exact not_disjoint_self hpos hdisj

/-- The slot that the link stored in the slot `j` of the class `i` names. -/
def link (R : FixedRange β) (s : ClassRun w n β) (i : Fin n) (j : Nat) : Option Nat :=
  ofLink (readU32 s.heap.mem
    ((s.heap.alloc.slabs i).slotPtr (R.base s.heap.alloc.backing.inner) j))

/-- The list in memory consists of the carved slots that are not live. -/
theorem Inv.freelist (hi : Inv R BInv base old regions s pools) (hA : HonoursRange A R BInv)
    (i : Fin n) :
    Chain (link R s i) (ofLink (s.heap.alloc.slabs i).freeHead) (pools i).free ∧
      (pools i).free.Nodup ∧
      (∀ j, j ∈ (pools i).free ↔ j < (s.heap.alloc.slabs i).nextUncarved ∧
        ∀ e ∈ s.live, e.grant.block ≠ classSlot s.heap.alloc base i j) ∧
      ∀ j ∈ (pools i).free, ∀ e ∈ s.live,
        Disjoint (classSlot s.heap.alloc base i j).bytes e.grant.block.bytes := by
  have hr := hi.holds.refines i
  have hbase : R.base s.heap.alloc.backing.inner = base := hi.holds.base_eq
  refine ⟨?_, (pools i).nodup_free, fun j => ?_, fun j hj e he => ?_⟩
  · unfold link
    rw [hbase]
    exact hr.threaded.chain
  · rw [(pools i).mem_free_iff hr.retired_eq, ← hr.threaded.carved_eq]
    apply and_congr_right
    intro hlt
    rw [hr.threaded.carved_eq] at hlt
    rw [hi.mem_live_iff hA (hlt.trans_le (pools i).carved_le)]
    simp
  · have hlt := ((pools i).lt_of_mem_free hj).trans_le (pools i).carved_le
    exact hi.disjoint_classSlot hA hlt ((pools i).not_mem_live_of_mem_free hj) he

/-- A live block of a class is a carved slot of the class. -/
theorem Inv.block_of_origin (hi : Inv R BInv base old regions s pools) (he : e ∈ s.live)
    {i : Fin n} (horigin : e.origin = some i) :
    ∃ j < (s.heap.alloc.slabs i).nextUncarved,
      e.grant.block = classSlot s.heap.alloc base i j := by
  rcases hi.live_cases he with ⟨i', horigin', j, hj, hblock⟩ | ⟨hnone, -⟩
  · rw [horigin] at horigin'
    cases horigin'
    refine ⟨j, ?_, hblock⟩
    rw [(hi.holds.refines i).threaded.carved_eq]
    exact (pools i).lt_of_mem_live hj
  · rw [horigin] at hnone
    cases hnone

/-- A live block is routed to where it came from. -/
theorem Inv.route_eq (hi : Inv R BInv base old regions s pools) (hA : HonoursRange A R BInv)
    (he : e ∈ s.live) :
    s.heap.alloc.routeDealloc (R.recorded w) e.grant.block.ptr = e.origin := by
  have hA' := recorded_honours hA old
  rcases hi.live_cases he with ⟨i, horigin, j, hj, hblock⟩ | ⟨horigin, hF⟩
  · have hlt : j < cap := ((pools i).lt_of_mem_live hj).trans_le (pools i).carved_le
    rw [hblock, horigin]
    exact hi.holds.route_class hA' hlt
  · rw [horigin]
    exact hi.holds.route_fallback hA' hF

/-- The tickets of the regions. -/
def regionTickets (R : FixedRange β) (s : ClassRun w n β) : List (Ticket w) :=
  List.ofFn fun i => (R.base s.heap.alloc.backing.inner + (s.heap.alloc.slabs i).baseOffset,
    s.heap.alloc.classLayouts i)

/-- The regions that construction took are those the value names. -/
theorem Inv.map_ticket (hi : Inv R BInv base old regions s pools) :
    (List.ofFn regions).map Grant.ticket = regionTickets R s := by
  have hbase : R.base s.heap.alloc.backing.inner = base := hi.holds.base_eq
  rw [List.map_ofFn, regionTickets, hbase]
  congr 1
  funext i
  exact Prod.ext (hi.holds.region_ptr i) (hi.holds.region_layout i)

theorem Inv.accounts (hi : Inv R BInv base old regions s pools) (hold : old.Nodup)
    (hnodup : (List.ofFn regions).Nodup) (hnot : ∀ g ∈ List.ofFn regions, g ∉ old) :
    s.heap.alloc.backing.issued.Perm (s.heap.alloc.backing.received ++
      (regionTickets R s ++ (fallback s.live).map Grant.ticket)) := by
  obtain ⟨out, hout, hmem, hperm⟩ := hi.holds.backing_inv.accounts
  -- what is out is the old blocks, the regions and the fallback blocks, each once
  have hall : (old ++ (List.ofFn regions ++ fallback s.live)).Nodup := by
    refine hold.append (hnodup.append hi.holds.fallback_nodup ?_) ?_
    · intro g hg hF
      exact hi.holds.fallback_not_mem g hF (Or.inr hg)
    · intro g hg hrest
      rcases List.mem_append.mp hrest with hr | hF
      · exact hnot g hr hg
      · exact hi.holds.fallback_not_mem g hF (Or.inl hg)
  have houtperm : out.Perm (old ++ (List.ofFn regions ++ fallback s.live)) := by
    rw [List.perm_ext_iff_of_nodup hout hall]
    intro g
    rw [← hmem g]
    simp only [kept, Set.mem_union, Set.mem_ofPred_eq, List.mem_append]
    tauto
  have hsplit := houtperm.map Grant.ticket
  rw [List.map_append, List.map_append, hi.map_ticket] at hsplit
  have hlog := hperm.trans (hsplit.append_left _)
  rw [List.nil_append] at hlog
  have hswap := hlog.trans (List.perm_append_comm_assoc _ _ _)
  exact (List.perm_append_left_iff _).mp hswap

theorem Inv.usableSize_eq (hi : Inv R BInv base old regions s pools)
    (hA : HonoursRange A R BInv) (he : e ∈ s.live) {i : Fin n} (horigin : e.origin = some i) :
    SizeClassed.usableSize (recorded A) (R.recorded w) e.grant.block.ptr e.grant.layout s.heap =
      some e.grant.block.len := by
  obtain ⟨j, -, hblock⟩ := hi.block_of_origin he horigin
  unfold SizeClassed.usableSize
  rw [hi.route_eq hA he, horigin, hblock]
  rfl

/-- A class is exhausted when its live blocks are as many as its slots. -/
theorem Inv.alloc_eq_none_iff (hi : Inv R BInv base old regions s pools) (i : Fin n) :
    (pools i).alloc = none ↔ (ofOrigin (some i) s.live).length = cap := by
  rw [Pool.alloc_eq_none_iff_live (hi.holds.refines i).retired_eq]
  have hlen := (hi.class_live i).length_eq
  rw [List.length_map, List.length_map] at hlen
  rw [hlen]

/-- A request that no class can serve gets the answer of the backing. -/
theorem Inv.exhausted (hi : Inv R BInv base old regions s pools)
    (hfull : ∀ i, s.heap.alloc.pickClass l.size l.align = some i →
      (ofOrigin (some i) s.live).length = cap) :
    (SizeClassed.allocate (recorded A) (R.recorded w) l s.heap).1 =
      (A.allocate l ⟨s.heap.alloc.backing.inner, s.heap.mem⟩).1 := by
  have hnote : (SizeClassed.allocateBacking (recorded A) l s.heap).1 =
      (A.allocate l ⟨s.heap.alloc.backing.inner, s.heap.mem⟩).1 := by
    show (Recorded.note _ [] l (A.allocate l ⟨s.heap.alloc.backing.inner, s.heap.mem⟩)).1 = _
    rcases A.allocate l ⟨s.heap.alloc.backing.inner, s.heap.mem⟩ with ⟨_ | b, g⟩ <;> rfl
  rw [← hnote]
  cases hpick : s.heap.alloc.pickClass l.size l.align with
  | none => rw [allocate_of_no_class hpick]
  | some i =>
      have hnone := (hi.alloc_eq_none_iff i).mpr (hfull i hpick)
      rcases hi.holds.allocate_class hpick with ⟨-, heq⟩ | ⟨j, q, slab, hq, -⟩
      · rw [heq]
      · rw [hnone] at hq
        cases hq

theorem Inv.classCorruption_eq (hi : Inv R BInv base old regions s pools) :
    s.heap.alloc.classCorruption = 0 := by
  have hzero : ∀ l : List (Fin n),
      l.foldl (fun acc i => min (acc + (s.heap.alloc.slabs i).corruptionEvents) (2 ^ 64 - 1)) 0
        = 0 := by
    intro l
    induction l with
    | nil => rfl
    | cons i l ih =>
        rw [List.foldl_cons, (hi.holds.refines i).corruption_eq]
        exact ih
  exact hzero _

/-- **Every run of a `SizeClassed` is safe.** For every accepted class set and every backing that
honours the contract and whose base is stable, in every state a client reaches by allocating,
freeing live blocks and writing into them:

* the freelist of a class is acyclic and without duplicates, consists of the carved slots that no
  live block occupies, and overlaps no live block;
* every live block, and every block `allocate` would return, is what was requested and overlaps no
  other live block;
* every live block is routed to where it came from, and is a slot of the class it came from;
* of the pairs the backing has issued, those it has received back and those still out, which are
  the regions and the live blocks it issued, are each there once;
* the usable size of a class block is the length of the slice that was returned;
* a request whose class is exhausted, and one that no class takes, gets the answer of the backing;
* the classes have counted no corruption. -/
theorem sizeClassed_run_correct (hA : HonoursRange A R BInv) {g : Heap β} (hold : old.Nodup)
    (hinv : BInv g {x | x ∈ old}) {sizes : Fin n → Nat} (hslots : cap < 2 ^ 32)
    {h : Heap (SizeClassed w n (Recorded w β))}
    (hnew : withClassSizes (recorded A) (R.recorded w) sizes cap ⟨⟨g.alloc, [], []⟩, g.mem⟩ = .ok h)
    {ops : List (ClassOp w n)} (hrun : Machine.run (step A R) ⟨h, []⟩ ops = some s) :
    let classed := s.heap.alloc
    let base := R.base classed.backing.inner
    (∀ i, ∃ free : List Nat,
        Chain (link R s i) (ofLink (classed.slabs i).freeHead) free ∧ free.Nodup ∧
          (∀ j, j ∈ free ↔ j < (classed.slabs i).nextUncarved ∧
            ∀ e ∈ s.live, e.grant.block ≠ classSlot classed base i j) ∧
          ∀ j ∈ free, ∀ e ∈ s.live,
            Disjoint (classSlot classed base i j).bytes e.grant.block.bytes) ∧
      ((∀ e ∈ s.live, Satisfies e.grant.block e.grant.layout) ∧
        s.live.Pairwise (fun e e' => Disjoint e.grant.block.bytes e'.grant.block.bytes) ∧
        ∀ l b h', SizeClassed.allocate (recorded A) (R.recorded w) l s.heap = (some b, h') →
          Satisfies b l ∧ ∀ e ∈ s.live, Disjoint b.bytes e.grant.block.bytes) ∧
      (∀ e ∈ s.live, classed.routeDealloc (R.recorded w) e.grant.block.ptr = e.origin ∧
        ∀ i, e.origin = some i → ∃ j < (classed.slabs i).nextUncarved,
          e.grant.block = classSlot classed base i j) ∧
      classed.backing.issued.Perm (classed.backing.received ++
        (regionTickets R s ++ (fallback s.live).map Grant.ticket)) ∧
      (∀ e ∈ s.live, ∀ i, e.origin = some i →
        SizeClassed.usableSize (recorded A) (R.recorded w) e.grant.block.ptr e.grant.layout s.heap
          = some e.grant.block.len) ∧
      (∀ l, (∀ i, classed.pickClass l.size l.align = some i →
          (ofOrigin (some i) s.live).length = cap) →
        (SizeClassed.allocate (recorded A) (R.recorded w) l s.heap).1 =
          (A.allocate l ⟨classed.backing.inner, s.heap.mem⟩).1) ∧
      classed.classCorruption = 0 := by
  intro classed base
  obtain ⟨regions, hnodup, hnot, hinit⟩ := inv_new hA hold hinv hslots hnew
  obtain ⟨pools, hi⟩ := inv_run hA ⟨_, hinit⟩ hrun
  have hbase : R.base g.alloc = base := hi.holds.base_eq.symm
  rw [hbase] at hi
  refine ⟨fun i => ⟨(pools i).free, hi.freelist hA i⟩, ⟨hi.satisfies, hi.disjoint, ?_⟩,
    fun e he => ⟨hi.route_eq hA he, fun i horigin => hi.block_of_origin he horigin⟩,
    hi.accounts hold hnodup hnot, fun e he i horigin => hi.usableSize_eq hA he horigin, fun l hfull => hi.exhausted hfull,
    hi.classCorruption_eq⟩
  intro l b h' heq
  -- the block would be the first one of the next state
  have hstep : step A R s (.allocate l) = some ⟨h', ⟨⟨b, l⟩, originOf s.heap h' l⟩ :: s.live⟩ := by
    simp only [step, heq]
  obtain ⟨qs, hi'⟩ := hi.allocate hA hstep
  exact ⟨hi'.satisfies _ List.mem_cons_self, (List.pairwise_cons.mp hi'.disjoint).1⟩

/-- A region of 256 bytes at address 64. -/
def region256 : FixedRange Unit := ⟨fun _ => 64, fun _ => 256, fun _ _ u => (true, u)⟩

theorem region256_lawful : region256.Lawful :=
  ⟨fun _ => Nat.succ_pos 63, fun _ _ _ => rfl, fun _ _ _ => rfl⟩

/-- The classes 8 and 16. -/
def twoSizes : Fin 2 → Nat := fun i => 2 ^ (i.val + 3)

def bytes5 : NonZeroLayout 16 := .lit 16 5 1 (Eq.refl true)

/-- Three requests of the class 8, which has two slots: the third is served by the backing. Then
both kinds of block are freed and one is requested again. -/
def mixedOps : List (ClassOp 16 2) :=
  [.allocate bytes5, .allocate bytes5, .allocate bytes5, .write ⟨⟨⟨72, 8⟩, bytes5⟩, some 0⟩ 0 255,
    .deallocate ⟨⟨⟨64, 8⟩, bytes5⟩, some 0⟩, .deallocate ⟨⟨⟨112, 5⟩, bytes5⟩, none⟩,
    .allocate bytes5]

theorem sizeClassed_run_correct_mixed :
    ∃ h s, withClassSizes (recorded (BumpArena.allocator 16 region256))
        ((BumpArena.range region256).recorded 16) twoSizes 2 ⟨⟨⟨(), 256, 0⟩, [], []⟩, fun _ => 0⟩
          = .ok h ∧
      Machine.run (step (BumpArena.allocator 16 region256) (BumpArena.range region256)) ⟨h, []⟩
        mixedOps = some s ∧
      s.live = [⟨⟨⟨64, 8⟩, bytes5⟩, some 0⟩, ⟨⟨⟨72, 8⟩, bytes5⟩, some 0⟩] ∧
      s.heap.alloc.backing.received = [(112, bytes5)] ∧ s.heap.alloc.classCorruption = 0 := by
  have hresult : (withClassSizes (recorded (BumpArena.allocator 16 region256))
      ((BumpArena.range region256).recorded 16) twoSizes 2
        ⟨⟨⟨(), 256, 0⟩, [], []⟩, fun _ => 0⟩).toOption.bind (fun h =>
          (Machine.run (step (BumpArena.allocator 16 region256) (BumpArena.range region256)) ⟨h, []⟩
            mixedOps).map fun s => (s.live, s.heap.alloc.backing.received)) =
        some ([⟨⟨⟨64, 8⟩, bytes5⟩, some 0⟩, ⟨⟨⟨72, 8⟩, bytes5⟩, some 0⟩], [(112, bytes5)]) := by
    decide +kernel
  obtain ⟨h, hok, hrest⟩ := Option.bind_eq_some_iff.mp hresult
  obtain ⟨s, hrun, hs⟩ := Option.map_eq_some_iff.mp hrest
  have hnew := ok_of_toOption hok
  have hempty : BumpArena.Holds region256 64 (⟨⟨(), 256, 0⟩, fun _ => 0⟩ : Heap (BumpArena Unit))
      {x : Grant 16 | x ∈ []} := by
    have hnone : {x : Grant 16 | x ∈ []} = ∅ := Set.ext fun _ => by simp
    rw [hnone]
    exact BumpArena.holds_new (b := ()) rfl _
  have hcorrect := sizeClassed_run_correct
    (BumpArena.honours region256_lawful 64 (by decide)) List.nodup_nil hempty (by decide) hnew hrun
  exact ⟨h, s, hnew, hrun, congrArg Prod.fst hs, congrArg Prod.snd hs, hcorrect.2.2.2.2.2.2⟩

end ClassRun

end ForgeAlloc
