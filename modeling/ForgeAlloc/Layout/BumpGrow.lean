import ForgeAlloc.Layout.BumpRun

set_option autoImplicit false

/-! # `BumpArena::grow` in every reachable state

A growth has four outcomes (`GrowOutcome`): the block is extended where it is, the commit of the
extension is declined, the block is moved, or there is no room for it anywhere. Which one it is
depends on the end of the block and on the cursor only (`Extends`), not on how the arena came to
its state. A block that is moved starts at or above the cursor, so it overlaps nothing that is out
(`Inv.grow_spec`).
-/

namespace ForgeAlloc

open MachineInt ByteMemory

namespace BumpArena

variable {w : Nat} {β : Type} {R : FixedRange β} {base ptr : Nat} {old new : NonZeroLayout w}
  {h h' : Heap (BumpArena β)} {r : Option Block}

inductive GrowOutcome (R : FixedRange β) (base ptr : Nat) (old new : NonZeroLayout w)
    (h h' : Heap (BumpArena β)) : Option Block → Prop
  | inPlace (hext : Extends R ptr old.size new.size h.alloc)
      (hcommit : (R.commit (ptr - base) new.size h.alloc.backing).1 = true)
      (hcur : h'.alloc.cursor = ptr - base + new.size) (hmem : h'.mem = h.mem) :
      GrowOutcome R base ptr old new h h' (some ⟨ptr, new.size⟩)
  | declined (hext : Extends R ptr old.size new.size h.alloc)
      (hcommit : (R.commit (ptr - base) new.size h.alloc.backing).1 = false)
      (hcur : h'.alloc.cursor = h.alloc.cursor) (hmem : h'.mem = h.mem) :
      GrowOutcome R base ptr old new h h' none
  | moved (b : Block) (hext : ¬ Extends R ptr old.size new.size h.alloc)
      (hge : base + h.alloc.cursor ≤ b.ptr) (hlen : b.len = new.size)
      (hend : b.ptr + b.len = base + h'.alloc.cursor)
      (hmem : h'.mem = copyBytes h.mem ptr b.ptr old.size) :
      GrowOutcome R base ptr old new h h' (some b)
  | full (hext : ¬ Extends R ptr old.size new.size h.alloc)
      (hcur : h'.alloc.cursor = h.alloc.cursor) (hmem : h'.mem = h.mem) :
      GrowOutcome R base ptr old new h h' none

/-- **Every growth has one of the four outcomes.** -/
theorem grow_outcome (hR : R.Lawful) (hs : Sound w R base h.alloc) (hptr : ptr < 2 ^ w)
    (heq : grow R ptr old new h = (r, h')) : GrowOutcome R base ptr old new h h' r := by
  by_cases hext : Extends R ptr old.size new.size h.alloc
  · rw [grow_of_extends hs hext] at heq
    split at heq
    case h_1 b hcommit =>
        cases heq
        exact .declined hext (by rw [hcommit]) rfl rfl
    case h_2 b hcommit =>
        cases heq
        exact .inPlace hext (by rw [hcommit]) rfl rfl
  · rcases grow_of_not_extends hs hptr hext with hnone | hrel
    · -- the end of the extension is not even an address
      rw [hnone] at heq
      cases heq
      exact .full hext rfl rfl
    · rw [hrel] at heq
      cases r with
      | none =>
          obtain ⟨-, hcur, -, hmem⟩ := allocate_none hR hs (relocate_none heq)
          exact .full hext hcur hmem
      | some b =>
          obtain ⟨h₁, halloc, rfl⟩ := relocate_some heq
          obtain ⟨hp, hlen, hend, -, -, hmem⟩ := allocate_some hR hs halloc
          have hge : base + h.alloc.cursor ≤ b.ptr := by
            rw [hp]
            exact le_alignUp new.align_pos
          exact .moved b hext hge hlen hend (by rw [hmem])

end BumpArena

namespace ArenaRun

open BumpArena

variable {w : Nat} {β : Type} {R : FixedRange β} {base capacity : Nat} {s : ArenaRun β}
  {e : Entry} {old new : NonZeroLayout w} {h' : Heap (BumpArena β)} {r : Option Block} {b : Block}

/-- The block ends exactly at the cursor, and the extension fits into the region. -/
def AtCursor (base capacity cursor : Nat) (b : Block) (size : Nat) : Prop :=
  b.ptr + b.len = base + cursor ∧ b.ptr + size ≤ base + capacity

theorem Inv.extends_iff (hi : Inv w R base capacity s) (he : e ∈ s.ledger) (hpos : 0 < e.block.len)
    {size : Nat} : Extends R e.block.ptr e.block.len size s.heap.alloc ↔
      AtCursor base capacity s.heap.alloc.cursor e.block size := by
  obtain ⟨hge, -⟩ := (Block.within_iff hpos).mp (hi.within e he)
  unfold Extends AtCursor
  rw [hi.sound.base_eq, hi.capacity_eq]
  exact and_iff_right hge

/-- A live block is below the end of the address space. -/
theorem Inv.ptr_lt (hi : Inv w R base capacity s) (he : e ∈ s.ledger) (hpos : 0 < e.block.len) :
    e.block.ptr < 2 ^ w := by
  obtain ⟨-, hle⟩ := (Block.within_iff hpos).mp (hi.within e he)
  have hlt := hi.sound.end_lt
  have hcur := hi.sound.cursor_le
  omega

/-- What a growth that succeeds does to the live blocks. -/
structure Grows (s : ArenaRun β) (e : Entry) (b : Block) (old new : NonZeroLayout w)
    (h' : Heap (BumpArena β)) : Prop where
  len_eq : b.len = new.size
  /-- The first bytes are those of the old block. -/
  copied : ∀ i < old.size, h'.mem (b.ptr + i) = s.heap.mem (e.block.ptr + i)
  /-- It overlaps no other live block. -/
  fresh : ∀ e' ∈ s.ledger, e'.id ≠ e.id → Disjoint b.bytes e'.block.bytes
  /-- All the other live blocks keep their bytes. -/
  frame : ∀ e' ∈ s.ledger, e'.id ≠ e.id → Set.EqOn h'.mem s.heap.mem e'.block.bytes

theorem Inv.grows_inPlace (hi : Inv w R base capacity s) (he : e ∈ s.ledger)
    (hlen : old.size = e.block.len)
    (hat : AtCursor base capacity s.heap.alloc.cursor e.block new.size)
    (hmem : h'.mem = s.heap.mem) : Grows s e ⟨e.block.ptr, new.size⟩ old new h' where
  len_eq := rfl
  copied := fun _ _ => congrFun hmem _
  fresh := hi.fresh_of_extends he (hlen ▸ old.size_pos) hat.1 new.size
  frame := fun _ _ _ x _ => congrFun hmem x

theorem Inv.grows_moved (hi : Inv w R base capacity s) (hsize : old.size ≤ new.size)
    (hge : base + s.heap.alloc.cursor ≤ b.ptr) (hlen : b.len = new.size)
    (hmem : h'.mem = copyBytes s.heap.mem e.block.ptr b.ptr old.size) :
    Grows s e b old new h' where
  len_eq := hlen
  copied := by
    intro i hlt
    rw [hmem]
    exact copyBytes_add hlt
  fresh := fun e' he' _ => (hi.within e' he').disjoint_of_ge (Or.inr hge)
  frame := by
    intro e' he' _ x hx
    have hdisj := (hi.within e' he').disjoint_of_ge (Or.inr hge)
    have hxb : x ∉ b.bytes := fun hxb => Set.disjoint_left.mp hdisj hxb hx
    rw [Block.mem_bytes] at hxb
    rw [hmem]
    exact copyBytes_of_not_mem (by omega)

/-- **`grow` in every reachable state.** The arena is in the state after any run; `e` is a live
block, issued under the layout `old`, and `new` has the same alignment and is not smaller. The
block is extended in place exactly when it ends at the cursor, the extension fits and its commit
succeeds; when `grow` is `Ok` the first two decide. On `Ok` the block covers the new size, has the
old bytes and overlaps no other live block, and on `Err` the cursor and all bytes are as before. -/
theorem bumpArena_grow_correct (hR : R.Lawful) {backing : β} {a : BumpArena β}
    (hnew : BumpArena.new w R backing = some a) {m : Mem} {ops : List (ArenaOp w)}
    (hrun : Machine.run (step R) (init a m) ops = some s) (he : e ∈ s.ledger)
    (hold : NonZeroLayout.fromSizeAlign w e.block.len e.align = some old)
    (halign : old.align = new.align) (hsize : old.size ≤ new.size)
    (hgrow : BumpArena.grow R e.block.ptr old new s.heap = (r, h')) :
    let base := R.base backing
    let atCursor := AtCursor base (R.size backing) s.heap.alloc.cursor e.block new.size
    ((∃ b, r = some b ∧ b.ptr = e.block.ptr) ↔
      atCursor ∧ (R.commit (e.block.ptr - base) new.size s.heap.alloc.backing).1 = true) ∧
    (∀ b, r = some b → (b.ptr = e.block.ptr ↔ atCursor) ∧ new.align ∣ b.ptr ∧
      b.Within base (R.size backing) ∧ Grows s e b old new h') ∧
    (r = none → h'.alloc.cursor = s.heap.alloc.cursor ∧ h'.mem = s.heap.mem) := by
  intro base atCursor
  have hi : Inv w R base (R.size backing) s := inv_run hR hnew hrun
  obtain ⟨hlen, hal⟩ := NonZeroLayout.fromSizeAlign_eq_some.mp hold
  have hpos : 0 < e.block.len := hlen ▸ old.size_pos
  have hiff : Extends R e.block.ptr old.size new.size s.heap.alloc ↔ atCursor := by
    rw [hlen]
    exact hi.extends_iff he hpos
  have hout := grow_outcome hR hi.sound (hi.ptr_lt he hpos) hgrow
  -- the block after the call is a block of the arena of the next state
  have hi' := hi.grow hR he hlen hal halign hsize
  rw [hgrow] at hi'
  cases hout with
  | inPlace hext hcommit hcur hmem =>
      have hat := hiff.mp hext
      obtain ⟨hge, -⟩ := (Block.within_iff hpos).mp (hi.within e he)
      have hdvd : new.align ∣ e.block.ptr := by
        rw [← halign, hal]
        exact hi.aligned e he
      refine ⟨iff_of_true ⟨_, rfl, rfl⟩ ⟨hat, hcommit⟩, ?_,
        fun hnone => absurd hnone (Option.some_ne_none _)⟩
      rintro b hb
      cases hb
      exact ⟨iff_of_true rfl hat, hdvd, Block.within_of_le hge hat.2,
        hi.grows_inPlace he hlen hat hmem⟩
  | declined hext hcommit hcur hmem =>
      refine ⟨iff_of_false ?_ ?_, fun b hb => absurd hb.symm (Option.some_ne_none b),
        fun _ => ⟨hcur, hmem⟩⟩
      · rintro ⟨b, hb, -⟩
        cases hb
      · rintro ⟨-, htrue⟩
        rw [hcommit] at htrue
        exact Bool.false_ne_true htrue
  | moved b hext hge hblen hend hmem =>
      have hnot : ¬ atCursor := fun hat => hext (hiff.mpr hat)
      -- the old block is below the cursor and the new one is not
      have hne : b.ptr ≠ e.block.ptr := by
        obtain ⟨-, hle⟩ := (Block.within_iff hpos).mp (hi.within e he)
        omega
      refine ⟨iff_of_false ?_ fun hat => hnot hat.1, ?_,
        fun hnone => absurd hnone (Option.some_ne_none _)⟩
      · rintro ⟨c, hc, hptr⟩
        cases hc
        exact hne hptr
      · rintro c hc
        cases hc
        have hmem' := hi'.aligned _ List.mem_cons_self
        have hwithin := hi'.within _ List.mem_cons_self
        refine ⟨iff_of_false hne hnot, hmem', ?_, hi.grows_moved hsize hge hblen hmem⟩
        exact hwithin.mono (hi'.capacity_eq ▸ hi'.sound.cursor_le)
  | full hext hcur hmem =>
      refine ⟨iff_of_false ?_ fun hat => hext (hiff.mpr hat.1),
        fun b hb => absurd hb.symm (Option.some_ne_none b), fun _ => ⟨hcur, hmem⟩⟩
      rintro ⟨b, hb, -⟩
      cases hb

/-! ## A growth that is declined, and one that succeeds -/

def eight : NonZeroLayout 16 := ⟨8, 8, by decide, ⟨3, rfl⟩, by decide⟩

def sixteen : NonZeroLayout 16 := ⟨16, 8, by decide, ⟨3, rfl⟩, by decide⟩

/-- Eight bytes at address 40 are out, and the next commit succeeds or not. -/
def eightBytes (ok : Bool) : ArenaRun Bool :=
  ⟨⟨⟨ok, 64, 8⟩, fun _ => 0⟩, [⟨0, ⟨40, 8⟩, 8, 0⟩], [], 1⟩

/-- The block ends at the cursor and the extension fits, but the commit is declined: it is not
extended. -/
theorem grow_declined_at_cursor :
    ∃ s : ArenaRun Bool,
      Machine.run (step everyOther) (init ⟨true, 64, 0⟩ fun _ => 0) [.allocate eight] = some s ∧
      ∃ e ∈ s.ledger, AtCursor 40 64 s.heap.alloc.cursor e.block sixteen.size ∧
        ¬ ∃ b, (BumpArena.grow everyOther e.block.ptr eight sixteen s.heap).1 = some b ∧
          b.ptr = e.block.ptr := by
  refine ⟨eightBytes false, rfl, ⟨0, ⟨40, 8⟩, 8, 0⟩, List.mem_cons_self, ⟨rfl, by decide⟩, ?_⟩
  have hnone : (BumpArena.grow everyOther 40 eight sixteen (eightBytes false).heap).1 = none := rfl
  rintro ⟨b, hb, -⟩
  exact absurd (hb.symm.trans hnone) (Option.some_ne_none b)

/-- After a request that was declined the commit succeeds again, and the block is extended where
it is. -/
theorem bumpArena_grow_correct_everyOther :
    ∃ s r h', Machine.run (step everyOther) (init ⟨true, 64, 0⟩ fun _ => 0)
        [.allocate eight, .allocate eight] = some s ∧
      BumpArena.grow everyOther 40 eight sixteen s.heap = (r, h') ∧
      ∃ b, r = some b ∧ b.ptr = 40 := by
  have hrun : Machine.run (step everyOther) (init ⟨true, 64, 0⟩ fun _ => 0)
      [.allocate eight, .allocate eight] = some (eightBytes true) := rfl
  have hnew : BumpArena.new 16 everyOther true = some ⟨true, 64, 0⟩ := rfl
  have he : (⟨0, ⟨40, 8⟩, 8, 0⟩ : Entry) ∈ (eightBytes true).ledger := List.mem_cons_self
  have hold : NonZeroLayout.fromSizeAlign 16 8 8 = some eight := rfl
  obtain ⟨hiff, -, -⟩ := bumpArena_grow_correct everyOther_lawful hnew hrun he hold
    (show eight.align = sixteen.align from rfl) (by decide) rfl
  have hat : AtCursor 40 64 8 ⟨40, 8⟩ 16 := ⟨rfl, by decide⟩
  have hcommit : (everyOther.commit 0 16 true).1 = true := rfl
  exact ⟨eightBytes true, _, _, hrun, rfl, hiff.mpr ⟨hat, hcommit⟩⟩

end ArenaRun

end ForgeAlloc
