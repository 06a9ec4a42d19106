import ForgeAlloc.Layout.Bump
import ForgeAlloc.Library.Run

set_option autoImplicit false

/-! # Runs of a `BumpArena`

The ledger of a run holds the blocks issued and not reclaimed. Every entry has the time it was
issued at and the identity of its block: a fresh block gets a new identity, an in-place growth
issues a longer block under the identity of the old one. Both entries stay, since a rewind to a
mark between them takes back the growth and leaves the old block.

A mark is a recorded value of `allocated` together with its time; a rewind reclaims what was
issued after the mark. Marks stay usable after a rewind or a reset, under the guard that they
are not above the cursor.

`ArenaRun.Inv` is the invariant: each block ends below the cursor, and below every later mark.
-/

namespace ForgeAlloc

open MachineInt ByteMemory

/-! ## The run state -/

/-- An issued block. -/
structure Entry where
  id : Nat
  block : Block
  align : Nat
  stamp : Nat
  deriving DecidableEq

/-- A recorded value of `allocated`. -/
structure Mark where
  cursor : Nat
  time : Nat
  deriving DecidableEq

structure ArenaRun (β : Type) where
  heap : Heap (BumpArena β)
  ledger : List Entry
  marks : List Mark
  clock : Nat

inductive ArenaOp (w : Nat)
  | allocate (l : NonZeroLayout w)
  | allocUninit (T : RustType w)
  | allocSliceCopy (T : RustType w) (src : Slice T)
  | grow (e : Entry) (new : NonZeroLayout w)
  | mark
  | rewindTo (mark : Mark)
  | reset

namespace ArenaRun

variable {w : Nat} {β : Type} {R : FixedRange β} {base : Nat}

def init (a : BumpArena β) (m : Mem) : ArenaRun β := ⟨⟨a, m⟩, [], [], 0⟩

/-- Book the outcome of a call: a block under the identity `id`, or nothing. -/
def record (s : ArenaRun β) (id align : Nat) (r : Option Block) (h : Heap (BumpArena β)) :
    ArenaRun β :=
  match r with
  | none => { s with heap := h }
  | some b => { s with heap := h, ledger := ⟨id, b, align, s.clock⟩ :: s.ledger,
                       clock := s.clock + 1 }

/-- One operation. A growth needs an entry of the ledger, an unchanged alignment and a size that
is not smaller; a rewind needs a recorded mark that is not above the cursor. -/
def step (R : FixedRange β) (s : ArenaRun β) : ArenaOp w → Option (ArenaRun β)
  | .allocate l =>
      let (r, h) := BumpArena.allocate R l s.heap
      some (s.record s.clock l.align r h)
  | .allocUninit T =>
      let (r, a) := BumpArena.allocUninit R T s.heap.alloc
      some (s.record s.clock T.align (r.map fun p => ⟨p, T.size⟩) ⟨a, s.heap.mem⟩)
  | .allocSliceCopy T src =>
      let (r, h) := BumpArena.allocSliceCopy R T src s.heap
      some (s.record s.clock T.align r h)
  | .grow e new =>
      match NonZeroLayout.fromSizeAlign w e.block.len e.align with
      | none => none
      | some old =>
          if e ∈ s.ledger ∧ old.align = new.align ∧ old.size ≤ new.size then
            let (r, h) := BumpArena.grow R e.block.ptr old new s.heap
            let inPlace := r.map Block.ptr = some e.block.ptr
            some (s.record (if inPlace then e.id else s.clock) new.align r h)
          else none
  | .mark =>
      some { s with marks := ⟨s.heap.alloc.allocated, s.clock⟩ :: s.marks, clock := s.clock + 1 }
  | .rewindTo m =>
      if m ∈ s.marks ∧ m.cursor ≤ s.heap.alloc.allocated then
        some { s with heap := ⟨s.heap.alloc.rewindTo m.cursor, s.heap.mem⟩,
                      ledger := s.ledger.filter fun e => e.stamp < m.time }
      else none
  | .reset => some { s with heap := ⟨s.heap.alloc.reset, s.heap.mem⟩, ledger := [] }

/-! ## The invariant -/

structure Inv (w : Nat) (R : FixedRange β) (base capacity : Nat) (s : ArenaRun β) : Prop where
  sound : BumpArena.Sound w R base s.heap.alloc
  capacity_eq : s.heap.alloc.capacity = capacity
  aligned : ∀ e ∈ s.ledger, e.align ∣ e.block.ptr
  within : ∀ e ∈ s.ledger, e.block.Within base s.heap.alloc.cursor
  disjoint : ∀ e ∈ s.ledger, ∀ e' ∈ s.ledger, e.id ≠ e'.id →
    Disjoint e.block.bytes e'.block.bytes
  same_ptr : ∀ e ∈ s.ledger, ∀ e' ∈ s.ledger, e.id = e'.id → e.block.ptr = e'.block.ptr
  id_lt : ∀ e ∈ s.ledger, e.id < s.clock
  mark_lt : ∀ m ∈ s.marks, m.time < s.clock
  /-- What was issued before a mark ends below it. -/
  below_mark : ∀ m ∈ s.marks, ∀ e ∈ s.ledger, e.stamp < m.time → e.block.Within base m.cursor

variable {capacity : Nat} {s : ArenaRun β} {a : BumpArena β} {h : Heap (BumpArena β)} {b : Block}
  {align id : Nat}

/-- The invariant survives a change of the heap that keeps the base and the cursor. -/
theorem Inv.congr (hi : Inv w R base capacity s) (hs : BumpArena.Sound w R base h.alloc)
    (hcur : h.alloc.cursor = s.heap.alloc.cursor)
    (hcap : h.alloc.capacity = s.heap.alloc.capacity) :
    Inv w R base capacity { s with heap := h } where
  sound := hs
  capacity_eq := hcap.trans hi.capacity_eq
  aligned := hi.aligned
  within := fun e he => (hi.within e he).mono (le_of_eq hcur.symm)
  disjoint := hi.disjoint
  same_ptr := hi.same_ptr
  id_lt := hi.id_lt
  mark_lt := hi.mark_lt
  below_mark := hi.below_mark

/-- The invariant survives the booking of a block that ends at or below the new cursor and is
disjoint from the blocks of other identities. -/
theorem Inv.record (hi : Inv w R base capacity s) (hs : BumpArena.Sound w R base h.alloc)
    (hcur : s.heap.alloc.cursor ≤ h.alloc.cursor)
    (hcap : h.alloc.capacity = s.heap.alloc.capacity) (halign : align ∣ b.ptr)
    (hwithin : b.Within base h.alloc.cursor) (hid : id ≤ s.clock)
    (hfresh : ∀ e ∈ s.ledger, e.id ≠ id → Disjoint b.bytes e.block.bytes)
    (hsame : ∀ e ∈ s.ledger, e.id = id → e.block.ptr = b.ptr) :
    Inv w R base capacity (s.record id align (some b) h) where
  sound := hs
  capacity_eq := hcap.trans hi.capacity_eq
  aligned := List.forall_mem_cons.mpr ⟨halign, hi.aligned⟩
  within := List.forall_mem_cons.mpr ⟨hwithin, fun e he => (hi.within e he).mono hcur⟩
  disjoint := by
    simp only [ArenaRun.record, List.forall_mem_cons]
    refine ⟨⟨fun hne => absurd rfl hne, fun e he hne => hfresh e he hne.symm⟩,
      fun e he => ⟨fun hne => (hfresh e he hne).symm, hi.disjoint e he⟩⟩
  same_ptr := by
    simp only [ArenaRun.record, List.forall_mem_cons]
    refine ⟨⟨fun _ => trivial, fun e he heq => (hsame e he heq.symm).symm⟩,
      fun e he => ⟨fun heq => hsame e he heq, hi.same_ptr e he⟩⟩
  id_lt := List.forall_mem_cons.mpr
    ⟨Nat.lt_succ_of_le hid, fun e he => Nat.lt_succ_of_lt (hi.id_lt e he)⟩
  mark_lt := fun m hm => Nat.lt_succ_of_lt (hi.mark_lt m hm)
  below_mark := fun m hm => by
    have hlt := hi.mark_lt m hm
    simp only [ArenaRun.record, List.forall_mem_cons]
    exact ⟨fun hlt' => absurd hlt' (by omega), hi.below_mark m hm⟩

/-- A fresh identity belongs to no entry. -/
theorem Inv.record_fresh (hi : Inv w R base capacity s) (hs : BumpArena.Sound w R base h.alloc)
    (hcap : h.alloc.capacity = s.heap.alloc.capacity) (halign : align ∣ b.ptr)
    (hge : base + s.heap.alloc.cursor ≤ b.ptr) (hend : b.ptr + b.len = base + h.alloc.cursor) :
    Inv w R base capacity (s.record s.clock align (some b) h) := by
  refine hi.record hs (by omega) hcap halign ?_ le_rfl ?_ ?_
  · exact Block.within_of_le (by omega) (le_of_eq hend)
  · exact fun e he _ => (hi.within e he).disjoint_of_ge (Or.inr hge)
  · intro e he heq
    have := hi.id_lt e he
    omega

/-- A block without bytes may be booked anywhere. -/
theorem Inv.record_empty (hi : Inv w R base capacity s) (halign : align ∣ b.ptr)
    (hlen : b.len = 0) : Inv w R base capacity (s.record s.clock align (some b) s.heap) := by
  refine hi.record hi.sound le_rfl rfl halign ?_ le_rfl ?_ ?_
  · intro x hx
    rw [Block.mem_bytes] at hx
    omega
  · exact fun e he _ => (hi.within e he).disjoint_of_ge (Or.inl hlen)
  · intro e he heq
    have := hi.id_lt e he
    omega

/-! ## Every step keeps the invariant -/

theorem Inv.allocate (hR : R.Lawful) (hi : Inv w R base capacity s) (l : NonZeroLayout w) :
    Inv w R base capacity (s.record s.clock l.align (BumpArena.allocate R l s.heap).1
      (BumpArena.allocate R l s.heap).2) := by
  rcases heq : BumpArena.allocate R l s.heap with ⟨r, h⟩
  cases r with
  | none =>
      obtain ⟨hs, hcur, hcap, -⟩ := BumpArena.allocate_none hR hi.sound heq
      exact hi.congr hs hcur hcap
  | some b =>
      obtain ⟨hp, -, hend, hs, hcap, -⟩ := BumpArena.allocate_some hR hi.sound heq
      refine hi.record_fresh hs hcap ?_ ?_ hend
      · exact hp ▸ dvd_alignUp _ _
      · exact hp ▸ le_alignUp l.align_pos

theorem Inv.allocUninit (hR : R.Lawful) (hi : Inv w R base capacity s) (T : RustType w) :
    Inv w R base capacity (s.record s.clock T.align
      ((BumpArena.allocUninit R T s.heap.alloc).1.map fun p => ⟨p, T.size⟩)
      ⟨(BumpArena.allocUninit R T s.heap.alloc).2, s.heap.mem⟩) := by
  rcases heq : BumpArena.allocUninit R T s.heap.alloc with ⟨r, a⟩
  cases r with
  | none =>
      obtain ⟨hs, hcur, hcap⟩ := BumpArena.allocUninit_none hR hi.sound heq
      exact hi.congr hs hcur hcap
  | some p =>
      rcases BumpArena.allocUninit_some hR hi.sound heq with
        ⟨hzero, rfl, rfl⟩ | ⟨hp, hend, hs, hcap⟩
      · exact hi.record_empty (dvd_refl _) hzero
      · refine hi.record_fresh hs hcap ?_ ?_ hend
        · exact hp ▸ dvd_alignUp _ _
        · exact hp ▸ le_alignUp (Nat.pos_of_isPowerOfTwo T.align_pow)

theorem Inv.allocSliceCopy (hR : R.Lawful) (hi : Inv w R base capacity s) (T : RustType w)
    (src : Slice T) :
    Inv w R base capacity (s.record s.clock T.align (BumpArena.allocSliceCopy R T src s.heap).1
      (BumpArena.allocSliceCopy R T src s.heap).2) := by
  rcases heq : BumpArena.allocSliceCopy R T src s.heap with ⟨r, h⟩
  cases r with
  | none =>
      obtain ⟨hs, hcur, hcap⟩ := BumpArena.allocSliceCopy_none hR hi.sound heq
      exact hi.congr hs hcur hcap
  | some b =>
      rcases BumpArena.allocSliceCopy_some hR hi.sound heq with
        ⟨hzero, hp, rfl⟩ | ⟨hp, -, hend, hs, hcap⟩
      · exact hi.record_empty (hp ▸ dvd_refl _) hzero
      · refine hi.record_fresh hs hcap ?_ ?_ hend
        · exact hp ▸ dvd_alignUp _ _
        · exact hp ▸ le_alignUp (Nat.pos_of_isPowerOfTwo T.align_pow)

/-- An extension of the block that ends at the cursor runs into no other block. -/
theorem Inv.fresh_of_extends (hi : Inv w R base capacity s) {e : Entry} (he : e ∈ s.ledger)
    (hpos : 0 < e.block.len) (hend : e.block.ptr + e.block.len = base + s.heap.alloc.cursor)
    (n : Nat) : ∀ e' ∈ s.ledger, e'.id ≠ e.id →
      Disjoint (Block.bytes ⟨e.block.ptr, n⟩) e'.block.bytes := by
  intro e' he' hne
  have hd := hi.disjoint e' he' e he hne
  have hwithin := hi.within e' he'
  by_cases hpos' : 0 < e'.block.len
  · rw [Block.within_iff hpos'] at hwithin
    rw [Block.disjoint_iff] at hd ⊢
    simp only
    omega
  · rw [Block.disjoint_iff]
    omega

theorem Inv.grow (hR : R.Lawful) (hi : Inv w R base capacity s) {e : Entry} (he : e ∈ s.ledger)
    {old new : NonZeroLayout w} (hlen : old.size = e.block.len) (hold : old.align = e.align)
    (halign : old.align = new.align) (hsize : old.size ≤ new.size) :
    Inv w R base capacity (s.record
      (if (BumpArena.grow R e.block.ptr old new s.heap).1.map Block.ptr = some e.block.ptr
        then e.id else s.clock) new.align
      (BumpArena.grow R e.block.ptr old new s.heap).1
      (BumpArena.grow R e.block.ptr old new s.heap).2) := by
  have hpos : 0 < e.block.len := hlen ▸ old.size_pos
  obtain ⟨hge, hle⟩ := (Block.within_iff hpos).mp (hi.within e he)
  have hend_lt := hi.sound.end_lt
  have hcursor_le := hi.sound.cursor_le
  by_cases hext : BumpArena.Extends R e.block.ptr old.size new.size s.heap.alloc
  · rw [BumpArena.grow_of_extends hi.sound hext]
    obtain ⟨-, hend, hcap⟩ := hext
    rw [hi.sound.base_eq] at hend hcap
    split
    case h_1 backing hcommit =>
        exact hi.congr ⟨(hR.base_of_commit hcommit).trans hi.sound.base_eq, hend_lt, hcursor_le⟩
          rfl rfl
    case h_2 backing hcommit =>
        simp only [Option.map_some, if_true]
        refine hi.record ?_ ?_ rfl ?_ ?_ (le_of_lt (hi.id_lt e he)) ?_ ?_
        · exact ⟨(hR.base_of_commit hcommit).trans hi.sound.base_eq, hend_lt, by
            simp only; omega⟩
        · simp only
          omega
        · exact halign ▸ hold ▸ hi.aligned e he
        · exact Block.within_of_le hge (by simp only; omega)
        · exact hi.fresh_of_extends he hpos (by omega) new.size
        · exact fun e' he' heq => hi.same_ptr e' he' e he heq
  · rcases BumpArena.grow_of_not_extends hi.sound (by omega) hext with hnone | hrel
    · rw [hnone]
      exact hi
    · rw [hrel]
      rcases heq : BumpArena.relocate R e.block.ptr old new s.heap with ⟨r, h⟩
      cases r with
      | none =>
          obtain ⟨hs, hcur, hcap, -⟩ :=
            BumpArena.allocate_none hR hi.sound (BumpArena.relocate_none heq)
          exact hi.congr hs hcur hcap
      | some b =>
          obtain ⟨h₁, halloc, rfl⟩ := BumpArena.relocate_some heq
          obtain ⟨hp, -, hend, hs, hcap, -⟩ := BumpArena.allocate_some hR hi.sound halloc
          have hnew : base + s.heap.alloc.cursor ≤ b.ptr := hp ▸ le_alignUp new.align_pos
          have hmoved : ¬ (some b : Option Block).map Block.ptr = some e.block.ptr := by
            rw [Option.map_some, Option.some.injEq]
            omega
          rw [if_neg hmoved]
          exact hi.record_fresh hs hcap (hp ▸ dvd_alignUp _ _) hnew hend

theorem Inv.mark (hi : Inv w R base capacity s) :
    Inv w R base capacity { s with marks := ⟨s.heap.alloc.allocated, s.clock⟩ :: s.marks,
                                   clock := s.clock + 1 } where
  sound := hi.sound
  capacity_eq := hi.capacity_eq
  aligned := hi.aligned
  within := hi.within
  disjoint := hi.disjoint
  same_ptr := hi.same_ptr
  id_lt := fun e he => Nat.lt_succ_of_lt (hi.id_lt e he)
  mark_lt := List.forall_mem_cons.mpr
    ⟨Nat.lt_succ_self _, fun m hm => Nat.lt_succ_of_lt (hi.mark_lt m hm)⟩
  below_mark := List.forall_mem_cons.mpr ⟨fun e he _ => hi.within e he, hi.below_mark⟩

theorem Inv.rewindTo (hi : Inv w R base capacity s) {m : Mark} (hm : m ∈ s.marks)
    (hle : m.cursor ≤ s.heap.alloc.cursor) :
    Inv w R base capacity
      { s with heap := ⟨s.heap.alloc.rewindTo m.cursor, s.heap.mem⟩,
               ledger := s.ledger.filter fun e => e.stamp < m.time } := by
  have hkept : ∀ e ∈ s.ledger.filter (fun e => e.stamp < m.time),
      e ∈ s.ledger ∧ e.stamp < m.time := by
    intro e he
    rw [List.mem_filter, decide_eq_true_iff] at he
    exact he
  exact
    { sound := ⟨hi.sound.base_eq, hi.sound.end_lt, hle.trans hi.sound.cursor_le⟩
      capacity_eq := hi.capacity_eq
      aligned := fun e he => hi.aligned e (hkept e he).1
      within := fun e he => hi.below_mark m hm e (hkept e he).1 (hkept e he).2
      disjoint := fun e he e' he' => hi.disjoint e (hkept e he).1 e' (hkept e' he').1
      same_ptr := fun e he e' he' => hi.same_ptr e (hkept e he).1 e' (hkept e' he').1
      id_lt := fun e he => hi.id_lt e (hkept e he).1
      mark_lt := hi.mark_lt
      below_mark := fun m' hm' e he => hi.below_mark m' hm' e (hkept e he).1 }

theorem Inv.reset (hi : Inv w R base capacity s) :
    Inv w R base capacity
      { s with heap := ⟨s.heap.alloc.reset, s.heap.mem⟩, ledger := [] } where
  sound := ⟨hi.sound.base_eq, hi.sound.end_lt, Nat.zero_le _⟩
  capacity_eq := hi.capacity_eq
  aligned := List.forall_mem_nil _
  within := List.forall_mem_nil _
  disjoint := List.forall_mem_nil _
  same_ptr := List.forall_mem_nil _
  id_lt := List.forall_mem_nil _
  mark_lt := hi.mark_lt
  below_mark := fun _ _ => List.forall_mem_nil _

theorem inv_step (hR : R.Lawful) (op : ArenaOp w) {s' : ArenaRun β}
    (hi : Inv w R base capacity s) (hstep : step R s op = some s') :
    Inv w R base capacity s' := by
  cases op with
  | allocate l =>
      cases hstep
      exact hi.allocate hR l
  | allocUninit T =>
      cases hstep
      exact hi.allocUninit hR T
  | allocSliceCopy T src =>
      cases hstep
      exact hi.allocSliceCopy hR T src
  | grow e new =>
      simp only [step] at hstep
      split at hstep
      · cases hstep
      case h_2 old hold =>
          obtain ⟨hlen, halign⟩ := NonZeroLayout.fromSizeAlign_eq_some.mp hold
          split at hstep
          case isFalse => cases hstep
          case isTrue hguard =>
              cases hstep
              exact hi.grow hR hguard.1 hlen halign hguard.2.1 hguard.2.2
  | mark =>
      cases hstep
      exact hi.mark
  | rewindTo m =>
      simp only [step] at hstep
      split at hstep
      case isFalse => cases hstep
      case isTrue hguard =>
          cases hstep
          exact hi.rewindTo hguard.1 hguard.2
  | reset =>
      cases hstep
      exact hi.reset

theorem inv_init {backing : β} {a : BumpArena β} (hnew : BumpArena.new w R backing = some a)
    (m : Mem) : Inv w R (R.base backing) (R.size backing) (init a m) where
  sound := (BumpArena.sound_new hnew).1
  capacity_eq := (BumpArena.sound_new hnew).2
  aligned := List.forall_mem_nil _
  within := List.forall_mem_nil _
  disjoint := List.forall_mem_nil _
  same_ptr := List.forall_mem_nil _
  id_lt := List.forall_mem_nil _
  mark_lt := List.forall_mem_nil _
  below_mark := List.forall_mem_nil _

theorem inv_run (hR : R.Lawful) {backing : β} {a : BumpArena β}
    (hnew : BumpArena.new w R backing = some a) {m : Mem} {ops : List (ArenaOp w)}
    (hrun : Machine.run (step R) (init a m) ops = some s) :
    Inv w R (R.base backing) (R.size backing) s :=
  Machine.run_invariant (fun _ op _ hi hstep => inv_step hR op hi hstep) (inv_init hnew m) hrun

/-- The grants of `L` are entries of the ledger, each its own block: what a client holds that
keeps one layout for each block. -/
structure Selects (s : ArenaRun β) (L : Set (Grant w)) (entry : Grant w → Entry) : Prop where
  mem : ∀ g ∈ L, entry g ∈ s.ledger
  block_eq : ∀ g ∈ L, (entry g).block = g.block
  len_eq : ∀ g ∈ L, g.block.len = g.layout.size
  align_eq : ∀ g ∈ L, (entry g).align = g.layout.align
  id_inj : Set.InjOn (fun g => (entry g).id) L

/-- In every state of a run the arena holds what its client has. -/
theorem Inv.holds (hi : Inv w R base capacity s) {L : Set (Grant w)} {entry : Grant w → Entry}
    (hsel : Selects s L entry) : BumpArena.Holds R base s.heap L := by
  have hbounds : ∀ g ∈ L, base ≤ g.block.ptr ∧
      g.block.ptr + g.block.len ≤ base + s.heap.alloc.cursor := by
    intro g hg
    have hpos : 0 < g.block.len := hsel.len_eq g hg ▸ g.layout.size_pos
    rw [← Block.within_iff hpos, ← hsel.block_eq g hg]
    exact hi.within _ (hsel.mem g hg)
  exact
    { sound := hi.sound
      len_eq := hsel.len_eq
      aligned := fun g hg => by
        rw [← hsel.align_eq g hg, ← hsel.block_eq g hg]
        exact hi.aligned _ (hsel.mem g hg)
      base_le := fun g hg => (hbounds g hg).1
      le_cursor := fun g hg => (hbounds g hg).2
      disjoint := fun g hg g' hg' hne => by
        have hid : (entry g).id ≠ (entry g').id := fun heq => hne (hsel.id_inj hg hg' heq)
        have hd := hi.disjoint _ (hsel.mem g hg) _ (hsel.mem g' hg') hid
        rwa [hsel.block_eq g hg, hsel.block_eq g' hg'] at hd }

/-- **Every run of a bump arena.** For every backing `new` accepts and every run, commits failing
at will:

* the cursor stays inside the capacity, so `remaining` does not underflow;
* the blocks issued and not reclaimed are inside the region and aligned, and two of them are
  disjoint unless they are one block before and after an in-place growth;
* `allocate` and its typed forms succeed exactly when the request fits above the cursor, as exact
  integers, and the commit succeeds;
* an operation that fails leaves the cursor where it was. -/
theorem bumpArena_run_correct (hR : R.Lawful) {backing : β} {a : BumpArena β}
    (hnew : BumpArena.new w R backing = some a) {m : Mem} {ops : List (ArenaOp w)}
    (hrun : Machine.run (step R) (init a m) ops = some s) :
    let base := R.base backing
    let capacity := R.size backing
    let arena := s.heap.alloc
    let fits : Nat → Nat → Prop := fun size align =>
      alignUp (base + arena.cursor) align + size ≤ base + capacity ∧
        (R.commit (alignUp (base + arena.cursor) align - base) size arena.backing).1 = true
    (arena.cursor ≤ capacity ∧ arena.remaining = some (capacity - arena.cursor)) ∧
      (∀ e ∈ s.ledger, e.block.Within base capacity ∧ e.align ∣ e.block.ptr) ∧
      (∀ e ∈ s.ledger, ∀ e' ∈ s.ledger,
        (e.id ≠ e'.id → Disjoint e.block.bytes e'.block.bytes) ∧
          (e.id = e'.id → e.block.ptr = e'.block.ptr)) ∧
      (∀ l : NonZeroLayout w,
        (BumpArena.allocate R l s.heap).1.isSome ↔ fits l.size l.align) ∧
      (∀ T : RustType w, T.size ≠ 0 →
        ((BumpArena.allocUninit R T arena).1.isSome ↔ fits T.size T.align)) ∧
      (∀ (T : RustType w) (src : Slice T), src.len ≠ 0 → T.size ≠ 0 →
        ((BumpArena.allocSliceCopy R T src s.heap).1.isSome ↔ fits (T.size * src.len) T.align)) ∧
      (∀ l : NonZeroLayout w, (BumpArena.allocate R l s.heap).1 = none →
        (BumpArena.allocate R l s.heap).2.alloc.cursor = arena.cursor) ∧
      (∀ T : RustType w, (BumpArena.allocUninit R T arena).1 = none →
        (BumpArena.allocUninit R T arena).2.cursor = arena.cursor) ∧
      (∀ (T : RustType w) (src : Slice T), (BumpArena.allocSliceCopy R T src s.heap).1 = none →
        (BumpArena.allocSliceCopy R T src s.heap).2.alloc.cursor = arena.cursor) ∧
      (∀ (ptr : Nat) (old new : NonZeroLayout w), (BumpArena.grow R ptr old new s.heap).1 = none →
        (BumpArena.grow R ptr old new s.heap).2.alloc.cursor = arena.cursor) := by
  intro base capacity arena fits
  have hi : Inv w R base capacity s := inv_run hR hnew hrun
  have hcap : arena.capacity = capacity := hi.capacity_eq
  have hcursor : arena.cursor ≤ capacity := hcap ▸ hi.sound.cursor_le
  have hfits : ∀ {size k : Nat}, 0 < size → k ≤ w →
      ((BumpArena.reserve w R size (2 ^ k) arena).1.isSome ↔ fits size (2 ^ k)) := by
    intro size k hsize hk
    rw [BumpArena.reserve_isSome_iff hk hsize hi.sound, hcap]
  refine ⟨⟨hcursor, ?_⟩, fun e he => ⟨(hi.within e he).mono hcursor, hi.aligned e he⟩,
    fun e he e' he' => ⟨hi.disjoint e he e' he', hi.same_ptr e he e' he'⟩, ?_, ?_, ?_,
    fun _ => BumpArena.cursor_allocate_none, fun _ => BumpArena.cursor_allocUninit_none,
    fun _ _ => BumpArena.cursor_allocSliceCopy_none, fun _ _ _ => BumpArena.cursor_grow_none⟩
  · exact checkedSub_eq_some.mpr ⟨hcap ▸ hcursor, by rw [hcap]⟩
  · intro l
    obtain ⟨k, hk, hkw⟩ := l.exists_align
    rw [BumpArena.isSome_allocate, hk]
    exact hfits l.size_pos hkw
  · intro T hT
    obtain ⟨k, hk, hkw⟩ := T.exists_align
    rw [BumpArena.allocUninit, if_neg hT, hk]
    exact hfits (Nat.pos_of_ne_zero hT) hkw
  · intro T src hlen hT
    obtain ⟨k, hk, hkw⟩ := T.exists_align
    rw [BumpArena.isSome_allocSliceCopy hlen hT, hk]
    exact hfits (Nat.mul_pos (Nat.pos_of_ne_zero hT) (Nat.pos_of_ne_zero hlen)) hkw

/-- A backing of 64 bytes at address 40 whose commits succeed only every other time. -/
def everyOther : FixedRange Bool where
  base := fun _ => 40
  size := fun _ => 64
  commit := fun _ _ ok => (ok, !ok)

theorem everyOther_lawful : everyOther.Lawful :=
  ⟨fun _ => Nat.succ_pos _, fun _ _ _ => rfl, fun _ _ _ => rfl⟩

/-- A failed commit, an in-place growth and a rewind that takes the growth back. -/
theorem bumpArena_run_correct_everyOther :
    let s : ArenaRun Bool :=
      ⟨⟨⟨false, 64, 16⟩, fun _ => 0⟩, [⟨0, ⟨48, 8⟩, 16, 0⟩], [⟨16, 1⟩], 3⟩
    Machine.run (step (w := 16) everyOther) (init ⟨true, 64, 0⟩ fun _ => 0)
        [.allocate ⟨8, 16, by decide, ⟨4, rfl⟩, by decide⟩, .mark,
          .allocate ⟨8, 8, by decide, ⟨3, rfl⟩, by decide⟩,
          .grow ⟨0, ⟨48, 8⟩, 16, 0⟩ ⟨24, 16, by decide, ⟨4, rfl⟩, by decide⟩,
          .rewindTo ⟨16, 1⟩] = some s ∧
      s.heap.alloc.remaining = some 48 ∧ ∀ e ∈ s.ledger, e.block.Within 40 64 := by
  intro s
  have hrun : Machine.run (step (w := 16) everyOther) (init ⟨true, 64, 0⟩ fun _ => 0)
      [.allocate ⟨8, 16, by decide, ⟨4, rfl⟩, by decide⟩, .mark,
        .allocate ⟨8, 8, by decide, ⟨3, rfl⟩, by decide⟩,
        .grow ⟨0, ⟨48, 8⟩, 16, 0⟩ ⟨24, 16, by decide, ⟨4, rfl⟩, by decide⟩,
        .rewindTo ⟨16, 1⟩] = some s := rfl
  have hnew : BumpArena.new 16 everyOther true = some ⟨true, 64, 0⟩ := rfl
  have hcorrect := bumpArena_run_correct everyOther_lawful hnew hrun
  exact ⟨hrun, hcorrect.1.2, fun e he => (hcorrect.2.1 e he).1⟩

end ArenaRun

end ForgeAlloc
