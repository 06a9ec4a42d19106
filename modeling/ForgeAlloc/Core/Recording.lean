import ForgeAlloc.Core.Allocator

set_option autoImplicit false

/-! # Allocators that keep a record

`recorded A` is the allocator `A` with a record of its calls: every pair of pointer and layout it
has issued, and every pair that has been handed back to it. A composed allocator that is built
over `recorded A` shows in the record what it has asked of `A`.

If `A` honours the contract then so does `recorded A`, with an invariant that ties the record to
the ledger (`Logged`): what has been issued is what has been received together with what is still
out.
-/

namespace ForgeAlloc

open ByteMemory

/-- What identifies a block when it is handed back: its address and its layout. -/
abbrev Ticket (w : Nat) := Nat × NonZeroLayout w

def Grant.ticket {w : Nat} (g : Grant w) : Ticket w := (g.block.ptr, g.layout)

structure Recorded (w : Nat) (σ : Type) where
  inner : σ
  issued : List (Ticket w)
  received : List (Ticket w)

variable {w : Nat} {σ : Type}

namespace Recorded

/-- The heap of the allocator underneath. -/
def heap (h : Heap (Recorded w σ)) : Heap σ := ⟨h.alloc.inner, h.mem⟩

/-- The outcome of an allocating call underneath, with the tickets handed back before it. -/
def note (h : Heap (Recorded w σ)) (back : List (Ticket w)) (l : NonZeroLayout w)
    (r : Option Block × Heap σ) : Option Block × Heap (Recorded w σ) :=
  match r with
  | (none, h') => (none, ⟨⟨h'.alloc, h.alloc.issued, h.alloc.received⟩, h'.mem⟩)
  | (some b, h') =>
      (some b, ⟨⟨h'.alloc, (b.ptr, l) :: h.alloc.issued, back ++ h.alloc.received⟩, h'.mem⟩)

end Recorded

open Recorded

/-- `A` with a record of its calls. -/
def recorded (A : Allocator w σ) : Allocator w (Recorded w σ) where
  allocate := fun l h => note h [] l (A.allocate l (heap h))
  deallocate := fun ptr l h =>
    let h' := A.deallocate ptr l (heap h)
    ⟨⟨h'.alloc, h.alloc.issued, (ptr, l) :: h.alloc.received⟩, h'.mem⟩
  grow := fun ptr old new h => note h [(ptr, old)] new (A.grow ptr old new (heap h))
  shrink := fun ptr old new h => note h [(ptr, old)] new (A.shrink ptr old new (heap h))
  usableSize := fun ptr l h => A.usableSize ptr l (heap h)

def FixedRange.recorded (w : Nat) (R : FixedRange σ) : FixedRange (Recorded w σ) where
  base := fun s => R.base s.inner
  size := fun s => R.size s.inner
  commit := fun off len s =>
    let (ok, t) := R.commit off len s.inner
    (ok, { s with inner := t })

/-- Of the blocks `old` out before the record began and those issued since, some have been
received, the tickets `back` last, and the others are the ledger `L`. -/
def Accounts (old : List (Grant w)) (h : Heap (Recorded w σ)) (back : List (Ticket w))
    (L : Set (Grant w)) : Prop :=
  ∃ out : List (Grant w), out.Nodup ∧ (∀ g, g ∈ L ↔ g ∈ out) ∧
    (old.map Grant.ticket ++ h.alloc.issued).Perm
      ((back ++ h.alloc.received) ++ out.map Grant.ticket)

/-- The invariant of the allocator underneath, and a record that accounts for the ledger. -/
structure Logged (Inv : Heap σ → Set (Grant w) → Prop) (old : List (Grant w))
    (h : Heap (Recorded w σ)) (L : Set (Grant w)) : Prop where
  inv : Inv (heap h) L
  accounts : Accounts old h [] L

variable {A : Allocator w σ} {R : FixedRange σ} {Inv : Heap σ → Set (Grant w) → Prop}
  {old : List (Grant w)} {h h' : Heap (Recorded w σ)} {L : Set (Grant w)} {g : Grant w}
  {b : Block} {l new : NonZeroLayout w}

theorem logged_init {s : σ} {m : Mem} (hinv : Inv ⟨s, m⟩ {g | g ∈ old}) (hnodup : old.Nodup) :
    Logged Inv old ⟨⟨s, [], []⟩, m⟩ {g | g ∈ old} :=
  ⟨hinv, old, hnodup, fun _ => Iff.rfl, by simp⟩

/-- A block of the ledger that is handed back leaves the blocks that are out. -/
theorem Logged.accounts_erase (hl : Logged Inv old h L) (hg : g ∈ L) :
    Accounts old h [g.ticket] (L \ {g}) := by
  obtain ⟨out, hnodup, hmem, hperm⟩ := hl.accounts
  have hout : g ∈ out := (hmem g).mp hg
  refine ⟨out.erase g, hnodup.erase g, fun g' => ?_, ?_⟩
  · rw [hnodup.mem_erase_iff, ← hmem, Set.mem_sdiff, Set.mem_singleton_iff, and_comm]
  · have herase : (out.map Grant.ticket).Perm (g.ticket :: (out.erase g).map Grant.ticket) :=
      (List.perm_cons_erase hout).map Grant.ticket
    exact (hperm.trans (herase.append_left _)).trans List.perm_middle

/-- A call that issues a block, after the tickets `back` were received. -/
theorem issued_note (hA : HonoursCore A Inv) {h₁ : Heap σ} {back : List (Ticket w)}
    {kept : Set (Grant w)} (hiss : Issued Inv kept (heap h) h₁ b new)
    (hacc : Accounts old h back kept) :
    Issued (Logged Inv old) kept h
      ⟨⟨h₁.alloc, (b.ptr, new) :: h.alloc.issued, back ++ h.alloc.received⟩, h₁.mem⟩ b new := by
  obtain ⟨out, hnodup, hmem, hperm⟩ := hacc
  have hsat : Satisfies b new := hA.satisfies hiss.inv (Set.mem_insert ⟨b, new⟩ kept)
  -- the new block overlaps nothing that is out, so it is not out itself
  have hnew : (⟨b, new⟩ : Grant w) ∉ out := by
    intro hout
    exact not_disjoint_self hsat.len_pos (hiss.fresh ⟨b, new⟩ ((hmem _).mpr hout))
  refine ⟨⟨hiss.inv, ⟨b, new⟩ :: out, List.nodup_cons.mpr ⟨hnew, hnodup⟩, fun g => ?_, ?_⟩,
    hiss.fresh, hiss.frame⟩
  · rw [Set.mem_insert_iff, List.mem_cons, hmem]
  · show (old.map Grant.ticket ++ (b.ptr, new) :: h.alloc.issued).Perm
      ((back ++ h.alloc.received) ++ (b.ptr, new) :: out.map Grant.ticket)
    exact (List.perm_middle.trans (hperm.cons _)).trans List.perm_middle.symm

theorem logged_unchanged (hl : Logged Inv old h L) {h₁ : Heap σ}
    (hun : Unchanged Inv L (heap h) h₁) :
    Unchanged (Logged Inv old) L h
      ⟨⟨h₁.alloc, h.alloc.issued, h.alloc.received⟩, h₁.mem⟩ :=
  ⟨⟨hun.inv, hl.accounts⟩, hun.frame⟩

/-- The outcome of a call underneath can be read off the outcome of the recorded call. -/
theorem note_eq_some {back : List (Ticket w)} {r : Option Block × Heap σ}
    (heq : note h back l r = (some b, h')) :
    r.1 = some b ∧
      h' = ⟨⟨r.2.alloc, (b.ptr, l) :: h.alloc.issued, back ++ h.alloc.received⟩, r.2.mem⟩ := by
  rcases r with ⟨_ | c, h₁⟩
  · cases heq
  · cases heq
    exact ⟨rfl, rfl⟩

theorem note_eq_none {back : List (Ticket w)} {r : Option Block × Heap σ}
    (heq : note h back l r = (none, h')) :
    r.1 = none ∧ h' = ⟨⟨r.2.alloc, h.alloc.issued, h.alloc.received⟩, r.2.mem⟩ := by
  rcases r with ⟨_ | c, h₁⟩
  · cases heq
    exact ⟨rfl, rfl⟩
  · cases heq

theorem note_alloc (back : List (Ticket w)) (r : Option Block × Heap σ) :
    heap (note h back l r).2 = r.2 := by
  rcases r with ⟨_ | c, h₁⟩ <;> rfl

/-- The record does not change what an allocator does. -/
theorem recorded_honoursCore (hA : HonoursCore A Inv) :
    HonoursCore (recorded A) fun h L => Inv (heap h) L := by
  refine hA.comap Recorded.inner (fun l h => ?_) fun ptr l h => rfl
  have hcall : A.allocate l (heap h) = (((recorded A).allocate l h).1,
      heap ((recorded A).allocate l h).2) := by
    show A.allocate l (heap h) = ((note h [] l (A.allocate l (heap h))).1,
      heap (note h [] l (A.allocate l (heap h))).2)
    rw [note_alloc]
    rcases A.allocate l (heap h) with ⟨_ | c, h₁⟩ <;> rfl
  exact hcall

/-- **A recorded allocator honours the contract of the allocator underneath**, and its record
accounts for the ledger. -/
theorem recorded_honours (hA : HonoursRange A R Inv) (old : List (Grant w)) :
    HonoursRange (recorded A) (R.recorded w) (Logged Inv old) where
  satisfies := fun hl hg => hA.satisfies hl.inv hg
  disjoint := fun hl hg hg' hne => hA.disjoint hl.inv hg hg' hne
  allocate_some := by
    intro h L l b h' hl heq
    obtain ⟨hr, rfl⟩ := note_eq_some heq
    exact issued_note hA.toHonoursCore (hA.allocate_some hl.inv (Prod.ext hr rfl)) hl.accounts
  allocate_none := by
    intro h L l h' hl heq
    obtain ⟨hr, rfl⟩ := note_eq_none heq
    exact logged_unchanged hl (hA.allocate_none hl.inv (Prod.ext hr rfl))
  deallocate := by
    intro h L g hl hg
    have hun := hA.deallocate hl.inv hg
    exact ⟨⟨hun.inv, hl.accounts_erase hg⟩, hun.frame⟩
  write := fun hl hm => ⟨hA.write hl.inv hm, hl.accounts⟩
  grow_some := by
    intro h L g new b h' hl hg hsize halign heq
    obtain ⟨hr, rfl⟩ := note_eq_some heq
    obtain ⟨hiss, hcopy⟩ := hA.grow_some hl.inv hg hsize halign (Prod.ext hr rfl)
    exact ⟨issued_note hA.toHonoursCore hiss (hl.accounts_erase hg), hcopy⟩
  grow_none := by
    intro h L g new h' hl hg hsize halign heq
    obtain ⟨hr, rfl⟩ := note_eq_none heq
    exact logged_unchanged hl (hA.grow_none hl.inv hg hsize halign (Prod.ext hr rfl))
  shrink_some := by
    intro h L g new b h' hl hg hsize halign heq
    obtain ⟨hr, rfl⟩ := note_eq_some heq
    obtain ⟨hiss, hcopy⟩ := hA.shrink_some hl.inv hg hsize halign (Prod.ext hr rfl)
    exact ⟨issued_note hA.toHonoursCore hiss (hl.accounts_erase hg), hcopy⟩
  shrink_none := by
    intro h L g new h' hl hg hsize halign heq
    obtain ⟨hr, rfl⟩ := note_eq_none heq
    exact logged_unchanged hl (hA.shrink_none hl.inv hg hsize halign (Prod.ext hr rfl))
  usableSize := fun hl hg heq => hA.usableSize hl.inv hg heq
  base_le := fun hl hg => hA.base_le hl.inv hg
  le_end := fun hl hg => hA.le_end hl.inv hg
  base_pos := fun hl => hA.base_pos hl.inv
  end_le := fun hl => hA.end_le hl.inv
  base_allocate := by
    intro h L l hl
    show R.base (heap (note h [] l (A.allocate l (heap h))).2).alloc = R.base (heap h).alloc
    rw [note_alloc]
    exact hA.base_allocate hl.inv
  base_deallocate := fun hl hg => hA.base_deallocate hl.inv hg

end ForgeAlloc
