import ForgeAlloc.Core.Recording

set_option autoImplicit false

/-! # Allocators that watch their callers

`policed A` is the allocator `A` with the list of the tickets that are out, and a mark that is set
for good by a caller who breaks its side of the contract: by freeing or resizing something that is
not out, or by a resize in the wrong direction or to another alignment.

`Holding` is what a caller knows who has taken at most one block and keeps to the contract: that
block, if any, is all that is out, the mark is not set, and the allocator underneath honours its
contract for that block next to the blocks of everybody else.
-/

namespace ForgeAlloc

open ByteMemory

structure Policed (w : Nat) (σ : Type) where
  inner : σ
  out : List (Ticket w)
  misused : Bool

variable {w : Nat} {σ : Type}

namespace Policed

/-- The heap of the allocator underneath. -/
def heap (h : Heap (Policed w σ)) : Heap σ := ⟨h.alloc.inner, h.mem⟩

/-- The state after the ticket `t` was presented, by a caller who is otherwise `legal` or not. -/
def present (p : Policed w σ) (t : Ticket w) (legal : Bool) : Policed w σ :=
  { p with misused := p.misused || !(p.out.contains t && legal) }

/-- The outcome of a call underneath, made for the layout `l`; the tickets in `kept` stay out if
it succeeds. -/
def settle (p : Policed w σ) (kept : List (Ticket w)) (l : NonZeroLayout w)
    (r : Option Block × Heap σ) : Option Block × Heap (Policed w σ) :=
  match r with
  | (none, h') => (none, ⟨⟨h'.alloc, p.out, p.misused⟩, h'.mem⟩)
  | (some b, h') => (some b, ⟨⟨h'.alloc, (b.ptr, l) :: kept, p.misused⟩, h'.mem⟩)

end Policed

open Policed

/-- `A` with an eye on its callers. -/
def policed (A : Allocator w σ) : Allocator w (Policed w σ) where
  allocate := fun l h => settle h.alloc h.alloc.out l (A.allocate l (heap h))
  deallocate := fun ptr l h =>
    let p := h.alloc.present (ptr, l) true
    let h' := A.deallocate ptr l (heap h)
    ⟨⟨h'.alloc, p.out.erase (ptr, l), p.misused⟩, h'.mem⟩
  grow := fun ptr old new h =>
    let p := h.alloc.present (ptr, old) (old.size ≤ new.size && old.align = new.align)
    settle p (p.out.erase (ptr, old)) new (A.grow ptr old new (heap h))
  shrink := fun ptr old new h =>
    let p := h.alloc.present (ptr, old) (new.size ≤ old.size && old.align = new.align)
    settle p (p.out.erase (ptr, old)) new (A.shrink ptr old new (heap h))
  usableSize := fun ptr l h => A.usableSize ptr l (heap h)

namespace Policed

/-- The outcome of a call underneath can be read off the outcome of the policed call. -/
theorem settle_eq_some {p : Policed w σ} {kept : List (Ticket w)} {l : NonZeroLayout w}
    {r : Option Block × Heap σ} {b : Block} {h' : Heap (Policed w σ)}
    (heq : settle p kept l r = (some b, h')) :
    r = (some b, heap h') ∧ h'.alloc.out = (b.ptr, l) :: kept ∧
      h'.alloc.misused = p.misused := by
  rcases r with ⟨_ | c, h₁⟩
  · cases heq
  · cases heq
    exact ⟨rfl, rfl, rfl⟩

theorem settle_eq_none {p : Policed w σ} {kept : List (Ticket w)} {l : NonZeroLayout w}
    {r : Option Block × Heap σ} {h' : Heap (Policed w σ)}
    (heq : settle p kept l r = (none, h')) :
    r = (none, heap h') ∧ h'.alloc.out = p.out ∧ h'.alloc.misused = p.misused := by
  rcases r with ⟨_ | c, h₁⟩
  · cases heq
    exact ⟨rfl, rfl, rfl⟩
  · cases heq

/-! ## A caller with at most one block -/

/-- The blocks of everybody else are `K`; the caller has the block `o`, if any, and has not
misused the allocator. -/
structure Holding (Inv : Heap σ → Set (Grant w) → Prop) (K : Set (Grant w))
    (h : Heap (Policed w σ)) (o : Option (Grant w)) : Prop where
  inv : Inv (heap h) ({g | g ∈ o} ∪ K)
  fresh : ∀ g ∈ o, g ∉ K
  out : h.alloc.out = o.toList.map Grant.ticket
  clean : h.alloc.misused = false

variable {A : Allocator w σ} {Inv : Heap σ → Set (Grant w) → Prop} {K : Set (Grant w)}
  {h h' : Heap (Policed w σ)} {g : Grant w} {o : Option (Grant w)} {b : Block}
  {l new : NonZeroLayout w}

theorem ledger_none (K : Set (Grant w)) : ({g | g ∈ (none : Option (Grant w))} ∪ K) = K := by
  simp

theorem ledger_some (g : Grant w) (K : Set (Grant w)) :
    ({g' | g' ∈ some g} ∪ K) = insert g K := by
  ext g'
  simp [eq_comm]

/-- Nobody has a block yet. -/
theorem Holding.init {s : σ} {m : Mem} (hinv : Inv ⟨s, m⟩ K) :
    Holding Inv K ⟨⟨s, [], false⟩, m⟩ none where
  inv := by
    rw [ledger_none]
    exact hinv
  fresh := fun g hg => absurd hg (Option.not_mem_none g)
  out := rfl
  clean := rfl

theorem Holding.inv_some (hh : Holding Inv K h (some g)) : Inv (heap h) (insert g K) := by
  rw [← ledger_some]
  exact hh.inv

theorem Holding.sdiff (hh : Holding Inv K h (some g)) : insert g K \ {g} = K :=
  Set.insert_sdiff_self_of_notMem (hh.fresh g rfl)

theorem Holding.satisfies (hA : HonoursCore A Inv) (hh : Holding Inv K h (some g)) :
    Satisfies g.block g.layout :=
  hA.satisfies hh.inv_some (Set.mem_insert g K)

/-- The caller's block overlaps nobody else's. -/
theorem Holding.disjoint (hA : HonoursCore A Inv) (hh : Holding Inv K h (some g)) :
    Disjoint g.block.bytes (liveBytes K) := by
  rw [Set.disjoint_left]
  rintro x hx ⟨g', hg', hxg'⟩
  have hne : g ≠ g' := by
    rintro rfl
    exact hh.fresh g rfl hg'
  have hdisj := hA.disjoint hh.inv_some (Set.mem_insert g K) (Set.mem_insert_of_mem g hg') hne
  exact Set.disjoint_left.mp hdisj hx hxg'

/-- A block that is issued next to `K` becomes the caller's. -/
theorem Holding.of_issued (hA : HonoursCore A Inv) {h₀ : Heap σ}
    (hiss : Issued Inv K h₀ (heap h') b new) (hout : h'.alloc.out = [(b.ptr, new)])
    (hclean : h'.alloc.misused = false) : Holding Inv K h' (some ⟨b, new⟩) where
  inv := by
    rw [ledger_some]
    exact hiss.inv
  fresh := by
    rintro g hg hK
    cases hg
    -- a block that is in `K` would be disjoint from itself
    have hsat : Satisfies b new := hA.satisfies hiss.inv (Set.mem_insert ⟨b, new⟩ K)
    exact not_disjoint_self hsat.len_pos (hiss.fresh _ hK)
  out := hout
  clean := hclean

theorem Holding.allocate_some (hA : HonoursCore A Inv) (hh : Holding Inv K h none)
    (heq : (policed A).allocate l h = (some b, h')) :
    Holding Inv K h' (some ⟨b, l⟩) ∧ Set.EqOn h'.mem h.mem (liveBytes K) := by
  obtain ⟨hcall, hout, hclean⟩ := settle_eq_some heq
  have hinv := hh.inv
  rw [ledger_none] at hinv
  have hiss := hA.allocate_some hinv hcall
  rw [hh.out] at hout
  exact ⟨.of_issued hA hiss hout (hclean.trans hh.clean), hiss.frame⟩

theorem Holding.allocate_none (hA : HonoursCore A Inv) (hh : Holding Inv K h none)
    (heq : (policed A).allocate l h = (none, h')) :
    Holding Inv K h' none ∧ Set.EqOn h'.mem h.mem (liveBytes K) := by
  obtain ⟨hcall, hout, hclean⟩ := settle_eq_none heq
  have hinv := hh.inv
  rw [ledger_none] at hinv
  have hun := hA.allocate_none hinv hcall
  have hinv' := hun.inv
  rw [← ledger_none K] at hinv'
  exact ⟨⟨hinv', hh.fresh, hout.trans hh.out, hclean.trans hh.clean⟩, hun.frame⟩

/-- Presenting the ticket of the block the caller has, for a legal call, sets no mark. -/
theorem Holding.present (hh : Holding Inv K h (some g)) {legal : Bool} (hlegal : legal = true) :
    (h.alloc.present g.ticket legal).misused = false := by
  have hmem : h.alloc.out.contains g.ticket = true := by simp [hh.out]
  simp only [Policed.present, hmem, hlegal, hh.clean]
  rfl

theorem Holding.erase (hh : Holding Inv K h (some g)) : h.alloc.out.erase g.ticket = [] := by
  simp [hh.out]

theorem Holding.grow_some (hA : Honours A Inv) (hh : Holding Inv K h (some g))
    (hsize : g.layout.size ≤ new.size) (halign : g.layout.align = new.align)
    (heq : (policed A).grow g.block.ptr g.layout new h = (some b, h')) :
    Holding Inv K h' (some ⟨b, new⟩) ∧ Set.EqOn h'.mem h.mem (liveBytes K) ∧
      ∀ i < g.layout.size, h'.mem (b.ptr + i) = h.mem (g.block.ptr + i) := by
  obtain ⟨hcall, hout, hclean⟩ := settle_eq_some heq
  obtain ⟨hiss, hcopy⟩ :=
    hA.grow_some hh.inv_some (Set.mem_insert g K) hsize halign hcall
  rw [hh.sdiff] at hiss
  have hlegal : (decide (g.layout.size ≤ new.size) && decide (g.layout.align = new.align)) = true := by
    simp [hsize, halign]
  rw [show (h.alloc.present (g.block.ptr, g.layout) _).out = h.alloc.out from rfl,
    show (g.block.ptr, g.layout) = g.ticket from rfl, hh.erase] at hout
  exact ⟨.of_issued hA.toHonoursCore hiss hout (hclean.trans (hh.present hlegal)), hiss.frame,
    hcopy⟩

theorem Holding.grow_none (hA : Honours A Inv) (hh : Holding Inv K h (some g))
    (hsize : g.layout.size ≤ new.size) (halign : g.layout.align = new.align)
    (heq : (policed A).grow g.block.ptr g.layout new h = (none, h')) :
    Holding Inv K h' (some g) ∧ Set.EqOn h'.mem h.mem (liveBytes (insert g K)) := by
  obtain ⟨hcall, hout, hclean⟩ := settle_eq_none heq
  have hun := hA.grow_none hh.inv_some (Set.mem_insert g K) hsize halign hcall
  have hlegal : (decide (g.layout.size ≤ new.size) && decide (g.layout.align = new.align)) = true := by
    simp [hsize, halign]
  have hinv' := hun.inv
  rw [← ledger_some] at hinv'
  exact ⟨⟨hinv', hh.fresh, hout.trans hh.out, hclean.trans (hh.present hlegal)⟩, hun.frame⟩

theorem Holding.deallocate (hA : HonoursCore A Inv) (hh : Holding Inv K h (some g)) :
    let h' := (policed A).deallocate g.block.ptr g.layout h
    Holding Inv K h' none ∧ Set.EqOn h'.mem h.mem (liveBytes K) := by
  have hun := hA.deallocate hh.inv_some (Set.mem_insert g K)
  rw [hh.sdiff] at hun
  have hinv' := hun.inv
  rw [← ledger_none K] at hinv'
  exact ⟨⟨hinv', fun g hg => absurd hg (Option.not_mem_none g), hh.erase, hh.present rfl⟩,
    hun.frame⟩

/-- The caller writes into its block. -/
theorem Holding.write (hA : HonoursCore A Inv) (hh : Holding Inv K h (some g)) {m : Mem}
    (hm : Set.EqOn m h.mem (Set.compl g.block.bytes)) :
    Holding Inv K ⟨h.alloc, m⟩ (some g) where
  inv := by
    refine hA.write hh.inv fun x hx => hm fun hxg => hx ?_
    exact ⟨g, Or.inl rfl, hxg⟩
  fresh := hh.fresh
  out := hh.out
  clean := hh.clean

end Policed

end ForgeAlloc
