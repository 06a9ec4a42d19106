import ForgeAlloc.Core.NonZeroLayout
import ForgeAlloc.Library.Memory

set_option autoImplicit false

/-! # The `Allocator`, `Deallocator` and `FixedRange` contracts

An allocator value of type `σ` lives in a `Heap`: the value together with the address space.
`Allocator w σ` is the record of the trait's methods as state transformers of that heap.

The trait-level safety contract is `Honours A Inv`. Its second argument is an invariant of the
heap and of the *ledger*, the set of blocks issued and not yet taken back, each with the layout
it was requested under. An allocator honours the contract from a heap when such an invariant
holds there of the empty ledger: then after any legal sequence of calls the blocks of the ledger
are aligned, large enough, inside the address space and pairwise disjoint, and no call touches
the bytes of a block that is in the ledger before and after it.

`defaultGrow` and `defaultShrink` are the trait's default resizes, allocate, copy, free. Both
meet the contract's clause for resizes whatever the two alignments are
(`HonoursCore.defaultGrow_some`, `HonoursCore.defaultShrink_some`).
-/

namespace ForgeAlloc

open MachineInt ByteMemory

/-! ## The interfaces -/

/-- An allocator value and the address space it works in. -/
structure Heap (σ : Type) where
  alloc : σ
  mem : Mem

structure Allocator (w : Nat) (σ : Type) where
  allocate : NonZeroLayout w → Heap σ → Option Block × Heap σ
  deallocate : Nat → NonZeroLayout w → Heap σ → Heap σ
  grow : Nat → NonZeroLayout w → NonZeroLayout w → Heap σ → Option Block × Heap σ
  shrink : Nat → NonZeroLayout w → NonZeroLayout w → Heap σ → Option Block × Heap σ
  usableSize : Nat → NonZeroLayout w → Heap σ → Option Nat

/-- `FixedRange`: the owned range, and the hook that makes a part of it writable. A commit
reports success or failure and may change the backing. -/
structure FixedRange (σ : Type) where
  base : σ → Nat
  size : σ → Nat
  commit : Nat → Nat → σ → Bool × σ

/-- `FixedRange::contains`, correct also for a range that ends at the end of the address space. -/
def FixedRange.contains {σ : Type} (R : FixedRange σ) (w p : Nat) (s : σ) : Bool :=
  wrappingSub w p (R.base s) < R.size s

/-- What the trait asks of a range: the base is not null, and a commit changes neither end. -/
structure FixedRange.Lawful {σ : Type} (R : FixedRange σ) : Prop where
  base_pos : ∀ s, 0 < R.base s
  base_commit : ∀ off len s, R.base (R.commit off len s).2 = R.base s
  size_commit : ∀ off len s, R.size (R.commit off len s).2 = R.size s

variable {w : Nat} {σ : Type}

theorem FixedRange.contains_iff {R : FixedRange σ} {s : σ} {p : Nat} (hp : p < 2 ^ w)
    (hend : R.base s + R.size s ≤ 2 ^ w) :
    R.contains w p s = true ↔ R.base s ≤ p ∧ p < R.base s + R.size s := by
  rw [FixedRange.contains, decide_eq_true_iff]
  exact wrappingSub_lt_iff hp hend

theorem FixedRange.Lawful.base_of_commit {R : FixedRange σ} (hR : R.Lawful) {off len : Nat}
    {s s' : σ} {ok : Bool} (h : R.commit off len s = (ok, s')) : R.base s' = R.base s := by
  rw [← hR.base_commit off len s, h]

/-! ## The default resizes -/

/-- `Allocator::grow`: allocate, copy the old size, free the old block. -/
def defaultGrow (allocate : NonZeroLayout w → Heap σ → Option Block × Heap σ)
    (deallocate : Nat → NonZeroLayout w → Heap σ → Heap σ)
    (ptr : Nat) (old new : NonZeroLayout w) (h : Heap σ) : Option Block × Heap σ :=
  match allocate new h with
  | (none, h') => (none, h')
  | (some dst, h') =>
      (some dst, deallocate ptr old ⟨h'.alloc, copyBytes h'.mem ptr dst.ptr old.size⟩)

/-- `Allocator::shrink`: as `grow`, copying the new size. -/
def defaultShrink (allocate : NonZeroLayout w → Heap σ → Option Block × Heap σ)
    (deallocate : Nat → NonZeroLayout w → Heap σ → Heap σ)
    (ptr : Nat) (old new : NonZeroLayout w) (h : Heap σ) : Option Block × Heap σ :=
  match allocate new h with
  | (none, h') => (none, h')
  | (some dst, h') =>
      (some dst, deallocate ptr old ⟨h'.alloc, copyBytes h'.mem ptr dst.ptr new.size⟩)

section

variable {alloc : NonZeroLayout w → Heap σ → Option Block × Heap σ}
  {free : Nat → NonZeroLayout w → Heap σ → Heap σ} {h h' : Heap σ} {old new : NonZeroLayout w}

theorem defaultGrow_of_none (ptr : Nat) (hcall : alloc new h = (none, h')) :
    defaultGrow alloc free ptr old new h = (none, h') := by
  unfold defaultGrow
  rw [hcall]

theorem defaultGrow_of_some (ptr : Nat) {dst : Block} (hcall : alloc new h = (some dst, h')) :
    defaultGrow alloc free ptr old new h =
      (some dst, free ptr old ⟨h'.alloc, copyBytes h'.mem ptr dst.ptr old.size⟩) := by
  unfold defaultGrow
  rw [hcall]

theorem defaultShrink_of_none (ptr : Nat) (hcall : alloc new h = (none, h')) :
    defaultShrink alloc free ptr old new h = (none, h') := by
  unfold defaultShrink
  rw [hcall]

theorem defaultShrink_of_some (ptr : Nat) {dst : Block} (hcall : alloc new h = (some dst, h')) :
    defaultShrink alloc free ptr old new h =
      (some dst, free ptr old ⟨h'.alloc, copyBytes h'.mem ptr dst.ptr new.size⟩) := by
  unfold defaultShrink
  rw [hcall]

end

/-- One of the two resizes. -/
inductive Resize
  | grow
  | shrink

namespace Resize

def call (r : Resize) (A : Allocator w σ) :
    Nat → NonZeroLayout w → NonZeroLayout w → Heap σ → Option Block × Heap σ :=
  match r with
  | .grow => A.grow
  | .shrink => A.shrink

/-- What a caller must keep to: `grow` does not make the block smaller, `shrink` not larger. -/
def Legal (r : Resize) (old new : NonZeroLayout w) : Prop :=
  match r with
  | .grow => old.size ≤ new.size
  | .shrink => new.size ≤ old.size

instance (r : Resize) (old new : NonZeroLayout w) : Decidable (r.Legal old new) :=
  match r with
  | .grow => inferInstanceAs (Decidable (_ ≤ _))
  | .shrink => inferInstanceAs (Decidable (_ ≤ _))

variable {A : Allocator w σ} {h h' : Heap σ} {old new : NonZeroLayout w} {r : Resize} {b : Block}

/-- A default resize whose request fails. -/
theorem call_of_none (hgrow : A.grow = defaultGrow A.allocate A.deallocate)
    (hshrink : A.shrink = defaultShrink A.allocate A.deallocate) (ptr : Nat)
    (hcall : A.allocate new h = (none, h')) : r.call A ptr old new h = (none, h') := by
  cases r with
  | grow => rw [call, hgrow, defaultGrow_of_none ptr hcall]
  | shrink => rw [call, hshrink, defaultShrink_of_none ptr hcall]

/-- A default resize copies what the old and the new block have in common. -/
theorem call_of_some (hgrow : A.grow = defaultGrow A.allocate A.deallocate)
    (hshrink : A.shrink = defaultShrink A.allocate A.deallocate) (ptr : Nat)
    (hlegal : r.Legal old new) (hcall : A.allocate new h = (some b, h')) :
    r.call A ptr old new h = (some b, A.deallocate ptr old
      ⟨h'.alloc, copyBytes h'.mem ptr b.ptr (min old.size new.size)⟩) := by
  cases r with
  | grow =>
      have hmin : min old.size new.size = old.size := min_eq_left hlegal
      rw [call, hgrow, defaultGrow_of_some ptr hcall, hmin]
  | shrink =>
      have hmin : min old.size new.size = new.size := min_eq_right hlegal
      rw [call, hshrink, defaultShrink_of_some ptr hcall, hmin]

end Resize

/-! ## The contract -/

/-- A block that has been issued, with the layout it was requested under. -/
structure Grant (w : Nat) where
  block : Block
  layout : NonZeroLayout w
  deriving DecidableEq

/-- The block is what the contract promises for the layout: aligned, large enough, non-null and
inside the address space. -/
structure Satisfies (b : Block) (l : NonZeroLayout w) : Prop where
  aligned : l.align ∣ b.ptr
  large : l.size ≤ b.len
  nonnull : 0 < b.ptr
  inSpace : b.ptr + b.len ≤ 2 ^ w

/-- A ledger that is kept as a list, without one of its entries. -/
theorem set_erase {α : Type} [BEq α] [LawfulBEq α] {L : List α} (hnodup : L.Nodup) (a : α) :
    {x | x ∈ L.erase a} = {x | x ∈ L} \ {a} := by
  ext x
  rw [Set.mem_ofPred_eq, hnodup.mem_erase_iff]
  exact and_comm

/-- The bytes of the issued blocks. -/
def liveBytes (L : Set (Grant w)) : Set Nat := {a | ∃ g ∈ L, a ∈ g.block.bytes}

theorem bytes_subset_liveBytes {L : Set (Grant w)} {g : Grant w} (hg : g ∈ L) :
    g.block.bytes ⊆ liveBytes L := fun _ ha => ⟨g, hg, ha⟩

/-- A byte that is written to an issued block is a live one. -/
theorem writeByte_eqOn_live {L : Set (Grant w)} {g : Grant w} (hg : g ∈ L) {k : Nat}
    (hk : k < g.block.len) (m : Mem) (v : UInt8) :
    Set.EqOn (writeByte m (g.block.ptr + k) v) m (liveBytes L)ᶜ := by
  intro x hx
  refine writeByte_of_ne v ?_
  rintro rfl
  apply hx
  exact bytes_subset_liveBytes hg ⟨Nat.le_add_right _ _, Nat.add_lt_add_left hk _⟩

theorem liveBytes_mono {L L' : Set (Grant w)} (h : L ⊆ L') : liveBytes L ⊆ liveBytes L' := by
  rintro a ⟨g, hg, ha⟩
  exact ⟨g, h hg, ha⟩

/-- The outcome of a call that issues `b` for `new` and takes back the grants not in `kept`. -/
structure Issued (Inv : Heap σ → Set (Grant w) → Prop) (kept : Set (Grant w)) (h h' : Heap σ)
    (b : Block) (new : NonZeroLayout w) : Prop where
  inv : Inv h' (insert ⟨b, new⟩ kept)
  fresh : ∀ g ∈ kept, Disjoint b.bytes g.block.bytes
  frame : Set.EqOn h'.mem h.mem (liveBytes kept)

/-- The outcome of a call that leaves the ledger `L` and its bytes as they are. -/
structure Unchanged (Inv : Heap σ → Set (Grant w) → Prop) (L : Set (Grant w)) (h h' : Heap σ) :
    Prop where
  inv : Inv h' L
  frame : Set.EqOn h'.mem h.mem (liveBytes L)

/-- The safety contract of `Allocator` and `Deallocator`, resizes apart. -/
structure HonoursCore (A : Allocator w σ) (Inv : Heap σ → Set (Grant w) → Prop) : Prop where
  satisfies : ∀ {h L g}, Inv h L → g ∈ L → Satisfies g.block g.layout
  disjoint : ∀ {h L g g'}, Inv h L → g ∈ L → g' ∈ L → g ≠ g' →
    Disjoint g.block.bytes g'.block.bytes
  allocate_some : ∀ {h L l b h'}, Inv h L → A.allocate l h = (some b, h') →
    Issued Inv L h h' b l
  allocate_none : ∀ {h L l h'}, Inv h L → A.allocate l h = (none, h') → Unchanged Inv L h h'
  deallocate : ∀ {h L g}, Inv h L → g ∈ L →
    Unchanged Inv (L \ {g}) h (A.deallocate g.block.ptr g.layout h)
  /-- The owner of an issued block may write into it. -/
  write : ∀ {h L m}, Inv h L → Set.EqOn m h.mem (liveBytes L)ᶜ → Inv ⟨h.alloc, m⟩ L

/-- The safety contract of `Allocator` and `Deallocator`. -/
structure Honours (A : Allocator w σ) (Inv : Heap σ → Set (Grant w) → Prop) : Prop
    extends HonoursCore A Inv where
  grow_some : ∀ {h L g new b h'}, Inv h L → g ∈ L → g.layout.size ≤ new.size →
    g.layout.align = new.align → A.grow g.block.ptr g.layout new h = (some b, h') →
    Issued Inv (L \ {g}) h h' b new ∧
      ∀ i < g.layout.size, h'.mem (b.ptr + i) = h.mem (g.block.ptr + i)
  grow_none : ∀ {h L g new h'}, Inv h L → g ∈ L → g.layout.size ≤ new.size →
    g.layout.align = new.align → A.grow g.block.ptr g.layout new h = (none, h') →
    Unchanged Inv L h h'
  shrink_some : ∀ {h L g new b h'}, Inv h L → g ∈ L → new.size ≤ g.layout.size →
    g.layout.align = new.align → A.shrink g.block.ptr g.layout new h = (some b, h') →
    Issued Inv (L \ {g}) h h' b new ∧
      ∀ i < new.size, h'.mem (b.ptr + i) = h.mem (g.block.ptr + i)
  shrink_none : ∀ {h L g new h'}, Inv h L → g ∈ L → new.size ≤ g.layout.size →
    g.layout.align = new.align → A.shrink g.block.ptr g.layout new h = (none, h') →
    Unchanged Inv L h h'
  usableSize : ∀ {h L g n}, Inv h L → g ∈ L →
    A.usableSize g.block.ptr g.layout h = some n → g.layout.size ≤ n

/-- The contract of an allocator that is a `FixedRange` as well: every block lies in the owned
range, which does not move under the allocator's own calls. -/
structure HonoursRange (A : Allocator w σ) (R : FixedRange σ)
    (Inv : Heap σ → Set (Grant w) → Prop) : Prop extends Honours A Inv where
  base_le : ∀ {h L g}, Inv h L → g ∈ L → R.base h.alloc ≤ g.block.ptr
  le_end : ∀ {h L g}, Inv h L → g ∈ L →
    g.block.ptr + g.block.len ≤ R.base h.alloc + R.size h.alloc
  base_pos : ∀ {h L}, Inv h L → 0 < R.base h.alloc
  end_le : ∀ {h L}, Inv h L → R.base h.alloc + R.size h.alloc ≤ 2 ^ w
  base_allocate : ∀ {h L l}, Inv h L → R.base (A.allocate l h).2.alloc = R.base h.alloc
  base_deallocate : ∀ {h L g}, Inv h L → g ∈ L →
    R.base (A.deallocate g.block.ptr g.layout h).alloc = R.base h.alloc

theorem Satisfies.len_pos {b : Block} {l : NonZeroLayout w} (h : Satisfies b l) : 0 < b.len :=
  l.size_pos.trans_le h.large

/-- A nonempty block is not disjoint from itself. -/
theorem not_disjoint_self {b : Block} (h : 0 < b.len) : ¬ Disjoint b.bytes b.bytes := by
  rw [Block.disjoint_iff]
  omega

variable {A : Allocator w σ} {Inv : Heap σ → Set (Grant w) → Prop} {h h' : Heap σ}
  {L : Set (Grant w)} {g : Grant w} {new : NonZeroLayout w} {b : Block}

theorem HonoursCore.allocate_satisfies (hA : HonoursCore A Inv) (hinv : Inv h L)
    (hb : A.allocate new h = (some b, h')) : Satisfies b new :=
  hA.satisfies (g := ⟨b, new⟩) (hA.allocate_some hinv hb).inv (Set.mem_insert _ _)

/-- A grant whose block is disjoint from an issued block is another grant. -/
theorem HonoursCore.ne_of_disjoint (hA : HonoursCore A Inv) (hinv : Inv h L) (hg : g ∈ L)
    (hd : Disjoint b.bytes g.block.bytes) : g ≠ ⟨b, new⟩ := by
  rintro rfl
  exact not_disjoint_self (hA.satisfies hinv hg).len_pos hd

/-- Two issued blocks at one address are one grant. -/
theorem HonoursCore.eq_of_ptr (hA : HonoursCore A Inv) (hinv : Inv h L) {g' : Grant w} (hg : g ∈ L)
    (hg' : g' ∈ L) (hptr : g.block.ptr = g'.block.ptr) : g = g' := by
  by_contra hne
  have hpos := (hA.satisfies hinv hg).len_pos
  have hpos' := (hA.satisfies hinv hg').len_pos
  have hdisj := hA.disjoint hinv hg hg' hne
  rw [Block.disjoint_iff] at hdisj
  omega

/-! ## The default resizes meet the contract -/

/-- A copy into a block stays in the block. -/
theorem Satisfies.copyBytes_of_not_mem (hsat : Satisfies b new) {m : Mem} {src n x : Nat}
    (hn : n ≤ new.size) (hx : x ∉ b.bytes) : copyBytes m src b.ptr n x = m x := by
  have hlarge := hsat.large
  rw [Block.mem_bytes] at hx
  exact ByteMemory.copyBytes_of_not_mem (by omega)

/-- The bytes that a resize copies go into the new block. -/
theorem Satisfies.copy_eqOn (hsat : Satisfies b new) {n : Nat} (hn : n ≤ new.size)
    (L : Set (Grant w)) (src : Nat) (m : Mem) :
    Set.EqOn (copyBytes m src b.ptr n) m (liveBytes (insert ⟨b, new⟩ L))ᶜ := by
  intro x hx
  refine hsat.copyBytes_of_not_mem hn fun hxb => hx ?_
  exact bytes_subset_liveBytes (Set.mem_insert _ _) hxb

/-- The zeros of a request go into its block. -/
theorem Satisfies.zeros_eqOn (hsat : Satisfies b new) (L : Set (Grant w)) (m : Mem) :
    Set.EqOn (fillBytes m b.ptr new.size 0) m (liveBytes (insert ⟨b, new⟩ L))ᶜ := by
  intro x hx
  refine fillBytes_of_not_mem 0 fun hin => hx ?_
  have hle : b.ptr + new.size ≤ b.ptr + b.len := Nat.add_le_add_left hsat.large _
  exact bytes_subset_liveBytes (Set.mem_insert _ _) ⟨hin.1, hin.2.trans_le hle⟩

/-- Bytes may be copied into a block that was just issued. -/
theorem HonoursCore.copy_inv (hA : HonoursCore A Inv) (hinv : Inv h L) (src : Nat) {n : Nat}
    (hn : n ≤ new.size) (hb : A.allocate new h = (some b, h')) :
    Inv ⟨h'.alloc, copyBytes h'.mem src b.ptr n⟩ (insert ⟨b, new⟩ L) := by
  have hsat : Satisfies b new := hA.allocate_satisfies hinv hb
  exact hA.write (hA.allocate_some hinv hb).inv (hsat.copy_eqOn hn L src h'.mem)

/-- A block that is issued, written and given back leaves nothing behind. -/
theorem HonoursCore.given_back (hA : HonoursCore A Inv) (hinv : Inv h L)
    (hb : A.allocate new h = (some b, h')) {m : Mem} (hm : Set.EqOn m h'.mem b.bytesᶜ) :
    Unchanged Inv L h (A.deallocate b.ptr new ⟨h'.alloc, m⟩) := by
  have hiss : Issued Inv L h h' b new := hA.allocate_some hinv hb
  have hmem : (⟨b, new⟩ : Grant w) ∈ insert (⟨b, new⟩ : Grant w) L := Set.mem_insert _ _
  have hnot : (⟨b, new⟩ : Grant w) ∉ L := fun hin =>
    hA.ne_of_disjoint hinv hin (hiss.fresh _ hin) rfl
  have hwrite : Inv ⟨h'.alloc, m⟩ (insert ⟨b, new⟩ L) :=
    hA.write hiss.inv (hm.mono (Set.compl_subset_compl.mpr (bytes_subset_liveBytes hmem)))
  have hfree := hA.deallocate hwrite hmem
  rw [Set.insert_sdiff_of_mem _ (Set.mem_singleton _), Set.sdiff_singleton_eq_self hnot] at hfree
  refine ⟨hfree.inv, ?_⟩
  rintro x ⟨g, hg, hx⟩
  have hxb : x ∉ b.bytes := fun hxb => Set.disjoint_left.mp (hiss.fresh g hg) hxb hx
  calc (A.deallocate b.ptr new ⟨h'.alloc, m⟩).mem x = m x := hfree.frame ⟨g, hg, hx⟩
    _ = h'.mem x := hm hxb
    _ = h.mem x := hiss.frame ⟨g, hg, hx⟩

/-- Allocate, copy `n` bytes of the old block into the new one, free the old block. -/
theorem HonoursCore.copy_free (hA : HonoursCore A Inv) (hinv : Inv h L) (hg : g ∈ L) {n : Nat}
    (hold : n ≤ g.layout.size) (hnew : n ≤ new.size)
    (hb : A.allocate new h = (some b, h')) :
    let h'' := A.deallocate g.block.ptr g.layout
      ⟨h'.alloc, copyBytes h'.mem g.block.ptr b.ptr n⟩
    Issued Inv (L \ {g}) h h'' b new ∧
      ∀ i < n, h''.mem (b.ptr + i) = h.mem (g.block.ptr + i) := by
  intro h''
  have hiss : Issued Inv L h h' b new := hA.allocate_some hinv hb
  have hsat : Satisfies b new := hA.allocate_satisfies hinv hb
  have hne : g ≠ ⟨b, new⟩ := hA.ne_of_disjoint hinv hg (hiss.fresh g hg)
  have hcopy : ∀ x, x ∉ b.bytes → copyBytes h'.mem g.block.ptr b.ptr n x = h'.mem x :=
    fun x hx => hsat.copyBytes_of_not_mem hnew hx
  have hwrite := hA.copy_inv hinv g.block.ptr hnew hb
  have hfree := hA.deallocate hwrite (Set.mem_insert_of_mem _ hg)
  have hset : insert (⟨b, new⟩ : Grant w) L \ {g} = insert ⟨b, new⟩ (L \ {g}) :=
    Set.insert_sdiff_of_notMem _ (fun hmem' => hne hmem'.symm)
  rw [hset] at hfree
  refine ⟨⟨hfree.inv, fun g' hg' => hiss.fresh g' hg'.1, ?_⟩, ?_⟩
  · intro x hx
    obtain ⟨g', hg', hxg'⟩ := hx
    have hxb : x ∉ b.bytes := fun hxb => Set.disjoint_left.mp (hiss.fresh g' hg'.1) hxb hxg'
    calc h''.mem x = copyBytes h'.mem g.block.ptr b.ptr n x :=
          hfree.frame ⟨g', Set.mem_insert_of_mem _ hg', hxg'⟩
      _ = h'.mem x := hcopy x hxb
      _ = h.mem x := hiss.frame ⟨g', hg'.1, hxg'⟩
  · intro i hi
    have hlarge := hsat.large
    have hglarge := (hA.satisfies hinv hg).large
    calc h''.mem (b.ptr + i) = copyBytes h'.mem g.block.ptr b.ptr n (b.ptr + i) := by
          refine hfree.frame ⟨⟨b, new⟩, Set.mem_insert _ _, ?_⟩
          exact ⟨Nat.le_add_right _ _, by simp only; omega⟩
      _ = h'.mem (g.block.ptr + i) := copyBytes_add hi
      _ = h.mem (g.block.ptr + i) :=
          hiss.frame ⟨g, hg, Nat.le_add_right _ _, by omega⟩

theorem HonoursCore.defaultGrow_some (hA : HonoursCore A Inv) (hinv : Inv h L) (hg : g ∈ L)
    (hsize : g.layout.size ≤ new.size)
    (hb : defaultGrow A.allocate A.deallocate g.block.ptr g.layout new h = (some b, h')) :
    Issued Inv (L \ {g}) h h' b new ∧
      ∀ i < g.layout.size, h'.mem (b.ptr + i) = h.mem (g.block.ptr + i) := by
  unfold defaultGrow at hb
  split at hb
  case h_1 => cases hb
  case h_2 dst h₁ halloc =>
      cases hb
      exact hA.copy_free hinv hg le_rfl hsize halloc

theorem HonoursCore.defaultGrow_none (hA : HonoursCore A Inv) (hinv : Inv h L)
    (hb : defaultGrow A.allocate A.deallocate g.block.ptr g.layout new h = (none, h')) :
    Unchanged Inv L h h' := by
  unfold defaultGrow at hb
  split at hb
  case h_1 h₁ halloc =>
      cases hb
      exact hA.allocate_none hinv halloc
  case h_2 => cases hb

theorem HonoursCore.defaultShrink_some (hA : HonoursCore A Inv) (hinv : Inv h L) (hg : g ∈ L)
    (hsize : new.size ≤ g.layout.size)
    (hb : defaultShrink A.allocate A.deallocate g.block.ptr g.layout new h = (some b, h')) :
    Issued Inv (L \ {g}) h h' b new ∧
      ∀ i < new.size, h'.mem (b.ptr + i) = h.mem (g.block.ptr + i) := by
  unfold defaultShrink at hb
  split at hb
  case h_1 => cases hb
  case h_2 dst h₁ halloc =>
      cases hb
      exact hA.copy_free hinv hg hsize le_rfl halloc

theorem HonoursCore.defaultShrink_none (hA : HonoursCore A Inv) (hinv : Inv h L)
    (hb : defaultShrink A.allocate A.deallocate g.block.ptr g.layout new h = (none, h')) :
    Unchanged Inv L h h' := by
  unfold defaultShrink at hb
  split at hb
  case h_1 h₁ halloc =>
      cases hb
      exact hA.allocate_none hinv halloc
  case h_2 => cases hb

/-- An allocator with the default resizes meets the contract if it does so apart from them. -/
theorem HonoursCore.withDefaults (hA : HonoursCore A Inv)
    (hgrow : A.grow = defaultGrow A.allocate A.deallocate)
    (hshrink : A.shrink = defaultShrink A.allocate A.deallocate)
    (husable : ∀ {h L g n}, Inv h L → g ∈ L →
      A.usableSize g.block.ptr g.layout h = some n → g.layout.size ≤ n) : Honours A Inv where
  toHonoursCore := hA
  grow_some := fun hinv hg hsize _ hb => hA.defaultGrow_some hinv hg hsize (hgrow ▸ hb)
  grow_none := fun hinv _ _ _ hb => hA.defaultGrow_none hinv (hgrow ▸ hb)
  shrink_some := fun hinv hg hsize _ hb => hA.defaultShrink_some hinv hg hsize (hshrink ▸ hb)
  shrink_none := fun hinv _ _ _ hb => hA.defaultShrink_none hinv (hshrink ▸ hb)
  usableSize := husable

/-! ## Views -/

/-- The heap of an allocator value seen through `f`. -/
def Heap.map {τ : Type} (f : σ → τ) (h : Heap σ) : Heap τ := ⟨f h.alloc, h.mem⟩

/-- An allocator whose calls are, through `f`, the calls of one that meets the contract. -/
theorem HonoursCore.comap {τ : Type} {B : Allocator w τ} {BInv : Heap τ → Set (Grant w) → Prop}
    (hB : HonoursCore B BInv) (f : σ → τ)
    (halloc : ∀ l h, B.allocate l (h.map f) = ((A.allocate l h).1, (A.allocate l h).2.map f))
    (hdealloc : ∀ ptr l h, B.deallocate ptr l (h.map f) = (A.deallocate ptr l h).map f) :
    HonoursCore A fun h L => BInv (h.map f) L where
  satisfies := fun hinv hg => hB.satisfies hinv hg
  disjoint := fun hinv hg hg' hne => hB.disjoint hinv hg hg' hne
  allocate_some := by
    intro h L l b h' hinv heq
    have hcall : B.allocate l (h.map f) = (some b, h'.map f) := by rw [halloc, heq]
    obtain ⟨hinv', hfresh, hframe⟩ := hB.allocate_some hinv hcall
    exact ⟨hinv', hfresh, hframe⟩
  allocate_none := by
    intro h L l h' hinv heq
    have hcall : B.allocate l (h.map f) = (none, h'.map f) := by rw [halloc, heq]
    obtain ⟨hinv', hframe⟩ := hB.allocate_none hinv hcall
    exact ⟨hinv', hframe⟩
  deallocate := by
    intro h L g hinv hg
    have hfree := hB.deallocate hinv hg
    rw [hdealloc] at hfree
    exact ⟨hfree.inv, hfree.frame⟩
  write := fun {h L m} hinv hm => hB.write (h := h.map f) hinv hm

end ForgeAlloc
