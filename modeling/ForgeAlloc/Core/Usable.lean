import ForgeAlloc.Core.Allocator

set_option autoImplicit false

/-! # What the owner of a block may use

The slice of a block may be longer than its layout asks for, and `usable_size` may report still
more. The owner may write into all of it, so the contract of an allocator extends to it: the usable
bytes of two blocks are disjoint, a request leaves them alone, and what the owner writes there is
the owner's affair (`HonoursUsable`).

An allocator whose answer never exceeds the slice needs nothing beyond `HonoursCore`
(`HonoursCore.usable_of_le`).
-/

namespace ForgeAlloc

open ByteMemory

variable {w : Nat} {σ : Type}

/-- The length that `usable_size` reports, or the size of the layout. -/
def Allocator.usableLen (A : Allocator w σ) (ptr : Nat) (l : NonZeroLayout w) (h : Heap σ) : Nat :=
  (A.usableSize ptr l h).getD l.size

/-- The bytes the owner of a block may use. -/
def Allocator.usableBytes (A : Allocator w σ) (h : Heap σ) (g : Grant w) : Set Nat :=
  Set.Ico g.block.ptr (g.block.ptr + max g.block.len (A.usableLen g.block.ptr g.layout h))

structure HonoursUsable (A : Allocator w σ) (Inv : Heap σ → Set (Grant w) → Prop) : Prop
    extends HonoursCore A Inv where
  usable_ge : ∀ {h L g n}, Inv h L → g ∈ L →
    A.usableSize g.block.ptr g.layout h = some n → g.layout.size ≤ n
  usable_disjoint : ∀ {h L g g'}, Inv h L → g ∈ L → g' ∈ L → g ≠ g' →
    Disjoint (A.usableBytes h g) (A.usableBytes h g')
  usable_allocate : ∀ {h L g l}, Inv h L → g ∈ L →
    Set.EqOn (A.allocate l h).2.mem h.mem (A.usableBytes h g)
  /-- The owner may write into the usable bytes; the answer does not depend on them. -/
  usable_write : ∀ {h L g m}, Inv h L → g ∈ L → Set.EqOn m h.mem (A.usableBytes h g)ᶜ →
    Inv ⟨h.alloc, m⟩ L ∧
      A.usableSize g.block.ptr g.layout ⟨h.alloc, m⟩ = A.usableSize g.block.ptr g.layout h

variable {A : Allocator w σ} {Inv : Heap σ → Set (Grant w) → Prop} {h : Heap σ}
  {L : Set (Grant w)} {g : Grant w}

theorem bytes_subset_usableBytes (A : Allocator w σ) (h : Heap σ) (g : Grant w) :
    g.block.bytes ⊆ A.usableBytes h g :=
  Set.Ico_subset_Ico_right (Nat.add_le_add_left (le_max_left _ _) _)

/-- The usable bytes reach as far as the answer does. -/
theorem add_mem_usableBytes {i : Nat} (hi : i < A.usableLen g.block.ptr g.layout h) :
    g.block.ptr + i ∈ A.usableBytes h g :=
  ⟨Nat.le_add_right _ _, Nat.add_lt_add_left (lt_max_of_lt_right hi) _⟩

/-- The size of the layout is always usable. -/
theorem HonoursUsable.size_le (hA : HonoursUsable A Inv) (hinv : Inv h L) (hg : g ∈ L) :
    g.layout.size ≤ A.usableLen g.block.ptr g.layout h := by
  unfold Allocator.usableLen
  cases hanswer : A.usableSize g.block.ptr g.layout h with
  | none => exact le_rfl
  | some n => exact hA.usable_ge hinv hg hanswer

/-- Answers that stay within the slice. -/
theorem HonoursCore.usable_of_le (hA : HonoursCore A Inv)
    (hanswer : ∀ {h L g n}, Inv h L → g ∈ L →
      A.usableSize g.block.ptr g.layout h = some n → g.layout.size ≤ n ∧ n ≤ g.block.len)
    (hwrite : ∀ {h L g m}, Inv h L → Inv ⟨h.alloc, m⟩ L → g ∈ L →
      A.usableSize g.block.ptr g.layout ⟨h.alloc, m⟩ = A.usableSize g.block.ptr g.layout h) :
    HonoursUsable A Inv := by
  have hbytes : ∀ {h L g}, Inv h L → g ∈ L → A.usableBytes h g = g.block.bytes := by
    intro h L g hinv hg
    have hle : A.usableLen g.block.ptr g.layout h ≤ g.block.len := by
      unfold Allocator.usableLen
      cases hsize : A.usableSize g.block.ptr g.layout h with
      | none => exact (hA.satisfies hinv hg).large
      | some n => exact (hanswer hinv hg hsize).2
    rw [Allocator.usableBytes, max_eq_left hle, Block.bytes]
  refine { hA with
    usable_ge := fun hinv hg hsize => (hanswer hinv hg hsize).1
    usable_disjoint := ?_, usable_allocate := ?_, usable_write := ?_ }
  · intro h L g g' hinv hg hg' hne
    rw [hbytes hinv hg, hbytes hinv hg']
    exact hA.disjoint hinv hg hg' hne
  · intro h L g l hinv hg
    rw [hbytes hinv hg]
    rcases hcall : A.allocate l h with ⟨_ | b, h'⟩
    · exact (hA.allocate_none hinv hcall).frame.mono (bytes_subset_liveBytes hg)
    · exact (hA.allocate_some hinv hcall).frame.mono (bytes_subset_liveBytes hg)
  · intro h L g m hinv hg hm
    rw [hbytes hinv hg] at hm
    have hinv' : Inv ⟨h.alloc, m⟩ L := hA.write hinv fun x hx => hm fun hxg =>
      hx (bytes_subset_liveBytes hg hxg)
    exact ⟨hinv', hwrite hinv hinv' hg⟩

end ForgeAlloc
