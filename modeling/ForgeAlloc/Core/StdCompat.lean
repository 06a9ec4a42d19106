import ForgeAlloc.Core.Allocator

set_option autoImplicit false

/-! # `StdCompat`

The adapter that gives an allocator of the crate the interface of `allocator_api2`. Requests of
size zero stay at the boundary and are answered with a dangling pointer; all others go to the
inner allocator, resizes included.

The two contracts differ in one point. A resize of `allocator_api2` may change the alignment, and
the block it returns has the new one; the contract of the crate's `grow` and `shrink` asks the
caller for equal alignments and promises nothing otherwise. `ResizeOk` is the outer contract's
clause. `grow_ok` and `shrink_ok` show that the adapter meets it whenever the inner resize is
called inside its contract or not at all.
-/

namespace ForgeAlloc

open ByteMemory

variable {w : Nat} {σ : Type}

namespace StdCompat

/-- `dangling_for_align`, as a slice of length zero. -/
def danglingForAlign (align : Nat) : Block := ⟨align, 0⟩

def allocate (A : Allocator w σ) (l : CoreLayout w) (h : Heap σ) : Option Block × Heap σ :=
  match l.toNonZero with
  | some nzl => A.allocate nzl h
  | none => (some (danglingForAlign l.align), h)

def deallocate (A : Allocator w σ) (ptr : Nat) (l : CoreLayout w) (h : Heap σ) : Heap σ :=
  match l.toNonZero with
  | some nzl => A.deallocate ptr nzl h
  | none => h

def grow (A : Allocator w σ) (ptr : Nat) (old new : CoreLayout w) (h : Heap σ) :
    Option Block × Heap σ :=
  match old.toNonZero, new.toNonZero with
  | some oldNz, some newNz => A.grow ptr oldNz newNz h
  | none, some newNz => A.allocate newNz h
  | some _, none => (none, h)
  | none, none => (some (danglingForAlign new.align), h)

def shrink (A : Allocator w σ) (ptr : Nat) (old new : CoreLayout w) (h : Heap σ) :
    Option Block × Heap σ :=
  match old.toNonZero, new.toNonZero with
  | some oldNz, some newNz => A.shrink ptr oldNz newNz h
  | some oldNz, none => (some (danglingForAlign new.align), A.deallocate ptr oldNz h)
  | none, none => (some (danglingForAlign new.align), h)
  | none, some _ => (none, h)

/-! ## The outer contract -/

/-- The client holds a block at `ptr` under the layout `l`, and `others` is the rest of the
ledger. A block of size zero is in no ledger. -/
inductive Held (L : Set (Grant w)) : Nat → CoreLayout w → Set (Grant w) → Prop
  | zero {ptr : Nat} {l : CoreLayout w} (hsize : l.size = 0) : Held L ptr l L
  | live {g : Grant w} {l : CoreLayout w} (hg : g ∈ L) (hsize : l.size = g.layout.size)
      (halign : l.align = g.layout.align) : Held L g.block.ptr l (L \ {g})

/-- The resize clause of the outer contract, for the outcome `r` of a call in the heap `h`. -/
def ResizeOk (Inv : Heap σ → Set (Grant w) → Prop) (L others : Set (Grant w)) (ptr : Nat)
    (old new : CoreLayout w) (h : Heap σ) (r : Option Block × Heap σ) : Prop :=
  match r with
  | (some b, h') =>
      new.align ∣ b.ptr ∧ new.size ≤ b.len ∧
        (∀ g ∈ others, Disjoint b.bytes g.block.bytes) ∧
        ∀ i < min old.size new.size, h'.mem (b.ptr + i) = h.mem (ptr + i)
  | (none, h') => Inv h' L ∧ ∀ i < old.size, h'.mem (ptr + i) = h.mem (ptr + i)

variable {A : Allocator w σ} {Inv : Heap σ → Set (Grant w) → Prop} {h : Heap σ}
  {L others : Set (Grant w)} {ptr : Nat} {old new : CoreLayout w}

theorem resizeOk_dangling {h' : Heap σ} (hzero : new.size = 0) :
    ResizeOk Inv L others ptr old new h (some (danglingForAlign new.align), h') := by
  refine ⟨dvd_refl _, by simp [hzero], fun g _ => ?_, fun i hi => by omega⟩
  rw [Block.disjoint_iff]
  exact Or.inl rfl

theorem resizeOk_none {h' : Heap σ} {g : Grant w} (hg : g ∈ L) (hsat : Satisfies g.block g.layout)
    (hsize : old.size = g.layout.size) (hu : Unchanged Inv L h h') :
    ResizeOk Inv L others g.block.ptr old new h (none, h') := by
  refine ⟨hu.inv, fun i hi => hu.frame ⟨g, hg, Nat.le_add_right _ _, ?_⟩⟩
  have := hsat.large
  omega

/-- A block issued for the new layout with the old bytes in it is what the clause asks for. -/
theorem resizeOk_issued {kept : Set (Grant w)} {h' : Heap σ} {b : Block} {nz : NonZeroLayout w}
    (hA : HonoursCore A Inv) (hnz : nz.size = new.size ∧ nz.align = new.align)
    (hiss : Issued Inv kept h h' b nz) (hkept : others ⊆ kept)
    (hcopy : ∀ i < min old.size new.size, h'.mem (b.ptr + i) = h.mem (ptr + i)) :
    ResizeOk Inv L others ptr old new h (some b, h') := by
  have hsat : Satisfies b nz := hA.satisfies (g := ⟨b, nz⟩) hiss.inv (Set.mem_insert _ _)
  exact ⟨hnz.2 ▸ hsat.aligned, hnz.1 ▸ hsat.large, fun g hg => hiss.fresh g (hkept hg), hcopy⟩

theorem resizeOk_allocate {nz : NonZeroLayout w} (hA : HonoursCore A Inv) (hinv : Inv h L)
    (hnz : nz.size = new.size ∧ nz.align = new.align) (hzero : old.size = 0) :
    ResizeOk Inv L L ptr old new h (A.allocate nz h) := by
  rcases heq : A.allocate nz h with ⟨r, h'⟩
  cases r with
  | none => exact ⟨(hA.allocate_none hinv heq).inv, fun i hi => by omega⟩
  | some b =>
      exact resizeOk_issued hA hnz (hA.allocate_some hinv heq) subset_rfl fun i hi => by omega

/-- **The adapter's `grow` meets the outer contract** when the inner `grow`, if it is called at
all, meets the inner one for the two layouts. -/
theorem grow_ok_of (hA : HonoursCore A Inv) (hinv : Inv h L) (hheld : Held L ptr old others)
    (hsize : old.size ≤ new.size)
    (hinner : ∀ {g : Grant w} {nz : NonZeroLayout w}, g ∈ L → ptr = g.block.ptr →
      others = L \ {g} → old.toNonZero = some g.layout → new.toNonZero = some nz →
      ResizeOk Inv L others ptr old new h (A.grow ptr g.layout nz h)) :
    ResizeOk Inv L others ptr old new h (grow A ptr old new h) := by
  cases hheld with
  | zero hzero =>
      rw [grow, CoreLayout.toNonZero_eq_none_iff.mpr hzero]
      rcases hnz : new.toNonZero with _ | nz
      · exact resizeOk_dangling (CoreLayout.toNonZero_eq_none_iff.mp hnz)
      · exact resizeOk_allocate hA hinv (CoreLayout.toNonZero_eq_some.mp hnz) hzero
  | @live g _ hg hgsize hgalign =>
      have hold : old.toNonZero = some g.layout :=
        CoreLayout.toNonZero_eq_some.mpr ⟨hgsize.symm, hgalign.symm⟩
      have hpos := g.layout.size_pos
      rcases hnz : new.toNonZero with _ | nz
      · have := CoreLayout.toNonZero_eq_none_iff.mp hnz
        omega
      · rw [grow, hold, hnz]
        exact hinner hg rfl rfl hold hnz

/-- The same for `shrink`. -/
theorem shrink_ok_of (hheld : Held L ptr old others)
    (hsize : new.size ≤ old.size)
    (hinner : ∀ {g : Grant w} {nz : NonZeroLayout w}, g ∈ L → ptr = g.block.ptr →
      others = L \ {g} → old.toNonZero = some g.layout → new.toNonZero = some nz →
      ResizeOk Inv L others ptr old new h (A.shrink ptr g.layout nz h)) :
    ResizeOk Inv L others ptr old new h (shrink A ptr old new h) := by
  cases hheld with
  | zero hzero =>
      have hnew : new.size = 0 := by omega
      rw [shrink, CoreLayout.toNonZero_eq_none_iff.mpr hzero,
        CoreLayout.toNonZero_eq_none_iff.mpr hnew]
      exact resizeOk_dangling hnew
  | @live g _ hg hgsize hgalign =>
      have hold : old.toNonZero = some g.layout :=
        CoreLayout.toNonZero_eq_some.mpr ⟨hgsize.symm, hgalign.symm⟩
      rcases hnz : new.toNonZero with _ | nz
      · rw [shrink, hold, hnz]
        exact resizeOk_dangling (CoreLayout.toNonZero_eq_none_iff.mp hnz)
      · rw [shrink, hold, hnz]
        exact hinner hg rfl rfl hold hnz

/-- An inner `grow` that meets its clause, whatever the alignments, gives the outer clause. -/
theorem resizeOk_grow (hA : HonoursCore A Inv) (hinv : Inv h L) {g : Grant w}
    {nz : NonZeroLayout w} (hg : g ∈ L) (hold : old.toNonZero = some g.layout)
    (hnew : new.toNonZero = some nz)
    (hsome : ∀ b h', A.grow g.block.ptr g.layout nz h = (some b, h') →
      Issued Inv (L \ {g}) h h' b nz ∧
        ∀ i < g.layout.size, h'.mem (b.ptr + i) = h.mem (g.block.ptr + i))
    (hnone : ∀ h', A.grow g.block.ptr g.layout nz h = (none, h') → Unchanged Inv L h h') :
    ResizeOk Inv L (L \ {g}) g.block.ptr old new h (A.grow g.block.ptr g.layout nz h) := by
  obtain ⟨hos, hoa⟩ := CoreLayout.toNonZero_eq_some.mp hold
  rcases heq : A.grow g.block.ptr g.layout nz h with ⟨r, h'⟩
  cases r with
  | none => exact resizeOk_none hg (hA.satisfies hinv hg) hos.symm (hnone h' heq)
  | some b =>
      obtain ⟨hiss, hcopy⟩ := hsome b h' heq
      exact resizeOk_issued hA (CoreLayout.toNonZero_eq_some.mp hnew) hiss subset_rfl
        fun i hi => hcopy i (by omega)

theorem resizeOk_shrink (hA : HonoursCore A Inv) (hinv : Inv h L) {g : Grant w}
    {nz : NonZeroLayout w} (hg : g ∈ L) (hold : old.toNonZero = some g.layout)
    (hnew : new.toNonZero = some nz)
    (hsome : ∀ b h', A.shrink g.block.ptr g.layout nz h = (some b, h') →
      Issued Inv (L \ {g}) h h' b nz ∧
        ∀ i < nz.size, h'.mem (b.ptr + i) = h.mem (g.block.ptr + i))
    (hnone : ∀ h', A.shrink g.block.ptr g.layout nz h = (none, h') → Unchanged Inv L h h') :
    ResizeOk Inv L (L \ {g}) g.block.ptr old new h (A.shrink g.block.ptr g.layout nz h) := by
  obtain ⟨hos, hoa⟩ := CoreLayout.toNonZero_eq_some.mp hold
  obtain ⟨hns, hna⟩ := CoreLayout.toNonZero_eq_some.mp hnew
  rcases heq : A.shrink g.block.ptr g.layout nz h with ⟨r, h'⟩
  cases r with
  | none => exact resizeOk_none hg (hA.satisfies hinv hg) hos.symm (hnone h' heq)
  | some b =>
      obtain ⟨hiss, hcopy⟩ := hsome b h' heq
      exact resizeOk_issued hA ⟨hns, hna⟩ hiss subset_rfl fun i hi => hcopy i (by omega)

/-- For equal alignments, and where the old block has no bytes, the adapter is right over every
inner allocator. -/
theorem grow_ok (hA : Honours A Inv) (hinv : Inv h L) (hheld : Held L ptr old others)
    (hsize : old.size ≤ new.size) (halign : old.align = new.align ∨ old.size = 0) :
    ResizeOk Inv L others ptr old new h (grow A ptr old new h) := by
  refine grow_ok_of hA.toHonoursCore hinv hheld hsize ?_
  rintro g nz hg rfl rfl hold hnew
  obtain ⟨hos, hoa⟩ := CoreLayout.toNonZero_eq_some.mp hold
  obtain ⟨hns, hna⟩ := CoreLayout.toNonZero_eq_some.mp hnew
  have hpos := g.layout.size_pos
  have heq : g.layout.align = nz.align := by
    rcases halign with heq | hzero
    · rw [hoa, hna, heq]
    · omega
  exact resizeOk_grow hA.toHonoursCore hinv hg hold hnew
    (fun _ _ hres => hA.grow_some hinv hg (by omega) heq hres)
    (fun _ hres => hA.grow_none hinv hg (by omega) heq hres)

theorem shrink_ok (hA : Honours A Inv) (hinv : Inv h L) (hheld : Held L ptr old others)
    (hsize : new.size ≤ old.size) (halign : old.align = new.align ∨ new.size = 0) :
    ResizeOk Inv L others ptr old new h (shrink A ptr old new h) := by
  refine shrink_ok_of hheld hsize ?_
  rintro g nz hg rfl rfl hold hnew
  obtain ⟨hos, hoa⟩ := CoreLayout.toNonZero_eq_some.mp hold
  obtain ⟨hns, hna⟩ := CoreLayout.toNonZero_eq_some.mp hnew
  have hpos := nz.size_pos
  have heq : g.layout.align = nz.align := by
    rcases halign with heq | hzero
    · rw [hoa, hna, heq]
    · omega
  exact resizeOk_shrink hA.toHonoursCore hinv hg hold hnew
    (fun _ _ hres => hA.shrink_some hinv hg (by omega) heq hres)
    (fun _ hres => hA.shrink_none hinv hg (by omega) heq hres)

/-! ## The inner contract is silent when the alignment changes -/

/-- An allocator with its resizes cut down to their contract: where the alignments differ it
answers with an empty block. -/
def toTheLetter (A : Allocator w σ) : Allocator w σ :=
  { A with
    grow := fun ptr old new h =>
      if old.align = new.align then A.grow ptr old new h else (some ⟨ptr, 0⟩, h)
    shrink := fun ptr old new h =>
      if old.align = new.align then A.shrink ptr old new h else (some ⟨ptr, 0⟩, h) }

theorem toTheLetter_honours (hA : Honours A Inv) : Honours (toTheLetter A) Inv where
  satisfies := hA.satisfies
  disjoint := hA.disjoint
  allocate_some := hA.allocate_some
  allocate_none := hA.allocate_none
  deallocate := hA.deallocate
  write := hA.write
  grow_some := fun hinv hg hsize halign heq => by
    simp only [toTheLetter, if_pos halign] at heq
    exact hA.grow_some hinv hg hsize halign heq
  grow_none := fun hinv hg hsize halign heq => by
    simp only [toTheLetter, if_pos halign] at heq
    exact hA.grow_none hinv hg hsize halign heq
  shrink_some := fun hinv hg hsize halign heq => by
    simp only [toTheLetter, if_pos halign] at heq
    exact hA.shrink_some hinv hg hsize halign heq
  shrink_none := fun hinv hg hsize halign heq => by
    simp only [toTheLetter, if_pos halign] at heq
    exact hA.shrink_none hinv hg hsize halign heq
  usableSize := hA.usableSize

end StdCompat

end ForgeAlloc
