import ForgeAlloc.Core.Recording

set_option autoImplicit false

/-! # Allocators that keep to their own range

`OwnsRange A zeroed R Inv` says that the allocator `A` meets the contract and owns the range `R`:
its blocks lie in the range, the range stays where it is, and the calls neither write nor look at a
byte outside. `zeroed` is its `allocate_zeroed`, a method of the trait with a default body
(`defaultAllocateZeroed`).

`WorksIn A Z Inv` is what remains of this when the range is left out: `A` keeps to the addresses
`Z`. Two allocators with disjoint territories may work in one memory. What one of them does, the
other does not see (`WorksIn.unseen`).
-/

namespace ForgeAlloc

open ByteMemory

variable {w : Nat} {σ : Type}

/-- `Allocator::allocate_zeroed`. -/
def defaultAllocateZeroed (allocate : NonZeroLayout w → Heap σ → Option Block × Heap σ)
    (l : NonZeroLayout w) (h : Heap σ) : Option Block × Heap σ :=
  match allocate l h with
  | (none, h') => (none, h')
  | (some b, h') => (some b, ⟨h'.alloc, writeBytes h'.mem b.ptr (List.replicate l.size 0)⟩)

/-! ## The contract -/

/-- The owned range as a block. -/
def FixedRange.block (R : FixedRange σ) (s : σ) : Block := ⟨R.base s, R.size s⟩

/-- The outcome of a call that leaves the range and the bytes outside it as they are. -/
structure InRange (R : FixedRange σ) (h h' : Heap σ) : Prop where
  block_eq : R.block h'.alloc = R.block h.alloc
  frame : Set.EqOn h'.mem h.mem (R.block h.alloc).bytesᶜ

/-- What the contract asks of a call that allocates in the range. -/
structure AllocatesIn (R : FixedRange σ) (Inv : Heap σ → Set (Grant w) → Prop)
    (allocate : NonZeroLayout w → Heap σ → Option Block × Heap σ) : Prop where
  issued : ∀ {h L l b h'}, Inv h L → allocate l h = (some b, h') → Issued Inv L h h' b l
  unchanged : ∀ {h L l h'}, Inv h L → allocate l h = (none, h') → Unchanged Inv L h h'
  inRange : ∀ {h L l}, Inv h L → InRange R h (allocate l h).2

structure OwnsRange (A : Allocator w σ)
    (zeroed : NonZeroLayout w → Heap σ → Option Block × Heap σ) (R : FixedRange σ)
    (Inv : Heap σ → Set (Grant w) → Prop) : Prop extends HonoursCore A Inv where
  subset : ∀ {h L g}, Inv h L → g ∈ L → g.block.bytes ⊆ (R.block h.alloc).bytes
  inRange_allocate : ∀ {h L l}, Inv h L → InRange R h (A.allocate l h).2
  inRange_deallocate : ∀ {h L g}, Inv h L → g ∈ L →
    InRange R h (A.deallocate g.block.ptr g.layout h)
  zeroed_in : AllocatesIn R Inv zeroed
  /-- The allocator looks at the bytes of its range that it has not issued, and at no others. -/
  mem_congr : ∀ {h L m}, Inv h L →
    Set.EqOn m h.mem ((R.block h.alloc).bytes \ liveBytes L) → Inv ⟨h.alloc, m⟩ L

/-- What the contract asks of a call that allocates and writes in `Z` only. -/
structure ServesIn (Z : Set Nat) (Inv : Heap σ → Set (Grant w) → Prop)
    (allocate : NonZeroLayout w → Heap σ → Option Block × Heap σ) : Prop where
  issued : ∀ {h L l b h'}, Inv h L → allocate l h = (some b, h') → Issued Inv L h h' b l
  unchanged : ∀ {h L l h'}, Inv h L → allocate l h = (none, h') → Unchanged Inv L h h'
  frame : ∀ {h L l}, Inv h L → Set.EqOn (allocate l h).2.mem h.mem Zᶜ

structure WorksIn (A : Allocator w σ) (Z : Set Nat) (Inv : Heap σ → Set (Grant w) → Prop) :
    Prop extends HonoursCore A Inv where
  subset : ∀ {h L g}, Inv h L → g ∈ L → g.block.bytes ⊆ Z
  allocate_frame : ∀ {h L l}, Inv h L → Set.EqOn (A.allocate l h).2.mem h.mem Zᶜ
  deallocate_frame : ∀ {h L g}, Inv h L → g ∈ L →
    Set.EqOn (A.deallocate g.block.ptr g.layout h).mem h.mem Zᶜ
  /-- The allocator looks at the bytes of `Z` that it has not issued, and at no others. -/
  mem_congr : ∀ {h L m}, Inv h L → Set.EqOn m h.mem (Z \ liveBytes L) → Inv ⟨h.alloc, m⟩ L

variable {A : Allocator w σ} {R : FixedRange σ} {Inv : Heap σ → Set (Grant w) → Prop}
  {zeroed : NonZeroLayout w → Heap σ → Option Block × Heap σ} {h h' : Heap σ}
  {L : Set (Grant w)} {g : Grant w} {m : Mem} {b : Block} {l : NonZeroLayout w} {Z : Set Nat}

/-- The calls keep a fact about the value of the allocator. -/
theorem HonoursCore.restrict (hA : HonoursCore A Inv) {Q : σ → Prop}
    (halloc : ∀ {h L l}, Inv h L → Q h.alloc → Q (A.allocate l h).2.alloc)
    (hdealloc : ∀ {h L g}, Inv h L → g ∈ L → Q h.alloc →
      Q (A.deallocate g.block.ptr g.layout h).alloc) :
    HonoursCore A fun h L => Inv h L ∧ Q h.alloc where
  satisfies := fun hinv hg => hA.satisfies hinv.1 hg
  disjoint := fun hinv hg hg' hne => hA.disjoint hinv.1 hg hg' hne
  allocate_some := by
    rintro h L l b h' ⟨hinv, hQ⟩ hcall
    obtain ⟨hinv', hfresh, hframe⟩ := hA.allocate_some hinv hcall
    have hQ' := halloc (l := l) hinv hQ
    rw [hcall] at hQ'
    exact ⟨⟨hinv', hQ'⟩, hfresh, hframe⟩
  allocate_none := by
    rintro h L l h' ⟨hinv, hQ⟩ hcall
    obtain ⟨hinv', hframe⟩ := hA.allocate_none hinv hcall
    have hQ' := halloc (l := l) hinv hQ
    rw [hcall] at hQ'
    exact ⟨⟨hinv', hQ'⟩, hframe⟩
  deallocate := by
    rintro h L g ⟨hinv, hQ⟩ hg
    obtain ⟨hinv', hframe⟩ := hA.deallocate hinv hg
    exact ⟨⟨hinv', hdealloc hinv hg hQ⟩, hframe⟩
  write := fun hinv hm => ⟨hA.write hinv.1 hm, hinv.2⟩

namespace WorksIn

theorem serves (hA : WorksIn A Z Inv) : ServesIn Z Inv A.allocate :=
  ⟨hA.allocate_some, hA.allocate_none, hA.allocate_frame⟩

theorem liveBytes_subset (hA : WorksIn A Z Inv) (hinv : Inv h L) : liveBytes L ⊆ Z := by
  rintro x ⟨g, hg, hx⟩
  exact hA.subset hinv hg hx

/-- What happens elsewhere is not seen, and leaves the issued bytes alone. -/
theorem unseen (hA : WorksIn A Z Inv) (hinv : Inv h L) {T : Set Nat} (hdisj : Disjoint Z T)
    (hm : Set.EqOn m h.mem Tᶜ) : Inv ⟨h.alloc, m⟩ L ∧ Set.EqOn m h.mem (liveBytes L) := by
  have hsame : Set.EqOn m h.mem Z := hm.mono fun _ hx hT => Set.disjoint_left.mp hdisj hx hT
  exact ⟨hA.mem_congr hinv (hsame.mono Set.sdiff_subset), hsame.mono (hA.liveBytes_subset hinv)⟩

end WorksIn

/-- A call that writes nothing is in range as soon as the range stays. -/
theorem InRange.of_mem_eq (hblock : R.block h'.alloc = R.block h.alloc) (hmem : h'.mem = h.mem) :
    InRange R h h' :=
  ⟨hblock, fun _ _ => congrFun hmem _⟩

namespace OwnsRange

theorem allocate_in (hA : OwnsRange A zeroed R Inv) : AllocatesIn R Inv A.allocate :=
  ⟨hA.allocate_some, hA.allocate_none, hA.inRange_allocate⟩

/-- The range as a territory, for as long as it is where it is. -/
theorem worksIn (hA : OwnsRange A zeroed R Inv) (c : Block) :
    WorksIn A c.bytes fun h L => Inv h L ∧ R.block h.alloc = c where
  toHonoursCore := hA.toHonoursCore.restrict (Q := fun s => R.block s = c)
    (fun hinv hc => (hA.inRange_allocate hinv).block_eq.trans hc)
    fun hinv hg hc => (hA.inRange_deallocate hinv hg).block_eq.trans hc
  subset := by
    rintro h L g ⟨hinv, hc⟩ hg
    have hsub := hA.subset hinv hg
    rwa [hc] at hsub
  allocate_frame := by
    rintro h L l ⟨hinv, hc⟩
    have hin := hA.inRange_allocate (l := l) hinv
    exact hc ▸ hin.frame
  deallocate_frame := by
    rintro h L g ⟨hinv, hc⟩ hg
    have hin := hA.inRange_deallocate hinv hg
    exact hc ▸ hin.frame
  mem_congr := by
    rintro h L m ⟨hinv, hc⟩ hm
    refine ⟨hA.mem_congr hinv ?_, hc⟩
    rw [hc]
    exact hm

end OwnsRange

/-- A call that allocates in the range serves in it. -/
theorem AllocatesIn.serves {allocate : NonZeroLayout w → Heap σ → Option Block × Heap σ}
    (hf : AllocatesIn R Inv allocate) (c : Block) :
    ServesIn c.bytes (fun h L => Inv h L ∧ R.block h.alloc = c) allocate where
  issued := by
    rintro h L l b h' ⟨hinv, hc⟩ hcall
    obtain ⟨hinv', hfresh, hframe⟩ := hf.issued hinv hcall
    have hin := hf.inRange (l := l) hinv
    rw [hcall] at hin
    exact ⟨⟨hinv', hin.block_eq.trans hc⟩, hfresh, hframe⟩
  unchanged := by
    rintro h L l h' ⟨hinv, hc⟩ hcall
    obtain ⟨hinv', hframe⟩ := hf.unchanged hinv hcall
    have hin := hf.inRange (l := l) hinv
    rw [hcall] at hin
    exact ⟨⟨hinv', hin.block_eq.trans hc⟩, hframe⟩
  frame := by
    rintro h L l ⟨hinv, hc⟩
    have hin := hf.inRange (l := l) hinv
    exact hc ▸ hin.frame

/-- A block that is issued by a call in the range lies in the range. -/
theorem AllocatesIn.subset (hA : OwnsRange A zeroed R Inv)
    {allocate : NonZeroLayout w → Heap σ → Option Block × Heap σ}
    (hf : AllocatesIn R Inv allocate) (hinv : Inv h L) (hcall : allocate l h = (some b, h')) :
    b.bytes ⊆ (R.block h.alloc).bytes := by
  have hin : b.bytes ⊆ (R.block h'.alloc).bytes :=
    hA.subset (hf.issued hinv hcall).inv (Set.mem_insert ⟨b, l⟩ L)
  have hconf := hf.inRange (l := l) hinv
  rw [hcall] at hconf
  rwa [hconf.block_eq] at hin

/-- The default `allocate_zeroed` does what `allocate` does: it writes into the new block. -/
theorem AllocatesIn.defaultZeroed (hA : HonoursCore A Inv) (hf : AllocatesIn R Inv A.allocate)
    (hsubset : ∀ {h L g}, Inv h L → g ∈ L → g.block.bytes ⊆ (R.block h.alloc).bytes) :
    AllocatesIn R Inv (defaultAllocateZeroed A.allocate) := by
  -- the zeros stay inside the new block, which every clause but the first leaves free
  have hzeros : ∀ {h L l b h'}, Inv h L → A.allocate l h = (some b, h') → ∀ x, x ∉ b.bytes →
      writeBytes h'.mem b.ptr (List.replicate l.size 0) x = h'.mem x := by
    intro h L l b h' hinv hcall x hx
    have hlarge := (hA.allocate_satisfies hinv hcall).large
    apply writeBytes_of_not_mem
    rw [List.length_replicate]
    rw [Block.mem_bytes] at hx
    omega
  refine ⟨?_, ?_, ?_⟩
  · intro h L l b h' hinv heq
    rcases hcall : A.allocate l h with ⟨_ | c, h₁⟩
    · simp only [defaultAllocateZeroed, hcall] at heq
      cases heq
    · simp only [defaultAllocateZeroed, hcall] at heq
      cases heq
      have hiss := hf.issued hinv hcall
      refine ⟨hA.write hiss.inv fun x hx => hzeros hinv hcall x fun hxb => hx ?_, hiss.fresh, ?_⟩
      · exact bytes_subset_liveBytes (Set.mem_insert (⟨b, l⟩ : Grant w) L) hxb
      · rintro x ⟨g, hg, hxg⟩
        have hxb : x ∉ b.bytes := fun hxb => Set.disjoint_left.mp (hiss.fresh g hg) hxb hxg
        exact (hzeros hinv hcall x hxb).trans (hiss.frame ⟨g, hg, hxg⟩)
  · intro h L l h' hinv heq
    rcases hcall : A.allocate l h with ⟨_ | c, h₁⟩
    · simp only [defaultAllocateZeroed, hcall] at heq
      cases heq
      exact hf.unchanged hinv hcall
    · simp only [defaultAllocateZeroed, hcall] at heq
      cases heq
  · intro h L l hinv
    have hconf := hf.inRange (l := l) hinv
    rcases hcall : A.allocate l h with ⟨_ | b, h'⟩
    · rw [hcall] at hconf
      simp only [defaultAllocateZeroed, hcall]
      exact hconf
    · rw [hcall] at hconf
      have hin : b.bytes ⊆ (R.block h'.alloc).bytes :=
        hsubset (hf.issued hinv hcall).inv (Set.mem_insert ⟨b, l⟩ L)
      rw [hconf.block_eq] at hin
      simp only [defaultAllocateZeroed, hcall]
      refine ⟨hconf.block_eq, fun x hx => ?_⟩
      exact (hzeros hinv hcall x fun hxb => hx (hin hxb)).trans (hconf.frame hx)

/-- **An allocator that leaves the memory alone** owns the range that its blocks lie in. -/
theorem HonoursRange.ownsRange (hA : HonoursRange A R Inv)
    (hallocate : ∀ {h L} l, Inv h L →
      R.block (A.allocate l h).2.alloc = R.block h.alloc ∧ (A.allocate l h).2.mem = h.mem)
    (hdeallocate : ∀ {h L g}, Inv h L → g ∈ L →
      R.block (A.deallocate g.block.ptr g.layout h).alloc = R.block h.alloc ∧
        (A.deallocate g.block.ptr g.layout h).mem = h.mem)
    (hmem : ∀ {h L} m, Inv h L → Inv ⟨h.alloc, m⟩ L) :
    OwnsRange A (defaultAllocateZeroed A.allocate) R Inv := by
  have hsubset : ∀ {h L g}, Inv h L → g ∈ L → g.block.bytes ⊆ (R.block h.alloc).bytes :=
    fun hinv hg => Block.within_of_le (hA.base_le hinv hg) (hA.le_end hinv hg)
  have hin : ∀ {h L l}, Inv h L → InRange R h (A.allocate l h).2 := fun hinv =>
    InRange.of_mem_eq (hallocate _ hinv).1 (hallocate _ hinv).2
  exact
    { hA.toHonoursCore with
      subset := hsubset
      inRange_allocate := hin
      inRange_deallocate := fun hinv hg =>
        InRange.of_mem_eq (hdeallocate hinv hg).1 (hdeallocate hinv hg).2
      zeroed_in := AllocatesIn.defaultZeroed hA.toHonoursCore
        ⟨hA.allocate_some, hA.allocate_none, hin⟩ hsubset
      mem_congr := fun hinv _ => hmem _ hinv }

/-! ## The record of an allocator that owns its range -/

open Recorded

/-- A call that allocates, with a record of what it issues. -/
def recordedCall (zeroed : NonZeroLayout w → Heap σ → Option Block × Heap σ)
    (l : NonZeroLayout w) (h : Heap (Recorded w σ)) : Option Block × Heap (Recorded w σ) :=
  note h [] l (zeroed l (heap h))

theorem AllocatesIn.note (hA : HonoursCore A Inv) (hf : AllocatesIn R Inv zeroed)
    (old : List (Grant w)) :
    AllocatesIn (R.recorded w) (Logged Inv old) (recordedCall zeroed) where
  issued := by
    intro h L l b h' hl heq
    obtain ⟨hr, rfl⟩ := note_eq_some heq
    exact issued_note hA (hf.issued hl.inv (Prod.ext hr rfl)) hl.accounts
  unchanged := by
    intro h L l h' hl heq
    obtain ⟨hr, rfl⟩ := note_eq_none heq
    exact logged_unchanged hl (hf.unchanged hl.inv (Prod.ext hr rfl))
  inRange := by
    intro h L l hl
    have hconf := hf.inRange (l := l) hl.inv
    rw [← note_alloc (h := h) [] (zeroed l (heap h))] at hconf
    exact ⟨hconf.block_eq, hconf.frame⟩

/-- **A recorded allocator owns the range of the allocator underneath.** -/
theorem OwnsRange.recorded (hA : OwnsRange A zeroed R Inv) (old : List (Grant w)) :
    OwnsRange (recorded A) (recordedCall zeroed) (R.recorded w) (Logged Inv old) where
  satisfies := fun hl hg => hA.satisfies hl.inv hg
  disjoint := fun hl hg hg' hne => hA.disjoint hl.inv hg hg' hne
  allocate_some := (hA.allocate_in.note hA.toHonoursCore old).issued
  allocate_none := (hA.allocate_in.note hA.toHonoursCore old).unchanged
  deallocate := by
    intro h L g hl hg
    have hun := hA.deallocate hl.inv hg
    exact ⟨⟨hun.inv, hl.accounts_erase hg⟩, hun.frame⟩
  write := fun hl hm => ⟨hA.write hl.inv hm, hl.accounts⟩
  subset := fun hl hg => hA.subset hl.inv hg
  inRange_allocate := (hA.allocate_in.note hA.toHonoursCore old).inRange
  inRange_deallocate := by
    intro h L g hl hg
    have hconf := hA.inRange_deallocate hl.inv hg
    exact ⟨hconf.block_eq, hconf.frame⟩
  zeroed_in := hA.zeroed_in.note hA.toHonoursCore old
  mem_congr := fun hl hm => ⟨hA.mem_congr hl.inv hm, hl.accounts⟩

end ForgeAlloc
