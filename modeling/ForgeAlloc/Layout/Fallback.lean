import ForgeAlloc.Core.OwnedRange
import ForgeAlloc.Library.Run

set_option autoImplicit false

/-! # `WithFallback`

A primary allocator and a secondary one that is asked when the primary fails. A block is handed
back to the half whose range has its address: `contains` of the primary decides.

`tryNew` compares the ends of the two ranges. What it accepts has no address in common
(`not_contains_of_rangesDisjoint`), so that the test at the time of the free and the order of the
failures at the time of the request agree. The ledger falls into the blocks of the primary and those
of the secondary (`Halves`, and `Split` for halves with a range each). Each half sees its own, and a
call of one half is not seen by the other (`Halves.primary_step`, `Halves.secondary_step`).

`WithFallback` has the default `grow` and `shrink`, which may move a block from one half to the
other.
-/

namespace ForgeAlloc

open MachineInt ByteMemory

structure WithFallback (π σ : Type) where
  primary : π
  secondary : σ

variable {w : Nat} {π σ : Type}

namespace WithFallback

def primaryHeap (h : Heap (WithFallback π σ)) : Heap π := ⟨h.alloc.primary, h.mem⟩

def secondaryHeap (h : Heap (WithFallback π σ)) : Heap σ := ⟨h.alloc.secondary, h.mem⟩

/-- The heap after a call of the primary. -/
def setPrimary (h : Heap (WithFallback π σ)) (r : Heap π) : Heap (WithFallback π σ) :=
  ⟨{ h.alloc with primary := r.alloc }, r.mem⟩

def setSecondary (h : Heap (WithFallback π σ)) (r : Heap σ) : Heap (WithFallback π σ) :=
  ⟨{ h.alloc with secondary := r.alloc }, r.mem⟩

/-- `ranges_disjoint`. A range whose end leaves the address space counts as overlapping. -/
def rangesDisjoint (w : Nat) (RP : FixedRange π) (RS : FixedRange σ) (f : WithFallback π σ) :
    Bool :=
  let pStart := RP.base f.primary
  let sStart := RS.base f.secondary
  match checkedAdd w pStart (RP.size f.primary) with
  | none => false
  | some pEnd =>
      match checkedAdd w sStart (RS.size f.secondary) with
      | none => false
      | some sEnd => decide (pEnd ≤ sStart) || decide (sEnd ≤ pStart)

def tryNew (w : Nat) (RP : FixedRange π) (RS : FixedRange σ) (primary : π) (secondary : σ) :
    Option (WithFallback π σ) :=
  let f : WithFallback π σ := ⟨primary, secondary⟩
  if rangesDisjoint w RP RS f then some f else none

/-- Ask the primary, then the secondary: `allocate` and `allocate_zeroed`. -/
def allocateWith (askPrimary : NonZeroLayout w → Heap π → Option Block × Heap π)
    (askSecondary : NonZeroLayout w → Heap σ → Option Block × Heap σ)
    (l : NonZeroLayout w) (h : Heap (WithFallback π σ)) :
    Option Block × Heap (WithFallback π σ) :=
  match askPrimary l (primaryHeap h) with
  | (some b, r) => (some b, setPrimary h r)
  | (none, r) =>
      let h' := setPrimary h r
      let (answer, r') := askSecondary l (secondaryHeap h')
      (answer, setSecondary h' r')

def deallocate (P : Allocator w π) (RP : FixedRange π) (S : Allocator w σ) (ptr : Nat)
    (l : NonZeroLayout w) (h : Heap (WithFallback π σ)) : Heap (WithFallback π σ) :=
  if RP.contains w ptr h.alloc.primary then
    setPrimary h (P.deallocate ptr l (primaryHeap h))
  else setSecondary h (S.deallocate ptr l (secondaryHeap h))

def usableSize (P : Allocator w π) (RP : FixedRange π) (S : Allocator w σ) (ptr : Nat)
    (l : NonZeroLayout w) (h : Heap (WithFallback π σ)) : Option Nat :=
  if RP.contains w ptr h.alloc.primary then P.usableSize ptr l (primaryHeap h)
  else S.usableSize ptr l (secondaryHeap h)

def allocator (P : Allocator w π) (RP : FixedRange π) (S : Allocator w σ) :
    Allocator w (WithFallback π σ) where
  allocate := allocateWith P.allocate S.allocate
  deallocate := deallocate P RP S
  grow := defaultGrow (allocateWith P.allocate S.allocate) (deallocate P RP S)
  shrink := defaultShrink (allocateWith P.allocate S.allocate) (deallocate P RP S)
  usableSize := usableSize P RP S

/-! ## The range check -/

variable {RP : FixedRange π} {RS : FixedRange σ} {f : WithFallback π σ}

theorem rangesDisjoint_iff : rangesDisjoint w RP RS f = true ↔
    RP.base f.primary + RP.size f.primary < 2 ^ w ∧
    RS.base f.secondary + RS.size f.secondary < 2 ^ w ∧
    (RP.base f.primary + RP.size f.primary ≤ RS.base f.secondary ∨
      RS.base f.secondary + RS.size f.secondary ≤ RP.base f.primary) := by
  simp only [rangesDisjoint]
  split
  case h_1 hP =>
      rw [checkedAdd_eq_none] at hP
      simp only [Bool.false_eq_true, false_iff]
      omega
  case h_2 pEnd hP =>
      obtain ⟨hPlt, rfl⟩ := checkedAdd_eq_some.mp hP
      split
      case h_1 hS =>
          rw [checkedAdd_eq_none] at hS
          simp only [Bool.false_eq_true, false_iff]
          omega
      case h_2 sEnd hS =>
          obtain ⟨hSlt, rfl⟩ := checkedAdd_eq_some.mp hS
          rw [Bool.or_eq_true, decide_eq_true_iff, decide_eq_true_iff]
          exact ⟨fun h => ⟨hPlt, hSlt, h⟩, fun h => h.2.2⟩

/-- What the check accepts has no address in common. -/
theorem not_contains_of_rangesDisjoint (h : rangesDisjoint w RP RS f = true) {p : Nat}
    (hp : p < 2 ^ w) :
    ¬ (RP.contains w p f.primary = true ∧ RS.contains w p f.secondary = true) := by
  obtain ⟨hP, hS, hends⟩ := rangesDisjoint_iff.mp h
  rw [FixedRange.contains_iff hp hP.le, FixedRange.contains_iff hp hS.le]
  omega

/-- What it rejects leaves the address space, or is empty, or has an address in common. -/
theorem exists_contains_of_not_rangesDisjoint (h : rangesDisjoint w RP RS f = false)
    (hP : RP.base f.primary + RP.size f.primary < 2 ^ w)
    (hS : RS.base f.secondary + RS.size f.secondary < 2 ^ w)
    (hPpos : 0 < RP.size f.primary) (hSpos : 0 < RS.size f.secondary) :
    ∃ p < 2 ^ w, RP.contains w p f.primary = true ∧ RS.contains w p f.secondary = true := by
  have hnot : ¬ rangesDisjoint w RP RS f = true := by rw [h]; decide
  rw [rangesDisjoint_iff] at hnot
  -- the later of the two starts
  refine ⟨max (RP.base f.primary) (RS.base f.secondary), by omega, ?_⟩
  rw [FixedRange.contains_iff (by omega) hP.le, FixedRange.contains_iff (by omega) hS.le]
  omega

theorem tryNew_eq_some {primary : π} {secondary : σ}
    (h : tryNew w RP RS primary secondary = some f) :
    f = ⟨primary, secondary⟩ ∧ rangesDisjoint w RP RS f = true := by
  simp only [tryNew] at h
  split at h
  case isTrue hdisj =>
      cases h
      exact ⟨rfl, hdisj⟩
  case isFalse => cases h

theorem disjoint_blocks (h : rangesDisjoint w RP RS f = true) :
    Disjoint (RP.block f.primary).bytes (RS.block f.secondary).bytes :=
  Block.disjoint_of_le (rangesDisjoint_iff.mp h).2.2

/-- The check looks at the ranges only. -/
theorem rangesDisjoint_congr {f' : WithFallback π σ}
    (hP : RP.block f'.primary = RP.block f.primary)
    (hS : RS.block f'.secondary = RS.block f.secondary) :
    rangesDisjoint w RP RS f' = rangesDisjoint w RP RS f := by
  have hP' := Block.mk.inj hP
  have hS' := Block.mk.inj hS
  simp only [rangesDisjoint, hP', hS']

/-! ## Two halves that work apart -/

/-- The blocks `LP` are out of the primary, and the blocks `LS` out of the secondary. -/
structure Halves (IP : Heap π → Set (Grant w) → Prop) (IS : Heap σ → Set (Grant w) → Prop)
    (h : Heap (WithFallback π σ)) (LP LS : Set (Grant w)) : Prop where
  primary : IP (primaryHeap h) LP
  secondary : IS (secondaryHeap h) LS

def Halved (IP : Heap π → Set (Grant w) → Prop) (IS : Heap σ → Set (Grant w) → Prop)
    (h : Heap (WithFallback π σ)) (L : Set (Grant w)) : Prop :=
  ∃ LP LS, L = LP ∪ LS ∧ Halves IP IS h LP LS

/-- The test of the range `R` tells the addresses of `Z` from all others. -/
def Tells (w : Nat) (R : FixedRange π) (Z : Set Nat) (IP : Heap π → Set (Grant w) → Prop) : Prop :=
  ∀ r L, IP r L → ∀ p < 2 ^ w, R.contains w p r.alloc = true ↔ p ∈ Z

variable {P : Allocator w π} {S : Allocator w σ} {IP : Heap π → Set (Grant w) → Prop}
  {IS : Heap σ → Set (Grant w) → Prop} {ZP ZS : Set Nat}
  {allocP : NonZeroLayout w → Heap π → Option Block × Heap π}
  {allocS : NonZeroLayout w → Heap σ → Option Block × Heap σ}
  {h h' : Heap (WithFallback π σ)} {LP LS L : Set (Grant w)} {g g' : Grant w} {b : Block}
  {l : NonZeroLayout w} {rP : Heap π} {rS : Heap σ} {LP' LS' : Set (Grant w)}

/-- A call of the primary is not seen by the secondary. -/
theorem Halves.primary_step (hs : Halves IP IS h LP LS) (hS : WorksIn S ZS IS)
    (hdisj : Disjoint ZP ZS) (hinv : IP rP LP') (hframe : Set.EqOn rP.mem h.mem ZPᶜ) :
    Halves IP IS (setPrimary h rP) LP' LS ∧ Set.EqOn rP.mem h.mem (liveBytes LS) := by
  obtain ⟨hsecondary, hlive⟩ := hS.unseen hs.secondary hdisj.symm hframe
  exact ⟨⟨hinv, hsecondary⟩, hlive⟩

/-- A call of the secondary is not seen by the primary. -/
theorem Halves.secondary_step (hs : Halves IP IS h LP LS) (hP : WorksIn P ZP IP)
    (hdisj : Disjoint ZP ZS) (hinv : IS rS LS') (hframe : Set.EqOn rS.mem h.mem ZSᶜ) :
    Halves IP IS (setSecondary h rS) LP LS' ∧ Set.EqOn rS.mem h.mem (liveBytes LP) := by
  obtain ⟨hprimary, hlive⟩ := hP.unseen hs.primary hdisj hframe
  exact ⟨⟨hprimary, hinv⟩, hlive⟩

/-- Blocks of different halves share no byte. -/
theorem Halves.disjoint (hs : Halves IP IS h LP LS) (hP : WorksIn P ZP IP) (hS : WorksIn S ZS IS)
    (hdisj : Disjoint ZP ZS) (hg : g ∈ LP) (hg' : g' ∈ LS) :
    Disjoint g.block.bytes g'.block.bytes :=
  hdisj.mono (hP.subset hs.primary hg) (hS.subset hs.secondary hg')

/-- No block is out of both halves. -/
theorem Halves.not_mem_secondary (hs : Halves IP IS h LP LS) (hP : WorksIn P ZP IP)
    (hS : WorksIn S ZS IS) (hdisj : Disjoint ZP ZS) (hg : g ∈ LP) : g ∉ LS := fun hg' =>
  not_disjoint_self (hP.satisfies hs.primary hg).len_pos (hs.disjoint hP hS hdisj hg hg')

/-! ### Routing -/

theorem first_mem (hsat : Satisfies g.block g.layout) : g.block.ptr ∈ g.block.bytes :=
  ⟨le_rfl, Nat.lt_add_of_pos_right hsat.len_pos⟩

theorem ptr_lt (hsat : Satisfies g.block g.layout) : g.block.ptr < 2 ^ w := by
  have hspace := hsat.inSpace
  have hpos := hsat.len_pos
  omega

theorem Halves.contains_primary (hs : Halves IP IS h LP LS) (hP : WorksIn P ZP IP)
    (htells : Tells w RP ZP IP) (hg : g ∈ LP) :
    RP.contains w g.block.ptr h.alloc.primary = true := by
  have hsat := hP.satisfies hs.primary hg
  exact (htells _ _ hs.primary _ (ptr_lt hsat)).mpr (hP.subset hs.primary hg (first_mem hsat))

theorem Halves.contains_secondary (hs : Halves IP IS h LP LS) (hS : WorksIn S ZS IS)
    (htells : Tells w RP ZP IP) (hdisj : Disjoint ZP ZS) (hg : g ∈ LS) :
    RP.contains w g.block.ptr h.alloc.primary = false := by
  have hsat := hS.satisfies hs.secondary hg
  have hiff : RP.contains w g.block.ptr h.alloc.primary = true ↔ _ :=
    htells _ _ hs.primary _ (ptr_lt hsat)
  rw [Bool.eq_false_iff, Ne, hiff]
  exact fun hmem => Set.disjoint_left.mp hdisj hmem (hS.subset hs.secondary hg (first_mem hsat))

/-- A block of the primary goes back to the primary. -/
theorem Halves.deallocate_primary (hs : Halves IP IS h LP LS) (hP : WorksIn P ZP IP)
    (htells : Tells w RP ZP IP) (hg : g ∈ LP) :
    WithFallback.deallocate P RP S g.block.ptr g.layout h =
      setPrimary h (P.deallocate g.block.ptr g.layout (primaryHeap h)) :=
  if_pos (hs.contains_primary hP htells hg)

/-- A block of the secondary goes back to the secondary. -/
theorem Halves.deallocate_secondary (hs : Halves IP IS h LP LS) (hS : WorksIn S ZS IS)
    (htells : Tells w RP ZP IP) (hdisj : Disjoint ZP ZS) (hg : g ∈ LS) :
    WithFallback.deallocate P RP S g.block.ptr g.layout h =
      setSecondary h (S.deallocate g.block.ptr g.layout (secondaryHeap h)) := by
  rw [WithFallback.deallocate, hs.contains_secondary hS htells hdisj hg]
  rfl

theorem Halves.usableSize_primary (hs : Halves IP IS h LP LS) (hP : WorksIn P ZP IP)
    (htells : Tells w RP ZP IP) (hg : g ∈ LP) :
    usableSize P RP S g.block.ptr g.layout h =
      P.usableSize g.block.ptr g.layout (primaryHeap h) :=
  if_pos (hs.contains_primary hP htells hg)

theorem Halves.usableSize_secondary (hs : Halves IP IS h LP LS) (hS : WorksIn S ZS IS)
    (htells : Tells w RP ZP IP) (hdisj : Disjoint ZP ZS) (hg : g ∈ LS) :
    usableSize P RP S g.block.ptr g.layout h =
      S.usableSize g.block.ptr g.layout (secondaryHeap h) := by
  rw [usableSize, hs.contains_secondary hS htells hdisj hg]
  rfl

/-! ### The calls -/

/-- The secondary is asked in the heap that the failed request of the primary leaves. -/
theorem allocateWith_some (heq : allocateWith allocP allocS l h = (some b, h')) :
    (∃ r, allocP l (primaryHeap h) = (some b, r) ∧ h' = setPrimary h r) ∨
    ∃ r r', allocP l (primaryHeap h) = (none, r) ∧
      allocS l (secondaryHeap (setPrimary h r)) = (some b, r') ∧
      h' = setSecondary (setPrimary h r) r' := by
  unfold allocateWith at heq
  split at heq
  case h_1 c r hcall =>
      cases heq
      exact Or.inl ⟨r, hcall, rfl⟩
  case h_2 r hcall =>
      obtain ⟨hb, rfl⟩ := Prod.mk.inj heq
      exact Or.inr ⟨r, _, hcall, Prod.ext hb rfl, rfl⟩

theorem allocateWith_none (heq : allocateWith allocP allocS l h = (none, h')) :
    ∃ r r', allocP l (primaryHeap h) = (none, r) ∧
      allocS l (secondaryHeap (setPrimary h r)) = (none, r') ∧
      h' = setSecondary (setPrimary h r) r' := by
  unfold allocateWith at heq
  split at heq
  case h_1 => cases heq
  case h_2 r hcall =>
      obtain ⟨hb, rfl⟩ := Prod.mk.inj heq
      exact ⟨r, _, hcall, Prod.ext hb rfl, rfl⟩

theorem frame_union {m m' : Mem} (hLP : Set.EqOn m' m (liveBytes LP))
    (hLS : Set.EqOn m' m (liveBytes LS)) : Set.EqOn m' m (liveBytes (LP ∪ LS)) := by
  rintro x ⟨g, hg | hg, hx⟩
  · exact hLP ⟨g, hg, hx⟩
  · exact hLS ⟨g, hg, hx⟩

/-- The primary has failed: what is out stays out. -/
theorem Halves.primary_none (hs : Halves IP IS h LP LS) (hS : WorksIn S ZS IS)
    (hdisj : Disjoint ZP ZS) (hfP : ServesIn ZP IP allocP)
    (hcall : allocP l (primaryHeap h) = (none, rP)) :
    Halves IP IS (setPrimary h rP) LP LS ∧ Set.EqOn rP.mem h.mem (liveBytes (LP ∪ LS)) ∧
      Set.EqOn rP.mem h.mem ZPᶜ := by
  have hun := hfP.unchanged hs.primary hcall
  have hframe := hfP.frame (l := l) hs.primary
  rw [hcall] at hframe
  obtain ⟨hs', hlive⟩ := hs.primary_step hS hdisj hun.inv hframe
  exact ⟨hs', frame_union hun.frame hlive, hframe⟩

/-- **A request**, of plain or of zeroed bytes: the block joins the ledger of the half that
issued it. -/
theorem Halves.allocateWith_some (hs : Halves IP IS h LP LS) (hP : WorksIn P ZP IP)
    (hS : WorksIn S ZS IS) (hdisj : Disjoint ZP ZS) (hfP : ServesIn ZP IP allocP)
    (hfS : ServesIn ZS IS allocS) (heq : allocateWith allocP allocS l h = (some b, h')) :
    Issued (Halved IP IS) (LP ∪ LS) h h' b l := by
  rcases WithFallback.allocateWith_some heq with ⟨r, hcall, rfl⟩ | ⟨r, r', hfail, hcall, rfl⟩
  · have hiss := hfP.issued hs.primary hcall
    have hframe := hfP.frame (l := l) hs.primary
    rw [hcall] at hframe
    obtain ⟨hs', hlive⟩ := hs.primary_step hS hdisj hiss.inv hframe
    refine ⟨⟨_, LS, Set.insert_union.symm, hs'⟩, ?_, frame_union hiss.frame hlive⟩
    rintro g (hg | hg)
    · exact hiss.fresh g hg
    · exact hs'.disjoint hP hS hdisj (Set.mem_insert (⟨b, l⟩ : Grant w) LP) hg
  · obtain ⟨hs₁, hlive₁, -⟩ := hs.primary_none hS hdisj hfP hfail
    have hiss := hfS.issued hs₁.secondary hcall
    have hframe := hfS.frame (l := l) hs₁.secondary
    rw [hcall] at hframe
    obtain ⟨hs', hlive⟩ := hs₁.secondary_step hP hdisj hiss.inv hframe
    refine ⟨⟨LP, _, Set.union_insert.symm, hs'⟩, ?_, ?_⟩
    · rintro g (hg | hg)
      · exact (hs'.disjoint hP hS hdisj hg (Set.mem_insert (⟨b, l⟩ : Grant w) LS)).symm
      · exact hiss.fresh g hg
    · exact (frame_union hlive hiss.frame).trans hlive₁

theorem Halves.allocateWith_none (hs : Halves IP IS h LP LS) (hP : WorksIn P ZP IP)
    (hS : WorksIn S ZS IS) (hdisj : Disjoint ZP ZS) (hfP : ServesIn ZP IP allocP)
    (hfS : ServesIn ZS IS allocS) (heq : allocateWith allocP allocS l h = (none, h')) :
    Unchanged (Halved IP IS) (LP ∪ LS) h h' := by
  obtain ⟨r, r', hfail, hcall, rfl⟩ := WithFallback.allocateWith_none heq
  obtain ⟨hs₁, hlive₁, -⟩ := hs.primary_none hS hdisj hfP hfail
  have hun := hfS.unchanged hs₁.secondary hcall
  have hframe := hfS.frame (l := l) hs₁.secondary
  rw [hcall] at hframe
  obtain ⟨hs', hlive⟩ := hs₁.secondary_step hP hdisj hun.inv hframe
  exact ⟨⟨LP, LS, rfl, hs'⟩, (frame_union hlive hun.frame).trans hlive₁⟩

theorem Halves.allocate_frame (hs : Halves IP IS h LP LS) (hS : WorksIn S ZS IS)
    (hdisj : Disjoint ZP ZS) (hfP : ServesIn ZP IP allocP) (hfS : ServesIn ZS IS allocS) :
    Set.EqOn (allocateWith allocP allocS l h).2.mem h.mem (ZP ∪ ZS)ᶜ := by
  have hframe := hfP.frame (l := l) hs.primary
  have hleft : (ZP ∪ ZS)ᶜ ⊆ ZPᶜ := Set.compl_subset_compl.mpr Set.subset_union_left
  have hright : (ZP ∪ ZS)ᶜ ⊆ ZSᶜ := Set.compl_subset_compl.mpr Set.subset_union_right
  rcases hcall : allocP l (primaryHeap h) with ⟨_ | b, r⟩
  · obtain ⟨hs₁, -, hframe₁⟩ := hs.primary_none hS hdisj hfP hcall
    simp only [allocateWith, hcall]
    exact ((hfS.frame hs₁.secondary).mono hright).trans (hframe₁.mono hleft)
  · rw [hcall] at hframe
    simp only [allocateWith, hcall]
    exact hframe.mono hleft

/-- The ledger without a block of the primary. -/
theorem Halves.sdiff_primary (hs : Halves IP IS h LP LS) (hP : WorksIn P ZP IP)
    (hS : WorksIn S ZS IS) (hdisj : Disjoint ZP ZS) (hg : g ∈ LP) :
    (LP ∪ LS) \ {g} = LP \ {g} ∪ LS := by
  rw [Set.union_sdiff_distrib, Set.sdiff_singleton_eq_self (hs.not_mem_secondary hP hS hdisj hg)]

theorem Halves.sdiff_secondary (hs : Halves IP IS h LP LS) (hP : WorksIn P ZP IP)
    (hS : WorksIn S ZS IS) (hdisj : Disjoint ZP ZS) (hg : g ∈ LS) :
    (LP ∪ LS) \ {g} = LP ∪ LS \ {g} := by
  have hnot : g ∉ LP := fun hg' => hs.not_mem_secondary hP hS hdisj hg' hg
  rw [Set.union_sdiff_distrib, Set.sdiff_singleton_eq_self hnot]

theorem Halves.deallocate (hs : Halves IP IS h LP LS) (hP : WorksIn P ZP IP)
    (hS : WorksIn S ZS IS) (hdisj : Disjoint ZP ZS) (htells : Tells w RP ZP IP)
    (hg : g ∈ LP ∪ LS) :
    let h' := WithFallback.deallocate P RP S g.block.ptr g.layout h
    Unchanged (Halved IP IS) ((LP ∪ LS) \ {g}) h h' ∧ Set.EqOn h'.mem h.mem (ZP ∪ ZS)ᶜ := by
  intro h'
  rcases hg with hg | hg
  · have hun := hP.deallocate hs.primary hg
    have hframe := hP.deallocate_frame hs.primary hg
    obtain ⟨hs', hlive⟩ := hs.primary_step hS hdisj hun.inv hframe
    rw [show h' = _ from hs.deallocate_primary hP htells hg, hs.sdiff_primary hP hS hdisj hg]
    refine ⟨⟨⟨_, LS, rfl, hs'⟩, frame_union hun.frame hlive⟩, hframe.mono ?_⟩
    exact Set.compl_subset_compl.mpr Set.subset_union_left
  · have hun := hS.deallocate hs.secondary hg
    have hframe := hS.deallocate_frame hs.secondary hg
    obtain ⟨hs', hlive⟩ := hs.secondary_step hP hdisj hun.inv hframe
    rw [show h' = _ from hs.deallocate_secondary hS htells hdisj hg,
      hs.sdiff_secondary hP hS hdisj hg]
    refine ⟨⟨⟨LP, _, rfl, hs'⟩, frame_union hlive hun.frame⟩, hframe.mono ?_⟩
    exact Set.compl_subset_compl.mpr Set.subset_union_right

/-- Each half looks at its own territory only. -/
theorem Halves.mem_congr (hs : Halves IP IS h LP LS) (hP : WorksIn P ZP IP)
    (hS : WorksIn S ZS IS) (hdisj : Disjoint ZP ZS) {m : Mem}
    (hm : Set.EqOn m h.mem ((ZP ∪ ZS) \ liveBytes (LP ∪ LS))) :
    Halves IP IS ⟨h.alloc, m⟩ LP LS := by
  refine ⟨hP.mem_congr hs.primary (hm.mono ?_), hS.mem_congr hs.secondary (hm.mono ?_)⟩
  · rintro x ⟨hx, hdead⟩
    refine ⟨Or.inl hx, ?_⟩
    rintro ⟨g, hg | hg, hxg⟩
    · exact hdead ⟨g, hg, hxg⟩
    · exact Set.disjoint_left.mp hdisj hx (hS.subset hs.secondary hg hxg)
  · rintro x ⟨hx, hdead⟩
    refine ⟨Or.inr hx, ?_⟩
    rintro ⟨g, hg | hg, hxg⟩
    · exact Set.disjoint_left.mp hdisj (hP.subset hs.primary hg hxg) hx
    · exact hdead ⟨g, hg, hxg⟩

/-- **`WithFallback` over halves that work apart** works in both territories. -/
theorem worksIn (hP : WorksIn P ZP IP) (hS : WorksIn S ZS IS) (hdisj : Disjoint ZP ZS)
    (htells : Tells w RP ZP IP) : WorksIn (allocator P RP S) (ZP ∪ ZS) (Halved IP IS) where
  satisfies := by
    rintro h L g ⟨LP, LS, rfl, hs⟩ (hg | hg)
    · exact hP.satisfies hs.primary hg
    · exact hS.satisfies hs.secondary hg
  disjoint := by
    rintro h L g g' ⟨LP, LS, rfl, hs⟩ (hg | hg) (hg' | hg') hne
    · exact hP.disjoint hs.primary hg hg' hne
    · exact hs.disjoint hP hS hdisj hg hg'
    · exact (hs.disjoint hP hS hdisj hg' hg).symm
    · exact hS.disjoint hs.secondary hg hg' hne
  allocate_some := by
    rintro h L l b h' ⟨LP, LS, rfl, hs⟩ heq
    exact hs.allocateWith_some hP hS hdisj hP.serves hS.serves heq
  allocate_none := by
    rintro h L l h' ⟨LP, LS, rfl, hs⟩ heq
    exact hs.allocateWith_none hP hS hdisj hP.serves hS.serves heq
  deallocate := by
    rintro h L g ⟨LP, LS, rfl, hs⟩ hg
    exact (hs.deallocate hP hS hdisj htells hg).1
  write := by
    rintro h L m ⟨LP, LS, rfl, hs⟩ hm
    exact ⟨LP, LS, rfl, hs.mem_congr hP hS hdisj (hm.mono fun _ hx => hx.2)⟩
  subset := by
    rintro h L g ⟨LP, LS, rfl, hs⟩ (hg | hg)
    · exact (hP.subset hs.primary hg).trans Set.subset_union_left
    · exact (hS.subset hs.secondary hg).trans Set.subset_union_right
  allocate_frame := by
    rintro h L l ⟨LP, LS, rfl, hs⟩
    exact hs.allocate_frame hS hdisj hP.serves hS.serves
  deallocate_frame := by
    rintro h L g ⟨LP, LS, rfl, hs⟩ hg
    exact (hs.deallocate hP hS hdisj htells hg).2
  mem_congr := by
    rintro h L m ⟨LP, LS, rfl, hs⟩ hm
    exact ⟨LP, LS, rfl, hs.mem_congr hP hS hdisj hm⟩

/-! ## Two halves with a range each -/

/-- The blocks `LP` are out of the primary, the blocks `LS` out of the secondary, and their ranges
are disjoint. -/
structure Split (w : Nat) (RP : FixedRange π) (RS : FixedRange σ)
    (IP : Heap π → Set (Grant w) → Prop) (IS : Heap σ → Set (Grant w) → Prop)
    (h : Heap (WithFallback π σ)) (LP LS : Set (Grant w)) : Prop where
  primary : IP (primaryHeap h) LP
  secondary : IS (secondaryHeap h) LS
  disjoint : rangesDisjoint w RP RS h.alloc = true

def Holds (w : Nat) (RP : FixedRange π) (RS : FixedRange σ)
    (IP : Heap π → Set (Grant w) → Prop) (IS : Heap σ → Set (Grant w) → Prop)
    (h : Heap (WithFallback π σ)) (L : Set (Grant w)) : Prop :=
  ∃ LP LS, L = LP ∪ LS ∧ Split w RP RS IP IS h LP LS

/-- The invariant, for as long as the range is at `c`. -/
abbrev Pinned {τ : Type} (R : FixedRange τ) (I : Heap τ → Set (Grant w) → Prop) (c : Block) :
    Heap τ → Set (Grant w) → Prop := fun h L => I h L ∧ R.block h.alloc = c

theorem tells_range {c : Block} (hend : c.ptr + c.len ≤ 2 ^ w) :
    Tells w RP c.bytes (Pinned RP IP c) := by
  rintro r L ⟨-, rfl⟩ p hp
  exact FixedRange.contains_iff hp hend

variable {zP : NonZeroLayout w → Heap π → Option Block × Heap π}
  {zS : NonZeroLayout w → Heap σ → Option Block × Heap σ}

theorem Split.halves (hs : Split w RP RS IP IS h LP LS) :
    Halves (Pinned RP IP (RP.block h.alloc.primary)) (Pinned RS IS (RS.block h.alloc.secondary))
      h LP LS := ⟨⟨hs.primary, rfl⟩, ⟨hs.secondary, rfl⟩⟩

theorem Split.tells (hs : Split w RP RS IP IS h LP LS) :
    Tells w RP (RP.block h.alloc.primary).bytes (Pinned RP IP (RP.block h.alloc.primary)) :=
  tells_range (rangesDisjoint_iff.mp hs.disjoint).1.le

/-- Ranges that stay where they are stay disjoint. -/
theorem holds_of_halved (hdisj : rangesDisjoint w RP RS f = true)
    (hh : Halved (Pinned RP IP (RP.block f.primary)) (Pinned RS IS (RS.block f.secondary)) h L) :
    Holds w RP RS IP IS h L := by
  obtain ⟨LP, LS, rfl, hs⟩ := hh
  exact ⟨LP, LS, rfl, hs.primary.1, hs.secondary.1,
    (rangesDisjoint_congr hs.primary.2 hs.secondary.2).trans hdisj⟩

theorem Split.allocateWith_some (hP : OwnsRange P zP RP IP) (hS : OwnsRange S zS RS IS)
    (hfP : AllocatesIn RP IP allocP) (hfS : AllocatesIn RS IS allocS)
    (hs : Split w RP RS IP IS h LP LS) (heq : allocateWith allocP allocS l h = (some b, h')) :
    Issued (Holds w RP RS IP IS) (LP ∪ LS) h h' b l := by
  obtain ⟨hinv, hfresh, hframe⟩ := hs.halves.allocateWith_some (hP.worksIn _) (hS.worksIn _)
    (disjoint_blocks hs.disjoint) (hfP.serves _) (hfS.serves _) heq
  exact ⟨holds_of_halved hs.disjoint hinv, hfresh, hframe⟩

theorem Split.allocateWith_none (hP : OwnsRange P zP RP IP) (hS : OwnsRange S zS RS IS)
    (hfP : AllocatesIn RP IP allocP) (hfS : AllocatesIn RS IS allocS)
    (hs : Split w RP RS IP IS h LP LS) (heq : allocateWith allocP allocS l h = (none, h')) :
    Unchanged (Holds w RP RS IP IS) (LP ∪ LS) h h' := by
  obtain ⟨hinv, hframe⟩ := hs.halves.allocateWith_none (hP.worksIn _) (hS.worksIn _)
    (disjoint_blocks hs.disjoint) (hfP.serves _) (hfS.serves _) heq
  exact ⟨holds_of_halved hs.disjoint hinv, hframe⟩

theorem Split.not_mem_secondary (hP : OwnsRange P zP RP IP) (hS : OwnsRange S zS RS IS)
    (hs : Split w RP RS IP IS h LP LS) (hg : g ∈ LP) : g ∉ LS :=
  hs.halves.not_mem_secondary (hP.worksIn _) (hS.worksIn _) (disjoint_blocks hs.disjoint) hg

/-- **`WithFallback` meets the `Allocator` contract** if both halves own their ranges. -/
theorem honoursCore (hP : OwnsRange P zP RP IP) (hS : OwnsRange S zS RS IS) :
    HonoursCore (allocator P RP S) (Holds w RP RS IP IS) := by
  have hworks := fun {h LP LS} (hs : Split w RP RS IP IS h LP LS) =>
    worksIn (hP.worksIn _) (hS.worksIn _) (disjoint_blocks hs.disjoint) hs.tells
  refine ⟨?_, ?_, ?_, ?_, ?_, ?_⟩
  · rintro h L g ⟨LP, LS, rfl, hs⟩ hg
    exact (hworks hs).satisfies ⟨LP, LS, rfl, hs.halves⟩ hg
  · rintro h L g g' ⟨LP, LS, rfl, hs⟩ hg hg' hne
    exact (hworks hs).disjoint ⟨LP, LS, rfl, hs.halves⟩ hg hg' hne
  · rintro h L l b h' ⟨LP, LS, rfl, hs⟩ heq
    exact hs.allocateWith_some hP hS hP.allocate_in hS.allocate_in heq
  · rintro h L l h' ⟨LP, LS, rfl, hs⟩ heq
    exact hs.allocateWith_none hP hS hP.allocate_in hS.allocate_in heq
  · rintro h L g ⟨LP, LS, rfl, hs⟩ hg
    obtain ⟨hinv, hframe⟩ := (hworks hs).deallocate ⟨LP, LS, rfl, hs.halves⟩ hg
    exact ⟨holds_of_halved hs.disjoint hinv, hframe⟩
  · rintro h L m ⟨LP, LS, rfl, hs⟩ hm
    exact holds_of_halved hs.disjoint ((hworks hs).write ⟨LP, LS, rfl, hs.halves⟩ hm)

end WithFallback

end ForgeAlloc
