import ForgeAlloc.Core.StdCompat
import ForgeAlloc.Layout.BumpRun

set_option autoImplicit false

/-! # `StdCompat` over a `BumpArena`

`BumpArena::grow` extends the last block in place without looking at the new alignment. Behind
`StdCompat`, whose callers may raise the alignment, it then returns the old address, aligned or
not (`resize_misaligned`). This is the only way the arena breaks the outer contract, and over
arbitrary inner allocators the contract holds exactly for the resizes that keep the alignment or
involve no bytes (`stdCompat_resize_iff`).
-/

namespace ForgeAlloc.StdCompat

open ByteMemory

variable {w : Nat} {β : Type} {R : FixedRange β} {base : Nat} {h : Heap (BumpArena β)}
  {L others : Set (Grant w)} {ptr : Nat} {old new : CoreLayout w}

/-- The grow of a live block with bytes that stays in place and is not aligned to the new
layout. -/
def MisalignedInPlace (R : FixedRange β) (ptr : Nat) (old new : CoreLayout w)
    (a : BumpArena β) : Prop :=
  0 < old.size ∧ BumpArena.GrowsInPlace R ptr old.size new.size a ∧ ¬ new.align ∣ ptr

theorem bump_grow_ok_iff (hR : R.Lawful) (hh : BumpArena.Holds R base h L)
    (hheld : Held L ptr old others) (hsize : old.size ≤ new.size) :
    ResizeOk (BumpArena.Holds R base) L others ptr old new h
        (grow (BumpArena.allocator w R) ptr old new h) ↔
      ¬ MisalignedInPlace R ptr old new h.alloc := by
  have hbase : 0 < base := hh.sound.base_eq ▸ hR.base_pos _
  have hA := BumpArena.honoursCore (w := w) hR base hbase
  constructor
  · rintro hok ⟨hpos, hplace, hnot⟩
    cases hheld with
    | zero hzero => omega
    | @live g _ hg hgsize hgalign =>
        obtain ⟨nz, hnz⟩ : ∃ nz, new.toNonZero = some nz := by
          rw [← Option.ne_none_iff_exists', ne_eq, CoreLayout.toNonZero_eq_none_iff]
          omega
        obtain ⟨hns, -⟩ := CoreLayout.toNonZero_eq_some.mp hnz
        have hold : old.toNonZero = some g.layout :=
          CoreLayout.toNonZero_eq_some.mpr ⟨hgsize.symm, hgalign.symm⟩
        obtain ⟨hext, hcommit⟩ := hplace
        rw [hgsize, ← hns] at hext
        rw [hh.sound.base_eq, ← hns] at hcommit
        have hgrow := BumpArena.grow_of_extends hh.sound hext
        rcases hc : R.commit (g.block.ptr - base) nz.size h.alloc.backing with ⟨ok, s'⟩
        rw [hc] at hcommit hgrow
        simp only at hcommit
        subst hcommit
        rw [grow, hold, hnz] at hok
        simp only [BumpArena.allocator, hgrow] at hok
        exact hnot hok.1
  · intro hnot
    refine grow_ok_of hA hh hheld hsize ?_
    rintro g nz hg rfl rfl hold hnew
    obtain ⟨hos, -⟩ := CoreLayout.toNonZero_eq_some.mp hold
    obtain ⟨hns, hna⟩ := CoreLayout.toNonZero_eq_some.mp hnew
    refine resizeOk_grow hA hh hg hold hnew ?_ fun _ hres => hh.grow_none hR hg hres
    refine fun _ _ hres => hh.grow_some hR hg (by omega) (fun hplace => ?_) hres
    by_contra hmis
    have hpos := g.layout.size_pos
    rw [hos, hns] at hplace
    rw [hna] at hmis
    exact hnot ⟨by omega, hplace, hmis⟩

theorem bump_shrink_ok (hR : R.Lawful) (hh : BumpArena.Holds R base h L)
    (hheld : Held L ptr old others) (hsize : new.size ≤ old.size) :
    ResizeOk (BumpArena.Holds R base) L others ptr old new h
      (shrink (BumpArena.allocator w R) ptr old new h) := by
  have hbase : 0 < base := hh.sound.base_eq ▸ hR.base_pos _
  have hA := BumpArena.honoursCore (w := w) hR base hbase
  refine shrink_ok_of hheld hsize ?_
  rintro g nz hg rfl rfl hold hnew
  obtain ⟨hos, -⟩ := CoreLayout.toNonZero_eq_some.mp hold
  obtain ⟨hns, -⟩ := CoreLayout.toNonZero_eq_some.mp hnew
  exact resizeOk_shrink hA hh hg hold hnew
    (fun _ _ hres => hA.defaultShrink_some hh hg (by omega) hres)
    (fun _ hres => hA.defaultShrink_none hh hres)

/-! ## Over every inner allocator -/

/-- The region of one block of the layout `l`, always committed. -/
def exactly (l : NonZeroLayout w) : FixedRange Unit where
  base := fun _ => l.align
  size := fun _ => l.size
  commit := fun _ _ _ => (true, ())

theorem exactly_lawful (l : NonZeroLayout w) : (exactly l).Lawful :=
  ⟨fun _ => l.align_pos, fun _ _ _ => rfl, fun _ _ _ => rfl⟩

theorem holds_exactly (l : NonZeroLayout w) :
    BumpArena.Holds (exactly l) l.align ⟨⟨(), l.size, l.size⟩, fun _ => 0⟩
      {⟨⟨l.align, l.size⟩, l⟩} where
  sound := ⟨rfl, by
    have := l.bound
    have := l.align_pos
    have := isizeMax_lt w
    have := l.size_pos
    rw [add_comm]
    by_contra hnot
    have hle : isizeMax w + 1 ≤ 2 ^ (w - 1) := by
      unfold isizeMax
      have := Nat.two_pow_pos (w - 1)
      omega
    have hlt : 2 ^ (w - 1) < 2 ^ w := by
      apply Nat.pow_lt_pow_right (by decide)
      by_contra hw
      have hzero : w = 0 := by omega
      subst hzero
      simp only [isizeMax] at *
      omega
    simp only at hnot
    omega, le_rfl⟩
  len_eq := fun _ hg => by rw [Set.mem_singleton_iff.mp hg]
  aligned := fun _ hg => by rw [Set.mem_singleton_iff.mp hg]
  base_le := fun _ hg => by rw [Set.mem_singleton_iff.mp hg]
  le_cursor := fun _ hg => by rw [Set.mem_singleton_iff.mp hg]
  disjoint := Set.pairwise_singleton _ _

/-- The outer clause for `grow` at one pair of layouts, over every inner allocator that honours
its contract and every block its client holds. -/
def GrowCorrect (old new : CoreLayout w) : Prop :=
  ∀ (σ : Type) (A : Allocator w σ) (Inv : Heap σ → Set (Grant w) → Prop), Honours A Inv →
    ∀ (h : Heap σ) (L others : Set (Grant w)) (ptr : Nat), Inv h L → Held L ptr old others →
      ResizeOk Inv L others ptr old new h (grow A ptr old new h)

/-- The same for `shrink`. -/
def ShrinkCorrect (old new : CoreLayout w) : Prop :=
  ∀ (σ : Type) (A : Allocator w σ) (Inv : Heap σ → Set (Grant w) → Prop), Honours A Inv →
    ∀ (h : Heap σ) (L others : Set (Grant w)) (ptr : Nat), Inv h L → Held L ptr old others →
      ResizeOk Inv L others ptr old new h (shrink A ptr old new h)

/-- A resize with bytes on both sides reaches the inner allocator with both layouts. -/
theorem exists_toNonZero {l : CoreLayout w} (h : l.size ≠ 0) :
    ∃ nz, l.toNonZero = some nz ∧ nz.size = l.size ∧ nz.align = l.align := by
  obtain ⟨nz, hnz⟩ := Option.ne_none_iff_exists'.mp
    (mt CoreLayout.toNonZero_eq_none_iff.mp h)
  exact ⟨nz, hnz, CoreLayout.toNonZero_eq_some.mp hnz⟩

theorem growCorrect_iff (hsize : old.size ≤ new.size) :
    GrowCorrect old new ↔ old.align = new.align ∨ old.size = 0 := by
  constructor
  · intro hall
    by_contra hnot
    obtain ⟨halign, hpos⟩ := not_or.mp hnot
    obtain ⟨l, hl, hls, hla⟩ := exists_toNonZero hpos
    obtain ⟨nz, hnz, -, hna⟩ := exists_toNonZero (l := new) (by omega)
    have hA := toTheLetter_honours (BumpArena.honours (w := w) (exactly_lawful l) l.align
      l.align_pos).toHonours
    have hok := hall _ _ _ hA _ _ _ _ (holds_exactly l)
      (Held.live (Set.mem_singleton _) hls.symm hla.symm)
    have hne : ¬ l.align = nz.align := by rwa [hla, hna]
    rw [grow, hl, hnz] at hok
    simp only [toTheLetter, if_neg hne] at hok
    have := hok.2.1
    simp only at this
    omega
  · exact fun halign _ _ _ hA _ _ _ _ hinv hheld => grow_ok hA hinv hheld hsize halign

theorem shrinkCorrect_iff (hsize : new.size ≤ old.size) :
    ShrinkCorrect old new ↔ old.align = new.align ∨ new.size = 0 := by
  constructor
  · intro hall
    by_contra hnot
    obtain ⟨halign, hpos⟩ := not_or.mp hnot
    obtain ⟨l, hl, hls, hla⟩ := exists_toNonZero (l := old) (by omega)
    obtain ⟨nz, hnz, -, hna⟩ := exists_toNonZero hpos
    have hA := toTheLetter_honours (BumpArena.honours (w := w) (exactly_lawful l) l.align
      l.align_pos).toHonours
    have hok := hall _ _ _ hA _ _ _ _ (holds_exactly l)
      (Held.live (Set.mem_singleton _) hls.symm hla.symm)
    have hne : ¬ l.align = nz.align := by rwa [hla, hna]
    rw [shrink, hl, hnz] at hok
    simp only [toTheLetter, if_neg hne] at hok
    have := hok.2.1
    simp only at this
    omega
  · exact fun halign _ _ _ hA _ _ _ _ hinv hheld => shrink_ok hA hinv hheld hsize halign

/-! ## The exact condition -/

/-- **When a resize through the adapter meets the outer contract.** Over a bump arena in any
state of any run, for any block its client holds: `shrink` always does, `grow` unless it stays in
place at an address the new alignment does not divide. Over all inner allocators that honour their
contract: exactly when the alignment stays the same or no bytes are involved. -/
theorem stdCompat_resize_iff (hR : R.Lawful) {backing : β} {a : BumpArena β}
    (hnew : BumpArena.new w R backing = some a) {m : Mem} {ops : List (ArenaOp w)}
    {s : ArenaRun β} (hrun : Machine.run (ArenaRun.step R) (ArenaRun.init a m) ops = some s)
    {entry : Grant w → Entry} (hsel : ArenaRun.Selects s L entry)
    (hheld : Held L ptr old others) :
    let arena := BumpArena.allocator w R
    let inv : Heap (BumpArena β) → Set (Grant w) → Prop := BumpArena.Holds R (R.base backing)
    (old.size ≤ new.size →
        (ResizeOk inv L others ptr old new s.heap (grow arena ptr old new s.heap) ↔
          ¬ MisalignedInPlace R ptr old new s.heap.alloc)) ∧
      (new.size ≤ old.size →
        ResizeOk inv L others ptr old new s.heap (shrink arena ptr old new s.heap)) ∧
      (old.size ≤ new.size → (GrowCorrect old new ↔ old.align = new.align ∨ old.size = 0)) ∧
      (new.size ≤ old.size →
        (ShrinkCorrect old new ↔ old.align = new.align ∨ new.size = 0)) := by
  intro arena inv
  have hh : BumpArena.Holds R (R.base backing) s.heap L :=
    (ArenaRun.inv_run hR hnew hrun).holds hsel
  exact ⟨bump_grow_ok_iff hR hh hheld, bump_shrink_ok hR hh hheld, growCorrect_iff,
    shrinkCorrect_iff⟩

/-- A region of 64 bytes at address 48, always committed. -/
def at48 : FixedRange Unit where
  base := fun _ => 48
  size := fun _ => 64
  commit := fun _ _ _ => (true, ())

theorem at48_lawful : at48.Lawful :=
  ⟨fun _ => Nat.succ_pos _, fun _ _ _ => rfl, fun _ _ _ => rfl⟩

def layout16 : NonZeroLayout 64 := .lit 64 16 16 (Eq.refl true)

def grant48 : Grant 64 := ⟨⟨48, 16⟩, layout16⟩

/-- The arena at 48 after one allocation of 16 bytes aligned to 16. -/
def run48 : ArenaRun Unit := ⟨⟨⟨(), 64, 16⟩, fun _ => 0⟩, [⟨0, ⟨48, 16⟩, 16, 0⟩], [], 1⟩

theorem run48_eq : Machine.run (ArenaRun.step at48)
    (ArenaRun.init ⟨(), 64, 0⟩ fun _ => 0) [.allocate layout16] = some run48 := rfl

theorem selects48 : ArenaRun.Selects run48 {grant48} fun _ => ⟨0, ⟨48, 16⟩, 16, 0⟩ where
  mem := fun _ _ => List.mem_singleton.mpr rfl
  block_eq := fun _ hg => by rw [Set.mem_singleton_iff.mp hg]; rfl
  len_eq := fun _ hg => by rw [Set.mem_singleton_iff.mp hg]; rfl
  align_eq := fun _ hg => by rw [Set.mem_singleton_iff.mp hg]; rfl
  id_inj := Set.injOn_singleton _ _

theorem held48 : Held {grant48} 48 (⟨16, 16, ⟨4, rfl⟩, by decide⟩ : CoreLayout 64)
    ({grant48} \ {grant48}) :=
  Held.live (g := grant48) (Set.mem_singleton _) rfl rfl

/-- The theorem at the arena at 48: growing to 32 bytes at the same alignment is right. -/
theorem stdCompat_resize_iff_at48 :
    ResizeOk (BumpArena.Holds at48 48) {grant48} ({grant48} \ {grant48}) 48
      (⟨16, 16, ⟨4, rfl⟩, by decide⟩ : CoreLayout 64) ⟨32, 16, ⟨4, rfl⟩, by decide⟩ run48.heap
      (grow (BumpArena.allocator 64 at48) 48 ⟨16, 16, ⟨4, rfl⟩, by decide⟩
        ⟨32, 16, ⟨4, rfl⟩, by decide⟩ run48.heap) := by
  have hnew : BumpArena.new 64 at48 () = some ⟨(), 64, 0⟩ := rfl
  refine ((stdCompat_resize_iff at48_lawful hnew run48_eq selects48 held48).1 (by decide)).mpr ?_
  rintro ⟨-, -, hnot⟩
  exact hnot (by decide)

/-- Growing the same block to 32 bytes aligned to 32 returns the address 48. -/
theorem resize_misaligned :
    Machine.run (ArenaRun.step at48) (ArenaRun.init ⟨(), 64, 0⟩ fun _ => 0)
        [.allocate layout16] = some run48 ∧
      Held {grant48} 48 (⟨16, 16, ⟨4, rfl⟩, by decide⟩ : CoreLayout 64)
        ({grant48} \ {grant48}) ∧
      (grow (BumpArena.allocator 64 at48) 48 ⟨16, 16, ⟨4, rfl⟩, by decide⟩
        ⟨32, 32, ⟨5, rfl⟩, by decide⟩ run48.heap).1 = some ⟨48, 32⟩ ∧
      ¬ ResizeOk (BumpArena.Holds at48 48) {grant48} ({grant48} \ {grant48}) 48
        (⟨16, 16, ⟨4, rfl⟩, by decide⟩ : CoreLayout 64) ⟨32, 32, ⟨5, rfl⟩, by decide⟩ run48.heap
        (grow (BumpArena.allocator 64 at48) 48 ⟨16, 16, ⟨4, rfl⟩, by decide⟩
          ⟨32, 32, ⟨5, rfl⟩, by decide⟩ run48.heap) := by
  refine ⟨rfl, held48, rfl, fun hok => ?_⟩
  have hdvd : 32 ∣ 48 := hok.1
  revert hdvd
  decide

end ForgeAlloc.StdCompat
