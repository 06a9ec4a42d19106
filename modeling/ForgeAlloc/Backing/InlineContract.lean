import ForgeAlloc.Backing.Inline
import ForgeAlloc.Core.Component
import ForgeAlloc.Layout.Bump

set_option autoImplicit false

/-! # `InlineBacked` as a component

The cursor of the value is that of a bump arena over its storage, for the requests of an alignment of
16 and below. The others are declined.

In the value the cursor lies behind the storage, so the storage ends before the address space does.
-/

namespace ForgeAlloc

open MachineInt ByteMemory

theorem alignUp_add {base x a : Nat} (ha : 0 < a) (hbase : a ∣ base) :
    alignUp (base + x) a = base + alignUp x a := by
  obtain ⟨c, rfl⟩ := hbase
  have hdiv : (a * c + x + (a - 1)) / a = c + (x + (a - 1)) / a := by
    rw [Nat.add_assoc, Nat.mul_add_div ha]
  rw [alignUp, alignUp, hdiv, Nat.add_mul, Nat.mul_comm a c]

/-- Where both bases are aligned, a step gives the same offsets over both. -/
theorem bump_eq_of_dvd {w base base' cap cur size k : Nat} (hk : k ≤ w) (hsize : 0 < size)
    (hcap : cap < 2 ^ w) (hend : base + cap ≤ 2 ^ w) (hend' : base' + cap ≤ 2 ^ w)
    (hbase : 2 ^ k ∣ base) (hbase' : 2 ^ k ∣ base') :
    bump w base cap cur size (2 ^ k) = bump w base' cap cur size (2 ^ k) := by
  have hpos : 0 < (2 : Nat) ^ k := Nat.two_pow_pos k
  apply Option.ext
  rintro ⟨off, fin⟩
  rw [bump_eq_some_iff hk hsize hend hcap, bump_eq_some_iff hk hsize hend' hcap, Fits, Fits,
    alignUp_add hpos hbase, alignUp_add hpos hbase']
  omega

namespace InlineBacked

variable {w N : Nat} {l : NonZeroLayout w} {h h' : Heap (InlineBacked w N)} {L : Set (Grant w)}
  {b : Block} {base : Nat}

/-- The arena over the bare storage. -/
def toArena (s : InlineBacked w N) : BumpArena (InlineBacked w N) := ⟨s.reset, N, s.cursor⟩

theorem allocate_of_lt (halign : maxAlign < l.align) : allocate l h = (none, h) := by
  rw [allocate, if_pos halign]

/-- Up to its alignment, **`InlineBacked::allocate` is `BumpArena::allocate`** over the storage. -/
theorem allocate_toArena (halign : l.align ≤ maxAlign) :
    BumpArena.allocate (range w N) l (h.map toArena) =
      ((allocate l h).1, (allocate l h).2.map toArena) := by
  rw [allocate, if_neg (Nat.not_lt.mpr halign)]
  split
  case h_1 hnone =>
      rw [chainedBump_eq] at hnone
      simp only [BumpArena.allocate, BumpArena.reserve, Heap.map, toArena, range, reset, hnone]
  case h_2 off fin hsome =>
      rw [chainedBump_eq] at hsome
      simp only [BumpArena.allocate, BumpArena.reserve, Heap.map, toArena, range, reset, hsome]

/-- A request writes nothing, and the value stays where it is. -/
theorem allocate_frame (l : NonZeroLayout w) (h : Heap (InlineBacked w N)) :
    (allocate l h).2.mem = h.mem ∧ (allocate l h).2.alloc.addr = h.alloc.addr := by
  unfold allocate
  split
  · exact ⟨rfl, rfl⟩
  · split
    · exact ⟨rfl, rfl⟩
    · exact ⟨rfl, rfl⟩

/-- What holds of the value at `base` whose blocks `L` are out. -/
def Holds (base : Nat) (h : Heap (InlineBacked w N)) (L : Set (Grant w)) : Prop :=
  BumpArena.Holds (range w N) base (h.map toArena) L

theorem honoursCore (hbase : 0 < base) : HonoursCore (allocator w N) (Holds base) where
  satisfies := fun hh hg => (BumpArena.honoursCore (range_lawful w N) base hbase).satisfies hh hg
  disjoint := fun hh hg hg' hne => hh.disjoint hg hg' hne
  allocate_some := by
    intro h L l b h' hh hcall
    rcases Nat.lt_or_ge maxAlign l.align with hlt | hle
    · have hnone : (none, h) = (some b, h') := (allocate_of_lt hlt).symm.trans hcall
      cases hnone
    · have harena := allocate_toArena (h := h) hle
      rw [show allocate l h = (some b, h') from hcall] at harena
      obtain ⟨hiss, -⟩ := BumpArena.Holds.allocate_some (range_lawful w N) hh harena
      exact ⟨hiss.inv, hiss.fresh, hiss.frame⟩
  allocate_none := by
    intro h L l h' hh hcall
    rcases Nat.lt_or_ge maxAlign l.align with hlt | hle
    · have hsame : (none, h) = (none, h') := (allocate_of_lt hlt).symm.trans hcall
      cases hsame
      exact ⟨hh, fun _ _ => rfl⟩
    · have harena := allocate_toArena (h := h) hle
      rw [show allocate l h = (none, h') from hcall] at harena
      have hun := BumpArena.Holds.allocate_none (range_lawful w N) hh harena
      exact ⟨hun.inv, hun.frame⟩
  deallocate := fun hh _ => ⟨hh.mono Set.sdiff_subset, fun _ _ => rfl⟩
  write := fun hh _ => BumpArena.Holds.congr hh hh.sound le_rfl

/-- **`InlineBacked` meets the `Allocator` contract.** -/
theorem honours (w N : Nat) (hbase : 0 < base) :
    HonoursRange (allocator w N) (range w N) (Holds base) where
  toHonours := (honoursCore hbase).withDefaults rfl rfl fun _ _ heq => by cases heq
  base_le := fun hh hg => (BumpArena.honours (range_lawful w N) base hbase).base_le hh hg
  le_end := fun hh hg => (BumpArena.honours (range_lawful w N) base hbase).le_end hh hg
  base_pos := fun hh => (BumpArena.honours (range_lawful w N) base hbase).base_pos hh
  end_le := fun hh => (BumpArena.honours (range_lawful w N) base hbase).end_le hh
  base_allocate := fun {h _ l} _ => (allocate_frame l h).2
  base_deallocate := fun _ _ => rfl

theorem len_eq (hh : Holds base h L) {g : Grant w} (hg : g ∈ L) :
    g.block.len = g.layout.size := BumpArena.Holds.len_eq hh g hg

theorem ownsRange (w N : Nat) (hbase : 0 < base) :
    OwnsRange (allocator w N) (defaultAllocateZeroed allocate) (range w N) (Holds base) := by
  refine (honours w N hbase).ownsRange (fun {h _} l _ => ?_) (fun _ _ => ⟨rfl, rfl⟩)
    fun _ hh => BumpArena.Holds.congr hh hh.sound le_rfl
  obtain ⟨hmem, haddr⟩ := allocate_frame l h
  exact ⟨congrArg₂ Block.mk haddr rfl, hmem⟩

def component (w N base : Nat) : Component w (InlineBacked w N) :=
  .ofRange (allocator w N) (range w N) (Holds base) (fun _ => none) (fun _ _ => false) ⟨base, N⟩

theorem lawful (w N : Nat) (hbase : 0 < base) : (component w N base).Lawful :=
  (ownsRange w N hbase).lawful_of_exact (honours w N hbase) ⟨base, N⟩ fun hh hg =>
    ⟨rfl, len_eq hh hg⟩

theorem component_fresh {s : InlineBacked w N} (hcursor : s.cursor = 0)
    (hend : s.addr + N < 2 ^ w) (m : Mem) : (component w N s.addr).inv ⟨s, m⟩ ∅ := by
  have hsound : BumpArena.Sound w (range w N) s.addr s.toArena :=
    { base_eq := rfl, end_lt := hend, cursor_le := hcursor.trans_le (Nat.zero_le N) }
  exact ⟨BumpArena.holds_empty hsound m, rfl⟩

/-! ## Moves -/

/-- The value `s` after a move to where `place` is. -/
def movedTo (s place : InlineBacked w N) : InlineBacked w N :=
  s.moveTo place.addr place.addr_pos place.addr_aligned place.inSpace

/-- **A request finds the same offset after a move**, for the alignments that the type asks for. -/
theorem allocate_movedTo (s place : InlineBacked w N) (m : Mem) (l : NonZeroLayout w) :
    allocate l ⟨s.movedTo place, m⟩ =
      ((allocate l ⟨s, m⟩).1.map fun b => ⟨place.addr + (b.ptr - s.addr), b.len⟩,
        ⟨(allocate l ⟨s, m⟩).2.alloc.movedTo place, (allocate l ⟨s, m⟩).2.mem⟩) := by
  rcases Nat.lt_or_ge maxAlign l.align with hlt | hle
  · rw [allocate_of_lt hlt, allocate_of_lt hlt]
    rfl
  · obtain ⟨k, hk, hkw⟩ := l.exists_align
    have hdvd : 2 ^ k ∣ maxAlign := by
      rw [hk] at hle
      have hle' : 2 ^ k ≤ 2 ^ 4 := hle
      have hk4 : k ≤ 4 := (Nat.pow_le_pow_iff_right (by decide)).mp hle'
      exact pow_dvd_pow 2 hk4
    have hN : N < 2 ^ w := by
      have hpos := s.addr_pos
      have hspace := s.inSpace
      omega
    have hbump : chainedBump w (s.movedTo place).addr N (s.movedTo place).cursor l.size l.align =
        chainedBump w s.addr N s.cursor l.size l.align := by
      rw [chainedBump_eq, chainedBump_eq, hk]
      exact bump_eq_of_dvd hkw l.size_pos hN place.inSpace s.inSpace
        (hdvd.trans place.addr_aligned) (hdvd.trans s.addr_aligned)
    rw [allocate, allocate, if_neg (Nat.not_lt.mpr hle), if_neg (Nat.not_lt.mpr hle)]
    split
    case h_1 hmoved =>
        have hnone := hbump.symm.trans hmoved
        split
        case h_1 => rfl
        case h_2 hsome =>
            rw [hnone] at hsome
            cases hsome
    case h_2 off fin hmoved =>
        have hsome := hbump.symm.trans hmoved
        split
        case h_1 hnone =>
            rw [hnone] at hsome
            cases hsome
        case h_2 off' fin' hsome' =>
            obtain ⟨rfl, rfl⟩ : off' = off ∧ fin' = fin := by
              rw [hsome'] at hsome
              cases hsome
              exact ⟨rfl, rfl⟩
            simp only [Option.map_some, Nat.add_sub_cancel_left]
            rfl

end InlineBacked

end ForgeAlloc
