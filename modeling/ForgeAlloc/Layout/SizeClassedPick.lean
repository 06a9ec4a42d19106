import ForgeAlloc.Layout.SizeClassedBacking
import ForgeAlloc.Layout.Bump

set_option autoImplicit false

/-! # The table of `SizeClassed` against a linear search

`linearPick` goes through the classes in order and takes the first that is at least the size and
the alignment. `pick_class` looks into a table with an entry for each power of two below `2^32`.

The two agree on a request exactly when the smallest class that fits, if there is one, is below
`2^32`: a larger class leaves no entry in the table. So they agree on all requests exactly when all
classes are that small (`pickClass_eq_linearPick_iff`), which is always so on a target whose
addresses have 32 bits. A class of 4 GiB on a 64-bit target gets its region and is never used.

Nothing here depends on what the backing does.
-/

namespace ForgeAlloc

open MachineInt ByteMemory

namespace SizeClassed

variable {w n : Nat} {β : Type}

/-- The linear search. -/
def linearPick (sizes : Fin n → Nat) (size align : Nat) : Option (Fin n) :=
  (List.finRange n).find? fun i => size ≤ sizes i ∧ align ≤ sizes i

/-- The class is large enough for the request. -/
def FitsClass (sizes : Fin n → Nat) (size align : Nat) (i : Fin n) : Prop :=
  max size align ≤ sizes i

variable {sizes : Fin n → Nat} {size align : Nat} {i : Fin n}

theorem fitsClass_iff : FitsClass sizes size align i ↔ size ≤ sizes i ∧ align ≤ sizes i := max_le_iff

/-! ## The linear search -/

theorem linearPick_eq_none_iff :
    linearPick sizes size align = none ↔ ∀ i, ¬ FitsClass sizes size align i := by
  simp only [linearPick, List.find?_eq_none, decide_eq_true_eq, fitsClass_iff, List.mem_finRange,
    true_imp_iff]

theorem linearPick_spec (h : linearPick sizes size align = some i) :
    FitsClass sizes size align i ∧ ∀ j, FitsClass sizes size align j → i ≤ j := by
  have hfits := List.find?_some h
  rw [decide_eq_true_eq, ← fitsClass_iff] at hfits
  refine ⟨hfits, fun j hj => ?_⟩
  obtain ⟨-, before, after, hsplit, hbefore⟩ := List.find?_eq_some_iff_append.mp h
  by_contra hlt
  -- a smaller class stands before `i` in the list
  have hmem : j ∈ before := by
    have hsorted := List.pairwise_lt_finRange n
    rw [hsplit, List.pairwise_append] at hsorted
    have hall : j ∈ before ++ i :: after := hsplit ▸ List.mem_finRange j
    rcases List.mem_append.mp hall with hj' | hj'
    · exact hj'
    · rcases List.mem_cons.mp hj' with rfl | hj'
      · exact absurd le_rfl hlt
      · exact absurd ((List.pairwise_cons.mp hsorted.2.1).1 j hj').le hlt
  have hnot := hbefore j hmem
  rw [Bool.not_eq_true', decide_eq_false_iff_not, ← fitsClass_iff] at hnot
  exact hnot hj

/-- The search finds the smallest class that fits. -/
theorem linearPick_eq_some_iff : linearPick sizes size align = some i ↔
    FitsClass sizes size align i ∧ ∀ j, FitsClass sizes size align j → i ≤ j := by
  refine ⟨linearPick_spec, ?_⟩
  rintro ⟨hfits, hleast⟩
  rcases hsearch : linearPick sizes size align with _ | j
  · exact absurd hfits (linearPick_eq_none_iff.mp hsearch i)
  · obtain ⟨hfits', hleast'⟩ := linearPick_spec hsearch
    rw [le_antisymm (hleast j hfits') (hleast' i hfits)]

/-! ## The table -/

variable {s : SizeClassed w n β}

/-- Only a class below `2^32` is ever picked. -/
theorem pickClass_lt (hs : s.Sized) (h : s.pickClass size align = some i) :
    s.classSizes i < 2 ^ lookupSize := by
  simp only [pickClass] at h
  generalize (if align < size then size else align) = req at h
  split at h
  · cases h
  split at h
  · cases h
  case isFalse hbit =>
      rw [hs.lookup_eq, fillGaps_of_lt (by omega)] at h
      obtain ⟨k, -, hlt, hmark, -⟩ := firstFrom_eq_some h
      have hsize := hs.trailingZeros_eq i
      rw [(markClasses_sound hmark).2] at hsize
      rw [hsize]
      exact Nat.pow_lt_pow_right (by decide) hlt

/-- A request for which the table and the search agree. -/
theorem pickClass_eq_linearPick_at (hs : s.Sized) (hw : 0 < w) (size align : Nat) :
    s.pickClass size align = linearPick s.classSizes size align ↔
      ((∃ i, FitsClass s.classSizes size align i) →
        ∃ i, FitsClass s.classSizes size align i ∧ s.classSizes i < 2 ^ lookupSize) := by
  constructor
  · rintro hagree ⟨i, hi⟩
    rcases hpick : s.pickClass size align with _ | j
    · rw [hpick] at hagree
      exact absurd hi (linearPick_eq_none_iff.mp hagree.symm i)
    · rw [hpick] at hagree
      exact ⟨j, (linearPick_spec hagree.symm).1, pickClass_lt hs hpick⟩
  · intro hsmall
    rcases hpick : s.pickClass size align with _ | i
    · refine (linearPick_eq_none_iff.mpr fun i hi => ?_).symm
      obtain ⟨j, hj, hlt⟩ := hsmall ⟨i, hi⟩
      exact absurd hj (Nat.not_le.mpr (pickClass_eq_none hs hw hpick j hlt))
    · exact (linearPick_eq_some_iff.mpr (pickClass_eq_some hs hw hpick)).symm

/-! ## What construction accepts -/

/-- Every region that was taken has a layout of the size and the alignment of its class. -/
theorem buildRegions_layouts (A : Allocator w β) (R : FixedRange β) (slots : Nat) :
    ∀ (sizes : List Nat) (h : Heap β), ∃ k,
      ((buildRegions A R slots sizes h).1.map fun e => (e.2.size, e.2.align)) =
        (sizes.take k).map fun stride => (stride * slots, stride) := by
  intro sizes
  induction sizes with
  | nil => exact fun _ => ⟨0, rfl⟩
  | cons stride rest ih =>
      intro h
      rw [buildRegions]
      split
      case h_1 => exact ⟨0, rfl⟩
      case h_2 layout hlayout =>
          simp only [Option.bind_eq_some_iff, checkedMul_eq_some] at hlayout
          obtain ⟨total, ⟨-, rfl⟩, hlayout⟩ := hlayout
          obtain ⟨hsize, halign⟩ := NonZeroLayout.fromSizeAlign_eq_some.mp hlayout
          split
          case h_1 => exact ⟨0, rfl⟩
          case h_2 region h' _ =>
              obtain ⟨k, hk⟩ := ih h'
              refine ⟨k + 1, ?_⟩
              rw [List.take_succ_cons, List.map_cons, List.map_cons, hsize, halign, ← hk]

/-- Construction has checked the sizes and filled the table; every class is the alignment of a
layout whose size is a multiple of it. -/
theorem sized_of_withClassSizes {A : Allocator w β} {R : FixedRange β} {slots : Nat} {g : Heap β}
    {h : Heap (SizeClassed w n β)} (hnew : withClassSizes A R sizes slots g = .ok h) :
    0 < n ∧ h.alloc.Sized ∧ h.alloc.classSizes = sizes ∧
      ∀ i, ∃ l : NonZeroLayout w, sizes i ≤ l.size ∧ l.align = sizes i := by
  unfold withClassSizes at hnew
  split at hnew
  · cases hnew
  case isFalse hpos =>
  split at hnew
  · cases hnew
  case isFalse hvalid =>
  obtain ⟨k, hlayouts⟩ := buildRegions_layouts A R slots (List.ofFn sizes) g
  rcases hbuild : buildRegions A R slots (List.ofFn sizes) g with ⟨built, h₁⟩
  rw [hbuild] at hnew hlayouts
  simp only at hnew
  split at hnew
  case isFalse => cases hnew
  case isTrue hlen =>
  split at hnew
  · cases hnew
  cases hnew
  rw [Bool.not_eq_false] at hvalid
  obtain ⟨hall, hchain⟩ := validSizes_spec hvalid
  -- every class was built, so no size is left out
  have htake : (List.ofFn sizes).take k = List.ofFn sizes := by
    have hlength := congrArg List.length hlayouts
    rw [List.length_map, hlen, List.length_map, List.length_take, List.length_ofFn] at hlength
    exact List.take_of_length_le (by rw [List.length_ofFn]; omega)
  have hlayout : ∀ i : Fin n, ∃ l : NonZeroLayout w, l.size = sizes i * slots ∧ l.align = sizes i := by
    intro i
    have hget := congrArg (fun l => l[i.val]?) hlayouts
    rw [htake] at hget
    simp [hlen] at hget
    exact ⟨_, hget⟩
  have hmono : StrictMono sizes := by
    have hpair := (List.isChain_iff_pairwise.mp hchain).of_cons
    rw [List.pairwise_ofFn] at hpair
    exact fun i j hij => hpair hij
  refine ⟨by omega, ⟨fun i => ?_, hmono, rfl⟩, rfl, fun i => ?_⟩
  · obtain ⟨k, hk⟩ := (hall (sizes i) (List.mem_ofFn.mpr ⟨i, rfl⟩)).2
    obtain ⟨l, hsize, -⟩ := hlayout i
    refine ⟨k, ?_, hk⟩
    have hlt := l.size_lt
    rw [hsize, hk] at hlt
    have hle : 2 ^ k ≤ 2 ^ k * slots := Nat.le_mul_of_pos_right _ (by omega)
    exact (Nat.pow_lt_pow_iff_right (by decide)).mp (hle.trans_lt hlt)
  · obtain ⟨l, hsize, halign⟩ := hlayout i
    exact ⟨l, hsize ▸ Nat.le_mul_of_pos_right _ (by omega), halign⟩

/-- Addresses of 32 bits leave no room for a class that the table does not reach. -/
theorem Sized.lt_of_width (hs : s.Sized) (hw : w ≤ lookupSize) (i : Fin n) :
    s.classSizes i < 2 ^ lookupSize := by
  obtain ⟨k, hk, hsize⟩ := hs.pow i
  rw [hsize]
  exact Nat.pow_lt_pow_right (by decide) (hk.trans_le hw)

/-- **When `pick_class` is the linear search.** For every accepted class set, the search finds the
smallest class that is at least the size and the alignment of a request, and none when there is
none. The table gives the same answer for a request exactly when a class below `2^32` fits or no
class does, and for all requests exactly when every class is below `2^32`; with addresses of at
most 32 bits every class is. -/
theorem pickClass_eq_linearPick_iff {A : Allocator w β} {R : FixedRange β} {slots : Nat}
    {g : Heap β} {h : Heap (SizeClassed w n β)}
    (hnew : withClassSizes A R sizes slots g = .ok h) :
    (∀ l : NonZeroLayout w,
      (linearPick sizes l.size l.align = none ↔ ∀ i, sizes i < max l.size l.align) ∧
      (∀ i, linearPick sizes l.size l.align = some i ↔
        max l.size l.align ≤ sizes i ∧ ∀ j, max l.size l.align ≤ sizes j → i ≤ j) ∧
      (h.alloc.pickClass l.size l.align = linearPick sizes l.size l.align ↔
        ((∃ i, max l.size l.align ≤ sizes i) →
          ∃ i, max l.size l.align ≤ sizes i ∧ sizes i < 2 ^ lookupSize))) ∧
    ((∀ l : NonZeroLayout w,
        h.alloc.pickClass l.size l.align = linearPick sizes l.size l.align) ↔
      ∀ i, sizes i < 2 ^ lookupSize) ∧
    (w ≤ lookupSize → ∀ i, sizes i < 2 ^ lookupSize) := by
  obtain ⟨hn, hs, rfl, hlayout⟩ := sized_of_withClassSizes hnew
  obtain ⟨l₀, -⟩ := hlayout ⟨0, hn⟩
  have hw : 0 < w := l₀.width_pos
  refine ⟨fun l => ⟨?_, fun i => linearPick_eq_some_iff, pickClass_eq_linearPick_at hs hw _ _⟩, ?_,
    hs.lt_of_width⟩
  · rw [linearPick_eq_none_iff]
    exact forall_congr' fun i => Nat.not_le
  constructor
  · intro hagree i
    -- a request of the size of the class
    obtain ⟨l, hle, halign⟩ := hlayout i
    have hpos : 0 < h.alloc.classSizes i := halign ▸ l.align_pos
    let l' : NonZeroLayout w :=
      ⟨h.alloc.classSizes i, 1, hpos, Nat.isPowerOfTwo_one, by have := l.bound; omega⟩
    obtain ⟨j, hj, hlt⟩ :=
      (pickClass_eq_linearPick_at hs hw _ _).mp (hagree l') ⟨i, max_le le_rfl hpos⟩
    exact (le_max_left _ _).trans hj |>.trans_lt hlt
  · intro hsmall l
    exact (pickClass_eq_linearPick_at hs hw _ _).mpr fun ⟨i, hi⟩ => ⟨i, hi, hsmall i⟩

/-- A region of 8 GiB at the address 4 GiB. -/
def region8GiB : FixedRange Unit := ⟨fun _ => 2 ^ 32, fun _ => 2 ^ 33, fun _ _ u => (true, u)⟩

/-- One class of 4 GiB. -/
def class4GiB : Fin 1 → Nat := fun _ => 2 ^ 32

/-- **A class of 4 GiB is never picked**: a request of 8 bytes fits it and gets no class. -/
theorem pickClass_class4GiB :
    ∃ h, withClassSizes (BumpArena.allocator 64 region8GiB) (BumpArena.range region8GiB) class4GiB 1
        ⟨⟨(), 2 ^ 33, 0⟩, fun _ => 0⟩ = .ok h ∧
      h.alloc.pickClass 8 8 = none ∧ linearPick h.alloc.classSizes 8 8 = some 0 := by
  refine ⟨_, rfl, ?_, ?_⟩
  · decide +kernel
  · decide +kernel

theorem pickClass_eq_linearPick_iff_class4GiB :
    ∃ h, withClassSizes (BumpArena.allocator 64 region8GiB) (BumpArena.range region8GiB) class4GiB 1
        ⟨⟨(), 2 ^ 33, 0⟩, fun _ => 0⟩ = .ok h ∧
      ¬ ∀ l : NonZeroLayout 64, h.alloc.pickClass l.size l.align =
        linearPick class4GiB l.size l.align := by
  refine ⟨_, rfl, fun hagree => ?_⟩
  have hnew : withClassSizes (BumpArena.allocator 64 region8GiB) (BumpArena.range region8GiB)
      class4GiB 1 ⟨⟨(), 2 ^ 33, 0⟩, fun _ => 0⟩ = .ok _ := rfl
  have hlt := (pickClass_eq_linearPick_iff hnew).2.1.mp hagree 0
  exact absurd hlt (lt_irrefl _)

end SizeClassed

end ForgeAlloc
