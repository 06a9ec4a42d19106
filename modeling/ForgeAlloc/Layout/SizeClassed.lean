import ForgeAlloc.Layout.UntypedSlab

set_option autoImplicit false

/-! # `SizeClassed`

An array of untyped slabs, one per size class, each with a region of its own in the backing. A
request goes to the smallest class that is at least as large as its size and its alignment
(`pickClass`, by a table of 32 entries); a request no class fits, and one whose class is
exhausted, goes to the backing itself. On the way back a pointer is routed by its address
(`routeDealloc`).

The table is built in two passes. `pickClass_eq_some` and `pickClass_eq_none` say what a look into
it finds.
-/

namespace ForgeAlloc

open MachineInt ByteMemory SlotPool

/-- `DEFAULT_CLASS_SIZES_8`. -/
def defaultClassSizes8 : Fin 8 → Nat := fun i => 2 ^ (i.val + 3)

/-- An entry of `classLookup` is `none` for the sentinel `CLASS_LOOKUP_NONE`. -/
structure SizeClassed (w classes : Nat) (β : Type) where
  backing : β
  classSizes : Fin classes → Nat
  slabs : Fin classes → UntypedSlab
  classLayouts : Fin classes → NonZeroLayout w
  classLookup : Nat → Option (Fin classes)
  regionSizes : Fin classes → Nat

namespace SizeClassed

variable {w n : Nat} {β : Type}

/-- The number of entries of the table. -/
def lookupSize : Nat := 32

/-- The test of the class sizes: powers of two that hold a link, strictly increasing from
`last`. -/
def validSizes (last : Nat) : List Nat → Bool
  | [] => true
  | s :: rest =>
      if s < untypedLinkSize ∨ ¬ s.isPowerOfTwo ∨ s ≤ last then false else validSizes s rest

/-- The first pass over the table: the class `i` at the bit of its size. -/
def markClass (w : Nat) (sizes : Fin n → Nat) (table : Nat → Option (Fin n)) (i : Fin n) :
    Nat → Option (Fin n) :=
  let bit := trailingZeros w (sizes i)
  if bit < lookupSize ∧ table bit = none then Function.update table bit (some i) else table

def markClasses (w : Nat) (sizes : Fin n → Nat) : Nat → Option (Fin n) :=
  (List.finRange n).foldl (markClass w sizes) fun _ => none

/-- The second pass at the entry `k`, with the last class seen above it: an empty entry takes that
class. -/
def fillEntry (acc : (Nat → Option (Fin n)) × Option (Fin n)) (k : Nat) :
    (Nat → Option (Fin n)) × Option (Fin n) :=
  match acc.1 k with
  | some i => (acc.1, some i)
  | none => (Function.update acc.1 k acc.2, acc.2)

def fillGaps (table : Nat → Option (Fin n)) : Nat → Option (Fin n) :=
  ((List.range lookupSize).reverse.foldl fillEntry (table, none)).1

/-- The loop that takes a region for each class; it stops at the first failure. -/
def buildRegions (A : Allocator w β) (R : FixedRange β) (slotsPerClass : Nat) :
    List Nat → Heap β → List (UntypedSlab × NonZeroLayout w) × Heap β
  | [], h => ([], h)
  | stride :: rest, h =>
      match (checkedMul w stride slotsPerClass).bind
          fun total => NonZeroLayout.fromSizeAlign w total stride with
      | none => ([], h)
      | some layout =>
          match A.allocate layout h with
          | (none, h') => ([], h')
          | (some region, h') =>
              let baseOffset := wrappingSub w region.ptr (R.base h'.alloc)
              let (built, h'') := buildRegions A R slotsPerClass rest h'
              ((UntypedSlab.new baseOffset stride slotsPerClass, layout) :: built, h'')

/-- Return the regions to the backing, the last one first. -/
def undo (A : Allocator w β) (R : FixedRange β) (built : List (UntypedSlab × NonZeroLayout w))
    (h : Heap β) : Heap β :=
  built.reverse.foldl
    (fun h (slab, layout) => A.deallocate (R.base h.alloc + slab.baseOffset) layout h) h

/-- `SizeClassed::with_class_sizes`. An error leaves the backing to the caller. -/
def withClassSizes (A : Allocator w β) (R : FixedRange β) (sizes : Fin n → Nat)
    (slotsPerClass : Nat) (h : Heap β) : Except (Heap β) (Heap (SizeClassed w n β)) :=
  if n = 0 ∨ slotsPerClass = 0 then .error h
  else if validSizes 0 (List.ofFn sizes) = false then .error h
  else
    let (built, h') := buildRegions A R slotsPerClass (List.ofFn sizes) h
    if hbuilt : built.length = n then
      -- a class index must fit the table's entries of one byte, with one value to spare
      if 255 < n then .error (undo A R built h')
      else
        let slabs := fun i : Fin n => (built.get (i.cast hbuilt.symm)).1
        .ok ⟨⟨h'.alloc, sizes, slabs, fun i => (built.get (i.cast hbuilt.symm)).2,
          fillGaps (markClasses w sizes),
          fun i => (slabs i).capacity * (slabs i).blockStride⟩, h'.mem⟩
    else .error (undo A R built h')

/-- `with_default_classes`. -/
def withDefaultClasses (A : Allocator w β) (R : FixedRange β) (slotsPerClass : Nat)
    (h : Heap β) : Except (Heap β) (Heap (SizeClassed w 8 β)) :=
  withClassSizes A R defaultClassSizes8 slotsPerClass h

/-- The class for a request, by one look into the table. -/
def pickClass (s : SizeClassed w n β) (size align : Nat) : Option (Fin n) :=
  let req := if align < size then size else align
  if 2 ^ (w - 1) < req then none
  else
    let bit := trailingZeros w (nextPowerOfTwo req)
    if lookupSize ≤ bit then none else s.classLookup bit

/-- The class whose region contains `p`. -/
def routeDealloc (R : FixedRange β) (s : SizeClassed w n β) (p : Nat) : Option (Fin n) :=
  (List.finRange n).find? fun i =>
    wrappingSub w p (wrappingAdd w (R.base s.backing) (s.slabs i).baseOffset) < s.regionSizes i

/-- The value with another slab in the place of the class `i`. -/
def setSlab (s : SizeClassed w n β) (i : Fin n) (slab : UntypedSlab) : SizeClassed w n β :=
  { s with slabs := Function.update s.slabs i slab }

/-- The request goes on to the backing. -/
def allocateBacking (A : Allocator w β) (l : NonZeroLayout w) (h : Heap (SizeClassed w n β)) :
    Option Block × Heap (SizeClassed w n β) :=
  let (r, g) := A.allocate l ⟨h.alloc.backing, h.mem⟩
  (r, ⟨{ h.alloc with backing := g.alloc }, g.mem⟩)

def allocate (A : Allocator w β) (R : FixedRange β) (l : NonZeroLayout w)
    (h : Heap (SizeClassed w n β)) : Option Block × Heap (SizeClassed w n β) :=
  match h.alloc.pickClass l.size l.align with
  | none => allocateBacking A l h
  | some i =>
      match (h.alloc.slabs i).allocateSlot w (R.base h.alloc.backing) h.mem with
      | (some p, slab) => (some ⟨p, h.alloc.classSizes i⟩, ⟨h.alloc.setSlab i slab, h.mem⟩)
      | (none, slab) => allocateBacking A l ⟨h.alloc.setSlab i slab, h.mem⟩

def deallocate (A : Allocator w β) (R : FixedRange β) (ptr : Nat) (l : NonZeroLayout w)
    (h : Heap (SizeClassed w n β)) : Heap (SizeClassed w n β) :=
  match h.alloc.routeDealloc R ptr with
  | some i =>
      let (slab, m) := (h.alloc.slabs i).freeSlot w (R.base h.alloc.backing) ptr h.mem
      ⟨h.alloc.setSlab i slab, m⟩
  | none =>
      let g := A.deallocate ptr l ⟨h.alloc.backing, h.mem⟩
      ⟨{ h.alloc with backing := g.alloc }, g.mem⟩

def usableSize (A : Allocator w β) (R : FixedRange β) (ptr : Nat) (l : NonZeroLayout w)
    (h : Heap (SizeClassed w n β)) : Option Nat :=
  match h.alloc.routeDealloc R ptr with
  | some i => some (h.alloc.classSizes i)
  | none => A.usableSize ptr l ⟨h.alloc.backing, h.mem⟩

/-- `SizeClassed` uses the default resizes. -/
def allocator (A : Allocator w β) (R : FixedRange β) : Allocator w (SizeClassed w n β) where
  allocate := allocate A R
  deallocate := deallocate A R
  grow := defaultGrow (allocate A R) (deallocate A R)
  shrink := defaultShrink (allocate A R) (deallocate A R)
  usableSize := usableSize A R

/-- The part of `corruption_events` that the classes contribute, a sum that saturates at 64
bits. -/
def classCorruption (s : SizeClassed w n β) : Nat :=
  (List.finRange n).foldl (fun acc i => min (acc + (s.slabs i).corruptionEvents) (2 ^ 64 - 1)) 0

/-- `Drop`: every region goes back to the backing under the layout it was requested with. -/
def drop (A : Allocator w β) (R : FixedRange β) (h : Heap (SizeClassed w n β)) : Heap β :=
  (List.finRange n).foldl (fun g i =>
    A.deallocate (R.base g.alloc + (h.alloc.slabs i).baseOffset) (h.alloc.classLayouts i) g)
    ⟨h.alloc.backing, h.mem⟩

/-! ## The class of a request -/

/-- The entry of the table that a request at `k` finds: the first one from `k` on. -/
def firstFrom (table : Nat → Option (Fin n)) (k : Nat) : Option (Fin n) :=
  (List.range' k (lookupSize - k)).findSome? table

theorem firstFrom_of_le {table : Nat → Option (Fin n)} {k : Nat} (hk : lookupSize ≤ k) :
    firstFrom table k = none := by
  unfold firstFrom
  rw [Nat.sub_eq_zero_of_le hk]
  rfl

theorem firstFrom_of_lt {table : Nat → Option (Fin n)} {k : Nat} (hk : k < lookupSize) :
    firstFrom table k = (table k).or (firstFrom table (k + 1)) := by
  unfold firstFrom
  obtain ⟨j, hj⟩ : ∃ j, lookupSize - k = j + 1 := ⟨lookupSize - k - 1, by omega⟩
  have hj' : lookupSize - (k + 1) = j := by omega
  rw [hj, hj', List.range'_succ, List.findSome?_cons]
  cases table k <;> rfl

/-- The second pass has done the entries from `j` on. -/
def FilledFrom (table : Nat → Option (Fin n)) (j : Nat)
    (acc : (Nat → Option (Fin n)) × Option (Fin n)) : Prop :=
  acc.2 = firstFrom table j ∧
    ∀ i, acc.1 i = if j ≤ i ∧ i < lookupSize then firstFrom table i else table i

theorem filledFrom_fillEntry {table : Nat → Option (Fin n)} {j : Nat}
    {acc : (Nat → Option (Fin n)) × Option (Fin n)} (hj : j < lookupSize)
    (h : FilledFrom table (j + 1) acc) : FilledFrom table j (fillEntry acc j) := by
  obtain ⟨hnext, htable⟩ := h
  have hcur : acc.1 j = table j := by rw [htable, if_neg (by omega)]
  have hfirst : firstFrom table j = (table j).or (firstFrom table (j + 1)) := firstFrom_of_lt hj
  unfold fillEntry
  rw [hcur]
  cases hentry : table j with
  | some c =>
      rw [hentry, Option.some_or] at hfirst
      refine ⟨hfirst.symm, fun i => ?_⟩
      show acc.1 i = _
      by_cases hi : i = j
      · subst hi
        rw [hcur, if_pos ⟨le_rfl, hj⟩, hfirst, hentry]
      · rw [htable]
        exact if_congr (by omega) rfl rfl
  | none =>
      rw [hentry, Option.none_or] at hfirst
      refine ⟨hnext.trans hfirst.symm, fun i => ?_⟩
      show Function.update acc.1 j acc.2 i = _
      by_cases hi : i = j
      · subst hi
        rw [Function.update_self, if_pos ⟨le_rfl, hj⟩, hnext, hfirst]
      · rw [Function.update_of_ne hi, htable]
        exact if_congr (by omega) rfl rfl

theorem filledFrom_foldl (table : Nat → Option (Fin n)) :
    ∀ d j, j + d = lookupSize →
      FilledFrom table j ((List.range' j d).reverse.foldl fillEntry (table, none)) := by
  intro d
  induction d with
  | zero =>
      intro j hj
      constructor
      · exact (firstFrom_of_le (by omega)).symm
      · intro i
        rw [if_neg (by omega)]
        rfl
  | succ d ih =>
      intro j hj
      rw [List.range'_succ, List.reverse_cons, List.foldl_append]
      exact filledFrom_fillEntry (by omega) (ih (j + 1) (by omega))

/-- The second pass rounds every entry up to the next marked one. -/
theorem fillGaps_of_lt {table : Nat → Option (Fin n)} {k : Nat} (hk : k < lookupSize) :
    fillGaps table k = firstFrom table k := by
  have hfilled := filledFrom_foldl table lookupSize 0 (Nat.zero_add _)
  rw [← List.range_eq_range'] at hfilled
  exact (hfilled.2 k).trans (if_pos ⟨Nat.zero_le k, hk⟩)

theorem firstFrom_eq_some {table : Nat → Option (Fin n)} {k : Nat} {i : Fin n}
    (h : firstFrom table k = some i) :
    ∃ k', k ≤ k' ∧ k' < lookupSize ∧ table k' = some i ∧ ∀ j, k ≤ j → j < k' → table j = none := by
  induction hd : lookupSize - k generalizing k with
  | zero =>
      rw [firstFrom_of_le (by omega)] at h
      cases h
  | succ d ih =>
      rw [firstFrom_of_lt (by omega)] at h
      cases hentry : table k with
      | some c =>
          rw [hentry, Option.some_or] at h
          refine ⟨k, le_rfl, by omega, hentry.trans h, fun j hj hlt => ?_⟩
          omega
      | none =>
          rw [hentry, Option.none_or] at h
          obtain ⟨k', hle, hlt, heq, hbefore⟩ := ih h (by omega)
          refine ⟨k', by omega, hlt, heq, fun j hj hjk => ?_⟩
          by_cases hjeq : j = k
          · exact hjeq ▸ hentry
          · exact hbefore j (by omega) hjk

theorem firstFrom_eq_none {table : Nat → Option (Fin n)} {k : Nat} (h : firstFrom table k = none) :
    ∀ j, k ≤ j → j < lookupSize → table j = none := by
  intro j hj hlt
  unfold firstFrom at h
  rw [List.findSome?_eq_none_iff] at h
  apply h
  rw [List.mem_range'_1]
  omega

/-- Every entry of the first pass is a class with that bit. -/
theorem markClasses_sound {sizes : Fin n → Nat} {k : Nat} {i : Fin n}
    (h : markClasses w sizes k = some i) : k < lookupSize ∧ trailingZeros w (sizes i) = k := by
  have hloop : ∀ (l : List (Fin n)) (table : Nat → Option (Fin n)),
      (∀ k i, table k = some i → k < lookupSize ∧ trailingZeros w (sizes i) = k) →
      ∀ k i, l.foldl (markClass w sizes) table k = some i →
        k < lookupSize ∧ trailingZeros w (sizes i) = k := by
    intro l
    induction l with
    | nil => exact fun table htable => htable
    | cons c l ih =>
        intro table htable
        apply ih
        intro k i hk
        unfold markClass at hk
        split at hk
        case isTrue hmark =>
            by_cases heq : k = trailingZeros w (sizes c)
            · subst heq
              rw [Function.update_self] at hk
              cases hk
              exact ⟨hmark.1, rfl⟩
            · rw [Function.update_of_ne heq] at hk
              exact htable k i hk
        case isFalse => exact htable k i hk
  refine hloop _ _ ?_ k i h
  intro k i hnone
  cases hnone

/-- Every class whose bit is in the table leaves an entry there. -/
theorem markClasses_ne_none {sizes : Fin n → Nat} (i : Fin n)
    (hbit : trailingZeros w (sizes i) < lookupSize) :
    markClasses w sizes (trailingZeros w (sizes i)) ≠ none := by
  have hkeep : ∀ (l : List (Fin n)) (table : Nat → Option (Fin n)) (k : Nat), table k ≠ none →
      l.foldl (markClass w sizes) table k ≠ none := by
    intro l
    induction l with
    | nil => exact fun table k hk => hk
    | cons c l ih =>
        intro table k hk
        apply ih
        unfold markClass
        split
        · by_cases heq : k = trailingZeros w (sizes c)
          · subst heq
            simp
          · rwa [Function.update_of_ne heq]
        · exact hk
  have hloop : ∀ (l : List (Fin n)) (table : Nat → Option (Fin n)), i ∈ l →
      l.foldl (markClass w sizes) table (trailingZeros w (sizes i)) ≠ none := by
    intro l
    induction l with
    | nil => exact fun table hi => absurd hi List.not_mem_nil
    | cons c l ih =>
        intro table hi
        rcases List.mem_cons.mp hi with rfl | hi
        · show l.foldl (markClass w sizes) (markClass w sizes table i) _ ≠ none
          apply hkeep
          unfold markClass
          split
          · simp
          case isFalse hmark =>
              intro hnone
              exact hmark ⟨hbit, hnone⟩
        · exact ih _ hi
  exact hloop _ _ (List.mem_finRange i)

/-- What construction fixes about the sizes and the table. -/
structure Sized (s : SizeClassed w n β) : Prop where
  pow : ∀ i, ∃ k < w, s.classSizes i = 2 ^ k
  strictMono : StrictMono s.classSizes
  lookup_eq : s.classLookup = fillGaps (markClasses w s.classSizes)

/-- The bit of a class is the exponent of its size. -/
theorem Sized.trailingZeros_eq {s : SizeClassed w n β} (hs : s.Sized) (i : Fin n) :
    s.classSizes i = 2 ^ trailingZeros w (s.classSizes i) := by
  obtain ⟨k, hk, heq⟩ := hs.pow i
  rw [heq, trailingZeros_two_pow hk]

/-- The bit at which a request looks into the table. -/
theorem bit_eq {req : Nat} (hw : 0 < w) (hreq : req ≤ 2 ^ (w - 1)) :
    trailingZeros w (nextPowerOfTwo req) = Nat.clog 2 req := by
  have hclog : Nat.clog 2 req ≤ w - 1 := Nat.clog_le_of_le_pow hreq
  exact trailingZeros_two_pow (by omega)

/-- **`pick_class` finds a class that fits, and the smallest such.** -/
theorem pickClass_eq_some {s : SizeClassed w n β} (hs : s.Sized) (hw : 0 < w)
    {size align : Nat} {i : Fin n} (h : s.pickClass size align = some i) :
    max size align ≤ s.classSizes i ∧ ∀ j, max size align ≤ s.classSizes j → i ≤ j := by
  have hreq : (if align < size then size else align) = max size align := by
    rw [max_def]
    split <;> split <;> omega
  simp only [pickClass, hreq] at h
  split at h
  · cases h
  case isFalse hle =>
      rw [bit_eq hw (by omega)] at h
      split at h
      · cases h
      case isFalse hbit =>
          rw [hs.lookup_eq, fillGaps_of_lt (by omega)] at h
          obtain ⟨k, hk, hlt, hmark, hbefore⟩ := firstFrom_eq_some h
          have hbit_i := (markClasses_sound hmark).2
          have hsize_i : s.classSizes i = 2 ^ k := hbit_i ▸ hs.trailingZeros_eq i
          constructor
          · rw [hsize_i]
            calc max size align ≤ 2 ^ Nat.clog 2 (max size align) := le_nextPowerOfTwo _
              _ ≤ 2 ^ k := Nat.pow_le_pow_right (by decide) hk
          · -- a smaller class that fits would have left an entry below
            intro j hj
            by_contra hlt'
            have hji : s.classSizes j < s.classSizes i := hs.strictMono (not_le.mp hlt')
            have hsize_j := hs.trailingZeros_eq j
            have hlow : Nat.clog 2 (max size align) ≤ trailingZeros w (s.classSizes j) :=
              Nat.clog_le_of_le_pow (hsize_j ▸ hj)
            have hhigh : trailingZeros w (s.classSizes j) < k := by
              rw [hsize_j, hsize_i] at hji
              exact (Nat.pow_lt_pow_iff_right (by decide)).mp hji
            exact markClasses_ne_none j (by omega) (hbefore _ hlow hhigh)

/-- A request that gets no class fits none of those the table reaches. -/
theorem pickClass_eq_none {s : SizeClassed w n β} (hs : s.Sized) (hw : 0 < w) {size align : Nat}
    (h : s.pickClass size align = none) (i : Fin n) (hi : s.classSizes i < 2 ^ lookupSize) :
    s.classSizes i < max size align := by
  by_contra hle
  have hsize := hs.trailingZeros_eq i
  have hreq : (if align < size then size else align) = max size align := by
    rw [max_def]
    split <;> split <;> omega
  obtain ⟨k, hk, hpow⟩ := hs.pow i
  have hbound : max size align ≤ 2 ^ (w - 1) := by
    calc max size align ≤ 2 ^ k := hpow ▸ not_lt.mp hle
      _ ≤ 2 ^ (w - 1) := Nat.pow_le_pow_right (by decide) (by omega)
  have hbit_i : trailingZeros w (s.classSizes i) < lookupSize := by
    rw [hsize] at hi
    exact (Nat.pow_lt_pow_iff_right (by decide)).mp hi
  have hlow : Nat.clog 2 (max size align) ≤ trailingZeros w (s.classSizes i) :=
    Nat.clog_le_of_le_pow (hsize ▸ not_lt.mp hle)
  simp only [pickClass, hreq] at h
  rw [if_neg (by omega), bit_eq hw hbound, if_neg (by omega), hs.lookup_eq,
    fillGaps_of_lt (by omega)] at h
  exact markClasses_ne_none i hbit_i (firstFrom_eq_none h _ hlow hbit_i)

/-- A result that was evaluated as an option. -/
theorem ok_of_toOption {ε α : Type} {x : Except ε α} {a : α} (h : x.toOption = some a) :
    x = .ok a := by
  cases x with
  | error e => cases h
  | ok b =>
      cases h
      rfl

end SizeClassed

end ForgeAlloc
