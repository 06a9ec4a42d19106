import ForgeAlloc.Core.Allocator
import ForgeAlloc.Library.Threaded

set_option autoImplicit false

/-! # `GenerationalSlab`

Slots that hold a value or a freelist link, each with a generation counter. A handle is a slot
index with the generation at the time of the insertion; it resolves while the generations agree.
`remove` advances the generation, so that the handle goes stale, and retires a slot whose counter
has come back to zero: such a slot is left off the freelist.

`remove` looks at the generation before it advances the counter, but at the occupancy only after
it has pushed the slot. For a vacant slot whose generation the handle has, it answers `None` and
has changed the slab (`remove_none_iff`). `Vacant` is that case.

`GenerationalSlab.Refines s p` says that the slab represents the pool `p`.
-/

namespace ForgeAlloc

open MachineInt SlotPool Linked

/-! ## The model -/

/-- `GenerationInt`: a counter of `bits` bits, `u32` or `u64` in the crate. -/
structure GenerationInt where
  bits : Nat
  bits_pos : 0 < bits

/-- The increment, from the largest value back to zero. -/
def GenerationInt.wrappingInc (G : GenerationInt) (g : Nat) : Nat := wrappingAdd G.bits g 1

structure Handle where
  index : Nat
  generation : Nat
  deriving DecidableEq

inductive SlotState (α : Type)
  | occupied (v : α)
  | free (nextFree : Option Nat)

structure GenerationalSlot (α : Type) where
  generation : Nat
  state : SlotState α

/-- The slots are the array at `slotsOffset` from the base of the backing. -/
structure GenerationalSlab (w : Nat) (α β : Type) where
  backing : β
  slotsOffset : Nat
  capacity : Nat
  freeHead : Option Nat
  /-- The number of slots ever used. -/
  len : Nat
  backingLayout : NonZeroLayout w
  slots : Nat → GenerationalSlot α

namespace GenerationalSlab

variable {w : Nat} {α β : Type} {G : GenerationInt}

/-- `GenerationalSlab::with_generation`, for a slot type of layout `S`. -/
def withGeneration (A : Allocator w β) (R : FixedRange β) (S : RustType w) (capacity : Nat)
    (h : Heap β) : Option (GenerationalSlab w α β) :=
  if capacity = 0 then none
  else if 2 ^ 32 ≤ capacity then none
  else do
    let layout ← NonZeroLayout.array S capacity
    match A.allocate layout h with
    | (none, _) => none
    | (some block, h') =>
        let slotsOffset := wrappingSub w block.ptr (R.base h'.alloc)
        some ⟨h'.alloc, slotsOffset, capacity, none, 0, layout, fun _ => ⟨0, .free none⟩⟩

/-- The address of the slot `idx`. -/
def slotPtr (R : FixedRange β) (S : RustType w) (s : GenerationalSlab w α β) (idx : Nat) : Nat :=
  R.base s.backing + s.slotsOffset + idx * S.size

def setSlot (s : GenerationalSlab w α β) (i : Nat) (slot : GenerationalSlot α) :
    GenerationalSlab w α β :=
  { s with slots := Function.update s.slots i slot }

def insert (v : α) (s₀ : GenerationalSlab w α β) : Option Handle × GenerationalSlab w α β :=
  -- a head outside the array is dropped
  let s := match s₀.freeHead with
    | some idx => if s₀.capacity ≤ idx then { s₀ with freeHead := none } else s₀
    | none => s₀
  match s.freeHead with
  | some idx =>
      match (s.slots idx).state with
      | .free nextFree =>
          (some ⟨idx, (s.slots idx).generation⟩,
            { s with freeHead := nextFree }.setSlot idx
              ⟨(s.slots idx).generation, .occupied v⟩)
      | .occupied _ => (none, s)
  | none =>
      if s.capacity ≤ s.len then (none, s)
      else
        (some ⟨s.len, (s.slots s.len).generation⟩,
          { s with len := s.len + 1 }.setSlot s.len
            ⟨(s.slots s.len).generation, .occupied v⟩)

def get (h : Handle) (s : GenerationalSlab w α β) : Option α :=
  if s.capacity ≤ h.index then none
  else if (s.slots h.index).generation ≠ h.generation then none
  else
    match (s.slots h.index).state with
    | .occupied v => some v
    | .free _ => none

/-- `get_mut`, together with what the caller does to the value: `f` is applied to it. -/
def getMut (h : Handle) (f : α → α) (s : GenerationalSlab w α β) :
    Option α × GenerationalSlab w α β :=
  if s.capacity ≤ h.index then (none, s)
  else if (s.slots h.index).generation ≠ h.generation then (none, s)
  else
    match (s.slots h.index).state with
    | .occupied v =>
        (some v, s.setSlot h.index ⟨(s.slots h.index).generation, .occupied (f v)⟩)
    | .free _ => (none, s)

def contains (h : Handle) (s : GenerationalSlab w α β) : Bool := (s.get h).isSome

def remove (G : GenerationInt) (h : Handle) (s : GenerationalSlab w α β) :
    Option α × GenerationalSlab w α β :=
  if s.capacity ≤ h.index then (none, s)
  else
    let slot := s.slots h.index
    if slot.generation ≠ h.generation then (none, s)
    else
      let nextGen := G.wrappingInc slot.generation
      let s' :=
        -- a wrapped counter retires the slot, any other value pushes it
        if nextGen = 0 then s.setSlot h.index ⟨nextGen, .free none⟩
        else { s with freeHead := some h.index }.setSlot h.index ⟨nextGen, .free s.freeHead⟩
      match slot.state with
      | .occupied v => (some v, s')
      | .free _ => (none, s')

/-- The loop of `drop` over the slots `is`: the values dropped, each with its slot. -/
def dropSlots : List Nat → GenerationalSlab w α β → List (Nat × α) × GenerationalSlab w α β
  | [], s => ([], s)
  | i :: is, s =>
      match (s.slots i).state with
      | .occupied v =>
          let (vs, s') := dropSlots is (s.setSlot i ⟨(s.slots i).generation, .free none⟩)
          ((i, v) :: vs, s')
      | .free _ => dropSlots is s

/-- `Drop for GenerationalSlab`, when no value panics while it is dropped: the values dropped, each
with its slot, and the backing with the slots returned to it. -/
def drop (A : Allocator w β) (R : FixedRange β) (S : RustType w)
    (h : Heap (GenerationalSlab w α β)) : List (Nat × α) × Heap β :=
  let (vs, s) := dropSlots (List.range h.alloc.capacity) h.alloc
  (vs, A.deallocate (s.slotPtr R S 0) s.backingLayout ⟨s.backing, h.mem⟩)

/-- The handle names a slot that holds no value and has the handle's generation. -/
def Vacant (s : GenerationalSlab w α β) (h : Handle) : Prop :=
  h.index < s.capacity ∧ (s.slots h.index).generation = h.generation ∧
    ∃ nextFree, (s.slots h.index).state = .free nextFree

/-- The handle names a slot that holds the value `v` and has the handle's generation. -/
def Resolves (s : GenerationalSlab w α β) (h : Handle) (v : α) : Prop :=
  h.index < s.capacity ∧ (s.slots h.index).generation = h.generation ∧
    (s.slots h.index).state = .occupied v

/-! ## One operation -/

variable {s s' : GenerationalSlab w α β} {h : Handle} {v : α}

theorem wrappingInc_ne (g : Nat) : G.wrappingInc g ≠ g := by
  intro heq
  have hpos : 1 < 2 ^ G.bits := Nat.one_lt_two_pow (Nat.pos_iff_ne_zero.mp G.bits_pos)
  unfold GenerationInt.wrappingInc wrappingAdd at heq
  have hdiv := Nat.div_add_mod (g + 1) (2 ^ G.bits)
  rw [heq] at hdiv
  -- a difference of one would be a multiple of the period
  have hone : 2 ^ G.bits * ((g + 1) / 2 ^ G.bits) = 1 := by omega
  have := Nat.eq_one_of_mul_eq_one_right hone
  omega

theorem wrappingInc_lt (g : Nat) : G.wrappingInc g < 2 ^ G.bits :=
  Nat.mod_lt _ (Nat.two_pow_pos _)

/-- Short of the wrap the counter counts. -/
theorem wrappingInc_of_ne_zero {g : Nat} (hg : g < 2 ^ G.bits) (hne : G.wrappingInc g ≠ 0) :
    G.wrappingInc g = g + 1 := by
  unfold GenerationInt.wrappingInc at hne ⊢
  by_cases hlt : g + 1 < 2 ^ G.bits
  · exact wrappingAdd_of_lt hlt
  · have heq : g + 1 = 2 ^ G.bits := by omega
    rw [wrappingAdd, heq, Nat.mod_self] at hne
    exact absurd rfl hne

theorem get_eq_some_iff : s.get h = some v ↔ s.Resolves h v := by
  unfold get Resolves
  constructor
  · intro heq
    split at heq
    · cases heq
    split at heq
    · cases heq
    case isFalse hlt hgen =>
        split at heq
        case h_1 u hu =>
            cases heq
            exact ⟨by omega, not_not.mp hgen, hu⟩
        case h_2 => cases heq
  · rintro ⟨hlt, hgen, hstate⟩
    rw [if_neg (by omega), if_neg (not_not.mpr hgen), hstate]

/-- What `remove` does to the slab when the generations agree. -/
def removed (G : GenerationInt) (s : GenerationalSlab w α β) (i : Nat) :
    GenerationalSlab w α β :=
  let nextGen := G.wrappingInc (s.slots i).generation
  if nextGen = 0 then s.setSlot i ⟨nextGen, .free none⟩
  else { s with freeHead := some i }.setSlot i ⟨nextGen, .free s.freeHead⟩

theorem removed_of_wrap {i : Nat} (hwrap : G.wrappingInc (s.slots i).generation = 0) :
    s.removed G i = s.setSlot i ⟨G.wrappingInc (s.slots i).generation, .free none⟩ := by
  simp only [removed, if_pos hwrap]

theorem removed_of_not_wrap {i : Nat} (hwrap : G.wrappingInc (s.slots i).generation ≠ 0) :
    s.removed G i = { s with freeHead := some i }.setSlot i
      ⟨G.wrappingInc (s.slots i).generation, .free s.freeHead⟩ := by
  simp only [removed, if_neg hwrap]

/-- Of the slots only the one removed from changes: its counter advances and it is vacant. -/
theorem removed_slots (s : GenerationalSlab w α β) (i : Nat) : ∃ nextFree,
    (s.removed G i).slots =
      Function.update s.slots i ⟨G.wrappingInc (s.slots i).generation, .free nextFree⟩ := by
  by_cases hwrap : G.wrappingInc (s.slots i).generation = 0
  · exact ⟨none, by rw [removed_of_wrap hwrap]; rfl⟩
  · exact ⟨s.freeHead, by rw [removed_of_not_wrap hwrap]; rfl⟩

theorem remove_of_resolves (hr : s.Resolves h v) :
    s.remove G h = (some v, s.removed G h.index) := by
  obtain ⟨hlt, hgen, hstate⟩ := hr
  simp only [remove]
  rw [if_neg (by omega), if_neg (not_not.mpr hgen), hstate]
  rfl

theorem remove_of_vacant (hv : s.Vacant h) : s.remove G h = (none, s.removed G h.index) := by
  obtain ⟨hlt, hgen, nextFree, hstate⟩ := hv
  simp only [remove]
  rw [if_neg (by omega), if_neg (not_not.mpr hgen), hstate]
  rfl

theorem remove_of_stale (hstale : s.capacity ≤ h.index ∨
    (s.slots h.index).generation ≠ h.generation) : s.remove G h = (none, s) := by
  simp only [remove]
  split
  · rfl
  case isFalse hlt => rw [if_pos (by omega)]

/-- A handle is out of range or stale, resolves, or names a vacant slot. -/
theorem handle_cases (s : GenerationalSlab w α β) (h : Handle) :
    (s.capacity ≤ h.index ∨ (s.slots h.index).generation ≠ h.generation) ∨
      (∃ v, s.Resolves h v) ∨ s.Vacant h := by
  by_cases hlt : h.index < s.capacity
  · by_cases hgen : (s.slots h.index).generation = h.generation
    · right
      rcases hstate : (s.slots h.index).state with v | nextFree
      · exact Or.inl ⟨v, hlt, hgen, hstate⟩
      · exact Or.inr ⟨hlt, hgen, nextFree, hstate⟩
    · exact Or.inl (Or.inr hgen)
  · exact Or.inl (Or.inl (by omega))

theorem removed_ne (i : Nat) : s.removed G i ≠ s := by
  intro heq
  -- the generation of the slot has moved on
  obtain ⟨nextFree, hslots⟩ := removed_slots (G := G) s i
  rw [heq] at hslots
  have hgen := congrArg (fun f => (f i).generation) hslots
  simp only [Function.update_self] at hgen
  exact wrappingInc_ne _ hgen.symm

/-- **When a failed `remove` changes nothing**: exactly when its handle does not name a vacant
slot of its own generation. -/
theorem remove_none_iff : ((s.remove G h).1 = none → (s.remove G h).2 = s) ↔ ¬ s.Vacant h := by
  constructor
  · intro himp hv
    rw [remove_of_vacant hv] at himp
    exact removed_ne _ (himp rfl)
  · intro hnot hnone
    rcases handle_cases s h with hstale | ⟨v, hres⟩ | hv
    · rw [remove_of_stale hstale]
    · rw [remove_of_resolves hres] at hnone
      cases hnone
    · exact absurd hv hnot

/-! ## The slab represents a pool -/

variable {n : Nat} {p : Pool n}

/-- The link a slot stores, as a number. -/
def nextLink (s : GenerationalSlab w α β) (i : Nat) : Nat :=
  match (s.slots i).state with
  | .free nextFree => toLink nextFree
  | .occupied _ => 0

structure Refines (G : GenerationInt) (s : GenerationalSlab w α β) (p : Pool n) : Prop where
  capacity_eq : s.capacity = n
  threaded : Threaded s.nextLink (toLink s.freeHead) s.len p
  occupied : ∀ i ∈ p.live, ∃ v, (s.slots i).state = .occupied v
  vacant : ∀ i, i ∉ p.live → ∃ nextFree, (s.slots i).state = .free nextFree
  gen_lt : ∀ i, (s.slots i).generation < 2 ^ G.bits

theorem Refines.mem_live_iff (hr : Refines G s p) {i : Nat} :
    i ∈ p.live ↔ ∃ v, (s.slots i).state = .occupied v := by
  constructor
  · exact hr.occupied i
  · rintro ⟨v, hv⟩
    by_contra hnot
    obtain ⟨nextFree, hfree⟩ := hr.vacant i hnot
    rw [hv] at hfree
    cases hfree

theorem Refines.not_mem_live_iff (hr : Refines G s p) {i : Nat} :
    i ∉ p.live ↔ ∃ nextFree, (s.slots i).state = .free nextFree := by
  refine ⟨hr.vacant i, ?_⟩
  rintro ⟨nextFree, hfree⟩ hmem
  obtain ⟨v, hv⟩ := hr.occupied i hmem
  rw [hfree] at hv
  cases hv

theorem Refines.mem_live_of_resolves (hr : Refines G s p) (h' : s.Resolves h v) :
    h.index ∈ p.live := hr.mem_live_iff.mpr ⟨v, h'.2.2⟩

theorem nextLink_setSlot_of_ne {i j : Nat} {slot : GenerationalSlot α} (hne : j ≠ i) :
    (s.setSlot i slot).nextLink j = s.nextLink j := by
  simp only [nextLink, setSlot, Function.update_of_ne hne]

/-- A fresh slab: no slot is carved, and every slot is vacant with generation zero. -/
theorem withGeneration_some {A : Allocator w β} {R : FixedRange β} {S : RustType w}
    {g : Heap β} (hnew : withGeneration A R S n g = some s) :
    s.capacity = n ∧ s.freeHead = none ∧ s.len = 0 ∧ ∀ i, s.slots i = ⟨0, .free none⟩ := by
  unfold withGeneration at hnew
  split at hnew
  · cases hnew
  split at hnew
  · cases hnew
  simp only [Option.bind_eq_bind, Option.bind_eq_some_iff] at hnew
  obtain ⟨layout, -, hblock⟩ := hnew
  split at hblock
  · cases hblock
  · cases hblock
    exact ⟨rfl, rfl, rfl, fun _ => rfl⟩

theorem withGeneration_refines {A : Allocator w β} {R : FixedRange β} {S : RustType w}
    {g : Heap β} (hnew : withGeneration A R S n g = some s) :
    Refines G s (Pool.empty n) ∧ s.freeHead = none ∧ s.len = 0 := by
  obtain ⟨hcap, hhead, hlen, hslots⟩ := withGeneration_some hnew
  refine ⟨⟨hcap, ?_, fun i hi => ?_, fun i _ => ?_, fun i => ?_⟩, hhead, hlen⟩
  · rw [hhead, hlen]
    exact Threaded.empty _
  · cases hi
  · exact ⟨none, by rw [hslots]⟩
  · rw [hslots]
    exact Nat.two_pow_pos _

/-- A free slot is filled; the links of the free slots that remain are untouched. -/
theorem Refines.fill (hr : Refines G s p) {i : Nat} {q : Pool n} {s' : GenerationalSlab w α β}
    (hq : p.alloc = some (i, q)) (hc : s'.capacity = s.capacity)
    (hslots : s'.slots = Function.update s.slots i ⟨(s.slots i).generation, .occupied v⟩)
    (hthreaded : Threaded s.nextLink (toLink s'.freeHead) s'.len q) : Refines G s' q := by
  have hlive := (Pool.alloc_cases hq).1
  have hframe : ∀ j, j ≠ i → s'.slots j = s.slots j := by
    intro j hne
    rw [hslots, Function.update_of_ne hne]
  refine ⟨hc.trans hr.capacity_eq, hthreaded.congr fun j hj => ?_, fun j hj => ?_,
    fun j hj => ?_, fun j => ?_⟩
  · have hne : j ≠ i := by
      rintro rfl
      exact q.not_mem_live_of_mem_free hj (hlive ▸ List.mem_cons_self)
    simp only [nextLink, hframe j hne]
  · rw [hlive, List.mem_cons] at hj
    by_cases heq : j = i
    · exact ⟨v, by rw [hslots, heq, Function.update_self]⟩
    · rw [hframe j heq]
      exact hr.occupied j (hj.resolve_left heq)
  · rw [hlive, List.mem_cons, not_or] at hj
    rw [hframe j hj.1]
    exact hr.vacant j hj.2
  · by_cases heq : j = i
    · rw [hslots, heq, Function.update_self]
      exact hr.gen_lt i
    · rw [hframe j heq]
      exact hr.gen_lt j

/-- What an insertion does to the slab: the slot `i` is filled, and the head and the length are
those of the pool after the issue. -/
theorem insert_spec (hr : Refines G s p) (v : α) :
    (p.alloc = none ∧ s.insert v = (none, s)) ∨
      ∃ i q s', p.alloc = some (i, q) ∧
        s.insert v = (some ⟨i, (s.slots i).generation⟩, s') ∧ Refines G s' q ∧
        s'.slots = Function.update s.slots i ⟨(s.slots i).generation, .occupied v⟩ := by
  have hcap := hr.capacity_eq
  rcases hhead : s.freeHead with _ | idx
  · -- nothing to pop: carve
    have hzero : toLink s.freeHead = 0 := by rw [hhead]; rfl
    by_cases hfull : s.capacity ≤ s.len
    · left
      refine ⟨hr.threaded.exhausted hzero (hcap ▸ hfull), ?_⟩
      simp only [insert, hhead, if_pos hfull]
    · right
      obtain ⟨q, hq, hthreaded⟩ := hr.threaded.carve hzero (by omega)
      refine ⟨s.len, q, { s with len := s.len + 1 }.setSlot s.len
        ⟨(s.slots s.len).generation, .occupied v⟩, hq, ?_, hr.fill hq rfl rfl hthreaded, rfl⟩
      simp only [insert, hhead, if_neg hfull]
  · -- pop the head, which is a free slot of the array
    right
    have hne : toLink s.freeHead ≠ 0 := by rw [hhead]; exact Nat.succ_ne_zero idx
    have hsub : toLink s.freeHead - 1 = idx := by rw [hhead]; rfl
    obtain ⟨q, hq, hthreaded⟩ := hr.threaded.pop hne
    rw [hsub] at hq hthreaded
    have hfree : idx ∈ p.free := by
      obtain ⟨t, ht, -⟩ := hr.threaded.free_eq_cons hne
      rw [ht, hsub]
      exact List.mem_cons_self
    have hlt : ¬ s.capacity ≤ idx := by
      have := (p.lt_of_mem_free hfree).trans_le p.carved_le
      omega
    obtain ⟨nextFree, hstate⟩ := hr.vacant idx (p.not_mem_live_of_mem_free hfree)
    have hnext : s.nextLink idx = toLink nextFree := by rw [nextLink, hstate]
    rw [hnext] at hthreaded
    refine ⟨idx, q, { s with freeHead := nextFree }.setSlot idx
      ⟨(s.slots idx).generation, .occupied v⟩, hq, ?_, hr.fill hq rfl rfl hthreaded, rfl⟩
    simp only [insert, hhead, if_neg hlt, hstate]

/-- **`remove` of a handle that resolves** retires the slot when its counter wraps and releases it
otherwise. -/
theorem removed_refines (hr : Refines G s p) (hres : s.Resolves h v)
    (hi : h.index ∈ p.live) :
    if G.wrappingInc h.generation = 0 then Refines G (s.removed G h.index) (p.retire h.index hi)
    else Refines G (s.removed G h.index) (p.release h.index hi) := by
  have hgen := hres.2.1
  obtain ⟨nextFree, hslots⟩ := removed_slots (G := G) s h.index
  have hframe : ∀ j, j ≠ h.index → (s.removed G h.index).slots j = s.slots j := by
    intro j hne
    rw [hslots, Function.update_of_ne hne]
  have hself : (s.removed G h.index).slots h.index =
      ⟨G.wrappingInc (s.slots h.index).generation, .free nextFree⟩ := by
    rw [hslots, Function.update_self]
  have hlinks : ∀ j ∈ p.free, (s.removed G h.index).nextLink j = s.nextLink j := by
    intro j hj
    have hne : j ≠ h.index := fun heq => p.not_mem_live_of_mem_free hj (heq ▸ hi)
    simp only [nextLink, hframe j hne]
  have hocc : ∀ j ∈ p.live.erase h.index,
      ∃ u, ((s.removed G h.index).slots j).state = .occupied u := by
    intro j hj
    obtain ⟨hne, hmem⟩ := (p.nodup_live.mem_erase_iff).mp hj
    rw [hframe j hne]
    exact hr.occupied j hmem
  have hvac : ∀ j, j ∉ p.live.erase h.index →
      ∃ m, ((s.removed G h.index).slots j).state = .free m := by
    intro j hj
    by_cases heq : j = h.index
    · exact ⟨nextFree, by rw [heq, hself]⟩
    · rw [hframe j heq]
      exact hr.vacant j fun hmem => hj ((p.nodup_live.mem_erase_iff).mpr ⟨heq, hmem⟩)
  have hlt : ∀ j, ((s.removed G h.index).slots j).generation < 2 ^ G.bits := by
    intro j
    by_cases heq : j = h.index
    · rw [heq, hself]
      exact wrappingInc_lt _
    · rw [hframe j heq]
      exact hr.gen_lt j
  rw [← hgen]
  split
  case isTrue hwrap =>
      have heq := removed_of_wrap (s := s) hwrap
      have hthreaded := hr.threaded.retire hi hlinks
      exact ⟨by rw [heq]; exact hr.capacity_eq, by rw [heq] at hthreaded ⊢; exact hthreaded, hocc,
        hvac, hlt⟩
  case isFalse hwrap =>
      have heq := removed_of_not_wrap (s := s) hwrap
      have hlink : (s.removed G h.index).nextLink h.index = toLink s.freeHead := by
        rw [heq]
        simp [nextLink, setSlot]
      have hthreaded := hr.threaded.push hi hlink hlinks
      exact ⟨by rw [heq]; exact hr.capacity_eq, by rw [heq] at hthreaded ⊢; exact hthreaded, hocc,
        hvac, hlt⟩

/-- Overwriting the value of an occupied slot changes nothing else. -/
theorem setSlot_occupied_refines (hr : Refines G s p) {i : Nat} (hi : i ∈ p.live) (u : α) :
    Refines G (s.setSlot i ⟨(s.slots i).generation, .occupied u⟩) p := by
  have hframe : ∀ j, j ≠ i →
      (s.setSlot i ⟨(s.slots i).generation, .occupied u⟩).slots j = s.slots j :=
    fun j hne => Function.update_of_ne hne _ _
  refine ⟨hr.capacity_eq, hr.threaded.congr fun j hj => ?_, fun j hj => ?_, fun j hj => ?_,
    fun j => ?_⟩
  · exact nextLink_setSlot_of_ne fun heq => p.not_mem_live_of_mem_free hj (heq ▸ hi)
  · by_cases heq : j = i
    · exact ⟨u, by simp [setSlot, heq]⟩
    · rw [hframe j heq]
      exact hr.occupied j hj
  · rw [hframe j fun heq => hj (heq ▸ hi)]
    exact hr.vacant j hj
  · by_cases heq : j = i
    · simp only [setSlot, heq, Function.update_self]
      exact hr.gen_lt i
    · rw [hframe j heq]
      exact hr.gen_lt j

end GenerationalSlab

end ForgeAlloc
