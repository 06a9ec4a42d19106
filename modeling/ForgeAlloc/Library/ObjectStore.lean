import ForgeAlloc.Library.Memory

set_option autoImplicit false

/-! # A store of objects

What a program means by its memory: objects under names, each with a size that was asked for and
room for at least as many bytes, none of which changes unless the program writes it. A byte that was
never written is not known. An object can be created, zeroed or not, written, resized, which keeps
its first bytes, and removed, and all of them at once.

`Represents` says that a memory with a place for each object holds what the store knows. The lemmas
say what has to be shown of an implementation, one for each operation.
-/

namespace ObjectStore

open ByteMemory

structure Object where
  size : Nat
  room : Nat
  /-- The bytes that are known. -/
  bytes : Nat → Option UInt8

abbrev Store (ι : Type*) := ι → Option Object

namespace Object

def fresh (zeroed : Bool) (size room : Nat) : Object :=
  ⟨size, room, fun k => if zeroed = true ∧ k < size then some 0 else none⟩

def write (k : Nat) (v : UInt8) (o : Object) : Object :=
  { o with bytes := Function.update o.bytes k (some v) }

/-- Another size. The bytes that are in both sizes stay. -/
def resize (size room : Nat) (o : Object) : Object :=
  ⟨size, room, fun k => if k < min o.size size then o.bytes k else none⟩

/-- The first bytes get a value. -/
def fill (n : Nat) (v : UInt8) (o : Object) : Object :=
  { o with bytes := fun k => if k < n then some v else o.bytes k }

end Object

inductive Op (ι : Type*)
  | create (i : ι) (zeroed : Bool) (size room : Nat)
  | write (i : ι) (k : Nat) (v : UInt8)
  | resize (i : ι) (size room : Nat)
  | remove (i : ι)
  /-- All objects go. -/
  | clear
  /-- A request that was refused. -/
  | refuse

variable {ι : Type*}

def empty : Store ι := fun _ => none

variable [DecidableEq ι]

def step (s : Store ι) : Op ι → Option (Store ι)
  | .create i zeroed size room =>
      match s i with
      | none => some (Function.update s i (some (.fresh zeroed size room)))
      | some _ => none
  | .write i k v =>
      match s i with
      | none => none
      | some o => if k < o.room then some (Function.update s i (some (o.write k v))) else none
  | .resize i size room =>
      match s i with
      | none => none
      | some o => some (Function.update s i (some (o.resize size room)))
  | .remove i =>
      match s i with
      | none => none
      | some _ => some (Function.update s i none)
  | .clear => some empty
  | .refuse => some s

/-! ## Representation -/

/-- The object at the place, in the memory `m`. -/
structure Object.At (m : Mem) (p : Block) (o : Object) : Prop where
  room_eq : o.room = p.len
  bytes_eq : ∀ k v, o.bytes k = some v → k < p.len → m (p.ptr + k) = v

/-- The memory holds the store, with the objects in places that are disjoint. -/
structure Represents (m : Mem) (place : ι → Option Block) (s : Store ι) : Prop where
  none_iff : ∀ i, place i = none ↔ s i = none
  held : ∀ i p o, place i = some p → s i = some o → o.At m p
  disjoint : ∀ i j p q, i ≠ j → place i = some p → place j = some q →
    Disjoint p.bytes q.bytes

variable {m m' : Mem} {place : ι → Option Block} {s : Store ι} {i : ι} {o : Object}
  {p q : Block}

omit [DecidableEq ι] in
theorem represents_empty (m : Mem) : Represents m (fun _ => none) (empty : Store ι) where
  none_iff := fun _ => iff_of_true rfl rfl
  held := by
    rintro i p o ⟨⟩
  disjoint := by
    rintro i j p q - ⟨⟩

/-- An object that keeps its place keeps its bytes if they are not written. -/
theorem Object.At.congr (h : o.At m p) (hm : Set.EqOn m' m p.bytes) : o.At m' p where
  room_eq := h.room_eq
  bytes_eq := fun k v hk hlt =>
    (hm ⟨Nat.le_add_right _ _, Nat.add_lt_add_left hlt _⟩).trans (h.bytes_eq k v hk hlt)

omit [DecidableEq ι] in
/-- Nothing happens to the objects. -/
theorem Represents.congr (h : Represents m place s)
    (hm : ∀ i p, place i = some p → Set.EqOn m' m p.bytes) : Represents m' place s where
  none_iff := h.none_iff
  held := fun i p o hp ho => (h.held i p o hp ho).congr (hm i p hp)
  disjoint := h.disjoint

theorem update_eq_iff {α : Type*} {f : ι → α} {v x : α} {i j : ι} :
    Function.update f i v j = x ↔ j = i ∧ v = x ∨ j ≠ i ∧ f j = x := by
  rw [Function.update_apply]
  split <;> simp_all

/-- **One object changes**, and may move. -/
theorem Represents.update (h : Represents m place s) (hat : o.At m' q)
    (hm : ∀ j p, j ≠ i → place j = some p → Set.EqOn m' m p.bytes)
    (hq : ∀ j p, j ≠ i → place j = some p → Disjoint q.bytes p.bytes) :
    Represents m' (Function.update place i (some q)) (Function.update s i (some o)) where
  none_iff := by
    intro j
    simp only [update_eq_iff, h.none_iff j, reduceCtorEq, and_false, false_or]
  held := by
    intro j p o' hp ho
    rcases update_eq_iff.mp hp with ⟨rfl, hq'⟩ | ⟨hj, hp⟩
    · rw [Function.update_self] at ho
      exact Option.some.inj hq' ▸ Option.some.inj ho ▸ hat
    · rw [Function.update_of_ne hj] at ho
      exact (h.held j p o' hp ho).congr (hm j p hj hp)
  disjoint := by
    intro j k p p' hjk hp hp'
    rcases update_eq_iff.mp hp with ⟨rfl, hq'⟩ | ⟨hj, hpj⟩
    · rw [Function.update_of_ne hjk.symm] at hp'
      exact Option.some.inj hq' ▸ hq k p' hjk.symm hp'
    · rcases update_eq_iff.mp hp' with ⟨rfl, hq'⟩ | ⟨-, hpk⟩
      · exact Option.some.inj hq' ▸ (hq j p hj hpj).symm
      · exact h.disjoint j k p p' hjk hpj hpk

/-- **One object goes.** -/
theorem Represents.remove (h : Represents m place s)
    (hm : ∀ j p, j ≠ i → place j = some p → Set.EqOn m' m p.bytes) :
    Represents m' (Function.update place i none) (Function.update s i none) where
  none_iff := by
    intro j
    simp only [update_eq_iff, h.none_iff j, and_true]
  held := by
    intro j p o' hp ho
    obtain ⟨-, ⟨⟩⟩ | ⟨hj, hp⟩ := update_eq_iff.mp hp
    rw [Function.update_of_ne hj] at ho
    exact (h.held j p o' hp ho).congr (hm j p hj hp)
  disjoint := by
    intro j k p p' hjk hp hp'
    obtain ⟨-, ⟨⟩⟩ | ⟨-, hp⟩ := update_eq_iff.mp hp
    obtain ⟨-, ⟨⟩⟩ | ⟨-, hp'⟩ := update_eq_iff.mp hp'
    exact h.disjoint j k p p' hjk hp hp'

/-- A new object, with zeros if that was asked for. -/
theorem Object.fresh_at {zeroed : Bool} {size : Nat}
    (hzero : zeroed = true → ∀ k < size, m (p.ptr + k) = 0) :
    (Object.fresh zeroed size p.len).At m p where
  room_eq := rfl
  bytes_eq := by
    intro k v hk _
    simp only [Object.fresh, Option.ite_none_right_eq_some, Option.some.injEq] at hk
    exact (hzero hk.1.1 k hk.1.2).trans hk.2

/-- A byte is written. -/
theorem Object.At.write (h : o.At m p) {k : Nat} (v : UInt8) :
    (o.write k v).At (writeByte m (p.ptr + k) v) p where
  room_eq := h.room_eq
  bytes_eq := by
    intro j v' hj hlt
    simp only [Object.write] at hj
    by_cases hjk : j = k
    · subst hjk
      rw [Function.update_self, Option.some.injEq] at hj
      rw [hj]
      exact Function.update_self _ _ _
    · rw [Function.update_of_ne hjk] at hj
      rw [writeByte_of_ne v (by omega)]
      exact h.bytes_eq j v' hj hlt

/-- The bytes that stay are at the new place. -/
theorem Object.At.resize (h : o.At m p) {size : Nat} (hkeep : o.size ≤ p.len)
    (hcopy : ∀ k < min o.size size, m' (q.ptr + k) = m (p.ptr + k)) :
    (o.resize size q.len).At m' q where
  room_eq := rfl
  bytes_eq := by
    intro k v hk _
    simp only [Object.resize, Option.ite_none_right_eq_some] at hk
    obtain ⟨hlt, hk⟩ := hk
    exact (hcopy k hlt).trans (h.bytes_eq k v hk (by omega))

theorem Object.At.fill (h : o.At m p) {n : Nat} (v : UInt8) :
    (o.fill n v).At (fillBytes m p.ptr n v) p where
  room_eq := h.room_eq
  bytes_eq := by
    intro k v' hk hlt
    simp only [Object.fill] at hk
    split at hk
    case isTrue hn =>
        rw [fillBytes_add v hn]
        exact Option.some.inj hk
    case isFalse hn =>
        rw [fillBytes_of_not_mem v (by omega)]
        exact h.bytes_eq k v' hk hlt

omit [DecidableEq ι] in
/-- Some of the objects go. -/
theorem Represents.filter (h : Represents m place s) (P : ι → Prop) [DecidablePred P] :
    Represents m (fun i => if P i then place i else none) fun i => if P i then s i else none where
  none_iff := by
    intro i
    split
    · exact h.none_iff i
    · exact iff_of_true rfl rfl
  held := by
    intro i p o hp ho
    split at hp
    case isTrue hP =>
        rw [if_pos hP] at ho
        exact h.held i p o hp ho
    case isFalse => cases hp
  disjoint := by
    intro i j p q hij hp hq
    split at hp
    case isTrue =>
        split at hq
        case isTrue => exact h.disjoint i j p q hij hp hq
        case isFalse => cases hq
    case isFalse => cases hp

end ObjectStore
