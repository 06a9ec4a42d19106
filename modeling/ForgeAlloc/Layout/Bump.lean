import ForgeAlloc.Core.OwnedRange

set_option autoImplicit false

/-! # `BumpArena`

A cursor over the range of a backing. `allocate` and `allocUninit` round the absolute address of
the cursor up to the alignment (`MachineInt.bump`), ask the backing to commit the bytes and only
then publish the new cursor; `deallocate` does nothing. `grow` extends the block in place when it
ends at the cursor and relocates it otherwise.

`BumpArena.Sound` is the invariant of the value alone: the region is inside the address space and
the cursor inside the region. `reserve_some` and `reserve_isSome_iff` are the specification of
the align-and-bump step, and `honours` shows that the arena meets the `Allocator` contract.
-/

namespace ForgeAlloc

open MachineInt ByteMemory

structure BumpArena (β : Type) where
  backing : β
  /-- The size of the backing when the arena was built. -/
  capacity : Nat
  /-- Offset of the first free byte from the base of the backing. -/
  cursor : Nat

/-- A slice of `len` elements of type `T` somewhere in memory, by value. -/
structure Slice {w : Nat} (T : RustType w) where
  len : Nat
  bytes : List UInt8
  length_bytes : bytes.length = T.size * len
  /-- An object of the language has at most `isize::MAX` bytes. -/
  size_le : T.size * len + (T.align - 1) ≤ isizeMax w

variable {w : Nat} {β : Type}

/-- A slice in memory is small enough for its array layout to exist. -/
theorem Slice.exists_array {T : RustType w} (src : Slice T)
    (hlen : src.len ≠ 0) (hsize : T.size ≠ 0) :
    ∃ l, NonZeroLayout.array T src.len = some l := by
  have hpos : 0 < T.size * src.len :=
    Nat.mul_pos (Nat.pos_of_ne_zero hsize) (Nat.pos_of_ne_zero hlen)
  have hle := src.size_le
  have hlt := isizeMax_lt w
  have hmul : T.size ≤ T.size * src.len := Nat.le_mul_of_pos_right _ (Nat.pos_of_ne_zero hlen)
  let elem : NonZeroLayout w :=
    ⟨T.size, T.align, Nat.pos_of_ne_zero hsize, T.align_pow, by omega⟩
  let arr : NonZeroLayout w := ⟨T.size * src.len, T.align, hpos, T.align_pow, hle⟩
  have helem : NonZeroLayout.forType T = some elem :=
    NonZeroLayout.fromSizeAlign_eq_some.mpr ⟨rfl, rfl⟩
  have hpad : elem.paddedSize = T.size := NonZeroLayout.paddedSize_forType helem
  have htotal : checkedMul w elem.paddedSize src.len = some (T.size * src.len) := by
    rw [hpad]
    exact checkedMul_eq_some.mpr ⟨by omega, rfl⟩
  have harr : NonZeroLayout.fromSizeAlign w (T.size * src.len) elem.align = some arr :=
    NonZeroLayout.fromSizeAlign_eq_some.mpr ⟨rfl, rfl⟩
  refine ⟨arr, ?_⟩
  rw [NonZeroLayout.array, helem]
  simp only [Option.bind_eq_bind, Option.bind_some, htotal, harr]

namespace BumpArena

/-- `BumpArena::new`. -/
def new (w : Nat) (R : FixedRange β) (b : β) : Option (BumpArena β) :=
  if R.size b = 0 then none
  else do
    let endAddr ← checkedAdd w (R.base b) (R.size b)
    if endAddr = 0 then none else some ⟨b, R.size b, 0⟩

def allocated (a : BumpArena β) : Nat := a.cursor

/-- `capacity - allocated`, with the overflow test of the subtraction. -/
def remaining (a : BumpArena β) : Option Nat := checkedSub a.capacity a.cursor

def rewindTo (mark : Nat) (a : BumpArena β) : BumpArena β := { a with cursor := mark }

def reset (a : BumpArena β) : BumpArena β := { a with cursor := 0 }

/-- Align, test, commit, publish: the body that `allocate` and `alloc_uninit` share. -/
def reserve (w : Nat) (R : FixedRange β) (size align : Nat) (a : BumpArena β) :
    Option Nat × BumpArena β :=
  let base := R.base a.backing
  match bump w base a.capacity a.cursor size align with
  | none => (none, a)
  | some (alignedOff, endOff) =>
      match R.commit alignedOff size a.backing with
      | (false, b) => (none, { a with backing := b })
      | (true, b) => (some (base + alignedOff), { a with backing := b, cursor := endOff })

def allocate (R : FixedRange β) (l : NonZeroLayout w) (h : Heap (BumpArena β)) :
    Option Block × Heap (BumpArena β) :=
  match reserve w R l.size l.align h.alloc with
  | (none, a) => (none, ⟨a, h.mem⟩)
  | (some p, a) => (some ⟨p, l.size⟩, ⟨a, h.mem⟩)

/-- `alloc_uninit::<T>`. A zero-sized type gets the dangling pointer, which is its alignment. -/
def allocUninit (R : FixedRange β) (T : RustType w) (a : BumpArena β) :
    Option Nat × BumpArena β :=
  if T.size = 0 then (some T.align, a) else reserve w R T.size T.align a

/-- `alloc_slice_copy`. -/
def allocSliceCopy (R : FixedRange β) (T : RustType w) (src : Slice T) (h : Heap (BumpArena β)) :
    Option Block × Heap (BumpArena β) :=
  if src.len = 0 ∨ T.size = 0 then (some ⟨T.align, T.size * src.len⟩, h)
  else
    match NonZeroLayout.array T src.len with
    | none => (none, h)
    | some l =>
        match allocate R l h with
        | (none, h') => (none, h')
        | (some dst, h') =>
            (some ⟨dst.ptr, T.size * src.len⟩, ⟨h'.alloc, writeBytes h'.mem dst.ptr src.bytes⟩)

/-- The fallback of `grow`: a fresh block and a copy. The old block stays until `reset`. -/
def relocate (R : FixedRange β) (ptr : Nat) (old new : NonZeroLayout w)
    (h : Heap (BumpArena β)) : Option Block × Heap (BumpArena β) :=
  match allocate R new h with
  | (none, h') => (none, h')
  | (some dst, h') => (some dst, ⟨h'.alloc, copyBytes h'.mem ptr dst.ptr old.size⟩)

def grow (R : FixedRange β) (ptr : Nat) (old new : NonZeroLayout w) (h : Heap (BumpArena β)) :
    Option Block × Heap (BumpArena β) :=
  let off := wrappingSub w ptr (R.base h.alloc.backing)
  if checkedAdd w off old.size = some h.alloc.cursor then
    match checkedAdd w off new.size with
    | none => (none, h)
    | some newEnd =>
        if newEnd ≤ h.alloc.capacity then
          match R.commit off new.size h.alloc.backing with
          | (false, b) => (none, ⟨{ h.alloc with backing := b }, h.mem⟩)
          | (true, b) =>
              (some ⟨ptr, new.size⟩, ⟨{ h.alloc with backing := b, cursor := newEnd }, h.mem⟩)
        else relocate R ptr old new h
  else relocate R ptr old new h

/-- `deallocate` does nothing; `shrink` is the trait's. -/
def allocator (w : Nat) (R : FixedRange β) : Allocator w (BumpArena β) where
  allocate := allocate R
  deallocate := fun _ _ h => h
  grow := grow R
  shrink := defaultShrink (allocate R) (fun _ _ h => h)
  usableSize := fun _ _ _ => none

/-- The arena forwards its base, and has the trait's default `commit`. -/
def range (R : FixedRange β) : FixedRange (BumpArena β) where
  base := fun a => R.base a.backing
  size := fun a => a.capacity
  commit := fun _ _ a => (true, a)

/-! ## The align-and-bump step -/

variable {R : FixedRange β} {base : Nat}

/-- The region of the arena starts at `base` and is inside the address space, and the cursor is
inside the region. -/
structure Sound (w : Nat) (R : FixedRange β) (base : Nat) (a : BumpArena β) : Prop where
  base_eq : R.base a.backing = base
  end_lt : base + a.capacity < 2 ^ w
  cursor_le : a.cursor ≤ a.capacity

theorem new_eq_some {b : β} {a : BumpArena β} (h : new w R b = some a) :
    a = ⟨b, R.size b, 0⟩ ∧ R.base b + R.size b < 2 ^ w := by
  unfold new at h
  split at h
  · cases h
  · simp only [Option.bind_eq_bind, Option.bind_eq_some_iff, checkedAdd_eq_some] at h
    obtain ⟨_, ⟨hlt, -⟩, hif⟩ := h
    split at hif
    · cases hif
    · exact ⟨(Option.some.inj hif).symm, hlt⟩

theorem sound_new {b : β} {a : BumpArena β} (h : new w R b = some a) :
    Sound w R (R.base b) a ∧ a.capacity = R.size b := by
  obtain ⟨rfl, hlt⟩ := new_eq_some h
  exact ⟨⟨rfl, hlt, Nat.zero_le _⟩, rfl⟩

theorem reserve_none {size align : Nat} {a a' : BumpArena β} (hR : R.Lawful)
    (hs : Sound w R base a) (h : reserve w R size align a = (none, a')) :
    Sound w R base a' ∧ a'.cursor = a.cursor ∧ a'.capacity = a.capacity := by
  simp only [reserve] at h
  split at h
  · cases h
    exact ⟨hs, rfl, rfl⟩
  · split at h
    case h_1 b hb =>
        cases h
        exact ⟨⟨(hR.base_of_commit hb).trans hs.base_eq, hs.end_lt, hs.cursor_le⟩, rfl, rfl⟩
    case h_2 => cases h

/-- A reservation starts at the least aligned address from the cursor on, ends in the region,
and the cursor moves to its end. -/
theorem reserve_some {size k p : Nat} {a a' : BumpArena β} (hR : R.Lawful) (hk : k ≤ w)
    (hs : Sound w R base a) (h : reserve w R size (2 ^ k) a = (some p, a')) :
    p = alignUp (base + a.cursor) (2 ^ k) ∧ p + size = base + a'.cursor ∧ Sound w R base a' ∧
      a'.capacity = a.capacity := by
  have hge : base + a.cursor ≤ alignUp (base + a.cursor) (2 ^ k) := le_alignUp (Nat.two_pow_pos k)
  simp only [reserve] at h
  split at h
  · cases h
  case h_2 off fin hbump =>
      split at h
      · cases h
      case h_2 b hb =>
          cases h
          rw [hs.base_eq] at hbump
          obtain ⟨hoff, hfin, hle⟩ := bump_spec hk hbump
          have hlt := hs.end_lt
          refine ⟨?_, ?_, ⟨(hR.base_of_commit hb).trans hs.base_eq, hlt, hle⟩, rfl⟩
          · rw [hs.base_eq]
            omega
          · rw [hs.base_eq]
            simp only
            omega

/-- A reservation succeeds exactly when it fits above the cursor, as exact integers, and the
backing commits its bytes. -/
theorem reserve_isSome_iff {size k : Nat} {a : BumpArena β} (hk : k ≤ w) (hsize : 0 < size)
    (hs : Sound w R base a) :
    (reserve w R size (2 ^ k) a).1.isSome ↔
      alignUp (base + a.cursor) (2 ^ k) + size ≤ base + a.capacity ∧
        (R.commit (alignUp (base + a.cursor) (2 ^ k) - base) size a.backing).1 = true := by
  have hlt := hs.end_lt
  have hend : base + a.capacity ≤ 2 ^ w := by omega
  have hcap : a.capacity < 2 ^ w := by omega
  simp only [reserve]
  split
  case h_1 hbump =>
      rw [hs.base_eq, bump_eq_none_iff hk hsize hend hcap] at hbump
      unfold Fits at hbump
      simp [hbump]
  case h_2 off fin hbump =>
      rw [hs.base_eq, bump_eq_some_iff hk hsize hend hcap] at hbump
      obtain ⟨hfits, rfl, -⟩ := hbump
      unfold Fits at hfits
      split
      case h_1 b hb => simp [hb]
      case h_2 b hb => simp [hb, hfits]

/-- A failed reservation leaves the cursor where it was. -/
theorem cursor_reserve_none {size align : Nat} {a : BumpArena β}
    (h : (reserve w R size align a).1 = none) :
    (reserve w R size align a).2.cursor = a.cursor := by
  simp only [reserve] at h ⊢
  split
  · rfl
  · split
    · rfl
    case h_2 hbump _ b hb =>
        rw [hbump] at h
        simp [hb] at h

/-! ## `allocate` -/

theorem allocate_none {l : NonZeroLayout w} {h h' : Heap (BumpArena β)} (hR : R.Lawful)
    (hs : Sound w R base h.alloc) (heq : allocate R l h = (none, h')) :
    Sound w R base h'.alloc ∧ h'.alloc.cursor = h.alloc.cursor ∧
      h'.alloc.capacity = h.alloc.capacity ∧ h'.mem = h.mem := by
  unfold allocate at heq
  split at heq
  case h_1 a' hres =>
      cases heq
      obtain ⟨hs', hcur, hcap⟩ := reserve_none hR hs hres
      exact ⟨hs', hcur, hcap, rfl⟩
  case h_2 => cases heq

theorem allocate_some {l : NonZeroLayout w} {b : Block} {h h' : Heap (BumpArena β)}
    (hR : R.Lawful) (hs : Sound w R base h.alloc) (heq : allocate R l h = (some b, h')) :
    b.ptr = alignUp (base + h.alloc.cursor) l.align ∧ b.len = l.size ∧
      b.ptr + b.len = base + h'.alloc.cursor ∧ Sound w R base h'.alloc ∧
      h'.alloc.capacity = h.alloc.capacity ∧ h'.mem = h.mem := by
  obtain ⟨k, hk, hkw⟩ := l.exists_align
  unfold allocate at heq
  split at heq
  case h_1 => cases heq
  case h_2 p a' hres =>
      cases heq
      rw [hk] at hres
      obtain ⟨hp, hend, hs', hcap⟩ := reserve_some hR hkw hs hres
      exact ⟨by rw [hk]; exact hp, rfl, hend, hs', hcap, rfl⟩

theorem isSome_allocate {l : NonZeroLayout w} {h : Heap (BumpArena β)} :
    (allocate R l h).1.isSome = (reserve w R l.size l.align h.alloc).1.isSome := by
  unfold allocate
  split
  case h_1 hres => rw [hres]; rfl
  case h_2 hres => rw [hres]; rfl

theorem base_reserve (hR : R.Lawful) (w size align : Nat) (a : BumpArena β) :
    R.base (reserve w R size align a).2.backing = R.base a.backing := by
  simp only [reserve]
  split
  · rfl
  · split
    case h_1 b hb => exact hR.base_of_commit hb
    case h_2 b hb => exact hR.base_of_commit hb

theorem base_allocate (hR : R.Lawful) {l : NonZeroLayout w} {h : Heap (BumpArena β)} :
    R.base (allocate R l h).2.alloc.backing = R.base h.alloc.backing := by
  have hbase := base_reserve hR w l.size l.align h.alloc
  unfold allocate
  split
  case h_1 a heq => rw [heq] at hbase; exact hbase
  case h_2 p a heq => rw [heq] at hbase; exact hbase

theorem cursor_allocate_none {l : NonZeroLayout w} {h : Heap (BumpArena β)}
    (hnone : (allocate R l h).1 = none) :
    (allocate R l h).2.alloc.cursor = h.alloc.cursor := by
  have hres : (reserve w R l.size l.align h.alloc).1 = none := by
    rw [← Option.isNone_iff_eq_none, ← Option.not_isSome, ← isSome_allocate, hnone]
    rfl
  have hcur := cursor_reserve_none hres
  unfold allocate
  split
  case h_1 a heq => rw [heq] at hcur; exact hcur
  case h_2 p a heq => rw [heq] at hres; cases hres

/-! ## The typed fast path and the slice copy -/

theorem allocUninit_none {T : RustType w} {a a' : BumpArena β} (hR : R.Lawful)
    (hs : Sound w R base a) (heq : allocUninit R T a = (none, a')) :
    Sound w R base a' ∧ a'.cursor = a.cursor ∧ a'.capacity = a.capacity := by
  unfold allocUninit at heq
  split at heq
  · cases heq
  · exact reserve_none hR hs heq

/-- The typed path either consumes nothing (a zero-sized type) or is a reservation. -/
theorem allocUninit_some {T : RustType w} {p : Nat} {a a' : BumpArena β} (hR : R.Lawful)
    (hs : Sound w R base a) (heq : allocUninit R T a = (some p, a')) :
    (T.size = 0 ∧ p = T.align ∧ a' = a) ∨
      (p = alignUp (base + a.cursor) T.align ∧ p + T.size = base + a'.cursor ∧
        Sound w R base a' ∧ a'.capacity = a.capacity) := by
  unfold allocUninit at heq
  split at heq
  case isTrue hzero =>
      cases heq
      exact Or.inl ⟨hzero, rfl, rfl⟩
  case isFalse =>
      obtain ⟨k, hk, hkw⟩ := T.exists_align
      rw [hk] at heq
      obtain ⟨hp, hrest⟩ := reserve_some hR hkw hs heq
      exact Or.inr ⟨by rw [hk]; exact hp, hrest⟩

theorem cursor_allocUninit_none {T : RustType w} {a : BumpArena β}
    (hnone : (allocUninit R T a).1 = none) : (allocUninit R T a).2.cursor = a.cursor := by
  unfold allocUninit at hnone ⊢
  split
  · rfl
  case isFalse hne =>
      rw [if_neg hne] at hnone
      exact cursor_reserve_none hnone

theorem allocSliceCopy_none {T : RustType w} {src : Slice T} {h h' : Heap (BumpArena β)}
    (hR : R.Lawful) (hs : Sound w R base h.alloc) (heq : allocSliceCopy R T src h = (none, h')) :
    Sound w R base h'.alloc ∧ h'.alloc.cursor = h.alloc.cursor ∧
      h'.alloc.capacity = h.alloc.capacity := by
  unfold allocSliceCopy at heq
  split at heq
  · cases heq
  · split at heq
    · cases heq
      exact ⟨hs, rfl, rfl⟩
    · split at heq
      case h_1 h₁ halloc =>
          cases heq
          obtain ⟨hs', hcur, hcap, -⟩ := allocate_none hR hs halloc
          exact ⟨hs', hcur, hcap⟩
      case h_2 => cases heq

/-- The slice copy either consumes nothing (no element, or elements of size zero) or is a
reservation for the bytes of the slice. -/
theorem allocSliceCopy_some {T : RustType w} {src : Slice T} {b : Block}
    {h h' : Heap (BumpArena β)} (hR : R.Lawful) (hs : Sound w R base h.alloc)
    (heq : allocSliceCopy R T src h = (some b, h')) :
    (b.len = 0 ∧ b.ptr = T.align ∧ h' = h) ∨
      (b.ptr = alignUp (base + h.alloc.cursor) T.align ∧ b.len = T.size * src.len ∧
        b.ptr + b.len = base + h'.alloc.cursor ∧ Sound w R base h'.alloc ∧
        h'.alloc.capacity = h.alloc.capacity) := by
  unfold allocSliceCopy at heq
  split at heq
  case isTrue hzero =>
      cases heq
      exact Or.inl ⟨by rcases hzero with hz | hz <;> simp [hz], rfl, rfl⟩
  case isFalse =>
      split at heq
      · cases heq
      case h_2 l hl =>
          obtain ⟨hsize, halign⟩ := NonZeroLayout.array_eq_some hl
          split at heq
          · cases heq
          case h_2 dst h₁ halloc =>
              cases heq
              obtain ⟨hp, hlen, hend, hs', hcap, -⟩ := allocate_some hR hs halloc
              rw [halign] at hp
              rw [hlen, hsize] at hend
              exact Or.inr ⟨hp, rfl, hend, hs', hcap⟩

/-- A slice with bytes is reserved like the one value of its array layout. -/
theorem isSome_allocSliceCopy {T : RustType w} {src : Slice T} {h : Heap (BumpArena β)}
    (hlen : src.len ≠ 0) (hsize : T.size ≠ 0) :
    (allocSliceCopy R T src h).1.isSome =
      (reserve w R (T.size * src.len) T.align h.alloc).1.isSome := by
  obtain ⟨l, hl⟩ := src.exists_array hlen hsize
  obtain ⟨hls, hla⟩ := NonZeroLayout.array_eq_some hl
  have halloc := isSome_allocate (R := R) (l := l) (h := h)
  rw [hls, hla] at halloc
  rw [← halloc]
  unfold allocSliceCopy
  rw [if_neg (by simp [hlen, hsize]), hl]
  simp only
  split
  case h_1 heq => rw [heq]
  case h_2 heq =>
      rw [heq]
      rfl

theorem cursor_allocSliceCopy_none {T : RustType w} {src : Slice T} {h : Heap (BumpArena β)}
    (hnone : (allocSliceCopy R T src h).1 = none) :
    (allocSliceCopy R T src h).2.alloc.cursor = h.alloc.cursor := by
  unfold allocSliceCopy at hnone ⊢
  split
  · rfl
  case isFalse hne =>
      rw [if_neg hne] at hnone
      split
      · rfl
      case h_2 l hl =>
          rw [hl] at hnone
          simp only at hnone
          split
          case h_1 h₁ halloc =>
              have hfst : (allocate R l h).1 = none := by rw [halloc]
              have := cursor_allocate_none hfst
              rw [halloc] at this
              exact this
          case h_2 dst h₁ halloc =>
              rw [halloc] at hnone
              cases hnone

/-! ## `grow` -/

/-- The `n` bytes at `ptr` end at the cursor and can be extended to `m` bytes in the region. -/
def Extends (R : FixedRange β) (ptr n m : Nat) (a : BumpArena β) : Prop :=
  R.base a.backing ≤ ptr ∧ ptr + n = R.base a.backing + a.cursor ∧
    ptr + m ≤ R.base a.backing + a.capacity

instance (R : FixedRange β) (ptr n m : Nat) (a : BumpArena β) : Decidable (Extends R ptr n m a) :=
  inferInstanceAs (Decidable (_ ∧ _))

theorem grow_of_extends {ptr : Nat} {old new : NonZeroLayout w} {h : Heap (BumpArena β)}
    (hs : Sound w R base h.alloc) (hext : Extends R ptr old.size new.size h.alloc) :
    grow R ptr old new h =
      match R.commit (ptr - base) new.size h.alloc.backing with
      | (false, b) => (none, ⟨{ h.alloc with backing := b }, h.mem⟩)
      | (true, b) =>
          (some ⟨ptr, new.size⟩,
            ⟨{ h.alloc with backing := b, cursor := ptr - base + new.size }, h.mem⟩) := by
  obtain ⟨hle, hend, hcap⟩ := hext
  rw [hs.base_eq] at hle hend hcap
  have hlt := hs.end_lt
  have hcur := hs.cursor_le
  have hoff : wrappingSub w ptr (R.base h.alloc.backing) = ptr - base := by
    rw [hs.base_eq]
    exact wrappingSub_of_le hle (by omega)
  have hold : checkedAdd w (ptr - base) old.size = some h.alloc.cursor :=
    checkedAdd_eq_some.mpr ⟨by omega, by omega⟩
  have hnew : checkedAdd w (ptr - base) new.size = some (ptr - base + new.size) :=
    checkedAdd_eq_some.mpr ⟨by omega, rfl⟩
  have hfit : ptr - base + new.size ≤ h.alloc.capacity := by omega
  simp only [grow, hoff, hold, hnew, if_true, if_pos hfit]

theorem grow_of_not_extends {ptr : Nat} {old new : NonZeroLayout w} {h : Heap (BumpArena β)}
    (hs : Sound w R base h.alloc) (hptr : ptr < 2 ^ w)
    (hext : ¬ Extends R ptr old.size new.size h.alloc) :
    grow R ptr old new h = (none, h) ∨ grow R ptr old new h = relocate R ptr old new h := by
  have hlt := hs.end_lt
  have hcur := hs.cursor_le
  unfold Extends at hext
  rw [hs.base_eq] at hext
  simp only [grow]
  split
  case isFalse => exact Or.inr rfl
  case isTrue hold =>
      rw [hs.base_eq, checkedAdd_eq_some] at hold
      -- a pointer below the base would be a distance of more than the whole region away
      have hle : base ≤ ptr := by
        by_contra hnot
        rw [wrappingSub_of_lt (by omega) (by omega)] at hold
        omega
      rw [hs.base_eq, wrappingSub_of_le hle hptr] at *
      split
      · exact Or.inl rfl
      case h_2 newEnd hnew =>
          obtain ⟨-, rfl⟩ := checkedAdd_eq_some.mp hnew
          rw [if_neg (by omega)]
          exact Or.inr rfl

theorem relocate_none {ptr : Nat} {old new : NonZeroLayout w} {h h' : Heap (BumpArena β)}
    (heq : relocate R ptr old new h = (none, h')) : allocate R new h = (none, h') := by
  unfold relocate at heq
  split at heq
  case h_1 halloc =>
      cases heq
      exact halloc
  case h_2 => cases heq

theorem relocate_some {ptr : Nat} {old new : NonZeroLayout w} {b : Block}
    {h h' : Heap (BumpArena β)} (heq : relocate R ptr old new h = (some b, h')) :
    ∃ h₁, allocate R new h = (some b, h₁) ∧
      h' = ⟨h₁.alloc, copyBytes h₁.mem ptr b.ptr old.size⟩ := by
  unfold relocate at heq
  split at heq
  case h_1 => cases heq
  case h_2 h₁ halloc =>
      cases heq
      exact ⟨h₁, halloc, rfl⟩

theorem cursor_relocate_none {ptr : Nat} {old new : NonZeroLayout w} {h : Heap (BumpArena β)}
    (hnone : (relocate R ptr old new h).1 = none) :
    (relocate R ptr old new h).2.alloc.cursor = h.alloc.cursor := by
  have heq : relocate R ptr old new h = (none, (relocate R ptr old new h).2) :=
    Prod.ext hnone rfl
  have halloc := relocate_none heq
  have hcur := cursor_allocate_none (congrArg Prod.fst halloc)
  rwa [halloc] at hcur

theorem cursor_grow_none {ptr : Nat} {old new : NonZeroLayout w} {h : Heap (BumpArena β)}
    (hnone : (grow R ptr old new h).1 = none) :
    (grow R ptr old new h).2.alloc.cursor = h.alloc.cursor := by
  simp only [grow] at hnone ⊢
  split
  case isFalse hne =>
      rw [if_neg hne] at hnone
      exact cursor_relocate_none hnone
  case isTrue heq =>
      rw [if_pos heq] at hnone
      split
      · rfl
      case h_2 newEnd hnew =>
          rw [hnew] at hnone
          simp only at hnone
          split
          case isFalse hgt =>
              rw [if_neg hgt] at hnone
              exact cursor_relocate_none hnone
          case isTrue hle =>
              rw [if_pos hle] at hnone
              split
              · rfl
              case h_2 b hb =>
                  rw [hb] at hnone
                  cases hnone

/-! ## The arena meets the `Allocator` contract -/

/-- The invariant of the arena and the ledger of its grants. Every block has exactly the size
of its layout and lies below the cursor. -/
structure Holds (R : FixedRange β) (base : Nat) (h : Heap (BumpArena β)) (L : Set (Grant w)) :
    Prop where
  sound : Sound w R base h.alloc
  len_eq : ∀ g ∈ L, g.block.len = g.layout.size
  aligned : ∀ g ∈ L, g.layout.align ∣ g.block.ptr
  base_le : ∀ g ∈ L, base ≤ g.block.ptr
  le_cursor : ∀ g ∈ L, g.block.ptr + g.block.len ≤ base + h.alloc.cursor
  disjoint : L.Pairwise fun g g' => Disjoint g.block.bytes g'.block.bytes

variable {h h' : Heap (BumpArena β)} {L : Set (Grant w)} {g : Grant w} {b : Block}
  {l old new : NonZeroLayout w} {a : BumpArena β} {m : Mem}

theorem Holds.mono {K : Set (Grant w)} (hh : Holds R base h L) (hK : K ⊆ L) :
    Holds R base h K where
  sound := hh.sound
  len_eq := fun g hg => hh.len_eq g (hK hg)
  aligned := fun g hg => hh.aligned g (hK hg)
  base_le := fun g hg => hh.base_le g (hK hg)
  le_cursor := fun g hg => hh.le_cursor g (hK hg)
  disjoint := hh.disjoint.mono hK

/-- The ledger survives any change of the value that keeps the base and does not lower the
cursor, whatever happens to the bytes. -/
theorem Holds.congr (hh : Holds R base h L) (hs : Sound w R base a)
    (hcur : h.alloc.cursor ≤ a.cursor) : Holds R base ⟨a, m⟩ L where
  sound := hs
  len_eq := hh.len_eq
  aligned := hh.aligned
  base_le := hh.base_le
  le_cursor := fun g hg => (hh.le_cursor g hg).trans (Nat.add_le_add_left hcur base)
  disjoint := hh.disjoint

/-- A block that starts at or above the end of every kept block may be added. -/
theorem Holds.insert (hh : Holds R base h L) (hs : Sound w R base a)
    (hcur : h.alloc.cursor ≤ a.cursor) (hlen : b.len = l.size) (halign : l.align ∣ b.ptr)
    (hbase : base ≤ b.ptr) (hend : b.ptr + b.len = base + a.cursor)
    (hfresh : ∀ g ∈ L, Disjoint b.bytes g.block.bytes) :
    Holds R base ⟨a, m⟩ (insert ⟨b, l⟩ L) where
  sound := hs
  len_eq := Set.forall_mem_insert.mpr ⟨hlen, hh.len_eq⟩
  aligned := Set.forall_mem_insert.mpr ⟨halign, hh.aligned⟩
  base_le := Set.forall_mem_insert.mpr ⟨hbase, hh.base_le⟩
  le_cursor := Set.forall_mem_insert.mpr
    ⟨le_of_eq hend, (hh.congr (m := m) hs hcur).le_cursor⟩
  disjoint := hh.disjoint.insert fun g hg _ => ⟨hfresh g hg, (hfresh g hg).symm⟩

/-- A block that starts at or above the cursor overlaps nothing that was issued. -/
theorem Holds.fresh (hh : Holds R base h L) (hle : base + h.alloc.cursor ≤ b.ptr) (hg : g ∈ L) :
    Disjoint b.bytes g.block.bytes :=
  Block.disjoint_of_le (Or.inr ((hh.le_cursor g hg).trans hle))

theorem Holds.allocate_some (hR : R.Lawful) (hh : Holds R base h L)
    (heq : allocate R l h = (some b, h')) :
    Issued (Holds R base) L h h' b l ∧ base + h.alloc.cursor ≤ b.ptr ∧ b.len = l.size ∧
      h'.mem = h.mem := by
  obtain ⟨hp, hlen, hend, hs', hcap, hmem⟩ := BumpArena.allocate_some hR hh.sound heq
  have hge : base + h.alloc.cursor ≤ b.ptr := by
    rw [hp]
    exact le_alignUp l.align_pos
  have halign : l.align ∣ b.ptr := by
    rw [hp]
    exact dvd_alignUp _ _
  have hfresh : ∀ g ∈ L, Disjoint b.bytes g.block.bytes := fun g hg => hh.fresh hge hg
  refine ⟨⟨?_, hfresh, ?_⟩, hge, hlen, hmem⟩
  · exact hh.insert hs' (by omega) hlen halign (by omega) hend hfresh
  · rw [hmem]
    exact fun _ _ => rfl

theorem Holds.allocate_none (hR : R.Lawful) (hh : Holds R base h L)
    (heq : allocate R l h = (none, h')) : Unchanged (Holds R base) L h h' := by
  obtain ⟨hs', hcur, hcap, hmem⟩ := BumpArena.allocate_none hR hh.sound heq
  refine ⟨hh.congr hs' (le_of_eq hcur.symm), ?_⟩
  rw [hmem]
  exact fun _ _ => rfl

theorem Holds.relocate_some (hR : R.Lawful) (hh : Holds R base h L)
    (hsize : g.layout.size ≤ new.size)
    (heq : relocate R g.block.ptr g.layout new h = (some b, h')) :
    Issued (Holds R base) (L \ {g}) h h' b new ∧
      ∀ i < g.layout.size, h'.mem (b.ptr + i) = h.mem (g.block.ptr + i) := by
  obtain ⟨h₁, halloc, rfl⟩ := BumpArena.relocate_some heq
  obtain ⟨hiss, hge, hlen, hmem⟩ := hh.allocate_some hR halloc
  refine ⟨⟨?_, fun g' hg' => hiss.fresh g' hg'.1, ?_⟩, ?_⟩
  · exact (hiss.inv.mono (Set.insert_subset_insert Set.sdiff_subset)).congr
      hiss.inv.sound le_rfl
  · rintro x ⟨g', hg', hx⟩
    have hx' : x ∉ b.bytes := fun hxb =>
      Set.disjoint_left.mp (hiss.fresh g' hg'.1) hxb hx
    rw [Block.mem_bytes] at hx'
    rw [← hmem]
    exact copyBytes_of_not_mem (by omega)
  · intro i hi
    rw [← hmem]
    exact copyBytes_add hi

/-- Of the blocks below the cursor, none but the last one reaches into its extension. -/
theorem Holds.fresh_of_extends (hh : Holds R base h L) (hg : g ∈ L) {n : Nat}
    (hend : g.block.ptr + g.block.len = base + h.alloc.cursor) :
    ∀ g' ∈ L \ {g}, Disjoint (Block.bytes ⟨g.block.ptr, n⟩) g'.block.bytes := by
  intro g' hg'
  have hd : Disjoint g.block.bytes g'.block.bytes :=
    hh.disjoint hg hg'.1 (fun heq => hg'.2 heq.symm)
  have hle := hh.le_cursor g' hg'.1
  have hpos : 0 < g.block.len := by
    rw [hh.len_eq g hg]
    exact g.layout.size_pos
  rw [Block.disjoint_iff] at hd ⊢
  simp only
  omega

theorem Holds.ptr_lt (hh : Holds R base h L) (hg : g ∈ L) : g.block.ptr < 2 ^ w := by
  have := hh.le_cursor g hg
  have := hh.sound.end_lt
  have := hh.sound.cursor_le
  omega

/-- The in-place branch of `grow` is taken and its commit succeeds. -/
def GrowsInPlace (R : FixedRange β) (ptr n m : Nat) (a : BumpArena β) : Prop :=
  Extends R ptr n m a ∧ (R.commit (ptr - R.base a.backing) m a.backing).1 = true

/-- **`grow` of a live block**, whatever the alignments are: the contract's clause holds as soon
as an in-place extension happens to be aligned. -/
theorem Holds.grow_some (hR : R.Lawful) (hh : Holds R base h L) (hg : g ∈ L)
    (hsize : g.layout.size ≤ new.size)
    (halign : GrowsInPlace R g.block.ptr g.layout.size new.size h.alloc →
      new.align ∣ g.block.ptr)
    (heq : grow R g.block.ptr g.layout new h = (some b, h')) :
    Issued (Holds R base) (L \ {g}) h h' b new ∧
      ∀ i < g.layout.size, h'.mem (b.ptr + i) = h.mem (g.block.ptr + i) := by
  by_cases hext : Extends R g.block.ptr g.layout.size new.size h.alloc
  · rw [grow_of_extends hh.sound hext] at heq
    split at heq
    case h_1 => cases heq
    case h_2 s' hcommit =>
        cases heq
        have hdvd := halign ⟨hext, by rw [hh.sound.base_eq, hcommit]⟩
        obtain ⟨hle, hend, hcap⟩ := hext
        rw [hh.sound.base_eq] at hle hend hcap
        rw [← hh.len_eq g hg] at hend
        have hlt := hh.sound.end_lt
        have hlen := hh.len_eq g hg
        have hs' : Sound w R base
            { h.alloc with backing := s', cursor := g.block.ptr - base + new.size } :=
          ⟨(hR.base_of_commit hcommit).trans hh.sound.base_eq, hlt, by simp only; omega⟩
        have hfresh := hh.fresh_of_extends hg (n := new.size) hend
        refine ⟨⟨?_, hfresh, fun _ _ => rfl⟩, fun _ _ => rfl⟩
        exact (hh.mono Set.sdiff_subset).insert hs' (by simp only; omega) rfl hdvd hle
          (by simp only; omega) hfresh
  · rcases grow_of_not_extends hh.sound (hh.ptr_lt hg) hext with hnone | hrel
    · rw [hnone] at heq
      cases heq
    · rw [hrel] at heq
      exact hh.relocate_some hR hsize heq

theorem Holds.grow_none (hR : R.Lawful) (hh : Holds R base h L) (hg : g ∈ L)
    (heq : grow R g.block.ptr g.layout new h = (none, h')) :
    Unchanged (Holds R base) L h h' := by
  by_cases hext : Extends R g.block.ptr g.layout.size new.size h.alloc
  · rw [grow_of_extends hh.sound hext] at heq
    split at heq
    case h_1 s' hcommit =>
        cases heq
        refine ⟨hh.congr ?_ le_rfl, fun _ _ => rfl⟩
        exact ⟨(hR.base_of_commit hcommit).trans hh.sound.base_eq, hh.sound.end_lt,
          hh.sound.cursor_le⟩
    case h_2 => cases heq
  · rcases grow_of_not_extends hh.sound (hh.ptr_lt hg) hext with hnone | hrel
    · rw [hnone] at heq
      cases heq
      exact ⟨hh, fun _ _ => rfl⟩
    · rw [hrel] at heq
      exact hh.allocate_none hR (relocate_none heq)

theorem honoursCore (hR : R.Lawful) (base : Nat) (hbase : 0 < base) :
    HonoursCore (allocator w R) (Holds R base) where
  satisfies := fun {h L g} hh hg => by
    have h1 := hh.base_le g hg
    have h2 := hh.le_cursor g hg
    have h3 := hh.sound.end_lt
    have h4 := hh.sound.cursor_le
    exact ⟨hh.aligned g hg, le_of_eq (hh.len_eq g hg).symm, by omega, by omega⟩
  disjoint := fun hh hg hg' hne => hh.disjoint hg hg' hne
  allocate_some := fun hh heq => (hh.allocate_some hR heq).1
  allocate_none := fun hh heq => hh.allocate_none hR heq
  deallocate := fun hh _ => ⟨hh.mono Set.sdiff_subset, fun _ _ => rfl⟩
  write := fun hh _ => hh.congr hh.sound le_rfl

/-- **`BumpArena` meets the `Allocator` contract**, and its blocks lie in its range. -/
theorem honours (hR : R.Lawful) (base : Nat) (hbase : 0 < base) :
    HonoursRange (allocator w R) (range R) (Holds R base) where
  toHonoursCore := honoursCore hR base hbase
  grow_some := fun hh hg hsize halign heq =>
    hh.grow_some hR hg hsize (fun _ => halign ▸ hh.aligned _ hg) heq
  grow_none := fun hh hg _ _ heq => hh.grow_none hR hg heq
  shrink_some := fun hh hg hsize _ heq =>
    (honoursCore hR base hbase).defaultShrink_some hh hg hsize heq
  shrink_none := fun hh _ _ _ heq => (honoursCore hR base hbase).defaultShrink_none hh heq
  usableSize := fun _ _ heq => by cases heq
  base_le := fun {h L g} hh hg => by
    have := hh.base_le g hg
    rwa [← hh.sound.base_eq] at this
  le_end := fun {h L g} hh hg => by
    have h1 := hh.le_cursor g hg
    have h2 := hh.sound.cursor_le
    have h3 : (range R).base h.alloc = base := hh.sound.base_eq
    have h4 : (range R).size h.alloc = h.alloc.capacity := rfl
    omega
  base_pos := fun hh => by
    have h3 : (range R).base _ = base := hh.sound.base_eq
    omega
  end_le := fun {h L} hh => by
    have h3 : (range R).base h.alloc = base := hh.sound.base_eq
    have h4 : (range R).size h.alloc = h.alloc.capacity := rfl
    have := hh.sound.end_lt
    omega
  base_allocate := fun _ => base_allocate hR
  base_deallocate := fun _ _ => rfl

theorem capacity_reserve (w : Nat) (R : FixedRange β) (size align : Nat) (a : BumpArena β) :
    (reserve w R size align a).2.capacity = a.capacity := by
  simp only [reserve]
  split
  · rfl
  · split <;> rfl

/-- A request commits in the backing and moves the cursor, and writes nothing. -/
theorem quiet_allocate (hR : R.Lawful) (l : NonZeroLayout w) (h : Heap (BumpArena β)) :
    (range R).block (allocate R l h).2.alloc = (range R).block h.alloc ∧
      (allocate R l h).2.mem = h.mem := by
  have hbase : R.base (allocate R l h).2.alloc.backing = R.base h.alloc.backing := base_allocate hR
  have hcap := capacity_reserve w R l.size l.align h.alloc
  have hcapacity : (allocate R l h).2.alloc.capacity = h.alloc.capacity := by
    unfold allocate
    split
    case h_1 a heq => rw [heq] at hcap; exact hcap
    case h_2 p a heq => rw [heq] at hcap; exact hcap
  refine ⟨congrArg₂ Block.mk hbase hcapacity, ?_⟩
  unfold allocate
  split <;> rfl

/-- **An arena owns its range.** It never touches the memory itself. -/
theorem ownsRange (hR : R.Lawful) (base : Nat) (hbase : 0 < base) :
    OwnsRange (allocator w R) (defaultAllocateZeroed (allocate R)) (range R) (Holds R base) :=
  (honours hR base hbase).ownsRange (fun l _ => quiet_allocate hR l _) (fun _ _ => ⟨rfl, rfl⟩)
    fun _ hh => hh.congr hh.sound le_rfl

/-- Nothing is out of an arena whose value is sound. -/
theorem holds_empty (hs : Sound w R base a) (m : Mem) : Holds (w := w) R base ⟨a, m⟩ ∅ where
  sound := hs
  len_eq := fun _ hg => absurd hg (Set.notMem_empty _)
  aligned := fun _ hg => absurd hg (Set.notMem_empty _)
  base_le := fun _ hg => absurd hg (Set.notMem_empty _)
  le_cursor := fun _ hg => absurd hg (Set.notMem_empty _)
  disjoint := Set.pairwise_empty _

theorem holds_new {b : β} {a : BumpArena β} (hnew : BumpArena.new w R b = some a) (m : Mem) :
    Holds (w := w) R (R.base b) ⟨a, m⟩ ∅ := holds_empty (sound_new hnew).1 m

end BumpArena

/-! ## Arenas over their own range -/

/-- A value with a range and a cursor of its own, as the arena `toArena` over that range: `commit` is
its way to commit bytes, and `advance` its way to publish a cursor. -/
structure SelfArena {σ : Type} (R : FixedRange β) (toArena : σ → BumpArena β) where
  commit : Nat → Nat → σ → Bool × σ
  advance : Nat → σ → σ
  commit_eq : ∀ off len s, R.commit off len (toArena s).backing =
    ((commit off len s).1, (toArena (commit off len s).2).backing)
  toArena_commit : ∀ off len s, toArena (commit off len s).2 =
    { toArena s with backing := (toArena (commit off len s).2).backing }
  toArena_advance : ∀ fin s, toArena (advance fin s) = { toArena s with cursor := fin }

namespace SelfArena

variable {σ : Type} {R : FixedRange β} {toArena : σ → BumpArena β}

/-- The step of such a value. -/
def allocate (E : SelfArena R toArena) (l : NonZeroLayout w) (h : Heap σ) :
    Option Block × Heap σ :=
  let a := toArena h.alloc
  match bump w (R.base a.backing) a.capacity a.cursor l.size l.align with
  | none => (none, h)
  | some (alignedOff, endOff) =>
      match E.commit alignedOff l.size h.alloc with
      | (false, s) => (none, ⟨s, h.mem⟩)
      | (true, s) => (some ⟨R.base a.backing + alignedOff, l.size⟩, ⟨E.advance endOff s, h.mem⟩)

/-- **It is `BumpArena::allocate`** over the range. -/
theorem allocate_toArena (E : SelfArena R toArena) (l : NonZeroLayout w) (h : Heap σ) :
    BumpArena.allocate R l (h.map toArena) =
      ((E.allocate l h).1, (E.allocate l h).2.map toArena) := by
  rcases hbump : bump w (R.base (toArena h.alloc).backing) (toArena h.alloc).capacity
    (toArena h.alloc).cursor l.size l.align with _ | ⟨off, fin⟩
  · simp only [allocate, BumpArena.allocate, BumpArena.reserve, Heap.map, hbump]
  · have hcommit := E.commit_eq off l.size h.alloc
    have hkept := E.toArena_commit off l.size h.alloc
    rcases hown : E.commit off l.size h.alloc with ⟨ok, s⟩
    rw [hown] at hcommit hkept
    cases ok with
    | false =>
        simp only [allocate, BumpArena.allocate, BumpArena.reserve, Heap.map, hbump, hown, hcommit]
        rw [hkept]
    | true =>
        simp only [allocate, BumpArena.allocate, BumpArena.reserve, Heap.map, hbump, hown, hcommit,
          E.toArena_advance]
        rw [hkept]

end SelfArena

end ForgeAlloc
