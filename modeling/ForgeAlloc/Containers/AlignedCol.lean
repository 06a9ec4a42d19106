import ForgeAlloc.Core.Policing
import ForgeAlloc.Layout.Bump

set_option autoImplicit false

/-! # `AlignedColBuffer`: an over-aligned byte buffer

The buffer is the triple of a pointer, a length and a capacity; capacity zero means that no
allocation is held. The global allocator is the argument `A`. A fallible method returns whether it
was `Ok`, with the buffer and the heap it leaves.

`Owns` says what the buffer has taken from the allocator: nothing while the capacity is zero, and
otherwise one block, at the pointer, under the layout of the capacity and `ALIGN`. `grow_to` keeps
it and the bytes of the block, also when the allocator fails (`growTo_spec`, `reserve_spec`).
-/

namespace ForgeAlloc

open MachineInt ByteMemory

/-- `AlignedColBuffer<ALIGN>`. -/
structure AlignedColBuffer (align : Nat) where
  ptr : Nat
  len : Nat
  cap : Nat

namespace AlignedColBuffer

variable {w align : Nat} {σ : Type}

/-- `AlignedColBuffer::new`: the pointer is a sentinel, the address `ALIGN`. -/
def new (align : Nat) : AlignedColBuffer align := ⟨align, 0, 0⟩

/-- `AlignedColBuffer::grow_to`. -/
def growTo (A : Allocator w σ) (newCap : Nat) (buf : AlignedColBuffer align) (h : Heap σ) :
    Bool × AlignedColBuffer align × Heap σ :=
  match NonZeroLayout.fromSizeAlign w newCap align with
  | none => (false, buf, h)
  | some newLayout =>
      if buf.cap = 0 then
        match A.allocate newLayout h with
        | (none, h') => (false, buf, h')
        | (some newBlock, h') => (true, ⟨newBlock.ptr, buf.len, newCap⟩, h')
      else
        match NonZeroLayout.fromSizeAlign w buf.cap align with
        | none => (false, buf, h)
        | some oldLayout =>
            match A.grow buf.ptr oldLayout newLayout h with
            | (none, h') => (false, buf, h')
            | (some newBlock, h') => (true, ⟨newBlock.ptr, buf.len, newCap⟩, h')

/-- `AlignedColBuffer::reserve`. -/
def reserve (A : Allocator w σ) (additional : Nat) (buf : AlignedColBuffer align) (h : Heap σ) :
    Bool × AlignedColBuffer align × Heap σ :=
  match checkedAdd w buf.len additional with
  | none => (false, buf, h)
  | some required =>
      if required ≤ buf.cap then (true, buf, h)
      else growTo A (max required (saturatingMul w buf.cap 2)) buf h

/-- `AlignedColBuffer::with_capacity`. -/
def withCapacity (A : Allocator w σ) (align capacity : Nat) (h : Heap σ) :
    Bool × AlignedColBuffer align × Heap σ :=
  if 0 < capacity then growTo A capacity (new align) h else (true, new align, h)

/-- The bytes `bs` are copied behind the first `len` ones, and `len` is advanced. -/
def store (bs : List UInt8) (buf : AlignedColBuffer align) (h : Heap σ) :
    AlignedColBuffer align × Heap σ :=
  (⟨buf.ptr, buf.len + bs.length, buf.cap⟩, ⟨h.alloc, writeBytes h.mem (buf.ptr + buf.len) bs⟩)

/-- `AlignedColBuffer::push`. -/
def push (A : Allocator w σ) (byte : UInt8) (buf : AlignedColBuffer align) (h : Heap σ) :
    Bool × AlignedColBuffer align × Heap σ :=
  if buf.len = buf.cap then
    match reserve A 1 buf h with
    | (false, buf', h') => (false, buf', h')
    | (true, buf', h') => (true, store [byte] buf' h')
  else (true, store [byte] buf h)

/-- `AlignedColBuffer::extend_from_slice`. -/
def extendFromSlice (A : Allocator w σ) (bytes : List UInt8) (buf : AlignedColBuffer align)
    (h : Heap σ) : Bool × AlignedColBuffer align × Heap σ :=
  match reserve A bytes.length buf h with
  | (false, buf', h') => (false, buf', h')
  | (true, buf', h') => (true, store bytes buf' h')

/-- `AlignedColBuffer::extend_from_typed`: the `size_of_val` bytes of the slice. -/
def extendFromTyped (A : Allocator w σ) (T : RustType w) (slice : Slice T)
    (buf : AlignedColBuffer align) (h : Heap σ) : Bool × AlignedColBuffer align × Heap σ :=
  match reserve A (T.size * slice.len) buf h with
  | (false, buf', h') => (false, buf', h')
  | (true, buf', h') => (true, store slice.bytes buf' h')

/-- `AlignedColBuffer::clear`. -/
def clear (buf : AlignedColBuffer align) : AlignedColBuffer align := ⟨buf.ptr, 0, buf.cap⟩

/-- `AlignedColBuffer::as_bytes`. -/
def asBytes (buf : AlignedColBuffer align) (m : Mem) : List UInt8 := readBytes m buf.ptr buf.len

/-- `AlignedColBuffer::as_typed`: the number of elements, and the bytes they consist of. -/
def asTyped (T : RustType w) (buf : AlignedColBuffer align) (m : Mem) :
    Option (Nat × List UInt8) :=
  if T.size = 0 ∨ buf.len % T.size ≠ 0 ∨ buf.ptr % T.align ≠ 0 then none
  else some (buf.len / T.size, readBytes m buf.ptr (T.size * (buf.len / T.size)))

/-- `Drop for AlignedColBuffer`; `none` when the layout does not exist, which panics. -/
def drop (A : Allocator w σ) (buf : AlignedColBuffer align) (h : Heap σ) : Option (Heap σ) :=
  if buf.cap = 0 then some h
  else
    match NonZeroLayout.fromSizeAlign w buf.cap align with
    | none => none
    | some layout => some (A.deallocate buf.ptr layout h)

/-- The ticket of the allocation that is held. -/
def ticket (w : Nat) (buf : AlignedColBuffer align) : Option (Ticket w) :=
  (NonZeroLayout.fromSizeAlign w buf.cap align).map fun l => (buf.ptr, l)

/-- Reserving in a new buffer is all that `with_capacity` does. -/
theorem withCapacity_eq (A : Allocator w σ) {capacity : Nat} (hcap : capacity < 2 ^ w)
    (h : Heap σ) : withCapacity A align capacity h = reserve A capacity (new align) h := by
  have hadd : checkedAdd w (new align).len capacity = some capacity :=
    checkedAdd_eq_some.mpr ⟨by simp [new]; exact hcap, by simp [new]⟩
  rw [reserve, hadd]
  show withCapacity A align capacity h =
    if capacity ≤ 0 then (true, new align, h)
    else growTo A (max capacity (saturatingMul w 0 2)) (new align) h
  rw [saturatingMul, Nat.zero_mul, Nat.zero_min, Nat.max_zero]
  rcases Nat.eq_zero_or_pos capacity with rfl | hpos
  · rfl
  · rw [withCapacity, if_pos hpos, if_neg (by omega)]

/-! ## What the buffer owns -/

open Policed

/-- What the buffer has taken from the allocator, next to the blocks `K` of everybody else. -/
inductive Owns (Inv : Heap σ → Set (Grant w) → Prop) (K : Set (Grant w))
    (buf : AlignedColBuffer align) (h : Heap (Policed w σ)) : Prop
  | nothing (hcap : buf.cap = 0) (hptr : buf.ptr = align) (holding : Holding Inv K h none) :
      Owns Inv K buf h
  | block (g : Grant w) (hcap : g.layout.size = buf.cap) (halign : g.layout.align = align)
      (hptr : g.block.ptr = buf.ptr) (holding : Holding Inv K h (some g)) : Owns Inv K buf h

variable {A : Allocator w σ} {Inv : Heap σ → Set (Grant w) → Prop} {K : Set (Grant w)}
  {buf buf' : AlignedColBuffer align} {h h' : Heap (Policed w σ)} {ok : Bool}

theorem Owns.align_dvd (hA : Honours A Inv) (ho : Owns Inv K buf h) : align ∣ buf.ptr := by
  cases ho with
  | nothing _ hptr _ => exact Dvd.intro 1 (by rw [hptr, Nat.mul_one])
  | block g _ halign hptr hh =>
      have hdvd := (hh.satisfies hA.toHonoursCore).aligned
      rw [halign, hptr] at hdvd
      exact hdvd

theorem Owns.clean (ho : Owns Inv K buf h) : h.alloc.misused = false := by
  cases ho with
  | nothing _ _ hh => exact hh.clean
  | block _ _ _ _ hh => exact hh.clean

/-- What is out is the ticket of the allocation that is held, and nothing else. -/
theorem Owns.out (ho : Owns Inv K buf h) : h.alloc.out = (buf.ticket w).toList := by
  cases ho with
  | nothing hcap _ hh =>
      have hnone : NonZeroLayout.fromSizeAlign w buf.cap align = none := by
        rw [hcap, NonZeroLayout.fromSizeAlign, dif_neg (by omega)]
      rw [hh.out, ticket, hnone]
      rfl
  | block g hcap halign hptr hh =>
      have hsome : NonZeroLayout.fromSizeAlign w buf.cap align = some g.layout :=
        NonZeroLayout.fromSizeAlign_eq_some.mpr ⟨hcap, halign⟩
      rw [hh.out, ticket, hsome, ← hptr]
      rfl

theorem Owns.cap_lt (ho : Owns Inv K buf h) : buf.cap < 2 ^ w := by
  cases ho with
  | nothing hcap _ _ =>
      rw [hcap]
      exact Nat.two_pow_pos w
  | block g hcap _ _ _ =>
      rw [← hcap]
      exact g.layout.size_lt

/-- Writes into the capacity keep what is owned, and everybody else's bytes. -/
theorem Owns.write (hA : Honours A Inv) (ho : Owns Inv K buf h) {m : Mem}
    (hm : ∀ x, ¬ (buf.ptr ≤ x ∧ x < buf.ptr + buf.cap) → m x = h.mem x) :
    Owns Inv K buf ⟨h.alloc, m⟩ ∧ Set.EqOn m h.mem (liveBytes K) := by
  cases ho with
  | nothing hcap hptr hh =>
      have heq : m = h.mem := funext fun x => hm x (by omega)
      subst heq
      exact ⟨.nothing hcap hptr hh, fun x _ => rfl⟩
  | block g hcap halign hptr hh =>
      have hlarge := (hh.satisfies hA.toHonoursCore).large
      have hout : Set.EqOn m h.mem (Set.compl g.block.bytes) := by
        intro x hx
        refine hm x fun hin => hx ?_
        rw [Block.mem_bytes]
        omega
      refine ⟨.block g hcap halign hptr (hh.write hA.toHonoursCore hout), fun x hx => ?_⟩
      exact hout fun hxg => Set.disjoint_left.mp (hh.disjoint hA.toHonoursCore) hxg hx

/-! ## Growth -/

/-- The outcome of a call that may reallocate: what is owned after it, and the bytes it keeps. -/
structure Grown (Inv : Heap σ → Set (Grant w) → Prop) (K : Set (Grant w))
    (buf buf' : AlignedColBuffer align) (h h' : Heap (Policed w σ)) : Prop where
  owns : Owns Inv K buf' h'
  len_eq : buf'.len = buf.len
  cap_le : buf.cap ≤ buf'.cap
  keep : ∀ i < buf.cap, h'.mem (buf'.ptr + i) = h.mem (buf.ptr + i)
  others : Set.EqOn h'.mem h.mem (liveBytes K)

theorem Grown.refl (ho : Owns Inv K buf h) : Grown Inv K buf buf h h :=
  ⟨ho, rfl, le_rfl, fun _ _ => rfl, fun _ _ => rfl⟩

/-- The first bytes are still there. -/
theorem Grown.asBytes (hg : Grown Inv K buf buf' h h') (hlen : buf.len ≤ buf.cap) :
    buf'.asBytes h'.mem = buf.asBytes h.mem := by
  unfold AlignedColBuffer.asBytes
  rw [hg.len_eq]
  exact readBytes_congr fun i hi => hg.keep i (hi.trans_le hlen)

theorem Owns.growTo_nothing (hA : Honours A Inv) (hcap : buf.cap = 0) (hptr : buf.ptr = align)
    (hh : Holding Inv K h none) {newCap : Nat}
    (heq : growTo (policed A) newCap buf h = (ok, buf', h')) :
    Grown Inv K buf buf' h h' ∧ (ok = true → buf'.cap = newCap) ∧ (ok = false → buf' = buf) := by
  unfold growTo at heq
  split at heq
  case h_1 =>
      cases heq
      exact ⟨.refl (.nothing hcap hptr hh), by simp, fun _ => rfl⟩
  case h_2 l hl =>
      rw [if_pos hcap] at heq
      obtain ⟨hsize, halign⟩ := NonZeroLayout.fromSizeAlign_eq_some.mp hl
      split at heq
      case h_1 h₁ hcall =>
          cases heq
          obtain ⟨hh', hframe⟩ := hh.allocate_none hA.toHonoursCore hcall
          refine ⟨⟨.nothing hcap hptr hh', rfl, le_rfl, fun i hi => ?_, hframe⟩, by simp,
            fun _ => rfl⟩
          omega
      case h_2 b h₁ hcall =>
          cases heq
          obtain ⟨hh', hframe⟩ := hh.allocate_some hA.toHonoursCore hcall
          refine ⟨⟨.block ⟨b, l⟩ hsize halign rfl hh', rfl, ?_, fun i hi => ?_, hframe⟩,
            fun _ => rfl, by simp⟩
          · rw [hcap]
            exact Nat.zero_le _
          · omega

theorem Owns.growTo_block (hA : Honours A Inv) {g : Grant w} (hcap : g.layout.size = buf.cap)
    (halign : g.layout.align = align) (hptr : g.block.ptr = buf.ptr)
    (hh : Holding Inv K h (some g)) {newCap : Nat} (hlt : buf.cap < newCap)
    (heq : growTo (policed A) newCap buf h = (ok, buf', h')) :
    Grown Inv K buf buf' h h' ∧ (ok = true → buf'.cap = newCap) ∧ (ok = false → buf' = buf) := by
  have hold : NonZeroLayout.fromSizeAlign w buf.cap align = some g.layout :=
    NonZeroLayout.fromSizeAlign_eq_some.mpr ⟨hcap, halign⟩
  have hpos : buf.cap ≠ 0 := by
    have := g.layout.size_pos
    omega
  unfold growTo at heq
  split at heq
  case h_1 =>
      cases heq
      exact ⟨.refl (.block g hcap halign hptr hh), by simp, fun _ => rfl⟩
  case h_2 l hl =>
      obtain ⟨hsize, halign'⟩ := NonZeroLayout.fromSizeAlign_eq_some.mp hl
      have hle : g.layout.size ≤ l.size := by omega
      have hsame : g.layout.align = l.align := halign.trans halign'.symm
      rw [if_neg hpos, hold, ← hptr] at heq
      simp only at heq
      split at heq
      case h_1 h₁ hcall =>
          cases heq
          obtain ⟨hh', hframe⟩ := hh.grow_none hA hle hsame hcall
          have hlarge := (hh.satisfies hA.toHonoursCore).large
          refine ⟨⟨.block g hcap halign hptr hh', rfl, le_rfl, fun i hi => ?_, ?_⟩, by simp,
            fun _ => rfl⟩
          · refine hframe ⟨g, Set.mem_insert g K, ?_⟩
            rw [Block.mem_bytes]
            omega
          · exact hframe.mono (liveBytes_mono (Set.subset_insert g K))
      case h_2 b h₁ hcall =>
          cases heq
          obtain ⟨hh', hframe, hcopy⟩ := hh.grow_some hA hle hsame hcall
          refine ⟨⟨.block ⟨b, l⟩ hsize halign' rfl hh', rfl, hlt.le, fun i hi => ?_, hframe⟩,
            fun _ => rfl, by simp⟩
          rw [← hptr]
          exact hcopy i (by omega)

/-- **`grow_to` to a larger capacity.** -/
theorem Owns.growTo_spec (hA : Honours A Inv) (ho : Owns Inv K buf h) {newCap : Nat}
    (hlt : buf.cap < newCap) (heq : growTo (policed A) newCap buf h = (ok, buf', h')) :
    Grown Inv K buf buf' h h' ∧ (ok = true → buf'.cap = newCap) ∧ (ok = false → buf' = buf) := by
  cases ho with
  | nothing hcap hptr hh => exact Owns.growTo_nothing hA hcap hptr hh heq
  | block g hcap halign hptr hh => exact Owns.growTo_block hA hcap halign hptr hh hlt heq

/-- **`reserve`**: afterwards there is room, or nothing has changed. -/
theorem Owns.reserve_spec (hA : Honours A Inv) (ho : Owns Inv K buf h) {additional : Nat}
    (heq : reserve (policed A) additional buf h = (ok, buf', h')) :
    Grown Inv K buf buf' h h' ∧ (ok = true → buf.len + additional ≤ buf'.cap) ∧
      (ok = false → buf' = buf) := by
  unfold reserve at heq
  split at heq
  case h_1 =>
      cases heq
      exact ⟨.refl ho, by simp, fun _ => rfl⟩
  case h_2 required hreq =>
      obtain ⟨-, rfl⟩ := checkedAdd_eq_some.mp hreq
      split at heq
      case isTrue hle =>
          cases heq
          exact ⟨.refl ho, fun _ => hle, by simp⟩
      case isFalse hgt =>
          have hlt : buf.cap < max (buf.len + additional) (saturatingMul w buf.cap 2) :=
            (Nat.lt_of_not_le hgt).trans_le (le_max_left _ _)
          obtain ⟨hgrown, hok, herr⟩ := ho.growTo_spec hA hlt heq
          refine ⟨hgrown, fun htrue => ?_, herr⟩
          rw [hok htrue]
          exact le_max_left _ _

/-- With room for a byte already there, `reserve` for it does nothing. -/
theorem reserve_one_of_lt {A : Allocator w σ} {h : Heap σ} (hlt : buf.len < buf.cap)
    (hcap : buf.cap < 2 ^ w) : reserve A 1 buf h = (true, buf, h) := by
  have hadd : checkedAdd w buf.len 1 = some (buf.len + 1) :=
    checkedAdd_eq_some.mpr ⟨by omega, rfl⟩
  rw [reserve, hadd]
  exact if_pos hlt

/-- **The drop** gives back what is owned. -/
theorem Owns.drop_spec (hA : Honours A Inv) (ho : Owns Inv K buf h) :
    ∃ h', buf.drop (policed A) h = some h' ∧ Holding Inv K h' none ∧
      Set.EqOn h'.mem h.mem (liveBytes K) := by
  cases ho with
  | nothing hcap _ hh => exact ⟨h, if_pos hcap, hh, fun x _ => rfl⟩
  | block g hcap halign hptr hh =>
      have hpos : buf.cap ≠ 0 := by
        have := g.layout.size_pos
        omega
      have hl : NonZeroLayout.fromSizeAlign w buf.cap align = some g.layout :=
        NonZeroLayout.fromSizeAlign_eq_some.mpr ⟨hcap, halign⟩
      refine ⟨(policed A).deallocate g.block.ptr g.layout h, ?_, hh.deallocate hA.toHonoursCore⟩
      rw [drop, if_neg hpos, hl, hptr]

end AlignedColBuffer

end ForgeAlloc
