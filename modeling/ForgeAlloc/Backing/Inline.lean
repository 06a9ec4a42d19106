import ForgeAlloc.Core.Allocator

set_option autoImplicit false

/-! # `InlineBacked`

`N` bytes inside the value itself. The region starts where the value is, so a move of the value
moves the region: the type asks for an alignment of 16 and for nothing more. Requests of a larger
alignment are refused by `allocate`, but a bump arena over the value goes by the range only.
-/

namespace ForgeAlloc

open MachineInt ByteMemory

/-- `MAX_ALIGN`. -/
def maxAlign : Nat := 16

/-- The value at the address `addr`, which is where its storage starts. -/
structure InlineBacked (w N : Nat) where
  addr : Nat
  cursor : Nat
  addr_pos : 0 < addr
  /-- The type is declared `align(16)`. -/
  addr_aligned : maxAlign ∣ addr
  inSpace : addr + N ≤ 2 ^ w
  cursor_le : cursor ≤ N

namespace InlineBacked

variable {w N : Nat}

/-- `InlineBacked::new`, at the address where the value is built. -/
def new (addr : Nat) (hpos : 0 < addr) (haligned : maxAlign ∣ addr) (hspace : addr + N ≤ 2 ^ w) :
    InlineBacked w N :=
  ⟨addr, 0, hpos, haligned, hspace, Nat.zero_le N⟩

/-- A fresh value at a known address. -/
def lit (w N addr : Nat) (h : decide (0 < addr ∧ maxAlign ∣ addr ∧ addr + N ≤ 2 ^ w) = true) :
    InlineBacked w N :=
  new addr (of_decide_eq_true h).1 (of_decide_eq_true h).2.1 (of_decide_eq_true h).2.2

def allocated (s : InlineBacked w N) : Nat := s.cursor

def capacity (_s : InlineBacked w N) : Nat := N

def remaining (s : InlineBacked w N) : Nat := N - s.allocated

def reset (s : InlineBacked w N) : InlineBacked w N :=
  { s with cursor := 0, cursor_le := Nat.zero_le N }

/-- The value after a move to `addr`, an address its type permits. -/
def moveTo (s : InlineBacked w N) (addr : Nat) (hpos : 0 < addr) (haligned : maxAlign ∣ addr)
    (hspace : addr + N ≤ 2 ^ w) : InlineBacked w N :=
  ⟨addr, s.cursor, hpos, haligned, hspace, s.cursor_le⟩

theorem end_le {base cap cur size align off fin : Nat}
    (h : chainedBump w base cap cur size align = some (off, fin)) : fin ≤ cap := by
  rw [chainedBump_eq] at h
  exact (bump_bounds h).2

def allocate (l : NonZeroLayout w) (h : Heap (InlineBacked w N)) :
    Option Block × Heap (InlineBacked w N) :=
  if maxAlign < l.align then (none, h)
  else
    match hbump : chainedBump w h.alloc.addr N h.alloc.cursor l.size l.align with
    | none => (none, h)
    | some (alignedOff, endOff) =>
        (some ⟨h.alloc.addr + alignedOff, l.size⟩,
          ⟨{ h.alloc with cursor := endOff, cursor_le := end_le hbump }, h.mem⟩)

/-- `deallocate` does nothing. -/
def deallocate (_ptr : Nat) (_l : NonZeroLayout w) (h : Heap (InlineBacked w N)) :
    Heap (InlineBacked w N) := h

def allocator (w N : Nat) : Allocator w (InlineBacked w N) where
  allocate := allocate
  deallocate := deallocate
  grow := defaultGrow allocate deallocate
  shrink := defaultShrink allocate deallocate
  usableSize := fun _ _ _ => none

def range (w N : Nat) : FixedRange (InlineBacked w N) where
  base := fun s => s.addr
  size := fun _ => N
  commit := fun _ _ s => (true, s)

theorem range_lawful (w N : Nat) : (range w N).Lawful :=
  ⟨fun s => s.addr_pos, fun _ _ _ => rfl, fun _ _ _ => rfl⟩

/-- A block is aligned as requested wherever the value is. -/
theorem allocate_aligned {l : NonZeroLayout w} {h h' : Heap (InlineBacked w N)} {b : Block}
    (heq : allocate l h = (some b, h')) : l.align ∣ b.ptr := by
  obtain ⟨k, hk, hkw⟩ := l.exists_align
  unfold allocate at heq
  split at heq
  · cases heq
  · split at heq
    · cases heq
    case h_2 off fin hbump =>
        cases heq
        rw [chainedBump_eq, hk] at hbump
        rw [hk]
        exact dvd_add_of_bump hkw hbump

end InlineBacked

end ForgeAlloc
