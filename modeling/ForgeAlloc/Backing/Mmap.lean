import ForgeAlloc.Layout.Bump

set_option autoImplicit false

/-! # `MmapBacked`

A mapping obtained from the operating system, with a bump cursor. On Windows a lazily committed
mapping starts as reserved address space, and `commit` asks the system for the pages from the
watermark up to the end of the request, so what is committed is always a prefix. The system may
decline. On Unix there is nothing to commit.

What the system decides is part of the state of the mapping: `OsMemory` holds its answers to the
requests to come and the ranges it has committed so far.

`MmapBacked` is, through `toArena`, a `BumpArena` over the mapping's own range (`allocate_toArena`).
-/

namespace ForgeAlloc

open MachineInt ByteMemory

/-- The platform. `page_size()` is a power of two on all of them. -/
structure Os where
  windows : Bool
  pageSize : Nat
  pageSize_pow : pageSize.isPowerOfTwo

/-- The page of most systems. -/
theorem isPowerOfTwo_smallPage : (4096 : Nat).isPowerOfTwo := ⟨12, rfl⟩

/-- The system's side of a mapping. -/
structure OsMemory where
  /-- The answers to the requests to come; afterwards every request is granted. -/
  answers : List Bool
  /-- The committed ranges. -/
  committed : List Block

/-- `VirtualAlloc(MEM_COMMIT)` on a range. -/
def OsMemory.request (b : Block) (m : OsMemory) : Bool × OsMemory :=
  if m.answers.headD true = true then (true, ⟨m.answers.tail, b :: m.committed⟩)
  else (false, ⟨m.answers.tail, m.committed⟩)

structure MmapBacked where
  ptr : Nat
  len : Nat
  cursor : Nat
  /-- The watermark: the bytes from `ptr` up to it are committed. -/
  committed : Nat
  system : OsMemory
  ptr_pos : 0 < ptr

namespace MmapBacked

variable {w : Nat}

/-- `MmapBacked::with_flags`. The system maps at an address, or fails. -/
def withFlags (w : Nat) (os : Os) (size : Nat) (lazyCommit : Bool) (mapped : Option Nat)
    (answers : List Bool) : Option MmapBacked :=
  if size = 0 then none
  else do
    let padded ← checkedAdd w size (os.pageSize - 1)
    let len := maskDown w padded os.pageSize
    let ptr ← mapped
    if hptr : 0 < ptr then
      if os.windows = true ∧ lazyCommit = true then some ⟨ptr, len, 0, 0, ⟨answers, []⟩, hptr⟩
      else some ⟨ptr, len, 0, len, ⟨answers, [⟨ptr, len⟩]⟩, hptr⟩
    else none

/-- `MmapBacked::new`. -/
def new (w : Nat) (os : Os) (size : Nat) (mapped : Option Nat) : Option MmapBacked :=
  withFlags w os size false mapped []

def allocated (s : MmapBacked) : Nat := s.cursor

def capacity (s : MmapBacked) : Nat := s.len

def remaining (s : MmapBacked) : Nat := s.len - s.allocated

/-- `os_commit`. -/
def osCommit (w : Nat) (os : Os) (offset len : Nat) (s : MmapBacked) : Bool × MmapBacked :=
  if os.windows = true then
    match checkedAdd w offset len with
    | none => (false, s)
    | some fin =>
        match checkedAdd w fin (os.pageSize - 1) with
        | none => (false, s)
        | some padded =>
            let endPaged := min (maskDown w padded os.pageSize) s.len
            if endPaged ≤ s.committed then (true, s)
            else
              match s.system.request ⟨s.ptr + s.committed, endPaged - s.committed⟩ with
              | (false, system) => (false, { s with system := system })
              | (true, system) => (true, { s with committed := endPaged, system := system })
  else (true, s)

def allocate (os : Os) (l : NonZeroLayout w) (h : Heap MmapBacked) :
    Option Block × Heap MmapBacked :=
  match chainedBump w h.alloc.ptr h.alloc.len h.alloc.cursor l.size l.align with
  | none => (none, h)
  | some (alignedOff, endOff) =>
      match osCommit w os alignedOff l.size h.alloc with
      | (false, s) => (none, ⟨s, h.mem⟩)
      | (true, s) => (some ⟨h.alloc.ptr + alignedOff, l.size⟩, ⟨{ s with cursor := endOff }, h.mem⟩)

def allocator (w : Nat) (os : Os) : Allocator w MmapBacked where
  allocate := allocate os
  deallocate := fun _ _ h => h
  grow := defaultGrow (allocate os) (fun _ _ h => h)
  shrink := defaultShrink (allocate os) (fun _ _ h => h)
  usableSize := fun _ _ _ => none

def range (w : Nat) (os : Os) : FixedRange MmapBacked where
  base := fun s => s.ptr
  size := fun s => s.len
  commit := fun off len s => osCommit w os off len s

/-! ## The mapping as an arena -/

variable {os : Os}

/-- A commit does not look at the cursor, and changes the watermark and the system only. -/
theorem osCommit_eq (w : Nat) (os : Os) (off len : Nat) (s : MmapBacked) :
    ∃ ok committed system,
      osCommit w os off len s = (ok, { s with committed := committed, system := system }) ∧
      ∀ cursor, osCommit w os off len { s with cursor := cursor } =
        (ok, { s with cursor := cursor, committed := committed, system := system }) := by
  unfold osCommit
  split
  · split
    · exact ⟨false, s.committed, s.system, rfl, fun _ => rfl⟩
    · split
      · exact ⟨false, s.committed, s.system, rfl, fun _ => rfl⟩
      · simp only
        split
        · exact ⟨true, s.committed, s.system, rfl, fun _ => rfl⟩
        · split
          · exact ⟨false, s.committed, _, rfl, fun _ => rfl⟩
          · exact ⟨true, _, _, rfl, fun _ => rfl⟩
  · exact ⟨true, s.committed, s.system, rfl, fun _ => rfl⟩

/-- The arena over the bare mapping. -/
def toArena (s : MmapBacked) : BumpArena MmapBacked := ⟨{ s with cursor := 0 }, s.len, s.cursor⟩

/-- It commits bytes by itself. -/
def selfArena (w : Nat) (os : Os) : SelfArena (range w os) toArena where
  commit := osCommit w os
  advance := fun endOff s => { s with cursor := endOff }
  commit_eq := by
    intro off len s
    obtain ⟨ok, committed, system, hcommit, hcursor⟩ := osCommit_eq w os off len s
    show osCommit w os off len { s with cursor := 0 } = _
    rw [hcursor 0, hcommit]
    rfl
  toArena_commit := by
    intro off len s
    obtain ⟨ok, committed, system, hcommit, -⟩ := osCommit_eq w os off len s
    rw [hcommit]
    rfl
  toArena_advance := fun _ _ => rfl

theorem allocate_eq (l : NonZeroLayout w) (h : Heap MmapBacked) :
    allocate os l h = (selfArena w os).allocate l h := by
  rcases hbump : bump w h.alloc.ptr h.alloc.len h.alloc.cursor l.size l.align with _ | ⟨off, fin⟩
  · simp only [allocate, SelfArena.allocate, toArena, range, chainedBump_eq, hbump]
  · rcases hcommit : osCommit w os off l.size h.alloc with ⟨ok, s⟩
    cases ok with
    | false =>
        simp only [allocate, SelfArena.allocate, selfArena, toArena, range, chainedBump_eq, hbump,
          hcommit]
    | true =>
        simp only [allocate, SelfArena.allocate, selfArena, toArena, range, chainedBump_eq, hbump,
          hcommit]

/-- **`MmapBacked::allocate` is `BumpArena::allocate`** over the range of the mapping. -/
theorem allocate_toArena (l : NonZeroLayout w) (h : Heap MmapBacked) :
    BumpArena.allocate (range w os) l (h.map toArena) =
      ((allocate os l h).1, (allocate os l h).2.map toArena) := by
  rw [allocate_eq]
  exact (selfArena w os).allocate_toArena l h

/-- An allocation writes nothing, and leaves the mapping where it is. -/
theorem allocate_frame (l : NonZeroLayout w) (h : Heap MmapBacked) :
    (allocate os l h).2.mem = h.mem ∧ (allocate os l h).2.alloc.ptr = h.alloc.ptr ∧
      (allocate os l h).2.alloc.len = h.alloc.len := by
  unfold allocate
  split
  · exact ⟨rfl, rfl, rfl⟩
  case h_2 off fin hbump =>
      obtain ⟨ok, committed, system, hcommit, -⟩ := osCommit_eq w os off l.size h.alloc
      rw [hcommit]
      cases ok with
      | false => exact ⟨rfl, rfl, rfl⟩
      | true => exact ⟨rfl, rfl, rfl⟩

theorem range_lawful (w : Nat) (os : Os) : (range w os).Lawful where
  base_pos := fun s => s.ptr_pos
  base_commit := by
    intro off len s
    obtain ⟨ok, committed, system, hcommit, -⟩ := osCommit_eq w os off len s
    show (osCommit w os off len s).2.ptr = s.ptr
    rw [hcommit]
  size_commit := by
    intro off len s
    obtain ⟨ok, committed, system, hcommit, -⟩ := osCommit_eq w os off len s
    show (osCommit w os off len s).2.len = s.len
    rw [hcommit]

/-- What holds of a mapping at `base` whose blocks `L` are out. -/
def Holds (w : Nat) (os : Os) (base : Nat) (h : Heap MmapBacked) (L : Set (Grant w)) : Prop :=
  BumpArena.Holds (range w os) base (h.map toArena) L

/-- **`MmapBacked` meets the `Allocator` contract.** -/
theorem honours (w : Nat) (os : Os) {base : Nat} (hbase : 0 < base) :
    HonoursRange (allocator w os) (range w os) (Holds w os base) := by
  have harena := BumpArena.honours (w := w) (range_lawful w os) base hbase
  have hcore : HonoursCore (allocator w os) (Holds w os base) :=
    harena.toHonoursCore.comap toArena allocate_toArena fun _ _ _ => rfl
  exact
    { hcore.withDefaults rfl rfl (fun _ _ heq => by cases heq) with
      base_le := fun hinv hg => harena.base_le hinv hg
      le_end := fun hinv hg => harena.le_end hinv hg
      base_pos := fun hinv => harena.base_pos hinv
      end_le := fun hinv => harena.end_le hinv
      base_allocate := by
        intro h L l hinv
        have hkeep := harena.base_allocate (l := l) hinv
        rw [show (BumpArena.allocator w (range w os)).allocate l (h.map toArena) = _ from
          allocate_toArena l h] at hkeep
        exact hkeep
      base_deallocate := fun _ _ => rfl }

/-- What the system is asked for, and what a fresh mapping looks like. -/
theorem withFlags_eq_some {size : Nat} {lazyCommit : Bool} {mapped : Option Nat}
    {answers : List Bool} {s : MmapBacked}
    (hnew : withFlags w os size lazyCommit mapped answers = some s) :
    0 < size ∧ size + (os.pageSize - 1) < 2 ^ w ∧ mapped = some s.ptr ∧
      s.len = maskDown w (size + (os.pageSize - 1)) os.pageSize ∧ s.cursor = 0 := by
  unfold withFlags at hnew
  split at hnew
  · cases hnew
  case isFalse hsize =>
      simp only [Option.bind_eq_bind, Option.bind_eq_some_iff, checkedAdd_eq_some] at hnew
      obtain ⟨padded, ⟨hlt, rfl⟩, ptr, hptr, hif⟩ := hnew
      split at hif
      · split at hif
        · cases hif
          exact ⟨Nat.pos_of_ne_zero hsize, hlt, hptr, rfl, rfl⟩
        · cases hif
          exact ⟨Nat.pos_of_ne_zero hsize, hlt, hptr, rfl, rfl⟩
      · cases hif

/-- A fresh mapping inside the address space. -/
theorem holds_new {size : Nat} {mapped : Option Nat} {s : MmapBacked}
    (hnew : new w os size mapped = some s) (hspace : s.ptr + s.len < 2 ^ w) (m : Mem) :
    Holds w os s.ptr ⟨s, m⟩ ∅ := by
  obtain ⟨-, -, -, -, hcursor⟩ := withFlags_eq_some hnew
  have hsound : BumpArena.Sound w (range w os) s.ptr s.toArena :=
    { base_eq := rfl, end_lt := hspace, cursor_le := hcursor.trans_le s.len.zero_le }
  exact BumpArena.holds_empty hsound m

end MmapBacked

end ForgeAlloc
