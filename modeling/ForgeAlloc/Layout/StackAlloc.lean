import ForgeAlloc.Core.Allocator
import ForgeAlloc.Library.RegionStack

set_option autoImplicit false

/-! # `StackAlloc`

A bump cursor with a stack of frames: every block leaves a frame with its offset and the cursor
before it, and a free gives back the top block, padding included. A free of anything else fails a
debug assertion; in a release build it changes nothing.

`Holds R base a K` says that the value `a` records the blocks `K`, the top one first; through
`region` they are a stack of regions under the cursor (`RegionStack.Stacked`). A successful
`allocate` puts a block on top of `K` (`Holds.allocate_some`), a free of the top block takes it
off (`Holds.deallocate_top`), and all other calls leave `K` as it is.

`allocator` is the value as an `Allocator`. It counts the debug assertions that failed, since the
resizes it inherits free the old block themselves.
-/

namespace ForgeAlloc

open MachineInt ByteMemory RegionStack

structure StackAlloc (β : Type) where
  backing : β
  capacity : Nat
  cursor : Nat
  /-- The offset of each block and the cursor before it, the top frame first. -/
  frames : List (Nat × Nat)

/-- What a free finds on the frame stack. The last two fail a debug assertion. -/
inductive FreeOutcome
  | popped
  | empty
  | outOfOrder
  deriving DecidableEq

/-- A block that was issued, and the cursor before it was. -/
structure StackBlock (w : Nat) where
  block : Block
  layout : NonZeroLayout w
  before : Nat
  deriving DecidableEq

namespace StackAlloc

variable {w : Nat} {β : Type}

/-- `with_max_depth`. The global heap may not have room for the frames (`reserved`). -/
def withMaxDepth (R : FixedRange β) (b : β) (maxDepth : Nat) (reserved : Bool) :
    Option (StackAlloc β) :=
  if R.size b = 0 then none
  else if 0 < maxDepth ∧ reserved = false then none
  else some ⟨b, R.size b, 0, []⟩

def new (R : FixedRange β) (b : β) : Option (StackAlloc β) := withMaxDepth R b 0 false

def allocated (a : StackAlloc β) : Nat := a.cursor

def remaining (a : StackAlloc β) : Nat := a.capacity - a.allocated

def deallocate (w : Nat) (R : FixedRange β) (ptr : Nat) (a : StackAlloc β) :
    FreeOutcome × StackAlloc β :=
  let off := wrappingSub w ptr (R.base a.backing)
  match a.frames with
  | [] => (.empty, a)
  | (topOff, prevCursor) :: frames =>
      if topOff ≠ off then (.outOfOrder, a)
      else (.popped, { a with cursor := prevCursor, frames := frames })

def allocate (R : FixedRange β) (l : NonZeroLayout w) (a : StackAlloc β) :
    Option Block × StackAlloc β :=
  let base := R.base a.backing
  match bump w base a.capacity a.cursor l.size l.align with
  | none => (none, a)
  | some (alignedOff, endOff) =>
      match R.commit alignedOff l.size a.backing with
      | (false, b) => (none, { a with backing := b })
      | (true, b) =>
          (some ⟨base + alignedOff, l.size⟩,
            { a with backing := b, cursor := endOff, frames := (alignedOff, a.cursor) :: a.frames })

end StackAlloc

/-- A value and the number of its debug assertions that failed. A debug build stops at the first. -/
structure DebugStack (β : Type) where
  stack : StackAlloc β
  tripped : Nat

namespace StackAlloc

variable {w : Nat} {β : Type}

def allocator (w : Nat) (R : FixedRange β) : Allocator w (DebugStack β) where
  allocate := onAllocate
  deallocate := onDeallocate
  grow := defaultGrow onAllocate onDeallocate
  shrink := defaultShrink onAllocate onDeallocate
  usableSize := fun _ _ _ => none
where
  onAllocate (l : NonZeroLayout w) (h : Heap (DebugStack β)) : Option Block × Heap (DebugStack β) :=
    let (r, a) := allocate R l h.alloc.stack
    (r, ⟨⟨a, h.alloc.tripped⟩, h.mem⟩)
  onDeallocate (ptr : Nat) (_l : NonZeroLayout w) (h : Heap (DebugStack β)) :
      Heap (DebugStack β) :=
    match deallocate w R ptr h.alloc.stack with
    | (.popped, a) => ⟨⟨a, h.alloc.tripped⟩, h.mem⟩
    | (_, a) => ⟨⟨a, h.alloc.tripped + 1⟩, h.mem⟩

/-! ## What the value records -/

/-- The block as a region of the backing. -/
def region (base : Nat) (i : StackBlock w) : Region :=
  ⟨i.before, i.block.ptr - base, i.block.ptr - base + i.block.len⟩

/-- The frame that `allocate` pushes for the block. -/
def frame (base : Nat) (i : StackBlock w) : Nat × Nat := (i.block.ptr - base, i.before)

structure Holds (R : FixedRange β) (base : Nat) (a : StackAlloc β) (K : List (StackBlock w)) :
    Prop where
  base_eq : R.base a.backing = base
  end_le : base + a.capacity ≤ 2 ^ w
  cursor_le : a.cursor ≤ a.capacity
  frames_eq : a.frames = K.map (frame base)
  stacked : Stacked (K.map (region base)) a.cursor
  base_le : ∀ i ∈ K, base ≤ i.block.ptr
  aligned : ∀ i ∈ K, i.layout.align ∣ i.block.ptr
  len_eq : ∀ i ∈ K, i.block.len = i.layout.size

variable {R : FixedRange β} {base : Nat} {a a' : StackAlloc β} {K : List (StackBlock w)}
  {i j : StackBlock w} {b : Block} {l : NonZeroLayout w} {ptr : Nat}

theorem holds_new {s : β} {maxDepth : Nat} {reserved : Bool}
    (hnew : withMaxDepth R s maxDepth reserved = some a) (hend : R.base s + R.size s ≤ 2 ^ w) :
    Holds R (R.base s) a ([] : List (StackBlock w)) := by
  unfold withMaxDepth at hnew
  split at hnew
  · cases hnew
  · split at hnew
    · cases hnew
    · cases hnew
      exact
        { base_eq := rfl
          end_le := hend
          cursor_le := Nat.zero_le _
          frames_eq := rfl
          stacked := rfl
          base_le := fun _ hi => absurd hi List.not_mem_nil
          aligned := fun _ hi => absurd hi List.not_mem_nil
          len_eq := fun _ hi => absurd hi List.not_mem_nil }

theorem Holds.len_pos (h : Holds R base a K) (hi : i ∈ K) : 0 < i.block.len := by
  rw [h.len_eq i hi]
  exact i.layout.size_pos

/-- The block ends below the cursor. -/
theorem Holds.le_cursor (h : Holds R base a K) (hi : i ∈ K) :
    i.block.ptr + i.block.len ≤ base + a.cursor := by
  have hle : (region base i).stop ≤ a.cursor := h.stacked.stop_le (List.mem_map_of_mem hi)
  have hbase := h.base_le i hi
  simp only [region] at hle
  omega

theorem Holds.ptr_lt (h : Holds R base a K) (hi : i ∈ K) : i.block.ptr < 2 ^ w := by
  have hle := h.le_cursor hi
  have hpos := h.len_pos hi
  have hcursor := h.cursor_le
  have hend := h.end_le
  omega

/-- The blocks lie one above the other, in the order of the stack. -/
theorem Holds.pairwise (h : Holds R base a K) :
    K.Pairwise fun above below => below.block.ptr + below.block.len ≤ above.block.ptr := by
  have hpair := h.stacked.pairwise
  rw [List.pairwise_map] at hpair
  refine hpair.imp_of_mem fun habove hbelow hle => ?_
  have hbase := h.base_le _ habove
  have hbase' := h.base_le _ hbelow
  simp only [region] at hle
  omega

theorem Holds.nodup_ptr (h : Holds R base a K) : (K.map fun i => i.block.ptr).Nodup := by
  rw [List.Nodup, List.pairwise_map]
  refine h.pairwise.imp_of_mem fun _ hbelow hle => ?_
  have hpos := h.len_pos hbelow
  omega

/-- Two recorded blocks with one address are one block. -/
theorem Holds.eq_of_ptr (h : Holds R base a K) (hi : i ∈ K) (hj : j ∈ K)
    (hptr : i.block.ptr = j.block.ptr) : i = j := List.inj_on_of_nodup_map h.nodup_ptr hi hj hptr

theorem Holds.frame_injective (h : Holds R base a K) (hi : i ∈ K) (hj : j ∈ K)
    (hframe : frame base i = frame base j) : i = j := by
  have hoff : i.block.ptr - base = j.block.ptr - base := congrArg Prod.fst hframe
  have hbase := h.base_le i hi
  have hbase' := h.base_le j hj
  exact h.eq_of_ptr hi hj (by omega)

/-! ## `allocate` -/

theorem Holds.cap_lt (h : Holds R base a K) (hR : R.Lawful) : a.capacity < 2 ^ w := by
  have hpos := hR.base_pos a.backing
  have hbase := h.base_eq
  have hend := h.end_le
  omega

/-- A request is served exactly when it fits above the cursor and the backing commits it. -/
theorem Holds.isSome_allocate_iff (h : Holds R base a K) (hR : R.Lawful) :
    (allocate R l a).1.isSome ↔
      Fits base a.capacity a.cursor l.size l.align ∧
        (R.commit (alignUp (base + a.cursor) l.align - base) l.size a.backing).1 = true := by
  obtain ⟨k, hk, hkw⟩ := l.exists_align
  have hcap := h.cap_lt hR
  simp only [allocate, h.base_eq, hk]
  split
  case h_1 hbump =>
      rw [bump_eq_none_iff hkw l.size_pos h.end_le hcap] at hbump
      simp [hbump]
  case h_2 off fin hbump =>
      rw [bump_eq_some_iff hkw l.size_pos h.end_le hcap] at hbump
      obtain ⟨hfits, rfl, -⟩ := hbump
      split
      case h_1 s hs => simp [hs]
      case h_2 s hs => simp [hs, hfits]

/-- **A new block goes on top**, with the cursor it found. -/
theorem Holds.allocate_some (h : Holds R base a K) (hR : R.Lawful)
    (heq : allocate R l a = (some b, a')) :
    Holds R base a' (⟨b, l, a.cursor⟩ :: K) ∧ a'.capacity = a.capacity := by
  obtain ⟨k, hk, hkw⟩ := l.exists_align
  simp only [allocate] at heq
  split at heq
  · cases heq
  case h_2 off fin hbump =>
      split at heq
      · cases heq
      case h_2 s hs =>
          cases heq
          rw [h.base_eq, hk] at hbump
          obtain ⟨hoff, hfin, hle⟩ := bump_spec hkw hbump
          have hdvd := dvd_add_of_bump hkw hbump
          have hge : base + a.cursor ≤ alignUp (base + a.cursor) (2 ^ k) :=
            le_alignUp (Nat.two_pow_pos k)
          have hsize := l.size_pos
          have hpush : Stacked ((region base ⟨⟨base + off, l.size⟩, l, a.cursor⟩ :
              Region) :: K.map (region base)) (base + off - base + l.size) := by
            refine h.stacked.push rfl ?_ ?_
            · simp only [region]
              omega
            · simp only [region]
              omega
          have hstop : base + off - base + l.size = fin := by omega
          refine ⟨?_, rfl⟩
          exact
            { base_eq := (hR.base_of_commit hs).trans h.base_eq
              end_le := h.end_le
              cursor_le := hle
              frames_eq := by
                rw [List.map_cons, ← h.frames_eq, h.base_eq]
                simp [frame]
              stacked := by
                rw [hstop] at hpush
                rw [h.base_eq]
                exact hpush
              base_le := by
                rw [h.base_eq]
                exact List.forall_mem_cons.mpr ⟨Nat.le_add_right _ _, h.base_le⟩
              aligned := by
                rw [h.base_eq]
                exact List.forall_mem_cons.mpr ⟨by rw [hk]; exact hdvd, h.aligned⟩
              len_eq := List.forall_mem_cons.mpr ⟨rfl, h.len_eq⟩ }

/-- A failed request leaves the cursor and the frames as they are, and its commit may have failed. -/
theorem allocate_none (hR : R.Lawful) (heq : allocate R l a = (none, a')) :
    a'.cursor = a.cursor ∧ a'.frames = a.frames ∧ a'.capacity = a.capacity ∧
      R.base a'.backing = R.base a.backing := by
  simp only [allocate] at heq
  split at heq
  · cases heq
    exact ⟨rfl, rfl, rfl, rfl⟩
  · split at heq
    case h_1 s hs =>
        cases heq
        exact ⟨rfl, rfl, rfl, hR.base_of_commit hs⟩
    case h_2 => cases heq

theorem Holds.allocate_none (h : Holds R base a K) (hR : R.Lawful)
    (heq : allocate R l a = (none, a')) :
    Holds R base a' K ∧ a'.capacity = a.capacity := by
  obtain ⟨hcursor, hframes, hcap, hbase⟩ := StackAlloc.allocate_none hR heq
  refine ⟨?_, hcap⟩
  exact
    { base_eq := hbase.trans h.base_eq
      end_le := hcap ▸ h.end_le
      cursor_le := by rw [hcursor, hcap]; exact h.cursor_le
      frames_eq := hframes.trans h.frames_eq
      stacked := by rw [hcursor]; exact h.stacked
      base_le := h.base_le
      aligned := h.aligned
      len_eq := h.len_eq }

/-! ## `deallocate` -/

/-- A free of the top block gives back what `allocate` took, padding included. -/
theorem Holds.deallocate_top (h : Holds R base a (i :: K)) :
    deallocate w R i.block.ptr a =
        (.popped, { a with cursor := i.before, frames := a.frames.tail }) ∧
      Holds R base { a with cursor := i.before, frames := a.frames.tail } K := by
  have hbase := h.base_le i List.mem_cons_self
  have hlt := h.ptr_lt (i := i) List.mem_cons_self
  have hframes := h.frames_eq
  rw [List.map_cons] at hframes
  have hst := h.stacked
  rw [List.map_cons, stacked_cons] at hst
  obtain ⟨hstop, hbefore, hstart, hrest⟩ := hst
  constructor
  · simp only [deallocate, hframes, frame, h.base_eq, wrappingSub_of_le hbase hlt]
    simp
  · exact
      { base_eq := h.base_eq
        end_le := h.end_le
        cursor_le := by
          have hcursor := h.cursor_le
          simp only [region] at hstop hbefore hstart ⊢
          omega
        frames_eq := by simp [hframes]
        stacked := hrest
        base_le := fun j hj => h.base_le j (List.mem_cons_of_mem _ hj)
        aligned := fun j hj => h.aligned j (List.mem_cons_of_mem _ hj)
        len_eq := fun j hj => h.len_eq j (List.mem_cons_of_mem _ hj) }

/-- A free of any other address fails its assertion and changes nothing. -/
theorem Holds.deallocate_refused (h : Holds R base a K) (hlt : ptr < 2 ^ w)
    (htop : ∀ i ∈ K.head?, i.block.ptr ≠ ptr) :
    (deallocate w R ptr a).1 ≠ .popped ∧ (deallocate w R ptr a).2 = a := by
  cases K with
  | nil =>
      have hframes : a.frames = [] := h.frames_eq
      simp [deallocate, hframes]
  | cons i K =>
      have hne : i.block.ptr ≠ ptr := htop i rfl
      have hbase := h.base_le i List.mem_cons_self
      have hitop := h.ptr_lt (i := i) List.mem_cons_self
      have hframes : a.frames = (i.block.ptr - base, i.before) :: K.map (frame base) := h.frames_eq
      have hoff : i.block.ptr - base ≠ wrappingSub w ptr base := by
        by_cases hle : base ≤ ptr
        · rw [wrappingSub_of_le hle hlt]
          omega
        · -- below the base the offset wraps around and ends above every block of the region
          have hend := h.end_le
          have hcap := h.le_cursor (i := i) List.mem_cons_self
          have hcursor := h.cursor_le
          have hpos := h.len_pos (i := i) List.mem_cons_self
          rw [wrappingSub_of_lt (by omega) (by omega)]
          omega
      simp [deallocate, hframes, h.base_eq, hoff]

/-- What a free can do to the recorded blocks. -/
theorem Holds.deallocate_cases (h : Holds R base a K) (hlt : ptr < 2 ^ w) :
    (∃ i K', K = i :: K' ∧ i.block.ptr = ptr ∧ (deallocate w R ptr a).1 = .popped ∧
      (deallocate w R ptr a).2.cursor = i.before ∧ Holds R base (deallocate w R ptr a).2 K') ∨
    (deallocate w R ptr a).1 ≠ .popped ∧ (deallocate w R ptr a).2 = a := by
  by_cases htop : ∀ i ∈ K.head?, i.block.ptr ≠ ptr
  · exact Or.inr (h.deallocate_refused hlt htop)
  · left
    cases K with
    | nil => simp at htop
    | cons i K =>
        have hptr : i.block.ptr = ptr := by simpa using htop
        subst hptr
        obtain ⟨hcall, hrest⟩ := h.deallocate_top
        exact ⟨i, K, rfl, rfl, by rw [hcall], by rw [hcall], by rw [hcall]; exact hrest⟩

/-! ## Several frees -/

/-- Free the addresses of the list, the first one first. -/
def freeAll (w : Nat) (R : FixedRange β) (ptrs : List Nat) (a : StackAlloc β) : StackAlloc β :=
  ptrs.foldl (fun a ptr => (deallocate w R ptr a).2) a

@[simp] theorem freeAll_nil (a : StackAlloc β) : freeAll w R [] a = a := rfl

theorem freeAll_cons (ptr : Nat) (ptrs : List Nat) (a : StackAlloc β) :
    freeAll w R (ptr :: ptrs) a = freeAll w R ptrs (deallocate w R ptr a).2 := rfl

/-- **Freeing from the top** leaves the blocks below, under the cursor they left. -/
theorem Holds.freeAll_append {xs ys : List (StackBlock w)} (h : Holds R base a (xs ++ ys)) :
    Holds R base (freeAll w R (xs.map fun i => i.block.ptr) a) ys ∧
      (freeAll w R (xs.map fun i => i.block.ptr) a).cursor =
        cursorBelow (xs.map (region base)) a.cursor := by
  induction xs generalizing a with
  | nil => exact ⟨h, rfl⟩
  | cons i xs ih =>
      obtain ⟨hcall, hrest⟩ := h.deallocate_top
      obtain ⟨hholds, hcursor⟩ := ih hrest
      rw [List.map_cons, freeAll_cons, hcall, List.map_cons, cursorBelow_cons]
      exact ⟨hholds, hcursor⟩

/-- A block stays recorded while other addresses are freed. -/
theorem Holds.mem_freeAll {ptrs : List Nat} (h : Holds R base a K) (hi : i ∈ K)
    (hlt : ∀ p ∈ ptrs, p < 2 ^ w) (hne : ∀ p ∈ ptrs, p ≠ i.block.ptr) :
    ∃ K', Holds R base (freeAll w R ptrs a) K' ∧ i ∈ K' := by
  induction ptrs generalizing a K with
  | nil => exact ⟨K, h, hi⟩
  | cons p ptrs ih =>
      have hlt' := List.forall_mem_cons.mp hlt
      have hne' := List.forall_mem_cons.mp hne
      rw [freeAll_cons]
      rcases h.deallocate_cases hlt'.1 with ⟨j, K', rfl, hptr, -, -, hrest⟩ | ⟨-, hsame⟩
      · refine ih hrest ?_ hlt'.2 hne'.2
        rcases List.mem_cons.mp hi with rfl | hmem
        · exact absurd hptr.symm hne'.1
        · exact hmem
      · rw [hsame]
        exact ih h hi hlt'.2 hne'.2

/-- The cursor is not at zero while a block is recorded. -/
theorem Holds.cursor_pos (h : Holds R base a K) (hi : i ∈ K) : 0 < a.cursor := by
  have hle := h.le_cursor hi
  have hpos := h.len_pos hi
  have hbase := h.base_le i hi
  omega

end StackAlloc

end ForgeAlloc
