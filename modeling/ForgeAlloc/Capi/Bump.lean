import ForgeAlloc.Core.OwnedRange
import ForgeAlloc.Hardening.Scrub
import ForgeAlloc.Layout.Bump

set_option autoImplicit false

/-! # The C interface

The functions `forge_bump_*`: bump arenas over buffers of the caller, in handles that the caller owns
as well. `none` is the null handle, and the address 0 the null pointer. A call on a handle that holds
no arena has no result here, as it has no meaning there.
-/

namespace ForgeAlloc

open MachineInt ByteMemory

/-- A borrowed buffer. -/
structure StaticBacked where
  ptr : Nat
  len : Nat
  ptr_pos : 0 < ptr

namespace StaticBacked

def capacity (s : StaticBacked) : Nat := s.len

def range : FixedRange StaticBacked where
  base := ptr
  size := len
  commit := fun _ _ s => (true, s)

theorem range_lawful : range.Lawful := ⟨ptr_pos, fun _ _ _ => rfl, fun _ _ _ => rfl⟩

def block (s : StaticBacked) : Block := ⟨s.ptr, s.len⟩

end StaticBacked

abbrev Bump := BumpArena StaticBacked

/-- The arenas in the handles, and the memory. -/
structure CState (η : Type) where
  handles : η → Option Bump
  mem : Mem

variable {w : Nat} {η : Type} [DecidableEq η]

namespace CState

def put (s : CState η) (i : η) (h : Heap Bump) : CState η :=
  ⟨Function.update s.handles i (some h.alloc), h.mem⟩

end CState

def forgeBumpInit (w : Nat) (handle : Option η) (buf len : Nat) (s : CState η) : Nat × CState η :=
  match handle with
  | none => (0, s)
  | some i =>
      if h : buf = 0 ∨ len = 0 ∨ isizeMax w < len then (0, s)
      else
        match BumpArena.new w StaticBacked.range ⟨buf, len, by omega⟩ with
        | some arena => (1, s.put i ⟨arena, s.mem⟩)
        | none => (0, s)

/-- What `forge_bump_alloc` and `forge_bump_alloc_zeroed` do with their call of the arena. -/
def forgeBumpAllocWith (ask : NonZeroLayout w → Heap Bump → Option Block × Heap Bump)
    (handle : Option η) (size align : Nat) (s : CState η) : Option (Nat × CState η) :=
  match handle with
  | none => some (0, s)
  | some i =>
      match NonZeroLayout.fromSizeAlign w size align with
      | none => some (0, s)
      | some layout =>
          (s.handles i).map fun arena =>
            match ask layout ⟨arena, s.mem⟩ with
            | (some block, h) => (block.ptr, s.put i h)
            | (none, h) => (0, s.put i h)

def forgeBumpAlloc (w : Nat) (handle : Option η) (size align : Nat) (s : CState η) :
    Option (Nat × CState η) :=
  forgeBumpAllocWith (w := w) (BumpArena.allocate StaticBacked.range) handle size align s

def forgeBumpAllocZeroed (w : Nat) (handle : Option η) (size align : Nat) (s : CState η) :
    Option (Nat × CState η) :=
  forgeBumpAllocWith (w := w) (defaultAllocateZeroed (BumpArena.allocate StaticBacked.range)) handle
    size align s

/-- The handle and the alignment are not looked at. -/
def forgeBumpFree (_handle : Option η) (ptr size _align : Nat) (s : CState η) : CState η :=
  if ptr = 0 ∨ size = 0 then s
  else { s with mem := fillBytes s.mem ptr size PoisonOnFree.defaultPoison }

def forgeBumpReset (handle : Option η) (s : CState η) : Option (Nat × CState η) :=
  match handle with
  | none => some (0, s)
  | some i => (s.handles i).map fun arena => (1, s.put i ⟨arena.reset, s.mem⟩)

/-- The three questions. `ask` has no answer where it overflows. -/
def forgeBumpQuery (ask : Bump → Option Nat) (handle : Option η) (s : CState η) : Option Nat :=
  match handle with
  | none => some 0
  | some i => (s.handles i).bind ask

def forgeBumpRemaining (handle : Option η) (s : CState η) : Option Nat :=
  forgeBumpQuery BumpArena.remaining handle s

def forgeBumpCapacity (handle : Option η) (s : CState η) : Option Nat :=
  forgeBumpQuery (fun arena => some arena.capacity) handle s

def forgeBumpAllocated (handle : Option η) (s : CState η) : Option Nat :=
  forgeBumpQuery (fun arena => some arena.allocated) handle s

def forgeBumpDestroy (handle : Option η) (s : CState η) : Option (CState η) :=
  match handle with
  | none => some s
  | some i =>
      (s.handles i).map fun _ => { s with handles := Function.update s.handles i none }

/-- A free is one of `PoisonOnFree` over the arena. -/
theorem forgeBumpFree_eq_deallocate {s : CState η} {i : η} {a : Bump} {ptr : Nat} (hptr : ptr ≠ 0)
    (ha : s.handles i = some a) (l : NonZeroLayout w) :
    forgeBumpFree (some i) ptr l.size l.align s =
      let h := (PoisonOnFree.allocator (BumpArena.allocator w StaticBacked.range)).deallocate ptr l
        ⟨.new a, s.mem⟩
      s.put i ⟨h.alloc.inner, h.mem⟩ := by
  have hsize := l.size_pos
  have hback : Function.update s.handles i (some a) = s.handles := by
    rw [← ha, Function.update_eq_self]
  rw [forgeBumpFree, if_neg (by omega)]
  show _ = CState.mk (Function.update s.handles i (some a)) _
  rw [hback]
  rfl

end ForgeAlloc
