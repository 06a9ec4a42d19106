import ForgeAlloc.Core.Usable

set_option autoImplicit false

/-! # Scrubbing on free

`PoisonOnFree` and `ZeroizeOnFree` overwrite a block with a pattern before they hand it back: the
whole usable extent, as the inner allocator reports it. Neither forwards a resize. Both use the
trait's `grow` and `shrink`, which free the old block through the wrapper.

`onFree` is what the two have in common; a `Scrubber` says how one of them holds its inner
allocator and how it writes. Over an inner allocator that honours the contract, usable extents
included, the wrapper honours it too (`Scrubber.honours`).
-/

namespace ForgeAlloc

open ByteMemory

structure PoisonOnFree (σ : Type) where
  inner : σ
  pattern : UInt8

structure ZeroizeOnFree (σ : Type) where
  inner : σ

/-- How a wrapper holds its inner allocator, and how it overwrites a range of bytes. -/
structure Scrubber (ω σ : Type) where
  inner : ω → σ
  put : ω → σ → ω
  pattern : ω → UInt8
  scrub : ω → Mem → Nat → Nat → Mem
  inner_put : ∀ s t, inner (put s t) = t
  pattern_put : ∀ s t, pattern (put s t) = pattern s
  scrub_eq : ∀ s m ptr len, scrub s m ptr len = fillBytes m ptr len (pattern s)

variable {w : Nat} {ω σ : Type}

namespace Scrubber

/-- The heap of the inner allocator. -/
def heap (S : Scrubber ω σ) (h : Heap ω) : Heap σ := ⟨S.inner h.alloc, h.mem⟩

/-- The heap after a call of the inner allocator. -/
def after (S : Scrubber ω σ) (h : Heap ω) (h' : Heap σ) : Heap ω := ⟨S.put h.alloc h'.alloc, h'.mem⟩

@[simp] theorem heap_after (S : Scrubber ω σ) (h : Heap ω) (h' : Heap σ) :
    S.heap (S.after h h') = h' := by
  rw [heap, after, S.inner_put]

end Scrubber

/-- The wrapper over `A`. -/
def onFree (S : Scrubber ω σ) (A : Allocator w σ) : Allocator w ω where
  allocate := onAllocate
  deallocate := onDeallocate
  grow := defaultGrow onAllocate onDeallocate
  shrink := defaultShrink onAllocate onDeallocate
  usableSize := fun ptr l h => A.usableSize ptr l (S.heap h)
where
  onAllocate (l : NonZeroLayout w) (h : Heap ω) : Option Block × Heap ω :=
    let (r, h') := A.allocate l (S.heap h)
    (r, S.after h h')
  onDeallocate (ptr : Nat) (l : NonZeroLayout w) (h : Heap ω) : Heap ω :=
    let scrubLen := A.usableLen ptr l (S.heap h)
    let m := S.scrub h.alloc h.mem ptr scrubLen
    S.after h (A.deallocate ptr l ⟨S.inner h.alloc, m⟩)

namespace PoisonOnFree

def defaultPoison : UInt8 := 0xDE

def withPattern (inner : σ) (pattern : UInt8) : PoisonOnFree σ := ⟨inner, pattern⟩

def new (inner : σ) : PoisonOnFree σ := withPattern inner defaultPoison

def scrubber : Scrubber (PoisonOnFree σ) σ where
  inner := fun s => s.inner
  put := fun s t => { s with inner := t }
  pattern := fun s => s.pattern
  scrub := fun s m ptr scrubLen => fillBytes m ptr scrubLen s.pattern
  inner_put := fun _ _ => rfl
  pattern_put := fun _ _ => rfl
  scrub_eq := fun _ _ _ _ => rfl

def allocator (A : Allocator w σ) : Allocator w (PoisonOnFree σ) := onFree scrubber A

end PoisonOnFree

namespace ZeroizeOnFree

def new (inner : σ) : ZeroizeOnFree σ := ⟨inner⟩

/-- `volatile_zeroize`, byte by byte. -/
def volatileZeroize (m : Mem) (ptr len : Nat) : Mem :=
  (List.range len).foldl (fun m i => writeByte m (ptr + i) 0) m

def scrubber : Scrubber (ZeroizeOnFree σ) σ where
  inner := fun s => s.inner
  put := fun s t => { s with inner := t }
  pattern := fun _ => 0
  scrub := fun _ m ptr scrubLen => volatileZeroize m ptr scrubLen
  inner_put := fun _ _ => rfl
  pattern_put := fun _ _ => rfl
  scrub_eq := fun _ m ptr scrubLen => foldl_writeByte_eq m ptr scrubLen 0

def allocator (A : Allocator w σ) : Allocator w (ZeroizeOnFree σ) := onFree scrubber A

end ZeroizeOnFree

/-! ## The contract -/

namespace Scrubber

variable {S : Scrubber ω σ} {A : Allocator w σ} {Inv : Heap σ → Set (Grant w) → Prop}
  {h h' : Heap ω} {L : Set (Grant w)} {g : Grant w} {b : Block} {l : NonZeroLayout w}

theorem allocate_eq (S : Scrubber ω σ) (A : Allocator w σ) (l : NonZeroLayout w) (h : Heap ω) :
    (onFree S A).allocate l h =
      ((A.allocate l (S.heap h)).1, S.after h (A.allocate l (S.heap h)).2) := rfl

theorem deallocate_eq (S : Scrubber ω σ) (A : Allocator w σ) (ptr : Nat) (l : NonZeroLayout w)
    (h : Heap ω) :
    (onFree S A).deallocate ptr l h = S.after h (A.deallocate ptr l ⟨S.inner h.alloc,
      fillBytes h.mem ptr (A.usableLen ptr l (S.heap h)) (S.pattern h.alloc)⟩) := by
  rw [← S.scrub_eq]
  rfl

theorem allocate_inner (heq : (onFree S A).allocate l h = (some b, h')) :
    A.allocate l (S.heap h) = (some b, S.heap h') := by
  rw [allocate_eq, Prod.mk.injEq] at heq
  obtain ⟨hsome, rfl⟩ := heq
  rw [heap_after]
  exact Prod.ext hsome rfl

theorem allocate_inner_none (heq : (onFree S A).allocate l h = (none, h')) :
    A.allocate l (S.heap h) = (none, S.heap h') := by
  rw [allocate_eq, Prod.mk.injEq] at heq
  obtain ⟨hnone, rfl⟩ := heq
  rw [heap_after]
  exact Prod.ext hnone rfl

theorem mem_allocate (S : Scrubber ω σ) (A : Allocator w σ) (l : NonZeroLayout w) (h : Heap ω) :
    ((onFree S A).allocate l h).2.mem = (A.allocate l (S.heap h)).2.mem := rfl

/-- The scrub stays within the usable bytes of the block. -/
theorem eqOn_scrub (g : Grant w) (m : Mem) (h : Heap σ) (v : UInt8) :
    Set.EqOn (fillBytes m g.block.ptr (A.usableLen g.block.ptr g.layout h) v) m
      (A.usableBytes h g)ᶜ := by
  intro x hx
  refine fillBytes_of_not_mem v fun hin => hx ?_
  obtain ⟨i, rfl⟩ := Nat.exists_eq_add_of_le hin.1
  exact add_mem_usableBytes (by omega)

theorem deallocate_unchanged (hA : HonoursUsable A Inv) (hinv : Inv (S.heap h) L) (hg : g ∈ L) :
    Unchanged (fun h L => Inv (S.heap h) L) (L \ {g}) h
      ((onFree S A).deallocate g.block.ptr g.layout h) := by
  rw [deallocate_eq]
  have hscrub := eqOn_scrub (A := A) g h.mem (S.heap h) (S.pattern h.alloc)
  have hfree := hA.deallocate (hA.usable_write hinv hg hscrub).1 hg
  refine ⟨?_, fun x hx => ?_⟩
  · rw [heap_after]
    exact hfree.inv
  · -- the scrub stops short of the other blocks
    obtain ⟨g', hg', hxg'⟩ := hx
    have hne : g ≠ g' := fun heq => hg'.2 heq.symm
    have hdisj := hA.usable_disjoint hinv hg hg'.1 hne
    have hout : x ∉ A.usableBytes (S.heap h) g := fun hin =>
      Set.disjoint_left.mp hdisj hin (bytes_subset_usableBytes A _ g' hxg')
    exact (hfree.frame ⟨g', hg', hxg'⟩).trans (hscrub hout)

theorem honoursCore (hA : HonoursUsable A Inv) :
    HonoursCore (onFree S A) fun h L => Inv (S.heap h) L where
  satisfies := fun hinv hg => hA.satisfies hinv hg
  disjoint := fun hinv hg hg' hne => hA.disjoint hinv hg hg' hne
  allocate_some := by
    intro h L l b h' hinv heq
    obtain ⟨hinv', hfresh, hframe⟩ := hA.allocate_some hinv (allocate_inner heq)
    exact ⟨hinv', hfresh, hframe⟩
  allocate_none := by
    intro h L l h' hinv heq
    obtain ⟨hinv', hframe⟩ := hA.allocate_none hinv (allocate_inner_none heq)
    exact ⟨hinv', hframe⟩
  deallocate := fun hinv hg => deallocate_unchanged hA hinv hg
  write := fun {h L m} hinv hm => hA.write (h := S.heap h) hinv hm

/-- **A scrubbing wrapper meets the contract** of its inner allocator, and can be wrapped again. -/
theorem honours (hA : HonoursUsable A Inv) :
    HonoursUsable (onFree S A) fun h L => Inv (S.heap h) L where
  toHonoursCore := honoursCore hA
  usable_ge := fun hinv hg hsize => hA.usable_ge hinv hg hsize
  usable_disjoint := fun hinv hg hg' hne => hA.usable_disjoint hinv hg hg' hne
  usable_allocate := fun hinv hg => by
    rw [mem_allocate]
    exact hA.usable_allocate hinv hg
  usable_write := fun {h _ _ _} hinv hg hm => hA.usable_write (h := S.heap h) hinv hg hm

end Scrubber

end ForgeAlloc
