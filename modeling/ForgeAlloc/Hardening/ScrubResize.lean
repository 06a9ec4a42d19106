import ForgeAlloc.Backing.Inline
import ForgeAlloc.Hardening.Scrub
import ForgeAlloc.Layout.Bump
import ForgeAlloc.Layout.SlabContract

set_option autoImplicit false

/-! # Resizes through a scrubbing wrapper

A resize must not leave a copy of the old block behind. `observed A` is the inner allocator with a
receipt for every block that is handed back: what was handed back, how much of it was usable, and
the memory at that moment. It also counts the native resizes, through which a block could be freed
without a receipt.

`ResizeScrubs` says what a resize owes, on success and on failure, and `scrub_resize_correct` that
both wrappers deliver, whatever the inner allocator answers and whatever its own resizes do.
-/

namespace ForgeAlloc

open ByteMemory

variable {w : Nat} {ω σ : Type}

/-- A block that was handed back, with the memory at that moment. -/
structure Receipt (w : Nat) where
  ptr : Nat
  layout : NonZeroLayout w
  usable : Nat
  mem : Mem

structure Observed (w : Nat) (σ : Type) where
  inner : σ
  receipts : List (Receipt w)
  resizes : Nat

namespace Observed

def heap (h : Heap (Observed w σ)) : Heap σ := h.map inner

/-- The outcome of a native resize. -/
def resized (h : Heap (Observed w σ)) (r : Option Block × Heap σ) :
    Option Block × Heap (Observed w σ) :=
  (r.1, ⟨⟨r.2.alloc, h.alloc.receipts, h.alloc.resizes + 1⟩, r.2.mem⟩)

end Observed

open Observed

/-- `A` with receipts. -/
def observed (A : Allocator w σ) : Allocator w (Observed w σ) where
  allocate := fun l h =>
    let (r, h') := A.allocate l (heap h)
    (r, ⟨{ h.alloc with inner := h'.alloc }, h'.mem⟩)
  deallocate := fun ptr l h =>
    let h' := A.deallocate ptr l (heap h)
    ⟨⟨h'.alloc, ⟨ptr, l, A.usableLen ptr l (heap h), h.mem⟩ :: h.alloc.receipts, h.alloc.resizes⟩,
      h'.mem⟩
  grow := fun ptr old new h => resized h (A.grow ptr old new (heap h))
  shrink := fun ptr old new h => resized h (A.shrink ptr old new (heap h))
  usableSize := fun ptr l h => A.usableSize ptr l (heap h)

variable {A : Allocator w σ} {Inv : Heap σ → Set (Grant w) → Prop} {L : Set (Grant w)}
  {g : Grant w} {new : NonZeroLayout w} {b : Block}

theorem observed_honours (hA : HonoursUsable A Inv) :
    HonoursUsable (observed A) fun h L => Inv (heap h) L where
  toHonoursCore := hA.comap inner (fun _ _ => rfl) fun _ _ _ => rfl
  usable_ge := fun hinv hg hsize => hA.usable_ge hinv hg hsize
  usable_disjoint := fun hinv hg hg' hne => hA.usable_disjoint hinv hg hg' hne
  usable_allocate := fun {h _ _ l} hinv hg => hA.usable_allocate (h := heap h) (l := l) hinv hg
  usable_write := fun {h _ _ _} hinv hg hm => hA.usable_write (h := heap h) hinv hg hm

/-- What a resize of `g` owes. On success the new block starts with the bytes of the old one, and
the old one was freed once, under its own layout, when all its usable bytes held the pattern. On
failure nothing was freed and the block keeps its bytes. -/
structure ResizeScrubs (S : Scrubber ω (Observed w σ)) (A : Allocator w σ)
    (Inv : Heap σ → Set (Grant w) → Prop) (L : Set (Grant w)) (g : Grant w) (new : NonZeroLayout w)
    (h : Heap ω) (result : Option Block × Heap ω) : Prop where
  ok : ∀ b h', result = (some b, h') →
    Issued (fun h L => Inv (heap (S.heap h)) L) (L \ {g}) h h' b new ∧
      (∀ i < min g.layout.size new.size, h'.mem (b.ptr + i) = h.mem (g.block.ptr + i)) ∧
      ∃ r : Receipt w, (S.inner h'.alloc).receipts = r :: (S.inner h.alloc).receipts ∧
        r.ptr = g.block.ptr ∧ r.layout = g.layout ∧ g.layout.size ≤ r.usable ∧
        ∀ i < r.usable, r.mem (g.block.ptr + i) = S.pattern h.alloc
  err : ∀ h', result = (none, h') →
    Unchanged (fun h L => Inv (heap (S.heap h)) L) L h h' ∧
      Set.EqOn h'.mem h.mem (A.usableBytes (heap (S.heap h)) g) ∧
      (S.inner h'.alloc).receipts = (S.inner h.alloc).receipts
  native : (S.inner result.2.alloc).resizes = (S.inner h.alloc).resizes

namespace Scrubber

variable {S : Scrubber ω (Observed w σ)} {h h' : Heap ω} {l : NonZeroLayout w}

/-- A request leaves no receipt and resizes nothing. -/
theorem allocate_receipts (S : Scrubber ω (Observed w σ)) (A : Allocator w σ)
    (l : NonZeroLayout w) (h : Heap ω) :
    let a := (S.inner ((onFree S (observed A)).allocate l h).2.alloc)
    a.receipts = (S.inner h.alloc).receipts ∧ a.resizes = (S.inner h.alloc).resizes := by
  rw [allocate_eq]
  simp only [after, S.inner_put]
  exact ⟨rfl, rfl⟩

/-- A free leaves one receipt, with the memory after the scrub. -/
theorem deallocate_receipts (S : Scrubber ω (Observed w σ)) (A : Allocator w σ) (ptr : Nat)
    (l : NonZeroLayout w) (h : Heap ω) :
    let m := fillBytes h.mem ptr ((observed A).usableLen ptr l (S.heap h)) (S.pattern h.alloc)
    let a := S.inner ((onFree S (observed A)).deallocate ptr l h).alloc
    a.receipts = ⟨ptr, l, (observed A).usableLen ptr l ⟨S.inner h.alloc, m⟩, m⟩ ::
      (S.inner h.alloc).receipts ∧ a.resizes = (S.inner h.alloc).resizes := by
  rw [deallocate_eq]
  simp only [after, S.inner_put]
  exact ⟨rfl, rfl⟩

/-- The free of a live block: at the receipt all its usable bytes hold the pattern. -/
theorem deallocate_scrubs (hA : HonoursUsable A Inv) (hinv : Inv (Observed.heap (S.heap h)) L)
    (hg : g ∈ L) :
    let a := S.inner ((onFree S (observed A)).deallocate g.block.ptr g.layout h).alloc
    ∃ r : Receipt w, a.receipts = r :: (S.inner h.alloc).receipts ∧
      r.ptr = g.block.ptr ∧ r.layout = g.layout ∧ g.layout.size ≤ r.usable ∧
      ∀ i < r.usable, r.mem (g.block.ptr + i) = S.pattern h.alloc := by
  have hA' := observed_honours hA
  have hanswer := (hA'.usable_write hinv hg
    (Scrubber.eqOn_scrub g h.mem (S.heap h) (S.pattern h.alloc))).2
  refine ⟨_, (deallocate_receipts S A g.block.ptr g.layout h).1, rfl, rfl, ?_, ?_⟩
  all_goals simp only [Allocator.usableLen, Scrubber.heap] at hanswer ⊢
  · rw [hanswer]
    exact hA'.size_le hinv hg
  · rw [hanswer]
    exact fun i hi => fillBytes_add _ hi

/-- Request, copy, free: what the two resizes have in common. -/
theorem copy_free_scrubs (hA : HonoursUsable A Inv) (hinv : Inv (Observed.heap (S.heap h)) L)
    (hg : g ∈ L)
    (hcall : (onFree S (observed A)).allocate new h = (some b, h')) :
    ResizeScrubs S A Inv L g new h (some b, (onFree S (observed A)).deallocate g.block.ptr g.layout
      ⟨h'.alloc, copyBytes h'.mem g.block.ptr b.ptr (min g.layout.size new.size)⟩) := by
  have hcore := honoursCore (S := S) (observed_honours hA)
  obtain ⟨hiss, hcopy⟩ := hcore.copy_free hinv hg (min_le_left _ _) (min_le_right _ _) hcall
  have hwritten :=
    hcore.copy_inv hinv g.block.ptr (min_le_right g.layout.size new.size) hcall
  obtain ⟨hreceipts, hresizes⟩ := allocate_receipts S A new h
  rw [hcall] at hreceipts hresizes
  have hpattern : S.pattern h'.alloc = S.pattern h.alloc := by
    have hstate := congrArg (fun r => S.pattern r.2.alloc) hcall
    exact hstate.symm.trans (S.pattern_put _ _)
  constructor
  · rintro b' h'' heq
    cases heq
    obtain ⟨r, hr, hptr, hlayout, hsize, hfilled⟩ :=
      deallocate_scrubs hA hwritten (Set.mem_insert_of_mem _ hg)
    refine ⟨hiss, hcopy, r, hr.trans ?_, hptr, hlayout, hsize, fun i hi => ?_⟩
    · rw [hreceipts]
    · exact (hfilled i hi).trans hpattern
  · rintro h'' ⟨⟩
  · exact (deallocate_receipts S A g.block.ptr g.layout _).2.trans hresizes

/-- A request that fails. -/
theorem allocate_none_scrubs (hA : HonoursUsable A Inv) (hinv : Inv (Observed.heap (S.heap h)) L)
    (hg : g ∈ L) (hcall : (onFree S (observed A)).allocate new h = (none, h')) :
    ResizeScrubs S A Inv L g new h (none, h') := by
  have hA' := honours (S := S) (observed_honours hA)
  obtain ⟨hreceipts, hresizes⟩ := allocate_receipts S A new h
  have hbytes := hA'.usable_allocate (l := new) hinv hg
  rw [hcall] at hreceipts hresizes hbytes
  constructor
  · rintro b h'' ⟨⟩
  · rintro h'' heq
    cases heq
    exact ⟨hA'.allocate_none hinv hcall, hbytes, hreceipts⟩
  · exact hresizes

theorem resize_scrubs (S : Scrubber ω (Observed w σ)) (hA : HonoursUsable A Inv)
    (hinv : Inv (Observed.heap (S.heap h)) L) (hg : g ∈ L) {r : Resize}
    (hlegal : r.Legal g.layout new) :
    ResizeScrubs S A Inv L g new h
      (r.call (onFree S (observed A)) g.block.ptr g.layout new h) := by
  rcases hcall : (onFree S (observed A)).allocate new h with ⟨_ | b, h'⟩
  · rw [Resize.call_of_none rfl rfl _ hcall]
    exact allocate_none_scrubs hA hinv hg hcall
  · rw [Resize.call_of_some rfl rfl _ hlegal hcall]
    exact copy_free_scrubs hA hinv hg hcall

end Scrubber

/-- **A resize leaves no copy behind.** For every inner allocator that honours the contract, a
resize of a live block through either wrapper delivers: the first bytes are carried over, the old
block is handed back once under its own layout with every usable byte overwritten, and a resize that
fails changes nothing. The resizes of the inner allocator are never used. -/
theorem onFree_resize_scrubs (hA : HonoursUsable A Inv) (hg : g ∈ L) {r : Resize}
    (hlegal : r.Legal g.layout new) :
    (∀ h : Heap (PoisonOnFree (Observed w σ)), Inv (heap (PoisonOnFree.scrubber.heap h)) L →
      ResizeScrubs PoisonOnFree.scrubber A Inv L g new h
        (r.call (PoisonOnFree.allocator (observed A)) g.block.ptr g.layout new h)) ∧
    ∀ h : Heap (ZeroizeOnFree (Observed w σ)), Inv (heap (ZeroizeOnFree.scrubber.heap h)) L →
      ResizeScrubs ZeroizeOnFree.scrubber A Inv L g new h
        (r.call (ZeroizeOnFree.allocator (observed A)) g.block.ptr g.layout new h) :=
  ⟨fun _ hinv => Scrubber.resize_scrubs PoisonOnFree.scrubber hA hinv hg hlegal,
    fun _ hinv => Scrubber.resize_scrubs ZeroizeOnFree.scrubber hA hinv hg hlegal⟩

/-! ## Inner allocators -/

/-- A slab reports its stride, which is the length of every slice. -/
theorem Slab.honoursUsable {β : Type} (T : RustType w) (R : FixedRange β) (n : Nat) :
    HonoursUsable (Slab.allocator w T R) (Slab.Holds R n) := by
  refine (Slab.honours T R n).toHonoursCore.usable_of_le ?_ fun _ _ _ => rfl
  rintro h L g k ⟨G, rfl, hi⟩ hg hsize
  cases hsize
  exact ⟨(hi.fits g hg).2, (hi.len_eq g hg).ge⟩

/-- A bump arena reports nothing. -/
theorem BumpArena.honoursUsable {β : Type} {R : FixedRange β} (hR : R.Lawful) {base : Nat}
    (hbase : 0 < base) : HonoursUsable (BumpArena.allocator w R) (BumpArena.Holds R base) :=
  (BumpArena.honoursCore hR base hbase).usable_of_le (fun _ _ hsize => by cases hsize)
    fun _ _ _ => rfl

namespace PoisonOnFree

/-- The default pattern over a bump arena of 64 bytes, with one block of five bytes. -/
def oneBlock : Heap (PoisonOnFree (Observed 64 (BumpArena (InlineBacked 64 64)))) :=
  ⟨.new ⟨⟨.lit 64 64 64 (Eq.refl true), 64, 5⟩, [], 0⟩, fun _ => 7⟩

def bytes5 : NonZeroLayout 64 := .lit 64 5 1 (Eq.refl true)

def bytes8 : NonZeroLayout 64 := .lit 64 8 1 (Eq.refl true)

abbrev arena : Allocator 64 (BumpArena (InlineBacked 64 64)) :=
  BumpArena.allocator 64 (InlineBacked.range 64 64)

/-- The arena could grow the block in place, but the block moves and is overwritten. -/
theorem onFree_resize_scrubs_grow :
    ∃ h', (PoisonOnFree.allocator (observed arena)).grow 64 bytes5 bytes8 oneBlock =
        (some ⟨69, 8⟩, h') ∧
      (∀ i < 5, h'.mem (69 + i) = 7) ∧
      ∃ r : Receipt 64, h'.alloc.inner.receipts = [r] ∧ r.ptr = 64 ∧ r.layout = bytes5 ∧
        5 ≤ r.usable ∧ ∀ i < r.usable, r.mem (64 + i) = 0xDE := by
  have hA := BumpArena.honoursUsable (w := 64) (InlineBacked.range_lawful 64 64)
    (show 0 < 64 by decide)
  have hempty := BumpArena.holds_new (w := 64) (R := InlineBacked.range 64 64)
    (b := InlineBacked.lit 64 64 64 (Eq.refl true)) rfl fun _ => 7
  have hcall : arena.allocate bytes5 ⟨⟨.lit 64 64 64 (Eq.refl true), 64, 0⟩, fun _ => 7⟩ =
      (some ⟨64, 5⟩, heap (scrubber.heap oneBlock)) := rfl
  have hissued := (hA.allocate_some hempty hcall).inv
  have hlive : (⟨⟨64, 5⟩, bytes5⟩ : Grant 64) ∈ insert (⟨⟨64, 5⟩, bytes5⟩ : Grant 64) ∅ :=
    Set.mem_insert _ _
  have hlegal : Resize.grow.Legal bytes5 bytes8 := show 5 ≤ 8 by decide
  have hscrubs := (onFree_resize_scrubs hA hlive hlegal).1 oneBlock hissued
  obtain ⟨-, hcopy, r, hreceipts, hptr, hlayout, hsize, hfilled⟩ := hscrubs.ok ⟨69, 8⟩ _ rfl
  exact ⟨_, rfl, hcopy, r, hreceipts, hptr, hlayout, hsize, hfilled⟩

end PoisonOnFree

end ForgeAlloc
