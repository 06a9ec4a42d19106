import ForgeAlloc.Layout.Slab
import ForgeAlloc.Layout.Bump
import ForgeAlloc.Library.Run

set_option autoImplicit false

/-! # Runs of a `Slab`

The client of a run allocates, frees live blocks, writes single bytes into its live blocks, and
moves the slab value; the rest of the program writes outside the region. Blocks are recorded
relative to the base of the region, since a move changes every address.

`SlabRun.Inv` says that the slab represents a pool whose live slots are the client's blocks and
whose free slots are the blocks it has freed, in the order of the frees.
-/

namespace ForgeAlloc

open MachineInt ByteMemory SlotPool Linked

structure SlabRun {w : Nat} (T : RustType w) (β : Type) where
  heap : Heap (Slab T β)
  /-- The blocks the client holds, relative to the base of the region. -/
  live : List Block
  /-- The blocks it has freed and not got again, the last one first. -/
  freed : List Block

inductive SlabOp (w : Nat) (β : Type)
  | allocate (l : NonZeroLayout w)
  | deallocate (b : Block) (l : NonZeroLayout w)
  | write (b : Block) (i : Nat) (v : UInt8)
  | writeOutside (a : Nat) (v : UInt8)
  | move (b : β)

namespace SlabRun

variable {w : Nat} {β : Type} {T : RustType w} {R : FixedRange β} {n : Nat}

/-- The block at the relative address of `b`. -/
def atBase (base : Nat) (b : Block) : Block := ⟨base + b.ptr, b.len⟩

def step (R : FixedRange β) (s : SlabRun T β) : SlabOp w β → Option (SlabRun T β)
  | .allocate l =>
      match Slab.allocate R l s.heap with
      | (none, h) => some { s with heap := h }
      | (some b, h) =>
          let b' : Block := ⟨b.ptr - s.heap.alloc.basePtr R, b.len⟩
          some ⟨h, b' :: s.live, s.freed.erase b'⟩
  | .deallocate b l =>
      if b ∈ s.live then
        some ⟨Slab.deallocate R (s.heap.alloc.basePtr R + b.ptr) l s.heap, s.live.erase b,
          b :: s.freed⟩
      else none
  | .write b i v =>
      if b ∈ s.live ∧ i < b.len then
        some { s with
          heap := ⟨s.heap.alloc, writeByte s.heap.mem (s.heap.alloc.basePtr R + b.ptr + i) v⟩ }
      else none
  | .writeOutside a v =>
      let base := s.heap.alloc.basePtr R
      if base ≤ a ∧ a < base + s.heap.alloc.capacity * s.heap.alloc.blockStride then none
      else some { s with heap := ⟨s.heap.alloc, writeByte s.heap.mem a v⟩ }
  | .move b =>
      let old := s.heap.alloc.backing
      if R.size b = R.size old ∧ 0 < R.base b ∧ R.base b + R.size b ≤ 2 ^ w then
        some { s with
          heap := ⟨s.heap.alloc.moveTo b,
            copyBytes s.heap.mem (R.base old) (R.base b) (R.size b)⟩ }
      else none

/-! ## The invariant -/

variable {s s' : SlabRun T β}

structure Inv (R : FixedRange β) (s : SlabRun T β) (p : Pool n) : Prop where
  refines : Slab.Refines R s.heap p
  live_eq : s.live = p.live.map (slot 0 s.heap.alloc.blockStride)
  freed_eq : s.freed = p.free.map (slot 0 s.heap.alloc.blockStride)

theorem slot_zero_injective {stride : Nat} (hpos : 0 < stride) :
    Function.Injective (slot 0 stride) :=
  fun _ _ h => slot_inj hpos (congrArg Block.ptr h)

theorem slot_sub (base stride i : Nat) :
    (⟨(slot base stride i).ptr - base, (slot base stride i).len⟩ : Block) = slot 0 stride i := by
  simp [slot]

theorem atBase_slot (base stride i : Nat) : atBase base (slot 0 stride i) = slot base stride i := by
  simp [atBase, slot]

/-- Erasing the slot of an index from the blocks erases the index from the list. -/
theorem map_slot_erase {stride : Nat} (hpos : 0 < stride) (l : List Nat) (i : Nat) :
    (l.map (slot 0 stride)).erase (slot 0 stride i) = (l.erase i).map (slot 0 stride) :=
  (List.map_erase (slot_zero_injective hpos) l).symm

theorem Inv.live_slot {p : Pool n} (hi : Inv R s p) {b : Block} (hb : b ∈ s.live) :
    ∃ i ∈ p.live, b = slot 0 s.heap.alloc.blockStride i := by
  rw [hi.live_eq, List.mem_map] at hb
  obtain ⟨i, hmem, rfl⟩ := hb
  exact ⟨i, hmem, rfl⟩

/-- A change of memory that spares the free slots keeps the invariant. -/
theorem Inv.mem_congr {p : Pool n} (hi : Inv R s p) {m : Mem}
    (hbytes : ∀ i ∈ p.free,
      ∀ x ∈ (slot (s.heap.alloc.basePtr R) s.heap.alloc.blockStride i).bytes,
        m x = s.heap.mem x) : Inv R { s with heap := ⟨s.heap.alloc, m⟩ } p :=
  ⟨hi.refines.mem_congr hbytes, hi.live_eq, hi.freed_eq⟩

theorem Inv.allocate {p : Pool n} (hi : Inv R s p) (l : NonZeroLayout w)
    (hstep : step R s (.allocate l) = some s') : ∃ q : Pool n, Inv R s' q := by
  have hpos := hi.refines.shape.stride_pos
  simp only [step] at hstep
  by_cases hfits : s.heap.alloc.FitsSlot l
  · rcases Slab.allocate_of_fits hi.refines hfits with
      ⟨-, heq⟩ | ⟨i, q, sl, hq, heq, hr, hsame⟩
    · rw [heq] at hstep
      cases hstep
      exact ⟨p, hi⟩
    · rw [heq] at hstep
      simp only [Option.some.injEq, slot_sub] at hstep
      subst hstep
      obtain ⟨hlive, -, hfree⟩ := Pool.alloc_cases hq
      obtain ⟨head, carved, events, rfl⟩ := hsame
      refine ⟨q, hr, ?_, ?_⟩
      · simp only [hi.live_eq, hlive, List.map_cons]
      · simp only [hi.freed_eq, map_slot_erase hpos]
        congr 1
        rcases hfree with ⟨hpf, -⟩ | ⟨hpf, hqf, -⟩
        · rw [hpf, List.erase_cons_head]
        · rw [hpf, hqf, List.erase_nil]
  · rw [Slab.allocate_of_not_fits hfits] at hstep
    cases hstep
    exact ⟨p, hi⟩

theorem Inv.deallocate {p : Pool n} (hi : Inv R s p) (b : Block) (l : NonZeroLayout w)
    (hstep : step R s (.deallocate b l) = some s') : ∃ q : Pool n, Inv R s' q := by
  have hpos := hi.refines.shape.stride_pos
  simp only [step] at hstep
  split at hstep
  case isFalse => cases hstep
  case isTrue hb =>
      obtain ⟨i, hmem, rfl⟩ := hi.live_slot hb
      cases hstep
      have hptr : s.heap.alloc.basePtr R + (slot 0 s.heap.alloc.blockStride i).ptr
          = s.heap.alloc.slotPtr R i := by
        simp [slot, Slab.slotPtr]
      rw [hptr]
      obtain ⟨heq, hr⟩ := Slab.deallocate_live (l := l) hi.refines hmem
      refine ⟨p.release i hmem, hr, ?_, ?_⟩
      · rw [heq]
        simp only [hi.live_eq, map_slot_erase hpos]
        rfl
      · rw [heq]
        simp only [hi.freed_eq]
        rfl

theorem Inv.write {p : Pool n} (hi : Inv R s p) (b : Block) (i : Nat) (v : UInt8)
    (hstep : step R s (.write b i v) = some s') : ∃ q : Pool n, Inv R s' q := by
  simp only [step] at hstep
  split at hstep
  case isFalse => cases hstep
  case isTrue hguard =>
      obtain ⟨hb, hlen⟩ := hguard
      obtain ⟨j, hmem, rfl⟩ := hi.live_slot hb
      cases hstep
      refine ⟨p, hi.mem_congr fun k hk x hx => writeByte_of_ne v ?_⟩
      rintro rfl
      -- a live slot and a free slot have no byte in common
      have hne : k ≠ j := fun heq => p.not_mem_live_of_mem_free hk (heq ▸ hmem)
      have hfar := slot_lt_or_lt (s.heap.alloc.basePtr R) s.heap.alloc.blockStride hne
      rw [Block.mem_bytes] at hx
      simp only [slot] at hlen hx hfar
      omega

theorem Inv.writeOutside {p : Pool n} (hi : Inv R s p) (a : Nat) (v : UInt8)
    (hstep : step R s (.writeOutside a v) = some s') : ∃ q : Pool n, Inv R s' q := by
  simp only [step] at hstep
  split at hstep
  case isTrue => cases hstep
  case isFalse hout =>
      cases hstep
      refine ⟨p, hi.mem_congr fun k hk x hx => writeByte_of_ne v ?_⟩
      rintro rfl
      have hle := slot_le (s.heap.alloc.basePtr R) s.heap.alloc.blockStride
        (hi.refines.lt_capacity (p.lt_of_mem_free hk))
      have hge := slot_ptr_le (s.heap.alloc.basePtr R) s.heap.alloc.blockStride k
      rw [Block.mem_bytes] at hx
      omega

theorem Inv.move {p : Pool n} (hi : Inv R s p) (b : β)
    (hstep : step R s (.move b) = some s') : ∃ q : Pool n, Inv R s' q := by
  simp only [step] at hstep
  split at hstep
  case isFalse => cases hstep
  case isTrue hguard =>
      cases hstep
      exact ⟨p, hi.refines.move hguard.1 hguard.2.1 hguard.2.2 fun x hx => copyBytes_add hx,
        hi.live_eq, hi.freed_eq⟩

theorem inv_step (op : SlabOp w β) (hi : ∃ p : Pool n, Inv R s p)
    (hstep : step R s op = some s') : ∃ p : Pool n, Inv R s' p := by
  obtain ⟨p, hi⟩ := hi
  cases op with
  | allocate l => exact hi.allocate l hstep
  | deallocate b l => exact hi.deallocate b l hstep
  | write b i v => exact hi.write b i v hstep
  | writeOutside a v => exact hi.writeOutside a v hstep
  | move b => exact hi.move b hstep

theorem inv_run {ops : List (SlabOp w β)} (hi : ∃ p : Pool n, Inv R s p)
    (hrun : Machine.run (step R) s ops = some s') : ∃ p : Pool n, Inv R s' p :=
  Machine.run_invariant (P := fun u => ∃ p : Pool n, Inv R u p)
    (fun _ op _ hi hstep => inv_step op hi hstep) hi hrun

/-! ## What the invariant says about the code -/

/-- The link word of a slot, as the slot it names. -/
def link (R : FixedRange β) (s : SlabRun T β) (i : Nat) : Option Nat :=
  ofLink (readU32 s.heap.mem (s.heap.alloc.slotPtr R i))

theorem Inv.live_iff {p : Pool n} (hi : Inv R s p) {i : Nat} :
    slot 0 s.heap.alloc.blockStride i ∈ s.live ↔ i ∈ p.live := by
  rw [hi.live_eq, List.mem_map_of_injective (slot_zero_injective hi.refines.shape.stride_pos)]

/-- The list threaded from the head is the list of the free slots. -/
theorem Inv.freelist {p : Pool n} (hi : Inv R s p) :
    Chain (link R s) (ofLink s.heap.alloc.freeHead) p.free ∧ p.free.Nodup ∧
      (∀ i, i ∈ p.free ↔ i < s.heap.alloc.nextUncarved ∧
        slot 0 s.heap.alloc.blockStride i ∉ s.live) ∧
      s.live.length + p.free.length = s.heap.alloc.nextUncarved := by
  have hcarved := hi.refines.threaded.carved_eq
  refine ⟨hi.refines.threaded.chain, p.nodup_free, fun i => ?_, ?_⟩
  · rw [hi.live_iff, hcarved]
    exact p.mem_free_iff hi.refines.retired_eq
  · have hlen := p.length
    rw [hi.refines.retired_eq, List.length_nil] at hlen
    rw [hi.live_eq, List.length_map, hcarved]
    omega

/-- A block that `allocate` returns is a slot that is not live: the last one freed, or the next
one to carve when none is free. -/
theorem Inv.allocate_some {p : Pool n} (hi : Inv R s p) {l : NonZeroLayout w} {b : Block}
    {h : Heap (Slab T β)} (heq : Slab.allocate R l s.heap = (some b, h)) :
    s.heap.alloc.FitsSlot l ∧ ∃ i, b = slot (s.heap.alloc.basePtr R) s.heap.alloc.blockStride i ∧
      i < n ∧ i ∉ p.live ∧
      ((∃ t, p.free = i :: t) ∨ (p.free = [] ∧ i = s.heap.alloc.nextUncarved)) := by
  by_cases hfits : s.heap.alloc.FitsSlot l
  · rcases Slab.allocate_of_fits hi.refines hfits with ⟨-, hnone⟩ | ⟨i, q, sl, hq, hsome, -, -⟩
    · rw [hnone] at heq
      cases heq
    · rw [hsome] at heq
      cases heq
      refine ⟨hfits, i, rfl, Pool.alloc_lt hq, Pool.alloc_not_mem hq, ?_⟩
      rcases (Pool.alloc_cases hq).2.2 with ⟨hfree, -⟩ | ⟨hnil, -, rfl, -⟩
      · exact Or.inl ⟨_, hfree⟩
      · exact Or.inr ⟨hnil, hi.refines.threaded.carved_eq.symm⟩
  · rw [Slab.allocate_of_not_fits hfits] at heq
    cases heq

theorem Inv.allocate_eq_none_iff {p : Pool n} (hi : Inv R s p) {l : NonZeroLayout w}
    (hfits : s.heap.alloc.FitsSlot l) :
    (Slab.allocate R l s.heap).1 = none ↔ s.live.length = n := by
  have hpool := Pool.alloc_eq_none_iff_live (p := p) hi.refines.retired_eq
  rw [hi.live_eq, List.length_map, ← hpool]
  rcases Slab.allocate_of_fits hi.refines hfits with ⟨hq, heq⟩ | ⟨i, q, sl, hq, heq, -, -⟩
  · simp [heq, hq]
  · simp [heq, hq]

/-- **Every run of a slab.** For every element type, capacity, honest backing and sound freelist
policy, in every state a client reaches by allocating, freeing live blocks, writing into them and
moving the slab:

* the client holds carved slots, the list threaded from `free_head` is acyclic and consists of the
  other carved slots, and both together are as many as were carved;
* a block `allocate` returns has the stride for its length, which is at least the requested size,
  lies inside the slab and overlaps no live block; it is the block freed last and not reissued,
  or the next uncarved slot when there is none;
* a request that fits the slot fails exactly when every slot is live;
* no corruption has been counted. -/
theorem slab_run_correct {A : Allocator w β} {BInv : Heap β → Set (Grant w) → Prop}
    (hA : HonoursRange A R BInv) {g : Heap β} {L : Set (Grant w)} (hinv : BInv g L)
    {mac : FreelistProtection} (hM : mac.Sound) {h : Heap (Slab T β)}
    (hnew : Slab.withProtection A R T n mac g = some h) {ops : List (SlabOp w β)}
    (hrun : Machine.run (step R) ⟨h, [], []⟩ ops = some s) :
    let slab := s.heap.alloc
    let base := slab.basePtr R
    (∀ c ∈ s.live, ∃ i < slab.nextUncarved, c = slot 0 slab.blockStride i) ∧
      (∃ free : List Nat, Chain (link R s) (ofLink slab.freeHead) free ∧ free.Nodup ∧
        (∀ i, i ∈ free ↔ i < slab.nextUncarved ∧ slot 0 slab.blockStride i ∉ s.live) ∧
        s.live.length + free.length = slab.nextUncarved) ∧
      slab.nextUncarved ≤ n ∧
      (∀ l b h', Slab.allocate R l s.heap = (some b, h') →
        b.len = slab.blockStride ∧ l.size ≤ b.len ∧
          base ≤ b.ptr ∧ b.ptr + b.len ≤ base + n * slab.blockStride ∧
          (∀ c ∈ s.live, Disjoint b.bytes (atBase base c).bytes) ∧
          match s.freed with
          | top :: _ => b = atBase base top
          | [] => b.ptr = slab.slotPtr R slab.nextUncarved) ∧
      (∀ l, slab.FitsSlot l → ((Slab.allocate R l s.heap).1 = none ↔ s.live.length = n)) ∧
      slab.corruptionEvents = 0 := by
  intro slab base
  have hstart : Inv R ⟨h, [], []⟩ (Pool.empty n) :=
    ⟨(Slab.withProtection_refines hA hinv hM hnew).1, rfl, rfl⟩
  obtain ⟨p, hi⟩ := inv_run ⟨_, hstart⟩ hrun
  have hcarved := hi.refines.threaded.carved_eq
  refine ⟨fun c hc => ?_, ⟨p.free, hi.freelist⟩, hcarved ▸ p.carved_le, ?_,
    fun _ hfits => hi.allocate_eq_none_iff hfits, hi.refines.corruption_eq⟩
  · obtain ⟨i, hlive, rfl⟩ := hi.live_slot hc
    exact ⟨i, hcarved ▸ p.lt_of_mem_live hlive, rfl⟩
  intro l b h' heq
  obtain ⟨hfits, i, rfl, hlt, hlive, horder⟩ := hi.allocate_some heq
  refine ⟨rfl, hfits.2, slot_ptr_le _ _ _, slot_le _ _ hlt, ?_, ?_⟩
  · intro c hc
    obtain ⟨j, hj, rfl⟩ := hi.live_slot hc
    rw [atBase_slot]
    exact slot_disjoint fun heq => hlive (heq ▸ hj)
  · rcases horder with ⟨t, hfree⟩ | ⟨hfree, rfl⟩
    · rw [hi.freed_eq, hfree]
      exact (atBase_slot _ _ _).symm
    · rw [hi.freed_eq, hfree]
      rfl

/-- A backing of 64 bytes whose state is its address, in units of 16. -/
def movable : FixedRange Nat where
  base := fun a => 16 * (a + 1)
  size := fun _ => 64
  commit := fun _ _ a => (true, a)

theorem movable_lawful : movable.Lawful :=
  ⟨fun _ => Nat.mul_pos (by decide) (Nat.succ_pos _), fun _ _ _ => rfl, fun _ _ _ => rfl⟩

def word8 : RustType 16 := .lit 16 8 8 (Eq.refl true)

def layout8 : NonZeroLayout 16 := .lit 16 8 8 (Eq.refl true)

def slab8 : Heap (Slab word8 (BumpArena Nat)) :=
  ⟨⟨⟨0, 64, 24⟩, .none, 0, 0, 0, 8, 3, 3, .lit 16 24 8 (Eq.refl true), 0⟩, fun _ => 0⟩

/-- Two blocks, a write, a free, a move to another address and one more block. -/
theorem slab_run_correct_slab8 :
    ∃ s, Machine.run (step (BumpArena.range movable)) ⟨slab8, [], []⟩
        [.allocate layout8, .allocate layout8, .write ⟨0, 8⟩ 3 7, .deallocate ⟨0, 8⟩ layout8,
          .move ⟨4, 64, 24⟩, .allocate layout8] = some s ∧
      s.live = [⟨0, 8⟩, ⟨8, 8⟩] ∧ s.heap.alloc.corruptionEvents = 0 := by
  have hlive : (Machine.run (step (BumpArena.range movable)) ⟨slab8, [], []⟩
      [.allocate layout8, .allocate layout8, .write ⟨0, 8⟩ 3 7, .deallocate ⟨0, 8⟩ layout8,
        .move ⟨4, 64, 24⟩, .allocate layout8]).map SlabRun.live = some [⟨0, 8⟩, ⟨8, 8⟩] := rfl
  obtain ⟨s, hrun, hs⟩ := Option.map_eq_some_iff.mp hlive
  have hnew : Slab.withProtection (BumpArena.allocator 16 movable) (BumpArena.range movable) word8 3
      .none ⟨⟨0, 64, 0⟩, fun _ => 0⟩ = some slab8 := rfl
  have hcorrect := slab_run_correct (BumpArena.honours movable_lawful 16 (by decide))
    (BumpArena.holds_new (b := 0) rfl _) FreelistProtection.none_sound hnew hrun
  exact ⟨s, hrun, hs, hcorrect.2.2.2.2.2⟩

end SlabRun

end ForgeAlloc
