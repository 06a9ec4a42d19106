import ForgeAlloc.Layout.Slab
import ForgeAlloc.Layout.Bump
import ForgeAlloc.Backing.Inline
import ForgeAlloc.Library.Run

set_option autoImplicit false

/-! # A `Slab` whose links are overwritten

A run of a slab in a program that does not keep to its own blocks: any pointer may be handed to
`deallocate` and any byte of memory overwritten, the links of free slots among them. Nothing is
assumed of the protection; `NoProtection` accepts every link.

What is left is the bound of `allocate` on the links it follows. `Bounded` says that the head names
one of the slots or none; every call keeps it whatever it reads, so no call leaves the region of the
slab (`Confined`) and every block issued is one of the slots (`slab_attacked_run_correct`).
-/

namespace ForgeAlloc

open MachineInt ByteMemory SlotPool

/-! ## What a call reads and writes -/

/-- The call changes no byte outside the region and depends on none. -/
structure Confined {σ ρ : Type} (region : Set Nat) (f : Heap σ → ρ × Heap σ) (h : Heap σ) :
    Prop where
  writes : ∀ x ∉ region, (f h).2.mem x = h.mem x
  reads : ∀ m, Set.EqOn m h.mem region → (f ⟨h.alloc, m⟩).1 = (f h).1 ∧
    (f ⟨h.alloc, m⟩).2.alloc = (f h).2.alloc ∧
    Set.EqOn (f ⟨h.alloc, m⟩).2.mem (f h).2.mem region

namespace Slab

variable {w : Nat} {β : Type} {T : RustType w} {R : FixedRange β} {h : Heap (Slab T β)}
  {l : NonZeroLayout w} {n : Nat}

/-- The head names a slot or none, and no more slots are carved than there are. -/
structure Bounded (R : FixedRange β) (s : Slab T β) : Prop where
  shape : Shape R s
  head_le : s.freeHead ≤ s.capacity
  carved_le : s.nextUncarved ≤ s.capacity

/-- The link words of a slot are bytes of the slot. -/
theorem linkWord_mem_region {s : Slab T β} (hs : Shape R s) {i : Nat} (hi : i < s.capacity) {x : Nat}
    (hle : s.slotPtr R i ≤ x) (hlt : x < s.slotPtr R i + freeLinkSize) : x ∈ s.region R := by
  have hlink := hs.link_le
  refine ⟨i, hi, hle, ?_⟩
  show x < s.slotPtr R i + s.blockStride
  omega

/-- The slot that a pop reads is one of the slab's. -/
theorem Bounded.head_lt {s : Slab T β} (hb : Bounded R s) (hne : s.freeHead ≠ 0) :
    s.freeHead - 1 < s.capacity := by
  have hle := hb.head_le
  omega

theorem Bounded.congr {s s' : Slab T β} (hb : Bounded R s) (hsame : SameShape s s')
    (hhead : s'.freeHead ≤ s.capacity) (hcarved : s'.nextUncarved ≤ s.capacity) :
    Bounded R s' := by
  have hshape := hb.shape.congr hsame
  obtain ⟨head, carved, events, rfl⟩ := hsame
  exact ⟨hshape, hhead, hcarved⟩

/-! ## The calls -/

/-- A pop takes the slot of the head or gives up the list; what it follows is within bounds. -/
theorem popFree_bounded (hb : Bounded R h.alloc) :
    Bounded R (popFree R h).2 ∧ SameShape h.alloc (popFree R h).2 ∧
      ∀ b, (popFree R h).1 = some b → ∃ i < h.alloc.capacity,
        b = slot (h.alloc.basePtr R) h.alloc.blockStride i := by
  by_cases hzero : h.alloc.freeHead = 0
  · rw [popFree_zero hzero]
    refine ⟨hb, ⟨_, _, _, rfl⟩, fun b hsome => ?_⟩
    cases hsome
  · simp only [popFree, ne_eq, hzero, not_false_eq_true, if_true]
    split
    case isTrue hlink =>
        have hsame : SameShape h.alloc { h.alloc with
            freeHead := readU32 h.mem (h.alloc.slotPtr R (h.alloc.freeHead - 1)) } := ⟨_, _, _, rfl⟩
        refine ⟨hb.congr hsame hlink.2 hb.carved_le, hsame, fun b hsome => ?_⟩
        exact ⟨h.alloc.freeHead - 1, hb.head_lt hzero, (Option.some.inj hsome).symm⟩
    case isFalse =>
        have hsame : SameShape h.alloc { h.alloc with
            corruptionEvents := wrappingAdd w h.alloc.corruptionEvents 1, freeHead := 0 } :=
          ⟨_, _, _, rfl⟩
        refine ⟨hb.congr hsame (Nat.zero_le _) hb.carved_le, hsame, fun b hsome => ?_⟩
        cases hsome

theorem carve_bounded {s : Slab T β} (hb : Bounded R s) :
    Bounded R (s.carve R).2 ∧ SameShape s (s.carve R).2 ∧
      ∀ b, (s.carve R).1 = some b → ∃ i < s.capacity, b = slot (s.basePtr R) s.blockStride i := by
  unfold carve
  split
  case isTrue =>
      refine ⟨hb, ⟨_, _, _, rfl⟩, fun b hsome => ?_⟩
      cases hsome
  case isFalse hlt =>
      have hsame : SameShape s { s with nextUncarved := s.nextUncarved + 1 } := ⟨_, _, _, rfl⟩
      refine ⟨hb.congr hsame hb.head_le (Nat.lt_of_not_le hlt), hsame, fun b hsome => ?_⟩
      exact ⟨s.nextUncarved, Nat.lt_of_not_le hlt, (Option.some.inj hsome).symm⟩

theorem SameShape.trans {s s' s'' : Slab T β} (h₁ : SameShape s s') (h₂ : SameShape s' s'') :
    SameShape s s'' := by
  obtain ⟨head, carved, events, rfl⟩ := h₁
  obtain ⟨head', carved', events', rfl⟩ := h₂
  exact ⟨head', carved', events', rfl⟩

/-- The outcome of `allocate` for a request that fits: the pop's, or the carve's after it. -/
theorem allocate_eq (hfits : h.alloc.FitsSlot l) : allocate R l h =
    match popFree R h with
    | (some b, s) => (some b, ⟨s, h.mem⟩)
    | (none, s) => ((s.carve R).1, ⟨(s.carve R).2, h.mem⟩) := by
  unfold allocate
  exact (if_neg (Nat.not_lt.mpr hfits.1)).trans (if_neg (Nat.not_lt.mpr hfits.2))

/-- **`allocate` on any memory**: the bounds are kept, memory is not written, and a block that is
returned is a slot. -/
theorem allocate_bounded (hb : Bounded R h.alloc) (l : NonZeroLayout w) :
    Bounded R (allocate R l h).2.alloc ∧ SameShape h.alloc (allocate R l h).2.alloc ∧
      (allocate R l h).2.mem = h.mem ∧
      ∀ b, (allocate R l h).1 = some b → ∃ i < h.alloc.capacity,
        b = slot (h.alloc.basePtr R) h.alloc.blockStride i := by
  by_cases hfits : h.alloc.FitsSlot l
  · obtain ⟨hpop, hsame, hslot⟩ := popFree_bounded hb
    rw [allocate_eq hfits]
    rcases hcall : popFree R h with ⟨_ | b, s⟩
    · rw [hcall] at hpop hsame
      obtain ⟨hcarve, hsame', hslot'⟩ := carve_bounded hpop
      refine ⟨hcarve, hsame.trans hsame', rfl, fun b hsome => ?_⟩
      obtain ⟨head, carved, events, rfl⟩ := hsame
      exact hslot' b hsome
    · rw [hcall] at hpop hsame hslot
      exact ⟨hpop, hsame, rfl, hslot⟩
  · rw [allocate_of_not_fits hfits]
    refine ⟨hb, ⟨_, _, _, rfl⟩, rfl, fun b hsome => ?_⟩
    cases hsome

theorem slotIndex_lt {s : Slab T β} (hs : Shape R s) {p idx : Nat}
    (hidx : s.slotIndex R p = some idx) : idx < s.capacity :=
  (hs.geometry.slotIndex_eq_some_iff.mp hidx).1

/-- **`deallocate` of any pointer** keeps the bounds. -/
theorem deallocate_bounded (hb : Bounded R h.alloc) (ptr : Nat) (l : NonZeroLayout w) :
    Bounded R (deallocate R ptr l h).alloc ∧ SameShape h.alloc (deallocate R ptr l h).alloc := by
  rcases hidx : h.alloc.slotIndex R ptr with _ | idx
  · have heq : deallocate R ptr l h = h := by simp only [deallocate, hidx]
    rw [heq]
    exact ⟨hb, _, _, _, rfl⟩
  · have hsame : SameShape h.alloc { h.alloc with freeHead := idx + 1 } := ⟨_, _, _, rfl⟩
    have hout : (deallocate R ptr l h).alloc = { h.alloc with freeHead := idx + 1 } := by
      simp only [deallocate, hidx]
    rw [hout]
    exact ⟨hb.congr hsame (slotIndex_lt hb.shape hidx) hb.carved_le, hsame⟩

/-! ## Nothing outside the slots is touched -/

/-- A pop reads the link words of the head's slot and no other byte. -/
theorem popFree_congr (hb : Bounded R h.alloc) {m : Mem} (hm : Set.EqOn m h.mem (h.alloc.region R)) :
    popFree R ⟨h.alloc, m⟩ = popFree R h := by
  by_cases hzero : h.alloc.freeHead = 0
  · rw [popFree_zero hzero]
    exact popFree_zero (h := ⟨h.alloc, m⟩) hzero
  · have hword : ∀ o, o + 4 ≤ freeLinkSize →
        readU32 m (h.alloc.slotPtr R (h.alloc.freeHead - 1) + o) =
          readU32 h.mem (h.alloc.slotPtr R (h.alloc.freeHead - 1) + o) := by
      intro o ho
      refine readU32_congr fun x hx hx' => hm ?_
      exact linkWord_mem_region hb.shape (hb.head_lt hzero) (by omega) (by omega)
    have hnext := hword 0 (by decide)
    have hmac := hword 4 (by decide)
    rw [Nat.add_zero] at hnext
    simp only [popFree, hnext, hmac]

theorem allocate_confined (hb : Bounded R h.alloc) (l : NonZeroLayout w) :
    Confined (h.alloc.region R) (allocate R l) h where
  writes := by
    intro x _
    rw [(allocate_bounded hb l).2.2.1]
  reads := by
    intro m hm
    by_cases hfits : h.alloc.FitsSlot l
    · have hcall : allocate R l ⟨h.alloc, m⟩ =
          match popFree R h with
          | (some b, s) => (some b, ⟨s, m⟩)
          | (none, s) => ((s.carve R).1, ⟨(s.carve R).2, m⟩) := by
        rw [allocate_eq (h := ⟨h.alloc, m⟩) hfits, popFree_congr hb hm]
      rw [hcall, allocate_eq hfits]
      rcases popFree R h with ⟨_ | b, s⟩
      · exact ⟨rfl, rfl, hm⟩
      · exact ⟨rfl, rfl, hm⟩
    · rw [allocate_of_not_fits (h := ⟨h.alloc, m⟩) hfits, allocate_of_not_fits hfits]
      exact ⟨rfl, rfl, hm⟩

theorem deallocate_confined (hb : Bounded R h.alloc) (ptr : Nat) (l : NonZeroLayout w) :
    Confined (h.alloc.region R) (fun h => ((), deallocate R ptr l h)) h where
  writes := by
    intro x hx
    rcases hidx : h.alloc.slotIndex R ptr with _ | idx
    · simp only [deallocate, hidx]
    · simp only [deallocate, hidx]
      refine writeLink_of_not_mem fun hmem => hx ?_
      exact linkWord_mem_region hb.shape (slotIndex_lt hb.shape hidx) hmem.1 hmem.2
  reads := by
    intro m hm
    rcases hidx : h.alloc.slotIndex R ptr with _ | idx
    · simp only [deallocate, hidx]
      exact ⟨trivial, trivial, hm⟩
    · simp only [deallocate, hidx]
      refine ⟨trivial, trivial, fun x hx => ?_⟩
      -- the link written is computed from the slab alone
      simp only [writeLink, writeU32, writeBytes]
      split
      · rfl
      · split
        · rfl
        · exact hm hx

end Slab

/-! ## Runs -/

structure AttackedSlab {w : Nat} (T : RustType w) (β : Type) where
  heap : Heap (Slab T β)
  /-- Every block that has been issued, the newest first. -/
  issued : List Block

inductive AttackOp (w : Nat)
  | allocate (l : NonZeroLayout w)
  | deallocate (ptr : Nat) (l : NonZeroLayout w)
  | overwrite (a : Nat) (v : UInt8)

namespace AttackedSlab

variable {w : Nat} {β : Type} {T : RustType w} {R : FixedRange β} {n : Nat}

def step (R : FixedRange β) (s : AttackedSlab T β) : AttackOp w → Option (AttackedSlab T β)
  | .allocate l =>
      match Slab.allocate R l s.heap with
      | (none, h) => some { s with heap := h }
      | (some b, h) => some ⟨h, b :: s.issued⟩
  | .deallocate ptr l => some { s with heap := Slab.deallocate R ptr l s.heap }
  | .overwrite a v => some { s with heap := ⟨s.heap.alloc, writeByte s.heap.mem a v⟩ }

variable {s s' : AttackedSlab T β} {s₀ : Slab T β}

structure Inv (R : FixedRange β) (s₀ : Slab T β) (s : AttackedSlab T β) : Prop where
  bounded : Slab.Bounded R s.heap.alloc
  same : Slab.SameShape s₀ s.heap.alloc
  slots : ∀ b ∈ s.issued, ∃ i < s₀.capacity, b = slot (s₀.basePtr R) s₀.blockStride i

theorem Inv.step (hinv : Inv R s₀ s) {op : AttackOp w}
    (hstep : AttackedSlab.step R s op = some s') : Inv R s₀ s' := by
  cases op with
  | allocate l =>
      obtain ⟨hbounded, hsame, -, hslot⟩ := Slab.allocate_bounded hinv.bounded l
      simp only [AttackedSlab.step] at hstep
      rcases hcall : Slab.allocate R l s.heap with ⟨_ | b, h⟩
      · rw [hcall] at hstep hbounded hsame
        cases hstep
        exact ⟨hbounded, hinv.same.trans hsame, hinv.slots⟩
      · rw [hcall] at hstep hbounded hsame hslot
        cases hstep
        refine ⟨hbounded, hinv.same.trans hsame, fun b' hb' => ?_⟩
        rcases List.mem_cons.mp hb' with rfl | hb'
        · obtain ⟨head, carved, events, heq⟩ := hinv.same
          have hnew := hslot b' rfl
          rw [heq] at hnew
          exact hnew
        · exact hinv.slots b' hb'
  | deallocate ptr l =>
      obtain ⟨hbounded, hsame⟩ := Slab.deallocate_bounded hinv.bounded ptr l
      cases hstep
      exact ⟨hbounded, hinv.same.trans hsame, hinv.slots⟩
  | overwrite a v =>
      cases hstep
      exact ⟨hinv.bounded, hinv.same, hinv.slots⟩

/-- **A slab under attack.** In every state of a run in which any bytes are overwritten, the head is
at most the capacity, the calls read and write the slots of the slab only, and what has been
issued, or is issued next, are slots. -/
theorem slab_attacked_run_correct {A : Allocator w β} {Inv' : Heap β → Set (Grant w) → Prop}
    {L : Set (Grant w)} (hA : HonoursRange A R Inv') {g : Heap β} (hg : Inv' g L)
    {mac : FreelistProtection} {h₀ : Heap (Slab T β)}
    (hnew : Slab.withProtection A R T n mac g = some h₀) {ops : List (AttackOp w)}
    (hrun : Machine.run (step R) (⟨h₀, []⟩ : AttackedSlab T β) ops = some s) :
    s.heap.alloc.freeHead ≤ n ∧
    s.heap.alloc.region R =
      {x | ∃ i < n, x ∈ (slot (h₀.alloc.basePtr R) h₀.alloc.blockStride i).bytes} ∧
    (∀ l, Confined (s.heap.alloc.region R) (Slab.allocate R l) s.heap) ∧
    (∀ ptr l, Confined (s.heap.alloc.region R)
      (fun h => ((), Slab.deallocate R ptr l h)) s.heap) ∧
    (∀ b ∈ s.issued, ∃ i < n, b.ptr = h₀.alloc.basePtr R + i * h₀.alloc.blockStride) ∧
    (∀ l b h, Slab.allocate R l s.heap = (some b, h) →
      ∃ i < n, b.ptr = h₀.alloc.basePtr R + i * h₀.alloc.blockStride) := by
  obtain ⟨hshape, -⟩ := Slab.withProtection_shape hA hg hnew
  obtain ⟨block, g', -, -, -, -, -, -, -, heq⟩ := Slab.withProtection_eq_some hnew
  have hcap : h₀.alloc.capacity = n := by rw [heq]
  have hfresh : h₀.alloc.freeHead = 0 ∧ h₀.alloc.nextUncarved = 0 := by
    rw [heq]
    exact ⟨rfl, rfl⟩
  have hstart : Inv R h₀.alloc (⟨h₀, []⟩ : AttackedSlab T β) := by
    refine ⟨⟨hshape, ?_, ?_⟩, ⟨_, _, _, rfl⟩, fun b hb => absurd hb List.not_mem_nil⟩
    · exact hfresh.1.le.trans (Nat.zero_le _)
    · exact hfresh.2.le.trans (Nat.zero_le _)
  have hinv : Inv R h₀.alloc s :=
    Machine.run_invariant (fun _ _ _ hs hstep => hs.step hstep) hstart hrun
  obtain ⟨head, carved, events, hsame⟩ := hinv.same
  have hcap' : s.heap.alloc.capacity = n := by
    rw [hsame]
    exact hcap
  refine ⟨hcap' ▸ hinv.bounded.head_le, ?_, Slab.allocate_confined hinv.bounded,
    Slab.deallocate_confined hinv.bounded, fun b hb => ?_, fun l b h hcall => ?_⟩
  · rw [hsame, ← hcap]
    rfl
  · obtain ⟨i, hi, rfl⟩ := hinv.slots b hb
    exact ⟨i, hcap ▸ hi, rfl⟩
  · obtain ⟨-, -, -, hslot⟩ := Slab.allocate_bounded hinv.bounded l
    rw [hcall, hcap'] at hslot
    obtain ⟨i, hi, rfl⟩ := hslot b rfl
    refine ⟨i, hi, ?_⟩
    rw [hsame]
    rfl

/-! ## Four slots without protection -/

abbrev arenaOf64 : Allocator 64 (BumpArena (InlineBacked 64 64)) :=
  BumpArena.allocator 64 (InlineBacked.range 64 64)

abbrev arenaOf64Range : FixedRange (BumpArena (InlineBacked 64 64)) :=
  BumpArena.range (InlineBacked.range 64 64)

def emptyArena64 : Heap (BumpArena (InlineBacked 64 64)) :=
  ⟨⟨.lit 64 64 128 (Eq.refl true), 64, 0⟩, fun _ => 0⟩

theorem emptyArena64_holds :
    BumpArena.Holds (InlineBacked.range 64 64) 128 emptyArena64 (∅ : Set (Grant 64)) :=
  BumpArena.holds_new (b := InlineBacked.lit 64 64 128 (Eq.refl true)) rfl _

def pair64 : RustType 64 := .lit 64 16 8 (Eq.refl true)

def bytes16 : NonZeroLayout 64 := .lit 64 16 8 (Eq.refl true)

/-- The link of a freed slot is overwritten to name a slot that was never carved. -/
theorem slab_attacked_run_correct_noProtection :
    ∃ h₀ s, Slab.withProtection arenaOf64 arenaOf64Range pair64 4 .none emptyArena64 = some h₀ ∧
      Machine.run (step arenaOf64Range) (⟨h₀, []⟩ : AttackedSlab pair64 _)
        [.allocate bytes16, .deallocate 128 bytes16, .overwrite 128 4, .allocate bytes16,
          .allocate bytes16] = some s ∧
      s.issued.length = 3 ∧ s.heap.alloc.freeHead ≤ 4 ∧
      ∀ b ∈ s.issued, ∃ i < 4, b.ptr = h₀.alloc.basePtr arenaOf64Range + i * h₀.alloc.blockStride := by
  have hsome : ((Slab.withProtection arenaOf64 arenaOf64Range pair64 4 .none emptyArena64).bind
      fun h₀ => (Machine.run (step arenaOf64Range) (⟨h₀, []⟩ : AttackedSlab pair64 _)
        [.allocate bytes16, .deallocate 128 bytes16, .overwrite 128 4, .allocate bytes16,
          .allocate bytes16]).filter fun s => s.issued.length = 3).isSome := by decide +kernel
  obtain ⟨s, hs⟩ := Option.isSome_iff_exists.mp hsome
  obtain ⟨h₀, hnew, hrun⟩ := Option.bind_eq_some_iff.mp hs
  obtain ⟨hrun, hlen⟩ := Option.filter_eq_some_iff.mp hrun
  have hA := BumpArena.honours (w := 64) (InlineBacked.range_lawful 64 64) 128 (by decide)
  obtain ⟨hhead, -, -, -, hissued, -⟩ := slab_attacked_run_correct hA emptyArena64_holds hnew hrun
  exact ⟨h₀, s, hnew, hrun, of_decide_eq_true hlen, hhead, hissued⟩

end AttackedSlab

end ForgeAlloc
