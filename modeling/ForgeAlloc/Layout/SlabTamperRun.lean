import ForgeAlloc.Layout.SlabTamper

set_option autoImplicit false

/-! # Runs of a `Slab` whose free slots are tampered with

A run allocates and frees live blocks, overwrites the link words of slots that are not live with
links that `allocate` refuses, and writes anything anywhere else: into live blocks, into the rest of
a free slot, outside the region. The state remembers which slots have been tampered with since
they were freed.

In every state a run reaches, the live blocks overlap neither each other nor what `allocate` issues
next, a pop of a tampered slot raises the counter by one and gives up the list, and no other call
raises it (`slab_tampered_run_correct`).
-/

namespace ForgeAlloc

open MachineInt ByteMemory SlotPool

structure TamperedSlab {w : Nat} (T : RustType w) (β : Type) where
  heap : Heap (Slab T β)
  live : List Block
  /-- The slots whose links have been overwritten since they were freed. -/
  tampered : List Nat

inductive TamperOp (w : Nat)
  | allocate (l : NonZeroLayout w)
  /-- Free the live block `b`. -/
  | deallocate (b : Block) (l : NonZeroLayout w)
  /-- Overwrite the link words of the slot `j`. -/
  | overwrite (j nextIdx mac : Nat)
  | write (a : Nat) (v : UInt8)

namespace TamperedSlab

variable {w : Nat} {β : Type} {T : RustType w} {R : FixedRange β} {n : Nat}

/-- The slot has been carved and is not live. -/
def IsFree (R : FixedRange β) (s : TamperedSlab T β) (j : Nat) : Prop :=
  j < s.heap.alloc.nextUncarved ∧ s.heap.alloc.slotPtr R j ∉ s.live.map Block.ptr

instance (R : FixedRange β) (s : TamperedSlab T β) (j : Nat) : Decidable (IsFree R s j) :=
  inferInstanceAs (Decidable (_ ∧ _))

/-- The byte is one of a link word of a free slot. -/
def InFreeLink (R : FixedRange β) (s : TamperedSlab T β) (a : Nat) : Prop :=
  ∃ j < s.heap.alloc.nextUncarved, IsFree R s j ∧ s.heap.alloc.slotPtr R j ≤ a ∧
    a < s.heap.alloc.slotPtr R j + freeLinkSize

instance (R : FixedRange β) (s : TamperedSlab T β) (a : Nat) : Decidable (InFreeLink R s a) :=
  inferInstanceAs (Decidable (∃ j < _, _))

def step (R : FixedRange β) (s : TamperedSlab T β) : TamperOp w → Option (TamperedSlab T β)
  | .allocate l =>
      match Slab.allocate R l s.heap with
      | (none, h) => some { s with heap := h }
      | (some b, h) => some { s with heap := h, live := b :: s.live }
  | .deallocate b l =>
      if b ∈ s.live then
        some ⟨Slab.deallocate R b.ptr l s.heap, s.live.erase b,
          s.tampered.filter fun j => s.heap.alloc.slotPtr R j ≠ b.ptr⟩
      else none
  | .overwrite j nextIdx mac =>
      let h : Heap (Slab T β) :=
        ⟨s.heap.alloc, Slab.writeLink s.heap.mem (s.heap.alloc.slotPtr R j) nextIdx mac⟩
      if IsFree R s j ∧ ¬ Slab.Followed R h j then
        some { s with heap := h, tampered := j :: s.tampered }
      else none
  | .write a v =>
      if InFreeLink R s a then none
      else some { s with heap := ⟨s.heap.alloc, writeByte s.heap.mem a v⟩ }

/-! ## The invariant -/

structure Inv (R : FixedRange β) (s : TamperedSlab T β) (p : Pool n) (link : Nat → Nat) : Prop where
  damaged : Slab.Damaged R s.heap p link {j | j ∈ s.tampered}
  live_eq : s.live = p.live.map (slot (s.heap.alloc.basePtr R) s.heap.alloc.blockStride)

variable {s s' : TamperedSlab T β} {p : Pool n} {link : Nat → Nat} {l : NonZeroLayout w}

theorem Inv.slot_injective (hinv : Inv R s p link) : Function.Injective
    (slot (s.heap.alloc.basePtr R) s.heap.alloc.blockStride) :=
  fun _ _ heq => slot_inj hinv.damaged.shape.stride_pos (congrArg Block.ptr heq)

/-- A slot that is not live in the pool is not live for the clients. -/
theorem Inv.isFree (hinv : Inv R s p link) {i : Nat} (hi : i ∈ p.free) : IsFree R s i := by
  refine ⟨hinv.damaged.threaded.carved_eq ▸ p.lt_of_mem_free hi, fun hmem => ?_⟩
  obtain ⟨b, hb, hptr⟩ := List.mem_map.mp hmem
  rw [hinv.live_eq] at hb
  obtain ⟨j, hj, rfl⟩ := List.mem_map.mp hb
  have hij : j = i := slot_inj hinv.damaged.shape.stride_pos hptr
  exact p.not_mem_live_of_mem_free hi (hij ▸ hj)

theorem Inv.step_allocate (hinv : Inv R s p link) (hstep : step R s (.allocate l) = some s') :
    ∃ q : Pool n, Inv R s' q link := by
  simp only [step] at hstep
  by_cases hfits : s.heap.alloc.FitsSlot l
  · obtain ⟨p', hlive, -, hout⟩ := hinv.damaged.allocate hfits
    obtain ⟨-, ⟨head, carved, events, hsame⟩, -⟩ :=
      Slab.allocate_bounded hinv.damaged.bounded l
    rcases hcall : Slab.allocate R l s.heap with ⟨r, h⟩
    rw [hcall] at hstep hout hsame
    rcases hout with ⟨-, hnone, hd⟩ | ⟨i, q, hq, hsome, hd⟩
    · simp only at hnone
      subst hnone
      cases hstep
      refine ⟨p', hd, ?_⟩
      rw [hlive]
      simp only at hsame
      rw [hsame]
      exact hinv.live_eq
    · simp only at hsome
      subst hsome
      cases hstep
      refine ⟨q, hd, ?_⟩
      simp only at hsame
      rw [hsame, (Pool.alloc_cases hq).1, List.map_cons, hlive]
      exact congrArg _ hinv.live_eq
  · rw [Slab.allocate_of_not_fits hfits] at hstep
    cases hstep
    exact ⟨p, hinv⟩

theorem Inv.step_deallocate (hinv : Inv R s p link) {b : Block}
    (hstep : step R s (.deallocate b l) = some s') :
    ∃ (q : Pool n) (link' : Nat → Nat), Inv R s' q link' := by
  simp only [step] at hstep
  split at hstep
  case isFalse => cases hstep
  case isTrue hb =>
      cases hstep
      have hmem := hb
      rw [hinv.live_eq] at hmem
      obtain ⟨i, hi, rfl⟩ := List.mem_map.mp hmem
      obtain ⟨heq, hd⟩ := hinv.damaged.deallocate hi l
      -- the freed slot is the only one at its address
      have hset : ({j | j ∈ s.tampered} \ {i} : Set Nat) = {j | j ∈ s.tampered.filter fun j =>
          s.heap.alloc.slotPtr R j ≠
            (slot (s.heap.alloc.basePtr R) s.heap.alloc.blockStride i).ptr} := by
        ext j
        rw [Set.mem_ofPred_eq, List.mem_filter, decide_eq_true_eq]
        refine and_congr_right fun _ => not_congr ⟨fun hij => ?_, fun hptr => ?_⟩
        · rw [Set.mem_singleton_iff.mp hij]
          rfl
        · exact slot_inj hinv.damaged.shape.stride_pos hptr
      rw [hset] at hd
      refine ⟨p.release i hi, Function.update link i s.heap.alloc.freeHead, hd, ?_⟩
      show s.live.erase _ = (p.live.erase i).map (slot _ _)
      have halloc : (Slab.deallocate R (s.heap.alloc.slotPtr R i) l s.heap).alloc =
          { s.heap.alloc with freeHead := i + 1 } := congrArg Heap.alloc heq
      rw [← Slab.slotPtr_eq, halloc]
      show s.live.erase _ =
        (p.live.erase i).map (slot (s.heap.alloc.basePtr R) s.heap.alloc.blockStride)
      rw [List.map_erase hinv.slot_injective, ← hinv.live_eq]

theorem Inv.step_overwrite (hinv : Inv R s p link) {j nextIdx mac : Nat}
    (hstep : step R s (.overwrite j nextIdx mac) = some s') : Inv R s' p link := by
  simp only [step] at hstep
  split at hstep
  case isFalse => cases hstep
  case isTrue hj =>
      cases hstep
      have hd := hinv.damaged.overwrite
        (fun i _ hne => Slab.sameLink_writeLink hinv.damaged.shape hne nextIdx mac) hj.2
      rw [← List.setOfPred_mem_cons] at hd
      exact ⟨hd, hinv.live_eq⟩

theorem Inv.step_write (hinv : Inv R s p link) {a : Nat} {v : UInt8}
    (hstep : step R s (.write a v) = some s') : Inv R s' p link := by
  simp only [step] at hstep
  split at hstep
  case isTrue => cases hstep
  case isFalse hout =>
      cases hstep
      refine ⟨hinv.damaged.mem_congr fun i hi x hx hx' => writeByte_of_ne v ?_, hinv.live_eq⟩
      rintro rfl
      have hfree := hinv.isFree hi
      exact hout ⟨i, hfree.1, hfree, hx, hx'⟩

theorem Inv.step (hinv : Inv R s p link) {op : TamperOp w}
    (hstep : TamperedSlab.step R s op = some s') :
    ∃ (q : Pool n) (link' : Nat → Nat), Inv R s' q link' := by
  cases op with
  | allocate l =>
      obtain ⟨q, hq⟩ := hinv.step_allocate hstep
      exact ⟨q, link, hq⟩
  | deallocate b l => exact hinv.step_deallocate hstep
  | overwrite j nextIdx mac => exact ⟨p, link, hinv.step_overwrite hstep⟩
  | write a v => exact ⟨p, link, hinv.step_write hstep⟩

/-! ## Every run -/

theorem Inv.pairwise_disjoint (hinv : Inv R s p link) :
    s.live.Pairwise fun b c => Disjoint b.bytes c.bytes := by
  rw [hinv.live_eq, List.pairwise_map]
  exact p.nodup_live.imp fun hne => slot_disjoint hne

/-- What `allocate` issues is none of the live blocks' slots. -/
theorem Inv.allocate_disjoint (hinv : Inv R s p link) {b : Block} {h : Heap (Slab T β)}
    (hcall : Slab.allocate R l s.heap = (some b, h)) {c : Block} (hc : c ∈ s.live) :
    Disjoint b.bytes c.bytes := by
  by_cases hfits : s.heap.alloc.FitsSlot l
  · obtain ⟨p', hlive, -, hout⟩ := hinv.damaged.allocate hfits
    rw [hcall] at hout
    rw [hinv.live_eq] at hc
    obtain ⟨j, hj, rfl⟩ := List.mem_map.mp hc
    rcases hout with ⟨-, hnone, -⟩ | ⟨i, q, hq, hsome, -⟩
    · cases hnone
    · cases hsome
      refine slot_disjoint fun hij => Pool.alloc_not_mem hq ?_
      rw [hlive, hij]
      exact hj
  · rw [Slab.allocate_of_not_fits hfits] at hcall
    cases hcall

/-- **A slab with tampered links**, in every state of every run: live blocks do not overlap, and
no block issued from there on overlaps one of them; a pop of a tampered slot raises the counter by
exactly one and gives up the list; an honest pop issues the slot of the head and leaves the
counter; no other request touches it. -/
theorem slab_tampered_run_correct {A : Allocator w β} {Inv' : Heap β → Set (Grant w) → Prop}
    {L : Set (Grant w)} (hA : HonoursRange A R Inv') {g : Heap β} (hg : Inv' g L)
    {mac : FreelistProtection} (hM : mac.Sound) {h₀ : Heap (Slab T β)}
    (hnew : Slab.withProtection A R T n mac g = some h₀) {ops : List (TamperOp w)}
    (hrun : Machine.run (step R) (⟨h₀, [], []⟩ : TamperedSlab T β) ops = some s) :
    (s.live.Pairwise fun b c => Disjoint b.bytes c.bytes) ∧
    (∀ l b h, Slab.allocate R l s.heap = (some b, h) → ∀ c ∈ s.live, Disjoint b.bytes c.bytes) ∧
    (∀ l, s.heap.alloc.FitsSlot l → s.heap.alloc.freeHead ≠ 0 →
      s.heap.alloc.freeHead - 1 ∈ s.tampered →
      (Slab.allocate R l s.heap).2.alloc.corruptionEvents = s.heap.alloc.corruptionEvents + 1 ∧
        (Slab.allocate R l s.heap).2.alloc.freeHead = 0) ∧
    (∀ l, s.heap.alloc.FitsSlot l → s.heap.alloc.freeHead ≠ 0 →
      s.heap.alloc.freeHead - 1 ∉ s.tampered →
      (Slab.allocate R l s.heap).2.alloc.corruptionEvents = s.heap.alloc.corruptionEvents ∧
        (Slab.allocate R l s.heap).1 = some (slot (s.heap.alloc.basePtr R)
          s.heap.alloc.blockStride (s.heap.alloc.freeHead - 1))) ∧
    (∀ l, ¬ s.heap.alloc.FitsSlot l ∨ s.heap.alloc.freeHead = 0 →
      (Slab.allocate R l s.heap).2.alloc.corruptionEvents = s.heap.alloc.corruptionEvents) ∧
    (∀ ptr l, (Slab.deallocate R ptr l s.heap).alloc.corruptionEvents =
      s.heap.alloc.corruptionEvents) := by
  have hstart : ∃ (p : Pool n) (link : Nat → Nat),
      Inv R (⟨h₀, [], []⟩ : TamperedSlab T β) p link := by
    have hempty : {j | j ∈ ([] : List Nat)} = ∅ :=
      Set.eq_empty_of_forall_notMem fun _ hj => List.not_mem_nil hj
    refine ⟨Pool.empty n, fun _ => 0, ?_, rfl⟩
    show Slab.Damaged R h₀ (Pool.empty n) (fun _ => 0) {j | j ∈ ([] : List Nat)}
    rw [hempty]
    exact Slab.damaged_new hA hg hM hnew _
  obtain ⟨p, link, hinv⟩ : ∃ (p : Pool n) (link : Nat → Nat), Inv R s p link := by
    refine Machine.run_invariant (P := fun s => ∃ (p : Pool n) (link : Nat → Nat), Inv R s p link)
      (fun t op t' ht hstep => ?_) hstart hrun
    obtain ⟨p, link, hinv⟩ := ht
    exact hinv.step hstep
  have hd := hinv.damaged
  refine ⟨hinv.pairwise_disjoint, fun l b h hcall c hc => hinv.allocate_disjoint hcall hc,
    fun l hfits hne hbad => hd.allocate_tampered hfits hne hbad,
    fun l hfits hne hhonest => hd.allocate_honest hfits hne hhonest,
    fun l hno => Slab.allocate_no_pop hno, fun ptr l => ?_⟩
  unfold Slab.deallocate
  split <;> rfl

/-! ## Four slots without protection -/

open AttackedSlab

/-- A freed slot gets a link above the capacity; the next pop counts it. -/
theorem slab_tampered_run_correct_noProtection :
    ∃ h₀ s, Slab.withProtection arenaOf64 arenaOf64Range pair64 4 .none emptyArena64 = some h₀ ∧
      Machine.run (step arenaOf64Range) (⟨h₀, [], []⟩ : TamperedSlab pair64 _)
        [.allocate bytes16, .allocate bytes16, .deallocate ⟨128, 16⟩ bytes16, .write 144 7,
          .overwrite 0 5 0] = some s ∧
      (Slab.allocate arenaOf64Range bytes16 s.heap).2.alloc.corruptionEvents =
        s.heap.alloc.corruptionEvents + 1 ∧
      (Slab.allocate arenaOf64Range bytes16 s.heap).2.alloc.freeHead = 0 ∧
      ∀ b h, Slab.allocate arenaOf64Range bytes16 s.heap = (some b, h) →
        ∀ c ∈ s.live, Disjoint b.bytes c.bytes := by
  have hsome : ((Slab.withProtection arenaOf64 arenaOf64Range pair64 4 .none emptyArena64).bind
      fun h₀ => (Machine.run (step arenaOf64Range) (⟨h₀, [], []⟩ : TamperedSlab pair64 _)
        [.allocate bytes16, .allocate bytes16, .deallocate ⟨128, 16⟩ bytes16, .write 144 7,
          .overwrite 0 5 0]).filter fun s => (bytes16.align ≤ max pair64.align freeLinkAlign ∧
            bytes16.size ≤ s.heap.alloc.blockStride) ∧ s.heap.alloc.freeHead ≠ 0 ∧
              s.heap.alloc.freeHead - 1 ∈ s.tampered).isSome := by decide +kernel
  obtain ⟨s, hs⟩ := Option.isSome_iff_exists.mp hsome
  obtain ⟨h₀, hnew, hrun⟩ := Option.bind_eq_some_iff.mp hs
  obtain ⟨hrun, hcond⟩ := Option.filter_eq_some_iff.mp hrun
  obtain ⟨hfits, hne, hbad⟩ := of_decide_eq_true hcond
  have hA := BumpArena.honours (w := 64) (InlineBacked.range_lawful 64 64) 128 (by decide)
  obtain ⟨-, hfresh, htampered, -⟩ := slab_tampered_run_correct hA emptyArena64_holds
    FreelistProtection.none_sound hnew hrun
  obtain ⟨hevents, hhead⟩ := htampered bytes16 hfits hne hbad
  exact ⟨h₀, s, hnew, hrun, hevents, hhead, hfresh bytes16⟩

end TamperedSlab

end ForgeAlloc
