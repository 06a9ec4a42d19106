import ForgeAlloc.Core.ClientKept
import ForgeAlloc.Layout.SlabComponents
import ForgeAlloc.Layout.SlabIndex
import ForgeAlloc.Layout.SlabRun

set_option autoImplicit false

/-! # Dropping a slab

The drop gives the region of the slab back to its backing. In a debug build, for elements with a
destructor, it counts the free slots before that, and panics after it where the count is not that of
the carved slots: the message names the slots that are still out.

* `SlabRun.slab_drop_correct`: after every run, moves included, the drop gives back what construction
  has taken, and it panics exactly if the client still holds slots, with their number.
* `ClientRun.slab_drop_returns`: after every run of a client, the backing has out what it had out
  before the slab was made, and the bytes of the others are as they were.
-/

namespace ForgeAlloc

open MachineInt ByteMemory SlotPool Linked

/-- The panics of the drop: the arithmetic of the counts, and the assertion. -/
inductive SlabDropPanic
  | addOverflow
  | subtractOverflow
  | leaked (live carved freelist : Nat)
  deriving DecidableEq

def SlabDropPanic.message : SlabDropPanic → String
  | .addOverflow => "attempt to add with overflow"
  | .subtractOverflow => "attempt to subtract with overflow"
  | .leaked live carved freelist =>
      s!"Slab dropped with {live} live slot(s) (carved={carved}, freelist={freelist}). " ++
        "Caller failed to deallocate all outstanding `T`s before drop — " ++
        "any T: Drop on those slots was leaked."

namespace Slab

variable {w : Nat} {β : Type} {T : RustType w} {R : FixedRange β} {h : Heap (Slab T β)}

/-- The walk of the drop from the link `head`, when `len` slots are counted. It ends with the list, at
an index out of range, or when it has counted more slots than there are; there is no count where the
counter overflows. -/
def walkFreelist (R : FixedRange β) (h : Heap (Slab T β)) : Nat → Nat → Nat → Option Nat
  | 0, _, len => some len
  | fuel + 1, head, len =>
      if head = 0 ∨ h.alloc.capacity < len then some len
      else if h.alloc.capacity ≤ head - 1 then some len
      else if 2 ^ 32 ≤ len + 1 then none
      else walkFreelist R h fuel (readU32 h.mem (h.alloc.slotPtr R (head - 1))) (len + 1)

/-- The number of free slots. Each round of the loop counts one, so `capacity + 1` rounds are
enough. -/
def freelistLen (R : FixedRange β) (h : Heap (Slab T β)) : Option Nat :=
  walkFreelist R h (h.alloc.capacity + 1) h.alloc.freeHead 0

/-- `Drop for Slab`: the panic, if there is one, and the backing. `checked` is a debug build of a slab
whose elements have a destructor. -/
def drop (A : Allocator w β) (R : FixedRange β) (checked : Bool) (h : Heap (Slab T β)) :
    Option SlabDropPanic × Heap β :=
  let returned := A.deallocate (h.alloc.basePtr R) h.alloc.backingLayout ⟨h.alloc.backing, h.mem⟩
  if checked then
    match freelistLen R h with
    -- this panic comes before the region is returned
    | none => (some .addOverflow, ⟨h.alloc.backing, h.mem⟩)
    | some len =>
        let carved := h.alloc.nextUncarved
        if len = carved then (none, returned)
        else if carved < len then (some .subtractOverflow, returned)
        else (some (.leaked (carved - len) carved len), returned)
  else (none, returned)

/-! ## The walk -/

/-- The walk counts the slots of a chain whose slots exist, from any count on. -/
theorem walkFreelist_of_chain {free : List Nat} {fuel head len : Nat}
    (hchain : Chain (linkOf R h) (ofLink head) free) (hlt : ∀ i ∈ free, i < h.alloc.capacity)
    (hlen : len + free.length ≤ h.alloc.capacity) (hcap : h.alloc.capacity < 2 ^ 32)
    (hfuel : free.length < fuel) : walkFreelist R h fuel head len = some (len + free.length) := by
  induction free generalizing fuel head len with
  | nil =>
      obtain ⟨fuel, rfl⟩ := Nat.exists_eq_add_of_lt hfuel
      have hzero : head = 0 := ofLink_eq_none.mp (chain_nil.mp hchain)
      simp [walkFreelist, hzero]
  | cons i free ih =>
      obtain ⟨fuel, rfl⟩ := Nat.exists_eq_add_of_lt hfuel
      obtain ⟨hhead, hrest⟩ := chain_cons.mp hchain
      have hhead : head = i + 1 := ofLink_eq_some.mp hhead
      have hi : i < h.alloc.capacity := hlt i List.mem_cons_self
      rw [List.length_cons] at hlen hfuel ⊢
      -- none of the three tests ends the loop here
      have hloop : ¬(head = 0 ∨ h.alloc.capacity < len) := by omega
      have hrange : ¬h.alloc.capacity ≤ head - 1 := by omega
      have hcount : ¬2 ^ 32 ≤ len + 1 := by omega
      rw [walkFreelist, if_neg hloop, if_neg hrange, if_neg hcount, hhead,
        Nat.add_sub_cancel]
      have hih : walkFreelist R h (free.length + 1 + fuel)
          (readU32 h.mem (h.alloc.slotPtr R i)) (len + 1) = some (len + 1 + free.length) :=
        ih hrest (fun j hj => hlt j (List.mem_cons_of_mem i hj)) (by omega) (by omega)
      rw [hih, Nat.add_right_comm, Nat.add_assoc]

/-- The count of a slab that represents a pool. -/
theorem Refines.freelistLen_eq {n : Nat} {p : Pool n} (hr : Refines R h p) :
    freelistLen R h = some p.free.length ∧ p.live.length + p.free.length = h.alloc.nextUncarved := by
  have hlength := p.length
  rw [hr.retired_eq, List.length_nil] at hlength
  have hcarved := hr.threaded.carved_eq
  have hle : p.carved ≤ h.alloc.capacity := hr.capacity_eq ▸ p.carved_le
  constructor
  · rw [freelistLen, walkFreelist_of_chain hr.threaded.chain
      (fun i hi => hr.lt_capacity (p.lt_of_mem_free hi)) (by omega) hr.shape.capacity_lt (by omega),
      Nat.zero_add]
  · omega

/-- **The drop of a slab that represents a pool** gives back the region, and panics with the number of
the live slots if there are any. -/
theorem Refines.drop_eq {n : Nat} {p : Pool n} (hr : Refines R h p) (A : Allocator w β)
    (checked : Bool) :
    drop A R checked h =
      (if checked = true ∧ 0 < p.live.length then
        some (.leaked p.live.length h.alloc.nextUncarved (h.alloc.nextUncarved - p.live.length))
      else none,
        A.deallocate (h.alloc.basePtr R) h.alloc.backingLayout ⟨h.alloc.backing, h.mem⟩) := by
  obtain ⟨hcount, hsum⟩ := hr.freelistLen_eq
  cases checked with
  | false => simp [drop]
  | true =>
      simp only [drop, if_true, hcount, true_and]
      by_cases hlive : 0 < p.live.length
      · have hne : p.free.length ≠ h.alloc.nextUncarved := by omega
        have hle : ¬h.alloc.nextUncarved < p.free.length := by omega
        have hfree : h.alloc.nextUncarved - p.live.length = p.free.length := by omega
        have hout : h.alloc.nextUncarved - p.free.length = p.live.length := by omega
        simp only [if_neg hne, if_neg hle, if_pos hlive, hfree, hout]
      · have heq : p.free.length = h.alloc.nextUncarved := by omega
        simp only [if_pos heq, if_neg hlive]

/-- The region that a construction has taken from the backing, and where the slots are. -/
theorem region_of_withProtection {A : Allocator w β} {BInv : Heap β → Set (Grant w) → Prop}
    (hA : HonoursRange A R BInv) {g : Heap β} {L : Set (Grant w)} (hinv : BInv g L) {n : Nat}
    {mac : FreelistProtection} (hnew : withProtection A R T n mac g = some h) :
    ∃ region g', A.allocate h.alloc.backingLayout g = (some region, g') ∧
      h.alloc.basePtr R = region.ptr ∧ ((range T R).block h.alloc).bytes ⊆ region.bytes ∧
      h.alloc.backing = g'.alloc ∧ h.mem = g'.mem := by
  obtain ⟨region, g', halloc, -, -, -, hsize, -, hbase, hnew⟩ := withProtection_eq_some hnew
  have hlarge := (hA.allocate_satisfies hinv halloc).large
  have hptr : h.alloc.basePtr R = region.ptr := by
    rw [hnew]
    simp only [basePtr]
    omega
  have hcap : h.alloc.capacity = n := by rw [hnew]
  refine ⟨region, g', halloc, hptr, ?_, by rw [hnew], by rw [hnew]⟩
  intro x hx
  simp only [Block.mem_bytes, FixedRange.block, range, hptr, hcap] at hx ⊢
  rw [hsize, Nat.mul_comm] at hlarge
  omega

end Slab

/-! ## After a run with moves -/

namespace SlabRun

variable {w : Nat} {β : Type} {T : RustType w} {R : FixedRange β} {n : Nat} {s s' : SlabRun T β}

/-- No operation changes where in the backing the region is, nor the layout it was requested with. -/
theorem step_region {op : SlabOp w β} (hstep : step R s op = some s') :
    s'.heap.alloc.baseOffset = s.heap.alloc.baseOffset ∧
      s'.heap.alloc.backingLayout = s.heap.alloc.backingLayout := by
  cases op with
  | allocate l =>
      have hsame := Slab.sameShape_allocate R l s.heap
      simp only [step] at hstep
      split at hstep
      all_goals
        rename_i heq
        rw [heq] at hsame
        obtain ⟨head, carved, events, hshape⟩ := hsame
        cases hstep
        simp only at hshape
        rw [hshape]
        exact ⟨rfl, rfl⟩
  | deallocate b l =>
      simp only [step] at hstep
      split at hstep
      case isFalse => cases hstep
      case isTrue =>
          cases hstep
          obtain ⟨head, carved, events, hshape⟩ :=
            Slab.sameShape_deallocate R (s.heap.alloc.basePtr R + b.ptr) l s.heap
          rw [hshape]
          exact ⟨rfl, rfl⟩
  | write b i v =>
      simp only [step] at hstep
      split at hstep
      case isFalse => cases hstep
      case isTrue =>
          cases hstep
          exact ⟨rfl, rfl⟩
  | writeOutside a v =>
      simp only [step] at hstep
      split at hstep
      case isTrue => cases hstep
      case isFalse =>
          cases hstep
          exact ⟨rfl, rfl⟩
  | move b =>
      simp only [step] at hstep
      split at hstep
      case isFalse => cases hstep
      case isTrue =>
          cases hstep
          exact ⟨rfl, rfl⟩

theorem run_region {h : Heap (Slab T β)} {ops : List (SlabOp w β)}
    (hrun : Machine.run (step R) ⟨h, [], []⟩ ops = some s) :
    s.heap.alloc.baseOffset = h.alloc.baseOffset ∧
      s.heap.alloc.backingLayout = h.alloc.backingLayout := by
  refine Machine.run_invariant (P := fun u : SlabRun T β =>
    u.heap.alloc.baseOffset = h.alloc.baseOffset ∧
      u.heap.alloc.backingLayout = h.alloc.backingLayout) ?_ ⟨rfl, rfl⟩ hrun
  intro u op u' hu hstep
  obtain ⟨hoffset, hlayout⟩ := step_region hstep
  exact ⟨hoffset.trans hu.1, hlayout.trans hu.2⟩

/-- **The drop after every run.** Let a slab be made over a backing that meets the contract, and used
and moved in any way. Its drop gives one block back to the backing: the one that construction took,
where it now is, under the layout it was requested with. In a debug build of a slab whose elements have
a destructor it panics exactly if the client still holds slots, once the block is back, and names how
many they are and how many slots are free. -/
theorem slab_drop_correct {A : Allocator w β} {BInv : Heap β → Set (Grant w) → Prop}
    (hA : HonoursRange A R BInv) {g : Heap β} {L : Set (Grant w)} (hinv : BInv g L)
    {mac : FreelistProtection} (hM : mac.Sound) {h : Heap (Slab T β)}
    (hnew : Slab.withProtection A R T n mac g = some h) {ops : List (SlabOp w β)}
    (hrun : Machine.run (step R) ⟨h, [], []⟩ ops = some s) (checked : Bool) :
    ∃ region layout g', A.allocate layout g = (some region, g') ∧
      R.base g'.alloc ≤ region.ptr ∧
      Slab.drop A R checked s.heap =
        (if checked = true ∧ s.live ≠ [] then
          some (.leaked s.live.length s.heap.alloc.nextUncarved
            (s.heap.alloc.nextUncarved - s.live.length))
        else none,
          A.deallocate (R.base s.heap.alloc.backing + (region.ptr - R.base g'.alloc)) layout
            ⟨s.heap.alloc.backing, s.heap.mem⟩) := by
  have hstart : Inv R ⟨h, [], []⟩ (Pool.empty n) :=
    ⟨(Slab.withProtection_refines hA hinv hM hnew).1, rfl, rfl⟩
  obtain ⟨p, hi⟩ := inv_run ⟨_, hstart⟩ hrun
  obtain ⟨hoffset, hlayout⟩ := run_region hrun
  obtain ⟨region, g', halloc, -, -, -, -, -, hbase, hnew⟩ := Slab.withProtection_eq_some hnew
  refine ⟨region, h.alloc.backingLayout, g', halloc, hbase, ?_⟩
  have hlive : s.live.length = p.live.length := by rw [hi.live_eq, List.length_map]
  have hbase : s.heap.alloc.basePtr R =
      R.base s.heap.alloc.backing + (region.ptr - R.base g'.alloc) := by
    rw [Slab.basePtr, hoffset, hnew]
  rw [hi.refines.drop_eq, hbase, hlayout, ← hlive]
  simp only [List.length_pos_iff]

/-- A word is out when the slab is dropped, and another is free. -/
theorem slab_drop_correct_slab8 :
    ∃ s, Machine.run (step (BumpArena.range movable)) ⟨slab8, [], []⟩
        [.allocate layout8, .allocate layout8, .deallocate ⟨0, 8⟩ layout8, .move ⟨4, 64, 24⟩] =
          some s ∧
      (Slab.drop (BumpArena.allocator 16 movable) (BumpArena.range movable) true s.heap).1 =
        some (.leaked 1 2 1) := by
  have hlive : (Machine.run (step (BumpArena.range movable)) ⟨slab8, [], []⟩
      [.allocate layout8, .allocate layout8, .deallocate ⟨0, 8⟩ layout8, .move ⟨4, 64, 24⟩]).map
        (fun s => (s.live, s.heap.alloc.nextUncarved)) = some ([⟨8, 8⟩], 2) := rfl
  obtain ⟨s, hrun, hs⟩ := Option.map_eq_some_iff.mp hlive
  have hnew : Slab.withProtection (BumpArena.allocator 16 movable) (BumpArena.range movable) word8 3
      .none ⟨⟨0, 64, 0⟩, fun _ => 0⟩ = some slab8 := rfl
  obtain ⟨hlive, hcarved⟩ := Prod.mk.inj hs
  obtain ⟨region, layout, g', -, -, hdrop⟩ :=
    slab_drop_correct (BumpArena.honours movable_lawful 16 (by decide))
      (BumpArena.holds_new (b := 0) rfl _) FreelistProtection.none_sound hnew hrun true
  refine ⟨s, hrun, ?_⟩
  rw [hdrop, hlive, hcarved]
  rfl

end SlabRun

/-! ## After the run of a client -/

namespace ClientRun

variable {w : Nat} {β ι : Type} {T : RustType w} {R : FixedRange β} {n : Nat} [DecidableEq ι]
  {s : ClientRun w ι (Slab T β)} {ops : List (ClientOp w ι)}

/-- A slab stays where it was made, and writes its slots only. -/
def Undisturbed (R : FixedRange β) (h₀ h : Heap (Slab T β)) : Prop :=
  Slab.SameShape h₀.alloc h.alloc ∧
    Set.EqOn h.mem h₀.mem ((Slab.range T R).block h₀.alloc).bytesᶜ

/-- The calls of a slab, and the writes of its clients, keep to it. -/
theorem slab_keeps (T : RustType w) (R : FixedRange β) (n : Nat) (h₀ : Heap (Slab T β)) :
    (Slab.component T R n ((Slab.range T R).block h₀.alloc)).Keeps
      fun h _ => Undisturbed R h₀ h := by
  have hC := Slab.lawful T R n ((Slab.range T R).block h₀.alloc)
  have hallocate : ∀ {h L} (l : NonZeroLayout w),
      (Slab.component T R n ((Slab.range T R).block h₀.alloc)).inv h L → Undisturbed R h₀ h →
        Undisturbed R h₀ (Slab.allocate R l h).2 := fun l hinv hp =>
    ⟨hp.1.trans (Slab.sameShape_allocate R l _), (hC.allocate_frame hinv).trans hp.2⟩
  refine ⟨?_, ?_, ?_, ?_, ?_⟩
  · intro h L l b h' hinv hp hcall
    have hafter := hallocate l hinv hp
    rwa [show Slab.allocate R l h = (some b, h') from hcall] at hafter
  · intro h L l h' hinv hp hcall
    have hafter := hallocate l hinv hp
    rwa [show Slab.allocate R l h = (none, h') from hcall] at hafter
  · intro h L g hinv hg hp
    exact ⟨hp.1.trans (Slab.sameShape_deallocate R _ g.layout _),
      (hC.deallocate_frame hinv hg).trans hp.2⟩
  · -- what a client has is inside the slab
    intro h L m hinv hp hm
    refine ⟨hp.1, fun x hx => (hm fun hlive => hx ?_).trans (hp.2 hx)⟩
    obtain ⟨g, hg, hxg⟩ := hlive
    exact hC.subset hinv hg hxg
  · rintro h L g h' - - - ⟨⟩

/-- **A slab that is dropped leaves nothing behind.** Let a slab be made over a backing that meets the
contract, with the blocks `L` out. After every run of a client on the slab, whatever the client still
holds, the drop leaves the backing with the blocks `L` out and no other, and they have the bytes they
had before the slab was made. -/
theorem slab_drop_returns {A : Allocator w β} {BInv : Heap β → Set (Grant w) → Prop}
    (hA : HonoursRange A R BInv) {g : Heap β} {L : Set (Grant w)} (hinv : BInv g L)
    {mac : FreelistProtection} (hM : mac.Sound) {h : Heap (Slab T β)}
    (hnew : Slab.withProtection A R T n mac g = some h)
    (hrun : Machine.run (step (Slab.component T R n ((Slab.range T R).block h.alloc)))
      ⟨h, fun _ => none⟩ ops = some s) (checked : Bool) :
    BInv (Slab.drop A R checked s.heap).2 L ∧
      Set.EqOn (Slab.drop A R checked s.heap).2.mem g.mem (liveBytes L) := by
  have hC := Slab.lawful T R n ((Slab.range T R).block h.alloc)
  have hfresh := Slab.component_fresh hA hinv hM hnew
  obtain ⟨hsame, hframe⟩ := keeps_run (slab_keeps T R n h) hC rfl rfl hfresh
    ⟨⟨_, _, _, rfl⟩, fun _ _ => rfl⟩ hrun
  obtain ⟨⟨G, -, hi⟩, -⟩ := run_inv hC (hC.honours_of_defaults rfl rfl) hfresh hrun
  obtain ⟨p, hr, -⟩ := hi.outstanding
  obtain ⟨region, g', halloc, hptr, hinside, hbacking, hmem⟩ :=
    Slab.region_of_withProtection hA hinv hnew
  obtain ⟨head, carved, events, hslab⟩ := hsame
  have hdrop : (Slab.drop A R checked s.heap).2 =
      A.deallocate region.ptr h.alloc.backingLayout ⟨g'.alloc, s.heap.mem⟩ := by
    rw [hr.drop_eq, hslab]
    simp only [Slab.basePtr] at hptr ⊢
    rw [hptr, hbacking]
  rw [hdrop]
  have hwritten : Set.EqOn s.heap.mem g'.mem region.bytesᶜ := by
    intro x hx
    rw [← hmem]
    exact hframe fun hin => hx (hinside hin)
  have hreturned := hA.given_back hinv halloc hwritten
  exact ⟨hreturned.inv, hreturned.frame⟩

/-- A word of the arena is out, and a slab of three words comes and goes next to it, while its client
still holds one of them. -/
theorem slab_drop_returns_slab8 : ∃ b g h s,
    (BumpArena.allocator 16 SlabRun.movable).allocate SlabRun.layout8 ⟨⟨0, 64, 0⟩, fun _ => 0⟩ =
        (some b, g) ∧
      Slab.withProtection (BumpArena.allocator 16 SlabRun.movable) (BumpArena.range SlabRun.movable)
        SlabRun.word8 3 .none g = some h ∧
      Machine.run (step (Slab.component SlabRun.word8 (BumpArena.range SlabRun.movable) 3
          ((Slab.range SlabRun.word8 (BumpArena.range SlabRun.movable)).block h.alloc)))
        ⟨h, fun _ => none⟩
        [.allocate 0 SlabRun.layout8, .allocate 1 SlabRun.layout8, .write 0 3 7, .deallocate 0] =
          some s ∧
      (s.objects 1).isSome ∧
      BumpArena.Holds SlabRun.movable 16 (Slab.drop (BumpArena.allocator 16 SlabRun.movable)
        (BumpArena.range SlabRun.movable) true s.heap).2 {⟨b, SlabRun.layout8⟩} := by
  have hA := BumpArena.honours (w := 16) SlabRun.movable_lawful 16 (by decide)
  have hstart : BumpArena.Holds (w := 16) SlabRun.movable 16 ⟨⟨0, 64, 0⟩, fun _ => 0⟩ ∅ :=
    BumpArena.holds_new (b := 0) rfl _
  have hcall : (BumpArena.allocator 16 SlabRun.movable).allocate SlabRun.layout8
      ⟨⟨0, 64, 0⟩, fun _ => 0⟩ = (some ⟨16, 8⟩, ⟨⟨0, 64, 8⟩, fun _ => 0⟩) := rfl
  have hinv := (hA.allocate_some hstart hcall).inv
  rw [insert_empty_eq] at hinv
  have hsome : ((Slab.withProtection (BumpArena.allocator 16 SlabRun.movable)
      (BumpArena.range SlabRun.movable) SlabRun.word8 3 .none ⟨⟨0, 64, 8⟩, fun _ => 0⟩).bind fun h =>
        (Machine.run (step (Slab.component SlabRun.word8 (BumpArena.range SlabRun.movable) 3
            ((Slab.range SlabRun.word8 (BumpArena.range SlabRun.movable)).block h.alloc)))
          ⟨h, fun _ => none⟩
          [.allocate 0 SlabRun.layout8, .allocate 1 SlabRun.layout8, .write 0 3 7, .deallocate 0]).map
            fun s => (s.objects 1).isSome) = some true := by decide +kernel
  obtain ⟨h, hnew, hmap⟩ := Option.bind_eq_some_iff.mp hsome
  obtain ⟨s, hrun, hout⟩ := Option.map_eq_some_iff.mp hmap
  refine ⟨_, _, h, s, hcall, hnew, hrun, hout, ?_⟩
  exact (slab_drop_returns hA hinv FreelistProtection.none_sound hnew hrun true).1

end ClientRun

end ForgeAlloc
