import ForgeAlloc.Capi.Bump
import ForgeAlloc.Library.ObjectStore
import ForgeAlloc.Library.Run

set_option autoImplicit false

/-! # Programs over the C interface

A program has any number of handles and calls the functions as their comments ask: a buffer is not
aliased while its handle lives, a block is freed once and no longer than it is, a freed block is not
written to, and a block is forgotten when its handle is reset, destroyed or made anew. Nothing else
is asked of it (`CRun.step`).

What it has then are objects in a memory that nobody else writes to (`CRun.capi_run_safe`). A freed
block stays one of them, filled with the poison, until its handle is reset.
-/

namespace ForgeAlloc

open MachineInt ByteMemory ObjectStore

variable {w : Nat} {η ι : Type}

/-- A block that a program has got from a handle. -/
structure CBlock (η : Type) where
  handle : η
  block : Block
  align : Nat
  /-- What the program knows of the bytes. -/
  object : Object
  /-- The size it was freed with. -/
  freed : Option Nat

structure CRun (η ι : Type) where
  state : CState η
  /-- The blocks, under the program's names. -/
  blocks : ι → Option (CBlock η)
  /-- The buffers that are borrowed. -/
  buffers : List (η × Block)

inductive CCall (η ι : Type)
  | init (handle : Option η) (buf len : Nat)
  | alloc (n : ι) (zeroed : Bool) (handle : Option η) (size align : Nat)
  | write (n : ι) (k : Nat) (v : UInt8)
  | free (n : ι) (size align : Nat)
  | freeNull (handle : Option η) (size align : Nat)
  | reset (handle : Option η)
  | destroy (handle : Option η)

namespace CRun

def start (m : Mem) : CRun η ι := ⟨⟨fun _ => none, m⟩, fun _ => none, []⟩

section

variable [DecidableEq η]

/-- The program forgets the blocks of a handle. -/
def forget (blocks : ι → Option (CBlock η)) (i : η) : ι → Option (CBlock η) := fun n =>
  (blocks n).filter fun e => e.handle ≠ i

/-- The buffers of the other handles. -/
def others (buffers : List (η × Block)) (i : η) : List (η × Block) :=
  buffers.filter fun p => p.1 ≠ i

variable [DecidableEq ι]

/-- What a request returns goes under the name `n`, unless it is null. -/
def receive (s : CRun η ι) (n : ι) (zeroed : Bool) (handle : Option η) (size align p : Nat)
    (state : CState η) : CRun η ι :=
  match handle with
  | none => { s with state := state }
  | some i =>
      if p = 0 then { s with state := state }
      else
        { s with
          state := state
          blocks := Function.update s.blocks n
            (some ⟨i, ⟨p, size⟩, align, .fresh zeroed size size, none⟩) }

def step (w : Nat) (s : CRun η ι) : CCall η ι → Option (CRun η ι)
  | .init handle buf len =>
      if ∀ p ∈ s.buffers, handle = some p.1 ∨ buf + len ≤ p.2.ptr ∨ p.2.ptr + p.2.len ≤ buf then
        let (ok, state) := forgeBumpInit w handle buf len s.state
        match handle with
        | none => some { s with state := state }
        | some i =>
            if ok = 1 then some ⟨state, forget s.blocks i, (i, ⟨buf, len⟩) :: others s.buffers i⟩
            else some { s with state := state }
      else none
  | .alloc n zeroed handle size align =>
      match s.blocks n with
      | some _ => none
      | none =>
          let alloc := if zeroed then forgeBumpAllocZeroed w else forgeBumpAlloc w
          (alloc handle size align s.state).map fun (p, state) =>
            s.receive n zeroed handle size align p state
  | .write n k v =>
      match s.blocks n with
      | none => none
      | some e =>
          if e.freed = none ∧ k < e.block.len then
            some { s with
              state := { s.state with mem := writeByte s.state.mem (e.block.ptr + k) v }
              blocks := Function.update s.blocks n (some { e with object := e.object.write k v }) }
          else none
  | .free n size align =>
      match s.blocks n with
      | none => none
      | some e =>
          if e.freed = none ∧ size ≤ e.block.len then
            some { s with
              state := forgeBumpFree (some e.handle) e.block.ptr size align s.state
              blocks := Function.update s.blocks n (some { e with
                object := e.object.fill size PoisonOnFree.defaultPoison, freed := some size }) }
          else none
  | .freeNull handle size align =>
      some { s with state := forgeBumpFree handle 0 size align s.state }
  | .reset handle =>
      (forgeBumpReset handle s.state).map fun (_, state) =>
        match handle with
        | none => { s with state := state }
        | some i => { s with state := state, blocks := forget s.blocks i }
  | .destroy handle =>
      (forgeBumpDestroy handle s.state).map fun state =>
        match handle with
        | none => { s with state := state }
        | some i => ⟨state, forget s.blocks i, others s.buffers i⟩

end

/-! ## The invariant -/

def place (blocks : ι → Option (CBlock η)) : ι → Option Block := fun n => (blocks n).map CBlock.block

def store (blocks : ι → Option (CBlock η)) : Store ι := fun n => (blocks n).map CBlock.object

/-- The arena in a handle, over a buffer that is borrowed. -/
structure Held (w : Nat) (buffers : List (η × Block)) (i : η) (a : Bump) : Prop where
  sound : BumpArena.Sound w StaticBacked.range a.backing.ptr a
  capacity_eq : a.capacity = a.backing.len
  borrowed : (i, a.backing.block) ∈ buffers

structure Inv (w : Nat) (s : CRun η ι) : Prop where
  held : ∀ i a, s.state.handles i = some a → Held w s.buffers i a
  apart : ∀ p ∈ s.buffers, ∀ q ∈ s.buffers, p.1 ≠ q.1 → Disjoint p.2.bytes q.2.bytes
  within : ∀ n e, s.blocks n = some e →
    ∃ a, s.state.handles e.handle = some a ∧ e.block.Within a.backing.ptr a.cursor
  aligned : ∀ n e, s.blocks n = some e → e.align ∣ e.block.ptr
  represents : Represents s.state.mem (place s.blocks) (store s.blocks)
  poisoned : ∀ n e size, s.blocks n = some e → e.freed = some size → size ≤ e.block.len ∧
    ∀ k < size, e.object.bytes k = some PoisonOnFree.defaultPoison

variable {s s' : CRun η ι} {i j : η} {a b : Bump} {n : ι} {e : CBlock η}

theorem inv_start (m : Mem) : Inv w (start m : CRun η ι) where
  held := by
    rintro i a ⟨⟩
  apart := List.forall_mem_nil _
  within := by
    rintro n e ⟨⟩
  aligned := by
    rintro n e ⟨⟩
  represents := represents_empty m
  poisoned := by
    rintro n e size ⟨⟩

/-- A block is inside the buffer of its handle. -/
theorem Held.subset {buffers : List (η × Block)} (h : Held w buffers i a)
    (hwithin : e.block.Within a.backing.ptr a.cursor) : e.block.bytes ⊆ a.backing.block.bytes := by
  refine (hwithin.mono h.sound.cursor_le).trans ?_
  rw [h.capacity_eq]
  exact subset_rfl

/-- The buffers of two handles. -/
theorem Inv.buffers_disjoint (hi : Inv w s) (ha : s.state.handles i = some a)
    (hb : s.state.handles j = some b) (hij : i ≠ j) :
    Disjoint a.backing.block.bytes b.backing.block.bytes :=
  hi.apart _ (hi.held i a ha).borrowed _ (hi.held j b hb).borrowed hij

/-! ## The calls of an arena -/

/-- The call of the arena that a request makes. -/
def ask (zeroed : Bool) : NonZeroLayout w → Heap Bump → Option Block × Heap Bump :=
  if zeroed then defaultAllocateZeroed (BumpArena.allocate StaticBacked.range)
  else BumpArena.allocate StaticBacked.range

theorem backing_allocate (l : NonZeroLayout w) (h : Heap Bump) :
    (BumpArena.allocate StaticBacked.range l h).2.alloc.backing = h.alloc.backing := by
  simp only [BumpArena.allocate, BumpArena.reserve]
  split
  case h_1 a heq =>
      split at heq
      · cases heq
        rfl
      · cases heq
  case h_2 p a heq =>
      split at heq
      · cases heq
      · cases heq
        rfl

/-- The arena after a request. -/
structure Asked (h h' : Heap Bump) : Prop where
  sound : BumpArena.Sound w StaticBacked.range h.alloc.backing.ptr h'.alloc
  backing_eq : h'.alloc.backing = h.alloc.backing
  capacity_eq : h'.alloc.capacity = h.alloc.capacity
  cursor_le : h.alloc.cursor ≤ h'.alloc.cursor

variable {zeroed : Bool} {l : NonZeroLayout w} {h h' : Heap Bump} {block : Block}

theorem ask_none (hs : BumpArena.Sound w StaticBacked.range h.alloc.backing.ptr h.alloc)
    (heq : ask zeroed l h = (none, h')) : Asked (w := w) h h' ∧ h'.mem = h.mem := by
  have hcall : BumpArena.allocate StaticBacked.range l h = (none, h') := by
    cases zeroed with
    | false => exact heq
    | true =>
        simp only [ask, if_true, defaultAllocateZeroed] at heq
        split at heq
        case h_1 hcall =>
            cases heq
            exact hcall
        case h_2 => cases heq
  obtain ⟨hs', hcur, hcap, hmem⟩ := BumpArena.allocate_none StaticBacked.range_lawful hs hcall
  have hbacking := backing_allocate l h
  rw [hcall] at hbacking
  exact ⟨⟨hs', hbacking, hcap, le_of_eq hcur.symm⟩, hmem⟩

/-- A new block: it starts above the cursor, and ends at the new one. -/
theorem ask_some (hs : BumpArena.Sound w StaticBacked.range h.alloc.backing.ptr h.alloc)
    (heq : ask zeroed l h = (some block, h')) :
    Asked (w := w) h h' ∧ l.align ∣ block.ptr ∧ block.len = l.size ∧
      h.alloc.backing.ptr + h.alloc.cursor ≤ block.ptr ∧
      block.ptr + block.len = h.alloc.backing.ptr + h'.alloc.cursor ∧
      Set.EqOn h'.mem h.mem block.bytesᶜ ∧
      (zeroed = true → ∀ k < l.size, h'.mem (block.ptr + k) = 0) := by
  have hcall : ∃ t : Heap Bump, BumpArena.allocate StaticBacked.range l h = (some block, t) ∧
      h'.alloc = t.alloc ∧
      h'.mem = if zeroed then fillBytes t.mem block.ptr l.size 0 else t.mem := by
    cases zeroed with
    | false => exact ⟨h', heq, rfl, rfl⟩
    | true =>
        simp only [ask, if_true, defaultAllocateZeroed] at heq
        split at heq
        case h_1 => cases heq
        case h_2 b t hcall =>
            cases heq
            exact ⟨t, hcall, rfl, rfl⟩
  obtain ⟨t, hcall, halloc, hmem⟩ := hcall
  obtain ⟨hptr, hlen, hend, hs', hcap, hsame⟩ :=
    BumpArena.allocate_some StaticBacked.range_lawful hs hcall
  have hbacking := backing_allocate l h
  have hle := le_alignUp (x := h.alloc.backing.ptr + h.alloc.cursor) l.align_pos
  rw [hcall] at hbacking
  rw [← halloc] at hbacking hs' hcap hend
  rw [← hptr] at hle
  refine ⟨⟨hs', hbacking, hcap, by omega⟩, hptr ▸ dvd_alignUp _ _, hlen, hle, hend, ?_, ?_⟩
  · intro x hx
    rw [hmem, ← hsame]
    split
    · refine fillBytes_of_not_mem 0 fun hin => hx ?_
      rw [Block.mem_bytes, hlen]
      exact hin
    · rfl
  · intro hzeroed k hk
    rw [hmem, if_pos hzeroed]
    exact fillBytes_add 0 hk

/-! ## One call -/

theorem place_eq_some {blocks : ι → Option (CBlock η)} {p : Block} (h : place blocks n = some p) :
    ∃ e, blocks n = some e ∧ e.block = p := Option.map_eq_some_iff.mp h

variable [DecidableEq η]

theorem forget_eq_some {blocks : ι → Option (CBlock η)} :
    forget blocks i n = some e ↔ blocks n = some e ∧ e.handle ≠ i := by
  rw [forget, Option.filter_eq_some_iff, decide_eq_true_iff]

theorem mem_others {buffers : List (η × Block)} {p : η × Block} :
    p ∈ others buffers i ↔ p ∈ buffers ∧ p.1 ≠ i := by
  rw [others, List.mem_filter, decide_eq_true_iff]

theorem represents_forget {m : Mem} {blocks : ι → Option (CBlock η)}
    (h : Represents m (place blocks) (store blocks)) (i : η) :
    Represents m (place (forget blocks i)) (store (forget blocks i)) := by
  have hkept : ∀ n, ((forget blocks i n).isSome → forget blocks i n = blocks n) := by
    intro n hn
    obtain ⟨e, he⟩ := Option.isSome_iff_exists.mp hn
    rw [he, (forget_eq_some.mp he).1]
  have hplace : place (forget blocks i) =
      fun n => if (forget blocks i n).isSome then place blocks n else none := by
    funext n
    split
    case isTrue hn => rw [place, hkept n hn, place]
    case isFalse hn => rw [place, Option.not_isSome_iff_eq_none.mp hn, Option.map_none]
  have hstore : store (forget blocks i) =
      fun n => if (forget blocks i n).isSome then store blocks n else none := by
    funext n
    split
    case isTrue hn => rw [store, hkept n hn, store]
    case isFalse hn => rw [store, Option.not_isSome_iff_eq_none.mp hn, Option.map_none]
  rw [hplace, hstore]
  exact h.filter _

/-- What `forge_bump_init` leaves in the handle. -/
theorem forgeBumpInit_cases {handle : Option η} {buf len : Nat} (st : CState η) :
    forgeBumpInit w handle buf len st = (0, st) ∨
      ∃ i a, handle = some i ∧ forgeBumpInit w handle buf len st = (1, st.put i ⟨a, st.mem⟩) ∧
        BumpArena.Sound w StaticBacked.range a.backing.ptr a ∧ a.capacity = a.backing.len ∧
        a.backing.block = ⟨buf, len⟩ := by
  cases handle with
  | none => exact Or.inl rfl
  | some i =>
      simp only [forgeBumpInit]
      split
      · exact Or.inl rfl
      · split
        case h_1 a hnew =>
            obtain ⟨hs, hcap⟩ := BumpArena.sound_new hnew
            obtain ⟨rfl, -⟩ := BumpArena.new_eq_some hnew
            exact Or.inr ⟨i, _, rfl, rfl, hs, hcap, rfl⟩
        case h_2 => exact Or.inl rfl

/-- The handle `i` is given another arena, or none, and its blocks are forgotten. -/
theorem Inv.replaced (hi : Inv w s) (i : η) (v : Option Bump) {buffers : List (η × Block)}
    (hv : ∀ a, v = some a → Held w buffers i a)
    (hsub : ∀ p ∈ s.buffers, p.1 ≠ i → p ∈ buffers)
    (hapart : ∀ p ∈ buffers, ∀ q ∈ buffers, p.1 ≠ q.1 → Disjoint p.2.bytes q.2.bytes) :
    Inv w ⟨⟨Function.update s.state.handles i v, s.state.mem⟩, forget s.blocks i, buffers⟩ where
  held := by
    intro j a ha
    rcases update_eq_iff.mp ha with ⟨rfl, hva⟩ | ⟨hji, hold⟩
    · exact hv a hva
    · obtain ⟨hs, hcap, hmem⟩ := hi.held j a hold
      exact ⟨hs, hcap, hsub _ hmem hji⟩
  apart := hapart
  within := by
    intro n e he
    obtain ⟨hold, hne⟩ := forget_eq_some.mp he
    obtain ⟨a, ha, hwithin⟩ := hi.within n e hold
    exact ⟨a, update_eq_iff.mpr (Or.inr ⟨hne, ha⟩), hwithin⟩
  aligned := fun n e he => hi.aligned n e (forget_eq_some.mp he).1
  represents := represents_forget hi.represents i
  poisoned := fun n e size he => hi.poisoned n e size (forget_eq_some.mp he).1

theorem Inv.init (hi : Inv w s) {a : Bump} {buf len : Nat}
    (hs : BumpArena.Sound w StaticBacked.range a.backing.ptr a) (hcap : a.capacity = a.backing.len)
    (hblock : a.backing.block = ⟨buf, len⟩)
    (hfree : ∀ p ∈ s.buffers, some i = some p.1 ∨ buf + len ≤ p.2.ptr ∨ p.2.ptr + p.2.len ≤ buf) :
    Inv w ⟨s.state.put i ⟨a, s.state.mem⟩, forget s.blocks i,
      (i, ⟨buf, len⟩) :: others s.buffers i⟩ := by
  have hnew : ∀ p ∈ others s.buffers i, Disjoint (Block.mk buf len).bytes p.2.bytes := by
    intro p hp
    obtain ⟨hmem, hne⟩ := mem_others.mp hp
    rcases hfree p hmem with heq | hends
    · exact absurd (Option.some.inj heq).symm hne
    · exact Block.disjoint_of_le hends
  refine hi.replaced i (some a) ?_ ?_ ?_
  · rintro a' ⟨⟩
    exact ⟨hs, hcap, hblock ▸ List.mem_cons_self⟩
  · exact fun p hp hne => List.mem_cons_of_mem _ (mem_others.mpr ⟨hp, hne⟩)
  · intro p hp q hq hpq
    rcases List.mem_cons.mp hp with rfl | hp'
    · rcases List.mem_cons.mp hq with rfl | hq'
      · exact absurd rfl hpq
      · exact hnew q hq'
    · rcases List.mem_cons.mp hq with rfl | hq'
      · exact (hnew p hp').symm
      · exact hi.apart p (mem_others.mp hp').1 q (mem_others.mp hq').1 hpq

/-- The arena in a handle goes on. -/
theorem Inv.asked (hi : Inv w s) {h' : Heap Bump} (ha : s.state.handles i = some a)
    (hask : Asked (w := w) ⟨a, s.state.mem⟩ h') : ∀ j b,
      (s.state.put i h').handles j = some b → Held w s.buffers j b := by
  intro j b hb
  rcases update_eq_iff.mp hb with ⟨rfl, heq⟩ | ⟨-, hold⟩
  · cases heq
    obtain ⟨-, hcap, hmem⟩ := hi.held j a ha
    have hbacking : h'.alloc.backing = a.backing := hask.backing_eq
    refine ⟨?_, ?_, ?_⟩
    · rw [hbacking]
      exact hask.sound
    · rw [hbacking, ← hcap]
      exact hask.capacity_eq
    · rw [hbacking]
      exact hmem
  · exact hi.held j b hold

/-- The blocks stay below the cursors. -/
theorem Inv.within_asked (hi : Inv w s) {h' : Heap Bump} (ha : s.state.handles i = some a)
    (hask : Asked (w := w) ⟨a, s.state.mem⟩ h') (he : s.blocks n = some e) :
    ∃ b, (s.state.put i h').handles e.handle = some b ∧
      e.block.Within b.backing.ptr b.cursor := by
  obtain ⟨b, hb, hwithin⟩ := hi.within n e he
  by_cases hei : e.handle = i
  · rw [hei, ha] at hb
    cases hb
    have hbacking : h'.alloc.backing = a.backing := hask.backing_eq
    refine ⟨h'.alloc, update_eq_iff.mpr (Or.inl ⟨hei, rfl⟩), ?_⟩
    rw [hbacking]
    exact hwithin.mono hask.cursor_le
  · exact ⟨b, update_eq_iff.mpr (Or.inr ⟨hei, hb⟩), hwithin⟩

theorem Inv.refused (hi : Inv w s) {h' : Heap Bump} (ha : s.state.handles i = some a)
    (hask : Asked (w := w) ⟨a, s.state.mem⟩ h') (hmem : h'.mem = s.state.mem) :
    Inv w { s with state := s.state.put i h' } where
  held := hi.asked ha hask
  apart := hi.apart
  within := fun n e he => hi.within_asked ha hask he
  aligned := hi.aligned
  represents := by
    show Represents h'.mem _ _
    rw [hmem]
    exact hi.represents
  poisoned := hi.poisoned

/-- A new block is apart from the others: it is above the cursor of its own handle, and in another
buffer than those of the other handles. -/
theorem Inv.fresh (hi : Inv w s) (ha : s.state.handles i = some a) {p : Block}
    (hge : a.backing.ptr + a.cursor ≤ p.ptr) (hsub : p.bytes ⊆ a.backing.block.bytes)
    (he : s.blocks n = some e) : Disjoint p.bytes e.block.bytes := by
  obtain ⟨b, hb, hwithin⟩ := hi.within n e he
  by_cases hei : e.handle = i
  · rw [hei, ha] at hb
    cases hb
    exact hwithin.disjoint_of_ge (Or.inr hge)
  · have hapart := hi.buffers_disjoint ha hb (Ne.symm hei)
    exact hapart.mono hsub ((hi.held _ b hb).subset hwithin)

omit [DecidableEq η]

variable [DecidableEq ι]

theorem place_update (blocks : ι → Option (CBlock η)) (n : ι) (e : CBlock η) :
    place (Function.update blocks n (some e)) = Function.update (place blocks) n (some e.block) :=
  funext fun _ => Function.apply_update (fun _ => Option.map CBlock.block) blocks n _ _

theorem store_update (blocks : ι → Option (CBlock η)) (n : ι) (e : CBlock η) :
    store (Function.update blocks n (some e)) = Function.update (store blocks) n (some e.object) :=
  funext fun _ => Function.apply_update (fun _ => Option.map CBlock.object) blocks n _ _

theorem Inv.granted [DecidableEq η] (hi : Inv w s) (ha : s.state.handles i = some a) {zeroed : Bool}
    {l : NonZeroLayout w} {h' : Heap Bump} {block : Block}
    (heq : ask zeroed l ⟨a, s.state.mem⟩ = (some block, h')) :
    Inv w { s with
      state := s.state.put i h'
      blocks := Function.update s.blocks n
        (some ⟨i, block, l.align, .fresh zeroed l.size l.size, none⟩) } := by
  have hheld := hi.held i a ha
  obtain ⟨hask, halign, hlen, hge, hend, hframe, hzero⟩ := ask_some hheld.sound heq
  have hbacking : h'.alloc.backing = a.backing := hask.backing_eq
  have hwithin : block.Within h'.alloc.backing.ptr h'.alloc.cursor := by
    rw [hbacking]
    exact Block.within_of_le ((Nat.le_add_right _ _).trans hge) (le_of_eq hend)
  have hsub : block.bytes ⊆ a.backing.block.bytes := by
    have hnew : Held w s.buffers i h'.alloc :=
      hi.asked ha hask i h'.alloc (update_eq_iff.mpr (Or.inl ⟨rfl, rfl⟩))
    rw [← hbacking]
    exact (hwithin.mono hnew.sound.cursor_le).trans (by rw [hnew.capacity_eq]; exact subset_rfl)
  refine ⟨hi.asked ha hask, hi.apart, ?_, ?_, ?_, ?_⟩
  · intro m e he
    rcases update_eq_iff.mp he with ⟨rfl, heq'⟩ | ⟨-, hold⟩
    · cases heq'
      exact ⟨h'.alloc, update_eq_iff.mpr (Or.inl ⟨rfl, rfl⟩), hwithin⟩
    · exact hi.within_asked ha hask hold
  · intro m e he
    rcases update_eq_iff.mp he with ⟨rfl, heq'⟩ | ⟨-, hold⟩
    · cases heq'
      exact halign
    · exact hi.aligned m e hold
  · have hat : (Object.fresh zeroed l.size block.len).At h'.mem block := Object.fresh_at hzero
    have hothers : ∀ m p, m ≠ n → place s.blocks m = some p → Disjoint block.bytes p.bytes := by
      intro m p _ hp
      obtain ⟨e, he, rfl⟩ := place_eq_some hp
      exact hi.fresh ha hge hsub he
    have hrep := hi.represents.update (i := n) hat
      (fun m p hmn hp => hframe.mono (Set.disjoint_right.mp (hothers m p hmn hp))) hothers
    rw [hlen] at hrep
    rw [place_update, store_update]
    exact hrep
  · intro m e size he hsize
    rcases update_eq_iff.mp he with ⟨rfl, heq'⟩ | ⟨-, hold⟩
    · cases heq'
      cases hsize
    · exact hi.poisoned m e size hold hsize

/-- The bytes of one block change. -/
theorem Inv.modified (hi : Inv w s) (he : s.blocks n = some e) {m : Mem} {o : Object}
    {freed : Option Nat} (hat : o.At m e.block) (hframe : Set.EqOn m s.state.mem e.block.bytesᶜ)
    (hpoison : ∀ size, freed = some size → size ≤ e.block.len ∧
      ∀ k < size, o.bytes k = some PoisonOnFree.defaultPoison) :
    Inv w { s with
      state := { s.state with mem := m }
      blocks := Function.update s.blocks n (some { e with object := o, freed := freed }) } := by
  refine ⟨hi.held, hi.apart, ?_, ?_, ?_, ?_⟩
  · intro n' e' he'
    rcases update_eq_iff.mp he' with ⟨rfl, heq⟩ | ⟨-, hold⟩
    · cases heq
      exact hi.within n' e he
    · exact hi.within n' e' hold
  · intro n' e' he'
    rcases update_eq_iff.mp he' with ⟨rfl, heq⟩ | ⟨-, hold⟩
    · cases heq
      exact hi.aligned n' e he
    · exact hi.aligned n' e' hold
  · have hplace : place s.blocks n = some e.block := by rw [place, he]; rfl
    have hothers : ∀ n' p, n' ≠ n → place s.blocks n' = some p → Disjoint e.block.bytes p.bytes :=
      fun n' p hne hp => hi.represents.disjoint n n' e.block p hne.symm hplace hp
    rw [place_update, store_update]
    exact hi.represents.update hat
      (fun n' p hne hp => hframe.mono (Set.disjoint_right.mp (hothers n' p hne hp))) hothers
  · intro n' e' size he' hsize
    rcases update_eq_iff.mp he' with ⟨rfl, heq⟩ | ⟨-, hold⟩
    · cases heq
      exact hpoison size hsize
    · exact hi.poisoned n' e' size hold hsize

/-! ## Every call keeps the invariant -/

omit [DecidableEq ι] in
/-- What the object of a block that is out says is in the memory. -/
theorem Inv.at_of_some (hi : Inv w s) (he : s.blocks n = some e) :
    e.object.At s.state.mem e.block :=
  hi.represents.held n e.block e.object (by rw [place, he]; rfl) (by rw [store, he]; rfl)

theorem Inv.alloc [DecidableEq η] (hi : Inv w s) {zeroed : Bool} {handle : Option η}
    {size align p : Nat} {st : CState η}
    (heq : forgeBumpAllocWith (ask (w := w) zeroed) handle size align s.state = some (p, st)) :
    Inv w (s.receive n zeroed handle size align p st) := by
  cases handle with
  | none =>
      cases heq
      exact hi
  | some i =>
      simp only [forgeBumpAllocWith] at heq
      split at heq
      case h_1 =>
          cases heq
          exact hi
      case h_2 l hl =>
          obtain ⟨rfl, rfl⟩ := NonZeroLayout.fromSizeAlign_eq_some.mp hl
          obtain ⟨a, ha, hcall⟩ := Option.map_eq_some_iff.mp heq
          split at hcall
          case h_1 block h' hask =>
              cases hcall
              obtain ⟨-, -, hlen, hge, -⟩ := ask_some (hi.held i a ha).sound hask
              have hpos : block.ptr ≠ 0 := by
                have hbase := a.backing.ptr_pos
                simp only at hge
                omega
              have hgranted := hi.granted (n := n) ha hask
              rw [receive, if_neg hpos, ← hlen]
              rw [← hlen] at hgranted
              exact hgranted
          case h_2 h' hask =>
              cases hcall
              obtain ⟨hasked, hmem⟩ := ask_none (hi.held i a ha).sound hask
              exact hi.refused ha hasked hmem

theorem Inv.free (hi : Inv w s) (he : s.blocks n = some e) {size : Nat}
    (hsize : size ≤ e.block.len) (align : Nat) :
    Inv w { s with
      state := forgeBumpFree (some e.handle) e.block.ptr size align s.state
      blocks := Function.update s.blocks n (some { e with
        object := e.object.fill size PoisonOnFree.defaultPoison, freed := some size }) } := by
  have hstate : forgeBumpFree (some e.handle) e.block.ptr size align s.state =
      { s.state with
        mem := fillBytes s.state.mem e.block.ptr size PoisonOnFree.defaultPoison } := by
    unfold forgeBumpFree
    split
    case isFalse => rfl
    case isTrue hnull =>
        have hzero : size = 0 := by
          by_contra hne
          obtain ⟨a, -, hwithin⟩ := hi.within n e he
          have hpos := a.backing.ptr_pos
          have hbase := ((Block.within_iff (by omega)).mp hwithin).1
          omega
        have hnone : fillBytes s.state.mem e.block.ptr 0 PoisonOnFree.defaultPoison = s.state.mem :=
          funext fun x => fillBytes_of_not_mem _ (by omega)
        rw [hzero, hnone]
  rw [hstate]
  refine hi.modified he ((hi.at_of_some he).fill _) ?_ ?_
  · intro x hx
    refine fillBytes_of_not_mem _ fun hin => hx ?_
    rw [Block.mem_bytes]
    omega
  · rintro size' ⟨⟩
    exact ⟨hsize, fun k hk => if_pos hk⟩

theorem inv_step [DecidableEq η] (hi : Inv w s) {c : CCall η ι} (hstep : step w s c = some s') :
    Inv w s' := by
  cases c with
  | init handle buf len =>
      simp only [step] at hstep
      split at hstep
      case isFalse => cases hstep
      case isTrue hfree =>
          rcases @forgeBumpInit_cases w _ _ handle buf len s.state with
            hfail | ⟨i, a, rfl, hok, hs, hcap, hblock⟩
          · rw [hfail] at hstep
            cases handle with
            | none =>
                cases hstep
                exact hi
            | some i =>
                cases hstep
                exact hi
          · rw [hok] at hstep
            cases hstep
            exact hi.init hs hcap hblock hfree
  | alloc n zeroed handle size align =>
      simp only [step] at hstep
      split at hstep
      case h_1 => cases hstep
      case h_2 =>
          have hask : (if zeroed then forgeBumpAllocZeroed w else forgeBumpAlloc w) handle size align
              s.state = forgeBumpAllocWith (ask (w := w) zeroed) handle size align s.state := by
            cases zeroed <;> rfl
          rw [hask] at hstep
          obtain ⟨⟨p, st⟩, hcall, rfl⟩ := Option.map_eq_some_iff.mp hstep
          exact hi.alloc hcall
  | write n k v =>
      simp only [step] at hstep
      split at hstep
      case h_1 => cases hstep
      case h_2 e he =>
          split at hstep
          case isFalse => cases hstep
          case isTrue hk =>
              cases hstep
              refine hi.modified he ((hi.at_of_some he).write v) ?_ ?_
              · intro x hx
                refine writeByte_of_ne v ?_
                rintro rfl
                exact hx ⟨Nat.le_add_right _ _, Nat.add_lt_add_left hk.2 _⟩
              · intro size hsize
                rw [hk.1] at hsize
                cases hsize
  | free n size align =>
      simp only [step] at hstep
      split at hstep
      case h_1 => cases hstep
      case h_2 e he =>
          split at hstep
          case isFalse => cases hstep
          case isTrue hsize =>
              cases hstep
              exact hi.free he hsize.2 align
  | freeNull handle size align =>
      cases hstep
      exact hi
  | reset handle =>
      obtain ⟨⟨ok, st⟩, hreset, rfl⟩ := Option.map_eq_some_iff.mp hstep
      cases handle with
      | none =>
          cases hreset
          exact hi
      | some i =>
          obtain ⟨a, ha, heq⟩ := Option.map_eq_some_iff.mp hreset
          cases heq
          refine hi.replaced i (some a.reset) ?_ (fun p hp _ => hp) hi.apart
          rintro a' ⟨⟩
          obtain ⟨⟨hbase, hend, -⟩, hcap, hmem⟩ := hi.held i a ha
          exact ⟨⟨hbase, hend, Nat.zero_le _⟩, hcap, hmem⟩
  | destroy handle =>
      obtain ⟨st, hdestroy, rfl⟩ := Option.map_eq_some_iff.mp hstep
      cases handle with
      | none =>
          cases hdestroy
          exact hi
      | some i =>
          obtain ⟨a, -, rfl⟩ := Option.map_eq_some_iff.mp hdestroy
          refine hi.replaced i none (by rintro a' ⟨⟩)
            (fun p hp hne => mem_others.mpr ⟨hp, hne⟩) ?_
          exact fun p hp q hq => hi.apart p (mem_others.mp hp).1 q (mem_others.mp hq).1

theorem inv_run [DecidableEq η] {m : Mem} {cs : List (CCall η ι)}
    (hrun : Machine.run (step w) (start m) cs = some s) : Inv w s :=
  Machine.run_invariant (fun _ _ _ hi hstep => inv_step hi hstep) (inv_start m) hrun

/-- **A C program that keeps to the comments is safe.** Let it use any number of handles in any
order.

* Each block it has is in the buffer of a handle that holds an arena, aligned as it was asked for,
  and apart from all other blocks, those that were freed included.
* The bytes that it knows, of zeros it asked for and of what it wrote, are in the memory.
* A freed block reads as the poison, as far as it was freed, until its handle is reset.
* `forge_bump_remaining` has an answer, which with `forge_bump_allocated` makes up the buffer. -/
theorem capi_run_safe [DecidableEq η] {m : Mem} {cs : List (CCall η ι)}
    (hrun : Machine.run (step w) (start m) cs = some s) :
    (∀ n e, s.blocks n = some e →
      (∃ a, s.state.handles e.handle = some a ∧ e.block.bytes ⊆ a.backing.block.bytes) ∧
        e.align ∣ e.block.ptr ∧
        (∀ k v, e.object.bytes k = some v → k < e.block.len → s.state.mem (e.block.ptr + k) = v) ∧
        ∀ size, e.freed = some size → ∀ k < size,
          s.state.mem (e.block.ptr + k) = PoisonOnFree.defaultPoison) ∧
      (∀ n n' e e', n ≠ n' → s.blocks n = some e → s.blocks n' = some e' →
        Disjoint e.block.bytes e'.block.bytes) ∧
      ∀ i a, s.state.handles i = some a →
        ∃ left, forgeBumpRemaining (some i) s.state = some left ∧
          forgeBumpAllocated (some i) s.state = some (a.backing.len - left) ∧
          left ≤ a.backing.len := by
  have hi := inv_run hrun
  refine ⟨?_, ?_, ?_⟩
  · intro n e he
    obtain ⟨a, ha, hwithin⟩ := hi.within n e he
    have hat := hi.at_of_some he
    refine ⟨⟨a, ha, (hi.held _ a ha).subset hwithin⟩, hi.aligned n e he, hat.bytes_eq, ?_⟩
    intro size hsize k hk
    obtain ⟨hle, hpoison⟩ := hi.poisoned n e size he hsize
    exact hat.bytes_eq k _ (hpoison k hk) (by omega)
  · intro n n' e e' hne he he'
    exact hi.represents.disjoint n n' e.block e'.block hne (by rw [place, he]; rfl)
      (by rw [place, he']; rfl)
  · intro i a ha
    obtain ⟨⟨-, -, hle⟩, hcap, -⟩ := hi.held i a ha
    refine ⟨a.capacity - a.cursor, ?_, ?_, by omega⟩
    · rw [forgeBumpRemaining, forgeBumpQuery, ha]
      exact checkedSub_eq_some.mpr ⟨hle, rfl⟩
    · rw [forgeBumpAllocated, forgeBumpQuery, ha, Option.bind_some, BumpArena.allocated]
      exact congrArg some (by omega)

/-- Two handles. A block of the first one is written to and freed, and another one is taken. -/
theorem capi_run_safe_twoHandles : ∃ (s : CRun Bool Nat) (e : CBlock Bool),
    Machine.run (step 64) (start fun _ => 0)
        [.init (some true) 4096 64, .init (some false) 8192 32, .alloc 0 false (some true) 16 8,
          .alloc 1 true (some false) 8 4, .write 0 3 7, .free 0 16 8, .alloc 2 false (some true) 4 4,
          .reset (some false), .destroy (some false), .alloc 3 false none 4 4] = some s ∧
      s.blocks 0 = some e ∧ e.freed = some 16 ∧ (s.blocks 2).isSome ∧
      ∀ k < 16, s.state.mem (e.block.ptr + k) = PoisonOnFree.defaultPoison := by
  obtain ⟨s, hrun, hsome⟩ := Option.map_eq_some_iff.mp
    (by decide +kernel : (Machine.run (step 64) (start fun _ => 0 : CRun Bool Nat)
        [.init (some true) 4096 64, .init (some false) 8192 32, .alloc 0 false (some true) 16 8,
          .alloc 1 true (some false) 8 4, .write 0 3 7, .free 0 16 8, .alloc 2 false (some true) 4 4,
          .reset (some false), .destroy (some false), .alloc 3 false none 4 4]).map
        (fun s => ((s.blocks 0).bind CBlock.freed, (s.blocks 2).isSome)) = some (some 16, true))
  obtain ⟨hfreed, hother⟩ := Prod.mk.inj hsome
  obtain ⟨e, he, hsize⟩ := Option.bind_eq_some_iff.mp hfreed
  obtain ⟨hblocks, -, -⟩ := capi_run_safe hrun
  exact ⟨s, e, hrun, he, hsize, hother, (hblocks 0 e he).2.2.2 16 hsize⟩

end CRun

end ForgeAlloc
