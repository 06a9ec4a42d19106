import ForgeAlloc.Layout.Generational
import ForgeAlloc.Layout.Bump
import ForgeAlloc.Library.Run

set_option autoImplicit false

/-! # Runs of a `GenerationalSlab`

The state of a run is the slab together with two ghosts: `issued` gives for every handle that
`insert` has returned the value inserted under it, as its holder has changed it since through
`get_mut`; `retired` lists the slots whose counter wrapped in a `remove`.

A run may use any handle it has been given, however stale (`step`), or any handle at all
(`stepAny`): nothing in a handle says which slab issued it.

Both kinds of run are sound as long as no `remove` is called with a handle that names a vacant
slot of its own generation (`generational_run_correct`, `generational_remove_none_iff`). A retired
slot is such a slot for the first handle it ever had: its counter is back at zero. Removing that
handle again puts the slot back on the freelist, with the handles of its first cycle still
around (`retired_slot_reissued`). A handle of another slab may name a slot that was never carved
(`remove_none_corrupts`).
-/

namespace ForgeAlloc

open MachineInt SlotPool Linked

structure GenRun (w : Nat) (α β : Type) where
  slab : GenerationalSlab w α β
  issued : Handle → Option α
  retired : List Nat

inductive GenOp (α : Type)
  | insert (v : α)
  | get (h : Handle)
  | getMut (h : Handle) (f : α → α)
  | remove (h : Handle)
  | contains (h : Handle)

namespace GenRun

variable {w : Nat} {α β : Type} {G : GenerationInt}

def init (slab : GenerationalSlab w α β) : GenRun w α β := ⟨slab, fun _ => none, []⟩

/-- The effect of an operation, with its bookkeeping. -/
def act (G : GenerationInt) (s : GenRun w α β) : GenOp α → GenRun w α β
  | .insert v =>
      match s.slab.insert v with
      | (none, slab) => { s with slab := slab }
      | (some h, slab) => ⟨slab, Function.update s.issued h (some v), s.retired⟩
  | .get _ => s
  | .getMut h f =>
      match s.slab.getMut h f with
      | (none, slab) => { s with slab := slab }
      | (some v, slab) => ⟨slab, Function.update s.issued h (some (f v)), s.retired⟩
  | .remove h =>
      match s.slab.remove G h with
      | (none, slab) => { s with slab := slab }
      | (some _, slab) =>
          ⟨slab, s.issued,
            if G.wrappingInc h.generation = 0 then h.index :: s.retired else s.retired⟩
  | .contains _ => s

/-- The handle an operation is called with. -/
def handle? : GenOp α → Option Handle
  | .insert _ => none
  | .get h => some h
  | .getMut h _ => some h
  | .remove h => some h
  | .contains h => some h

/-- An operation that uses only handles this slab has issued. -/
def step (G : GenerationInt) (s : GenRun w α β) (op : GenOp α) : Option (GenRun w α β) :=
  match handle? op with
  | none => some (s.act G op)
  | some h => if (s.issued h).isSome then some (s.act G op) else none

/-- An operation that uses any handle. -/
def stepAny (G : GenerationInt) (s : GenRun w α β) (op : GenOp α) : Option (GenRun w α β) :=
  some (s.act G op)

/-- `remove` is not called with a handle that names a vacant slot of its own generation. -/
def Spares (s : GenRun w α β) (op : GenOp α) : Prop :=
  ∀ h, op = .remove h → ¬ s.slab.Vacant h

/-! ## Slabs of one and of two slots -/

/-- `u32`. -/
def u32 : GenerationInt := ⟨32, Nat.succ_pos 31⟩

/-- A region of 64 bytes at address 64. -/
def region : FixedRange Unit := ⟨fun _ => 64, fun _ => 64, fun _ _ u => (true, u)⟩

/-- A slot of twelve bytes. -/
def slotType : RustType 64 := .lit 64 12 4 (Eq.refl true)

/-- A fresh slab of `capacity` slots over the region. -/
def fresh (capacity : Nat) : Option (GenerationalSlab 64 Bool (BumpArena Unit)) :=
  GenerationalSlab.withGeneration (BumpArena.allocator 64 region) (BumpArena.range region) slotType
    capacity ⟨⟨(), 64, 0⟩, fun _ => 0⟩

def slab1 : GenerationalSlab 64 Bool (BumpArena Unit) :=
  ⟨⟨(), 64, 12⟩, 0, 1, none, 0, .lit 64 12 4 (Eq.refl true), fun _ => ⟨0, .free none⟩⟩

def slab2 : GenerationalSlab 64 Bool (BumpArena Unit) :=
  ⟨⟨(), 64, 24⟩, 0, 2, none, 0, .lit 64 24 4 (Eq.refl true), fun _ => ⟨0, .free none⟩⟩

variable {s s' : GenRun w α β} {n : Nat} {p : Pool n}

/-! ## The freelist in runs with arbitrary handles -/

theorem getMut_eq (h : Handle) (f : α → α) (slab : GenerationalSlab w α β) :
    (∃ v, slab.Resolves h v ∧ slab.getMut h f = (some v, slab.setSlot h.index
        ⟨(slab.slots h.index).generation, .occupied (f v)⟩)) ∨
      slab.getMut h f = (none, slab) := by
  rcases GenerationalSlab.handle_cases slab h with hstale | ⟨v, hlt, hgen, hstate⟩ |
    ⟨hlt, hgen, nextFree, hstate⟩
  · right
    unfold GenerationalSlab.getMut
    split
    · rfl
    case isFalse hlt => rw [if_pos (by omega)]
  · left
    refine ⟨v, ⟨hlt, hgen, hstate⟩, ?_⟩
    unfold GenerationalSlab.getMut
    rw [if_neg (by omega), if_neg (not_not.mpr hgen), hstate]
  · right
    unfold GenerationalSlab.getMut
    rw [if_neg (by omega), if_neg (not_not.mpr hgen), hstate]

/-- Every operation that spares the vacant slots keeps the slab a pool, whatever its handle. -/
theorem refines_act (op : GenOp α) (hr : s.slab.Refines G p) (hspares : Spares s op) :
    ∃ q : Pool n, (s.act G op).slab.Refines G q := by
  cases op with
  | insert v =>
      rcases GenerationalSlab.insert_spec hr v with ⟨-, heq⟩ | ⟨i, q, slab, -, heq, hq, -⟩
      · exact ⟨p, by simp only [act, heq]; exact hr⟩
      · exact ⟨q, by simp only [act, heq]; exact hq⟩
  | get h => exact ⟨p, hr⟩
  | getMut h f =>
      rcases getMut_eq h f s.slab with ⟨v, hres, heq⟩ | heq
      · refine ⟨p, ?_⟩
        simp only [act, heq]
        exact GenerationalSlab.setSlot_occupied_refines hr (hr.mem_live_of_resolves hres) (f v)
      · exact ⟨p, by simp only [act, heq]; exact hr⟩
  | remove h =>
      rcases GenerationalSlab.handle_cases s.slab h with hstale | ⟨v, hres⟩ | hvacant
      · exact ⟨p, by simp only [act, GenerationalSlab.remove_of_stale hstale]; exact hr⟩
      · have hi := hr.mem_live_of_resolves hres
        have hremoved := GenerationalSlab.removed_refines hr hres hi
        simp only [act, GenerationalSlab.remove_of_resolves hres]
        split at hremoved
        · exact ⟨_, hremoved⟩
        · exact ⟨_, hremoved⟩
      · exact absurd hvacant (hspares h rfl)
  | contains h => exact ⟨p, hr⟩

theorem refines_run {slab : GenerationalSlab w α β} (hr : ∃ p : Pool n, slab.Refines G p)
    {ops : List (GenOp α)} (hspares : Machine.StepsSatisfy (stepAny G) Spares (init slab) ops)
    (hrun : Machine.run (stepAny G) (init slab) ops = some s) :
    ∃ p : Pool n, s.slab.Refines G p := by
  refine Machine.run_invariant_of_stepsSatisfy
    (P := fun u : GenRun w α β => ∃ p : Pool n, u.slab.Refines G p)
    (fun u op u' hu hop hstep => ?_) hr hspares hrun
  obtain ⟨p, hp⟩ := hu
  cases hstep
  exact refines_act op hp hop

/-- The free slot that the state of a slot names. -/
def nextFree? (s : GenRun w α β) (i : Nat) : Option Nat := ofLink (s.slab.nextLink i)

/-- **A failed `remove` and the freelist.** In every state, a `remove` that returns `None` leaves
the slab as it was exactly when its handle does not name a vacant slot of its own generation.
In every run whose calls of `remove` all spare such handles, the list from `free_head` is acyclic
and leads to carved vacant slots only, and `insert` fills a vacant slot. -/
theorem generational_remove_none_iff {A : Allocator w β} {R : FixedRange β} {S : RustType w}
    {g : Heap β} {slab : GenerationalSlab w α β}
    (hnew : GenerationalSlab.withGeneration A R S n g = some slab) {ops : List (GenOp α)}
    (hspares : Machine.StepsSatisfy (stepAny G) Spares (init slab) ops)
    (hrun : Machine.run (stepAny G) (init slab) ops = some s) :
    (∀ (t : GenerationalSlab w α β) (h : Handle),
        ((t.remove G h).1 = none → (t.remove G h).2 = t) ↔ ¬ t.Vacant h) ∧
      (∃ free : List Nat, Chain s.nextFree? s.slab.freeHead free ∧ free.Nodup ∧
        ∀ i ∈ free, i < s.slab.len ∧ ∃ nextFree, (s.slab.slots i).state = .free nextFree) ∧
      ∀ v h, (s.slab.insert v).1 = some h →
        h.index < n ∧ ∃ nextFree, (s.slab.slots h.index).state = .free nextFree := by
  obtain ⟨p, hr⟩ := refines_run ⟨_, (GenerationalSlab.withGeneration_refines hnew).1⟩ hspares hrun
  refine ⟨fun t h => GenerationalSlab.remove_none_iff, ⟨p.free, ?_, p.nodup_free, ?_⟩, ?_⟩
  · have hchain := hr.threaded.chain
    rw [ofLink_toLink] at hchain
    exact hchain
  · intro i hi
    refine ⟨?_, hr.vacant i (p.not_mem_live_of_mem_free hi)⟩
    rw [hr.threaded.carved_eq]
    exact p.lt_of_mem_free hi
  · intro v h hsome
    rcases GenerationalSlab.insert_spec hr v with ⟨-, heq⟩ | ⟨i, q, t, hq, heq, -, -⟩
    · rw [heq] at hsome
      cases hsome
    · rw [heq] at hsome
      cases hsome
      exact ⟨Pool.alloc_lt hq, hr.vacant i (Pool.alloc_not_mem hq)⟩

/-- Two insertions, a `remove` with a handle that is stale and one with a handle that resolves. -/
theorem generational_remove_none_iff_slab2 :
    ∃ s, Machine.run (stepAny u32) (init slab2)
        [.insert false, .remove ⟨1, 5⟩, .insert true, .remove ⟨0, 0⟩] = some s ∧
      s.slab.freeHead = some 0 ∧
      ∃ free : List Nat, Chain s.nextFree? s.slab.freeHead free ∧ free.Nodup := by
  have hhead : (Machine.run (stepAny u32) (init slab2)
      [.insert false, .remove ⟨1, 5⟩, .insert true, .remove ⟨0, 0⟩]).map
        (fun s => s.slab.freeHead) = some (some 0) := rfl
  obtain ⟨s, hrun, hs⟩ := Option.map_eq_some_iff.mp hhead
  have hspares : Machine.StepsSatisfy (stepAny u32) Spares (init slab2)
      [.insert false, .remove ⟨1, 5⟩, .insert true, .remove ⟨0, 0⟩] := by
    refine ⟨(fun h heq => nomatch heq), fun t ht => ?_⟩
    cases ht
    refine ⟨fun h heq hv => ?_, fun t ht => ?_⟩
    · cases heq
      exact absurd hv.2.1 (by decide)
    cases ht
    refine ⟨(fun h heq => nomatch heq), fun t ht => ?_⟩
    cases ht
    refine ⟨fun h heq hv => ?_, fun t ht => trivial⟩
    cases heq
    obtain ⟨-, -, nextFree, hstate⟩ := hv
    nomatch hstate
  have hnew : GenerationalSlab.withGeneration (BumpArena.allocator 64 region)
      (BumpArena.range region) slotType 2 ⟨⟨(), 64, 0⟩, fun _ => 0⟩ = some slab2 := rfl
  obtain ⟨-, ⟨free, hchain, hnodup, -⟩, -⟩ := generational_remove_none_iff hnew hspares hrun
  exact ⟨s, hrun, hs, free, hchain, hnodup⟩

/-! ## Runs with issued handles -/

/-- The generations of the handles issued for a slot are below the one it has while it is free,
and at most the one it has while it is live; the value of a live slot is the one issued. -/
structure Inv (G : GenerationInt) (s : GenRun w α β) (p : Pool n) : Prop where
  refines : s.slab.Refines G p
  retired_eq : s.retired = p.retired
  issued_lt : ∀ h, (s.issued h).isSome → h.index < p.carved
  issued_live : ∀ h, (s.issued h).isSome → h.index ∈ p.live →
    h.generation ≤ (s.slab.slots h.index).generation
  issued_free : ∀ h, (s.issued h).isSome → h.index ∈ p.free →
    h.generation < (s.slab.slots h.index).generation
  current : ∀ i ∈ p.live, ∀ v, (s.slab.slots i).state = .occupied v →
    s.issued ⟨i, (s.slab.slots i).generation⟩ = some v

/-- A handle that resolves gives the value it was issued for. -/
theorem Inv.issued_of_resolves (hi : Inv G s p) {h : Handle} {v : α}
    (hres : s.slab.Resolves h v) : s.issued h = some v := by
  have hcur := hi.current h.index (hi.refines.mem_live_of_resolves hres) v hres.2.2
  rwa [hres.2.1] at hcur

/-- A slot about to be issued has a generation under which it was never issued. -/
theorem Inv.fresh (hi : Inv G s p) {i : Nat} {q : Pool n} (hq : p.alloc = some (i, q))
    {h : Handle} (hissued : (s.issued h).isSome) (hindex : h.index = i) :
    h.generation < (s.slab.slots i).generation := by
  rcases (Pool.alloc_cases hq).2.2 with ⟨hfree, -⟩ | ⟨-, -, hcarved, -, -⟩
  · subst hindex
    exact hi.issued_free h hissued (by rw [hfree]; exact List.mem_cons_self)
  · have := hi.issued_lt h hissued
    omega

theorem Inv.insert (hi : Inv G s p) (v : α) :
    ∃ q : Pool n, Inv G (s.act G (.insert v)) q := by
  rcases GenerationalSlab.insert_spec hi.refines v with
    ⟨-, heq⟩ | ⟨i, q, slab, hq, heq, hr, hslots⟩
  · exact ⟨p, by simp only [act, heq]; exact hi⟩
  · refine ⟨q, ?_⟩
    simp only [act, heq]
    obtain ⟨hlive, hretired, hfree⟩ := Pool.alloc_cases hq
    have hframe : ∀ j, j ≠ i → slab.slots j = s.slab.slots j := by
      intro j hne
      rw [hslots, Function.update_of_ne hne]
    have hself : slab.slots i = ⟨(s.slab.slots i).generation, .occupied v⟩ := by
      rw [hslots, Function.update_self]
    have hnotfree : i ∉ q.free := q.not_mem_free_of_mem_live (hlive ▸ List.mem_cons_self)
    have hsub : ∀ j ∈ q.free, j ∈ p.free := by
      intro j hj
      rcases hfree with ⟨hpf, -⟩ | ⟨-, hqf, -⟩
      · rw [hpf]
        exact List.mem_cons_of_mem _ hj
      · rw [hqf] at hj
        cases hj
    have hcarved : p.carved ≤ q.carved := by
      rcases hfree with ⟨-, hc⟩ | ⟨-, -, -, hc, -⟩ <;> omega
    -- a handle issued in the new state is the new one or was issued before
    have hissued : ∀ h : Handle,
        (Function.update s.issued ⟨i, (s.slab.slots i).generation⟩ (some v) h).isSome →
          h = ⟨i, (s.slab.slots i).generation⟩ ∨ (s.issued h).isSome := by
      intro h hh
      by_cases hnew : h = ⟨i, (s.slab.slots i).generation⟩
      · exact Or.inl hnew
      · rw [Function.update_of_ne hnew] at hh
        exact Or.inr hh
    refine ⟨hr, by rw [hretired]; exact hi.retired_eq, fun h hh => ?_, fun h hh hmem => ?_,
      fun h hh hmem => ?_, fun j hj u hu => ?_⟩
    · rcases hissued h hh with rfl | hold
      · exact q.lt_of_mem_live (hlive ▸ List.mem_cons_self)
      · exact (hi.issued_lt h hold).trans_le hcarved
    · rcases hissued h hh with rfl | hold
      · rw [hself]
      · by_cases hindex : h.index = i
        · rw [hindex, hself]
          exact le_of_lt (hi.fresh hq hold hindex)
        · rw [hframe _ hindex]
          rw [hlive, List.mem_cons] at hmem
          exact hi.issued_live h hold (hmem.resolve_left hindex)
    · have hindex : h.index ≠ i := fun heq => hnotfree (heq ▸ hmem)
      rcases hissued h hh with rfl | hold
      · exact absurd rfl hindex
      · rw [hframe _ hindex]
        exact hi.issued_free h hold (hsub _ hmem)
    · by_cases hindex : j = i
      · subst hindex
        rw [hself] at hu ⊢
        cases hu
        exact Function.update_self _ _ _
      · rw [hframe j hindex] at hu ⊢
        rw [hlive, List.mem_cons] at hj
        have hne : (⟨j, (s.slab.slots j).generation⟩ : Handle)
            ≠ ⟨i, (s.slab.slots i).generation⟩ := fun heq => hindex (congrArg Handle.index heq)
        show Function.update s.issued _ (some v) _ = some u
        rw [Function.update_of_ne hne]
        exact hi.current j (hj.resolve_left hindex) u hu

theorem Inv.getMut (hi : Inv G s p) (h : Handle) (f : α → α) :
    Inv G (s.act G (.getMut h f)) p := by
  rcases getMut_eq h f s.slab with ⟨v, hres, heq⟩ | heq
  · simp only [act, heq]
    have hmem := hi.refines.mem_live_of_resolves hres
    have hgen := hres.2.1
    have hslot : ∀ j, ((s.slab.setSlot h.index
        ⟨(s.slab.slots h.index).generation, .occupied (f v)⟩).slots j).generation =
          (s.slab.slots j).generation := by
      intro j
      by_cases hj : j = h.index
      · simp [GenerationalSlab.setSlot, hj]
      · simp only [GenerationalSlab.setSlot, Function.update_of_ne hj]
    have hissued : ∀ k, (Function.update s.issued h (some (f v)) k).isSome →
        (s.issued k).isSome := by
      intro k hk
      by_cases hkh : k = h
      · rw [hkh, hi.issued_of_resolves hres]
        rfl
      · rwa [Function.update_of_ne hkh] at hk
    refine ⟨GenerationalSlab.setSlot_occupied_refines hi.refines hmem (f v), hi.retired_eq,
      fun k hk => hi.issued_lt k (hissued k hk), fun k hk hl => ?_, fun k hk hl => ?_,
      fun j hj u hu => ?_⟩
    · rw [hslot]
      exact hi.issued_live k (hissued k hk) hl
    · rw [hslot]
      exact hi.issued_free k (hissued k hk) hl
    · simp only [hslot]
      by_cases hindex : j = h.index
      · subst hindex
        simp only [GenerationalSlab.setSlot, Function.update_self] at hu
        cases hu
        rw [hgen]
        exact Function.update_self _ _ _
      · have hne : (⟨j, (s.slab.slots j).generation⟩ : Handle) ≠ h :=
          fun heq => hindex (congrArg Handle.index heq)
        simp only [GenerationalSlab.setSlot, Function.update_of_ne hindex] at hu
        rw [Function.update_of_ne hne]
        exact hi.current j hj u hu
  · simp only [act, heq]
    exact hi

theorem Inv.remove (hi : Inv G s p) (h : Handle) (hspares : ¬ s.slab.Vacant h) :
    ∃ q : Pool n, Inv G (s.act G (.remove h)) q := by
  rcases GenerationalSlab.handle_cases s.slab h with hstale | ⟨v, hres⟩ | hvacant
  · exact ⟨p, by simp only [act, GenerationalSlab.remove_of_stale hstale]; exact hi⟩
  · have hmem := hi.refines.mem_live_of_resolves hres
    have hremoved := GenerationalSlab.removed_refines hi.refines hres hmem
    obtain ⟨nextFree, hslots⟩ := GenerationalSlab.removed_slots (G := G) s.slab h.index
    have hframe : ∀ j, j ≠ h.index →
        (s.slab.removed G h.index).slots j = s.slab.slots j := by
      intro j hne
      rw [hslots, Function.update_of_ne hne]
    have hself : ((s.slab.removed G h.index).slots h.index).generation
        = G.wrappingInc h.generation := by
      rw [hslots, Function.update_self, hres.2.1]
    have hlive : ∀ k, (s.issued k).isSome → k.index ∈ p.live.erase h.index →
        k.generation ≤ ((s.slab.removed G h.index).slots k.index).generation := by
      intro k hk hl
      obtain ⟨hne, hl'⟩ := (p.nodup_live.mem_erase_iff).mp hl
      rw [hframe _ hne]
      exact hi.issued_live k hk hl'
    have hfree : ∀ k, (s.issued k).isSome → k.index ∈ p.free →
        k.generation < ((s.slab.removed G h.index).slots k.index).generation := by
      intro k hk hf
      have hne : k.index ≠ h.index := by
        intro heq
        rw [heq] at hf
        exact p.not_mem_live_of_mem_free hf hmem
      rw [hframe _ hne]
      exact hi.issued_free k hk hf
    have hcurrent : ∀ j ∈ p.live.erase h.index, ∀ u,
        ((s.slab.removed G h.index).slots j).state = .occupied u →
          s.issued ⟨j, ((s.slab.removed G h.index).slots j).generation⟩ = some u := by
      intro j hj u hu
      obtain ⟨hne, hj'⟩ := (p.nodup_live.mem_erase_iff).mp hj
      rw [hframe j hne] at hu ⊢
      exact hi.current j hj' u hu
    simp only [act, GenerationalSlab.remove_of_resolves hres]
    by_cases hwrap : G.wrappingInc h.generation = 0
    · rw [if_pos hwrap] at hremoved ⊢
      exact ⟨p.retire h.index hmem, hremoved, congrArg (h.index :: ·) hi.retired_eq,
        hi.issued_lt, hlive, hfree, hcurrent⟩
    · rw [if_neg hwrap] at hremoved ⊢
      refine ⟨p.release h.index hmem, hremoved, hi.retired_eq, hi.issued_lt, hlive,
        fun k hk hf => ?_, hcurrent⟩
      have hcons : k.index ∈ h.index :: p.free := hf
      rcases List.mem_cons.mp hcons with heq | hf
      · -- the freed slot has advanced past every generation it was issued under
        have hlt : h.generation < 2 ^ G.bits := by
          have := hi.refines.gen_lt h.index
          rwa [hres.2.1] at this
        have hle := hi.issued_live k hk (by rw [heq]; exact hmem)
        rw [heq, hres.2.1] at hle
        rw [heq, hself, GenerationalSlab.wrappingInc_of_ne_zero hlt hwrap]
        omega
      · exact hfree k hk hf
  · exact absurd hvacant hspares

theorem inv_act (op : GenOp α) (hi : ∃ p : Pool n, Inv G s p) (hspares : Spares s op) :
    ∃ p : Pool n, Inv G (s.act G op) p := by
  obtain ⟨p, hi⟩ := hi
  cases op with
  | insert v => exact hi.insert v
  | get h => exact ⟨p, hi⟩
  | getMut h f => exact ⟨p, hi.getMut h f⟩
  | remove h => exact hi.remove h (hspares h rfl)
  | contains h => exact ⟨p, hi⟩

theorem act_of_step {op : GenOp α} (hstep : step G s op = some s') : s' = s.act G op := by
  unfold step at hstep
  split at hstep
  · exact (Option.some.inj hstep).symm
  · split at hstep
    · exact (Option.some.inj hstep).symm
    · cases hstep

theorem inv_init {slab : GenerationalSlab w α β} (hr : slab.Refines G (Pool.empty n)) :
    Inv G (init slab) (Pool.empty n) :=
  ⟨hr, rfl, fun _ h => absurd h Bool.false_ne_true, fun _ h => absurd h Bool.false_ne_true,
    fun _ h => absurd h Bool.false_ne_true, fun _ h => absurd h (List.not_mem_nil)⟩

theorem inv_run {slab : GenerationalSlab w α β} (hr : slab.Refines G (Pool.empty n))
    {ops : List (GenOp α)} (hspares : Machine.StepsSatisfy (step G) Spares (init slab) ops)
    (hrun : Machine.run (step G) (init slab) ops = some s) : ∃ p : Pool n, Inv G s p := by
  refine Machine.run_invariant_of_stepsSatisfy
    (P := fun u : GenRun w α β => ∃ p : Pool n, Inv G u p)
    (fun u op u' hu hop hstep => ?_) ⟨_, inv_init hr⟩ hspares hrun
  rw [act_of_step hstep]
  exact inv_act op hu hop

/-- **Handles are safe in every run that spares vacant slots.** In every state of a run that uses
issued handles only, however stale, and never removes through one that names a vacant slot of its
own generation: a handle resolves to nothing but the value it was issued for, through `get`,
`get_mut`, `contains` and `remove`; `insert` returns a handle never issued before, for a slot
that was not retired. -/
theorem generational_run_correct {A : Allocator w β} {R : FixedRange β} {S : RustType w}
    {g : Heap β} {slab : GenerationalSlab w α β}
    (hnew : GenerationalSlab.withGeneration A R S n g = some slab) {ops : List (GenOp α)}
    (hspares : Machine.StepsSatisfy (step G) Spares (init slab) ops)
    (hrun : Machine.run (step G) (init slab) ops = some s) :
    (∀ h v, s.slab.get h = some v → s.issued h = some v) ∧
      (∀ h f v, (s.slab.getMut h f).1 = some v → s.issued h = some v) ∧
      (∀ h, s.slab.contains h = true → ∃ v, s.slab.get h = some v ∧ s.issued h = some v) ∧
      (∀ h v, (s.slab.remove G h).1 = some v → s.issued h = some v) ∧
      ∀ v h, (s.slab.insert v).1 = some h → s.issued h = none ∧ h.index ∉ s.retired := by
  obtain ⟨p, hi⟩ := inv_run (GenerationalSlab.withGeneration_refines hnew).1 hspares hrun
  have hget : ∀ h v, s.slab.get h = some v → s.issued h = some v :=
    fun h v hv => hi.issued_of_resolves (GenerationalSlab.get_eq_some_iff.mp hv)
  refine ⟨hget, fun h f v hv => ?_, fun h hc => ?_, fun h v hv => ?_, fun v h hv => ?_⟩
  · rcases getMut_eq h f s.slab with ⟨u, hres, heq⟩ | heq
    · rw [heq] at hv
      cases hv
      exact hi.issued_of_resolves hres
    · rw [heq] at hv
      cases hv
  · obtain ⟨v, hv⟩ := Option.isSome_iff_exists.mp hc
    exact ⟨v, hv, hget h v hv⟩
  · rcases GenerationalSlab.handle_cases s.slab h with hstale | ⟨u, hres⟩ | hvacant
    · rw [GenerationalSlab.remove_of_stale hstale] at hv
      cases hv
    · rw [GenerationalSlab.remove_of_resolves hres] at hv
      cases hv
      exact hi.issued_of_resolves hres
    · rw [GenerationalSlab.remove_of_vacant hvacant] at hv
      cases hv
  · rcases GenerationalSlab.insert_spec hi.refines v with ⟨-, heq⟩ | ⟨i, q, t, hq, heq, -, -⟩
    · rw [heq] at hv
      cases hv
    · rw [heq] at hv
      cases hv
      refine ⟨?_, by rw [hi.retired_eq]; exact Pool.alloc_not_mem_retired hq⟩
      by_contra hne
      exact lt_irrefl _ (hi.fresh hq (Option.isSome_iff_ne_none.mpr hne) rfl)

/-- Two insertions, a change, a removal, an attempt with the stale handle and one more value. -/
theorem generational_run_correct_slab2 :
    ∃ s, Machine.run (step u32) (init slab2)
        [.insert false, .insert true, .getMut ⟨1, 0⟩ not, .remove ⟨0, 0⟩, .get ⟨0, 0⟩,
          .insert true] = some s ∧
      s.issued ⟨1, 0⟩ = some false ∧ s.issued ⟨0, 1⟩ = some true ∧
      ∀ h v, s.slab.get h = some v → s.issued h = some v := by
  have hissued : (Machine.run (step u32) (init slab2)
      [.insert false, .insert true, .getMut ⟨1, 0⟩ not, .remove ⟨0, 0⟩, .get ⟨0, 0⟩,
        .insert true]).map (fun s => (s.issued ⟨1, 0⟩, s.issued ⟨0, 1⟩)) =
        some (some false, some true) := rfl
  obtain ⟨s, hrun, hs⟩ := Option.map_eq_some_iff.mp hissued
  have hspares : Machine.StepsSatisfy (step u32) Spares (init slab2)
      [.insert false, .insert true, .getMut ⟨1, 0⟩ not, .remove ⟨0, 0⟩, .get ⟨0, 0⟩,
        .insert true] := by
    refine ⟨(fun h heq => nomatch heq), fun t ht => ?_⟩
    cases ht
    refine ⟨(fun h heq => nomatch heq), fun t ht => ?_⟩
    cases ht
    refine ⟨(fun h heq => nomatch heq), fun t ht => ?_⟩
    cases ht
    refine ⟨fun h heq hv => ?_, fun t ht => ?_⟩
    · cases heq
      obtain ⟨-, -, nextFree, hstate⟩ := hv
      nomatch hstate
    cases ht
    refine ⟨(fun h heq => nomatch heq), fun t ht => ?_⟩
    cases ht
    exact ⟨(fun h heq => nomatch heq), fun t ht => trivial⟩
  have hnew : GenerationalSlab.withGeneration (BumpArena.allocator 64 region)
      (BumpArena.range region) slotType 2 ⟨⟨(), 64, 0⟩, fun _ => 0⟩ = some slab2 := rfl
  have hcorrect := generational_run_correct hnew hspares hrun
  exact ⟨s, hrun, congrArg Prod.fst hs, congrArg Prod.snd hs, hcorrect.1⟩

/-! ## A retired slot that comes back

One slot, filled and emptied until its counter wraps. -/

/-- Fill the slot 0 and empty it through the handle of generation `j`. -/
def cycle (j : Nat) : List (GenOp Bool) := [.insert false, .remove ⟨0, j⟩]

def cycles (k : Nat) : List (GenOp Bool) := (List.range k).flatMap cycle

/-- The slot 0 has been filled and emptied `k` times: its state is `slot`, and every handle of
these cycles was issued for the value `false`. -/
structure Cycled (k : Nat) (slot : GenerationalSlot Bool) (s : GenRun w Bool β) : Prop where
  capacity_eq : s.slab.capacity = 1
  slot_eq : s.slab.slots 0 = slot
  issued : ∀ j < k, s.issued ⟨0, j⟩ = some false

/-- The slot 0 is ready to be filled: on the freelist with an empty tail, or the next to carve. -/
def Ready (s : GenRun w Bool β) : Prop :=
  (s.slab.freeHead = none ∧ s.slab.len = 0) ∨ (s.slab.freeHead = some 0 ∧ s.slab.len = 1)

theorem insert_ready {k g : Nat} {s : GenRun w Bool β} (hc : Cycled k ⟨g, .free none⟩ s)
    (hr : Ready s) (v : Bool) :
    ∃ slab : GenerationalSlab w Bool β, s.slab.insert v = (some ⟨0, g⟩, slab) ∧
      slab.capacity = 1 ∧ slab.freeHead = none ∧ slab.len = 1 ∧
      slab.slots 0 = ⟨g, .occupied v⟩ := by
  have hcap := hc.capacity_eq
  have hslot := hc.slot_eq
  rcases hr with ⟨hhead, hlen⟩ | ⟨hhead, hlen⟩
  · refine ⟨{ s.slab with len := s.slab.len + 1 }.setSlot 0 ⟨g, .occupied v⟩, ?_, hcap, hhead,
      congrArg (· + 1) hlen, ?_⟩
    · have hroom : ¬ s.slab.capacity ≤ s.slab.len := by omega
      simp only [GenerationalSlab.insert, hhead, if_neg hroom]
      rw [hlen, hslot]
    · simp [GenerationalSlab.setSlot]
  · refine ⟨{ s.slab with freeHead := none }.setSlot 0 ⟨g, .occupied v⟩, ?_, hcap, rfl, hlen, ?_⟩
    · have hin : ¬ s.slab.capacity ≤ 0 := by omega
      simp only [GenerationalSlab.insert, hhead, if_neg hin, hslot]
    · simp [GenerationalSlab.setSlot]

theorem Cycled.issued_succ {k : Nat} {slot : GenerationalSlot Bool} {s : GenRun w Bool β}
    (hc : Cycled k slot s) : ∀ j < k + 1,
    Function.update s.issued ⟨0, k⟩ (some false) ⟨0, j⟩ = some false := by
  intro j hj
  by_cases hjk : j = k
  · rw [hjk, Function.update_self]
  · have hne : (⟨0, j⟩ : Handle) ≠ ⟨0, k⟩ := fun heq => hjk (congrArg Handle.generation heq)
    rw [Function.update_of_ne hne]
    exact hc.issued j (by omega)

/-- One cycle short of the wrap leads to the next generation. -/
theorem run_cycle {k : Nat} {s : GenRun w Bool β} (hk : G.wrappingInc k = k + 1)
    (hc : Cycled k ⟨k, .free none⟩ s) (hr : Ready s) :
    ∃ t, Machine.run (step G) s (cycle k) = some t ∧ Cycled (k + 1) ⟨k + 1, .free none⟩ t ∧
      Ready t := by
  obtain ⟨slab, hinsert, hcap, hhead, hlen, hslot⟩ := insert_ready hc hr false
  have hres : slab.Resolves ⟨0, k⟩ false :=
    ⟨by rw [hcap]; exact Nat.one_pos, by rw [hslot], by rw [hslot]⟩
  have hgen : (slab.slots 0).generation = k := by rw [hslot]
  have hremoved : slab.removed G 0 = { slab with freeHead := some 0 }.setSlot 0
      ⟨k + 1, .free none⟩ := by
    rw [GenerationalSlab.removed_of_not_wrap (by rw [hgen, hk]; omega), hgen, hk, hhead]
  refine ⟨⟨slab.removed G 0, Function.update s.issued ⟨0, k⟩ (some false), s.retired⟩, ?_,
    ⟨?_, ?_, ?_⟩, ?_⟩
  · simp only [cycle, Machine.run_cons, Machine.run_nil, step, handle?, act, hinsert,
      Option.bind_some, Function.update_self, Option.isSome_some, if_true,
      GenerationalSlab.remove_of_resolves hres, hk]
    simp
  · rw [hremoved]
    exact hcap
  · rw [hremoved]
    simp [GenerationalSlab.setSlot]
  · exact hc.issued_succ
  · right
    rw [hremoved]
    exact ⟨rfl, hlen⟩

theorem run_cycles {slab : GenerationalSlab w Bool β} (hcap : slab.capacity = 1)
    (hhead : slab.freeHead = none) (hlen : slab.len = 0)
    (hslot : slab.slots 0 = ⟨0, .free none⟩) :
    ∀ k < 2 ^ G.bits, ∃ s, Machine.run (step G) (init slab) (cycles k) = some s ∧
      Cycled k ⟨k, .free none⟩ s ∧ Ready s := by
  intro k
  induction k with
  | zero =>
      intro _
      exact ⟨init slab, rfl, ⟨hcap, hslot, fun j hj => by omega⟩, Or.inl ⟨hhead, hlen⟩⟩
  | succ k ih =>
      intro hk
      obtain ⟨s, hrun, hc, hr⟩ := ih (by omega)
      have hinc : G.wrappingInc k = k + 1 := wrappingAdd_of_lt hk
      obtain ⟨t, hcycle, hc', hr'⟩ := run_cycle hinc hc hr
      refine ⟨t, ?_, hc', hr'⟩
      have hcycles : cycles (k + 1) = cycles k ++ cycle k := by
        simp [cycles, List.range_succ]
      rw [hcycles, Machine.run_append, hrun]
      exact hcycle

/-- After the cycle in which the counter wraps the slot is retired; one more `remove` through the
handle of the first cycle puts it back, at generation one. -/
theorem run_wrapped (hbits : 1 < G.bits) {slab : GenerationalSlab w Bool β}
    (hcap : slab.capacity = 1) (hhead : slab.freeHead = none) (hlen : slab.len = 0)
    (hslot : slab.slots 0 = ⟨0, .free none⟩) :
    ∃ s, Machine.run (step G) (init slab) (cycles (2 ^ G.bits) ++ [.remove ⟨0, 0⟩]) = some s ∧
      Cycled (2 ^ G.bits) ⟨1, .free none⟩ s ∧ Ready s ∧ 0 ∈ s.retired := by
  have htwo : 2 ^ 1 < 2 ^ G.bits := Nat.pow_lt_pow_right (by decide) hbits
  obtain ⟨k, hk⟩ : ∃ k, 2 ^ G.bits = k + 1 := ⟨2 ^ G.bits - 1, by omega⟩
  obtain ⟨s, hrun, hc, hr⟩ := run_cycles (G := G) hcap hhead hlen hslot k (by omega)
  obtain ⟨slab', hinsert, hcap', hhead', hlen', hslot'⟩ := insert_ready hc hr false
  have hgen : (slab'.slots 0).generation = k := by rw [hslot']
  have hwrap : G.wrappingInc k = 0 := by
    rw [GenerationInt.wrappingInc, wrappingAdd, ← hk, Nat.mod_self]
  have hres : slab'.Resolves ⟨0, k⟩ false :=
    ⟨by rw [hcap']; exact Nat.one_pos, by rw [hslot'], by rw [hslot']⟩
  -- the slot is retired: generation zero, off the freelist
  have hretire : slab'.removed G 0 = slab'.setSlot 0 ⟨0, .free none⟩ := by
    rw [GenerationalSlab.removed_of_wrap (by rw [hgen, hwrap]), hgen, hwrap]
  have hvacant : (slab'.setSlot 0 ⟨0, .free none⟩).Vacant ⟨0, 0⟩ :=
    ⟨by simp [GenerationalSlab.setSlot, hcap'], by simp [GenerationalSlab.setSlot],
      none, by simp [GenerationalSlab.setSlot]⟩
  have hone : G.wrappingInc 0 = 1 := wrappingAdd_of_lt (by omega)
  have hback : (slab'.setSlot 0 ⟨0, .free none⟩).removed G 0 =
      { slab'.setSlot 0 ⟨0, .free none⟩ with freeHead := some 0 }.setSlot 0 ⟨1, .free none⟩ := by
    have hzero : ((slab'.setSlot 0 ⟨0, .free none⟩).slots 0).generation = 0 := by
      simp [GenerationalSlab.setSlot]
    rw [GenerationalSlab.removed_of_not_wrap (by rw [hzero, hone]; decide), hzero, hone]
    simp [GenerationalSlab.setSlot, hhead']
  have hcycles : cycles (2 ^ G.bits) = cycles k ++ cycle k := by
    rw [hk]
    simp [cycles, List.range_succ]
  have hissued : ∀ j < 2 ^ G.bits,
      Function.update s.issued ⟨0, k⟩ (some false) ⟨0, j⟩ = some false := by
    rw [hk]
    exact hc.issued_succ
  refine ⟨⟨(slab'.setSlot 0 ⟨0, .free none⟩).removed G 0,
    Function.update s.issued ⟨0, k⟩ (some false), 0 :: s.retired⟩, ?_, ⟨?_, ?_, hissued⟩, ?_,
    List.mem_cons_self⟩
  · rw [hcycles, List.append_assoc, Machine.run_append, hrun]
    simp only [cycle, List.cons_append, List.nil_append, Option.bind_some, Machine.run_cons,
      Machine.run_nil, step, handle?, act, hinsert, Function.update_self, Option.isSome_some,
      if_true, GenerationalSlab.remove_of_resolves hres, hwrap, hretire,
      GenerationalSlab.remove_of_vacant hvacant, hissued 0 (by omega)]
  · rw [hback]
    exact hcap'
  · rw [hback]
    simp [GenerationalSlab.setSlot]
  · right
    rw [hback]
    exact ⟨rfl, hlen'⟩

/-- **A retired slot is issued again.** The slot 0 has been filled with `false` and emptied
`2 ^ 32` times, which retires it, and its first handle is removed once more. The next `insert`
returns a handle for it that was issued before, for `false`, and that handle then gives `true`. -/
theorem retired_slot_reissued : fresh 1 = some slab1 ∧
    ∃ s : GenRun 64 Bool (BumpArena Unit),
      Machine.run (step u32) (init slab1) (cycles (2 ^ u32.bits) ++ [.remove ⟨0, 0⟩]) = some s ∧
        0 ∈ s.retired ∧ s.issued ⟨0, 1⟩ = some false ∧
        (s.slab.insert true).1 = some ⟨0, 1⟩ ∧
        (s.slab.insert true).2.get ⟨0, 1⟩ = some true := by
  refine ⟨rfl, ?_⟩
  have hwrapped : ∃ s : GenRun 64 Bool (BumpArena Unit),
      Machine.run (step u32) (init slab1) (cycles (2 ^ u32.bits) ++ [.remove ⟨0, 0⟩]) = some s ∧
        Cycled (2 ^ u32.bits) ⟨1, .free none⟩ s ∧ Ready s ∧ 0 ∈ s.retired :=
    run_wrapped (by decide) rfl rfl rfl rfl
  obtain ⟨s, hrun, hc, hr, hretired⟩ := hwrapped
  obtain ⟨slab, hinsert, hcap, -, -, hslot⟩ := insert_ready hc hr true
  have hlt : 1 < 2 ^ u32.bits := Nat.one_lt_two_pow (by decide)
  refine ⟨s, hrun, hretired, hc.issued 1 hlt, by rw [hinsert], ?_⟩
  rw [hinsert, GenerationalSlab.get_eq_some_iff]
  exact ⟨by rw [hcap]; exact Nat.one_pos, by rw [hslot], by rw [hslot]⟩

/-- **A failed `remove` that corrupts the slab.** One value is in the slab and the slot 1 is not
carved; a `remove` with the handle of generation zero that another slab issued for its own slot 1
answers `None`, but puts the slot on the freelist. The next value is inserted there, the one after
it overwrites that value, and both have the same handle. -/
theorem remove_none_corrupts : fresh 2 = some slab2 ∧
    let s := (slab2.insert false).2
    let t := (s.remove u32 ⟨1, 0⟩).2
    let u := (t.insert true).2
    (s.remove u32 ⟨1, 0⟩).1 = none ∧
      s.len = 1 ∧ s.freeHead = none ∧ t.freeHead = some 1 ∧ (t.slots 1).generation = 1 ∧
      (t.insert true).1 = some ⟨1, 1⟩ ∧ u.get ⟨1, 1⟩ = some true ∧
      (u.insert false).1 = some ⟨1, 1⟩ ∧ (u.insert false).2.get ⟨1, 1⟩ = some false :=
  ⟨rfl, rfl, rfl, rfl, rfl, rfl, rfl, rfl, rfl, rfl⟩

end GenRun

end ForgeAlloc
