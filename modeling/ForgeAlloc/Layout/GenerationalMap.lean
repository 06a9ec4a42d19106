import ForgeAlloc.Layout.GenerationalRun
import ForgeAlloc.Library.Custody

set_option autoImplicit false

/-! # A `GenerationalSlab` is a finite map

The state of a run is that of `GenRun` with the `Custody` that the run should amount to. The
custody follows the operations by itself: of the slab it uses only the handle that an insertion
returns, as the key.

While no slot is removed as often as its counter has values, no counter wraps, and the slab gives
for every handle what the custody holds for it (`generational_map_correct`). The generation of a
slot is then the number of times it was removed.
-/

namespace ForgeAlloc

open MachineInt SlotPool Linked

structure GenMap (w : Nat) (α β : Type) where
  run : GenRun w α β
  held : Custody Handle α

namespace GenMap

variable {w : Nat} {α β : Type} {G : GenerationInt}

def init (slab : GenerationalSlab w α β) : GenMap w α β := ⟨GenRun.init slab, Custody.empty⟩

/-- What an operation should do to the values held. -/
def hold (s : GenMap w α β) : GenOp α → Custody Handle α
  | .insert v =>
      match (s.run.slab.insert v).1 with
      | none => s.held
      | some h => s.held.put h v
  | .get _ => s.held
  | .getMut h f => s.held.change h f
  | .remove h => s.held.take h
  | .contains _ => s.held

def step (G : GenerationInt) (s : GenMap w α β) (op : GenOp α) : Option (GenMap w α β) :=
  (GenRun.step G s.run op).map fun run => ⟨run, s.hold op⟩

/-- How often a value was removed from the slot `i`. -/
def removals (s : GenMap w α β) (i : Nat) : Nat := s.held.returned.countP (·.1.index = i)

/-- The values that `drop` would drop, under their handles. -/
def dropped (A : Allocator w β) (R : FixedRange β) (S : RustType w) (s : GenMap w α β)
    (m : ByteMemory.Mem) : List (Handle × α) :=
  (GenerationalSlab.drop A R S ⟨s.run.slab, m⟩).1.map fun e =>
    (⟨e.1, (s.run.slab.slots e.1).generation⟩, e.2)

variable {s s' : GenMap w α β} {n : Nat} {p : Pool n}

/-! ## What resolves after an operation -/

section

variable {slab slab' : GenerationalSlab w α β} {i : Nat} {slot : GenerationalSlot α} {h : Handle}

theorem occupied_eq_iff {u v : α} :
    (SlotState.occupied u : SlotState α) = .occupied v ↔ some u = some v := by
  constructor <;> (rintro ⟨⟩; rfl)

/-- A map that gives the handles that resolve still does so when one slot is overwritten and the
map is updated at the handle of the slot's generation. -/
theorem live_update_iff {live : Handle → Option α} (slot : GenerationalSlot α)
    (hlive : ∀ k v, live k = some v ↔ slab.Resolves k v) (hcap : slab'.capacity = slab.capacity)
    (hslots : slab'.slots = Function.update slab.slots h.index slot)
    (hlt : h.index < slab.capacity) (hgen : (slab.slots h.index).generation = h.generation)
    {x : Option α} (hx : ∀ v, slot.state = .occupied v ↔ x = some v)
    (hslot : ∀ v, slot.state = .occupied v → slot.generation = h.generation) (k : Handle) (v : α) :
    Function.update live h x k = some v ↔ slab'.Resolves k v := by
  unfold GenerationalSlab.Resolves
  rw [hcap, hslots]
  by_cases hk : k = h
  · subst hk
    rw [Function.update_self, Function.update_self, ← hx]
    exact ⟨fun hv => ⟨hlt, hslot v hv, hv⟩, fun hres => hres.2.2⟩
  · rw [Function.update_of_ne hk, hlive, GenerationalSlab.Resolves]
    by_cases hindex : k.index = h.index
    · -- a handle of another generation of the slot resolves neither before nor after
      have hne : k.generation ≠ h.generation := by
        intro hg
        cases k
        cases h
        simp only at hindex hg
        subst hindex hg
        exact hk rfl
      rw [hindex, Function.update_self, hgen]
      constructor
      · rintro ⟨-, hg, -⟩
        exact absurd hg.symm hne
      · rintro ⟨-, hg, hv⟩
        exact absurd (hg.symm.trans (hslot v hv)) hne
    · rw [Function.update_of_ne hindex]

theorem getMut_fst (f : α → α) : (slab.getMut h f).1 = slab.get h := by
  unfold GenerationalSlab.getMut GenerationalSlab.get
  split
  · rfl
  split
  · rfl
  split <;> rfl

theorem get_of_stale (hstale : slab.capacity ≤ h.index ∨
    (slab.slots h.index).generation ≠ h.generation) : slab.get h = none := by
  unfold GenerationalSlab.get
  split
  · rfl
  case isFalse hin => rw [if_pos (hstale.resolve_left hin)]

theorem remove_fst : (slab.remove G h).1 = slab.get h := by
  rcases GenerationalSlab.handle_cases slab h with hstale | ⟨v, hres⟩ | hvacant
  · rw [GenerationalSlab.remove_of_stale hstale, get_of_stale hstale]
  · rw [GenerationalSlab.remove_of_resolves hres, GenerationalSlab.get_eq_some_iff.mpr hres]
  · obtain ⟨hlt, hgen, nextFree, hstate⟩ := hvacant
    rw [GenerationalSlab.remove_of_vacant ⟨hlt, hgen, nextFree, hstate⟩, GenerationalSlab.get,
      if_neg (Nat.not_le.mpr hlt), if_neg (not_not.mpr hgen), hstate]

end

/-! ## The invariant -/

structure Inv (G : GenerationInt) (s : GenMap w α β) (p : Pool n) : Prop where
  run : GenRun.Inv G s.run p
  retired_nil : s.run.retired = []
  keys_iff : ∀ h, (s.run.issued h).isSome ↔ h ∈ s.held.keys
  live_iff : ∀ h v, s.held.live h = some v ↔ s.run.slab.Resolves h v
  counted : ∀ i, (s.run.slab.slots i).generation = s.removals i

theorem Inv.get_eq (hi : Inv G s p) (h : Handle) : s.run.slab.get h = s.held.live h := by
  refine Option.ext fun v => ?_
  rw [GenerationalSlab.get_eq_some_iff]
  exact (hi.live_iff h v).symm

/-- Without a retired slot, a handle that was issued never names a vacant slot of its own
generation: the slot has moved on since. -/
theorem Inv.not_vacant (hi : Inv G s p) {h : Handle} (hissued : (s.run.issued h).isSome) :
    ¬ s.run.slab.Vacant h := by
  rintro ⟨-, hgen, nextFree, hstate⟩
  rcases p.mem_iff.mp (hi.run.issued_lt h hissued) with hlive | hfree | hretired
  · obtain ⟨v, hv⟩ := hi.run.refines.occupied h.index hlive
    rw [hstate] at hv
    cases hv
  · have hlt := hi.run.issued_free h hissued hfree
    omega
  · rw [← hi.run.retired_eq, hi.retired_nil] at hretired
    cases hretired

theorem inv_init {slab : GenerationalSlab w α β} (hr : slab.Refines G (Pool.empty n))
    (hzero : ∀ i, (slab.slots i).generation = 0) : Inv G (init slab) (Pool.empty n) := by
  refine ⟨GenRun.inv_init hr, rfl, fun h => ?_, fun h v => ?_, fun i => hzero i⟩
  · exact ⟨fun hsome => absurd hsome Bool.false_ne_true, fun hmem => by cases hmem⟩
  · constructor
    · intro hlive
      cases hlive
    · intro hres
      -- nothing is live in a pool that is empty
      have hmem := hr.mem_live_of_resolves hres
      cases hmem

/-! ## One operation -/

theorem Inv.insert (hi : Inv G s p) (v : α) :
    ∃ q : Pool n, Inv G ⟨s.run.act G (.insert v), s.hold (.insert v)⟩ q := by
  obtain ⟨q, hq⟩ := GenRun.inv_act (.insert v) ⟨p, hi.run⟩ (fun h heq => by cases heq)
  refine ⟨q, ?_⟩
  rcases GenerationalSlab.insert_spec hi.run.refines v with
    ⟨-, heq⟩ | ⟨i, q', slab, halloc, heq, hr, hslots⟩
  · have hact : s.run.act G (.insert v) = s.run := by simp only [GenRun.act, heq]
    have hhold : s.hold (.insert v) = s.held := by simp only [hold, heq]
    rw [hact] at hq ⊢
    rw [hhold]
    exact ⟨hq, hi.retired_nil, hi.keys_iff, hi.live_iff, hi.counted⟩
  · have hact : s.run.act G (.insert v) =
        ⟨slab, Function.update s.run.issued ⟨i, (s.run.slab.slots i).generation⟩ (some v),
          s.run.retired⟩ := by
      simp only [GenRun.act, heq]
    have hhold : s.hold (.insert v) =
        s.held.put ⟨i, (s.run.slab.slots i).generation⟩ v := by
      simp only [hold, heq]
    have hfresh : (⟨i, (s.run.slab.slots i).generation⟩ : Handle) ∉ s.held.keys := by
      intro hmem
      exact lt_irrefl _ (hi.run.fresh halloc ((hi.keys_iff _).mpr hmem) rfl)
    obtain ⟨hlive, hkeys, hreturned⟩ := Custody.put_of_not_mem hfresh v
    have hcap : slab.capacity = s.run.slab.capacity :=
      hr.capacity_eq.trans hi.run.refines.capacity_eq.symm
    have hlt : i < s.run.slab.capacity := by
      rw [hi.run.refines.capacity_eq]
      exact Pool.alloc_lt halloc
    have hissued : ∀ h, (Function.update s.run.issued ⟨i, (s.run.slab.slots i).generation⟩
        (some v) h).isSome ↔
          h ∈ (s.held.put ⟨i, (s.run.slab.slots i).generation⟩ v).keys := by
      intro h
      rw [hkeys, List.mem_cons, ← hi.keys_iff]
      by_cases hh : h = ⟨i, (s.run.slab.slots i).generation⟩
      · rw [hh, Function.update_self]
        exact ⟨fun _ => Or.inl rfl, fun _ => rfl⟩
      · rw [Function.update_of_ne hh, or_iff_right hh]
    have hresolves : ∀ h u, Function.update s.held.live ⟨i, (s.run.slab.slots i).generation⟩
        (some v) h = some u ↔ slab.Resolves h u :=
      live_update_iff ⟨(s.run.slab.slots i).generation, .occupied v⟩ hi.live_iff hcap hslots hlt rfl
        (fun u => occupied_eq_iff) (fun u _ => rfl)
    have hcounted : ∀ j, (slab.slots j).generation = s.removals j := by
      intro j
      rw [hslots]
      by_cases hj : j = i
      · rw [hj, Function.update_self]
        exact hi.counted i
      · rw [Function.update_of_ne hj]
        exact hi.counted j
    rw [hact] at hq ⊢
    rw [hhold]
    refine ⟨hq, hi.retired_nil, hissued, fun h u => ?_, fun j => ?_⟩
    · rw [hlive]
      exact hresolves h u
    · rw [removals, hreturned]
      exact hcounted j

theorem Inv.getMut (hi : Inv G s p) (h : Handle) (f : α → α) :
    Inv G ⟨s.run.act G (.getMut h f), s.hold (.getMut h f)⟩ p := by
  have hrun := hi.run.getMut h f
  have hfst : (s.run.slab.getMut h f).1 = s.held.live h := (getMut_fst f).trans (hi.get_eq h)
  have hhold : s.hold (.getMut h f) = s.held.change h f := rfl
  rcases GenRun.getMut_eq h f s.run.slab with ⟨v, hres, heq⟩ | heq
  · have hact : s.run.act G (.getMut h f) = ⟨s.run.slab.setSlot h.index
        ⟨(s.run.slab.slots h.index).generation, .occupied (f v)⟩,
        Function.update s.run.issued h (some (f v)), s.run.retired⟩ := by
      simp only [GenRun.act, heq]
    rw [heq] at hfst
    obtain ⟨hlive, hkeys, hreturned⟩ := Custody.change_of_some hfst.symm f
    have hissued : ∀ k, (Function.update s.run.issued h (some (f v)) k).isSome ↔
        k ∈ (s.held.change h f).keys := by
      intro k
      rw [hkeys, ← hi.keys_iff]
      by_cases hk : k = h
      · rw [hk, Function.update_self, hi.run.issued_of_resolves hres]
        exact ⟨fun _ => rfl, fun _ => rfl⟩
      · rw [Function.update_of_ne hk]
    have hcounted : ∀ j, ((s.run.slab.setSlot h.index
        ⟨(s.run.slab.slots h.index).generation, .occupied (f v)⟩).slots j).generation =
          s.removals j := by
      intro j
      by_cases hj : j = h.index
      · rw [← hi.counted, hj]
        simp [GenerationalSlab.setSlot]
      · rw [← hi.counted]
        simp only [GenerationalSlab.setSlot, Function.update_of_ne hj]
    have hcap : (s.run.slab.setSlot h.index
        ⟨(s.run.slab.slots h.index).generation, .occupied (f v)⟩).capacity =
          s.run.slab.capacity := rfl
    have hresolves : ∀ k u, Function.update s.held.live h (some (f v)) k = some u ↔
        (s.run.slab.setSlot h.index
          ⟨(s.run.slab.slots h.index).generation, .occupied (f v)⟩).Resolves k u :=
      live_update_iff ⟨(s.run.slab.slots h.index).generation, .occupied (f v)⟩ hi.live_iff hcap
        rfl hres.1 hres.2.1 (fun u => occupied_eq_iff) (fun u _ => hres.2.1)
    rw [hact] at hrun ⊢
    rw [hhold]
    refine ⟨hrun, hi.retired_nil, hissued, fun k u => ?_, fun j => ?_⟩
    · rw [hlive]
      exact hresolves k u
    · rw [removals, hreturned]
      exact hcounted j
  · have hact : s.run.act G (.getMut h f) = s.run := by simp only [GenRun.act, heq]
    rw [heq] at hfst
    rw [hact] at hrun ⊢
    rw [hhold, Custody.change_of_none hfst.symm]
    exact hi

theorem removed_capacity (slab : GenerationalSlab w α β) (i : Nat) :
    (slab.removed G i).capacity = slab.capacity := by
  unfold GenerationalSlab.removed
  simp only
  split <;> rfl

/-- A value that is removed is gone, and the others stay. -/
theorem Inv.resolves_removed (hi : Inv G s p) {h : Handle} {v : α}
    (hres : s.run.slab.Resolves h v) (k : Handle) (u : α) :
    Function.update s.held.live h none k = some u ↔
      (s.run.slab.removed G h.index).Resolves k u := by
  obtain ⟨nextFree, hslots⟩ := GenerationalSlab.removed_slots (G := G) s.run.slab h.index
  exact live_update_iff ⟨_, .free nextFree⟩ hi.live_iff (removed_capacity _ _) hslots hres.1 hres.2.1
    (fun u => ⟨fun hu => (by cases hu), fun hu => (by cases hu)⟩) (fun u hu => by cases hu) k u

theorem removals_take {h : Handle} {v : α} (hlive : s.held.live h = some v) (i : Nat) :
    (s.held.take h).returned.countP (·.1.index = i) =
      s.removals i + if h.index = i then 1 else 0 := by
  rw [(Custody.take_of_some hlive).2.2, List.countP_cons]
  simp [removals]

/-- The counter of a slot that is removed from fewer times than it has values does not wrap. -/
theorem Inv.remove (hi : Inv G s p) {h : Handle} (hissued : (s.run.issued h).isSome)
    (hcount : (s.held.take h).returned.countP (·.1.index = h.index) < 2 ^ G.bits) :
    ∃ q : Pool n, Inv G ⟨s.run.act G (.remove h), s.hold (.remove h)⟩ q := by
  have hspares := hi.not_vacant hissued
  have hhold : s.hold (.remove h) = s.held.take h := rfl
  obtain ⟨q, hq⟩ := GenRun.inv_act (.remove h) ⟨p, hi.run⟩ (fun k heq => by cases heq; exact hspares)
  refine ⟨q, ?_⟩
  have hfst : (s.run.slab.remove G h).1 = s.held.live h := remove_fst.trans (hi.get_eq h)
  rcases GenerationalSlab.handle_cases s.run.slab h with hstale | ⟨v, hres⟩ | hvacant
  · have hact : s.run.act G (.remove h) = s.run := by
      simp only [GenRun.act, GenerationalSlab.remove_of_stale hstale]
    rw [GenerationalSlab.remove_of_stale hstale] at hfst
    rw [hact] at hq ⊢
    rw [hhold, Custody.take_of_none hfst.symm]
    exact ⟨hq, hi.retired_nil, hi.keys_iff, hi.live_iff, hi.counted⟩
  · rw [GenerationalSlab.remove_of_resolves hres] at hfst
    have hlive := hfst.symm
    rw [removals_take hlive, if_pos rfl, ← hi.counted, hres.2.1] at hcount
    have hinc : G.wrappingInc h.generation = h.generation + 1 := wrappingAdd_of_lt hcount
    have hact : s.run.act G (.remove h) =
        ⟨s.run.slab.removed G h.index, s.run.issued, s.run.retired⟩ := by
      have hne : G.wrappingInc h.generation ≠ 0 := by omega
      simp only [GenRun.act, GenerationalSlab.remove_of_resolves hres, if_neg hne]
    obtain ⟨nextFree, hslots⟩ := GenerationalSlab.removed_slots (G := G) s.run.slab h.index
    obtain ⟨hlive', hkeys, -⟩ := Custody.take_of_some hlive
    have hcounted : ∀ j, ((s.run.slab.removed G h.index).slots j).generation =
        (s.held.take h).returned.countP (·.1.index = j) := by
      intro j
      rw [removals_take hlive, hslots, ← hi.counted]
      by_cases hj : h.index = j
      · rw [← hj, Function.update_self, if_pos rfl, hres.2.1, hinc]
      · rw [Function.update_of_ne (Ne.symm hj), if_neg hj, Nat.add_zero]
    rw [hact] at hq ⊢
    rw [hhold]
    refine ⟨hq, hi.retired_nil, fun k => ?_, fun k u => ?_, hcounted⟩
    · rw [hkeys]
      exact hi.keys_iff k
    · rw [hlive']
      exact hi.resolves_removed hres k u
  · exact absurd hvacant hspares

/-! ## Runs -/

/-- Removals are only ever added. -/
theorem removals_le {op : GenOp α} (i : Nat) :
    s.removals i ≤ (s.hold op).returned.countP (·.1.index = i) := by
  cases op with
  | insert v =>
      simp only [hold]
      split
      · exact le_refl _
      case h_2 h _ =>
          by_cases hk : h ∈ s.held.keys
          · rw [Custody.put, dif_pos hk]
            exact le_refl _
          · rw [(Custody.put_of_not_mem hk v).2.2]
            exact le_refl _
  | get h => exact le_refl _
  | getMut h f =>
      simp only [hold]
      rcases hl : s.held.live h with _ | v
      · rw [Custody.change_of_none hl]
        exact le_refl _
      · rw [(Custody.change_of_some hl f).2.2]
        exact le_refl _
  | remove h =>
      simp only [hold]
      rcases hl : s.held.live h with _ | v
      · rw [Custody.take_of_none hl]
        exact le_refl _
      · rw [removals_take hl]
        exact Nat.le_add_right _ _
  | contains h => exact le_refl _

theorem step_eq {op : GenOp α} (hstep : step G s op = some s') :
    s' = ⟨s.run.act G op, s.hold op⟩ ∧
      ∀ h, GenRun.handle? op = some h → (s.run.issued h).isSome := by
  obtain ⟨run, hrun, rfl⟩ := Option.map_eq_some_iff.mp hstep
  rw [GenRun.act_of_step hrun]
  refine ⟨rfl, fun h hh => ?_⟩
  unfold GenRun.step at hrun
  simp only [hh] at hrun
  by_contra hnot
  rw [if_neg hnot] at hrun
  cases hrun

/-- The slots were removed from fewer times than their counters have values. -/
def Unwrapped (G : GenerationInt) (s : GenMap w α β) : Prop := ∀ i, s.removals i < 2 ^ G.bits

theorem Inv.step {op : GenOp α} (hi : Inv G s p) (hstep : step G s op = some s')
    (hcount : Unwrapped G s') : ∃ q : Pool n, Inv G s' q := by
  obtain ⟨rfl, hissued⟩ := step_eq hstep
  cases op with
  | insert v => exact hi.insert v
  | get h => exact ⟨p, hi⟩
  | getMut h f => exact ⟨p, hi.getMut h f⟩
  | remove h => exact hi.remove (hissued h rfl) (hcount h.index)
  | contains h => exact ⟨p, hi⟩

theorem inv_run {slab : GenerationalSlab w α β} (hr : slab.Refines G (Pool.empty n))
    (hzero : ∀ i, (slab.slots i).generation = 0) {ops : List (GenOp α)}
    (hrun : Machine.run (GenMap.step G) (init slab) ops = some s) (hcount : Unwrapped G s) :
    ∃ p : Pool n, Inv G s p := by
  -- the state before a step has no more removals than the state after it
  refine Machine.run_invariant (P := fun u : GenMap w α β => Unwrapped G u → ∃ p : Pool n, Inv G u p)
    (fun u op u' hu hstep hcount' => ?_) (fun _ => ⟨_, inv_init hr hzero⟩) hrun hcount
  have heq := (step_eq hstep).1
  obtain ⟨p, hp⟩ := hu fun i => (removals_le i).trans_lt (by
    have hlt := hcount' i
    rw [heq] at hlt
    exact hlt)
  exact hp.step hstep hcount'

/-! ## What the slab answers -/

theorem Inv.get_remove (hi : Inv G s p) {h : Handle} (hissued : (s.run.issued h).isSome)
    (k : Handle) : (s.run.slab.remove G h).2.get k =
      Function.update (fun k => s.run.slab.get k) h none k := by
  have hmap : (fun k => s.run.slab.get k) = s.held.live := funext hi.get_eq
  rw [hmap]
  rcases GenerationalSlab.handle_cases s.run.slab h with hstale | ⟨v, hres⟩ | hvacant
  · -- a stale handle held nothing
    have hnone : s.held.live h = none := (hi.get_eq h).symm.trans (get_of_stale hstale)
    rw [GenerationalSlab.remove_of_stale hstale, ← hnone, Function.update_eq_self]
    exact hi.get_eq k
  · rw [GenerationalSlab.remove_of_resolves hres]
    refine Option.ext fun u => ?_
    rw [GenerationalSlab.get_eq_some_iff]
    exact (hi.resolves_removed hres k u).symm
  · exact absurd hvacant (hi.not_vacant hissued)

theorem Inv.get_getMut (hi : Inv G s p) (h : Handle) (f : α → α) (k : Handle) :
    (s.run.slab.getMut h f).2.get k =
      Function.update (fun k => s.run.slab.get k) h ((s.run.slab.get h).map f) k := by
  have hmap : (fun k => s.run.slab.get k) = s.held.live := funext hi.get_eq
  have hslab : (s.run.act G (.getMut h f)).slab = (s.run.slab.getMut h f).2 := by
    simp only [GenRun.act]
    split <;> rename_i heq <;> rw [heq]
  have hnext := (hi.getMut h f).get_eq k
  rw [show (GenMap.mk (s.run.act G (.getMut h f)) (s.hold (.getMut h f))).run.slab =
    (s.run.slab.getMut h f).2 from hslab] at hnext
  rw [hnext, hmap, hi.get_eq]
  show (s.held.change h f).live k = _
  rcases hl : s.held.live h with _ | v
  · rw [Custody.change_of_none hl, Option.map_none, ← hl, Function.update_eq_self]
  · rw [(Custody.change_of_some hl f).1, Option.map_some]

theorem Inv.get_insert (hi : Inv G s p) {v : α} {h : Handle}
    (hsome : (s.run.slab.insert v).1 = some h) : h ∉ s.held.keys ∧
      ∀ k, (s.run.slab.insert v).2.get k =
        Function.update (fun k => s.run.slab.get k) h (some v) k := by
  have hmap : (fun k => s.run.slab.get k) = s.held.live := funext hi.get_eq
  rcases GenerationalSlab.insert_spec hi.run.refines v with ⟨-, heq⟩ | ⟨i, q, slab, halloc, heq, -, -⟩
  · rw [heq] at hsome
    cases hsome
  · have hfresh : h ∉ s.held.keys := by
      intro hmem
      rw [heq] at hsome
      cases hsome
      exact lt_irrefl _ (hi.run.fresh halloc ((hi.keys_iff _).mpr hmem) rfl)
    refine ⟨hfresh, fun k => ?_⟩
    obtain ⟨q', hq⟩ := hi.insert v
    have hnext := hq.get_eq k
    simp only [GenRun.act, hold, heq] at hnext hsome ⊢
    cases hsome
    rw [hnext, hmap, (Custody.put_of_not_mem hfresh v).1]

/-- An insertion succeeds as long as some slot is vacant. -/
theorem Inv.insert_isSome_iff (hi : Inv G s p) (v : α) : (s.run.slab.insert v).1.isSome ↔
    ∃ i < s.run.slab.capacity, ∃ nextFree, (s.run.slab.slots i).state = .free nextFree := by
  have hr := hi.run.refines
  have hnil : p.retired = [] := hi.run.retired_eq ▸ hi.retired_nil
  rcases GenerationalSlab.insert_spec hr v with ⟨hnone, heq⟩ | ⟨i, q, slab, halloc, heq, -, -⟩
  · rw [heq]
    refine ⟨fun hsome => absurd hsome Bool.false_ne_true, ?_⟩
    rintro ⟨i, hlt, hvacant⟩
    obtain ⟨hfree, hcarved⟩ := Pool.alloc_eq_none_iff.mp hnone
    rw [hr.capacity_eq, ← hcarved] at hlt
    have hmem := (p.mem_free_iff hnil).mpr ⟨hlt, hr.not_mem_live_iff.mpr hvacant⟩
    rw [hfree] at hmem
    cases hmem
  · rw [heq]
    refine ⟨fun _ => ⟨i, ?_, hr.vacant i (Pool.alloc_not_mem halloc)⟩, fun _ => rfl⟩
    rw [hr.capacity_eq]
    exact Pool.alloc_lt halloc

/-- The freelist: the carved slots that are vacant. -/
theorem Inv.exists_free (hi : Inv G s p) : ∃ free : List Nat,
    Chain s.run.nextFree? s.run.slab.freeHead free ∧ free.Nodup ∧
      ∀ i, i ∈ free ↔
        i < s.run.slab.len ∧ ∃ nextFree, (s.run.slab.slots i).state = .free nextFree := by
  have hr := hi.run.refines
  have hchain := hr.threaded.chain
  rw [ofLink_toLink] at hchain
  refine ⟨p.free, hchain, p.nodup_free, fun i => ?_⟩
  rw [p.mem_free_iff (hi.run.retired_eq ▸ hi.retired_nil), hr.not_mem_live_iff,
    hr.threaded.carved_eq]

/-! ## The values dropped -/

section

variable {slab : GenerationalSlab w α β}

theorem dropSlots_fst_sublist (is : List Nat) (slab : GenerationalSlab w α β) :
    ((slab.dropSlots is).1.map Prod.fst).Sublist is := by
  induction is generalizing slab with
  | nil => exact List.Sublist.refl _
  | cons i is ih =>
      simp only [GenerationalSlab.dropSlots]
      split
      · exact (ih _).cons_cons i
      · exact (ih _).cons i

/-- The loop drops each value of its slots, each once. -/
theorem mem_dropSlots {is : List Nat} (hnodup : is.Nodup) {e : Nat × α} :
    e ∈ (slab.dropSlots is).1 ↔ e.1 ∈ is ∧ (slab.slots e.1).state = .occupied e.2 := by
  induction is generalizing slab with
  | nil =>
      constructor
      · intro he
        cases he
      · rintro ⟨he, -⟩
        cases he
  | cons i is ih =>
      obtain ⟨hi, htail⟩ := List.nodup_cons.mp hnodup
      simp only [GenerationalSlab.dropSlots]
      split
      case h_1 v hstate =>
          -- the slots that follow are untouched by the one just emptied
          have hrest : (e.1 ∈ is ∧ ((slab.setSlot i ⟨(slab.slots i).generation,
              .free none⟩).slots e.1).state = .occupied e.2) ↔
                e.1 ∈ is ∧ (slab.slots e.1).state = .occupied e.2 := by
            refine and_congr_right fun hmem => ?_
            have hne : e.1 ≠ i := fun heq => hi (heq ▸ hmem)
            simp only [GenerationalSlab.setSlot, Function.update_of_ne hne]
          rw [List.mem_cons, ih htail, hrest, List.mem_cons]
          constructor
          · rintro (rfl | h)
            · exact ⟨Or.inl rfl, hstate⟩
            · exact ⟨Or.inr h.1, h.2⟩
          · rintro ⟨heq | hmem, hocc⟩
            · left
              rw [heq, hstate] at hocc
              cases hocc
              exact Prod.ext heq rfl
            · exact Or.inr ⟨hmem, hocc⟩
      case h_2 nextFree hstate =>
          rw [ih htail, List.mem_cons]
          constructor
          · rintro ⟨hmem, hocc⟩
            exact ⟨Or.inr hmem, hocc⟩
          · rintro ⟨heq | hmem, hocc⟩
            · rw [heq, hstate] at hocc
              cases hocc
            · exact ⟨hmem, hocc⟩

end

/-- The values dropped are those still held. -/
theorem Inv.dropped_spec (hi : Inv G s p) (A : Allocator w β) (R : FixedRange β) (S : RustType w)
    (m : ByteMemory.Mem) : ((s.dropped A R S m).map Prod.fst).Nodup ∧
      ∀ e : Handle × α, e ∈ s.dropped A R S m ↔ s.held.live e.1 = some e.2 := by
  have hfst : (GenerationalSlab.drop A R S ⟨s.run.slab, m⟩).1 =
      (s.run.slab.dropSlots (List.range s.run.slab.capacity)).1 := rfl
  unfold dropped
  rw [hfst]
  constructor
  · have hsub := dropSlots_fst_sublist (List.range s.run.slab.capacity) s.run.slab
    have hinj : Function.Injective fun i => (⟨i, (s.run.slab.slots i).generation⟩ : Handle) :=
      fun i j heq => congrArg Handle.index heq
    have hnodup := (hsub.nodup List.nodup_range).map hinj
    rw [List.map_map] at hnodup ⊢
    exact hnodup
  · rintro ⟨h, v⟩
    rw [hi.live_iff, List.mem_map]
    constructor
    · rintro ⟨e, he, heq⟩
      obtain ⟨hmem, hstate⟩ := (mem_dropSlots List.nodup_range).mp he
      cases heq
      exact ⟨List.mem_range.mp hmem, rfl, hstate⟩
    · rintro ⟨hlt, hgen, hstate⟩
      refine ⟨(h.index, v), (mem_dropSlots List.nodup_range).mpr ⟨List.mem_range.mpr hlt, hstate⟩, ?_⟩
      simp only [hgen]

/-! ## The result -/

/-- **The slab is a finite map.** In every state of a run that uses issued handles only, however
stale, and has removed no slot as often as its counter has values: every operation answers what
the custody of the run holds, and changes the map as it should; the freelist is acyclic, without
repetition, and holds the carved vacant slots; `insert` succeeds exactly when some slot is vacant;
and the values returned so far, with those that `drop` would drop now, are the values accepted,
each under a handle of its own. -/
theorem generational_map_correct {A : Allocator w β} {R : FixedRange β} {S : RustType w}
    {g : Heap β} {slab : GenerationalSlab w α β}
    (hnew : GenerationalSlab.withGeneration A R S n g = some slab) {ops : List (GenOp α)}
    (hrun : Machine.run (GenMap.step G) (init slab) ops = some s)
    (hcount : ∀ i, s.removals i < 2 ^ G.bits) :
    (∀ h, s.run.slab.get h = s.held.live h ∧
        s.run.slab.contains h = (s.held.live h).isSome) ∧
      (∀ h f, (s.run.slab.getMut h f).1 = s.held.live h ∧
        ∀ k, (s.run.slab.getMut h f).2.get k =
          Function.update (fun k => s.run.slab.get k) h ((s.run.slab.get h).map f) k) ∧
      (∀ h ∈ s.held.keys, (s.run.slab.remove G h).1 = s.held.live h ∧
        ∀ k, (s.run.slab.remove G h).2.get k =
          Function.update (fun k => s.run.slab.get k) h none k) ∧
      (∀ v h, (s.run.slab.insert v).1 = some h → h ∉ s.held.keys ∧
        ∀ k, (s.run.slab.insert v).2.get k =
          Function.update (fun k => s.run.slab.get k) h (some v) k) ∧
      (∀ v, (s.run.slab.insert v).1 = none → (s.run.slab.insert v).2 = s.run.slab) ∧
      (∀ v, (s.run.slab.insert v).1.isSome ↔ ∃ i < s.run.slab.capacity,
        ∃ nextFree, (s.run.slab.slots i).state = .free nextFree) ∧
      (∃ free : List Nat, Chain s.run.nextFree? s.run.slab.freeHead free ∧ free.Nodup ∧
        ∀ i, i ∈ free ↔
          i < s.run.slab.len ∧ ∃ nextFree, (s.run.slab.slots i).state = .free nextFree) ∧
      s.held.keys.Nodup ∧
      ∀ m, (s.held.returned ++ s.dropped A R S m).Perm s.held.accepted := by
  obtain ⟨-, -, -, hslots⟩ := GenerationalSlab.withGeneration_some hnew
  obtain ⟨p, hi⟩ := inv_run (GenerationalSlab.withGeneration_refines hnew).1
    (fun i => by rw [hslots]) hrun hcount
  refine ⟨fun h => ⟨hi.get_eq h, ?_⟩, fun h f => ⟨?_, hi.get_getMut h f⟩,
    fun h hmem => ⟨?_, hi.get_remove ((hi.keys_iff h).mpr hmem)⟩, fun v h => hi.get_insert,
    fun v hnone => ?_, hi.insert_isSome_iff, hi.exists_free, s.held.nodup_accepted, fun m => ?_⟩
  · rw [GenerationalSlab.contains, hi.get_eq]
  · rw [getMut_fst, hi.get_eq]
  · rw [remove_fst, hi.get_eq]
  · rcases GenerationalSlab.insert_spec hi.run.refines v with
      ⟨-, heq⟩ | ⟨i, q, slab, -, heq, -, -⟩
    · rw [heq]
    · rw [heq] at hnone
      cases hnone
  · obtain ⟨hnodup, hmem⟩ := hi.dropped_spec A R S m
    exact s.held.settle hnodup hmem

/-- Two values, one of them changed; the other is removed, tried again and replaced. One value has
been returned and two would be dropped. -/
theorem generational_map_correct_slab2 :
    ∃ s, Machine.run (step GenRun.u32) (init GenRun.slab2)
        [.insert false, .insert true, .getMut ⟨1, 0⟩ not, .remove ⟨0, 0⟩, .remove ⟨0, 0⟩,
          .insert true] = some s ∧
      s.held.returned = [(⟨0, 0⟩, false)] ∧
      s.dropped (BumpArena.allocator 64 GenRun.region) (BumpArena.range GenRun.region)
        GenRun.slotType (fun _ => 0) = [(⟨0, 1⟩, true), (⟨1, 0⟩, false)] ∧
      [((⟨0, 0⟩ : Handle), false), (⟨0, 1⟩, true), (⟨1, 0⟩, false)].Perm s.held.accepted := by
  have hout : (Machine.run (step GenRun.u32) (init GenRun.slab2)
      [.insert false, .insert true, .getMut ⟨1, 0⟩ not, .remove ⟨0, 0⟩, .remove ⟨0, 0⟩,
        .insert true]).map (fun s => (s.held.returned,
          s.dropped (BumpArena.allocator 64 GenRun.region) (BumpArena.range GenRun.region)
            GenRun.slotType (fun _ => 0))) =
        some ([(⟨0, 0⟩, false)], [(⟨0, 1⟩, true), (⟨1, 0⟩, false)]) := rfl
  obtain ⟨s, hrun, hs⟩ := Option.map_eq_some_iff.mp hout
  have hreturned : s.held.returned = [(⟨0, 0⟩, false)] := congrArg Prod.fst hs
  have hdropped : s.dropped (BumpArena.allocator 64 GenRun.region) (BumpArena.range GenRun.region)
      GenRun.slotType (fun _ => 0) = [(⟨0, 1⟩, true), (⟨1, 0⟩, false)] := congrArg Prod.snd hs
  have hnew : GenerationalSlab.withGeneration (BumpArena.allocator 64 GenRun.region)
      (BumpArena.range GenRun.region) GenRun.slotType 2 ⟨⟨(), 64, 0⟩, fun _ => 0⟩ =
        some GenRun.slab2 := rfl
  have hcount : ∀ i, s.removals i < 2 ^ GenRun.u32.bits := by
    intro i
    have htwo : 1 < 2 ^ GenRun.u32.bits := Nat.one_lt_two_pow (by decide)
    refine lt_of_le_of_lt ?_ htwo
    rw [removals, hreturned]
    exact List.countP_le_length
  have hcorrect := generational_map_correct hnew hrun hcount
  have hperm := hcorrect.2.2.2.2.2.2.2.2 (fun _ => 0)
  rw [hreturned, hdropped] at hperm
  exact ⟨s, hrun, hreturned, hdropped, hperm⟩

end GenMap

end ForgeAlloc
