import ForgeAlloc.Hardening.Quarantine
import ForgeAlloc.Library.Run
import ForgeAlloc.Backing.Inline
import ForgeAlloc.Layout.Bump
import ForgeAlloc.Layout.SlabContract

set_option autoImplicit false

/-! # Runs of a `Quarantine`

A run keeps the live blocks and the blocks freed so far, the newest first. The allocator underneath
is recorded, so that the tickets it has received are there to compare: `Delayed` says that they are
those of the frees that have `E` later ones.

The word that counts the frees wraps around. Its value modulo `E` is the number of frees modulo `E`
as long as it has not wrapped, and forever if `E` divides the number of its values
(`InStep`). In all other runs the free after the wrap takes a cell out of turn
(`Inv.deallocate_outOfStep`), so the condition is exact (`quarantine_delayed_iff`).
-/

namespace ForgeAlloc

open MachineInt ByteMemory DelayLine

/-! ## The run state -/

structure QuarantineRun (w : Nat) (σ : Type) (E : Nat) where
  heap : Heap (Quarantine w (Recorded w σ) E)
  live : List (Grant w)
  /-- The blocks freed so far, the newest first. -/
  freed : List (Grant w)

inductive QuarantineOp (w : Nat)
  | allocate (l : NonZeroLayout w)
  /-- Free the live block number `i`. -/
  | deallocate (i : Nat)

namespace QuarantineRun

variable {w : Nat} {σ : Type} {E : Nat}

/-- The blocks `live` were issued before the wrapper was put around the allocator. -/
def init (w : Nat) (inner : σ) (hE : 0 < E) (live : List (Grant w)) (m : Mem) :
    QuarantineRun w σ E :=
  ⟨⟨Quarantine.new w ⟨inner, [], []⟩ hE, m⟩, live, []⟩

def step (A : Allocator w σ) (s : QuarantineRun w σ E) :
    QuarantineOp w → Option (QuarantineRun w σ E)
  | .allocate l =>
      match (Quarantine.allocator E (recorded A)).allocate l s.heap with
      | (none, h) => some { s with heap := h }
      | (some b, h) => some { s with heap := h, live := ⟨b, l⟩ :: s.live }
  | .deallocate i =>
      match s.live[i]? with
      | none => none
      | some g =>
          some ⟨(Quarantine.allocator E (recorded A)).deallocate g.block.ptr g.layout s.heap,
            s.live.erase g, g :: s.freed⟩

/-- The tickets the inner allocator has received, the newest first. -/
def forwarded (s : QuarantineRun w σ E) : List (Ticket w) := s.heap.alloc.inner.received

/-- What has been forwarded is what has been freed, delayed by `E`. -/
def Delayed (s : QuarantineRun w σ E) : Prop :=
  s.forwarded = (s.freed.drop E).map Grant.ticket

/-- The counter modulo `E` is the number of frees modulo `E`. -/
def InStep (s : QuarantineRun w σ E) : Prop := E ∣ 2 ^ w ∨ s.freed.length ≤ 2 ^ w

/-! ## The invariant -/

/-- The invariant of every run: the ledger is live, and no block is in it twice. -/
structure Legal (Inv : Heap σ → Set (Grant w) → Prop) (s : QuarantineRun w σ E)
    (G : Fin E → Option (Grant w)) : Prop where
  holds : Quarantine.Holds (fun h L => Inv (Recorded.heap h) L) s.heap {g | g ∈ s.live} G
  nodup : s.live.Nodup
  count_eq : s.heap.alloc.count = s.freed.length % 2 ^ w

/-- The invariant of a run that is in step: the ring is a delay line. -/
structure Inv (I : Heap σ → Set (Grant w) → Prop) (s : QuarantineRun w σ E) (hE : 0 < E) :
    Prop where
  legal : Legal I s (ringOf hE s.freed)
  delayed : Delayed s
  recent : (s.freed.take E).Nodup

variable {A : Allocator w σ} {I : Heap σ → Set (Grant w) → Prop} {s s' : QuarantineRun w σ E}
  {hE : 0 < E} {l : NonZeroLayout w} {i : Nat} {G : Fin E → Option (Grant w)} {g : Grant w}

theorem count_of_inStep (hE : 0 < E) (hs : Legal I s G)
    (hstep : E ∣ 2 ^ w ∨ s.freed.length < 2 ^ w) :
    s.heap.alloc.next = cell hE s.freed.length := by
  show cell s.heap.alloc.epochs_pos s.heap.alloc.count = cell hE s.freed.length
  rw [cell_eq_iff, hs.count_eq]
  rcases hstep with hdvd | hlt
  · exact (Nat.mod_modEq s.freed.length (2 ^ w)).of_dvd hdvd
  · rw [Nat.mod_eq_of_lt hlt]

theorem Legal.step_allocate (hA : HonoursCore A I) (hs : Legal I s G)
    (hstep : step A s (.allocate l) = some s') :
    Legal I s' G ∧ s'.freed = s.freed ∧ s'.forwarded = s.forwarded := by
  have hrec := recorded_honoursCore hA
  simp only [step] at hstep
  split at hstep
  case h_1 h heq =>
      cases hstep
      obtain ⟨hholds, -, hcount⟩ := hs.holds.allocate_none hrec heq
      have hreceived := congrArg (fun r => r.2.alloc.inner.received) heq
      exact ⟨⟨hholds, hs.nodup, hcount.trans hs.count_eq⟩, rfl,
        hreceived.symm.trans (received_allocate A l s.heap)⟩
  case h_2 b h heq =>
      cases hstep
      obtain ⟨hholds, hfresh, -, hcount⟩ := hs.holds.allocate_some hrec heq
      have hsat := hrec.satisfies hholds.inner (Or.inl (Set.mem_insert _ _))
      have hnew : (⟨b, l⟩ : Grant w) ∉ s.live := fun hmem =>
        not_disjoint_self hsat.len_pos (hfresh ⟨b, l⟩ hmem)
      rw [← List.setOfPred_mem_cons] at hholds
      have hreceived := congrArg (fun r => r.2.alloc.inner.received) heq
      exact ⟨⟨hholds, List.nodup_cons.mpr ⟨hnew, hs.nodup⟩, hcount.trans hs.count_eq⟩, rfl,
        hreceived.symm.trans (received_allocate A l s.heap)⟩
where
  received_allocate (A : Allocator w σ) (l : NonZeroLayout w)
      (h : Heap (Quarantine w (Recorded w σ) E)) :
      ((Quarantine.allocator E (recorded A)).allocate l h).2.alloc.inner.received =
        h.alloc.inner.received := by
    show (Recorded.note (Quarantine.heap h) [] l _).2.alloc.received = _
    rcases A.allocate l (Recorded.heap (Quarantine.heap h)) with ⟨_ | c, t⟩ <;> rfl

/-- A free of a live block, and what it forwards. -/
theorem Legal.step_deallocate (hA : HonoursCore A I) (hs : Legal I s G)
    (hstep : step A s (.deallocate i) = some s') :
    ∃ g ∈ s.live, Legal I s' (Function.update G s.heap.alloc.next (some g)) ∧
      s'.freed = g :: s.freed ∧
      s'.forwarded = ((G s.heap.alloc.next).map Grant.ticket).toList ++ s.forwarded := by
  simp only [step] at hstep
  split at hstep
  case h_1 => cases hstep
  case h_2 g hg =>
      cases hstep
      have hmem : g ∈ s.live := List.mem_of_getElem? hg
      obtain ⟨hholds, -⟩ := hs.holds.deallocate (recorded_honoursCore hA) hmem
      rw [← set_erase hs.nodup] at hholds
      refine ⟨g, hmem, ⟨hholds, hs.nodup.erase g, ?_⟩, rfl, ?_⟩
      · show (Quarantine.deallocate (recorded A) g.block.ptr g.layout s.heap).alloc.count = _
        rw [Quarantine.count_deallocate, hs.count_eq, wrappingAdd, List.length_cons,
          Nat.mod_add_mod]
      · show (Quarantine.deallocate (recorded A) g.block.ptr g.layout s.heap).alloc.inner.received
          = _
        have hring := hs.holds.ring_eq s.heap.alloc.next
        rcases hcell : G s.heap.alloc.next with _ | p
        · rw [hcell] at hring
          have hheap := Quarantine.heap_deallocate_none (A := recorded A) (l := g.layout)
            g.block.ptr hring
          exact congrArg (fun h => h.alloc.received) hheap
        · rw [hcell] at hring
          have hheap := Quarantine.heap_deallocate_some (A := recorded A) (l := g.layout)
            g.block.ptr hring
          exact congrArg (fun h => h.alloc.received) hheap

/-- What is in the ring of a run in step is not live. -/
theorem Inv.not_mem_recent (hinv : Inv I s hE) (hg : g ∈ s.live) : g ∉ s.freed.take E := by
  intro hmem
  obtain ⟨k, hk, rfl⟩ := List.getElem_of_mem hmem
  rw [List.length_take] at hk
  have hcell := ringOf_apply hE s.freed (k := k) (by omega)
  rw [List.getElem?_eq_getElem (by omega)] at hcell
  rw [List.getElem_take] at hg
  exact hinv.legal.holds.fresh hcell hg

/-- **A free in step** forwards the block whose turn it is. -/
theorem Inv.step_deallocate (hA : HonoursCore A I) (hinv : Inv I s hE)
    (hstep : step A s (.deallocate i) = some s') (hs' : InStep s') : Inv I s' hE := by
  obtain ⟨g, hg, hlegal, hfreed, hforwarded⟩ := hinv.legal.step_deallocate hA hstep
  have hlt : E ∣ 2 ^ w ∨ s.freed.length < 2 ^ w := by
    rcases hs' with hdvd | hle
    · exact Or.inl hdvd
    · rw [hfreed, List.length_cons] at hle
      exact Or.inr hle
  have hnext := count_of_inStep hE hinv.legal hlt
  rw [hnext] at hlegal hforwarded
  refine ⟨?_, ?_, ?_⟩
  · rw [hfreed, ringOf_cons]
    exact hlegal
  · rw [ringOf_next] at hforwarded
    rw [Delayed, hforwarded, hinv.delayed, hfreed, drop_cons hE, List.map_append]
    rcases s.freed[E - 1]? with _ | p <;> rfl
  · rw [hfreed]
    obtain ⟨e, rfl⟩ := Nat.exists_eq_succ_of_ne_zero hE.ne'
    rw [List.take_succ_cons, List.nodup_cons]
    have hsub : (s.freed.take e).Sublist (s.freed.take e.succ) :=
      (List.take_sublist_take_left (Nat.le_succ e))
    exact ⟨fun hmem => hinv.not_mem_recent hg (hsub.subset hmem), hinv.recent.sublist hsub⟩

/-- **The free after the wrap is out of turn**: it forwards a block that came into the ring later
than the one whose turn it is. -/
theorem Inv.deallocate_outOfStep (hA : HonoursCore A I) (hinv : Inv I s hE)
    (hstep : step A s (.deallocate i) = some s') (hlen : s.freed.length = 2 ^ w)
    (hdvd : ¬ E ∣ 2 ^ w) (hlt : E < 2 ^ w) : ¬ Delayed s' := by
  intro hdelayed
  obtain ⟨g, hg, -, hfreed, hforwarded⟩ := hinv.legal.step_deallocate hA hstep
  have hnext : s.heap.alloc.next = cell hE 0 := by
    show cell s.heap.alloc.epochs_pos s.heap.alloc.count = cell hE 0
    rw [hinv.legal.count_eq, hlen, Nat.mod_self]
  have hrpos : 0 < 2 ^ w % E := Nat.pos_of_ne_zero fun hzero => hdvd (Nat.dvd_of_mod_eq_zero hzero)
  have hrlt : 2 ^ w % E < E := Nat.mod_lt _ hE
  have hzero := ringOf_zero hE s.freed (by rw [hlen]) hrpos
  have hltx : 2 ^ w % E - 1 < s.freed.length := by omega
  have hlty : E - 1 < s.freed.length := by omega
  have hx : s.freed[2 ^ w % E - 1]? = some s.freed[2 ^ w % E - 1] := List.getElem?_eq_getElem _
  have hy : s.freed[E - 1]? = some s.freed[E - 1] := List.getElem?_eq_getElem _
  rw [hnext, hzero, hx] at hforwarded
  rw [Delayed, hforwarded, hinv.delayed, hfreed, drop_cons hE, hy] at hdelayed
  -- both sides start with one ticket, of the block forwarded and of the block whose turn it is
  have hticket := (List.cons.inj hdelayed).1
  have hmem : ∀ k, k < E → ∀ hlt' : k < s.freed.length, s.freed[k] ∈
      ({g | g ∈ s.live} : Set (Grant w)) ∪ Quarantine.held (ringOf hE s.freed) := by
    intro k hk hlt'
    have hcell := ringOf_apply hE s.freed hk
    rw [List.getElem?_eq_getElem (by omega)] at hcell
    exact Or.inr ⟨_, hcell⟩
  have heq := (recorded_honoursCore hA).eq_of_ptr hinv.legal.holds.inner
    (hmem (2 ^ w % E - 1) (by omega) hltx) (hmem (E - 1) (by omega) hlty) (congrArg Prod.fst hticket)
  have hnodup := hinv.recent
  rw [List.nodup_iff_injective_get] at hnodup
  have hlen' : (s.freed.take E).length = E := by
    rw [List.length_take]
    omega
  have hinj := @hnodup ⟨2 ^ w % E - 1, by omega⟩ ⟨E - 1, by omega⟩
    (by simpa [List.getElem_take] using heq)
  have hidx := congrArg Fin.val hinj
  simp only at hidx
  omega

/-! ## Whole runs -/

theorem Inv.init (hE : 0 < E) {inner : σ} {live : List (Grant w)} {m : Mem}
    (hinit : I ⟨inner, m⟩ {g | g ∈ live}) (hnodup : live.Nodup) :
    Inv I (init w inner hE live m) hE where
  legal := ⟨Quarantine.holds_new (s := (⟨inner, [], []⟩ : Recorded w σ)) hE hinit, hnodup, by
    show 0 = 0 % 2 ^ w
    rw [Nat.zero_mod]⟩
  delayed := by
    show [] = (([] : List (Grant w)).drop E).map Grant.ticket
    rw [List.drop_nil]
    rfl
  recent := by
    show (([] : List (Grant w)).take E).Nodup
    rw [List.take_nil]
    exact List.nodup_nil

theorem Inv.step (hA : HonoursCore A I) (hinv : Inv I s hE) {op : QuarantineOp w}
    (hstep : step A s op = some s') (hs' : InStep s') : Inv I s' hE := by
  cases op with
  | allocate l =>
      obtain ⟨hlegal, hfreed, hforwarded⟩ := hinv.legal.step_allocate hA hstep
      refine ⟨hfreed ▸ hlegal, ?_, hfreed ▸ hinv.recent⟩
      rw [Delayed, hforwarded, hfreed]
      exact hinv.delayed
  | deallocate i => exact hinv.step_deallocate hA hstep hs'

/-- No step takes a free back. -/
theorem freed_le_step {op : QuarantineOp w} (hstep : QuarantineRun.step A s op = some s') :
    s.freed.length ≤ s'.freed.length ∧ s'.freed.length ≤ s.freed.length + 1 := by
  cases op with
  | allocate l =>
      simp only [QuarantineRun.step] at hstep
      split at hstep <;> cases hstep <;> simp
  | deallocate i =>
      simp only [QuarantineRun.step] at hstep
      split at hstep
      · cases hstep
      · cases hstep
        simp

theorem freed_le_run {es : List (QuarantineOp w)}
    (hrun : Machine.run (QuarantineRun.step A) s es = some s') :
    s.freed.length ≤ s'.freed.length :=
  Machine.run_invariant (P := fun t => s.freed.length ≤ t.freed.length)
    (fun _ _ _ hle hstep => hle.trans (freed_le_step hstep).1) le_rfl hrun

/-- A run that ends in step was in step all along. -/
theorem Inv.run (hA : HonoursCore A I) {es : List (QuarantineOp w)} (hinv : Inv I s hE)
    (hrun : Machine.run (QuarantineRun.step A) s es = some s') (hs' : InStep s') :
    Inv I s' hE := by
  induction es generalizing s with
  | nil =>
      rw [Machine.run_nil, Option.some.injEq] at hrun
      exact hrun ▸ hinv
  | cons op es ih =>
      rw [Machine.run_cons, Option.bind_eq_some_iff] at hrun
      obtain ⟨t, ht, hrest⟩ := hrun
      have hle := freed_le_run hrest
      exact ih (hinv.step hA ht (hs'.imp_right hle.trans)) hrest

/-- A run whose frees outnumber the values of the counter is out of turn at some point, unless the
length of the ring divides that number. -/
theorem Inv.exists_not_delayed (hA : HonoursCore A I) (hlt : E < 2 ^ w) (hdvd : ¬ E ∣ 2 ^ w)
    {es : List (QuarantineOp w)} (hinv : Inv I s hE) (hstart : s.freed.length ≤ 2 ^ w)
    (hrun : Machine.run (QuarantineRun.step A) s es = some s') (hlong : ¬ s'.freed.length ≤ 2 ^ w) :
    ∃ es₁ es₂ t, es = es₁ ++ es₂ ∧ Machine.run (QuarantineRun.step A) s es₁ = some t ∧
      ¬ Delayed t := by
  obtain ⟨es₁, op, es₂, t, t', rfl, hbefore, hstep, ht, ht'⟩ :=
    Machine.run_exists_step (P := fun t : QuarantineRun w σ E => t.freed.length ≤ 2 ^ w)
      hstart hrun hlong
  have hinv' := hinv.run hA hbefore (Or.inr ht)
  have hgrow := freed_le_step hstep
  refine ⟨es₁ ++ [op], es₂, t', by simp, Machine.run_concat hbefore hstep, ?_⟩
  cases op with
  | allocate l =>
      obtain ⟨-, hfreed, -⟩ := hinv'.legal.step_allocate hA hstep
      rw [hfreed] at ht'
      exact absurd ht ht'
  | deallocate i => exact hinv'.deallocate_outOfStep hA hstep (by omega) hdvd hlt

/-- **Runs of a quarantine.** What is forwarded is at every moment what was freed, delayed by `E`,
exactly when `E` divides the number of values of the counter or the frees do not outnumber them. -/
theorem quarantine_delayed_iff (hA : HonoursCore A I) (hE : 0 < E) (hlt : E < 2 ^ w) {inner : σ}
    {live : List (Grant w)} {m : Mem} (hinit : I ⟨inner, m⟩ {g | g ∈ live}) (hnodup : live.Nodup)
    {es : List (QuarantineOp w)}
    (hrun : Machine.run (QuarantineRun.step A) (init w inner hE live m) es = some s) :
    (∀ es₁ es₂ t, es = es₁ ++ es₂ →
      Machine.run (QuarantineRun.step A) (QuarantineRun.init w inner hE live m) es₁ = some t →
        Delayed t) ↔
    E ∣ 2 ^ w ∨ s.freed.length ≤ 2 ^ w := by
  have hinv : Inv I (QuarantineRun.init w inner hE live m) hE := Inv.init hE hinit hnodup
  constructor
  · intro hall
    by_contra hnot
    rw [not_or] at hnot
    obtain ⟨es₁, es₂, t, hsplit, hbefore, hbad⟩ :=
      hinv.exists_not_delayed hA hlt hnot.1 (Nat.zero_le _) hrun hnot.2
    exact hbad (hall es₁ es₂ t hsplit hbefore)
  · rintro hstep es₁ es₂ t rfl hbefore
    rw [Machine.run_append, hbefore] at hrun
    have hle := freed_le_run hrun
    exact (hinv.run hA hbefore (hstep.imp_right hle.trans)).delayed

/-! ## A run of any length -/

/-- Request a block and free it, `n` times. -/
def cycles (l : NonZeroLayout w) (n : Nat) : List (QuarantineOp w) :=
  (List.replicate n [.allocate l, .deallocate 0]).flatten

theorem cycles_succ (l : NonZeroLayout w) (n : Nat) :
    cycles l (n + 1) = .allocate l :: .deallocate 0 :: cycles l n := by
  simp [cycles, List.replicate_succ]

/-- With nothing live, a request finds the blocks of the ring out and no others. -/
theorem exists_run_cycles (hA : HonoursCore A I)
    (hroom : ∀ h (G : Fin E → Option (Grant w)), I h (Quarantine.held G) →
      (A.allocate l h).1.isSome) (n : Nat) (hs : Legal I s G) (hlive : s.live = []) :
    ∃ s', Machine.run (QuarantineRun.step A) s (cycles l n) = some s' ∧
      s'.freed.length = s.freed.length + n := by
  induction n generalizing s G with
  | zero => exact ⟨s, rfl, rfl⟩
  | succ n ih =>
      have hinner := hs.holds.inner
      have hempty : ({g | g ∈ s.live} : Set (Grant w)) = ∅ := by
        rw [hlive]
        exact Set.eq_empty_of_forall_notMem fun g hg => List.not_mem_nil hg
      rw [hempty, Set.empty_union] at hinner
      obtain ⟨b, hb⟩ := Option.isSome_iff_exists.mp (hroom _ G hinner)
      obtain ⟨t, ht, htlive⟩ : ∃ t, QuarantineRun.step A s (.allocate l) = some t ∧
          t.live = [⟨b, l⟩] := by
        have hcall : ((Quarantine.allocator E (recorded A)).allocate l s.heap).1 = some b := by
          show (Recorded.note (Quarantine.heap s.heap) [] l _).1 = some b
          rcases hr : A.allocate l (Recorded.heap (Quarantine.heap s.heap)) with ⟨_ | c, u⟩
          · rw [hr] at hb
            cases hb
          · rw [hr] at hb
            exact hb
        refine ⟨{ s with heap := ((Quarantine.allocator E (recorded A)).allocate l s.heap).2,
                         live := ⟨b, l⟩ :: s.live }, ?_, by rw [hlive]⟩
        have hpair : (Quarantine.allocator E (recorded A)).allocate l s.heap =
            (some b, ((Quarantine.allocator E (recorded A)).allocate l s.heap).2) :=
          Prod.ext hcall rfl
        simp only [QuarantineRun.step]
        split
        case h_1 heq =>
            rw [hpair] at heq
            cases heq
        case h_2 c u heq =>
            rw [hpair] at heq
            cases heq
            rfl
      obtain ⟨htlegal, htfreed, -⟩ := hs.step_allocate hA ht
      obtain ⟨u, hu, hulive⟩ : ∃ u, QuarantineRun.step A t (.deallocate 0) = some u ∧
          u.live = [] := by
        simp [QuarantineRun.step, htlive]
      obtain ⟨g, -, hulegal, hufreed, -⟩ := htlegal.step_deallocate hA hu
      obtain ⟨s', hrun, hlen⟩ := ih hulegal hulive
      refine ⟨s', ?_, ?_⟩
      · rw [cycles_succ, Machine.run_cons, ht, Option.bind_some, Machine.run_cons, hu]
        exact hrun
      · rw [hlen, hufreed, List.length_cons, htfreed]
        omega

/-- The blocks in a ring of `E` cells are at most `E`. -/
theorem length_le_of_held {K : List (Grant w)} (hK : {g | g ∈ K} = Quarantine.held G)
    (hnodup : K.Nodup) : K.length ≤ E := by
  have hsub : K.map some ⊆ List.ofFn G := by
    intro o ho
    obtain ⟨g, hg, rfl⟩ := List.mem_map.mp ho
    have hheld : g ∈ Quarantine.held G := hK ▸ hg
    exact List.mem_ofFn.mpr hheld
  have hle := ((hnodup.map (Option.some_injective _)).subperm hsub).length_le
  rwa [List.length_map, List.length_ofFn] at hle

/-- A slab with more slots than cells in the ring serves a small request with nothing live. -/
theorem slab_room {β : Type} {T : RustType w} {R : FixedRange β} {n : Nat} (hn : E < n)
    (hsize : l.size ≤ freeLinkSize) (halign : l.align ≤ freeLinkAlign) (h : Heap (Slab T β))
    (G : Fin E → Option (Grant w)) (hheld : Slab.Holds R n h (Quarantine.held G)) :
    (Slab.allocate R l h).1.isSome := by
  obtain ⟨K, hK, hi⟩ := hheld
  have hlen := length_le_of_held hK.symm (hi.outstanding.nodup.of_map _)
  have hfits : h.alloc.FitsSlot l :=
    ⟨halign.trans (le_max_right _ _), hsize.trans hi.outstanding.shape.link_le⟩
  rw [Option.isSome_iff_ne_none, Ne, hi.outstanding.allocate_eq_none_iff hfits, List.length_map]
  omega

/-! ## Three cells on a 64-bit machine -/

abbrev inlineArena : Allocator 64 (BumpArena (InlineBacked 64 64)) :=
  BumpArena.allocator 64 (InlineBacked.range 64 64)

abbrev inlineArenaRange : FixedRange (BumpArena (InlineBacked 64 64)) :=
  BumpArena.range (InlineBacked.range 64 64)

def freshArena : Heap (BumpArena (InlineBacked 64 64)) :=
  ⟨⟨.lit 64 64 64 (Eq.refl true), 64, 0⟩, fun _ => 0⟩

theorem freshArena_holds :
    BumpArena.Holds (InlineBacked.range 64 64) 64 freshArena (∅ : Set (Grant 64)) :=
  BumpArena.holds_new (b := InlineBacked.lit 64 64 64 (Eq.refl true)) rfl _

def word64 : RustType 64 := .lit 64 8 8 (Eq.refl true)

def bytes8 : NonZeroLayout 64 := .lit 64 8 4 (Eq.refl true)

/-- A slab of four slots is built in the arena, and meets the contract. -/
theorem exists_slab4 :
    ∃ h, Slab.withProtection inlineArena inlineArenaRange word64 4 .none freshArena = some h ∧
      Slab.Holds inlineArenaRange 4 h ({g | g ∈ ([] : List (Grant 64))}) := by
  have hsome : (Slab.withProtection inlineArena inlineArenaRange word64 4 .none
      freshArena).isSome := by decide +kernel
  obtain ⟨h, hnew⟩ := Option.isSome_iff_exists.mp hsome
  have hA := BumpArena.honours (w := 64) (InlineBacked.range_lawful 64 64) 64 (by decide)
  have hholds := Slab.holds_new hA freshArena_holds FreelistProtection.none_sound hnew
  refine ⟨h, hnew, ?_⟩
  rw [Set.eq_empty_of_forall_notMem (s := {g | g ∈ ([] : List (Grant 64))})
    fun g hg => List.not_mem_nil hg]
  exact hholds

theorem quarantine_delayed_iff_threeFrees :
    ∃ h s, Slab.withProtection inlineArena inlineArenaRange word64 4 .none freshArena = some h ∧
      Machine.run (QuarantineRun.step (Slab.allocator 64 word64 inlineArenaRange))
        (QuarantineRun.init 64 h.alloc (show 0 < 3 by decide) [] h.mem) (cycles bytes8 4) = some s ∧
      Delayed s := by
  obtain ⟨h, hnew, hholds⟩ := exists_slab4
  have hA := (Slab.honours word64 inlineArenaRange 4).toHonoursCore
  have hlegal := (Inv.init (show 0 < 3 by decide) hholds List.nodup_nil).legal
  obtain ⟨s, hrun, hlen⟩ := exists_run_cycles hA
    (slab_room (l := bytes8) (n := 4) (by decide) (by decide) (by decide)) 4 hlegal rfl
  have hdelayed := quarantine_delayed_iff hA (show 0 < 3 by decide) (by decide) hholds
    List.nodup_nil hrun
  refine ⟨h, s, hnew, hrun, hdelayed.mpr (Or.inr ?_) _ [] s (List.append_nil _).symm hrun⟩
  rw [hlen]
  show 0 + 4 ≤ 2 ^ 64
  decide

/-- **The word wraps around.** A ring of three cells over a slab of four slots; one block is
requested and freed over and over. After `2 ^ 64 + 1` frees a block was forwarded out of turn. -/
theorem quarantine_outOfTurn :
    ∃ h s, Slab.withProtection inlineArena inlineArenaRange word64 4 .none freshArena = some h ∧
      Machine.run (QuarantineRun.step (Slab.allocator 64 word64 inlineArenaRange))
        (QuarantineRun.init 64 h.alloc (show 0 < 3 by decide) [] h.mem)
        (cycles bytes8 (2 ^ 64 + 1)) = some s ∧
      ¬ ∀ es₁ es₂ t, cycles bytes8 (2 ^ 64 + 1) = es₁ ++ es₂ →
        Machine.run (QuarantineRun.step (Slab.allocator 64 word64 inlineArenaRange))
          (QuarantineRun.init 64 h.alloc (show 0 < 3 by decide) [] h.mem) es₁ = some t →
        Delayed t := by
  obtain ⟨h, hnew, hholds⟩ := exists_slab4
  have hA := (Slab.honours word64 inlineArenaRange 4).toHonoursCore
  have hinv := Inv.init (show 0 < 3 by decide) hholds List.nodup_nil
  obtain ⟨s, hrun, hlen⟩ := exists_run_cycles hA
    (slab_room (l := bytes8) (n := 4) (by decide) (by decide) (by decide)) (2 ^ 64 + 1) hinv.legal rfl
  have hlong : ¬ s.freed.length ≤ 2 ^ 64 := by
    rw [hlen]
    show ¬ 0 + (2 ^ 64 + 1) ≤ 2 ^ 64
    decide
  refine ⟨h, s, hnew, hrun, fun hall => ?_⟩
  obtain ⟨es₁, es₂, t, hsplit, hbefore, hbad⟩ := hinv.exists_not_delayed hA
    (by decide) (by decide) (Nat.zero_le _) hrun hlong
  exact hbad (hall es₁ es₂ t hsplit hbefore)

end QuarantineRun

end ForgeAlloc
