import ForgeAlloc.Hardening.QuarantineRun

set_option autoImplicit false

/-! # A `Quarantine` up to its drop

The runs of this module have all the calls of the trait, and at the end the wrapper is dropped:
the loop of `drop` empties the ring cell by cell and hands each block to the allocator underneath.

A block leaves the ring through the next free of its cell or through the loop. `Balanced` says that
what was freed is what was forwarded together with what the ring holds. It needs nothing of the
counter; that the ring holds the last `E` blocks freed does.
-/

namespace ForgeAlloc

open MachineInt ByteMemory DelayLine

namespace Quarantine

variable {w : Nat} {σ : Type} {E : Nat} {A : Allocator w σ}
  {Inv : Heap σ → Set (Grant w) → Prop} {h : Heap (Quarantine w σ E)} {L : Set (Grant w)}
  {G : Fin E → Option (Grant w)} {p : Grant w}

/-- One turn of the loop of `drop`. -/
def dropCell (A : Allocator w σ) (h : Heap (Quarantine w σ E)) (i : Fin E) :
    Heap (Quarantine w σ E) :=
  let q := { h.alloc with ring := Function.update h.alloc.ring i none }
  match h.alloc.ring i with
  | none => ⟨q, h.mem⟩
  | some b =>
      let h' := A.deallocate b.1 b.2 (heap h)
      ⟨{ q with inner := h'.alloc }, h'.mem⟩

/-- `Drop for Quarantine`. -/
def drop (A : Allocator w σ) (h : Heap (Quarantine w σ E)) : Heap (Quarantine w σ E) :=
  (List.finRange E).foldl (dropCell A) h

theorem ring_dropCell (A : Allocator w σ) (h : Heap (Quarantine w σ E)) (i : Fin E) :
    (dropCell A h i).alloc.ring = Function.update h.alloc.ring i none := by
  simp only [dropCell]
  split <;> rfl

theorem heap_dropCell_none {i : Fin E} (hnone : h.alloc.ring i = none) :
    heap (dropCell A h i) = heap h := by
  simp only [dropCell, hnone]
  rfl

theorem heap_dropCell_some {i : Fin E} {b : Ticket w} (hsome : h.alloc.ring i = some b) :
    heap (dropCell A h i) = A.deallocate b.1 b.2 (heap h) := by
  simp only [dropCell, hsome]
  rfl

theorem held_update_none {j : Fin E} : held (Function.update G j none) =
    {x | ∃ j', j' ≠ j ∧ G j' = some x} := by
  ext x
  constructor
  · rintro ⟨j', hj'⟩
    by_cases hjj : j' = j
    · rw [hjj, Function.update_self] at hj'
      cases hj'
    · rw [Function.update_of_ne hjj] at hj'
      exact ⟨j', hjj, hj'⟩
  · rintro ⟨j', hjj, hj'⟩
    exact ⟨j', by rw [Function.update_of_ne hjj]; exact hj'⟩

/-- A cell that is emptied gives its block up and no other. -/
theorem Holds.union_held_update_none (hh : Holds Inv h L G) {j : Fin E} (hj : G j = some p) :
    L ∪ held (Function.update G j none) = (L ∪ held G) \ {p} := by
  rw [held_update_none]
  ext x
  simp only [Set.mem_union, Set.mem_sdiff, Set.mem_singleton_iff]
  constructor
  · rintro (hx | ⟨j', hjj, hx⟩)
    · exact ⟨Or.inl hx, fun heq => hh.fresh hj (heq ▸ hx)⟩
    · exact ⟨Or.inr ⟨j', hx⟩, fun heq => hjj (hh.injective hx (heq ▸ hj))⟩
  · rintro ⟨hx | ⟨j', hx⟩, hxp⟩
    · exact Or.inl hx
    · refine Or.inr ⟨j', ?_, hx⟩
      rintro rfl
      rw [hj] at hx
      exact hxp (Option.some.inj hx).symm

/-- A block held back starts in no live block. -/
theorem Holds.not_mem_liveBytes (hA : HonoursCore A Inv) (hh : Holds Inv h L G) {j : Fin E}
    (hj : G j = some p) : p.block.ptr ∉ liveBytes L := by
  rintro ⟨x, hx, hbyte⟩
  have hout : p ∈ L ∪ held G := Or.inr ⟨j, hj⟩
  have hne : p ≠ x := by
    rintro rfl
    exact hh.fresh hj hx
  have hdisj := hA.disjoint hh.inner hout (Or.inl hx) hne
  have hpos := (hA.satisfies hh.inner hout).len_pos
  exact Set.disjoint_left.mp hdisj ⟨le_rfl, by omega⟩ hbyte

theorem Holds.dropCell (hA : HonoursCore A Inv) (hh : Holds Inv h L G) (i : Fin E) :
    Holds Inv (Quarantine.dropCell A h i) L (Function.update G i none) := by
  have hring : ∀ j, (Quarantine.dropCell A h i).alloc.ring j =
      (Function.update G i none j).map Grant.ticket := by
    intro j
    rw [ring_dropCell]
    by_cases hj : j = i
    · rw [hj, Function.update_self, Function.update_self]
      rfl
    · rw [Function.update_of_ne hj, Function.update_of_ne hj, hh.ring_eq]
  have hsub : ∀ {j x}, Function.update G i none j = some x → G j = some x := by
    intro j x hj
    by_cases hji : j = i
    · rw [hji, Function.update_self] at hj
      cases hj
    · rw [Function.update_of_ne hji] at hj
      exact hj
  refine ⟨hring, ?_, fun hj hj' => hh.injective (hsub hj) (hsub hj'), fun hj => hh.fresh (hsub hj)⟩
  rcases hcell : G i with _ | p
  · have hnone : h.alloc.ring i = none := by rw [hh.ring_eq, hcell]; rfl
    have hsame : Function.update G i none = G := by rw [← hcell, Function.update_eq_self]
    rw [heap_dropCell_none hnone, hsame]
    exact hh.inner
  · have hsome : h.alloc.ring i = some p.ticket := by rw [hh.ring_eq, hcell]; rfl
    rw [heap_dropCell_some hsome, hh.union_held_update_none hcell]
    exact (hA.deallocate hh.inner (Or.inr ⟨_, hcell⟩)).inv

end Quarantine

/-- A call of the trait, or a write of the owner into byte `off` of the live block `i`. -/
inductive QuarantineCall (w : Nat)
  | allocate (l : NonZeroLayout w)
  | deallocate (i : Nat)
  | grow (i : Nat) (new : NonZeroLayout w)
  | shrink (i : Nat) (new : NonZeroLayout w)
  | write (i off : Nat) (v : UInt8)

namespace QuarantineRun

variable {w : Nat} {σ : Type} {E : Nat}

/-- The outcome of a resize of the live block `g`: the old block is freed if there is a new one. -/
def resized (s : QuarantineRun w σ E) (g : Grant w) (new : NonZeroLayout w) :
    Option Block × Heap (Quarantine w (Recorded w σ) E) → QuarantineRun w σ E
  | (none, h) => { s with heap := h }
  | (some b, h) => ⟨h, ⟨b, new⟩ :: s.live.erase g, g :: s.freed⟩

def callStep (A : Allocator w σ) (s : QuarantineRun w σ E) :
    QuarantineCall w → Option (QuarantineRun w σ E)
  | .allocate l => step A s (.allocate l)
  | .deallocate i => step A s (.deallocate i)
  | .grow i new =>
      match s.live[i]? with
      | none => none
      | some g =>
          if g.layout.size ≤ new.size ∧ g.layout.align = new.align then
            some (s.resized g new ((Quarantine.allocator E (recorded A)).grow g.block.ptr g.layout
              new s.heap))
          else none
  | .shrink i new =>
      match s.live[i]? with
      | none => none
      | some g =>
          if new.size ≤ g.layout.size ∧ g.layout.align = new.align then
            some (s.resized g new ((Quarantine.allocator E (recorded A)).shrink g.block.ptr
              g.layout new s.heap))
          else none
  | .write i off v =>
      match s.live[i]? with
      | none => none
      | some g =>
          if off < g.block.len then
            some { s with heap := ⟨s.heap.alloc, writeByte s.heap.mem (g.block.ptr + off) v⟩ }
          else none

/-- The state after `drop`. -/
def drop (A : Allocator w σ) (s : QuarantineRun w σ E) : QuarantineRun w σ E :=
  { s with heap := Quarantine.drop (recorded A) s.heap }

/-- The tickets in the ring. -/
def heldBack (s : QuarantineRun w σ E) : List (Ticket w) := contents s.heap.alloc.ring

/-- What was freed is what was forwarded and what is held back. -/
def Balanced (s : QuarantineRun w σ E) : Prop :=
  (s.freed.map Grant.ticket).Perm (s.forwarded ++ s.heldBack)

/-- Between `s` and `s'` no block was forwarded that is live in `s'`. -/
def Forwards (s s' : QuarantineRun w σ E) : Prop :=
  ∃ out : List (Ticket w), s'.forwarded = out ++ s.forwarded ∧
    ∀ t ∈ out, t.1 ∉ liveBytes {g | g ∈ s'.live}

/-! ## The invariant -/

structure Conserved (I : Heap σ → Set (Grant w) → Prop) (s : QuarantineRun w σ E) (hE : 0 < E) :
    Prop where
  legal : ∃ G, Legal I s G
  balanced : Balanced s
  /-- As long as the counter has not wrapped the ring is a delay line. -/
  recent : s.freed.length ≤ 2 ^ w → Legal I s (ringOf hE s.freed)

variable {A : Allocator w σ} {I : Heap σ → Set (Grant w) → Prop} {s s' : QuarantineRun w σ E}
  {hE : 0 < E} {l new : NonZeroLayout w} {i n : Nat} {G : Fin E → Option (Grant w)} {g : Grant w}
  {r : Option Block × Heap (Quarantine w (Recorded w σ) E)}

theorem Legal.heldBack_eq (hs : Legal I s G) : s.heldBack = (contents G).map Grant.ticket := by
  rw [heldBack, ← contents_map]
  exact congrArg contents (funext hs.holds.ring_eq)

/-- **The ring holds the last `E` blocks freed** while the counter has not wrapped. -/
theorem Conserved.heldBack_perm (hs : Conserved I s hE) (hlen : s.freed.length ≤ 2 ^ w) :
    s.heldBack.Perm ((s.freed.take E).map Grant.ticket) := by
  rw [(hs.recent hlen).heldBack_eq]
  exact (contents_ringOf hE s.freed).map Grant.ticket

theorem Conserved.init (hE : 0 < E) {inner : σ} {live : List (Grant w)} {m : Mem}
    (hinit : I ⟨inner, m⟩ {g | g ∈ live}) (hnodup : live.Nodup) :
    Conserved I (init w inner hE live m) hE where
  legal := ⟨_, (Inv.init hE hinit hnodup).legal⟩
  balanced := by
    show ([] : List (Ticket w)).Perm ([] ++ contents fun _ => none)
    rw [contents_none]
    exact List.Perm.nil
  recent := fun _ => (Inv.init hE hinit hnodup).legal

theorem Forwards.of_eq (heq : s'.forwarded = s.forwarded) : Forwards s s' :=
  ⟨[], heq, List.forall_mem_nil _⟩

/-- A change of memory inside the live blocks. -/
theorem Conserved.write (hA : HonoursCore A I) (hs : Conserved I s hE) {m : Mem}
    (hm : Set.EqOn m s.heap.mem (liveBytes {g | g ∈ s.live})ᶜ) :
    Conserved I { s with heap := ⟨s.heap.alloc, m⟩ } hE := by
  have hlegal : ∀ {G}, Legal I s G → Legal I { s with heap := ⟨s.heap.alloc, m⟩ } G := by
    intro G hG
    have hinner : I (Recorded.heap ⟨s.heap.alloc.inner, m⟩)
        ({g | g ∈ s.live} ∪ Quarantine.held G) := by
      refine hA.write hG.holds.inner (hm.mono ?_)
      exact Set.compl_subset_compl.mpr (liveBytes_mono Set.subset_union_left)
    exact ⟨⟨hG.holds.ring_eq, hinner, hG.holds.injective, hG.holds.fresh⟩, hG.nodup, hG.count_eq⟩
  obtain ⟨G, hG⟩ := hs.legal
  exact ⟨⟨G, hlegal hG⟩, hs.balanced, fun hlen => hlegal (hs.recent hlen)⟩

theorem ring_step_allocate (hstep : QuarantineRun.step A s (.allocate l) = some s') :
    s'.heldBack = s.heldBack := by
  simp only [QuarantineRun.step] at hstep
  split at hstep
  case h_1 h heq =>
      cases hstep
      exact congrArg (fun r => contents r.2.alloc.ring) heq.symm
  case h_2 b h heq =>
      cases hstep
      exact congrArg (fun r => contents r.2.alloc.ring) heq.symm

theorem Conserved.step_allocate (hA : HonoursCore A I) (hs : Conserved I s hE)
    (hstep : QuarantineRun.step A s (.allocate l) = some s') :
    Conserved I s' hE ∧ s'.forwarded = s.forwarded := by
  obtain ⟨G, hG⟩ := hs.legal
  obtain ⟨hG', hfreed, hforwarded⟩ := hG.step_allocate hA hstep
  refine ⟨⟨⟨G, hG'⟩, ?_, fun hlen => ?_⟩, hforwarded⟩
  · rw [Balanced, hfreed, hforwarded, ring_step_allocate hstep]
    exact hs.balanced
  · rw [hfreed] at hlen ⊢
    exact ((hs.recent hlen).step_allocate hA hstep).1

theorem ring_step_deallocate (hstep : QuarantineRun.step A s (.deallocate i) = some s') :
    ∃ g, s.live[i]? = some g ∧ s'.freed = g :: s.freed ∧ s'.live = s.live.erase g ∧
      s'.heap.alloc.ring =
        Function.update s.heap.alloc.ring s.heap.alloc.next (some g.ticket) := by
  simp only [QuarantineRun.step] at hstep
  split at hstep
  case h_1 => cases hstep
  case h_2 g hg =>
      cases hstep
      exact ⟨g, hg, rfl, rfl, Quarantine.ring_deallocate _ _ _ _⟩

theorem Conserved.step_deallocate (hA : HonoursCore A I) (hs : Conserved I s hE)
    (hstep : QuarantineRun.step A s (.deallocate i) = some s') :
    Conserved I s' hE ∧ Forwards s s' := by
  obtain ⟨G, hG⟩ := hs.legal
  obtain ⟨g, hg, hG', hfreed, hforwarded⟩ := hG.step_deallocate hA hstep
  obtain ⟨g', -, hfreed', hlive, hring⟩ := ring_step_deallocate hstep
  obtain rfl : g = g' := (List.cons.inj (hfreed.symm.trans hfreed')).1
  refine ⟨⟨⟨_, hG'⟩, ?_, fun hlen => ?_⟩, _, hforwarded, ?_⟩
  · have hwrite := contents_update s.heap.alloc.ring s.heap.alloc.next (some g.ticket)
    rw [← hring] at hwrite
    rw [← hG.holds.ring_eq] at hforwarded
    rw [Balanced, hfreed, hforwarded, List.map_cons]
    -- the ticket goes into the ring, and what it finds there joins the forwarded ones
    have hold : (g.ticket :: s.freed.map Grant.ticket).Perm
        (s.forwarded ++ ((some g.ticket).toList ++ s.heldBack)) :=
      (hs.balanced.cons _).trans List.perm_middle.symm
    have hnew : (s.forwarded ++ ((some g.ticket).toList ++ s.heldBack)).Perm
        (s.forwarded ++ ((s.heap.alloc.ring s.heap.alloc.next).toList ++ s'.heldBack)) :=
      (hwrite.symm).append_left _
    refine (hold.trans hnew).trans ?_
    rw [← List.append_assoc]
    exact List.perm_append_comm.append_right _
  · rw [hfreed, List.length_cons] at hlen
    have hlegal := hs.recent (by omega)
    obtain ⟨g', -, hG'', hfreed'', -⟩ := hlegal.step_deallocate hA hstep
    obtain rfl : g = g' := (List.cons.inj (hfreed.symm.trans hfreed'')).1
    rw [count_of_inStep hE hlegal (Or.inr (by omega))] at hG''
    rw [hfreed, ringOf_cons]
    exact hG''
  · intro t ht
    rw [Option.mem_toList, Option.map_eq_some_iff] at ht
    obtain ⟨p, hp, rfl⟩ := ht
    have hdead := hG.holds.not_mem_liveBytes (recorded_honoursCore hA) hp
    refine fun hbyte => hdead (liveBytes_mono ?_ hbyte)
    intro x hx
    rw [Set.mem_ofPred_eq, hlive] at hx
    exact List.mem_of_mem_erase hx

/-- A resize is an allocation, a copy into the new block and a free of the old one. -/
theorem Conserved.resize (hA : HonoursCore A I) (hs : Conserved I s hE) (hi : s.live[i]? = some g)
    (hnew : n ≤ new.size)
    (hnone : ∀ h, (Quarantine.allocator E (recorded A)).allocate new s.heap = (none, h) →
      r = (none, h))
    (hsome : ∀ b h, (Quarantine.allocator E (recorded A)).allocate new s.heap = (some b, h) →
      r = (some b, (Quarantine.allocator E (recorded A)).deallocate g.block.ptr g.layout
        ⟨h.alloc, copyBytes h.mem g.block.ptr b.ptr n⟩)) :
    Conserved I (s.resized g new r) hE ∧ Forwards s (s.resized g new r) := by
  rcases hcall : (Quarantine.allocator E (recorded A)).allocate new s.heap with ⟨_ | b, h⟩
  · have hstep : QuarantineRun.step A s (.allocate new) = some { s with heap := h } := by
      simp only [QuarantineRun.step, hcall]
    obtain ⟨hs', hforwarded⟩ := hs.step_allocate hA hstep
    rw [hnone h hcall]
    exact ⟨hs', Forwards.of_eq hforwarded⟩
  · have hstep : QuarantineRun.step A s (.allocate new) =
        some { s with heap := h, live := ⟨b, new⟩ :: s.live } := by
      simp only [QuarantineRun.step, hcall]
    obtain ⟨hs₁, hforwarded⟩ := hs.step_allocate hA hstep
    obtain ⟨G, hG⟩ := hs₁.legal
    have hmem : (⟨b, new⟩ : Grant w) ∈ (⟨b, new⟩ :: s.live : List (Grant w)) := List.mem_cons_self
    have hlarge : new.size ≤ b.len :=
      ((recorded_honoursCore hA).satisfies hG.holds.inner (Or.inl hmem)).large
    have hcopy : Set.EqOn (copyBytes h.mem g.block.ptr b.ptr n) h.mem
        (liveBytes {g | g ∈ (⟨b, new⟩ :: s.live : List (Grant w))})ᶜ := by
      intro x hx
      apply copyBytes_of_not_mem
      rintro ⟨hle, hlt⟩
      exact hx ⟨⟨b, new⟩, hmem, hle, by simp only; omega⟩
    have hs₂ := hs₁.write hA hcopy
    have hg : g ∈ s.live := List.mem_of_getElem? hi
    have hne : (⟨b, new⟩ : Grant w) ≠ g := by
      rintro rfl
      exact (List.nodup_cons.mp hG.nodup).1 hg
    have hstep₃ : QuarantineRun.step A
        (⟨⟨h.alloc, copyBytes h.mem g.block.ptr b.ptr n⟩, ⟨b, new⟩ :: s.live, s.freed⟩ :
          QuarantineRun w σ E) (.deallocate (i + 1)) = some (s.resized g new r) := by
      rw [hsome b h hcall]
      simp only [QuarantineRun.step, List.getElem?_cons_succ, hi, resized,
        List.erase_cons_tail (beq_false_of_ne hne ▸ Bool.false_ne_true)]
    obtain ⟨hs₃, out, hout, hdead⟩ := hs₂.step_deallocate hA hstep₃
    exact ⟨hs₃, out, hout.trans (congrArg (out ++ ·) hforwarded), hdead⟩

/-- **One call** keeps the balance and forwards no live block. -/
theorem Conserved.callStep (hA : HonoursCore A I) (hs : Conserved I s hE) {c : QuarantineCall w}
    (hstep : QuarantineRun.callStep A s c = some s') : Conserved I s' hE ∧ Forwards s s' := by
  cases c with
  | allocate l =>
      obtain ⟨hs', hforwarded⟩ := hs.step_allocate hA hstep
      exact ⟨hs', Forwards.of_eq hforwarded⟩
  | deallocate i => exact hs.step_deallocate hA hstep
  | grow i new =>
      simp only [QuarantineRun.callStep] at hstep
      split at hstep
      case h_1 => cases hstep
      case h_2 g hg =>
          split at hstep
          case isTrue hle =>
              cases hstep
              exact hs.resize hA hg hle.1 (fun _ hcall => defaultGrow_of_none _ hcall)
                fun _ _ hcall => defaultGrow_of_some _ hcall
          case isFalse => cases hstep
  | shrink i new =>
      simp only [QuarantineRun.callStep] at hstep
      split at hstep
      case h_1 => cases hstep
      case h_2 g hg =>
          split at hstep
          case isTrue =>
              cases hstep
              exact hs.resize hA hg le_rfl (fun _ hcall => defaultShrink_of_none _ hcall)
                fun _ _ hcall => defaultShrink_of_some _ hcall
          case isFalse => cases hstep
  | write i off v =>
      simp only [QuarantineRun.callStep] at hstep
      split at hstep
      case h_1 => cases hstep
      case h_2 g hg =>
          split at hstep
          case isTrue hlt =>
              cases hstep
              have hout := writeByte_eqOn_live (L := {g | g ∈ s.live}) (List.mem_of_getElem? hg) hlt
              exact ⟨hs.write hA (hout s.heap.mem v), Forwards.of_eq rfl⟩
          case isFalse => cases hstep

theorem Conserved.run (hA : HonoursCore A I) (hs : Conserved I s hE)
    {cs : List (QuarantineCall w)}
    (hrun : Machine.run (QuarantineRun.callStep A) s cs = some s') : Conserved I s' hE :=
  Machine.run_invariant (P := fun s => Conserved I s hE)
    (fun _ _ _ hs hstep => (hs.callStep hA hstep).1) hs hrun

/-! ## The drop -/

/-- What holds after some turns of the loop of `drop` that started at `s`. -/
structure Dropping (I : Heap σ → Set (Grant w) → Prop) (s : QuarantineRun w σ E)
    (h : Heap (Quarantine w (Recorded w σ) E)) : Prop where
  holds : ∃ G, Quarantine.Holds (fun h L => I (Recorded.heap h) L) h {g | g ∈ s.live} G
  balanced : Balanced { s with heap := h }
  forwards : Forwards s { s with heap := h }

variable {h : Heap (Quarantine w (Recorded w σ) E)}

/-- One turn forwards what the cell holds. -/
theorem received_dropCell (h : Heap (Quarantine w (Recorded w σ) E)) (j : Fin E) :
    (Quarantine.dropCell (recorded A) h j).alloc.inner.received =
      (h.alloc.ring j).toList ++ h.alloc.inner.received := by
  rcases hcell : h.alloc.ring j with _ | b
  · exact congrArg (fun h => h.alloc.received) (Quarantine.heap_dropCell_none hcell)
  · exact congrArg (fun h => h.alloc.received)
      (Quarantine.heap_dropCell_some (A := recorded A) hcell)

theorem Dropping.dropCell (hA : HonoursCore A I) (hd : Dropping I s h) (j : Fin E) :
    Dropping I s (Quarantine.dropCell (recorded A) h j) := by
  obtain ⟨G, hG⟩ := hd.holds
  have hreceived := received_dropCell (A := A) h j
  refine ⟨⟨_, hG.dropCell (recorded_honoursCore hA) j⟩, ?_, ?_⟩
  · have hempty := contents_update h.alloc.ring j none
    rw [← Quarantine.ring_dropCell (recorded A)] at hempty
    show (s.freed.map Grant.ticket).Perm
      ((Quarantine.dropCell (recorded A) h j).alloc.inner.received ++ contents _)
    rw [hreceived]
    have hmove : (h.alloc.inner.received ++ contents h.alloc.ring).Perm
        (h.alloc.inner.received ++ ((h.alloc.ring j).toList ++
          contents (Quarantine.dropCell (recorded A) h j).alloc.ring)) :=
      hempty.symm.append_left _
    refine (hd.balanced.trans hmove).trans ?_
    rw [← List.append_assoc]
    exact List.perm_append_comm.append_right _
  · obtain ⟨out, hout, hdead⟩ := hd.forwards
    refine ⟨(h.alloc.ring j).toList ++ out, ?_, fun t ht => ?_⟩
    · rw [List.append_assoc, ← hout]
      exact hreceived
    · rcases List.mem_append.mp ht with ht | ht
      · rw [hG.ring_eq, Option.mem_toList, Option.map_eq_some_iff] at ht
        obtain ⟨p, hp, rfl⟩ := ht
        exact hG.not_mem_liveBytes (recorded_honoursCore hA) hp
      · exact hdead t ht

theorem Dropping.foldl (hA : HonoursCore A I) {is : List (Fin E)} (hd : Dropping I s h) :
    Dropping I s (is.foldl (Quarantine.dropCell (recorded A)) h) := by
  induction is generalizing h with
  | nil => exact hd
  | cons j is ih => exact ih (hd.dropCell hA j)

/-- The loop has emptied the cells it has visited, and the others if they were empty. -/
theorem ring_foldl_dropCell {B : Allocator w σ} {q : Heap (Quarantine w σ E)} {is : List (Fin E)}
    {j : Fin E} (hj : j ∈ is ∨ q.alloc.ring j = none) :
    (is.foldl (Quarantine.dropCell B) q).alloc.ring j = none := by
  induction is generalizing q with
  | nil => exact hj.resolve_left List.not_mem_nil
  | cons i is ih =>
      refine ih ?_
      rw [Quarantine.ring_dropCell]
      by_cases hji : j = i
      · rw [hji, Function.update_self]
        exact Or.inr rfl
      · rw [Function.update_of_ne hji]
        exact hj.imp_left fun hmem => (List.mem_cons.mp hmem).resolve_left hji

theorem heldBack_drop (A : Allocator w σ) (s : QuarantineRun w σ E) :
    (s.drop A).heldBack = [] := by
  have hring : (s.drop A).heap.alloc.ring = fun _ => none :=
    funext fun j => ring_foldl_dropCell (Or.inl (List.mem_finRange j))
  rw [heldBack, hring, contents_none]

theorem Conserved.drop (hA : HonoursCore A I) (hs : Conserved I s hE) :
    Balanced (s.drop A) ∧ Forwards s (s.drop A) := by
  obtain ⟨G, hG⟩ := hs.legal
  have hd : Dropping I s s.heap := ⟨⟨G, hG.holds⟩, hs.balanced, Forwards.of_eq rfl⟩
  have hend : Dropping I s (s.drop A).heap := hd.foldl hA
  exact ⟨hend.balanced, hend.forwards⟩

/-- **A quarantine up to its drop.** What was freed is at every moment what was forwarded and what
is held back, each block with its layout; what is held back are the last `E` blocks freed as long
as the counter has not wrapped; no call and no drop forwards a block that is live; and after the
drop everything freed has been forwarded. -/
theorem quarantine_drop_correct (hA : HonoursCore A I) (hE : 0 < E) {inner : σ}
    {live : List (Grant w)} {m : Mem} (hinit : I ⟨inner, m⟩ {g | g ∈ live}) (hnodup : live.Nodup)
    {cs : List (QuarantineCall w)}
    (hrun : Machine.run (QuarantineRun.callStep A) (init w inner hE live m) cs = some s) :
    (s.freed.map Grant.ticket).Perm (s.forwarded ++ s.heldBack) ∧
    (s.freed.length ≤ 2 ^ w → s.heldBack.Perm ((s.freed.take E).map Grant.ticket)) ∧
    (∀ c s', QuarantineRun.callStep A s c = some s' → Forwards s s') ∧
    Forwards s (s.drop A) ∧ (s.drop A).heldBack = [] ∧
    (s.freed.map Grant.ticket).Perm (s.drop A).forwarded := by
  have hs : Conserved I s hE := (Conserved.init hE hinit hnodup).run hA hrun
  obtain ⟨hbalanced, hforwards⟩ := hs.drop hA
  have hempty := heldBack_drop A s
  rw [Balanced, hempty, List.append_nil] at hbalanced
  exact ⟨hs.balanced, hs.heldBack_perm, fun c s' hstep => (hs.callStep hA hstep).2, hforwards,
    hempty, hbalanced⟩

/-- Two blocks are requested and freed, one of them after it has moved, through a ring of one
cell. -/
def movedCalls : List (QuarantineCall 64) :=
  [.allocate bytes8, .allocate bytes8, .deallocate 0, .grow 0 bytes8, .shrink 0 bytes8]

theorem quarantine_drop_correct_moved :
    ∃ h s, Slab.withProtection inlineArena inlineArenaRange word64 4 .none freshArena = some h ∧
      Machine.run (callStep (Slab.allocator 64 word64 inlineArenaRange))
        (QuarantineRun.init 64 h.alloc (show 0 < 1 by decide) [] h.mem) movedCalls = some s ∧
      (s.freed.map Grant.ticket).Perm
        (s.drop (Slab.allocator 64 word64 inlineArenaRange)).forwarded := by
  have hsome : ((Slab.withProtection inlineArena inlineArenaRange word64 4 .none freshArena).bind
      fun h => Machine.run (callStep (Slab.allocator 64 word64 inlineArenaRange))
        (QuarantineRun.init 64 h.alloc (show 0 < 1 by decide) [] h.mem) movedCalls).isSome := by
    decide +kernel
  obtain ⟨s, hs⟩ := Option.isSome_iff_exists.mp hsome
  obtain ⟨h, hnew, hrun⟩ := Option.bind_eq_some_iff.mp hs
  obtain ⟨h', hnew', hholds⟩ := exists_slab4
  obtain rfl : h = h' := Option.some.inj (hnew.symm.trans hnew')
  have hA := (Slab.honours word64 inlineArenaRange 4).toHonoursCore
  obtain ⟨-, -, -, -, -, hall⟩ :=
    quarantine_drop_correct hA (show 0 < 1 by decide) hholds List.nodup_nil hrun
  exact ⟨h, s, hnew, hrun, hall⟩

end QuarantineRun

end ForgeAlloc
