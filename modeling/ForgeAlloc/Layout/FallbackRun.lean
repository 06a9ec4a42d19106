import ForgeAlloc.Layout.Fallback
import ForgeAlloc.Layout.Bump
import ForgeAlloc.Backing.Inline

set_option autoImplicit false

/-! # Every run of a `WithFallback`

A client requests, resizes, frees and writes into the blocks it owns, over two halves that keep a
record of their calls and fail whenever they like. `Routed` is the invariant: each half's record
accounts for the blocks it has issued, and what the client has freed is what the two halves have
received.

A resize is a request, a copy and a free, so the block it moves from one half to the other goes
back to the half it came from.
-/

namespace ForgeAlloc

open MachineInt ByteMemory WithFallback

structure FallbackRun (w : Nat) (π σ : Type) where
  heap : Heap (WithFallback (Recorded w π) (Recorded w σ))
  live : List (Grant w)
  freed : List (Grant w)

/-- A call of the client; `i` is the place of a block among the live ones. -/
inductive FallbackCall (w : Nat)
  | allocate (l : NonZeroLayout w)
  | allocateZeroed (l : NonZeroLayout w)
  | deallocate (i : Nat)
  | grow (i : Nat) (new : NonZeroLayout w)
  | shrink (i : Nat) (new : NonZeroLayout w)
  | write (i off : Nat) (v : UInt8)

namespace FallbackRun

variable {w : Nat} {π σ : Type}

/-- The outcome of a request. -/
def requested (s : FallbackRun w π σ) (l : NonZeroLayout w) :
    Option Block × Heap (WithFallback (Recorded w π) (Recorded w σ)) → FallbackRun w π σ
  | (none, h) => { s with heap := h }
  | (some b, h) => { s with heap := h, live := ⟨b, l⟩ :: s.live }

/-- The outcome of a resize of the live block `g`: the old block is freed if there is a new one. -/
def resized (s : FallbackRun w π σ) (g : Grant w) (new : NonZeroLayout w) :
    Option Block × Heap (WithFallback (Recorded w π) (Recorded w σ)) → FallbackRun w π σ
  | (none, h) => { s with heap := h }
  | (some b, h) => ⟨h, ⟨b, new⟩ :: s.live.erase g, g :: s.freed⟩

section

variable (P : Allocator w π) (zP : NonZeroLayout w → Heap π → Option Block × Heap π)
  (RP : FixedRange π) (S : Allocator w σ)
  (zS : NonZeroLayout w → Heap σ → Option Block × Heap σ)

/-- The router over the two halves and their records. -/
def router : Allocator w (WithFallback (Recorded w π) (Recorded w σ)) :=
  WithFallback.allocator (recorded P) (RP.recorded w) (recorded S)

def step (s : FallbackRun w π σ) : FallbackCall w → Option (FallbackRun w π σ)
  | .allocate l => some (s.requested l ((router P RP S).allocate l s.heap))
  | .allocateZeroed l =>
      some (s.requested l (allocateWith (recordedCall zP) (recordedCall zS) l s.heap))
  | .deallocate i =>
      match s.live[i]? with
      | none => none
      | some g =>
          some ⟨(router P RP S).deallocate g.block.ptr g.layout s.heap, s.live.erase g,
            g :: s.freed⟩
  | .grow i new =>
      match s.live[i]? with
      | none => none
      | some g =>
          if g.layout.size ≤ new.size then
            some (s.resized g new ((router P RP S).grow g.block.ptr g.layout new s.heap))
          else none
  | .shrink i new =>
      match s.live[i]? with
      | none => none
      | some g =>
          if new.size ≤ g.layout.size then
            some (s.resized g new ((router P RP S).shrink g.block.ptr g.layout new s.heap))
          else none
  | .write i off v =>
      match s.live[i]? with
      | none => none
      | some g =>
          if off < g.block.len then
            some { s with heap := ⟨s.heap.alloc, writeByte s.heap.mem (g.block.ptr + off) v⟩ }
          else none

end

/-- The router as built, with the blocks that are out of the halves. -/
def init (f : WithFallback (Recorded w π) (Recorded w σ)) (m : Mem) (live : List (Grant w)) :
    FallbackRun w π σ := ⟨⟨f, m⟩, live, []⟩

/-- What the two halves have received. -/
def received (h : Heap (WithFallback (Recorded w π) (Recorded w σ))) : List (Ticket w) :=
  h.alloc.primary.received ++ h.alloc.secondary.received

/-! ## What the halves have received -/

variable {P : Allocator w π} {zP : NonZeroLayout w → Heap π → Option Block × Heap π}
  {RP : FixedRange π} {IP : Heap π → Set (Grant w) → Prop}
  {S : Allocator w σ} {zS : NonZeroLayout w → Heap σ → Option Block × Heap σ}
  {RS : FixedRange σ} {IS : Heap σ → Set (Grant w) → Prop}
  {h h' : Heap (WithFallback (Recorded w π) (Recorded w σ))} {l new : NonZeroLayout w}
  {oldP oldS : List (Grant w)} {s s' : FallbackRun w π σ} {g : Grant w} {b : Block}
  {i : Nat} {c : FallbackCall w}

theorem received_recordedCall {τ : Type} (f : NonZeroLayout w → Heap τ → Option Block × Heap τ)
    (l : NonZeroLayout w) (q : Heap (Recorded w τ)) :
    (recordedCall f l q).2.alloc.received = q.alloc.received := by
  unfold recordedCall
  rcases f l (Recorded.heap q) with ⟨_ | b, r⟩ <;> rfl

/-- A request hands nothing back. -/
theorem received_allocateWith (fP : NonZeroLayout w → Heap π → Option Block × Heap π)
    (fS : NonZeroLayout w → Heap σ → Option Block × Heap σ) (l : NonZeroLayout w)
    (h : Heap (WithFallback (Recorded w π) (Recorded w σ))) :
    received (allocateWith (recordedCall fP) (recordedCall fS) l h).2 = received h := by
  have hP := received_recordedCall fP l (primaryHeap h)
  unfold allocateWith
  split
  case h_1 b r hcall =>
      rw [hcall] at hP
      exact congrArg (· ++ h.alloc.secondary.received) hP
  case h_2 r hcall =>
      rw [hcall] at hP
      have hS := received_recordedCall fS l (secondaryHeap (setPrimary h r))
      exact congrArg₂ (· ++ ·) hP hS

/-- A free hands the block to one of the halves. -/
theorem received_deallocate (P : Allocator w π) (RP : FixedRange π) (S : Allocator w σ)
    (ptr : Nat) (l : NonZeroLayout w)
    (h : Heap (WithFallback (Recorded w π) (Recorded w σ))) :
    (received ((router P RP S).deallocate ptr l h)).Perm ((ptr, l) :: received h) := by
  simp only [router, WithFallback.allocator, WithFallback.deallocate]
  split
  · exact List.Perm.refl _
  · exact List.perm_middle

/-! ## The invariant -/

structure Routed (RP : FixedRange π) (RS : FixedRange σ) (IP : Heap π → Set (Grant w) → Prop)
    (IS : Heap σ → Set (Grant w) → Prop) (oldP oldS : List (Grant w))
    (s : FallbackRun w π σ) : Prop where
  holds : WithFallback.Holds w (RP.recorded w) (RS.recorded w) (Logged IP oldP) (Logged IS oldS)
    s.heap {g | g ∈ s.live}
  nodup : s.live.Nodup
  freed_perm : (s.freed.map Grant.ticket).Perm (received s.heap)

theorem Routed.init (hP : OwnsRange P zP RP IP) (hS : OwnsRange S zS RS IS) {p : π} {q : σ}
    {f : WithFallback (Recorded w π) (Recorded w σ)} {m : Mem}
    (hnew : tryNew w (RP.recorded w) (RS.recorded w) ⟨p, [], []⟩ ⟨q, [], []⟩ = some f)
    (hIP : IP ⟨p, m⟩ {g | g ∈ oldP}) (hIS : IS ⟨q, m⟩ {g | g ∈ oldS}) (hnodupP : oldP.Nodup)
    (hnodupS : oldS.Nodup) : Routed RP RS IP IS oldP oldS (init f m (oldP ++ oldS)) := by
  obtain ⟨rfl, hdisj⟩ := tryNew_eq_some hnew
  have hs : Split w (RP.recorded w) (RS.recorded w) (Logged IP oldP) (Logged IS oldS)
      ⟨⟨⟨p, [], []⟩, ⟨q, [], []⟩⟩, m⟩ {g | g ∈ oldP} {g | g ∈ oldS} :=
    ⟨logged_init hIP hnodupP, logged_init hIS hnodupS, hdisj⟩
  refine ⟨⟨_, _, ?_, hs⟩, hnodupP.append hnodupS fun g hg hg' => ?_, List.Perm.nil⟩
  · ext g
    exact List.mem_append
  · exact hs.not_mem_secondary (hP.recorded oldP) (hS.recorded oldS) hg hg'

/-- A block that overlaps no kept block is not one of them. -/
theorem not_mem_of_fresh {A : Allocator w (WithFallback (Recorded w π) (Recorded w σ))}
    {I : Heap (WithFallback (Recorded w π) (Recorded w σ)) → Set (Grant w) → Prop}
    (hA : HonoursCore A I) {K : List (Grant w)} (hiss : Issued I {g | g ∈ K} h h' b l) :
    (⟨b, l⟩ : Grant w) ∉ K := fun hmem =>
  not_disjoint_self (hA.satisfies hiss.inv (Set.mem_insert (⟨b, l⟩ : Grant w) _)).len_pos
    (hiss.fresh _ hmem)

theorem Routed.requested (hP : OwnsRange P zP RP IP) (hS : OwnsRange S zS RS IS)
    (hs : Routed RP RS IP IS oldP oldS s)
    {fP : NonZeroLayout w → Heap π → Option Block × Heap π}
    {fS : NonZeroLayout w → Heap σ → Option Block × Heap σ} (hfP : AllocatesIn RP IP fP)
    (hfS : AllocatesIn RS IS fS) (l : NonZeroLayout w) :
    Routed RP RS IP IS oldP oldS
      (s.requested l (allocateWith (recordedCall fP) (recordedCall fS) l s.heap)) := by
  have hfP' := hfP.note hP.toHonoursCore oldP
  have hfS' := hfS.note hS.toHonoursCore oldS
  have hP' := hP.recorded oldP
  have hS' := hS.recorded oldS
  have hrec := received_allocateWith fP fS l s.heap
  obtain ⟨LP, LS, hset, hsplit⟩ := hs.holds
  rcases hcall : allocateWith (recordedCall fP) (recordedCall fS) l s.heap with ⟨_ | b, h⟩
  · rw [hcall] at hrec
    have hun := hsplit.allocateWith_none hP' hS' hfP' hfS' hcall
    refine ⟨?_, hs.nodup, ?_⟩
    · rw [← hset] at hun
      exact hun.inv
    · exact hs.freed_perm.trans (List.Perm.of_eq hrec.symm)
  · rw [hcall] at hrec
    have hiss := hsplit.allocateWith_some hP' hS' hfP' hfS' hcall
    rw [← hset] at hiss
    have hnew := not_mem_of_fresh (honoursCore hP' hS') hiss
    refine ⟨?_, List.nodup_cons.mpr ⟨hnew, hs.nodup⟩, ?_⟩
    · have hinv := hiss.inv
      rw [← List.setOfPred_mem_cons] at hinv
      exact hinv
    · exact hs.freed_perm.trans (List.Perm.of_eq hrec.symm)

/-- A resize, from what it does to the ledger and to the records. -/
theorem Routed.resized (hP : OwnsRange P zP RP IP) (hS : OwnsRange S zS RS IS)
    (hs : Routed RP RS IP IS oldP oldS s)
    {r : Option Block × Heap (WithFallback (Recorded w π) (Recorded w σ))}
    (hnone : ∀ h, r = (none, h) →
      Unchanged (WithFallback.Holds w (RP.recorded w) (RS.recorded w) (Logged IP oldP)
        (Logged IS oldS)) {g | g ∈ s.live} s.heap h ∧ received h = received s.heap)
    (hsome : ∀ b h, r = (some b, h) →
      Issued (WithFallback.Holds w (RP.recorded w) (RS.recorded w) (Logged IP oldP)
        (Logged IS oldS)) ({g | g ∈ s.live} \ {g}) s.heap h b new ∧
        (received h).Perm (g.ticket :: received s.heap)) :
    Routed RP RS IP IS oldP oldS (s.resized g new r) := by
  rcases r with ⟨_ | b, h⟩
  · obtain ⟨hun, hrec⟩ := hnone h rfl
    exact ⟨hun.inv, hs.nodup, hs.freed_perm.trans (List.Perm.of_eq hrec.symm)⟩
  · obtain ⟨hiss, hrec⟩ := hsome b h rfl
    rw [← set_erase hs.nodup] at hiss
    have hnew := not_mem_of_fresh (honoursCore (hP.recorded oldP) (hS.recorded oldS)) hiss
    refine ⟨?_, List.nodup_cons.mpr ⟨hnew, hs.nodup.erase g⟩, ?_⟩
    · have hinv := hiss.inv
      rw [← List.setOfPred_mem_cons] at hinv
      exact hinv
    · exact (hs.freed_perm.cons g.ticket).trans hrec.symm

/-- The records after a resize. -/
theorem received_resize (P : Allocator w π) (RP : FixedRange π) (S : Allocator w σ) {n : Nat}
    {r : Option Block × Heap (WithFallback (Recorded w π) (Recorded w σ))}
    (hnone : ∀ h₁, (router P RP S).allocate new h = (none, h₁) → r = (none, h₁))
    (hsome : ∀ b h₁, (router P RP S).allocate new h = (some b, h₁) → r = (some b,
      (router P RP S).deallocate g.block.ptr g.layout
        ⟨h₁.alloc, copyBytes h₁.mem g.block.ptr b.ptr n⟩)) :
    (∀ h₁, r = (none, h₁) → received h₁ = received h) ∧
      ∀ b h₁, r = (some b, h₁) → (received h₁).Perm (g.ticket :: received h) := by
  have hrec : received ((router P RP S).allocate new h).2 = received h :=
    received_allocateWith P.allocate S.allocate new h
  rcases hcall : (router P RP S).allocate new h with ⟨_ | b, h₁⟩
  · rw [hcall] at hrec
    rw [hnone h₁ hcall]
    refine ⟨fun h₂ heq => ?_, fun b h₂ heq => ?_⟩
    · cases heq
      exact hrec
    · cases heq
  · rw [hcall] at hrec
    rw [hsome b h₁ hcall]
    refine ⟨fun h₂ heq => ?_, fun b h₂ heq => ?_⟩
    · cases heq
    · cases heq
      have hfree := received_deallocate P RP S g.block.ptr g.layout
        ⟨h₁.alloc, copyBytes h₁.mem g.block.ptr b.ptr n⟩
      have hsame : received (⟨h₁.alloc, copyBytes h₁.mem g.block.ptr b.ptr n⟩ :
          Heap (WithFallback (Recorded w π) (Recorded w σ))) = received h := hrec
      rw [hsame] at hfree
      exact hfree

theorem Routed.step_deallocate (hP : OwnsRange P zP RP IP) (hS : OwnsRange S zS RS IS)
    (hs : Routed RP RS IP IS oldP oldS s)
    (hstep : step P zP RP S zS s (.deallocate i) = some s') :
    Routed RP RS IP IS oldP oldS s' := by
  simp only [step] at hstep
  split at hstep
  case h_1 => cases hstep
  case h_2 g hi =>
      cases hstep
      have hg : g ∈ s.live := List.mem_of_getElem? hi
      have hA := honoursCore (hP.recorded oldP) (hS.recorded oldS)
      have hun := hA.deallocate hs.holds hg
      rw [← set_erase hs.nodup] at hun
      have hrec := received_deallocate P RP S g.block.ptr g.layout s.heap
      exact ⟨hun.inv, hs.nodup.erase g, (hs.freed_perm.cons g.ticket).trans hrec.symm⟩

theorem Routed.step_grow (hP : OwnsRange P zP RP IP) (hS : OwnsRange S zS RS IS)
    (hs : Routed RP RS IP IS oldP oldS s)
    (hstep : step P zP RP S zS s (.grow i new) = some s') :
    Routed RP RS IP IS oldP oldS s' := by
  simp only [step] at hstep
  split at hstep
  case h_1 => cases hstep
  case h_2 g hi =>
      split at hstep
      case isFalse => cases hstep
      case isTrue hsize =>
          cases hstep
          have hg : g ∈ s.live := List.mem_of_getElem? hi
          have hA := honoursCore (hP.recorded oldP) (hS.recorded oldS)
          obtain ⟨hnone, hsome⟩ := received_resize P RP S (g := g)
            (fun h₁ hcall => defaultGrow_of_none g.block.ptr hcall)
            (fun b h₁ hcall => defaultGrow_of_some g.block.ptr hcall)
          exact hs.resized hP hS
            (fun h₁ heq => ⟨hA.defaultGrow_none hs.holds heq, hnone h₁ heq⟩)
            fun b h₁ heq => ⟨(hA.defaultGrow_some hs.holds hg hsize heq).1, hsome b h₁ heq⟩

theorem Routed.step_shrink (hP : OwnsRange P zP RP IP) (hS : OwnsRange S zS RS IS)
    (hs : Routed RP RS IP IS oldP oldS s)
    (hstep : step P zP RP S zS s (.shrink i new) = some s') :
    Routed RP RS IP IS oldP oldS s' := by
  simp only [step] at hstep
  split at hstep
  case h_1 => cases hstep
  case h_2 g hi =>
      split at hstep
      case isFalse => cases hstep
      case isTrue hsize =>
          cases hstep
          have hg : g ∈ s.live := List.mem_of_getElem? hi
          have hA := honoursCore (hP.recorded oldP) (hS.recorded oldS)
          obtain ⟨hnone, hsome⟩ := received_resize P RP S (g := g)
            (fun h₁ hcall => defaultShrink_of_none g.block.ptr hcall)
            (fun b h₁ hcall => defaultShrink_of_some g.block.ptr hcall)
          exact hs.resized hP hS
            (fun h₁ heq => ⟨hA.defaultShrink_none hs.holds heq, hnone h₁ heq⟩)
            fun b h₁ heq => ⟨(hA.defaultShrink_some hs.holds hg hsize heq).1, hsome b h₁ heq⟩

theorem Routed.step_write (hP : OwnsRange P zP RP IP) (hS : OwnsRange S zS RS IS)
    (hs : Routed RP RS IP IS oldP oldS s) {off : Nat} {v : UInt8}
    (hstep : step P zP RP S zS s (.write i off v) = some s') :
    Routed RP RS IP IS oldP oldS s' := by
  simp only [step] at hstep
  split at hstep
  case h_1 => cases hstep
  case h_2 g hi =>
      split at hstep
      case isFalse => cases hstep
      case isTrue hoff =>
          cases hstep
          have hg : g ∈ s.live := List.mem_of_getElem? hi
          have hA := honoursCore (hP.recorded oldP) (hS.recorded oldS)
          exact ⟨hA.write hs.holds (writeByte_eqOn_live hg hoff s.heap.mem v), hs.nodup,
            hs.freed_perm⟩

theorem Routed.step (hP : OwnsRange P zP RP IP) (hS : OwnsRange S zS RS IS)
    (hs : Routed RP RS IP IS oldP oldS s)
    (hstep : FallbackRun.step P zP RP S zS s c = some s') :
    Routed RP RS IP IS oldP oldS s' := by
  cases c with
  | allocate l =>
      cases hstep
      exact hs.requested hP hS hP.allocate_in hS.allocate_in l
  | allocateZeroed l =>
      cases hstep
      exact hs.requested hP hS hP.zeroed_in hS.zeroed_in l
  | deallocate i => exact hs.step_deallocate hP hS hstep
  | grow i new => exact hs.step_grow hP hS hstep
  | shrink i new => exact hs.step_shrink hP hS hstep
  | write i off v => exact hs.step_write hP hS hstep

/-! ## What the invariant says -/

/-- Of the blocks `LP` and `LS`, the first go to the primary and the others to the secondary. -/
structure RoutesTo (P : Allocator w π) (RP : FixedRange π) (S : Allocator w σ)
    (h : Heap (WithFallback (Recorded w π) (Recorded w σ))) (LP LS : List (Grant w)) : Prop where
  free_primary : ∀ g ∈ LP, (router P RP S).deallocate g.block.ptr g.layout h =
    setPrimary h ((recorded P).deallocate g.block.ptr g.layout (primaryHeap h))
  free_secondary : ∀ g ∈ LS, (router P RP S).deallocate g.block.ptr g.layout h =
    setSecondary h ((recorded S).deallocate g.block.ptr g.layout (secondaryHeap h))
  usable_primary : ∀ g ∈ LP, (router P RP S).usableSize g.block.ptr g.layout h =
    P.usableSize g.block.ptr g.layout (Recorded.heap (primaryHeap h))
  usable_secondary : ∀ g ∈ LS, (router P RP S).usableSize g.block.ptr g.layout h =
    S.usableSize g.block.ptr g.layout (Recorded.heap (secondaryHeap h))

/-- The live blocks fall into those that the primary's record has out and those that the
secondary's has out. -/
theorem Routed.exists_split (hP : OwnsRange P zP RP IP) (hS : OwnsRange S zS RS IS)
    (hs : Routed RP RS IP IS oldP oldS s) :
    ∃ LP LS : List (Grant w), s.live.Perm (LP ++ LS) ∧
      (oldP.map Grant.ticket ++ s.heap.alloc.primary.issued).Perm
        (s.heap.alloc.primary.received ++ LP.map Grant.ticket) ∧
      (oldS.map Grant.ticket ++ s.heap.alloc.secondary.issued).Perm
        (s.heap.alloc.secondary.received ++ LS.map Grant.ticket) ∧
      RoutesTo P RP S s.heap LP LS := by
  obtain ⟨LP, LS, hset, hsplit⟩ := hs.holds
  obtain ⟨outP, hnodupP, hmemP, hpermP⟩ := hsplit.primary.accounts
  obtain ⟨outS, hnodupS, hmemS, hpermS⟩ := hsplit.secondary.accounts
  have hP' := hP.recorded oldP
  have hS' := hS.recorded oldS
  have hdisj : outP.Disjoint outS := fun g hg hg' =>
    hsplit.not_mem_secondary hP' hS' ((hmemP g).mpr hg) ((hmemS g).mpr hg')
  refine ⟨outP, outS, ?_, hpermP, hpermS, ?_⟩
  · rw [List.perm_ext_iff_of_nodup hs.nodup (hnodupP.append hnodupS hdisj)]
    intro g
    calc g ∈ s.live ↔ g ∈ LP ∪ LS := by rw [← hset]; exact Iff.rfl
      _ ↔ g ∈ outP ∨ g ∈ outS := or_congr (hmemP g) (hmemS g)
      _ ↔ g ∈ outP ++ outS := List.mem_append.symm
  · have hs := hsplit.halves
    have htells := hsplit.tells
    have hapart := disjoint_blocks hsplit.disjoint
    exact ⟨fun g hg => hs.deallocate_primary (hP'.worksIn _) htells ((hmemP g).mpr hg),
      fun g hg => hs.deallocate_secondary (hS'.worksIn _) htells hapart ((hmemS g).mpr hg),
      fun g hg => hs.usableSize_primary (hP'.worksIn _) htells ((hmemP g).mpr hg),
      fun g hg => hs.usableSize_secondary (hS'.worksIn _) htells hapart ((hmemS g).mpr hg)⟩

/-- **Every block goes back to the half that issued it.** After every run of a router whose ranges
`try_new` has accepted, the live blocks are those that the primary has issued and not received
(`LP`) and those of the secondary (`LS`); what has been freed is what the halves have received,
under the layouts it was issued under; and a free or a size query of a live block is the one of
its half. Whatever two ranges are, accepted ones have no address in common, and rejected ones do,
or are empty, or end outside the address space. -/
theorem with_fallback_correct (hP : OwnsRange P zP RP IP) (hS : OwnsRange S zS RS IS) {p : π}
    {q : σ} {f : WithFallback (Recorded w π) (Recorded w σ)} {m : Mem}
    (hnew : tryNew w (RP.recorded w) (RS.recorded w) ⟨p, [], []⟩ ⟨q, [], []⟩ = some f)
    (hIP : IP ⟨p, m⟩ {g | g ∈ oldP}) (hIS : IS ⟨q, m⟩ {g | g ∈ oldS}) (hnodupP : oldP.Nodup)
    (hnodupS : oldS.Nodup) {cs : List (FallbackCall w)}
    (hrun : Machine.run (FallbackRun.step P zP RP S zS) (FallbackRun.init f m (oldP ++ oldS)) cs =
      some s) :
    (∃ LP LS : List (Grant w), s.live.Perm (LP ++ LS) ∧
      (oldP.map Grant.ticket ++ s.heap.alloc.primary.issued).Perm
        (s.heap.alloc.primary.received ++ LP.map Grant.ticket) ∧
      (oldS.map Grant.ticket ++ s.heap.alloc.secondary.issued).Perm
        (s.heap.alloc.secondary.received ++ LS.map Grant.ticket) ∧
      RoutesTo P RP S s.heap LP LS) ∧
    (s.freed.map Grant.ticket).Perm
      (s.heap.alloc.primary.received ++ s.heap.alloc.secondary.received) ∧
    ∀ (QP : FixedRange π) (QS : FixedRange σ) (k : WithFallback π σ),
      (rangesDisjoint w QP QS k = true → ∀ a < 2 ^ w,
        ¬ (QP.contains w a k.primary = true ∧ QS.contains w a k.secondary = true)) ∧
      (rangesDisjoint w QP QS k = false →
        2 ^ w ≤ QP.base k.primary + QP.size k.primary ∨
        2 ^ w ≤ QS.base k.secondary + QS.size k.secondary ∨
        QP.size k.primary = 0 ∨ QS.size k.secondary = 0 ∨
        ∃ a < 2 ^ w, QP.contains w a k.primary = true ∧ QS.contains w a k.secondary = true) := by
  have hs : Routed RP RS IP IS oldP oldS s :=
    Machine.run_invariant (fun _ _ _ hs hstep => hs.step hP hS hstep)
      (Routed.init hP hS hnew hIP hIS hnodupP hnodupS) hrun
  refine ⟨hs.exists_split hP hS, hs.freed_perm, fun QP QS k => ⟨fun hdisj a ha => ?_, ?_⟩⟩
  · exact not_contains_of_rangesDisjoint hdisj ha
  · intro hreject
    by_contra hnone
    push Not at hnone
    obtain ⟨hendP, hendS, hzeroP, hzeroS, hshared⟩ := hnone
    obtain ⟨a, ha, hboth⟩ := exists_contains_of_not_rangesDisjoint hreject hendP hendS
      (Nat.pos_of_ne_zero hzeroP) (Nat.pos_of_ne_zero hzeroS)
    exact hshared a ha hboth.1 hboth.2

/-! ## A small arena with a larger one behind it -/

abbrev smallRange : FixedRange (InlineBacked 64 16) := InlineBacked.range 64 16

abbrev largeRange : FixedRange (InlineBacked 64 64) := InlineBacked.range 64 64

def smallArena : BumpArena (InlineBacked 64 16) := ⟨.lit 64 16 64 (Eq.refl true), 16, 0⟩

def largeArena : BumpArena (InlineBacked 64 64) := ⟨.lit 64 64 1024 (Eq.refl true), 64, 0⟩

theorem smallArena_owns : OwnsRange (BumpArena.allocator 64 smallRange)
    (defaultAllocateZeroed (BumpArena.allocate smallRange)) (BumpArena.range smallRange)
    (BumpArena.Holds smallRange 64) :=
  BumpArena.ownsRange (InlineBacked.range_lawful 64 16) 64 (by decide)

theorem largeArena_owns : OwnsRange (BumpArena.allocator 64 largeRange)
    (defaultAllocateZeroed (BumpArena.allocate largeRange)) (BumpArena.range largeRange)
    (BumpArena.Holds largeRange 1024) :=
  BumpArena.ownsRange (InlineBacked.range_lawful 64 64) 1024 (by decide)

/-- A block of the small arena is too large for it when it grows, and moves back when it shrinks. -/
def movingCalls : List (FallbackCall 64) :=
  [.allocate (.lit 64 8 8 (Eq.refl true)), .grow 0 (.lit 64 24 8 (Eq.refl true)),
    .allocateZeroed (.lit 64 32 8 (Eq.refl true)), .shrink 1 (.lit 64 8 8 (Eq.refl true)),
    .deallocate 0]

theorem with_fallback_correct_moving :
    ∃ f s, tryNew 64 ((BumpArena.range smallRange).recorded 64)
        ((BumpArena.range largeRange).recorded 64) ⟨smallArena, [], []⟩ ⟨largeArena, [], []⟩ =
          some f ∧
      Machine.run (step (BumpArena.allocator 64 smallRange)
        (defaultAllocateZeroed (BumpArena.allocate smallRange)) (BumpArena.range smallRange)
        (BumpArena.allocator 64 largeRange)
        (defaultAllocateZeroed (BumpArena.allocate largeRange)))
        (init f (fun _ => 0) []) movingCalls = some s ∧
      (s.freed.map Grant.ticket).Perm
        (s.heap.alloc.primary.received ++ s.heap.alloc.secondary.received) := by
  let ran := (tryNew 64 ((BumpArena.range smallRange).recorded 64)
    ((BumpArena.range largeRange).recorded 64) ⟨smallArena, [], []⟩ ⟨largeArena, [], []⟩).bind
      fun f => Machine.run (step (BumpArena.allocator 64 smallRange)
        (defaultAllocateZeroed (BumpArena.allocate smallRange)) (BumpArena.range smallRange)
        (BumpArena.allocator 64 largeRange)
        (defaultAllocateZeroed (BumpArena.allocate largeRange)))
        (init f (fun _ => 0) []) movingCalls
  have hsome : ran.isSome := by decide +kernel
  obtain ⟨s, hs⟩ := Option.isSome_iff_exists.mp hsome
  obtain ⟨f, hnew, hrun⟩ := Option.bind_eq_some_iff.mp hs
  have hempty : {g : Grant 64 | g ∈ ([] : List (Grant 64))} = ∅ :=
    Set.eq_empty_of_forall_notMem fun g hg => List.not_mem_nil hg
  have hP : BumpArena.Holds smallRange 64 ⟨smallArena, fun _ => 0⟩
      {g : Grant 64 | g ∈ ([] : List (Grant 64))} := by
    rw [hempty]
    exact BumpArena.holds_new (b := InlineBacked.lit 64 16 64 (Eq.refl true)) rfl _
  have hS : BumpArena.Holds largeRange 1024 ⟨largeArena, fun _ => 0⟩
      {g : Grant 64 | g ∈ ([] : List (Grant 64))} := by
    rw [hempty]
    exact BumpArena.holds_new (b := InlineBacked.lit 64 64 1024 (Eq.refl true)) rfl _
  obtain ⟨-, hfreed, -⟩ := with_fallback_correct smallArena_owns largeArena_owns hnew hP hS
    List.nodup_nil List.nodup_nil hrun
  exact ⟨f, s, hnew, hrun, hfreed⟩

end FallbackRun

end ForgeAlloc
