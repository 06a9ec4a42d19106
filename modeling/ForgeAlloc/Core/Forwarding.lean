import ForgeAlloc.Core.Wrapping

set_option autoImplicit false

/-! # Wrappers that hand on the inner block

Some wrappers return the block of the inner allocator as it is, and forward `usable_size` with it.
Besides, they may refuse a request, ask for a stricter alignment, or keep books.

A `Forwarder` says what one of them does around the calls of its inner allocator, and
`Forwarder.allocator` is the wrapper. It is a guard that keeps no byte of the inner block
(`Forwarder.sound`), so over a lawful component it is a lawful component
(`Component.Lawful.forwarded`).
-/

namespace ForgeAlloc

open ByteMemory

/-- The panic of a free whose layout cannot be promoted. -/
inductive PromotePanic
  | promoteLayout
  deriving DecidableEq, Repr

def PromotePanic.message : PromotePanic → String
  | .promoteLayout =>
      "HugePageAligned::deallocate: promote_layout failed for a layout that succeeded at " ++
        "allocate-time: AllocError"

structure Forwarder (w : Nat) (ω σ κ : Type) where
  inner : ω → σ
  put : ω → σ → ω
  /-- What the layout that goes on depends on. -/
  key : ω → κ
  /-- The layout that goes on to the inner allocator. -/
  promote : κ → NonZeroLayout w → Option (NonZeroLayout w)
  /-- Before a request: whether it is refused. -/
  refuses : NonZeroLayout w → ω → Bool × ω := fun _ s => (false, s)
  /-- After a request that went on. -/
  requested : NonZeroLayout w → Option Block → ω → ω := fun _ _ s => s
  /-- Before a free. -/
  freeing : NonZeroLayout w → ω → ω := fun _ s => s
  inner_put : ∀ s t, inner (put s t) = t := by intros; rfl
  inner_refuses : ∀ l s, inner (refuses l s).2 = inner s := by intros; rfl
  inner_requested : ∀ l r s, inner (requested l r s) = inner s := by intros; rfl
  inner_freeing : ∀ l s, inner (freeing l s) = inner s := by intros; rfl
  key_put : ∀ s t, key (put s t) = key s := by intros; rfl
  key_refuses : ∀ l s, key (refuses l s).2 = key s := by intros; rfl
  key_requested : ∀ l r s, key (requested l r s) = key s := by intros; rfl
  key_freeing : ∀ l s, key (freeing l s) = key s := by intros; rfl
  promote_spec : ∀ {k l l'}, promote k l = some l' → l'.size = l.size ∧ l.align ∣ l'.align

variable {w : Nat} {σ ω κ : Type}

namespace Forwarder

/-- The layout that goes on is the client's. -/
theorem promote_self {l il : NonZeroLayout w} (h : some l = some il) :
    il.size = l.size ∧ l.align ∣ il.align := by
  cases h
  exact ⟨rfl, dvd_rfl⟩

def allocate (F : Forwarder w ω σ κ) (A : Allocator w σ) (l : NonZeroLayout w) (h : Heap ω) :
    Option Block × Heap ω :=
  let (refused, s) := F.refuses l h.alloc
  if refused then (none, ⟨s, h.mem⟩)
  else
    match F.promote (F.key s) l with
    | none => (none, ⟨s, h.mem⟩)
    | some il =>
        let (r, t) := A.allocate il ⟨F.inner s, h.mem⟩
        (r, ⟨F.requested l r (F.put s t.alloc), t.mem⟩)

def deallocate (F : Forwarder w ω σ κ) (A : Allocator w σ) (ptr : Nat) (l : NonZeroLayout w)
    (h : Heap ω) : Option PromotePanic × Heap ω :=
  let s := F.freeing l h.alloc
  match F.promote (F.key s) l with
  | none => (some .promoteLayout, ⟨s, h.mem⟩)
  | some il =>
      let t := A.deallocate ptr il ⟨F.inner s, h.mem⟩
      (none, ⟨F.put s t.alloc, t.mem⟩)

def usableSize (F : Forwarder w ω σ κ) (A : Allocator w σ) (ptr : Nat) (l : NonZeroLayout w)
    (h : Heap ω) : Option Nat :=
  match F.promote (F.key h.alloc) l with
  | none => none
  | some il => A.usableSize ptr il (h.map F.inner)

/-- The inner block that serves a request. -/
def serves (F : Forwarder w ω σ κ) (A : Allocator w σ) (l : NonZeroLayout w) (h : Heap ω) :
    Option (Grant w) := do
  let il ← if (F.refuses l h.alloc).1 then none else F.promote (F.key h.alloc) l
  let block ← (A.allocate il (h.map F.inner)).1
  some ⟨block, il⟩

def guard (F : Forwarder w ω σ κ) (A : Allocator w σ) : Guard w σ ω κ PromotePanic where
  inner := F.inner
  key := F.key
  allocate := F.allocate A
  deallocate := F.deallocate A
  serves := F.serves A

/-- The wrapper over `A`, with the trait's resizes. -/
def allocator (F : Forwarder w ω σ κ) (A : Allocator w σ) : Allocator w ω :=
  { (F.guard A).allocator with usableSize := F.usableSize A }

/-- The block of the client is the inner one, under the layout that was handed on. -/
structure Handed (F : Forwarder w ω σ κ) (k : κ) (c : Carving w) (_m : Mem) : Prop where
  block_eq : c.user.block = c.inner.block
  promote_eq : F.promote k c.user.layout = some c.inner.layout

variable {F : Forwarder w ω σ κ} {A : Allocator w σ} {h h' : Heap ω} {l il : NonZeroLayout w}
  {b : Block} {k : κ} {c : Carving w}

theorem carves (F : Forwarder w ω σ κ) (k : κ) : Carves (F.Handed k) where
  satisfies := by
    intro c m hc hsat
    obtain ⟨hsize, halign⟩ := F.promote_spec hc.promote_eq
    rw [hc.block_eq]
    exact ⟨halign.trans hsat.aligned, hsize ▸ hsat.large, hsat.nonnull, hsat.inSpace⟩
  subset := fun hc => by rw [hc.block_eq]
  congr := fun hc _ => ⟨hc.block_eq, hc.promote_eq⟩

theorem allocate_refused (hrefused : (F.refuses l h.alloc).1 = true) :
    F.allocate A l h = (none, ⟨(F.refuses l h.alloc).2, h.mem⟩) := by
  simp only [allocate, hrefused, if_true]

theorem allocate_unpromoted (hrefused : (F.refuses l h.alloc).1 = false)
    (hpromote : F.promote (F.key h.alloc) l = none) :
    F.allocate A l h = (none, ⟨(F.refuses l h.alloc).2, h.mem⟩) := by
  simp only [allocate, hrefused, F.key_refuses, hpromote, Bool.false_eq_true, if_false]

theorem allocate_forwarded (hrefused : (F.refuses l h.alloc).1 = false)
    (hpromote : F.promote (F.key h.alloc) l = some il) :
    F.allocate A l h =
      let r := A.allocate il (h.map F.inner)
      (r.1, ⟨F.requested l r.1 (F.put (F.refuses l h.alloc).2 r.2.alloc), r.2.mem⟩) := by
  simp only [allocate, hrefused, F.key_refuses, F.inner_refuses, hpromote, Bool.false_eq_true,
    if_false]
  rfl

/-- The three ways a request goes. -/
theorem allocate_cases (F : Forwarder w ω σ κ) (A : Allocator w σ) (l : NonZeroLayout w)
    (h : Heap ω) :
    (F.serves A l h = none ∧ F.allocate A l h = (none, ⟨(F.refuses l h.alloc).2, h.mem⟩)) ∨
      ∃ il, F.promote (F.key h.alloc) l = some il ∧
        F.serves A l h = (A.allocate il (h.map F.inner)).1.map (fun b => ⟨b, il⟩) ∧
        F.allocate A l h =
          let r := A.allocate il (h.map F.inner)
          (r.1, ⟨F.requested l r.1 (F.put (F.refuses l h.alloc).2 r.2.alloc), r.2.mem⟩) := by
  by_cases hrefused : (F.refuses l h.alloc).1 = true
  · exact Or.inl ⟨by simp [serves, hrefused], allocate_refused hrefused⟩
  · rw [Bool.not_eq_true] at hrefused
    rcases hpromote : F.promote (F.key h.alloc) l with _ | il
    · exact Or.inl ⟨by simp [serves, hrefused, hpromote], allocate_unpromoted hrefused hpromote⟩
    · refine Or.inr ⟨il, rfl, ?_, allocate_forwarded hrefused hpromote⟩
      cases hcall : (A.allocate il (h.map F.inner)).1 <;> simp [serves, hrefused, hpromote, hcall]

theorem deallocate_promoted (ptr : Nat) (hpromote : F.promote (F.key h.alloc) l = some il) :
    F.deallocate A ptr l h =
      let t := A.deallocate ptr il (h.map F.inner)
      (none, ⟨F.put (F.freeing l h.alloc) t.alloc, t.mem⟩) := by
  simp only [deallocate, F.key_freeing, F.inner_freeing, hpromote]
  rfl

theorem key_after (F : Forwarder w ω σ κ) (l : NonZeroLayout w) (r : Option Block) (s : ω) (t : σ) :
    F.key (F.requested l r (F.put (F.refuses l s).2 t)) = F.key s := by
  rw [F.key_requested, F.key_put, F.key_refuses]

theorem inner_after (F : Forwarder w ω σ κ) (l : NonZeroLayout w) (r : Option Block) (s : ω)
    (t : σ) : F.inner (F.requested l r (F.put (F.refuses l s).2 t)) = t := by
  rw [F.inner_requested, F.inner_put]

/-- **What the calls of the wrapper do.** -/
theorem sound (F : Forwarder w ω σ κ) (A : Allocator w σ) : (F.guard A).Sound A F.Handed where
  carves := F.carves
  allocate_none := by
    intro l h h' heq
    change F.allocate A l h = (none, h') at heq
    rcases F.allocate_cases A l h with ⟨hserves, hcall⟩ | ⟨il, -, hserves, hcall⟩
    · rw [hcall, Prod.mk.injEq] at heq
      obtain ⟨-, rfl⟩ := heq
      refine ⟨hserves, F.key_refuses _ _, Or.inl ?_⟩
      show (⟨F.inner (F.refuses l h.alloc).2, h.mem⟩ : Heap σ) = _
      rw [F.inner_refuses]
      rfl
    · rw [hcall] at heq
      obtain ⟨hnone, rfl⟩ := Prod.mk.inj heq
      refine ⟨?_, F.key_after l _ h.alloc _, Or.inr ⟨il, Prod.ext hnone ?_⟩⟩
      · change F.serves A l h = none
        rw [hserves, hnone]
        rfl
      · show _ = (⟨F.inner _, _⟩ : Heap σ)
        rw [F.inner_after]
        rfl
  allocate_some := by
    intro l h h' b heq
    change F.allocate A l h = (some b, h') at heq
    rcases F.allocate_cases A l h with ⟨-, hcall⟩ | ⟨il, hpromote, hserves, hcall⟩
    · rw [hcall] at heq
      cases heq
    · rw [hcall] at heq
      obtain ⟨hsome, rfl⟩ := Prod.mk.inj heq
      refine ⟨⟨b, il⟩, (A.allocate il (h.map F.inner)).2, ?_, F.key_after l _ h.alloc _,
        Prod.ext hsome rfl, F.inner_after l _ h.alloc _, fun _ => ⟨fun _ _ => rfl, rfl, hpromote⟩⟩
      change F.serves A l h = _
      rw [hserves, hsome]
      rfl
  deallocate := by
    intro c h hc hsat
    refine ⟨_, h.mem, deallocate_promoted c.user.block.ptr hc.promote_eq, ?_, fun _ _ => rfl, ?_⟩
    · exact (F.key_put _ _).trans (F.key_freeing _ _)
    · show (⟨F.inner (F.put _ _), _⟩ : Heap σ) = _
      rw [F.inner_put, hc.block_eq]
      rfl

end Forwarder

namespace Component

/-- The component of a forwarder over `C`. -/
def forwarded (C : Component w σ) (F : Forwarder w ω σ κ) (k : κ) : Component w ω :=
  { C.guarded (F.guard C.calls) F.Handed k F.put (F.usableSize C.calls)
      (fun g => (F.promote k g.layout).bind fun il => C.answer ⟨g.block, il⟩)
      (fun l h => (F.promote k l).any fun il => C.roomy il (h.map F.inner))
      fun l h => (F.promote k l).any fun il => C.leaks il (h.map F.inner) with
    remoteFree := fun ptr l h => do
      let il ← F.promote (F.key h.alloc) l
      let t ← C.remoteFree ptr il (h.map F.inner)
      some ⟨F.put h.alloc t.alloc, t.mem⟩ }

variable {C : Component w σ} {F : Forwarder w ω σ κ} {k : κ} {h h' : Heap ω}
  {K : Set (Carving w)} {c : Carving w}

theorem forwarded_leaks (l : NonZeroLayout w) (h : Heap ω) : (C.forwarded F k).leaks l h =
    (F.promote k l).any fun il => C.leaks il (h.map F.inner) := rfl

theorem forwarded_fresh {s : ω} {m : Mem} (hinner : C.inv ⟨F.inner s, m⟩ ∅) :
    (C.forwarded F (F.key s)).inv ⟨s, m⟩ ∅ :=
  ⟨⟨∅, (Set.image_empty _).symm, Guard.holds_empty hinner⟩, rfl⟩

theorem Lawful.forwarded_answer (hC : C.Lawful)
    (hh : (F.guard C.calls).Holds F.Handed C.inv h K) (hk : F.key h.alloc = k) (hc : c ∈ K) :
    (C.forwarded F k).answer c.user = C.answer c.inner ∧
      F.usableSize C.calls c.user.block.ptr c.user.layout h = C.answer c.inner := by
  have hpass := hh.holds c hc
  have hpromote : F.promote (F.key h.alloc) c.user.layout = some c.inner.layout := hpass.promote_eq
  have hledger : c.inner ∈ Carving.inner '' K := Set.mem_image_of_mem _ hc
  have hinner : (⟨c.user.block, c.inner.layout⟩ : Grant w) = c.inner := by rw [hpass.block_eq]
  subst hk
  constructor
  · show (F.promote (F.key h.alloc) c.user.layout).bind _ = _
    rw [hpromote, Option.bind_some, hinner]
  · rw [Forwarder.usableSize, hpromote, hpass.block_eq]
    exact hC.answer_eq hh.inner hledger

theorem Lawful.forwarded_remote (hC : C.Lawful)
    (hh : (F.guard C.calls).Holds F.Handed C.inv h K) (hc : c ∈ K)
    (hcall : (C.forwarded F k).remoteFree c.user.block.ptr c.user.layout h = some h') :
    (F.guard C.calls).Holds F.Handed C.inv h' (K \ {c}) ∧ F.key h'.alloc = F.key h.alloc ∧
      h'.mem = h.mem := by
  have hpass := hh.holds c hc
  have hpromote : F.promote (F.key h.alloc) c.user.layout = some c.inner.layout := hpass.promote_eq
  simp only [forwarded, hpromote, hpass.block_eq, Option.bind_eq_bind, Option.bind_some,
    Option.bind_eq_some_iff, Option.some.injEq] at hcall
  obtain ⟨t, hfree, rfl⟩ := hcall
  obtain ⟨hinv, hmem⟩ := hC.remote_free hh.inner (Set.mem_image_of_mem _ hc) hfree
  have hkey : F.key (F.put h.alloc t.alloc) = F.key h.alloc := F.key_put _ _
  have hheap : (F.guard C.calls).heap ⟨F.put h.alloc t.alloc, t.mem⟩ = t := by
    show (⟨F.inner (F.put h.alloc t.alloc), t.mem⟩ : Heap σ) = t
    rw [F.inner_put]
  refine ⟨?_, hkey, hmem⟩
  show Carved (F.Handed (F.key (F.put h.alloc t.alloc))) C.inv _ _
  rw [hkey, hheap]
  exact Carved.remove hh hc hinv hmem

/-- **A forwarder over a lawful component** is a lawful component: it answers what the inner
allocator answers. -/
theorem Lawful.forwarded (hC : C.Lawful) (F : Forwarder w ω σ κ) (k : κ) :
    (C.forwarded F k).Lawful := by
  have hguarded : (C.guarded (F.guard C.calls) F.Handed k F.put (F.usableSize C.calls)
      (C.forwarded F k).answer (C.forwarded F k).roomy (C.forwarded F k).leaks).Lawful := by
    refine hC.guarded (F.sound C.calls) ?_ ?_
    · intro h K c hh hk hc
      obtain ⟨hanswer, husable⟩ := hC.forwarded_answer hh hk hc
      refine ⟨husable.trans hanswer.symm, fun n hn => ?_⟩
      have hpass := hh.holds c hc
      have hle := hC.answer_le hh.inner (Set.mem_image_of_mem _ hc) (hanswer.symm.trans hn)
      obtain ⟨hsize, -⟩ := F.promote_spec hpass.promote_eq
      rw [hpass.block_eq, ← hsize]
      exact hle
    · rintro h K l b h' hh rfl heq
      change F.allocate C.calls l h = (some b, h') at heq
      rcases F.allocate_cases C.calls l h with ⟨-, hcall⟩ | ⟨il, hpromote, -, hcall⟩
      · rw [hcall] at heq
        cases heq
      · rw [hcall] at heq
        obtain ⟨hsome, -⟩ := Prod.mk.inj heq
        obtain ⟨hsize, -⟩ := F.promote_spec hpromote
        have hinner : C.calls.allocate il (h.map F.inner) =
            (some b, (C.calls.allocate il (h.map F.inner)).2) := Prod.ext hsome rfl
        have hanswer : (C.forwarded F (F.key h.alloc)).answer ⟨b, l⟩ = C.answer ⟨b, il⟩ := by
          show (F.promote (F.key h.alloc) l).bind _ = _
          rw [hpromote, Option.bind_some]
        constructor
        · show (F.promote (F.key h.alloc) l).any _ = true ↔ _
          rw [hpromote, Option.any_some, ← hsize]
          exact hC.roomy_iff hh.inner hinner
        · show (F.promote (F.key h.alloc) l).any _ = true ↔
            ((C.forwarded F (F.key h.alloc)).answer ⟨b, l⟩).getD _ < _
          rw [hpromote, Option.any_some, hanswer, ← hsize]
          exact hC.leaks_iff hh.inner hinner
  refine { hguarded with remote_free := ?_ }
  rintro h L g h' ⟨⟨K, rfl, hh⟩, hk⟩ ⟨c, hc, rfl⟩ hcall
  obtain ⟨hh', hkey, hmem⟩ := hC.forwarded_remote hh hc hcall
  exact ⟨⟨⟨_, (hh.user_sdiff hC.toHonoursCore (F.carves _) hc).symm, hh'⟩, hkey.trans hk⟩, hmem⟩

end Component

end ForgeAlloc
