import ForgeAlloc.Backing.Inline
import ForgeAlloc.Layout.Bump

set_option autoImplicit false

/-! # Trees of nested scopes

A scope is a mark in the arena; its drop rewinds to the mark. Scopes nest, and only the innermost
one is usable, so what a program does with them is a tree (`Body`): requests, scopes with bodies of
their own, and panics. A panic unwinds through the guards, dropping each, up to where it is caught.
A guard that is leaked is never dropped.

The run keeps a record. `live` are the blocks issued and not reclaimed, where a drop reclaims what
was issued since the scope was opened; each `Opening` has the cursor and the live blocks of its
moment. `Inv` is about the open guards, innermost first: their marks decrease outwards and are
below the cursor, and what was issued before a guard ends below its mark.
-/

namespace ForgeAlloc

open MachineInt ByteMemory

/-- `Scope`: the guard. The arena it borrows is the one of the heap. -/
structure Scope where
  mark : Nat

/-- What is allocated through an arena or a scope. `alloc` is an `alloc_uninit` and a write into
the block, `alloc_str` copies the bytes of the string. -/
inductive ScopeRequest (w : Nat)
  | allocate (l : NonZeroLayout w)
  | allocUninit (T : RustType w)
  | allocSliceCopy (T : RustType w) (src : Slice T)

/-- The body of a scope, or of the program. -/
inductive Body (w : Nat)
  | done
  | panic
  | alloc (q : ScopeRequest w) (rest : Body w)
  /-- A scope is opened and its body run. Its guard is leaked at the end of the body, or dropped;
  a panic out of it is caught behind the scope, or goes on. -/
  | scope (inner : Body w) (leak caught : Bool) (rest : Body w)

/-- A block that was issued, and the scopes that were open, innermost first. -/
structure Issue where
  block : Block
  time : Nat
  path : List Nat
  deriving DecidableEq

/-- A scope that was opened; the time is its name. -/
structure Opening where
  time : Nat
  outer : List Nat
  cursor : Nat
  live : List Issue
  deriving DecidableEq

/-- A drop, with the cursor before and after it. -/
structure Dropped where
  opening : Opening
  time : Nat
  before : Nat
  after : Nat
  deriving DecidableEq

/-- The block was issued while a scope was open that was dropped before the time `t`. -/
def Reclaimed (drops : List Dropped) (b : Issue) (t : Nat) : Prop :=
  ∃ d ∈ drops, d.opening.time ≤ b.time ∧ b.time < d.time ∧ d.time < t

/-- The issue is made inside the scope, inside a descendant of it, or through its parent. -/
def Opening.Covers (S : Opening) (c : Issue) : Prop :=
  (S.time :: S.outer) <:+ c.path ∨ c.path = S.outer

instance (S : Opening) (c : Issue) : Decidable (S.Covers c) :=
  inferInstanceAs (Decidable (_ ∨ _))

theorem Reclaimed.mono {drops drops' : List Dropped} {b : Issue} {t t' : Nat}
    (h : Reclaimed drops b t) (hsub : drops ⊆ drops') (ht : t ≤ t') : Reclaimed drops' b t' := by
  obtain ⟨d, hd, hopen, hlt, hbefore⟩ := h
  exact ⟨d, hsub hd, hopen, hlt, hbefore.trans_le ht⟩

theorem Opening.Covers.suffix {S : Opening} {c : Issue} (h : S.Covers c) : S.outer <:+ c.path := by
  rcases h with hinside | hparent
  · exact (List.suffix_cons S.time S.outer).trans hinside
  · exact hparent ▸ List.suffix_rfl

structure ScopeRun (β : Type) where
  heap : Heap (BumpArena β)
  clock : Nat
  live : List Issue
  issued : List Issue
  opened : List Opening
  drops : List Dropped

variable {w : Nat} {β : Type}

/-- `BumpArena::scope`, and `Scope::scope` of the arena the guard borrows. -/
def BumpArena.scope (a : BumpArena β) : Scope := ⟨a.allocated⟩

/-- `Drop for Scope`. -/
def Scope.drop (guard : Scope) (a : BumpArena β) : BumpArena β := a.rewindTo guard.mark

/-- The allocating methods of `BumpArena`, to which those of `Scope` go. -/
def ScopeRequest.call (R : FixedRange β) (h : Heap (BumpArena β)) :
    ScopeRequest w → Option Block × Heap (BumpArena β)
  | .allocate l => BumpArena.allocate R l h
  | .allocUninit T =>
      let (r, a) := BumpArena.allocUninit R T h.alloc
      (r.map fun p => ⟨p, T.size⟩, ⟨a, h.mem⟩)
  | .allocSliceCopy T src => BumpArena.allocSliceCopy R T src h

namespace ScopeRun

def init (a : BumpArena β) (m : Mem) : ScopeRun β := ⟨⟨a, m⟩, 0, [], [], [], []⟩

/-- A request through the innermost scope. -/
def request (R : FixedRange β) (q : ScopeRequest w) (guards : List Opening) (s : ScopeRun β) :
    ScopeRun β :=
  match q.call R s.heap with
  | (none, h) => { s with heap := h }
  | (some b, h) =>
      let issue : Issue := ⟨b, s.clock, guards.map Opening.time⟩
      { s with heap := h, clock := s.clock + 1, live := issue :: s.live,
               issued := issue :: s.issued }

/-- The record of a scope that is opened now. -/
def opening (guards : List Opening) (s : ScopeRun β) : Opening :=
  ⟨s.clock, guards.map Opening.time, s.heap.alloc.allocated, s.live⟩

def openScope (guards : List Opening) (s : ScopeRun β) : ScopeRun β :=
  { s with clock := s.clock + 1, opened := s.opening guards :: s.opened }

/-- The guard of the scope `S` is dropped. -/
def dropScope (guard : Scope) (S : Opening) (s : ScopeRun β) : ScopeRun β :=
  let a := guard.drop s.heap.alloc
  { s with heap := ⟨a, s.heap.mem⟩, clock := s.clock + 1,
           live := s.live.filter fun i => i.time < S.time,
           drops := ⟨S, s.clock, s.heap.alloc.allocated, a.allocated⟩ :: s.drops }

/-- The run of a body under open guards, and whether it ends in a panic. -/
def exec (R : FixedRange β) : Body w → List Opening → ScopeRun β → ScopeRun β × Bool
  | .done, _, s => (s, false)
  | .panic, _, s => (s, true)
  | .alloc q rest, guards, s => exec R rest guards (s.request R q guards)
  | .scope inner leak caught rest, guards, s =>
      let guard := s.heap.alloc.scope
      let S := s.opening guards
      let (s', panicked) := exec R inner (S :: guards) (s.openScope guards)
      -- an unwinding panic finds the guard before it could have been leaked
      let s'' := if leak && !panicked then s' else s'.dropScope guard S
      if panicked && !caught then (s'', true) else exec R rest guards s''

/-! ## Requests -/

variable {R : FixedRange β} {base : Nat}

/-- The outcome of a request: a block between the old and the new cursor, or one without bytes, or
nothing. -/
structure Reserves (w : Nat) (R : FixedRange β) (base : Nat) (a a' : BumpArena β)
    (r : Option Block) : Prop where
  sound : BumpArena.Sound w R base a'
  cursor_le : a.cursor ≤ a'.cursor
  above : ∀ b, r = some b → b.len = 0 ∨ base + a.cursor ≤ b.ptr
  within : ∀ b, r = some b → b.Within base a'.cursor

variable {a a' : BumpArena β}

theorem Reserves.of_none (hs : BumpArena.Sound w R base a') (hcur : a'.cursor = a.cursor) :
    Reserves w R base a a' none :=
  ⟨hs, hcur.ge, fun b hb => absurd hb.symm (Option.some_ne_none b),
    fun b hb => absurd hb.symm (Option.some_ne_none b)⟩

theorem Reserves.of_empty {b : Block} (hs : BumpArena.Sound w R base a) (hlen : b.len = 0) :
    Reserves w R base a a (some b) := by
  refine ⟨hs, le_rfl, fun c hc => ?_, fun c hc x hx => ?_⟩
  · cases hc
    exact Or.inl hlen
  · cases hc
    rw [Block.mem_bytes] at hx
    omega

theorem Reserves.of_aligned {b : Block} {align : Nat} (hpos : 0 < align)
    (hs : BumpArena.Sound w R base a') (hp : b.ptr = alignUp (base + a.cursor) align)
    (hend : b.ptr + b.len = base + a'.cursor) : Reserves w R base a a' (some b) := by
  have hge : base + a.cursor ≤ b.ptr := hp ▸ le_alignUp hpos
  refine ⟨hs, by omega, fun c hc => ?_, fun c hc => ?_⟩
  · cases hc
    exact Or.inr hge
  · cases hc
    exact Block.within_of_le (by omega) hend.le

/-- **Every request of a scope** is one of these. -/
theorem reserves_call (hR : R.Lawful) {h h' : Heap (BumpArena β)} {q : ScopeRequest w}
    {r : Option Block} (hs : BumpArena.Sound w R base h.alloc) (heq : q.call R h = (r, h')) :
    Reserves w R base h.alloc h'.alloc r := by
  cases q with
  | allocate l =>
      cases r with
      | none =>
          obtain ⟨hs', hcur, -⟩ := BumpArena.allocate_none hR hs heq
          exact .of_none hs' hcur
      | some b =>
          obtain ⟨hp, -, hend, hs', -⟩ := BumpArena.allocate_some hR hs heq
          exact .of_aligned l.align_pos hs' hp hend
  | allocUninit T =>
      simp only [ScopeRequest.call] at heq
      rcases hcall : BumpArena.allocUninit R T h.alloc with ⟨p, a'⟩
      rw [hcall] at heq
      cases heq
      cases p with
      | none =>
          obtain ⟨hs', hcur, -⟩ := BumpArena.allocUninit_none hR hs hcall
          exact .of_none hs' hcur
      | some p =>
          rcases BumpArena.allocUninit_some hR hs hcall with ⟨hzero, -, rfl⟩ | ⟨hp, hend, hs', -⟩
          · exact .of_empty hs hzero
          · exact .of_aligned (Nat.pos_of_isPowerOfTwo T.align_pow) hs' hp hend
  | allocSliceCopy T src =>
      cases r with
      | none =>
          obtain ⟨hs', hcur, -⟩ := BumpArena.allocSliceCopy_none hR hs heq
          exact .of_none hs' hcur
      | some b =>
          rcases BumpArena.allocSliceCopy_some hR hs heq with
            ⟨hzero, -, rfl⟩ | ⟨hp, -, hend, hs', -⟩
          · exact .of_empty hs hzero
          · exact .of_aligned (Nat.pos_of_isPowerOfTwo T.align_pow) hs' hp hend

/-! ## The invariant -/

/-- The invariant of a run under the open guards `guards`, innermost first. -/
structure Inv (w : Nat) (R : FixedRange β) (base : Nat) (guards : List Opening)
    (s : ScopeRun β) : Prop where
  sound : BumpArena.Sound w R base s.heap.alloc
  live_within : ∀ i ∈ s.live, i.block.Within base s.heap.alloc.cursor
  live_lt : ∀ i ∈ s.live, i.time < s.clock
  issued_lt : ∀ c ∈ s.issued, c.time < s.clock
  opened_lt : ∀ S ∈ s.opened, S.time < s.clock
  outer_lt : ∀ S ∈ s.opened, ∀ t ∈ S.outer, t < S.time
  guards_opened : ∀ G ∈ guards, G ∈ s.opened
  /-- The marks of the open scopes are below the cursor, and decrease outwards. -/
  mark_le : ∀ G ∈ guards, G.cursor ≤ s.heap.alloc.cursor
  sorted : guards.Pairwise fun G G' => G'.time < G.time ∧ G'.cursor ≤ G.cursor
  /-- What was issued before an open scope ends below its mark. -/
  below : ∀ G ∈ guards, ∀ i ∈ s.live, i.time < G.time → i.block.Within base G.cursor
  /-- What was opened after a guard that is still open was opened inside it. -/
  nested : ∀ G ∈ guards, ∀ S ∈ s.opened, G.time < S.time → G.time ∈ S.outer
  before : ∀ S ∈ s.opened, ∀ i ∈ S.live, i.time < S.time
  /-- While the parent of a scope is open, what was live when the scope was opened is live. -/
  kept : ∀ S ∈ s.opened, S.outer <:+ guards.map Opening.time → ∀ i ∈ S.live, i ∈ s.live
  /-- What is not live any more was reclaimed, also at the time a scope was opened. -/
  accounted : ∀ b ∈ s.issued, b ∈ s.live ∨ Reclaimed s.drops b s.clock
  snapshot : ∀ S ∈ s.opened, ∀ b ∈ s.issued, b.time < S.time →
    b ∈ S.live ∨ Reclaimed s.drops b S.time
  restored : ∀ d ∈ s.drops, d.after = d.opening.cursor ∧ d.after ≤ d.before
  disjoint : ∀ S ∈ s.opened, ∀ b ∈ S.live, ∀ c ∈ s.issued, S.time < c.time →
    S.outer <:+ c.path → Disjoint b.block.bytes c.block.bytes

variable {guards : List Opening} {s : ScopeRun β} {S : Opening}

theorem inv_init (hs : BumpArena.Sound w R base a) (m : Mem) :
    Inv w R base [] (init a m) where
  sound := hs
  live_within := List.forall_mem_nil _
  live_lt := List.forall_mem_nil _
  issued_lt := List.forall_mem_nil _
  opened_lt := List.forall_mem_nil _
  outer_lt := List.forall_mem_nil _
  guards_opened := List.forall_mem_nil _
  mark_le := List.forall_mem_nil _
  sorted := List.Pairwise.nil
  below := List.forall_mem_nil _
  nested := List.forall_mem_nil _
  before := List.forall_mem_nil _
  kept := List.forall_mem_nil _
  accounted := List.forall_mem_nil _
  snapshot := List.forall_mem_nil _
  restored := List.forall_mem_nil _
  disjoint := List.forall_mem_nil _

/-- A request that fails leaves what was recorded. -/
theorem Inv.failed (hi : Inv w R base guards s) {h : Heap (BumpArena β)}
    (hr : Reserves w R base s.heap.alloc h.alloc none) :
    Inv w R base guards { s with heap := h } :=
  { hi with
    sound := hr.sound
    live_within := fun i hmem => (hi.live_within i hmem).mono hr.cursor_le
    mark_le := fun G hG => (hi.mark_le G hG).trans hr.cursor_le }

/-- A block that is issued is above all that is live, and so above all that was live when a scope
was opened whose parent is still open. -/
theorem Inv.issued (hi : Inv w R base guards s) {h : Heap (BumpArena β)} {b : Block}
    (hr : Reserves w R base s.heap.alloc h.alloc (some b)) :
    let issue : Issue := ⟨b, s.clock, guards.map Opening.time⟩
    Inv w R base guards { s with heap := h, clock := s.clock + 1, live := issue :: s.live,
                                 issued := issue :: s.issued } := by
  intro issue
  have hG : ∀ G ∈ guards, G.time < s.clock := fun G hG => hi.opened_lt G (hi.guards_opened G hG)
  exact
    { sound := hr.sound
      live_within := List.forall_mem_cons.mpr ⟨hr.within b rfl,
        fun i hmem => (hi.live_within i hmem).mono hr.cursor_le⟩
      live_lt := List.forall_mem_cons.mpr
        ⟨Nat.lt_succ_self _, fun i hmem => Nat.lt_succ_of_lt (hi.live_lt i hmem)⟩
      issued_lt := List.forall_mem_cons.mpr
        ⟨Nat.lt_succ_self _, fun c hmem => Nat.lt_succ_of_lt (hi.issued_lt c hmem)⟩
      opened_lt := fun S hS => Nat.lt_succ_of_lt (hi.opened_lt S hS)
      outer_lt := hi.outer_lt
      guards_opened := hi.guards_opened
      mark_le := fun G hG => (hi.mark_le G hG).trans hr.cursor_le
      sorted := hi.sorted
      below := fun G hmem => List.forall_mem_cons.mpr
        ⟨fun hlt => absurd hlt (hG G hmem).not_gt, hi.below G hmem⟩
      nested := hi.nested
      before := hi.before
      kept := fun S hS hsuf i hmem => List.mem_cons_of_mem _ (hi.kept S hS hsuf i hmem)
      accounted := by
        refine List.forall_mem_cons.mpr ⟨Or.inl List.mem_cons_self, fun c hc => ?_⟩
        rcases hi.accounted c hc with hlive | hgone
        · exact Or.inl (List.mem_cons_of_mem _ hlive)
        · exact Or.inr (hgone.mono (List.Subset.refl _) (Nat.le_succ _))
      snapshot := fun S hS => List.forall_mem_cons.mpr
        ⟨fun hlt => absurd hlt (hi.opened_lt S hS).not_gt, hi.snapshot S hS⟩
      restored := hi.restored
      disjoint := by
        intro S hS i hmem
        refine List.forall_mem_cons.mpr ⟨fun _ hsuf => ?_, hi.disjoint S hS i hmem⟩
        have hwithin := hi.live_within i (hi.kept S hS hsuf i hmem)
        exact (hwithin.disjoint_of_ge (hr.above b rfl)).symm }

theorem Inv.request (hR : R.Lawful) (hi : Inv w R base guards s) (q : ScopeRequest w) :
    Inv w R base guards (s.request R q guards) := by
  rcases hcall : q.call R s.heap with ⟨r, h⟩
  have hr : Reserves w R base s.heap.alloc h.alloc r := reserves_call hR hi.sound hcall
  unfold ScopeRun.request
  rw [hcall]
  cases r with
  | none => exact hi.failed hr
  | some b => exact hi.issued hr

/-! ## Opening and closing -/

theorem Inv.times_lt (hi : Inv w R base guards s) : ∀ t ∈ guards.map Opening.time, t < s.clock := by
  intro t ht
  obtain ⟨G, hG, rfl⟩ := List.mem_map.mp ht
  exact hi.opened_lt G (hi.guards_opened G hG)

theorem Inv.openScope (hi : Inv w R base guards s) :
    Inv w R base (s.opening guards :: guards) (s.openScope guards) where
  sound := hi.sound
  live_within := hi.live_within
  live_lt := fun i hmem => Nat.lt_succ_of_lt (hi.live_lt i hmem)
  issued_lt := fun c hmem => Nat.lt_succ_of_lt (hi.issued_lt c hmem)
  opened_lt := List.forall_mem_cons.mpr
    ⟨Nat.lt_succ_self _, fun S hS => Nat.lt_succ_of_lt (hi.opened_lt S hS)⟩
  outer_lt := List.forall_mem_cons.mpr ⟨hi.times_lt, hi.outer_lt⟩
  guards_opened := List.forall_mem_cons.mpr
    ⟨List.mem_cons_self, fun G hG => List.mem_cons_of_mem _ (hi.guards_opened G hG)⟩
  mark_le := List.forall_mem_cons.mpr ⟨le_rfl, hi.mark_le⟩
  sorted := List.pairwise_cons.mpr
    ⟨fun G hG => ⟨hi.opened_lt G (hi.guards_opened G hG), hi.mark_le G hG⟩, hi.sorted⟩
  below := List.forall_mem_cons.mpr ⟨fun i hmem _ => hi.live_within i hmem, hi.below⟩
  nested := by
    intro G hG
    rcases List.mem_cons.mp hG with rfl | hG
    · -- nothing was opened after the scope that is opened now
      refine List.forall_mem_cons.mpr ⟨fun hlt => absurd hlt (lt_irrefl _), fun S hS hlt => ?_⟩
      exact absurd hlt (hi.opened_lt S hS).not_gt
    · exact List.forall_mem_cons.mpr
        ⟨fun _ => List.mem_map_of_mem hG, fun S hS => hi.nested G hG S hS⟩
  before := List.forall_mem_cons.mpr ⟨hi.live_lt, hi.before⟩
  kept := by
    refine List.forall_mem_cons.mpr ⟨fun _ i hmem => hmem, fun S hS hsuf => ?_⟩
    rcases List.suffix_cons_iff.mp hsuf with heq | hsuf
    · -- an older scope does not have the new one around it
      have hin : s.clock ∈ S.outer := heq ▸ List.mem_cons_self
      have hlt := hi.outer_lt S hS _ hin
      have hlt' := hi.opened_lt S hS
      omega
    · exact hi.kept S hS hsuf
  accounted := fun b hb =>
    (hi.accounted b hb).imp_right fun hgone => hgone.mono (List.Subset.refl _) (Nat.le_succ _)
  snapshot := List.forall_mem_cons.mpr ⟨fun b hb _ => hi.accounted b hb, hi.snapshot⟩
  restored := hi.restored
  disjoint := List.forall_mem_cons.mpr
    ⟨fun _ _ c hc hlt => absurd hlt (hi.issued_lt c hc).not_gt, hi.disjoint⟩

/-- A guard that is leaked is one guard less, and nothing else changes. -/
theorem Inv.leak (hi : Inv w R base (S :: guards) s) : Inv w R base guards s :=
  { hi with
    guards_opened := fun G hG => hi.guards_opened G (List.mem_cons_of_mem S hG)
    mark_le := fun G hG => hi.mark_le G (List.mem_cons_of_mem S hG)
    sorted := (List.pairwise_cons.mp hi.sorted).2
    below := fun G hG => hi.below G (List.mem_cons_of_mem S hG)
    nested := fun G hG => hi.nested G (List.mem_cons_of_mem S hG)
    kept := fun S' hS' hsuf => hi.kept S' hS' (hsuf.trans (List.suffix_cons _ _)) }

/-- What was live when a scope was opened whose parent stays open was issued before the guard that
is dropped. -/
theorem Inv.opened_before (hi : Inv w R base (S :: guards) s) {S' : Opening} (hS' : S' ∈ s.opened)
    (hsuf : S'.outer <:+ guards.map Opening.time) : S'.time ≤ S.time := by
  by_contra hlt
  have hin : S.time ∈ S'.outer := hi.nested S List.mem_cons_self S' hS' (Nat.lt_of_not_le hlt)
  obtain ⟨G, hG, heq⟩ := List.mem_map.mp (hsuf.subset hin)
  have hsorted := ((List.pairwise_cons.mp hi.sorted).1 G hG).1
  omega

/-- **A drop** restores the cursor, which was not below the mark. -/
theorem Inv.dropScope (hi : Inv w R base (S :: guards) s) :
    Inv w R base guards (s.dropScope ⟨S.cursor⟩ S) := by
  have hmark : S.cursor ≤ s.heap.alloc.cursor := hi.mark_le S List.mem_cons_self
  have hlive : ∀ i ∈ s.live.filter (fun i => i.time < S.time), i ∈ s.live ∧ i.time < S.time := by
    intro i hmem
    rw [List.mem_filter, decide_eq_true_iff] at hmem
    exact hmem
  have hleak := hi.leak
  exact
    { hleak with
      sound := ⟨hi.sound.base_eq, hi.sound.end_lt, hmark.trans hi.sound.cursor_le⟩
      live_within := fun i hmem =>
        hi.below S List.mem_cons_self i (hlive i hmem).1 (hlive i hmem).2
      live_lt := fun i hmem => Nat.lt_succ_of_lt (hi.live_lt i (hlive i hmem).1)
      issued_lt := fun c hc => Nat.lt_succ_of_lt (hi.issued_lt c hc)
      opened_lt := fun S' hS' => Nat.lt_succ_of_lt (hi.opened_lt S' hS')
      mark_le := fun G hG => ((List.pairwise_cons.mp hi.sorted).1 G hG).2
      below := fun G hG i hmem => hleak.below G hG i (hlive i hmem).1
      kept := by
        intro S' hS' hsuf i hmem
        have hlt := hi.before S' hS' i hmem
        have hle := hi.opened_before hS' hsuf
        refine List.mem_filter.mpr ⟨hleak.kept S' hS' hsuf i hmem, ?_⟩
        exact decide_eq_true (by omega)
      accounted := by
        intro b hb
        rcases hi.accounted b hb with hmem | hgone
        · by_cases hlt : b.time < S.time
          · exact Or.inl (List.mem_filter.mpr ⟨hmem, decide_eq_true hlt⟩)
          · -- this drop reclaims it
            refine Or.inr ⟨_, List.mem_cons_self, Nat.le_of_not_lt hlt, ?_, Nat.lt_succ_self _⟩
            exact hi.live_lt b hmem
        · exact Or.inr (hgone.mono (List.subset_cons_self _ _) (Nat.le_succ _))
      snapshot := fun S' hS' b hb hlt =>
        (hi.snapshot S' hS' b hb hlt).imp_right fun hgone =>
          hgone.mono (List.subset_cons_self _ _) le_rfl
      restored := List.forall_mem_cons.mpr ⟨⟨rfl, hmark⟩, hi.restored⟩ }

/-! ## Runs -/

/-- **Every body keeps the invariant**, whether it ends in a panic or not. -/
theorem Inv.exec (hR : R.Lawful) (body : Body w) :
    ∀ {guards : List Opening} {s : ScopeRun β}, Inv w R base guards s →
      Inv w R base guards (ScopeRun.exec R body guards s).1 := by
  induction body with
  | done => exact fun hi => hi
  | panic => exact fun hi => hi
  | alloc q rest ih => exact fun hi => ih (hi.request hR q)
  | scope inner leak caught rest ihInner ihRest =>
      intro guards s hi
      have hinner := ihInner hi.openScope
      rw [ScopeRun.exec]
      rcases hexec : ScopeRun.exec R inner (s.opening guards :: guards) (s.openScope guards) with
        ⟨s', panicked⟩
      rw [hexec] at hinner
      have hclosed : Inv w R base guards
          (if leak && !panicked then s' else s'.dropScope s.heap.alloc.scope (s.opening guards)) := by
        split
        · exact hinner.leak
        · exact hinner.dropScope
      simp only
      split
      · exact hclosed
      · exact ihRest hclosed

/-- **Trees of scopes.** After every body over every arena, commits failing at will: a scope that
was dropped has restored the cursor to where it was when the scope was opened, and not upwards; and
a block that was issued before a scope was opened, and not reclaimed before that, shares no byte
with what is issued later inside the scope, inside its descendants or through its parent. -/
theorem scopes_correct (hR : R.Lawful) {backing : β} (hnew : BumpArena.new w R backing = some a)
    (m : Mem) (body : Body w) :
    let s := (ScopeRun.exec R body [] (init a m)).1
    (∀ d ∈ s.drops, d.after = d.opening.cursor ∧ d.after ≤ d.before) ∧
    (∀ S ∈ s.opened, ∀ b ∈ s.issued, b.time < S.time → ¬ Reclaimed s.drops b S.time →
      ∀ c ∈ s.issued, S.time < c.time → S.Covers c →
        Disjoint b.block.bytes c.block.bytes) := by
  intro s
  have hi : Inv w R (R.base backing) [] s :=
    Inv.exec hR body (inv_init (BumpArena.sound_new hnew).1 m)
  refine ⟨hi.restored, fun S hS b hb hlt hlive c hc hlater hcovers => ?_⟩
  have hmem : b ∈ S.live := (hi.snapshot S hS b hb hlt).resolve_right hlive
  exact hi.disjoint S hS b hmem c hc hlater hcovers.suffix

/-! ## Two scopes, one after the other -/

def word8 : NonZeroLayout 64 := .lit 64 8 8 (Eq.refl true)

def arena64 : BumpArena (InlineBacked 64 64) := ⟨.lit 64 64 128 (Eq.refl true), 64, 0⟩

/-- Each scope issues a block and is dropped. -/
def siblings : Body 64 :=
  .scope (.alloc (.allocate word8) .done) false false
    (.scope (.alloc (.allocate word8) .done) false false .done)

/-- The block of the first scope was issued before the second one was opened, and the block of
the second scope overlaps it: the drop of the first scope has reclaimed it. -/
theorem siblings_overlap :
    let s := (ScopeRun.exec (InlineBacked.range 64 64) siblings [] (init arena64 fun _ => 0)).1
    ∃ S ∈ s.opened, ∃ b ∈ s.issued, ∃ c ∈ s.issued, b.time < S.time ∧ S.time < c.time ∧
      S.Covers c ∧ ¬ Disjoint b.block.bytes c.block.bytes := by
  intro s
  have hissued : s.issued = [⟨⟨128, 8⟩, 4, [3]⟩, ⟨⟨128, 8⟩, 1, [0]⟩] := rfl
  have hopened : s.opened = [⟨3, [], 0, []⟩, ⟨0, [], 0, []⟩] := rfl
  rw [hissued, hopened]
  exact ⟨_, List.mem_cons_self, _, List.mem_cons_of_mem _ List.mem_cons_self, _,
    List.mem_cons_self, by decide, by decide, by decide, not_disjoint_self (by decide)⟩

/-- In an outer scope a block is issued, a scope with a block is leaked, and another one panics;
the panic is caught there. -/
def leakedAndCaught : Body 64 :=
  .scope (.alloc (.allocate word8)
      (.scope (.alloc (.allocate word8) .done) true false
        (.scope (.alloc (.allocate word8) .panic) false true (.alloc (.allocate word8) .done))))
    false false .done

/-- The block of the leaked scope is there when the third scope is opened, and apart from what is
issued in its parent afterwards. -/
theorem scopes_correct_leakedAndCaught :
    let s := (ScopeRun.exec (InlineBacked.range 64 64) leakedAndCaught []
      (init arena64 fun _ => 0)).1
    s.heap.alloc.allocated = 0 ∧ s.drops.map Dropped.before = [24, 24] ∧
      (∀ d ∈ s.drops, d.after = d.opening.cursor ∧ d.after ≤ d.before) ∧
      ∃ S ∈ s.opened, ∃ b ∈ s.issued, ∃ c ∈ s.issued, b.time < S.time ∧ S.time < c.time ∧
        c.path = S.outer ∧ Disjoint b.block.bytes c.block.bytes := by
  intro s
  have hnew : BumpArena.new 64 (InlineBacked.range 64 64) (.lit 64 64 128 (Eq.refl true)) =
      some arena64 := rfl
  obtain ⟨hdrops, hdisjoint⟩ :=
    scopes_correct (InlineBacked.range_lawful 64 64) hnew (fun _ => 0) leakedAndCaught
  let S : Opening := ⟨4, [0], 16, [⟨⟨136, 8⟩, 3, [2, 0]⟩, ⟨⟨128, 8⟩, 1, [0]⟩]⟩
  let b : Issue := ⟨⟨136, 8⟩, 3, [2, 0]⟩
  let c : Issue := ⟨⟨144, 8⟩, 7, [0]⟩
  have hS : S ∈ s.opened := List.mem_cons_self
  have hb : b ∈ s.issued := List.mem_cons_of_mem _ (List.mem_cons_of_mem _ List.mem_cons_self)
  have hc : c ∈ s.issued := List.mem_cons_self
  have hthere : ¬ Reclaimed s.drops b S.time := by
    unfold Reclaimed
    decide
  exact ⟨by decide, by decide, hdrops, S, hS, b, hb, c, hc, by decide, by decide, rfl,
    hdisjoint S hS b hb (by decide) hthere c hc (by decide) (Or.inr rfl)⟩

end ScopeRun

end ForgeAlloc
