import ForgeAlloc.Hardening.Components
import ForgeAlloc.Hardening.Forwarders
import ForgeAlloc.Hardening.Scrub
import ForgeAlloc.Layout.ArenaComponents
import ForgeAlloc.Layout.ExtendableSlabComponent
import ForgeAlloc.Layout.FallbackComponent
import ForgeAlloc.Layout.SizeClassedComponent
import ForgeAlloc.Layout.SlabComponents
import ForgeAlloc.Library.Run

set_option autoImplicit false

/-! # Scrubbing on free over a stack of wrappers

`Stack` is the family of the components that the wrappers of the crate, `GuardPage` apart, make of its
slabs, its arenas and plain mappings, in any order and number. Every one of them is lawful
(`Stack.lawful`).

The client of a run requests, resizes, writes and frees through a scrubbing wrapper over a stack.
Each live block carries what the stack says of its request before it serves it (`Component.leaks`).
The scrub of a block stays inside its slice in every run, and reaches the end of it exactly when the
request did not leak (`onFree_run_covers_iff`). Requests leak when a `CacheJitter` hands them on,
because their alignment is above its line, to an allocator with longer slices (`Component.roomy`).
-/

namespace ForgeAlloc

open ByteMemory

variable {w : Nat}

/-- The stacks of the crate, those with a `CacheJitter` only if `jittered`. The wrappers `Faulty`,
`NumaLocal`, `SplitMetadata`, `HugePageAligned`, `Statistics` and `Watermark` are forwarders. Left
out are `GuardPage`, and `System`, `InlineBacked`, `HugePageBacked` and `LockedMmapBacked` as
allocators of their own; the last three may back an arena. -/
inductive Stack (jittered : Bool) : {σ : Type} → Component w σ → Prop
  | bumpArena {β : Type} {R : FixedRange β} {base : Nat} (hR : R.Lawful) (hbase : 0 < base)
      (c : Block) : Stack jittered (BumpArena.component w R base c)
  | stackAlloc {β : Type} {R : FixedRange β} {base : Nat} (hR : R.Lawful) (hbase : 0 < base)
      (c : Block) : Stack jittered (StackAlloc.component w R base c)
  | sharedBumpArena {β τ : Type} [DecidableEq τ] {R : FixedRange β} {arena : SharedBumpArena β}
      (hbase : 0 < R.base arena.backing) (hend : R.base arena.backing + arena.capacity ≤ 2 ^ w)
      (c : Block) : Stack jittered (SharedBumpArena.Handle.component (τ := τ) R arena c)
  | mmapBacked (os : Os) {base : Nat} (hbase : 0 < base) (c : Block) :
      Stack jittered (MmapBacked.component w os base c)
  | slab {β : Type} (T : RustType w) (R : FixedRange β) (n : Nat) (c : Block) :
      Stack jittered (Slab.component T R n c)
  | slabOwner {β : Type} (T : RustType w) (R : FixedRange β) (n : Nat) (c : Block) :
      Stack jittered (OwnerView.component T R n c)
  | extendableSlab {os : Os} {T : RustType w} {n : Nat} {Z : Set Nat}
      {sys : ExtendableSlab.System T} (hsys : ExtendableSlab.MapsInto os n Z sys) :
      Stack jittered (ExtendableSlab.Growing.component os T n Z sys)
  | sizeClassed {β : Type} {C : Component w β} {R : FixedRange β} {c : Block} {n : Nat}
      (hC : Stack jittered C) (hR : C.range = some (R, c)) (cap : Nat) (regions : Fin n → Grant w) :
      Stack jittered (SizeClassed.component C R c cap regions)
  | withFallback {π σ : Type} {P : Component w π} {S : Component w σ} {R : FixedRange π}
      {c : Block} (hP : Stack jittered P) (hS : Stack jittered S) (hR : P.range = some (R, c))
      (hdisj : Disjoint P.territory S.territory) : Stack jittered (WithFallback.component P R c S)
  | forwarder {σ ω κ : Type} {C : Component w σ} (hC : Stack jittered C)
      (F : Forwarder w ω σ κ) (k : κ) : Stack jittered (C.forwarded F k)
  | quarantine {σ : Type} {C : Component w σ} (hC : Stack jittered C) (E : Nat) :
      Stack jittered (Quarantine.component C E)
  | cacheJitter {σ : Type} {C : Component w σ} (hC : Stack jittered C)
      (hjittered : jittered = true) (p : JitterParams w) :
      Stack jittered (CacheJitter.component C p)
  | canary {σ : Type} {C : Component w σ} (hC : Stack jittered C) (value : BitVec 64) :
      Stack jittered (Canary.component C value)

variable {σ ω : Type} {C : Component w σ} {jittered : Bool}

/-- **Every stack is a lawful component.** -/
theorem Stack.lawful (hC : Stack jittered C) : C.Lawful := by
  induction hC with
  | bumpArena hR hbase c => exact BumpArena.lawful hR hbase c
  | stackAlloc hR hbase c => exact StackAlloc.lawful hR hbase c
  | sharedBumpArena hbase hend c => exact SharedBumpArena.Handle.lawful hbase hend c
  | mmapBacked os hbase c => exact MmapBacked.lawful w os hbase c
  | slab T R n c => exact Slab.lawful T R n c
  | slabOwner T R n c => exact OwnerView.lawful T R n c
  | extendableSlab hsys => exact ExtendableSlab.Growing.lawful hsys
  | sizeClassed _ hR cap regions ih => exact SizeClassed.lawful ih hR
  | withFallback _ _ hR hdisj ihP ihS => exact WithFallback.lawful ihP ihS hR hdisj
  | forwarder _ F k ih => exact ih.forwarded F k
  | quarantine _ E ih => exact Quarantine.lawful ih E
  | cacheJitter _ _ p ih => exact CacheJitter.lawful ih p
  | canary _ value ih => exact Canary.lawful ih value

/-- No request leaks without a `CacheJitter`. -/
theorem Stack.leaks_eq_false (hC : Stack false C) (l : NonZeroLayout w) (h : Heap σ) :
    C.leaks l h = false := by
  induction hC generalizing l with
  | bumpArena | stackAlloc | sharedBumpArena | mmapBacked | slab | slabOwner | extendableSlab
  | canary => rfl
  | sizeClassed _ _ _ _ ih =>
      simp only [SizeClassed.component, SizeClassed.byRoute]
      split
      · exact ih l _
      · split
        · rfl
        · exact ih l _
  | withFallback _ _ _ _ ihP ihS =>
      simp only [WithFallback.component, WithFallback.byHalf]
      split
      · exact ihP l _
      · exact ihS l _
  | forwarder _ F k ih =>
      rw [Component.forwarded_leaks]
      cases F.promote k l with
      | none => rfl
      | some il => exact ih il _
  | quarantine _ E ih => exact ih l _
  | cacheJitter _ hjittered => cases hjittered

/-! ## Runs -/

/-- A live block, and what the stack said of its request. -/
structure Lease (w : Nat) where
  grant : Grant w
  leaks : Bool
  deriving DecidableEq

structure ScrubRun (w : Nat) (ω : Type) where
  heap : Heap ω
  live : List (Lease w)

inductive ScrubOp (w : Nat)
  | allocate (l : NonZeroLayout w)
  | deallocate (e : Lease w)
  | resize (r : Resize) (e : Lease w) (new : NonZeroLayout w)
  | write (e : Lease w) (k : Nat) (v : UInt8)
  | remoteFree (e : Lease w)

namespace ScrubRun

/-- A step of the client. A remote free goes past the scrubbing wrapper. -/
def step (S : Scrubber ω σ) (C : Component w σ) (s : ScrubRun w ω) :
    ScrubOp w → Option (ScrubRun w ω)
  | .allocate l =>
      match (onFree S C.calls).allocate l s.heap with
      | (none, h) => some ⟨h, s.live⟩
      | (some b, h) => some ⟨h, ⟨⟨b, l⟩, C.leaks l (S.heap s.heap)⟩ :: s.live⟩
  | .deallocate e =>
      if e ∈ s.live then
        some ⟨(onFree S C.calls).deallocate e.grant.block.ptr e.grant.layout s.heap,
          s.live.erase e⟩
      else none
  | .resize r e new =>
      if e ∈ s.live ∧ r.Legal e.grant.layout new then
        match r.call (onFree S C.calls) e.grant.block.ptr e.grant.layout new s.heap with
        | (none, h) => some ⟨h, s.live⟩
        | (some b, h) => some ⟨h, ⟨⟨b, new⟩, C.leaks new (S.heap s.heap)⟩ :: s.live.erase e⟩
      else none
  | .write e k v =>
      if e ∈ s.live ∧ k < e.grant.block.len then
        some { s with
          heap := ⟨s.heap.alloc, writeByte s.heap.mem (e.grant.block.ptr + k) v⟩ }
      else none
  | .remoteFree e =>
      if e ∈ s.live then
        (C.remoteFree e.grant.block.ptr e.grant.layout (S.heap s.heap)).map fun t =>
          ⟨S.after s.heap t, s.live.erase e⟩
      else none

/-- The ledger of the live blocks. -/
def out (live : List (Lease w)) : Set (Grant w) := {g | g ∈ live.map Lease.grant}

structure Inv (S : Scrubber ω σ) (C : Component w σ) (h : Heap ω) (live : List (Lease w)) :
    Prop where
  inv : C.inv (S.heap h) (out live)
  nodup : (live.map Lease.grant).Nodup
  leaks_iff : ∀ e ∈ live, e.leaks = true ↔ C.answered e.grant < e.grant.block.len

variable {S : Scrubber ω σ} {h h' : Heap ω} {live : List (Lease w)} {e e' : Lease w}
  {l new : NonZeroLayout w} {b : Block} {m : Mem} {t : Heap σ} {r : Resize} {leaks : Bool}
  {s s' : ScrubRun w ω} {ops : List (ScrubOp w)}

theorem grant_mem (he : e ∈ live) : e.grant ∈ out live := List.mem_map_of_mem he

theorem out_cons (e : Lease w) (live : List (Lease w)) :
    out (e :: live) = insert e.grant (out live) := by
  ext g
  simp [out]

theorem map_erase (he : e ∈ live) :
    (live.map Lease.grant).Perm (e.grant :: (live.erase e).map Lease.grant) :=
  (List.perm_cons_erase he).map Lease.grant

theorem Inv.out_erase (hi : Inv S C h live) (he : e ∈ live) :
    out (live.erase e) = out live \ {e.grant} := by
  have hperm := map_erase he
  have hnot := (List.nodup_cons.mp (hperm.nodup hi.nodup)).1
  ext g
  constructor
  · intro hg
    refine ⟨hperm.mem_iff.mpr (List.mem_cons_of_mem _ hg), ?_⟩
    rintro rfl
    exact hnot hg
  · rintro ⟨hg, hne⟩
    exact (List.mem_cons.mp (hperm.mem_iff.mp hg)).resolve_left hne

/-- What a call that issues a block leaves, with the leases `kept` of before. -/
theorem Inv.issued (hC : C.Lawful) (hi : Inv S C h live) {kept : List (Lease w)}
    (hkept : kept.Sublist live)
    (hiss : Issued (fun h L => C.inv (S.heap h) L) (out kept) h h' b l)
    (hleaks : leaks = true ↔ C.answered ⟨b, l⟩ < b.len) :
    Inv S C h' (⟨⟨b, l⟩, leaks⟩ :: kept) := by
  have hinv := hiss.inv
  refine ⟨?_, List.nodup_cons.mpr ⟨fun hmem => ?_, hi.nodup.sublist (hkept.map _)⟩, ?_⟩
  · rw [out_cons]
    exact hinv
  · -- a lease of before does not have the new block
    have hpos := (hC.satisfies hinv (Set.mem_insert _ _)).len_pos
    exact not_disjoint_self hpos (hiss.fresh _ hmem)
  · exact List.forall_mem_cons.mpr ⟨hleaks, fun e he => hi.leaks_iff e (hkept.subset he)⟩

/-- What a call that issues nothing leaves. -/
theorem Inv.kept (hi : Inv S C h live) {kept : List (Lease w)} (hkept : kept.Sublist live)
    (hinv : C.inv (S.heap h') (out kept)) : Inv S C h' kept :=
  ⟨hinv, hi.nodup.sublist (hkept.map _), fun e he => hi.leaks_iff e (hkept.subset he)⟩

theorem Inv.resize_some (hC : C.Lawful) (hi : Inv S C h live) (he : e ∈ live)
    (hlegal : r.Legal e.grant.layout new)
    (heq : r.call (onFree S C.calls) e.grant.block.ptr e.grant.layout new h = (some b, h')) :
    Inv S C h' (⟨⟨b, new⟩, C.leaks new (S.heap h)⟩ :: live.erase e) := by
  have hA := S.honoursCore hC.honoursUsable
  rcases hcall : (onFree S C.calls).allocate new h with ⟨_ | c, t⟩
  · rw [Resize.call_of_none rfl rfl _ hcall] at heq
    cases heq
  · rw [Resize.call_of_some rfl rfl _ hlegal hcall] at heq
    cases heq
    obtain ⟨hiss, -⟩ := hA.copy_free hi.inv (grant_mem he) (min_le_left _ _) (min_le_right _ _) hcall
    rw [← hi.out_erase he] at hiss
    exact hi.issued hC List.erase_sublist hiss
      (hC.leaks_iff hi.inv (Scrubber.allocate_inner hcall))

theorem Inv.resize_none (hC : C.Lawful) (hi : Inv S C h live)
    (hlegal : r.Legal e.grant.layout new)
    (heq : r.call (onFree S C.calls) e.grant.block.ptr e.grant.layout new h = (none, h')) :
    Inv S C h' live := by
  have hA := S.honoursCore hC.honoursUsable
  rcases hcall : (onFree S C.calls).allocate new h with ⟨_ | c, t⟩
  · rw [Resize.call_of_none rfl rfl _ hcall] at heq
    cases heq
    exact hi.kept (List.Sublist.refl _) (hA.allocate_none hi.inv hcall).inv
  · rw [Resize.call_of_some rfl rfl _ hlegal hcall] at heq
    cases heq

/-- **One step keeps the invariant.** -/
theorem inv_step (hC : C.Lawful) (op : ScrubOp w) (hi : Inv S C s.heap s.live)
    (hstep : step S C s op = some s') : Inv S C s'.heap s'.live := by
  have hA := S.honoursCore hC.honoursUsable
  cases op with
  | allocate l =>
      simp only [step] at hstep
      split at hstep
      case h_1 h hcall =>
          cases hstep
          exact hi.kept (List.Sublist.refl _) (hA.allocate_none hi.inv hcall).inv
      case h_2 b h hcall =>
          cases hstep
          exact hi.issued hC (List.Sublist.refl _) (hA.allocate_some hi.inv hcall)
            (hC.leaks_iff hi.inv (Scrubber.allocate_inner hcall))
  | deallocate e =>
      simp only [step] at hstep
      split at hstep
      case isTrue he =>
          cases hstep
          have hfree := (hA.deallocate hi.inv (grant_mem he)).inv
          rw [← hi.out_erase he] at hfree
          exact hi.kept List.erase_sublist hfree
      case isFalse => cases hstep
  | resize r e new =>
      simp only [step] at hstep
      split at hstep
      case isTrue hlegal =>
          split at hstep
          case h_1 h hcall =>
              cases hstep
              exact hi.resize_none hC hlegal.2 hcall
          case h_2 b h hcall =>
              cases hstep
              exact hi.resize_some hC hlegal.1 hlegal.2 hcall
      case isFalse => cases hstep
  | write e k v =>
      simp only [step] at hstep
      split at hstep
      case isTrue hk =>
          cases hstep
          refine hi.kept (List.Sublist.refl _) (hA.write hi.inv ?_)
          exact writeByte_eqOn_live (grant_mem hk.1) hk.2 s.heap.mem v
      case isFalse => cases hstep
  | remoteFree e =>
      simp only [step] at hstep
      split at hstep
      case isTrue he =>
          obtain ⟨t, hfree, hsome⟩ := Option.map_eq_some_iff.mp hstep
          cases hsome
          have hinv := (hC.remote_free hi.inv (grant_mem he) hfree).1
          rw [← hi.out_erase he] at hinv
          refine hi.kept List.erase_sublist ?_
          rw [Scrubber.heap_after]
          exact hinv
      case isFalse => cases hstep

theorem inv_run (hC : C.Lawful) (hi : Inv S C s.heap s.live)
    (hrun : Machine.run (step S C) s ops = some s') : Inv S C s'.heap s'.live :=
  Machine.run_invariant (P := fun s : ScrubRun w ω => Inv S C s.heap s.live)
    (fun _ op _ hi hstep => inv_step hC op hi hstep) hi hrun

/-! ## What a free scrubs -/

/-- A free of `g` overwrites the first `len` bytes of the block, and then is a free of the stack.
The scrub keeps to the slice of the block. It reaches no other block of the ledger, and what the
stack keeps for itself holds as before. -/
structure Scrubs (S : Scrubber ω σ) (C : Component w σ) (L : Set (Grant w)) (h : Heap ω)
    (g : Grant w) (len : Nat) : Prop where
  free_eq : (onFree S C.calls).deallocate g.block.ptr g.layout h =
    S.after h (C.calls.deallocate g.block.ptr g.layout
      ⟨S.inner h.alloc, fillBytes h.mem g.block.ptr len (S.pattern h.alloc)⟩)
  inside : (⟨g.block.ptr, len⟩ : Block).bytes ⊆ g.block.bytes
  apart : ∀ g' ∈ L, g' ≠ g → Disjoint (⟨g.block.ptr, len⟩ : Block).bytes g'.block.bytes
  kept : C.inv ⟨S.inner h.alloc, fillBytes h.mem g.block.ptr len (S.pattern h.alloc)⟩ L

/-- The bytes that a free of the block overwrites. -/
def scrubLen (S : Scrubber ω σ) (C : Component w σ) (h : Heap ω) (g : Grant w) : Nat :=
  C.calls.usableLen g.block.ptr g.layout (S.heap h)

theorem scrubs (S : Scrubber ω σ) (hC : C.Lawful) {L : Set (Grant w)} {g : Grant w}
    (hinv : C.inv (S.heap h) L) (hg : g ∈ L) : Scrubs S C L h g (scrubLen S C h g) := by
  have hle : scrubLen S C h g ≤ g.block.len := by
    rw [scrubLen, hC.usableLen_eq hinv hg]
    exact hC.answered_le hinv hg
  have hinside : (⟨g.block.ptr, scrubLen S C h g⟩ : Block).bytes ⊆ g.block.bytes :=
    Block.within_of_le le_rfl (Nat.add_le_add_left hle _)
  refine ⟨Scrubber.deallocate_eq S C.calls g.block.ptr g.layout h, hinside, ?_, ?_⟩
  · intro g' hg' hne
    exact (hC.disjoint hinv hg hg' hne.symm).mono_left hinside
  · refine hC.write (h := S.heap h) hinv fun x hx => fillBytes_of_not_mem _ fun hin => hx ?_
    exact bytes_subset_liveBytes hg (hinside hin)

theorem inv_init (hstart : C.inv (S.heap h) ∅) : Inv S C h [] := by
  have hempty : out ([] : List (Lease w)) = ∅ :=
    Set.eq_empty_of_forall_notMem fun g hg => List.not_mem_nil hg
  exact ⟨hempty ▸ hstart, List.nodup_nil, List.forall_mem_nil _⟩

theorem Inv.covers_iff (hC : C.Lawful) (hi : Inv S C h live) (he : e ∈ live) :
    e.grant.block.len ≤ scrubLen S C h e.grant ↔ e.leaks = false := by
  rw [scrubLen, hC.usableLen_eq hi.inv (grant_mem he), ← not_lt, ← hi.leaks_iff e he,
    Bool.not_eq_true]

/-- **When a free scrubs the whole slice.** For every stack and every run of a client of
`PoisonOnFree` or `ZeroizeOnFree` over it, the scrub of a live block stays inside its slice, and
covers it exactly when the request of the block has not leaked. -/
theorem onFree_run_covers_iff (S : Scrubber ω σ) (hC : Stack jittered C) {h₀ : Heap ω}
    (hstart : C.inv (S.heap h₀) ∅)
    (hrun : Machine.run (step S C) ⟨h₀, []⟩ ops = some s) (he : e ∈ s.live) :
    Scrubs S C (out s.live) s.heap e.grant (scrubLen S C s.heap e.grant) ∧
      (e.grant.block.len ≤ scrubLen S C s.heap e.grant ↔ e.leaks = false) := by
  have hi := inv_run (s := ⟨h₀, []⟩) hC.lawful (inv_init hstart) hrun
  exact ⟨scrubs S hC.lawful hi.inv (grant_mem he), hi.covers_iff hC.lawful he⟩

/-- The leases of a run over a stack without a `CacheJitter`. -/
theorem leaks_eq_false_of_run (hC : Stack false C) {h₀ : Heap ω}
    (hrun : Machine.run (step S C) ⟨h₀, []⟩ ops = some s) (he : e ∈ s.live) :
    e.leaks = false := by
  refine Machine.run_invariant (P := fun s : ScrubRun w ω => ∀ e ∈ s.live, e.leaks = false)
    (fun s op s' hs hstep => ?_) (List.forall_mem_nil _) hrun e he
  cases op with
  | allocate l =>
      simp only [step] at hstep
      split at hstep
      · cases hstep
        exact hs
      · cases hstep
        exact List.forall_mem_cons.mpr ⟨hC.leaks_eq_false l _, hs⟩
  | deallocate e =>
      simp only [step, Option.ite_none_right_eq_some] at hstep
      obtain ⟨-, hsome⟩ := hstep
      cases hsome
      exact fun e' he' => hs e' (List.mem_of_mem_erase he')
  | resize r e new =>
      simp only [step, Option.ite_none_right_eq_some] at hstep
      obtain ⟨-, hsome⟩ := hstep
      split at hsome
      · cases hsome
        exact hs
      · cases hsome
        exact List.forall_mem_cons.mpr ⟨hC.leaks_eq_false new _,
          fun e' he' => hs e' (List.mem_of_mem_erase he')⟩
  | write e k v =>
      simp only [step, Option.ite_none_right_eq_some] at hstep
      obtain ⟨-, hsome⟩ := hstep
      cases hsome
      exact hs
  | remoteFree e =>
      simp only [step, Option.ite_none_right_eq_some] at hstep
      obtain ⟨-, hsome⟩ := hstep
      obtain ⟨t, -, hmap⟩ := Option.map_eq_some_iff.mp hsome
      cases hmap
      exact fun e' he' => hs e' (List.mem_of_mem_erase he')

/-- **Without a `CacheJitter` the whole slice is scrubbed**, in every run. -/
theorem onFree_run_covers (hC : Stack false C) {h₀ : Heap ω} (hstart : C.inv (S.heap h₀) ∅)
    (hrun : Machine.run (step S C) ⟨h₀, []⟩ ops = some s) (he : e ∈ s.live) :
    e.grant.block.len ≤ scrubLen S C s.heap e.grant := by
  have hi := inv_run (s := ⟨h₀, []⟩) hC.lawful (inv_init hstart) hrun
  exact (hi.covers_iff hC.lawful he).mpr (leaks_eq_false_of_run hC hrun he)

/-! ## A slab of pages under a jitter of one line -/

abbrev pages : FixedRange (BumpArena (InlineBacked 64 1024)) :=
  BumpArena.range (InlineBacked.range 64 1024)

abbrev pageArena : Allocator 64 (BumpArena (InlineBacked 64 1024)) :=
  BumpArena.allocator 64 (InlineBacked.range 64 1024)

def emptyPages : Heap (BumpArena (InlineBacked 64 1024)) :=
  ⟨⟨.lit 64 1024 4096 (Eq.refl true), 1024, 0⟩, fun _ => 0⟩

/-- 256 bytes, aligned to 128. -/
def page : RustType 64 := .lit 64 256 128 (Eq.refl true)

/-- Eight bytes aligned to eight, and to twice the line. -/
def word : NonZeroLayout 64 := .lit 64 8 8 (Eq.refl true)

def wideWord : NonZeroLayout 64 := .lit 64 8 128 (Eq.refl true)

def oneLine : JitterParams 64 where
  cacheLineSize := 64
  associativity := 1
  lineShift := 6
  macKey := 1#64
  line_pow := ⟨6, rfl⟩
  header_le := by decide
  associativity_pos := by decide
  associativity_le := by decide
  window_lt := by decide
  lineShift_eq := by decide

abbrev PageSlab : Type := Slab page (BumpArena (InlineBacked 64 1024))

def poisoned (slab : Heap PageSlab) : Heap (PoisonOnFree (CacheJitter 64 PageSlab)) :=
  ⟨.new ⟨oneLine, slab.alloc, 1#64⟩, slab.mem⟩

def jitteredPages (slab : Heap PageSlab) : Component 64 (CacheJitter 64 PageSlab) :=
  CacheJitter.component (Slab.component page pages 4 ((Slab.range page pages).block slab.alloc))
    oneLine

theorem jitteredPages_stack (slab : Heap PageSlab) : Stack true (jitteredPages slab) :=
  .cacheJitter (.slab page pages 4 _) rfl oneLine

theorem poisoned_fresh {slab : Heap PageSlab}
    (hnew : Slab.withProtection pageArena pages page 4 .none emptyPages = some slab) :
    (jitteredPages slab).inv (PoisonOnFree.scrubber.heap (poisoned slab)) ∅ := by
  have hA := BumpArena.honours (w := 64) (InlineBacked.range_lawful 64 1024) 4096 (by decide)
  have hempty := BumpArena.holds_new (w := 64) (R := InlineBacked.range 64 1024)
    (b := InlineBacked.lit 64 1024 4096 (Eq.refl true)) rfl fun _ => 0
  exact CacheJitter.component_fresh
    (Slab.component_fresh hA hempty FreelistProtection.none_sound hnew) oneLine 1#64

/-- The two requests: what is handed out, how much a free would scrub, and the leaks. -/
theorem exists_words : ∃ slab s,
    Slab.withProtection pageArena pages page 4 .none emptyPages = some slab ∧
      Machine.run (step PoisonOnFree.scrubber (jitteredPages slab)) ⟨poisoned slab, []⟩
        [.allocate word, .allocate wideWord] = some s ∧
      (s.live.map fun e => (e.grant.layout, e.grant.block.len,
        scrubLen PoisonOnFree.scrubber (jitteredPages slab) s.heap e.grant, e.leaks)) =
          [(wideWord, 256, 8, true), (word, 8, 8, false)] := by
  have hsome : ((Slab.withProtection pageArena pages page 4 .none emptyPages).bind fun slab =>
      (Machine.run (step PoisonOnFree.scrubber (jitteredPages slab)) ⟨poisoned slab, []⟩
        [.allocate word, .allocate wideWord]).map fun s =>
          s.live.map fun e => (e.grant.layout, e.grant.block.len,
            scrubLen PoisonOnFree.scrubber (jitteredPages slab) s.heap e.grant, e.leaks)) =
      some [(wideWord, 256, 8, true), (word, 8, 8, false)] := by decide +kernel
  obtain ⟨slab, hnew, hrun⟩ := Option.bind_eq_some_iff.mp hsome
  obtain ⟨s, hrun, hlive⟩ := Option.map_eq_some_iff.mp hrun
  exact ⟨slab, s, hnew, hrun, hlive⟩

/-- The wide request gets a slot of 256 bytes, of which a free would scrub eight. -/
theorem onFree_run_covers_iff_wideWord : ∃ slab s e,
    Slab.withProtection pageArena pages page 4 .none emptyPages = some slab ∧
      Stack true (jitteredPages slab) ∧
      (jitteredPages slab).inv (PoisonOnFree.scrubber.heap (poisoned slab)) ∅ ∧
      Machine.run (step PoisonOnFree.scrubber (jitteredPages slab)) ⟨poisoned slab, []⟩
        [.allocate word, .allocate wideWord] = some s ∧
      e ∈ s.live ∧ e.grant.layout = wideWord ∧ e.grant.block.len = 256 ∧
      scrubLen PoisonOnFree.scrubber (jitteredPages slab) s.heap e.grant = 8 ∧
      ¬ e.grant.block.len ≤
        scrubLen PoisonOnFree.scrubber (jitteredPages slab) s.heap e.grant := by
  obtain ⟨slab, s, hnew, hrun, hlive⟩ := exists_words
  obtain ⟨e, he, heq⟩ := List.mem_map.mp (hlive ▸ List.mem_cons_self)
  obtain ⟨hlayout, hlen, hscrub, -⟩ : _ ∧ _ ∧ _ ∧ _ := by simpa only [Prod.mk.injEq] using heq
  refine ⟨slab, s, e, hnew, jitteredPages_stack slab, poisoned_fresh hnew, hrun, he, hlayout, hlen,
    hscrub, ?_⟩
  rw [hlen, hscrub]
  decide

/-- The word is scrubbed as far as its slice goes, the wide one is not. -/
theorem onFree_run_covers_iff_words : ∃ slab s e e',
    Machine.run (step PoisonOnFree.scrubber (jitteredPages slab)) ⟨poisoned slab, []⟩
        [.allocate word, .allocate wideWord] = some s ∧
      e ∈ s.live ∧ e.grant.block.len ≤
        scrubLen PoisonOnFree.scrubber (jitteredPages slab) s.heap e.grant ∧
      e' ∈ s.live ∧ ¬ e'.grant.block.len ≤
        scrubLen PoisonOnFree.scrubber (jitteredPages slab) s.heap e'.grant := by
  obtain ⟨slab, s, hnew, hrun, hlive⟩ := exists_words
  obtain ⟨e', he', heq'⟩ := List.mem_map.mp (hlive ▸ List.mem_cons_self)
  obtain ⟨e, he, heq⟩ := List.mem_map.mp (hlive ▸ List.mem_cons_of_mem _ List.mem_cons_self)
  have hstack := jitteredPages_stack slab
  have hfresh := poisoned_fresh hnew
  have hword := onFree_run_covers_iff PoisonOnFree.scrubber hstack hfresh hrun he
  have hwide := onFree_run_covers_iff PoisonOnFree.scrubber hstack hfresh hrun he'
  have hleaks : e.leaks = false ∧ e'.leaks = true := by
    simp only [Prod.mk.injEq] at heq heq'
    exact ⟨heq.2.2.2, heq'.2.2.2⟩
  refine ⟨slab, s, e, e', hrun, he, hword.2.mpr hleaks.1, he', fun hle => ?_⟩
  exact Bool.false_ne_true ((hwide.2.mp hle).symm.trans hleaks.2)

end ScrubRun

end ForgeAlloc
