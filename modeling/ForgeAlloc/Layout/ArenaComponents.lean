import ForgeAlloc.Backing.Mmap
import ForgeAlloc.Core.Component
import ForgeAlloc.Layout.SharedBump
import ForgeAlloc.Layout.StackAllocContract

set_option autoImplicit false

/-! # Arenas as components

The arenas answer nothing to `usable_size`, and their slices are as long as their requests. None of
them touches the memory.

A thread that allocates from a `SharedBumpArena` shares it with others: `SharedBumpArena.Handle` is
the machine of all threads together with what the others do before each of the next calls.
-/

namespace ForgeAlloc

open ByteMemory

variable {w : Nat} {β : Type} {R : FixedRange β}

namespace BumpArena

def component (w : Nat) (R : FixedRange β) (base : Nat) (c : Block) : Component w (BumpArena β) :=
  .ofRange (allocator w R) (range R) (Holds R base) (fun _ => none) (fun _ _ => false) c

theorem lawful (hR : R.Lawful) {base : Nat} (hbase : 0 < base) (c : Block) :
    (component w R base c).Lawful :=
  (ownsRange hR base hbase).lawful_of_exact (honours hR base hbase) c fun hh hg =>
    ⟨rfl, hh.len_eq _ hg⟩

theorem component_fresh {b : β} {a : BumpArena β} (hnew : BumpArena.new w R b = some a) (m : Mem) :
    (component w R (R.base b) ((range R).block a)).inv ⟨a, m⟩ ∅ := ⟨holds_new hnew m, rfl⟩

end BumpArena

namespace MmapBacked

theorem ownsRange (w : Nat) (os : Os) {base : Nat} (hbase : 0 < base) :
    OwnsRange (allocator w os) (defaultAllocateZeroed (allocate os)) (range w os)
      (Holds w os base) := by
  refine (honours w os hbase).ownsRange (fun {h _} l _ => ?_) (fun _ _ => ⟨rfl, rfl⟩)
    fun _ hh => hh.congr hh.sound le_rfl
  obtain ⟨hmem, hptr, hlen⟩ : (allocate os l h).2.mem = h.mem ∧ _ := allocate_frame l h
  exact ⟨congrArg₂ Block.mk hptr hlen, hmem⟩

def component (w : Nat) (os : Os) (base : Nat) (c : Block) : Component w MmapBacked :=
  .ofRange (allocator w os) (range w os) (Holds w os base) (fun _ => none) (fun _ _ => false) c

theorem lawful (w : Nat) (os : Os) {base : Nat} (hbase : 0 < base) (c : Block) :
    (component w os base c).Lawful :=
  (ownsRange w os hbase).lawful_of_exact (honours w os hbase) c fun hh hg => ⟨rfl, hh.len_eq _ hg⟩

theorem component_fresh {os : Os} {size : Nat} {mapped : Option Nat} {s : MmapBacked}
    (hnew : MmapBacked.new w os size mapped = some s) (hspace : s.ptr + s.len < 2 ^ w) (m : Mem) :
    (component w os s.ptr ⟨s.ptr, s.len⟩).inv ⟨s, m⟩ ∅ := ⟨holds_new hnew hspace m, rfl⟩

end MmapBacked

namespace StackAlloc

/-- A request commits in the backing and pushes a frame. -/
theorem quiet_allocate (hR : R.Lawful) (l : NonZeroLayout w) (h : Heap (DebugStack β)) :
    (debugRange R).block ((allocator w R).allocate l h).2.alloc = (debugRange R).block h.alloc ∧
      ((allocator w R).allocate l h).2.mem = h.mem := by
  refine ⟨?_, rfl⟩
  have hblock : ∀ r a, allocate R l h.alloc.stack = (r, a) →
      R.base a.backing = R.base h.alloc.stack.backing ∧ a.capacity = h.alloc.stack.capacity := by
    intro r a heq
    simp only [allocate] at heq
    split at heq
    · cases heq
      exact ⟨rfl, rfl⟩
    · split at heq
      case h_1 hcommit =>
          cases heq
          exact ⟨hR.base_of_commit hcommit, rfl⟩
      case h_2 hcommit =>
          cases heq
          exact ⟨hR.base_of_commit hcommit, rfl⟩
  obtain ⟨hbase, hcapacity⟩ := hblock _ _ rfl
  exact congrArg₂ Block.mk hbase hcapacity

theorem capacity_deallocate (ptr : Nat) (a : StackAlloc β) :
    (StackAlloc.deallocate w R ptr a).2.capacity = a.capacity := by
  simp only [StackAlloc.deallocate]
  split
  · rfl
  · split <;> rfl

theorem ownsRange (hR : R.Lawful) {base : Nat} (hbase : 0 < base) :
    OwnsRange (allocator w R) (defaultAllocateZeroed (allocator w R).allocate) (debugRange R)
      (Records R base) := by
  refine (honours hR hbase).ownsRange (fun l _ => quiet_allocate hR l _) (fun _ _ => ?_)
    fun _ hr => hr
  rw [deallocate_eq]
  refine ⟨congrArg₂ Block.mk (congrArg R.base (backing_deallocate _ _)) ?_, rfl⟩
  exact capacity_deallocate _ _

def component (w : Nat) (R : FixedRange β) (base : Nat) (c : Block) :
    Component w (DebugStack β) :=
  .ofRange (allocator w R) (debugRange R) (Records R base) (fun _ => none) (fun _ _ => false) c

theorem lawful (hR : R.Lawful) {base : Nat} (hbase : 0 < base) (c : Block) :
    (component w R base c).Lawful := by
  refine (ownsRange hR hbase).lawful_of_exact (honours hR hbase) c ?_
  rintro h L g ⟨K, hh, hmem⟩ hg
  obtain ⟨i, hi, rfl⟩ := hmem g hg
  exact ⟨rfl, hh.len_eq i hi⟩

theorem component_fresh {b : β} {a : StackAlloc β} (hnew : StackAlloc.new R b = some a)
    (hend : R.base b + R.size b ≤ 2 ^ w) (m : Mem) :
    (component w R (R.base b) ((debugRange R).block ⟨a, 0⟩)).inv ⟨⟨a, 0⟩, m⟩ ∅ :=
  ⟨⟨[], holds_new hnew hend, fun _ hg => absurd hg (Set.notMem_empty _)⟩, rfl⟩

end StackAlloc

/-! ## `SharedBumpArena` -/

namespace SharedBumpArena

def Access.thread {τ : Type} : Access w τ → τ
  | .load t _ _ => t
  | .attempt t _ => t

/-- The arena in the hands of the thread `me`. -/
structure Handle (w : Nat) (β τ : Type) where
  shared : Shared w β τ
  me : τ
  /-- What the others do before each of the next calls. -/
  others : Nat → List (Access w τ)

variable {τ : Type} [DecidableEq τ]

/-- The state that the next call finds. -/
def Handle.meanwhile (R : FixedRange β) (a : Handle w β τ) : Shared w β τ :=
  let accesses := (a.others 0).filter fun x => x.thread ≠ a.me
  (Machine.run (step R) a.shared accesses).getD a.shared

/-- A call, from its last load on: a compare-exchange that failed has left no trace. -/
def Handle.allocate (R : FixedRange β) (l : NonZeroLayout w) (h : Heap (Handle w β τ)) :
    Option Block × Heap (Handle w β τ) :=
  let s := h.alloc.meanwhile R
  let me := h.alloc.me
  let t := (Machine.run (step R) s [.load me l s.cursor, .attempt me none]).getD s
  ((loopBody R s.arena l s.cursor).map fun r => ⟨R.base s.arena.backing + r.1, l.size⟩,
    ⟨⟨t, me, fun k => h.alloc.others (k + 1)⟩, h.mem⟩)

def Handle.allocator (R : FixedRange β) : Allocator w (Handle w β τ) where
  allocate := allocate R
  deallocate := fun _ _ h => h
  grow := defaultGrow (allocate R) fun _ _ h => h
  shrink := defaultShrink (allocate R) fun _ _ h => h
  usableSize := fun _ _ _ => none

/-- The commit is the trait's, which does nothing. -/
def Handle.range (R : FixedRange β) : FixedRange (Handle w β τ) where
  base := fun a => R.base a.shared.arena.backing
  size := fun a => a.shared.arena.capacity
  commit := fun _ _ a => (true, a)

/-- The blocks `L` are out, among those that the arena has issued. -/
structure Handle.Holds (R : FixedRange β) (arena : SharedBumpArena β) (h : Heap (Handle w β τ))
    (L : Set (Grant w)) : Prop where
  inv : Inv R arena h.alloc.shared
  idle : h.alloc.shared.calls h.alloc.me = none
  issued : ∀ g ∈ L, g ∈ h.alloc.shared.issued

variable {arena : SharedBumpArena β} {s s' : Shared w β τ} {me : τ} {x : Access w τ}
  {xs : List (Access w τ)} {l : NonZeroLayout w} {h h' : Heap (Handle w β τ)}
  {L : Set (Grant w)} {g g' : Grant w} {b : Block}

/-- An access of another thread takes no block back, and does not begin a call of this one. -/
theorem step_elsewhere (hthread : x.thread ≠ me) (hstep : step R s x = some s') :
    s'.calls me = s.calls me ∧ ∀ g ∈ s.issued, g ∈ s'.issued := by
  cases x with
  | load t l v =>
      simp only [step] at hstep
      split at hstep
      · cases hstep
      · split at hstep
        · cases hstep
          exact ⟨Function.update_of_ne (Ne.symm hthread) _ _, fun _ hg => hg⟩
        · cases hstep
  | attempt t failure =>
      have hcalls : ∀ v : Option (Call w), Function.update s.calls t v me = s.calls me :=
        fun _ => Function.update_of_ne (Ne.symm hthread) _ _
      simp only [step] at hstep
      split at hstep
      · cases hstep
      · split at hstep
        · cases hstep
          exact ⟨hcalls _, fun _ hg => hg⟩
        · split at hstep
          · split at hstep
            · cases hstep
              exact ⟨hcalls _, fun _ hg => List.mem_cons_of_mem _ hg⟩
            · cases hstep
          · split at hstep
            · cases hstep
              exact ⟨hcalls _, fun _ hg => hg⟩
            · cases hstep

theorem run_elsewhere (hthreads : ∀ x ∈ xs, x.thread ≠ me)
    (hrun : Machine.run (step R) s xs = some s') :
    s'.calls me = s.calls me ∧ ∀ g ∈ s.issued, g ∈ s'.issued := by
  induction xs generalizing s with
  | nil =>
      rw [Machine.run_nil, Option.some.injEq] at hrun
      subst hrun
      exact ⟨rfl, fun _ hg => hg⟩
  | cons x xs ih =>
      rw [Machine.run_cons, Option.bind_eq_some_iff] at hrun
      obtain ⟨t, hstep, hrest⟩ := hrun
      obtain ⟨hcalls, hissued⟩ := step_elsewhere (hthreads x List.mem_cons_self) hstep
      obtain ⟨hcalls', hissued'⟩ := ih (fun y hy => hthreads y (List.mem_cons_of_mem _ hy)) hrest
      exact ⟨hcalls'.trans hcalls, fun g hg => hissued' g (hissued g hg)⟩

/-- The invariant holds when the next call begins. -/
theorem Handle.Holds.meanwhile (hh : Holds R arena h L) :
    Inv R arena (h.alloc.meanwhile R) ∧ (h.alloc.meanwhile R).calls h.alloc.me = none ∧
      ∀ g ∈ L, g ∈ (h.alloc.meanwhile R).issued := by
  rcases hrun : Machine.run (step R) h.alloc.shared
    ((h.alloc.others 0).filter fun x => x.thread ≠ h.alloc.me) with _ | s
  · simp only [Handle.meanwhile, hrun, Option.getD_none]
    exact ⟨hh.inv, hh.idle, hh.issued⟩
  · simp only [Handle.meanwhile, hrun, Option.getD_some]
    have hthreads : ∀ x ∈ (h.alloc.others 0).filter fun x => x.thread ≠ h.alloc.me,
        x.thread ≠ h.alloc.me := fun x hx => of_decide_eq_true (List.mem_filter.mp hx).2
    obtain ⟨hcalls, hissued⟩ := run_elsewhere hthreads hrun
    exact ⟨(inv_run hh.inv hrun).1, hcalls.trans hh.idle, fun g hg => hissued g (hh.issued g hg)⟩

/-- The accesses of a call whose compare-exchange does not fail. -/
theorem run_call (hidle : s.calls me = none) (hmem : s.cursor ∈ s.history) (l : NonZeroLayout w) :
    ∃ t, Machine.run (step R) s [.load me l s.cursor, .attempt me none] = some t ∧
      t.calls me = none ∧ t.issued =
        ((loopBody R s.arena l s.cursor).map fun r =>
          (⟨⟨R.base s.arena.backing + r.1, l.size⟩, l⟩ : Grant w)).toList ++ s.issued := by
  have hload : step R s (.load me l s.cursor) = some { s with
      calls := Function.update s.calls me (some ⟨l, s.cursor, [s.cursor]⟩) } := by
    simp only [step, hidle, if_pos hmem]
  rw [Machine.run_cons, hload, Option.bind_some, Machine.run_cons]
  cases hbody : loopBody R s.arena l s.cursor with
  | none =>
      refine ⟨_, by simp [step, hbody]; rfl, ?_⟩
      simp
  | some r =>
      rw [Shared.cursor] at hbody
      simp only [Machine.run_nil, step, Function.update_self, Shared.cursor, hbody, if_true]
      exact ⟨_, rfl, Function.update_self _ _ _, rfl⟩

namespace Handle

/-- **A call** adds its block to those that were issued meanwhile. -/
theorem Holds.allocate (hh : Holds R arena h L) (l : NonZeroLayout w) :
    ∃ t old, (Handle.allocate R l h).2 =
        ⟨⟨t, h.alloc.me, fun k => h.alloc.others (k + 1)⟩, h.mem⟩ ∧
      Inv R arena t ∧ t.calls h.alloc.me = none ∧ (∀ g ∈ L, g ∈ old) ∧
      t.issued = ((Handle.allocate R l h).1.map fun b => (⟨b, l⟩ : Grant w)).toList ++ old := by
  obtain ⟨hinv, hidle, hissued⟩ := hh.meanwhile
  obtain ⟨t, hrun, hidle', hissued'⟩ := run_call hidle hinv.cursor_mem l
  refine ⟨t, _, ?_, (inv_run hinv hrun).1, hidle', hissued, ?_⟩
  · simp only [Handle.allocate, hrun, Option.getD_some]
  · simp only [Handle.allocate, Option.map_map]
    exact hissued'

theorem Holds.allocate_some (hh : Holds R arena h L)
    (heq : Handle.allocate R l h = (some b, h')) :
    Issued (Holds R arena) L h h' b l := by
  obtain ⟨t, old, hstate, hinv, hidle, hold, hissued⟩ := hh.allocate l
  rw [heq] at hstate hissued
  simp only [Option.map_some, Option.toList_some, List.singleton_append] at hstate hissued
  subst hstate
  have hdisj := hinv.disjoint
  rw [hissued, List.pairwise_cons] at hdisj
  refine ⟨⟨hinv, hidle, ?_⟩, fun g hg => hdisj.1 g (hold g hg), fun _ _ => rfl⟩
  rintro g (rfl | hg)
  · rw [hissued]
    exact List.mem_cons_self
  · rw [hissued]
    exact List.mem_cons_of_mem _ (hold g hg)

theorem Holds.allocate_none (hh : Holds R arena h L) (heq : Handle.allocate R l h = (none, h')) :
    Unchanged (Holds R arena) L h h' := by
  obtain ⟨t, old, hstate, hinv, hidle, hold, hissued⟩ := hh.allocate l
  rw [heq] at hstate hissued
  simp only [Option.map_none, Option.toList_none, List.nil_append] at hstate hissued
  subst hstate
  exact ⟨⟨hinv, hidle, fun g hg => hissued ▸ hold g hg⟩, fun _ _ => rfl⟩

omit [DecidableEq τ] in
theorem Holds.block_eq (hh : Holds R arena h L) :
    (range R).block h.alloc = ⟨R.base arena.backing, arena.capacity⟩ := by
  have harena := hh.inv.arena_eq
  exact congrArg (fun a => Block.mk (R.base a.backing) a.capacity) harena

theorem quiet_allocate (hh : Holds R arena h L) (l : NonZeroLayout w) :
    (range R).block (Handle.allocate R l h).2.alloc = (range R).block h.alloc ∧
      (Handle.allocate R l h).2.mem = h.mem := by
  obtain ⟨t, old, hstate, hinv, hidle, -⟩ := hh.allocate l
  have hh' : Holds R arena (Handle.allocate R l h).2 (∅ : Set (Grant w)) := by
    rw [hstate]
    exact ⟨hinv, hidle, fun _ hg => absurd hg (Set.notMem_empty _)⟩
  exact ⟨hh'.block_eq.trans hh.block_eq.symm, rfl⟩

omit [DecidableEq τ] in
theorem Holds.le_end (hh : Holds R arena h L) (hg : g ∈ L) :
    g.block.ptr + g.block.len ≤ R.base arena.backing + arena.capacity := by
  have hcursor := hh.inv.le_cursor g (hh.issued g hg)
  have hcap := hh.inv.le_capacity _ hh.inv.cursor_mem
  omega

/-- **The arena honours the contract** for each of its threads. -/
theorem honours (hbase : 0 < R.base arena.backing)
    (hend : R.base arena.backing + arena.capacity ≤ 2 ^ w) :
    HonoursRange (allocator R) (range R) (Holds (w := w) (τ := τ) R arena) := by
  have hcore : HonoursCore (allocator R) (Holds (w := w) (τ := τ) R arena) :=
    { satisfies := by
        intro h L g hh hg
        have hmem := hh.issued g hg
        have hle := hh.le_end hg
        have hge := hh.inv.base_le g hmem
        exact ⟨hh.inv.aligned g hmem, (hh.inv.len_eq g hmem).ge, by omega, by omega⟩
      disjoint := by
        intro h L g g' hh hg hg' hne
        have hsymm : Std.Symm fun g g' : Grant w => Disjoint g.block.bytes g'.block.bytes :=
          ⟨fun _ _ hdisj => hdisj.symm⟩
        exact hh.inv.disjoint.forall (hh.issued g hg) (hh.issued g' hg') hne
      allocate_some := fun hh heq => hh.allocate_some heq
      allocate_none := fun hh heq => hh.allocate_none heq
      deallocate := fun hh _ =>
        ⟨⟨hh.inv, hh.idle, fun g' hg' => hh.issued g' hg'.1⟩, fun _ _ => rfl⟩
      write := fun hh _ => ⟨hh.inv, hh.idle, hh.issued⟩ }
  have hblock : ∀ {h : Heap (Handle w β τ)} {L : Set (Grant w)}, Holds R arena h L →
      (range R).base h.alloc = R.base arena.backing ∧ (range R).size h.alloc = arena.capacity :=
    fun hh => Block.mk.inj hh.block_eq
  exact
    { hcore.withDefaults rfl rfl (fun _ _ heq => by cases heq) with
      base_le := fun hh hg => (hblock hh).1 ▸ hh.inv.base_le _ (hh.issued _ hg)
      le_end := fun hh hg => by
        rw [(hblock hh).1, (hblock hh).2]
        exact hh.le_end hg
      base_pos := fun hh => (hblock hh).1 ▸ hbase
      end_le := fun hh => by
        rw [(hblock hh).1, (hblock hh).2]
        exact hend
      base_allocate := fun hh => congrArg Block.ptr (quiet_allocate hh _).1
      base_deallocate := fun _ _ => rfl }

def component (R : FixedRange β) (arena : SharedBumpArena β) (c : Block) :
    Component w (Handle w β τ) :=
  .ofRange (allocator R) (range R) (Holds R arena) (fun _ => none) (fun _ _ => false) c

theorem lawful (hbase : 0 < R.base arena.backing)
    (hend : R.base arena.backing + arena.capacity ≤ 2 ^ w) (c : Block) :
    (component (w := w) (τ := τ) R arena c).Lawful := by
  have hA := honours (w := w) (τ := τ) hbase hend
  have howns := hA.ownsRange (fun l hh => quiet_allocate hh l) (fun _ _ => ⟨rfl, rfl⟩)
    fun _ hh => ⟨hh.inv, hh.idle, hh.issued⟩
  exact howns.lawful_of_exact hA c fun hh hg => ⟨rfl, hh.inv.len_eq _ (hh.issued _ hg)⟩

/-- An arena that no thread has used yet. -/
theorem component_fresh (arena : SharedBumpArena β) (me : τ) (others : Nat → List (Access w τ))
    (m : Mem) :
    (component R arena ⟨R.base arena.backing, arena.capacity⟩).inv
      ⟨⟨Shared.init arena, me, others⟩, m⟩ ∅ :=
  ⟨⟨inv_init, rfl, fun _ hg => absurd hg (Set.notMem_empty _)⟩, rfl⟩

end Handle

end SharedBumpArena

end ForgeAlloc
