import ForgeAlloc.Core.Allocator
import ForgeAlloc.Library.Run

set_option autoImplicit false

/-! # `SharedBumpArena`

Any number of threads run the compare-exchange loop of `allocate` on one atomic cursor. The
accesses are relaxed, so a load may return any value the cursor has had; only a successful
compare-exchange acts on the newest one. A label of the machine is one access of one thread:

* `load`: the call begins, and its first load returns some value of the history;
* `attempt t none`: the loop body at the value the thread holds, followed by a successful
  compare-exchange; where the request does not fit there is no compare-exchange and the call
  returns an error;
* `attempt t (some v)`: the same with a compare-exchange that fails, spuriously or not, and
  returns `v`.

The cursor never moves back, so a compare-exchange that succeeds at the value the padding was
computed from has computed it from the current cursor (`inv_step`).
-/

namespace ForgeAlloc

open MachineInt ByteMemory

/-- The fields that `allocate` only reads. -/
structure SharedBumpArena (β : Type) where
  backing : β
  capacity : Nat

variable {w : Nat} {β τ : Type}

namespace SharedBumpArena

/-- `SharedBumpArena::new`. The cursor starts at zero. -/
def new (R : FixedRange β) (b : β) : Option (SharedBumpArena β) :=
  if R.size b = 0 then none else some ⟨b, R.size b⟩

/-- The loop body up to the compare-exchange: offset and new cursor, or the error. -/
def loopBody (R : FixedRange β) (arena : SharedBumpArena β) (l : NonZeroLayout w) (cur : Nat) :
    Option (Nat × Nat) :=
  hoistedBump w (R.base arena.backing) arena.capacity cur l.size l.align

/-- A thread inside `allocate`: its request, the cursor value it works with, and all the values
it has read in this call. -/
structure Call (w : Nat) where
  layout : NonZeroLayout w
  cur : Nat
  reads : List Nat

/-- The state of all threads and of the cursor. `issued` and `errors` are the outcomes so far. -/
structure Shared (w : Nat) (β τ : Type) where
  arena : SharedBumpArena β
  /-- The values of the cursor, newest first. -/
  history : List Nat
  calls : τ → Option (Call w)
  issued : List (Grant w)
  errors : List (Call w)

inductive Access (w : Nat) (τ : Type)
  | load (t : τ) (l : NonZeroLayout w) (v : Nat)
  | attempt (t : τ) (failure : Option Nat)

def Shared.init (arena : SharedBumpArena β) : Shared w β τ := ⟨arena, [0], fun _ => none, [], []⟩

/-- The current value of the cursor. -/
def Shared.cursor (s : Shared w β τ) : Nat := s.history.headD 0

variable [DecidableEq τ]

def step (R : FixedRange β) (s : Shared w β τ) : Access w τ → Option (Shared w β τ)
  | .load t l v =>
      match s.calls t with
      | some _ => none
      | none =>
          if v ∈ s.history then
            some { s with calls := Function.update s.calls t (some ⟨l, v, [v]⟩) }
          else none
  | .attempt t failure =>
      match s.calls t with
      | none => none
      | some c =>
          match loopBody R s.arena c.layout c.cur with
          | none =>
              some { s with calls := Function.update s.calls t none, errors := c :: s.errors }
          | some (alignedOff, endOff) =>
              match failure with
              | none =>
                  if s.cursor = c.cur then
                    some { s with
                      calls := Function.update s.calls t none
                      history := endOff :: s.history
                      issued := ⟨⟨R.base s.arena.backing + alignedOff, c.layout.size⟩, c.layout⟩
                        :: s.issued }
                  else none
              | some v =>
                  if v ∈ s.history then
                    some { s with
                      calls := Function.update s.calls t (some ⟨c.layout, v, v :: c.reads⟩) }
                  else none

/-! ## The invariant -/

variable {R : FixedRange β} {arena : SharedBumpArena β} {s s' : Shared w β τ}

structure Inv (R : FixedRange β) (arena : SharedBumpArena β) (s : Shared w β τ) : Prop where
  arena_eq : s.arena = arena
  history_ne : s.history ≠ []
  /-- The cursor only moves up. -/
  sorted : s.history.Pairwise (· > ·)
  le_capacity : ∀ v ∈ s.history, v ≤ arena.capacity
  aligned : ∀ g ∈ s.issued, g.layout.align ∣ g.block.ptr
  len_eq : ∀ g ∈ s.issued, g.block.len = g.layout.size
  base_le : ∀ g ∈ s.issued, R.base arena.backing ≤ g.block.ptr
  le_cursor : ∀ g ∈ s.issued,
    g.block.ptr + g.block.len ≤ R.base arena.backing + s.cursor
  disjoint : s.issued.Pairwise fun g g' => Disjoint g.block.bytes g'.block.bytes
  /-- The value a thread works with is one it has read. -/
  cur_mem : ∀ t c, s.calls t = some c → c.cur ∈ c.reads
  error_reads : ∀ c ∈ s.errors, ∃ v ∈ c.reads, loopBody R arena c.layout v = none

omit [DecidableEq τ] in
theorem inv_init : Inv R arena (Shared.init arena : Shared w β τ) where
  arena_eq := rfl
  history_ne := List.cons_ne_nil _ _
  sorted := List.pairwise_singleton _ _
  le_capacity := by simp [Shared.init]
  aligned := List.forall_mem_nil _
  len_eq := List.forall_mem_nil _
  base_le := List.forall_mem_nil _
  le_cursor := List.forall_mem_nil _
  disjoint := List.Pairwise.nil
  cur_mem := fun t c hc => by cases hc
  error_reads := List.forall_mem_nil _

omit [DecidableEq τ] in
theorem Inv.cursor_mem (hi : Inv R arena s) : s.cursor ∈ s.history := by
  obtain ⟨v, rest, hv⟩ := List.exists_cons_of_ne_nil hi.history_ne
  rw [Shared.cursor, hv]
  exact List.mem_cons_self

omit [DecidableEq τ] in
theorem Inv.le_cursor_of_mem (hi : Inv R arena s) {v : Nat} (hv : v ∈ s.history) :
    v ≤ s.cursor := by
  have hsorted := hi.sorted
  obtain ⟨u, rest, hu⟩ := List.exists_cons_of_ne_nil hi.history_ne
  rw [Shared.cursor, hu, List.headD_cons]
  rw [hu] at hv hsorted
  rcases List.mem_cons.mp hv with rfl | hmem
  · exact le_rfl
  · exact le_of_lt (List.rel_of_pairwise_cons hsorted hmem)

/-- Changing the call of one thread to one whose cursor value it has read keeps the invariant. -/
theorem Inv.setCall (hi : Inv R arena s) (t : τ) {c : Call w} (hc : c.cur ∈ c.reads) :
    Inv R arena { s with calls := Function.update s.calls t (some c) } where
  arena_eq := hi.arena_eq
  history_ne := hi.history_ne
  sorted := hi.sorted
  le_capacity := hi.le_capacity
  aligned := hi.aligned
  len_eq := hi.len_eq
  base_le := hi.base_le
  le_cursor := hi.le_cursor
  disjoint := hi.disjoint
  cur_mem := fun u d hd => by
    simp only [Function.update_apply] at hd
    split at hd
    · cases hd
      exact hc
    · exact hi.cur_mem u d hd
  error_reads := hi.error_reads

theorem cur_mem_clear {calls : τ → Option (Call w)} {t : τ}
    (h : ∀ t c, calls t = some c → c.cur ∈ c.reads) :
    ∀ u c, Function.update calls t none u = some c → c.cur ∈ c.reads := by
  intro u c hc
  rw [Function.update_apply] at hc
  split at hc
  · cases hc
  · exact h u c hc

theorem Inv.error (hi : Inv R arena s) {t : τ} {c : Call w} (hc : s.calls t = some c)
    (hbody : loopBody R arena c.layout c.cur = none) :
    Inv R arena { s with calls := Function.update s.calls t none, errors := c :: s.errors } where
  arena_eq := hi.arena_eq
  history_ne := hi.history_ne
  sorted := hi.sorted
  le_capacity := hi.le_capacity
  aligned := hi.aligned
  len_eq := hi.len_eq
  base_le := hi.base_le
  le_cursor := hi.le_cursor
  disjoint := hi.disjoint
  cur_mem := cur_mem_clear hi.cur_mem
  error_reads := List.forall_mem_cons.mpr
    ⟨⟨c.cur, hi.cur_mem t c hc, hbody⟩, hi.error_reads⟩

/-- What the loop body computes: an aligned block from the cursor value on, inside the region. -/
theorem loopBody_some {l : NonZeroLayout w} {cur off fin : Nat}
    (h : loopBody R arena l cur = some (off, fin)) :
    l.align ∣ R.base arena.backing + off ∧ cur ≤ off ∧ fin = off + l.size ∧
      fin ≤ arena.capacity := by
  obtain ⟨k, hk, hkw⟩ := l.exists_align
  rw [loopBody, hoistedBump_eq, hk] at h
  obtain ⟨hoff, hfin, hle⟩ := bump_spec hkw h
  have hge : R.base arena.backing + cur ≤ alignUp (R.base arena.backing + cur) (2 ^ k) :=
    le_alignUp (Nat.two_pow_pos k)
  have hptr : R.base arena.backing + off = alignUp (R.base arena.backing + cur) (2 ^ k) := by
    omega
  exact ⟨hk ▸ hptr ▸ dvd_alignUp _ _, by omega, hfin, hle⟩

/-- A successful compare-exchange publishes the end of a block that starts at or above the
current cursor. -/
theorem Inv.publish (hi : Inv R arena s) {t : τ} {c : Call w} {off fin : Nat}
    (hcur : s.cursor = c.cur) (hbody : loopBody R arena c.layout c.cur = some (off, fin)) :
    Inv R arena { s with
      calls := Function.update s.calls t none
      history := fin :: s.history
      issued := ⟨⟨R.base arena.backing + off, c.layout.size⟩, c.layout⟩ :: s.issued } := by
  obtain ⟨halign, hge, rfl, hle⟩ := loopBody_some hbody
  have hpos := c.layout.size_pos
  have hold : ∀ g ∈ s.issued, g.block.ptr + g.block.len ≤ R.base arena.backing + off := by
    intro g hg
    have := hi.le_cursor g hg
    omega
  exact
    { arena_eq := hi.arena_eq
      history_ne := List.cons_ne_nil _ _
      sorted := List.pairwise_cons.mpr ⟨fun v hv => by
        have := hi.le_cursor_of_mem hv
        omega, hi.sorted⟩
      le_capacity := List.forall_mem_cons.mpr ⟨hle, hi.le_capacity⟩
      aligned := List.forall_mem_cons.mpr ⟨halign, hi.aligned⟩
      len_eq := List.forall_mem_cons.mpr ⟨rfl, hi.len_eq⟩
      base_le := List.forall_mem_cons.mpr ⟨Nat.le_add_right _ _, hi.base_le⟩
      le_cursor := List.forall_mem_cons.mpr
        ⟨by simp only [Shared.cursor, List.headD_cons]; omega, fun g hg => by
          have := hold g hg
          simp only [Shared.cursor, List.headD_cons]
          omega⟩
      disjoint := List.pairwise_cons.mpr
        ⟨fun g hg => Block.disjoint_of_le (Or.inr (hold g hg)), hi.disjoint⟩
      cur_mem := cur_mem_clear hi.cur_mem
      error_reads := hi.error_reads }

/-- **Every access of every thread keeps the invariant**, and the history only grows. -/
theorem inv_step (e : Access w τ) (hi : Inv R arena s) (hstep : step R s e = some s') :
    Inv R arena s' ∧ s.history <:+ s'.history := by
  obtain rfl := hi.arena_eq
  cases e with
  | load t l v =>
      simp only [step] at hstep
      split at hstep
      · cases hstep
      · split at hstep
        · cases hstep
          exact ⟨hi.setCall t List.mem_cons_self, List.suffix_refl _⟩
        · cases hstep
  | attempt t failure =>
      simp only [step] at hstep
      split at hstep
      · cases hstep
      case h_2 c hc =>
          split at hstep
          case h_1 hbody =>
              cases hstep
              exact ⟨hi.error hc hbody, List.suffix_refl _⟩
          case h_2 off fin hbody =>
              split at hstep
              · split at hstep
                case isTrue hcur =>
                    cases hstep
                    exact ⟨hi.publish hcur hbody, List.suffix_cons _ _⟩
                case isFalse => cases hstep
              · split at hstep
                · cases hstep
                  exact ⟨hi.setCall t (c := ⟨_, _, _⟩) List.mem_cons_self, List.suffix_refl _⟩
                · cases hstep

theorem inv_run {es : List (Access w τ)} (hi : Inv R arena s)
    (hrun : Machine.run (step R) s es = some s') :
    Inv R arena s' ∧ s.history <:+ s'.history := by
  refine Machine.run_invariant (P := fun u => Inv R arena u ∧ s.history <:+ u.history)
    (fun u e u' hu hstep => ?_) ⟨hi, List.suffix_refl _⟩ hrun
  obtain ⟨hi', hsuffix⟩ := inv_step e hu.1 hstep
  exact ⟨hi', hu.2.trans hsuffix⟩

/-- In a region inside the address space the loop body fails only when the request does not
fit. -/
theorem not_fits_of_loopBody {l : NonZeroLayout w} {cur : Nat} (hbase : 0 < R.base arena.backing)
    (hend : R.base arena.backing + arena.capacity ≤ 2 ^ w)
    (h : loopBody R arena l cur = none) :
    ¬ Fits (R.base arena.backing) arena.capacity cur l.size l.align := by
  obtain ⟨k, hk, hkw⟩ := l.exists_align
  rw [hk]
  rw [loopBody, hoistedBump_eq, hk] at h
  exact (bump_eq_none_iff hkw l.size_pos hend (by omega)).mp h

/-- **Any number of threads, any schedule.** The blocks returned are aligned, inside the region
and pairwise disjoint; the cursor never moves back and never exceeds the capacity; and a call
that fails has read a cursor value above which its request does not fit. -/
theorem sharedBump_run_correct {backing : β} (hnew : new R backing = some arena)
    (hbase : 0 < R.base backing) (hend : R.base backing + R.size backing ≤ 2 ^ w)
    {es es' : List (Access w τ)} {s s' : Shared w β τ}
    (hrun : Machine.run (step R) (Shared.init arena) es = some s)
    (hrun' : Machine.run (step R) s es' = some s') :
    (∀ g ∈ s.issued, g.layout.align ∣ g.block.ptr ∧ g.block.len = g.layout.size ∧
        R.base backing ≤ g.block.ptr ∧
        g.block.ptr + g.block.len ≤ R.base backing + R.size backing) ∧
      s.issued.Pairwise (fun g g' => Disjoint g.block.bytes g'.block.bytes) ∧
      s.cursor ≤ s'.cursor ∧ s.cursor ≤ R.size backing ∧
      ∀ c ∈ s.errors, ∃ v ∈ c.reads,
        ¬ alignUp (R.base backing + v) c.layout.align + c.layout.size
          ≤ R.base backing + R.size backing := by
  have harena : arena = ⟨backing, R.size backing⟩ := by
    unfold new at hnew
    split at hnew
    · cases hnew
    · exact (Option.some.inj hnew).symm
  subst harena
  obtain ⟨hi, -⟩ := inv_run inv_init hrun
  obtain ⟨hi', hsuffix⟩ := inv_run hi hrun'
  have hcap : s.cursor ≤ R.size backing := hi.le_capacity _ hi.cursor_mem
  refine ⟨fun g hg => ⟨hi.aligned g hg, hi.len_eq g hg, hi.base_le g hg, ?_⟩, hi.disjoint,
    hi'.le_cursor_of_mem (hsuffix.subset hi.cursor_mem), hcap, ?_⟩
  · have := hi.le_cursor g hg
    simp only at this
    omega
  · intro c hc
    obtain ⟨v, hv, hbody⟩ := hi.error_reads c hc
    exact ⟨v, hv, not_fits_of_loopBody hbase hend hbody⟩

/-- A region of 48 bytes at address 8. -/
def at8 : FixedRange Unit where
  base := fun _ => 8
  size := fun _ => 48
  commit := fun _ _ _ => (true, ())

def layout24 : NonZeroLayout 16 := .lit 16 24 8 (Eq.refl true)

def layout32 : NonZeroLayout 16 := .lit 16 32 16 (Eq.refl true)

/-- Two threads read the cursor 0; one publishes, the other fails its compare-exchange, reads 24
and then finds no room for 32 bytes aligned to 16. -/
theorem sharedBump_run_correct_at8 :
    ∃ s : Shared 16 Unit Bool,
      Machine.run (step at8) (Shared.init ⟨(), 48⟩)
        [.load true layout24 0, .load false layout32 0, .attempt true none, .attempt false (some 24),
          .attempt false none] = some s ∧
      s.cursor ≤ 48 ∧ s.errors = [⟨layout32, 24, [24, 0]⟩] ∧
      ∃ v ∈ [24, 0], ¬ alignUp (8 + v) 16 + 32 ≤ 8 + 48 := by
  have herrors : (Machine.run (step at8) (Shared.init ⟨(), 48⟩ : Shared 16 Unit Bool)
      [.load true layout24 0, .load false layout32 0, .attempt true none, .attempt false (some 24),
        .attempt false none]).map Shared.errors = some [⟨layout32, 24, [24, 0]⟩] := rfl
  obtain ⟨s, hrun, hs⟩ := Option.map_eq_some_iff.mp herrors
  have hnew : new at8 () = some ⟨(), 48⟩ := rfl
  have hcorrect := sharedBump_run_correct hnew (by decide) (by decide) hrun
    (Machine.run_nil s)
  refine ⟨s, hrun, hcorrect.2.2.2.1, hs, hcorrect.2.2.2.2 ⟨layout32, 24, [24, 0]⟩ ?_⟩
  rw [hs]
  exact List.mem_cons_self

end SharedBumpArena

end ForgeAlloc
