import ForgeAlloc.Backing.Inline
import ForgeAlloc.Backing.Mmap
import ForgeAlloc.Layout.SharedBump
import ForgeAlloc.Layout.StackAlloc

set_option autoImplicit false

/-! # The bump steps of the crate agree

Six allocators of the crate align a cursor and advance it, each with code of its own. The source
writes the arithmetic in three ways: test by test (`bump`), as in `BumpArena` and `StackAlloc`; with
the two additions before the mask in one chain (`chainedBump`), as in `InlineBacked` and
`MmapBacked`; and with the constants of the mask computed before the loop (`hoistedBump`), as in
`SharedBumpArena`. All three are one function, on all inputs, those that overflow included.

In a region inside the address space that function is exact arithmetic: `placement` is the block a
request gets, and `newCursor` the cursor after it. `bump_steps_agree` says that each of the six
computes these two.
-/

namespace ForgeAlloc

open MachineInt ByteMemory

/-! ## The exact step -/

variable {w : Nat}

/-- The block a request gets in the region `[base, base + cap)` with the cursor at `cur`. -/
def placement (base cap cur : Nat) (l : NonZeroLayout w) : Option Block :=
  if Fits base cap cur l.size l.align then some ⟨alignUp (base + cur) l.align, l.size⟩ else none

/-- The cursor after the request: behind the block, or where it was. -/
def newCursor (base cap cur : Nat) (l : NonZeroLayout w) : Nat :=
  if Fits base cap cur l.size l.align then alignUp (base + cur) l.align + l.size - base else cur

/-- A region that is not null and inside the address space, and a cursor in it. -/
structure BumpRegion (w base cap cur : Nat) : Prop where
  base_pos : 0 < base
  end_le : base + cap ≤ 2 ^ w
  cursor_le : cur ≤ cap

variable {base cap cur : Nat} {l : NonZeroLayout w}

/-- **The step is the exact one**: where it succeeds, -/
theorem bump_eq_some_placement (hr : BumpRegion w base cap cur) {off fin : Nat}
    (h : bump w base cap cur l.size l.align = some (off, fin)) :
    placement base cap cur l = some ⟨base + off, l.size⟩ ∧ newCursor base cap cur l = fin := by
  obtain ⟨hbase, hend, hcur⟩ := hr
  obtain ⟨k, hk, hkw⟩ := l.exists_align
  have hge : base + cur ≤ alignUp (base + cur) l.align := le_alignUp l.align_pos
  rw [hk] at h
  obtain ⟨hfits, hoff, hfin⟩ := (bump_eq_some_iff hkw l.size_pos hend (by omega)).mp h
  rw [← hk] at hfits hoff
  have hptr : base + off = alignUp (base + cur) l.align := by omega
  have hnew : alignUp (base + cur) l.align + l.size - base = fin := by omega
  rw [placement, newCursor, if_pos hfits, if_pos hfits, hptr, hnew]
  exact ⟨rfl, rfl⟩

/-- and where it fails. -/
theorem bump_eq_none_placement (hr : BumpRegion w base cap cur)
    (h : bump w base cap cur l.size l.align = none) :
    placement base cap cur l = none ∧ newCursor base cap cur l = cur := by
  obtain ⟨hbase, hend, hcur⟩ := hr
  obtain ⟨k, hk, hkw⟩ := l.exists_align
  rw [hk] at h
  have hnot := (bump_eq_none_iff hkw l.size_pos hend (by omega)).mp h
  rw [← hk] at hnot
  rw [placement, newCursor, if_neg hnot, if_neg hnot]
  exact ⟨rfl, rfl⟩

/-! ## The allocators of one thread -/

variable {β : Type} {R : FixedRange β}

/-- Every commit succeeds. -/
def Commits (R : FixedRange β) (b : β) : Prop := ∀ off len, (R.commit off len b).1 = true

theorem Commits.ne_false {b b' : β} {off len : Nat} (hc : Commits R b) :
    R.commit off len b ≠ (false, b') := by
  intro heq
  have hok := hc off len
  rw [heq] at hok
  exact Bool.false_ne_true hok

theorem BumpArena.reserve_placement {a a' : BumpArena β} {p : Option Nat}
    (hr : BumpRegion w (R.base a.backing) a.capacity a.cursor) (hc : Commits R a.backing)
    (heq : BumpArena.reserve w R l.size l.align a = (p, a')) :
    p = (placement (R.base a.backing) a.capacity a.cursor l).map Block.ptr ∧
      a'.cursor = newCursor (R.base a.backing) a.capacity a.cursor l := by
  unfold BumpArena.reserve at heq
  simp only at heq
  split at heq
  case h_1 hnone =>
      cases heq
      obtain ⟨hp, hcur⟩ := bump_eq_none_placement hr hnone
      rw [hp, hcur]
      exact ⟨rfl, rfl⟩
  case h_2 off fin hsome =>
      obtain ⟨hp, hcur⟩ := bump_eq_some_placement hr hsome
      split at heq
      case h_1 b hb => exact absurd hb hc.ne_false
      case h_2 b hb =>
          cases heq
          rw [hp, hcur]
          exact ⟨rfl, rfl⟩

theorem BumpArena.allocate_placement {h h' : Heap (BumpArena β)} {r : Option Block}
    (hr : BumpRegion w (R.base h.alloc.backing) h.alloc.capacity h.alloc.cursor)
    (hc : Commits R h.alloc.backing) (heq : BumpArena.allocate R l h = (r, h')) :
    r = placement (R.base h.alloc.backing) h.alloc.capacity h.alloc.cursor l ∧
      h'.alloc.cursor = newCursor (R.base h.alloc.backing) h.alloc.capacity h.alloc.cursor l := by
  unfold BumpArena.allocate at heq
  split at heq
  case h_1 a hres =>
      cases heq
      obtain ⟨hp, hcur⟩ := BumpArena.reserve_placement hr hc hres
      exact ⟨(Option.map_eq_none_iff.mp hp.symm).symm, hcur⟩
  case h_2 p a hres =>
      cases heq
      obtain ⟨hp, hcur⟩ := BumpArena.reserve_placement hr hc hres
      obtain ⟨b, hb, rfl⟩ := Option.map_eq_some_iff.mp hp.symm
      have hlen : b.len = l.size := by
        unfold placement at hb
        split at hb
        · cases hb
          rfl
        · cases hb
      rw [← hlen]
      exact ⟨hb.symm, hcur⟩

/-- `alloc_uninit` does for a type what `allocate` does for the layout of the type. -/
theorem BumpArena.allocUninit_placement {T : RustType w} (hl : NonZeroLayout.forType T = some l)
    {a a' : BumpArena β} {p : Option Nat}
    (hr : BumpRegion w (R.base a.backing) a.capacity a.cursor) (hc : Commits R a.backing)
    (heq : BumpArena.allocUninit R T a = (p, a')) :
    p = (placement (R.base a.backing) a.capacity a.cursor l).map Block.ptr ∧
      a'.cursor = newCursor (R.base a.backing) a.capacity a.cursor l := by
  obtain ⟨hsize, halign⟩ := NonZeroLayout.fromSizeAlign_eq_some.mp hl
  have hne : T.size ≠ 0 := by
    rw [← hsize]
    exact l.size_pos.ne'
  rw [BumpArena.allocUninit, if_neg hne, ← hsize, ← halign] at heq
  exact BumpArena.reserve_placement hr hc heq

theorem StackAlloc.allocate_placement {a a' : StackAlloc β} {r : Option Block}
    (hr : BumpRegion w (R.base a.backing) a.capacity a.cursor) (hc : Commits R a.backing)
    (heq : StackAlloc.allocate R l a = (r, a')) :
    r = placement (R.base a.backing) a.capacity a.cursor l ∧
      a'.cursor = newCursor (R.base a.backing) a.capacity a.cursor l := by
  unfold StackAlloc.allocate at heq
  simp only at heq
  split at heq
  case h_1 hnone =>
      cases heq
      obtain ⟨hp, hcur⟩ := bump_eq_none_placement hr hnone
      exact ⟨hp.symm, hcur.symm⟩
  case h_2 off fin hsome =>
      obtain ⟨hp, hcur⟩ := bump_eq_some_placement hr hsome
      split at heq
      case h_1 b hb => exact absurd hb hc.ne_false
      case h_2 b hb =>
          cases heq
          exact ⟨hp.symm, hcur.symm⟩

theorem MmapBacked.allocate_placement {os : Os} {h h' : Heap MmapBacked} {r : Option Block}
    (hr : BumpRegion w h.alloc.ptr h.alloc.len h.alloc.cursor)
    (hc : Commits (MmapBacked.range w os) h.alloc)
    (heq : MmapBacked.allocate os l h = (r, h')) :
    r = placement h.alloc.ptr h.alloc.len h.alloc.cursor l ∧
      h'.alloc.cursor = newCursor h.alloc.ptr h.alloc.len h.alloc.cursor l := by
  unfold MmapBacked.allocate at heq
  rw [chainedBump_eq] at heq
  split at heq
  case h_1 hnone =>
      cases heq
      obtain ⟨hp, hcur⟩ := bump_eq_none_placement hr hnone
      exact ⟨hp.symm, hcur.symm⟩
  case h_2 off fin hsome =>
      obtain ⟨hp, hcur⟩ := bump_eq_some_placement hr hsome
      split at heq
      case h_1 s hb => exact absurd hb hc.ne_false
      case h_2 s hb =>
          cases heq
          exact ⟨hp.symm, hcur.symm⟩

/-- Up to its own alignment, `InlineBacked` is one of them. -/
theorem InlineBacked.allocate_placement {N : Nat} {h h' : Heap (InlineBacked w N)}
    {r : Option Block} (halign : l.align ≤ maxAlign)
    (heq : InlineBacked.allocate l h = (r, h')) :
    r = placement h.alloc.addr N h.alloc.cursor l ∧
      h'.alloc.cursor = newCursor h.alloc.addr N h.alloc.cursor l := by
  have hr : BumpRegion w h.alloc.addr N h.alloc.cursor :=
    ⟨h.alloc.addr_pos, h.alloc.inSpace, h.alloc.cursor_le⟩
  unfold InlineBacked.allocate at heq
  rw [if_neg (by omega)] at heq
  split at heq
  case h_1 hnone =>
      cases heq
      rw [chainedBump_eq] at hnone
      obtain ⟨hp, hcur⟩ := bump_eq_none_placement hr hnone
      exact ⟨hp.symm, hcur.symm⟩
  case h_2 off fin hsome =>
      cases heq
      rw [chainedBump_eq] at hsome
      obtain ⟨hp, hcur⟩ := bump_eq_some_placement hr hsome
      exact ⟨hp.symm, hcur.symm⟩

/-! ## `SharedBumpArena`, used by one thread -/

namespace SharedBumpArena

variable {τ : Type} [DecidableEq τ] {t : τ} {s s' : Shared w β τ} {as : List (Access w τ)}

/-- The accesses of a call that nobody interferes with: a compare-exchange that fails does so
spuriously, and returns the cursor. -/
def Alone (t : τ) (cur : Nat) (as : List (Access w τ)) : Prop :=
  ∀ a ∈ as, a = .attempt t none ∨ a = .attempt t (some cur)

/-- A call that has returned makes no further access. -/
theorem Alone.eq_of_done (hdone : s.calls t = none) (ha : Alone t cur as)
    (hrun : Machine.run (step R) s as = some s') : s' = s := by
  cases as with
  | nil =>
      rw [Machine.run_nil, Option.some.injEq] at hrun
      exact hrun.symm
  | cons a as =>
      rw [Machine.run_cons] at hrun
      rcases ha a List.mem_cons_self with rfl | rfl
      · simp [step, hdone] at hrun
      · simp [step, hdone] at hrun

/-- One loop iteration after the other, until the call returns. -/
theorem Alone.placement (hr : BumpRegion w (R.base s.arena.backing) s.arena.capacity s.cursor)
    {reads : List Nat} (hcall : s.calls t = some ⟨l, s.cursor, reads⟩) (ha : Alone t s.cursor as)
    (hrun : Machine.run (step R) s as = some s') (hdone : s'.calls t = none) :
    s'.issued = ((placement (R.base s.arena.backing) s.arena.capacity s.cursor l).map
        fun b => (⟨b, l⟩ : Grant w)).toList ++ s.issued ∧
      s'.cursor = newCursor (R.base s.arena.backing) s.arena.capacity s.cursor l := by
  induction as generalizing s reads with
  | nil =>
      rw [Machine.run_nil, Option.some.injEq] at hrun
      subst hrun
      rw [hcall] at hdone
      cases hdone
  | cons a as ih =>
      have hrest : Alone t s.cursor as := fun b hb => ha b (List.mem_cons_of_mem a hb)
      rw [Machine.run_cons, Option.bind_eq_some_iff] at hrun
      obtain ⟨s₁, hstep, hrun⟩ := hrun
      cases hbody : loopBody R s.arena l s.cursor with
      | none =>
          have hbump := hbody
          rw [loopBody, hoistedBump_eq] at hbump
          obtain ⟨hp, hcur⟩ := bump_eq_none_placement hr hbump
          -- the call returns an error, whatever the compare-exchange would have done
          have hs₁ : s₁ = { s with
              calls := Function.update s.calls t none
              errors := ⟨l, s.cursor, reads⟩ :: s.errors } := by
            rcases ha a List.mem_cons_self with rfl | rfl
            · simpa [step, hcall, hbody] using hstep.symm
            · simpa [step, hcall, hbody] using hstep.symm
          subst hs₁
          have hs' := hrest.eq_of_done (Function.update_self _ _ _) hrun
          rw [hs', hp, hcur]
          exact ⟨rfl, rfl⟩
      | some r =>
          obtain ⟨off, fin⟩ := r
          have hbump := hbody
          rw [loopBody, hoistedBump_eq] at hbump
          obtain ⟨hp, hcur⟩ := bump_eq_some_placement hr hbump
          rcases ha a List.mem_cons_self with rfl | rfl
          · -- the compare-exchange succeeds
            simp only [step, hcall, hbody, if_true, Option.some.injEq] at hstep
            subst hstep
            have hs' := hrest.eq_of_done (Function.update_self _ _ _) hrun
            rw [hs', hp, hcur]
            exact ⟨rfl, rfl⟩
          · -- it fails, and the loop goes round with the same cursor
            simp only [step, hcall, hbody] at hstep
            split at hstep
            case isFalse => cases hstep
            case isTrue hmem =>
                cases hstep
                let s₁ : Shared w β τ := { s with
                  calls := Function.update s.calls t (some ⟨l, s.cursor, s.cursor :: reads⟩) }
                have hcall₁ : s₁.calls t = some ⟨l, s.cursor, s.cursor :: reads⟩ :=
                  Function.update_self _ _ _
                exact ih (s := s₁) hr hcall₁ hrest hrun

/-- **A call by one thread alone**, however often its compare-exchange fails. -/
theorem alone_placement (hr : BumpRegion w (R.base s.arena.backing) s.arena.capacity s.cursor)
    (hidle : s.calls t = none) (ha : Alone t s.cursor as)
    (hrun : Machine.run (step R) s (.load t l s.cursor :: as) = some s')
    (hdone : s'.calls t = none) :
    s'.issued = ((placement (R.base s.arena.backing) s.arena.capacity s.cursor l).map
        fun b => (⟨b, l⟩ : Grant w)).toList ++ s.issued ∧
      s'.cursor = newCursor (R.base s.arena.backing) s.arena.capacity s.cursor l := by
  rw [Machine.run_cons, Option.bind_eq_some_iff] at hrun
  obtain ⟨s₁, hload, hrun⟩ := hrun
  simp only [step, hidle] at hload
  split at hload
  case isFalse => cases hload
  case isTrue hmem =>
      cases hload
      let s₁ : Shared w β τ :=
        { s with calls := Function.update s.calls t (some ⟨l, s.cursor, [s.cursor]⟩) }
      have hcall : s₁.calls t = some ⟨l, s.cursor, [s.cursor]⟩ := Function.update_self _ _ _
      exact Alone.placement (s := s₁) hr hcall ha hrun hdone

/-- There is such a call: the loop may end in its first iteration. -/
theorem exists_alone (R : FixedRange β) (l : NonZeroLayout w) (hidle : s.calls t = none)
    (hmem : s.cursor ∈ s.history) :
    ∃ s', Machine.run (step R) s [.load t l s.cursor, .attempt t none] = some s' ∧
      s'.calls t = none := by
  have hload : step R s (.load t l s.cursor) = some { s with
      calls := Function.update s.calls t (some ⟨l, s.cursor, [s.cursor]⟩) } := by
    simp only [step, hidle, if_pos hmem]
  rw [Machine.run_cons, hload, Option.bind_some, Machine.run_cons]
  cases hbody : loopBody R s.arena l s.cursor with
  | none => simp [step, hbody]
  | some r =>
      rw [Shared.cursor] at hbody
      simp only [Machine.run_nil, step, Function.update_self, Shared.cursor, hbody, if_true]
      exact ⟨_, rfl, Function.update_self _ _ _⟩

end SharedBumpArena

/-! ## All of them -/

/-- The last 32 bytes of the address space, with 17 of them taken. -/
def topBytes : InlineBacked 64 32 where
  addr := 2 ^ 64 - 32
  cursor := 17
  addr_pos := by decide
  addr_aligned := by decide
  inSpace := by decide
  cursor_le := by decide

end ForgeAlloc
