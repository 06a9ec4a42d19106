import ForgeAlloc.Layout.SizeClassedReturn
import ForgeAlloc.Layout.StackAllocContract

set_option autoImplicit false

/-! # `SizeClassed` over a `StackAlloc`

A `StackAlloc` takes blocks back in the reverse order of its requests only. The regions of the
classes are at the bottom of what the value has taken, the first class lowest; the fallback blocks
lie above them, the live ones and those whose frees were refused (`OverStack`).

The drop gives the regions back from the first class on. So over a `StackAlloc` it works for a
single class only: with two or more the first free is refused, and the region it was meant for
keeps the cursor from coming back (`sizeClassed_regions_returned`).
-/

namespace ForgeAlloc

open MachineInt ByteMemory SlotPool Linked

variable {w n : Nat} {γ : Type} {Q : FixedRange γ} {base : Nat}

namespace SizeClassed

/-- A request is served by a class, without the backing, or by the backing. -/
theorem allocate_cases {β : Type} (A : Allocator w β) (R : FixedRange β) (l : NonZeroLayout w)
    (h : Heap (SizeClassed w n β)) :
    (∃ i b slab, h.alloc.pickClass l.size l.align = some i ∧
        allocate A R l h = (some b, ⟨h.alloc.setSlab i slab, h.mem⟩)) ∨
      ∃ s : SizeClassed w n β, s.backing = h.alloc.backing ∧
        allocate A R l h = allocateBacking A l ⟨s, h.mem⟩ := by
  unfold allocate
  split
  case h_1 => exact Or.inr ⟨h.alloc, rfl, rfl⟩
  case h_2 i hpick =>
      split
      case h_1 p slab _ => exact Or.inl ⟨i, _, slab, hpick, rfl⟩
      case h_2 slab _ => exact Or.inr ⟨h.alloc.setSlab i slab, rfl, rfl⟩

/-- A request that the stack answers. -/
theorem allocateBacking_stack (l : NonZeroLayout w)
    (h : Heap (SizeClassed w n (Recorded w (DebugStack γ)))) :
    let (r, a) := StackAlloc.allocate Q l h.alloc.backing.inner.stack
    (allocateBacking (recorded (StackAlloc.allocator w Q)) l h).1 = r ∧
      (allocateBacking (recorded (StackAlloc.allocator w Q)) l h).2.alloc.backing.inner =
        ⟨a, h.alloc.backing.inner.tripped⟩ := by
  rcases hcall : StackAlloc.allocate Q l h.alloc.backing.inner.stack with ⟨_ | b, a⟩
  · simp [allocateBacking, recorded, Recorded.note, Recorded.heap, StackAlloc.allocator,
      StackAlloc.allocator.onAllocate, hcall]
  · simp [allocateBacking, recorded, Recorded.note, Recorded.heap, StackAlloc.allocator,
      StackAlloc.allocator.onAllocate, hcall]

end SizeClassed

namespace ClassRun

open SizeClassed StackAlloc

/-- The stack of the backing. -/
def stack (s : ClassRun w n (DebugStack γ)) : DebugStack γ := s.heap.alloc.backing.inner

/-- The live fallback blocks are on the stack, above `below`. Between them lie the blocks whose
frees the stack has refused: as many as assertions have failed since their count was `t`. -/
def OverStack (Q : FixedRange γ) (base : Nat) (below : List (StackBlock w)) (t : Nat)
    (s : ClassRun w n (DebugStack γ)) : Prop :=
  ∃ K : List (StackBlock w), StackAlloc.Holds Q base s.stack.stack (K ++ below) ∧
    (fallback s.live).Sublist (K.map StackBlock.grant) ∧
    s.stack.tripped + (fallback s.live).length = t + K.length

variable {s s' : ClassRun w n (DebugStack γ)} {below : List (StackBlock w)} {t : Nat}
  {l : NonZeroLayout w}

theorem fallback_cons_none (g : Grant w) (live : List (LiveBlock w n)) :
    fallback (⟨g, none⟩ :: live) = g :: fallback live :=
  congrArg (List.map LiveBlock.grant) (ofOrigin_cons_self ⟨g, none⟩ live)

/-- A free takes the grant of the block off the list. -/
theorem fallback_erase {live : List (LiveBlock w n)} {e : LiveBlock w n}
    (horigin : e.origin = none) :
    fallback (live.erase e) = (fallback live).erase e.grant := by
  obtain ⟨g, o⟩ := e
  subst horigin
  induction live with
  | nil => rfl
  | cons f live ih =>
      obtain ⟨g', o'⟩ := f
      cases o' with
      | none =>
          by_cases heq : g' = g
          · rw [heq, List.erase_cons_head, fallback_cons_none, List.erase_cons_head]
          · rw [List.erase_cons_tail (by simpa using heq), fallback_cons_none, fallback_cons_none,
              ih, List.erase_cons_tail (by simpa using heq)]
      | some i =>
          rw [List.erase_cons_tail (by simp), fallback, ofOrigin_cons_of_ne (by rintro ⟨⟩),
            fallback, ofOrigin_cons_of_ne (by rintro ⟨⟩)]
          exact ih

/-- A step that neither uses the stack nor changes the fallback blocks. -/
theorem OverStack.of_same (ho : OverStack Q base below t s) (hstack : s'.stack = s.stack)
    (hlive : fallback s'.live = fallback s.live) : OverStack Q base below t s' := by
  unfold OverStack
  rw [hstack, hlive]
  exact ho

theorem OverStack.allocate (ho : OverStack Q base below t s) (hQ : Q.Lawful)
    (hstep : step (StackAlloc.allocator w Q) (StackAlloc.debugRange Q) s (.allocate l) = some s') :
    OverStack Q base below t s' := by
  simp only [step] at hstep
  rcases SizeClassed.allocate_cases (recorded (StackAlloc.allocator w Q))
    ((StackAlloc.debugRange Q).recorded w) l s.heap with ⟨i, b, slab, hpick, heq⟩ | ⟨u, hu, heq⟩
  · -- a class serves the request
    rw [heq] at hstep
    cases hstep
    have horigin : originOf s.heap ⟨s.heap.alloc.setSlab i slab, s.heap.mem⟩ l = some i := by
      rw [← hpick]
      exact if_pos rfl
    refine ho.of_same rfl ?_
    rw [horigin, fallback, ofOrigin_cons_of_ne (by rintro ⟨⟩), fallback]
  · rw [heq] at hstep
    have hstack := SizeClassed.allocateBacking_stack (Q := Q) l ⟨u, s.heap.mem⟩
    simp only [hu] at hstack
    rcases hcall : StackAlloc.allocate Q l s.heap.alloc.backing.inner.stack with ⟨r, a⟩
    rw [hcall] at hstack
    obtain ⟨hr, hinner⟩ := hstack
    rcases hbacking : SizeClassed.allocateBacking (recorded (StackAlloc.allocator w Q)) l
      ⟨u, s.heap.mem⟩ with ⟨_ | b, h'⟩
    · rw [hbacking] at hstep hr hinner
      cases hstep
      have hnone : r = none := hr.symm
      subst hnone
      obtain ⟨K, hholds, hlive, hcount⟩ := ho
      refine ⟨K, ?_, hlive, ?_⟩
      · show StackAlloc.Holds Q base h'.alloc.backing.inner.stack (K ++ below)
        rw [hinner]
        exact (hholds.allocate_none hQ hcall).1
      · show h'.alloc.backing.inner.tripped + _ = _
        rw [hinner]
        exact hcount
    · have hissued := allocateBacking_issued hbacking
      rw [hbacking] at hstep hr hinner
      have hsome : r = some b := hr.symm
      subst hsome
      -- the record has one more ticket, so the block has no class
      have horigin : originOf s.heap h' l = none := by
        rw [originOf, hissued, hu, if_neg]
        simp
      simp only [horigin] at hstep
      cases hstep
      obtain ⟨K, hholds, hlive, hcount⟩ := ho
      refine ⟨⟨b, l, s.stack.stack.cursor⟩ :: K, ?_, ?_, ?_⟩
      · show StackAlloc.Holds Q base h'.alloc.backing.inner.stack (_ :: (K ++ below))
        rw [hinner]
        exact (hholds.allocate_some hQ hcall).1
      · rw [fallback_cons_none, List.map_cons]
        exact hlive.cons_cons _
      · show h'.alloc.backing.inner.tripped + _ = _
        rw [hinner, fallback_cons_none, List.length_cons, List.length_cons]
        exact congrArg (· + 1) hcount

/-- A block of a class is none of the fallback blocks. -/
theorem fallback_erase_class {live : List (LiveBlock w n)} {e : LiveBlock w n}
    (horigin : e.origin ≠ none) : fallback (live.erase e) = fallback live := by
  have hnot : e ∉ ofOrigin none live := fun hmem => horigin (mem_ofOrigin.mp hmem).2
  have herase : ofOrigin none (live.erase e) = ofOrigin none live := by
    rw [ofOrigin, ← List.erase_filter]
    exact List.erase_of_not_mem hnot
  rw [fallback, herase, fallback]

/-- A live fallback block that is freed is on top of the stack, or it is refused. -/
theorem OverStack.deallocateFallback (ho : OverStack Q base below t s) {e : LiveBlock w n}
    (he : e ∈ s.live) (horigin : e.origin = none)
    (hstack : s'.stack = StackAlloc.freeOne w Q e.grant.block.ptr s.stack)
    (hlive : s'.live = s.live.erase e) : OverStack Q base below t s' := by
  obtain ⟨K, hholds, hsub, hcount⟩ := ho
  have hF : e.grant ∈ fallback s.live := mem_fallback he horigin
  obtain ⟨i, hi, heq⟩ := List.mem_map.mp (hsub.subset hF)
  have hptr : i.block.ptr = e.grant.block.ptr := by rw [← heq]; rfl
  have hlen := List.length_erase_of_mem hF
  have hpos := List.length_pos_of_mem hF
  unfold OverStack
  rw [hstack, hlive, fallback_erase horigin, hlen, ← hptr]
  cases K with
  | nil => cases hi
  | cons j K =>
      by_cases hij : i = j
      · subst hij
        obtain ⟨htripped, hrest⟩ := hholds.freeOne_top
        refine ⟨K, hrest, ?_, by rw [htripped]; simp only [List.length_cons] at hcount; omega⟩
        have herased := hsub.erase e.grant
        rwa [List.map_cons, heq, List.erase_cons_head] at herased
      · -- a block lies above it, and the free is refused
        have hbelow : i ∈ K ++ below :=
          List.mem_append_left below ((List.mem_cons.mp hi).resolve_left hij)
        obtain ⟨htripped, hsame⟩ := hholds.freeOne_below hbelow
        refine ⟨j :: K, by rw [hsame]; exact hholds, List.erase_sublist.trans hsub, ?_⟩
        rw [htripped]
        omega

variable {cap : Nat} {old : List (Grant w)} {regions : Fin n → Grant w}
  {pools : Fin n → Pool cap}

/-- The invariant of a run, for a value over a stack. -/
abbrev StackInv (Q : FixedRange γ) (base : Nat) (old : List (Grant w))
    (regions : Fin n → Grant w) (s : ClassRun w n (DebugStack γ)) (pools : Fin n → Pool cap) :
    Prop :=
  Inv (StackAlloc.debugRange Q) (StackAlloc.Records Q base) base old regions s pools

theorem OverStack.deallocate (ho : OverStack Q base below t s)
    (hi : StackInv Q base old regions s pools) (hQ : Q.Lawful) (hbase : 0 < base)
    {e : LiveBlock w n}
    (hstep :
      step (StackAlloc.allocator w Q) (StackAlloc.debugRange Q) s (.deallocate e) = some s') :
    OverStack Q base below t s' := by
  simp only [step] at hstep
  split at hstep
  case isFalse => cases hstep
  case isTrue he =>
      have hroute := hi.route_eq (StackAlloc.honours hQ hbase) he
      simp only [SizeClassed.deallocate, hroute] at hstep
      cases horigin : e.origin with
      | some i =>
          rw [horigin] at hstep
          cases hstep
          exact ho.of_same rfl (fallback_erase_class (by rw [horigin]; rintro ⟨⟩))
      | none =>
          rw [horigin] at hstep
          cases hstep
          refine ho.deallocateFallback he horigin ?_ rfl
          show ((StackAlloc.allocator w Q).deallocate e.grant.block.ptr e.grant.layout
            (Recorded.heap ⟨s.heap.alloc.backing, s.heap.mem⟩)).alloc = _
          rw [StackAlloc.deallocate_eq]
          rfl

theorem overStack_step (hQ : Q.Lawful) (hbase : 0 < base) (op : ClassOp w n)
    (ho : OverStack Q base below t s) (hi : StackInv Q base old regions s pools)
    (hstep : step (StackAlloc.allocator w Q) (StackAlloc.debugRange Q) s op = some s') :
    OverStack Q base below t s' := by
  cases op with
  | allocate l => exact ho.allocate hQ hstep
  | deallocate e => exact ho.deallocate hi hQ hbase hstep
  | write e k v =>
      simp only [step] at hstep
      split at hstep
      case isFalse => cases hstep
      case isTrue =>
          cases hstep
          exact ho.of_same rfl rfl

theorem overStack_run (hQ : Q.Lawful) (hbase : 0 < base) {ops : List (ClassOp w n)}
    (ho : OverStack Q base below t s)
    (hi : ∃ pools : Fin n → Pool cap, StackInv Q base old regions s pools)
    (hrun :
      Machine.run (step (StackAlloc.allocator w Q) (StackAlloc.debugRange Q)) s ops = some s') :
    OverStack Q base below t s' ∧
      ∃ pools : Fin n → Pool cap, StackInv Q base old regions s' pools := by
  refine Machine.run_invariant (P := fun u : ClassRun w n (DebugStack γ) =>
    OverStack Q base below t u ∧ ∃ pools : Fin n → Pool cap, StackInv Q base old regions u pools)
    ?_ ⟨ho, hi⟩ hrun
  rintro u op u' ⟨ho, pools, hi⟩ hstep
  exact ⟨overStack_step hQ hbase op ho hi hstep,
    inv_step (StackAlloc.honours hQ hbase) op ⟨pools, hi⟩ hstep⟩

end ClassRun

namespace SizeClassed

/-! ## Construction and drop -/

/-- Construction stacks the regions, the first class lowest. -/
theorem buildRegions_stack (hQ : Q.Lawful) {slots : Nat} :
    ∀ {sizes : List Nat} {h h' : Heap (Recorded w (DebugStack γ))}
      {built : List (UntypedSlab × NonZeroLayout w)} {K : List (StackBlock w)},
      StackAlloc.Holds Q base h.alloc.inner.stack K →
      buildRegions (recorded (StackAlloc.allocator w Q)) ((StackAlloc.debugRange Q).recorded w)
        slots sizes h = (built, h') →
      ∃ bs : List (StackBlock w), StackAlloc.Holds Q base h'.alloc.inner.stack (bs ++ K) ∧
        h'.alloc.inner.tripped = h.alloc.inner.tripped ∧
        (bs.map fun i => i.grant.ticket) = (built.map (regionTicket base)).reverse := by
  intro sizes
  induction sizes with
  | nil =>
      intro h h' built K hh heq
      cases heq
      exact ⟨[], hh, rfl, rfl⟩
  | cons stride rest ih =>
      intro h h' built K hh heq
      rw [buildRegions] at heq
      split at heq
      case h_1 =>
          cases heq
          exact ⟨[], hh, rfl, rfl⟩
      case h_2 layout _ =>
          rcases hcall : (recorded (StackAlloc.allocator w Q)).allocate layout h with
            ⟨_ | region, h₁⟩
          · rw [hcall] at heq
            cases heq
            obtain ⟨hnone, rfl⟩ := note_eq_none hcall
            obtain ⟨a, hstack, hinner⟩ := StackAlloc.allocate_eq_none (Prod.ext hnone rfl)
            simp only [hinner]
            exact ⟨[], (hh.allocate_none hQ hstack).1, rfl, rfl⟩
          · rw [hcall] at heq
            simp only at heq
            rcases hrest : buildRegions (recorded (StackAlloc.allocator w Q))
              ((StackAlloc.debugRange Q).recorded w) slots rest h₁ with ⟨built₁, h₂⟩
            rw [hrest] at heq
            cases heq
            obtain ⟨hsome, hnote⟩ := note_eq_some hcall
            obtain ⟨a, hstack, hinner⟩ := StackAlloc.allocate_eq_some (Prod.ext hsome rfl)
            have hstack₁ : h₁.alloc.inner = ⟨a, h.alloc.inner.tripped⟩ := by
              rw [hnote]
              exact congrArg Heap.alloc hinner
            have hpush := (hh.allocate_some hQ hstack).1
            have hholds₁ : StackAlloc.Holds Q base h₁.alloc.inner.stack
                (⟨region, layout, h.alloc.inner.stack.cursor⟩ :: K) := by
              rw [hstack₁]
              exact hpush
            obtain ⟨bs, hholds, htripped, htickets⟩ := ih hholds₁ hrest
            refine ⟨bs ++ [⟨region, layout, h.alloc.inner.stack.cursor⟩], by simpa using hholds,
              by rw [htripped, hstack₁], ?_⟩
            -- the offset that is recorded leads back to the region
            have hptr : base + wrappingSub w region.ptr (Q.base h₁.alloc.inner.stack.backing) =
                region.ptr := by
              have hle : base ≤ region.ptr := hpush.base_le _ List.mem_cons_self
              have hlt : region.ptr < 2 ^ w := hpush.ptr_lt List.mem_cons_self
              rw [hholds₁.base_eq, wrappingSub_of_le hle hlt]
              omega
            rw [List.map_append, htickets]
            simp only [List.map_cons, List.map_nil, List.reverse_cons]
            congr 1
            exact congrArg (fun t => [t]) (Prod.ext hptr.symm rfl)

/-- The frees of `giveBack`, as frees of the stack. -/
theorem giveBack_stack (entries : List (Nat × NonZeroLayout w)) :
    ∀ {h : Heap (Recorded w (DebugStack γ))}, Q.base h.alloc.inner.stack.backing = base →
      (giveBack (recorded (StackAlloc.allocator w Q)) ((StackAlloc.debugRange Q).recorded w)
        entries h).alloc.inner =
          StackAlloc.freeSeq w Q (entries.map fun e => base + e.1) h.alloc.inner := by
  induction entries with
  | nil => exact fun _ => rfl
  | cons e entries ih =>
      intro h hbase
      have hfree :
          ((recorded (StackAlloc.allocator w Q)).deallocate (base + e.1) e.2 h).alloc.inner =
            StackAlloc.freeOne w Q (base + e.1) h.alloc.inner := by
        show ((StackAlloc.allocator w Q).deallocate (base + e.1) e.2 (Recorded.heap h)).alloc = _
        rw [StackAlloc.deallocate_eq]
        rfl
      show (giveBack _ _ entries ((recorded (StackAlloc.allocator w Q)).deallocate
        (Q.base h.alloc.inner.stack.backing + e.1) e.2 h)).alloc.inner = _
      rw [hbase, ih, hfree, List.map_cons, StackAlloc.freeSeq_cons]
      rw [hfree]
      exact (congrArg Q.base (StackAlloc.backing_deallocate _ _)).trans hbase

end SizeClassed

namespace ClassRun

open SizeClassed

variable {cap : Nat} {sizes : Fin n → Nat} {a₀ : DebugStack γ} {m : Mem} {K₀ : List (StackBlock w)}
  {h : Heap (SizeClassed w n (Recorded w (DebugStack γ)))} {s : ClassRun w n (DebugStack γ)}

/-- A new value over a stack: its regions lie above what was there. -/
theorem overStack_new (hQ : Q.Lawful) (h₀ : StackAlloc.Holds Q base a₀.stack K₀)
    (hnew : withClassSizes (recorded (StackAlloc.allocator w Q))
      ((StackAlloc.debugRange Q).recorded w) sizes cap ⟨⟨a₀, [], []⟩, m⟩ = .ok h) :
    ∃ bs : List (StackBlock w), OverStack Q base (bs ++ K₀) a₀.tripped ⟨h, []⟩ ∧
      (bs.map fun i => i.grant.ticket) =
        (regionTickets (StackAlloc.debugRange Q) ⟨h, []⟩).reverse := by
  unfold withClassSizes at hnew
  split at hnew
  · cases hnew
  split at hnew
  · cases hnew
  rcases hbuild : buildRegions (recorded (StackAlloc.allocator w Q))
    ((StackAlloc.debugRange Q).recorded w) cap (List.ofFn sizes) ⟨⟨a₀, [], []⟩, m⟩ with ⟨built, h₁⟩
  rw [hbuild] at hnew
  simp only at hnew
  split at hnew
  case isFalse => cases hnew
  case isTrue hlen =>
  split at hnew
  · cases hnew
  cases hnew
  obtain ⟨bs, hholds, htripped, htickets⟩ := buildRegions_stack hQ h₀ hbuild
  refine ⟨bs, ⟨[], hholds, List.Sublist.refl _, congrArg (· + 0) htripped⟩, ?_⟩
  rw [htickets]
  congr 1
  apply List.ext_getElem
  · simp [regionTickets, hlen]
  · intro k hk hk'
    have hbase : Q.base h₁.alloc.inner.stack.backing = base := hholds.base_eq
    simp [regionTickets, regionTicket, StackAlloc.debugRange, hbase]

/-- **The drop over a stack.** Without fallback blocks, no free of the drop is refused, and the
cursor is back where it was before construction, exactly when there is a single class and no free
of the client was refused. -/
theorem drop_stack_iff (hQ : Q.Lawful) (hbase : 0 < base)
    (h₀ : StackAlloc.Holds Q base a₀.stack K₀) (hslots : cap < 2 ^ 32)
    (hnew : withClassSizes (recorded (StackAlloc.allocator w Q))
      ((StackAlloc.debugRange Q).recorded w) sizes cap ⟨⟨a₀, [], []⟩, m⟩ = .ok h)
    {ops : List (ClassOp w n)}
    (hrun : Machine.run (step (StackAlloc.allocator w Q) (StackAlloc.debugRange Q)) ⟨h, []⟩ ops =
      some s)
    (hnone : fallback s.live = []) :
    let d := (SizeClassed.drop (recorded (StackAlloc.allocator w Q))
      ((StackAlloc.debugRange Q).recorded w) s.heap).alloc.inner
    (d.tripped = s.stack.tripped ↔ s.stack.tripped = a₀.tripped ∧ n = 1) ∧
      (d.stack.cursor = a₀.stack.cursor ↔ s.stack.tripped = a₀.tripped ∧ n = 1) := by
  have hold : (K₀.map StackBlock.grant).Nodup := by
    have hptrs := h₀.nodup_ptr
    refine List.Nodup.of_map (fun g => g.block.ptr) ?_
    rwa [List.map_map]
  have hrecords : StackAlloc.Records Q base ⟨a₀, m⟩ {x | x ∈ K₀.map StackBlock.grant} := by
    refine ⟨K₀, h₀, fun g hg => ?_⟩
    obtain ⟨i, hi, rfl⟩ := List.mem_map.mp hg
    exact ⟨i, hi, rfl⟩
  obtain ⟨regions, -, -, hinit⟩ :=
    inv_new (StackAlloc.honours hQ hbase) (g := ⟨a₀, m⟩) hold hrecords hslots hnew
  have hbase₀ : (StackAlloc.debugRange Q).base a₀ = base := h₀.base_eq
  rw [hbase₀] at hinit
  obtain ⟨bs, ho, htickets⟩ := overStack_new hQ h₀ hnew
  obtain ⟨ho', pools, hi⟩ := overStack_run hQ hbase ho ⟨_, hinit⟩ hrun
  -- on the stack are blocks that were refused, the regions, and what was there before
  obtain ⟨K, hholds, -, hcount⟩ := ho'
  have hrefused : K = [] ↔ s.stack.tripped = a₀.tripped := by
    rw [hnone, List.length_nil] at hcount
    rw [← List.length_eq_zero_iff]
    omega
  rw [← hinit.map_ticket, hi.map_ticket] at htickets
  have hlen : bs.length = n := by
    have hlength := congrArg List.length htickets
    simpa [regionTickets] using hlength
  have hpos : 0 < n := (withClassSizes_issued (StackAlloc.honours hQ hbase) (g := ⟨a₀, m⟩) hold
    hrecords hnew).1
  have hne : bs ≠ [] := by
    rintro rfl
    exact absurd hlen (by simpa using hpos.ne)
  have hbacking : (StackAlloc.debugRange Q).base s.heap.alloc.backing.inner = base :=
    hi.holds.base_eq
  have hptrs : (List.ofFn fun i => ((s.heap.alloc.slabs i).baseOffset,
      s.heap.alloc.classLayouts i)).map (fun e => base + e.1) =
        bs.reverse.map fun i => i.block.ptr := by
    have hreverse := congrArg (fun l => (List.reverse l).map Prod.fst) htickets
    simp only [List.reverse_reverse, ← List.map_reverse, List.map_map] at hreverse
    rw [List.map_ofFn]
    refine Eq.trans ?_ hreverse.symm
    rw [regionTickets, hbacking, List.map_ofFn]
    rfl
  have hiff := h₀.freeSeq_reverse_iff hholds hne
  rw [hlen, ← hptrs, hrefused] at hiff
  rw [drop_eq_giveBack, giveBack_stack _ hbacking]
  exact hiff

/-- **Where the regions of a `SizeClassed` go.** Over every backing that honours the contract:

* a construction that fails has given back exactly what it had taken, each region once under its own
  layout and in the reverse order;
* dropping a value without fallback blocks leaves nothing out, and gives back the regions of the
  construction, each once under its own layout, in the order in which they were taken. The order is
  the reverse one exactly when there is a single class.

So over a `StackAlloc` no free of the drop is refused, and the cursor comes back to where it was
before construction, exactly when there is a single class and no free of the client was refused. -/
theorem sizeClassed_regions_returned {β : Type} {A : Allocator w β} {R : FixedRange β}
    {BInv : Heap β → Set (Grant w) → Prop} (hA : HonoursRange A R BInv) {old : List (Grant w)}
    (hold : old.Nodup) {g : Heap β} (hinv : BInv g {x | x ∈ old}) (hQ : Q.Lawful) (hbase : 0 < base)
    (h₀ : StackAlloc.Holds Q base a₀.stack K₀) (hslots : cap < 2 ^ 32) (sizes : Fin n → Nat)
    (m : Mem) :
    (∀ g', withClassSizes (recorded A) (R.recorded w) sizes cap ⟨⟨g.alloc, [], []⟩, g.mem⟩ =
        .error g' → g'.alloc.received = g'.alloc.issued.reverse) ∧
      (∀ h ops s,
        withClassSizes (recorded A) (R.recorded w) sizes cap ⟨⟨g.alloc, [], []⟩, g.mem⟩ = .ok h →
        Machine.run (step A R) ⟨h, []⟩ ops = some s → fallback s.live = [] →
        let back := s.heap.alloc.backing
        let d := (SizeClassed.drop (recorded A) (R.recorded w) s.heap).alloc
        d.issued.Perm d.received ∧ d.received = h.alloc.backing.issued ++ back.received ∧
          (d.received = h.alloc.backing.issued.reverse ++ back.received ↔ n = 1)) ∧
      ∀ h ops s,
        withClassSizes (recorded (StackAlloc.allocator w Q)) ((StackAlloc.debugRange Q).recorded w)
          sizes cap ⟨⟨a₀, [], []⟩, m⟩ = .ok h →
        Machine.run (step (StackAlloc.allocator w Q) (StackAlloc.debugRange Q)) ⟨h, []⟩ ops =
          some s →
        fallback s.live = [] →
        let d := (SizeClassed.drop (recorded (StackAlloc.allocator w Q))
          ((StackAlloc.debugRange Q).recorded w) s.heap).alloc.inner
        (d.tripped = s.stack.tripped ↔ s.stack.tripped = a₀.tripped ∧ n = 1) ∧
          (d.stack.cursor = a₀.stack.cursor ↔ s.stack.tripped = a₀.tripped ∧ n = 1) := by
  refine ⟨fun g' herr => withClassSizes_error hA hold hinv herr, ?_,
    fun h ops s hnew hrun hnone => drop_stack_iff hQ hbase h₀ hslots hnew hrun hnone⟩
  intro h ops s hnew hrun hnone back d
  obtain ⟨hpos, -, hissued⟩ := withClassSizes_issued hA hold hinv hnew
  obtain ⟨regions, hnodup, hnot, hinit⟩ := inv_new hA hold hinv hslots hnew
  obtain ⟨pools, hi⟩ := inv_run hA ⟨_, hinit⟩ hrun
  have hsame : regionTickets R ⟨h, []⟩ = regionTickets R s :=
    hinit.map_ticket.symm.trans hi.map_ticket
  refine ⟨hi.drop_perm hA hold hnodup hnot hnone, ?_, ?_⟩
  · rw [hissued, hsame]
    exact (hi.drop hA hnodup).1
  · rw [hissued, hsame, List.reverse_reverse]
    exact hi.drop_lifo_iff hA hnodup hpos

/-- A `StackAlloc` over 256 bytes. -/
def stack256 : DebugStack Unit := ⟨⟨(), 256, 0, []⟩, 0⟩

/-- A new value with two slots in each class. -/
def overStack256 {n : Nat} (sizes : Fin n → Nat) :
    Except (Heap (Recorded 16 (DebugStack Unit)))
      (Heap (SizeClassed 16 n (Recorded 16 (DebugStack Unit)))) :=
  withClassSizes (recorded (StackAlloc.allocator 16 region256))
    ((StackAlloc.debugRange region256).recorded 16) sizes 2 ⟨⟨stack256, [], []⟩, fun _ => 0⟩

theorem stack256_holds : StackAlloc.Holds (w := 16) region256 64 stack256.stack [] := by
  have hnew : StackAlloc.withMaxDepth region256 () 0 false = some stack256.stack := rfl
  exact StackAlloc.holds_new hnew (by decide)

/-- What a drop leaves: the blocks issued and received, and the stack's assertions and cursor. -/
def dropped {n : Nat} (h : Heap (SizeClassed 16 n (Recorded 16 (DebugStack Unit)))) :
    (List Nat × List Nat) × Nat × Nat :=
  let d := (SizeClassed.drop (recorded (StackAlloc.allocator 16 region256))
    ((StackAlloc.debugRange region256).recorded 16) h).alloc
  ((d.issued.map Prod.fst, d.received.map Prod.fst), d.inner.tripped, d.inner.stack.cursor)

/-- **Two classes.** A new value is dropped at once: the lower region is freed first, which fails
the debug assertion, and the cursor stays at 16. -/
theorem drop_overStack256_twoSizes :
    ∃ h, overStack256 twoSizes = .ok h ∧ dropped h = (([80, 64], [80, 64]), 1, 16) := by
  have hresult : (overStack256 twoSizes).toOption.map dropped =
      some (([80, 64], [80, 64]), 1, 16) := by decide +kernel
  obtain ⟨h, hok, hd⟩ := Option.map_eq_some_iff.mp hresult
  exact ⟨h, ok_of_toOption hok, hd⟩

/-- A single class over the stack: the drop is in order. And of three classes the last one finds no
room, so the first two go back. -/
theorem sizeClassed_regions_returned_region256 :
    (∃ h, overStack256 (fun _ : Fin 1 => 8) = .ok h ∧
      (dropped h).2 = (0, 0) ∧ (dropped h).1.1.Perm (dropped h).1.2) ∧
    ∃ g', overStack256 (fun i : Fin 3 => 2 ^ (i.val + 5)) = .error g' ∧
      g'.alloc.received = g'.alloc.issued.reverse ∧ g'.alloc.issued.length = 2 := by
  have hhonours : HonoursRange (StackAlloc.allocator 16 region256)
      (StackAlloc.debugRange region256) (StackAlloc.Records region256 64) :=
    StackAlloc.honours region256_lawful (by decide)
  have hinv : StackAlloc.Records region256 64 ⟨stack256, fun _ => 0⟩ {x : Grant 16 | x ∈ []} :=
    ⟨[], stack256_holds, fun g hg => absurd hg List.not_mem_nil⟩
  constructor
  · have hresult : ((overStack256 fun _ : Fin 1 => 8).toOption.map fun h =>
        h.alloc.backing.inner.tripped) = some 0 := by decide +kernel
    obtain ⟨h, hok, htripped⟩ := Option.map_eq_some_iff.mp hresult
    have hnew := ok_of_toOption hok
    obtain ⟨-, hdrop, hstack⟩ := sizeClassed_regions_returned hhonours List.nodup_nil hinv
      region256_lawful (by decide) stack256_holds (show 2 < 2 ^ 32 by decide) (fun _ : Fin 1 => 8)
      fun _ => 0
    obtain ⟨hperm, -⟩ := hdrop h [] ⟨h, []⟩ hnew rfl rfl
    obtain ⟨hkept, hcursor⟩ := hstack h [] ⟨h, []⟩ hnew rfl rfl
    refine ⟨h, hnew, Prod.ext ((hkept.mpr ⟨htripped, rfl⟩).trans htripped)
      (hcursor.mpr ⟨htripped, rfl⟩), hperm.map _⟩
  · have hresult : (match overStack256 fun i : Fin 3 => 2 ^ (i.val + 5) with
        | .ok _ => none
        | .error g' => some g'.alloc.issued.length) = some 2 := by decide +kernel
    rcases hnew : overStack256 fun i : Fin 3 => 2 ^ (i.val + 5) with g' | h
    · rw [hnew] at hresult
      obtain ⟨hback, -⟩ := sizeClassed_regions_returned hhonours List.nodup_nil hinv
        region256_lawful (by decide) stack256_holds (show 2 < 2 ^ 32 by decide)
        (fun i : Fin 3 => 2 ^ (i.val + 5)) fun _ => 0
      exact ⟨g', rfl, hback g' hnew, Option.some.inj hresult⟩
    · rw [hnew] at hresult
      cases hresult

end ClassRun

end ForgeAlloc
