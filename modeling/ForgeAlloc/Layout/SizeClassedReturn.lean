import ForgeAlloc.Layout.SizeClassedRun

set_option autoImplicit false

/-! # The regions of a `SizeClassed` go back to the backing

A construction that fails gives back the regions it has taken, the last one first. The drop gives
back all regions, and starts with the first class: a backing that expects the last one first, such
as `StackAlloc`, is served in the wrong order.

Both are `giveBack`, a loop over offsets and layouts. What reaches the backing is read off its
record: `giveBack_grants` is the loop, `withClassSizes_error` the failed construction and
`Inv.drop` the drop of a value without fallback blocks.
-/

namespace ForgeAlloc

open MachineInt ByteMemory SlotPool Linked

namespace SizeClassed

variable {w n : Nat} {β : Type}

/-- Return regions to the backing in the order of the list, each at its offset. -/
def giveBack (A : Allocator w β) (R : FixedRange β) (entries : List (Nat × NonZeroLayout w))
    (h : Heap β) : Heap β :=
  entries.foldl (fun h e => A.deallocate (R.base h.alloc + e.1) e.2 h) h

theorem undo_eq_giveBack (A : Allocator w β) (R : FixedRange β)
    (built : List (UntypedSlab × NonZeroLayout w)) (h : Heap β) :
    undo A R built h = giveBack A R (built.reverse.map fun e => (e.1.baseOffset, e.2)) h := by
  rw [giveBack, List.foldl_map]
  rfl

theorem drop_eq_giveBack (A : Allocator w β) (R : FixedRange β) (h : Heap (SizeClassed w n β)) :
    drop A R h = giveBack A R
      (List.ofFn fun i => ((h.alloc.slabs i).baseOffset, h.alloc.classLayouts i))
      ⟨h.alloc.backing, h.mem⟩ := by
  rw [giveBack, List.ofFn_eq_map, List.foldl_map]
  rfl

/-- What the loops name a region by. -/
def entry (base : Nat) (g : Grant w) : Nat × NonZeroLayout w := (g.block.ptr - base, g.layout)

variable {A : Allocator w β} {R : FixedRange β} {BInv : Heap β → Set (Grant w) → Prop}
  {old : List (Grant w)} {base : Nat}

/-- Grants that are given back in a row: the record receives them in that order. -/
theorem giveBack_grants (hA : HonoursRange A R BInv) {grants : List (Grant w)}
    (hnodup : grants.Nodup) :
    ∀ {h : Heap (Recorded w β)} {L : Set (Grant w)}, Logged BInv old h L →
      R.base h.alloc.inner = base → (∀ g ∈ grants, g ∈ L) →
      let h' := giveBack (recorded A) (R.recorded w) (grants.map (entry base)) h
      h'.alloc.received = (grants.map Grant.ticket).reverse ++ h.alloc.received ∧
        h'.alloc.issued = h.alloc.issued ∧ R.base h'.alloc.inner = base := by
  have hA' := recorded_honours hA old
  induction grants with
  | nil =>
      intro h L _ hbase _
      exact ⟨rfl, rfl, hbase⟩
  | cons g grants ih =>
      obtain ⟨hg, hnodup⟩ := List.nodup_cons.mp hnodup
      intro h L hl hbase hmem h'
      have hgL : g ∈ L := hmem g List.mem_cons_self
      have hle : (R.recorded w).base h.alloc ≤ g.block.ptr := hA'.base_le hl hgL
      have hbase' : (R.recorded w).base h.alloc = base := hbase
      have hptr : (R.recorded w).base h.alloc + (g.block.ptr - base) = g.block.ptr := by omega
      have hstep : h' = giveBack (recorded A) (R.recorded w) (grants.map (entry base))
          ((recorded A).deallocate g.block.ptr g.layout h) := by
        show giveBack _ _ (grants.map (entry base)) ((recorded A).deallocate _ _ h) = _
        rw [entry, hptr]
      have hrest := ih hnodup (hA'.deallocate hl hgL).inv
        ((hA'.base_deallocate hl hgL).trans hbase')
        fun g' hg' => ⟨hmem g' (List.mem_cons_of_mem _ hg'),
          fun heq => hg (Set.mem_singleton_iff.mp heq ▸ hg')⟩
      rw [← hstep] at hrest
      obtain ⟨hreceived, hissued, hbase''⟩ := hrest
      refine ⟨?_, hissued, hbase''⟩
      rw [hreceived, List.map_cons, List.reverse_cons, List.append_assoc]
      rfl

/-! ## A construction that fails -/

/-- The ticket of a region that the loop has recorded. -/
def regionTicket (base : Nat) (e : UntypedSlab × NonZeroLayout w) : Ticket w :=
  (base + e.1.baseOffset, e.2)

/-- The loop asks the backing for the regions in the order of the classes, and frees nothing. -/
theorem buildRegions_recorded (hA : HonoursRange A R BInv) {slots : Nat} :
    ∀ {sizes : List Nat} {h h' : Heap (Recorded w β)} {L : Set (Grant w)}
      {built : List (UntypedSlab × NonZeroLayout w)}, Logged BInv old h L →
      R.base h.alloc.inner = base →
      buildRegions (recorded A) (R.recorded w) slots sizes h = (built, h') →
      h'.alloc.issued = (built.map (regionTicket base)).reverse ++ h.alloc.issued ∧
        h'.alloc.received = h.alloc.received := by
  have hA' := recorded_honours hA old
  intro sizes
  induction sizes with
  | nil =>
      intro h h' L built hl hbase heq
      cases heq
      exact ⟨rfl, rfl⟩
  | cons stride rest ih =>
      intro h h' L built hl hbase heq
      rw [buildRegions] at heq
      split at heq
      case h_1 =>
          cases heq
          exact ⟨rfl, rfl⟩
      case h_2 layout _ =>
          rcases hcall : (recorded A).allocate layout h with ⟨_ | region, h₁⟩
          · rw [hcall] at heq
            cases heq
            obtain ⟨-, rfl⟩ := note_eq_none hcall
            exact ⟨rfl, rfl⟩
          · rw [hcall] at heq
            simp only at heq
            rcases hrest : buildRegions (recorded A) (R.recorded w) slots rest h₁ with ⟨built₁, h₂⟩
            rw [hrest] at heq
            cases heq
            have hiss := hA'.allocate_some hl hcall
            have hbase₁ : (R.recorded w).base h₁.alloc = base := by
              have hsame := hA'.base_allocate (l := layout) hl
              rw [hcall] at hsame
              exact hsame.trans hbase
            obtain ⟨hissued, hreceived⟩ := ih hiss.inv hbase₁ hrest
            -- the offset that is recorded leads back to the region
            have hgrant : (⟨region, layout⟩ : Grant w) ∈ insert (⟨region, layout⟩ : Grant w) L :=
              Set.mem_insert _ _
            have hle : (R.recorded w).base h₁.alloc ≤ region.ptr := hA'.base_le hiss.inv hgrant
            have hsat := hA'.satisfies hiss.inv hgrant
            have hlt : region.ptr < 2 ^ w := by
              have hspace := hsat.inSpace
              have hpos := hsat.len_pos
              simp only at hspace hpos
              omega
            have hticket : regionTicket base (UntypedSlab.new
                (wrappingSub w region.ptr ((R.recorded w).base h₁.alloc)) stride slots, layout) =
                (region.ptr, layout) := by
              have hptr : base + wrappingSub w region.ptr ((R.recorded w).base h₁.alloc) =
                  region.ptr := by
                rw [wrappingSub_of_le hle hlt, hbase₁]
                omega
              exact Prod.ext hptr rfl
            obtain ⟨-, rfl⟩ := note_eq_some hcall
            refine ⟨?_, hreceived⟩
            rw [hissued, List.map_cons, hticket, List.reverse_cons, List.append_assoc]
            rfl

theorem forall₂_built_map {slots : Nat} {built : List (UntypedSlab × NonZeroLayout w)}
    {grants : List (Grant w)} (hbuilt : List.Forall₂ (Built base slots) built grants) :
    built.map (fun e => (e.1.baseOffset, e.2)) = grants.map (entry base) ∧
      built.map (regionTicket base) = grants.map Grant.ticket := by
  induction hbuilt with
  | nil => exact ⟨rfl, rfl⟩
  | cons he _ ih =>
      obtain ⟨hentries, htickets⟩ := ih
      simp only [List.map_cons, hentries, htickets, List.cons.injEq, and_true]
      constructor
      · refine Prod.ext ?_ he.layout_eq.symm
        simp only [entry, he.ptr_eq]
        omega
      · exact Prod.ext he.ptr_eq.symm he.layout_eq.symm

/-- **The rollback.** A construction that fails has given back what it had taken, each region once
under its own layout, and in the reverse order. -/
theorem withClassSizes_error (hA : HonoursRange A R BInv) {g : Heap β} (hold : old.Nodup)
    (hinv : BInv g {x | x ∈ old}) {sizes : Fin n → Nat} {cap : Nat} {g' : Heap (Recorded w β)}
    (herr : withClassSizes (recorded A) (R.recorded w) sizes cap ⟨⟨g.alloc, [], []⟩, g.mem⟩ =
      .error g') : g'.alloc.received = g'.alloc.issued.reverse := by
  have hA' := recorded_honours hA old
  have hstart : Logged BInv old ⟨⟨g.alloc, [], []⟩, g.mem⟩ {x | x ∈ old} := logged_init hinv hold
  unfold withClassSizes at herr
  split at herr
  · cases herr
    rfl
  split at herr
  · cases herr
    rfl
  rcases hbuild : buildRegions (recorded A) (R.recorded w) cap (List.ofFn sizes)
    ⟨⟨g.alloc, [], []⟩, g.mem⟩ with ⟨built, h₁⟩
  rw [hbuild] at herr
  simp only at herr
  have hundo : g' = undo (recorded A) (R.recorded w) built h₁ := by
    split at herr
    case isTrue =>
        split at herr
        · cases herr
          rfl
        · cases herr
    case isFalse =>
        cases herr
        rfl
  obtain ⟨hissued, hreceived⟩ := buildRegions_recorded hA hstart rfl hbuild
  obtain ⟨grants, hbuilt, -, hl, hbase, hnodup, -⟩ := buildRegions_spec hA' hstart hbuild
  obtain ⟨hentries, htickets⟩ := forall₂_built_map hbuilt
  have hback := giveBack_grants hA (List.nodup_reverse.mpr hnodup) hl hbase
    fun g hg => Or.inr (List.mem_reverse.mp hg)
  simp only at hback
  rw [hundo, undo_eq_giveBack, List.map_reverse, hentries, ← List.map_reverse]
  rw [hback.1, hback.2.1, hissued, hreceived, List.append_nil, List.append_nil,
    List.reverse_reverse, List.map_reverse, List.reverse_reverse]
  exact htickets.symm

/-! ## A construction that succeeds -/

/-- The record of a new value holds its regions, the last one on top. -/
theorem withClassSizes_issued (hA : HonoursRange A R BInv) {g : Heap β} (hold : old.Nodup)
    (hinv : BInv g {x | x ∈ old}) {sizes : Fin n → Nat} {cap : Nat}
    {h : Heap (SizeClassed w n (Recorded w β))}
    (hnew : withClassSizes (recorded A) (R.recorded w) sizes cap ⟨⟨g.alloc, [], []⟩, g.mem⟩ =
      .ok h) :
    0 < n ∧ h.alloc.backing.received = [] ∧
      h.alloc.backing.issued = (ClassRun.regionTickets R ⟨h, []⟩).reverse := by
  have hstart : Logged BInv old ⟨⟨g.alloc, [], []⟩, g.mem⟩ {x | x ∈ old} := logged_init hinv hold
  unfold withClassSizes at hnew
  split at hnew
  · cases hnew
  case isFalse hpos =>
  split at hnew
  · cases hnew
  rcases hbuild : buildRegions (recorded A) (R.recorded w) cap (List.ofFn sizes)
    ⟨⟨g.alloc, [], []⟩, g.mem⟩ with ⟨built, h₁⟩
  rw [hbuild] at hnew
  simp only at hnew
  split at hnew
  case isFalse => cases hnew
  case isTrue hlen =>
  split at hnew
  · cases hnew
  cases hnew
  obtain ⟨hissued, hreceived⟩ := buildRegions_recorded hA hstart rfl hbuild
  have hbase : R.base h₁.alloc.inner = R.base g.alloc := by
    obtain ⟨-, -, -, -, hsame, -⟩ := buildRegions_spec (recorded_honours hA old) hstart hbuild
    exact hsame
  refine ⟨by omega, hreceived, ?_⟩
  show h₁.alloc.issued = _
  rw [hissued, List.append_nil]
  congr 1
  apply List.ext_getElem
  · simp [ClassRun.regionTickets, hlen]
  · intro k hk hk'
    simp [ClassRun.regionTickets, regionTicket, hbase]

end SizeClassed

namespace ClassRun

open SizeClassed

variable {w n : Nat} {β : Type} {A : Allocator w β} {R : FixedRange β}
  {BInv : Heap β → Set (Grant w) → Prop} {cap base : Nat} {old : List (Grant w)}
  {regions : Fin n → Grant w} {s : ClassRun w n β} {pools : Fin n → Pool cap}

/-! ## The drop -/

theorem Inv.map_entry (hi : Inv R BInv base old regions s pools) :
    (List.ofFn regions).map (entry base) =
      List.ofFn fun i => ((s.heap.alloc.slabs i).baseOffset, s.heap.alloc.classLayouts i) := by
  rw [List.map_ofFn]
  congr 1
  funext i
  have hptr := hi.holds.region_ptr i
  refine Prod.ext ?_ (hi.holds.region_layout i)
  simp only [Function.comp_apply, entry]
  omega

/-- The drop of a value hands back its regions, the first class first. -/
theorem Inv.drop (hi : Inv R BInv base old regions s pools) (hA : HonoursRange A R BInv)
    (hnodup : (List.ofFn regions).Nodup) :
    let d := SizeClassed.drop (recorded A) (R.recorded w) s.heap
    d.alloc.received = (regionTickets R s).reverse ++ s.heap.alloc.backing.received ∧
      d.alloc.issued = s.heap.alloc.backing.issued := by
  have hmem : ∀ g ∈ List.ofFn regions, g ∈ kept old regions ∪ {g | g ∈ fallback s.live} :=
    fun g hg => Or.inl (Or.inr hg)
  have hback := giveBack_grants hA hnodup hi.holds.backing_inv hi.holds.base_eq hmem
  simp only at hback ⊢
  rw [drop_eq_giveBack, ← hi.map_entry, hback.1, hback.2.1, hi.map_ticket]
  exact ⟨rfl, rfl⟩

/-- The regions are different grants, and so are their tickets: the alignments differ. -/
theorem Inv.nodup_regionTickets (hi : Inv R BInv base old regions s pools) :
    (regionTickets R s).Nodup := by
  have haligns : (regionTickets R s).map (fun t => t.2.align) =
      List.ofFn s.heap.alloc.classSizes := by
    rw [regionTickets, List.map_ofFn]
    congr 1
    funext i
    exact hi.holds.layout_align i
  refine List.Nodup.of_map (fun t => t.2.align) ?_
  rw [haligns]
  exact List.nodup_ofFn.mpr hi.holds.sized.strictMono.injective

/-- A list without duplicates reads the same from both ends only if it is very short. -/
theorem reverse_eq_self_iff {α : Type} {l : List α} (hl : l.Nodup) :
    l.reverse = l ↔ l.length ≤ 1 := by
  cases l with
  | nil => simp
  | cons a l =>
      cases l with
      | nil => simp
      | cons b l =>
          have hlong : ¬ (a :: b :: l).length ≤ 1 := by simp
          refine iff_of_false (fun heq => ?_) hlong
          have hhead := congrArg List.head? heq
          rw [List.head?_reverse, List.head?_cons, List.getLast?_cons_cons] at hhead
          exact (List.nodup_cons.mp hl).1 (List.mem_of_getLast? hhead)

/-- **When the drop is in the order of a stack.** The last region is given back first exactly when
there is only one. -/
theorem Inv.drop_lifo_iff (hi : Inv R BInv base old regions s pools) (hA : HonoursRange A R BInv)
    (hnodup : (List.ofFn regions).Nodup) (hn : 0 < n) :
    (SizeClassed.drop (recorded A) (R.recorded w) s.heap).alloc.received =
      regionTickets R s ++ s.heap.alloc.backing.received ↔ n = 1 := by
  have hdrop := (hi.drop hA hnodup).1
  rw [hdrop, List.append_left_inj, reverse_eq_self_iff hi.nodup_regionTickets]
  have hlen : (regionTickets R s).length = n := List.length_ofFn
  omega

/-- With no fallback block out, everything the backing has issued is back after the drop. -/
theorem Inv.drop_perm (hi : Inv R BInv base old regions s pools) (hA : HonoursRange A R BInv)
    (hold : old.Nodup) (hnodup : (List.ofFn regions).Nodup)
    (hnot : ∀ g ∈ List.ofFn regions, g ∉ old) (hnone : fallback s.live = []) :
    let d := SizeClassed.drop (recorded A) (R.recorded w) s.heap
    d.alloc.issued.Perm d.alloc.received := by
  obtain ⟨hreceived, hissued⟩ := hi.drop hA hnodup
  have haccounts := hi.accounts hold hnodup hnot
  rw [hnone, List.map_nil, List.append_nil] at haccounts
  simp only at hreceived hissued ⊢
  rw [hreceived, hissued]
  have hswap := haccounts.trans List.perm_append_comm
  exact hswap.trans ((List.reverse_perm _).symm.append_right _)

end ClassRun

end ForgeAlloc
