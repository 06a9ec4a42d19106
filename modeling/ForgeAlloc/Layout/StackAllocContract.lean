import ForgeAlloc.Layout.StackAlloc

set_option autoImplicit false

/-! # `StackAlloc` meets the `Allocator` contract

The contract lets blocks be freed in any order. A `StackAlloc` refuses a free of a block that is
not on top, and keeps it recorded: the block then stays where it is for good, and all others are as
safe as before. So the invariant (`Records`) asks of the ledger only that its blocks are recorded.

An order in which no free is refused is the client's affair.
-/

namespace ForgeAlloc

open MachineInt ByteMemory RegionStack

/-- The block as its client knows it. -/
def StackBlock.grant {w : Nat} (i : StackBlock w) : Grant w := ⟨i.block, i.layout⟩

namespace StackAlloc

variable {w : Nat} {β : Type}

/-- The range of a `StackAlloc` with its count. Its commit is the trait's, which does nothing. -/
def debugRange (R : FixedRange β) : FixedRange (DebugStack β) where
  base := fun s => R.base s.stack.backing
  size := fun s => s.stack.capacity
  commit := fun _ _ s => (true, s)

variable {R : FixedRange β} {base : Nat} {h h' : Heap (DebugStack β)} {K : List (StackBlock w)}
  {L : Set (Grant w)} {i : StackBlock w} {g : Grant w} {b : Block} {l : NonZeroLayout w}

/-- Every block of the ledger is recorded. -/
def Records (R : FixedRange β) (base : Nat) (h : Heap (DebugStack β)) (L : Set (Grant w)) : Prop :=
  ∃ K : List (StackBlock w), Holds R base h.alloc.stack K ∧ ∀ g ∈ L, ∃ i ∈ K, g = i.grant

theorem allocate_eq_some (heq : (allocator w R).allocate l h = (some b, h')) :
    ∃ a, StackAlloc.allocate R l h.alloc.stack = (some b, a) ∧
      h' = ⟨⟨a, h.alloc.tripped⟩, h.mem⟩ := by
  rcases hcall : StackAlloc.allocate R l h.alloc.stack with ⟨r, a⟩
  simp only [allocator, allocator.onAllocate, hcall, Prod.mk.injEq] at heq
  obtain ⟨rfl, rfl⟩ := heq
  exact ⟨a, rfl, rfl⟩

theorem allocate_eq_none (heq : (allocator w R).allocate l h = (none, h')) :
    ∃ a, StackAlloc.allocate R l h.alloc.stack = (none, a) ∧
      h' = ⟨⟨a, h.alloc.tripped⟩, h.mem⟩ := by
  rcases hcall : StackAlloc.allocate R l h.alloc.stack with ⟨r, a⟩
  simp only [allocator, allocator.onAllocate, hcall, Prod.mk.injEq] at heq
  obtain ⟨rfl, rfl⟩ := heq
  exact ⟨a, rfl, rfl⟩

/-- A free changes the stack only, and the count of the assertions that failed. -/
theorem deallocate_eq (ptr : Nat) (l : NonZeroLayout w) (h : Heap (DebugStack β)) :
    (allocator w R).deallocate ptr l h = ⟨⟨(StackAlloc.deallocate w R ptr h.alloc.stack).2,
      if (StackAlloc.deallocate w R ptr h.alloc.stack).1 = .popped then h.alloc.tripped
      else h.alloc.tripped + 1⟩, h.mem⟩ := by
  simp only [allocator, allocator.onDeallocate]
  rcases StackAlloc.deallocate w R ptr h.alloc.stack with ⟨_ | _ | _, a⟩
  · rfl
  · rfl
  · rfl

theorem backing_deallocate (ptr : Nat) (a : StackAlloc β) :
    (StackAlloc.deallocate w R ptr a).2.backing = a.backing := by
  simp only [StackAlloc.deallocate]
  split
  · rfl
  · split
    · rfl
    · rfl

/-! ## The contract -/

theorem Holds.satisfies {a : StackAlloc β} (hh : Holds R base a K) (hbase : 0 < base) (hi : i ∈ K) :
    Satisfies i.block i.layout := by
  have hle := hh.le_cursor hi
  have hcursor := hh.cursor_le
  have hend := hh.end_le
  have hstart := hh.base_le i hi
  exact ⟨hh.aligned i hi, (hh.len_eq i hi).ge, by omega, by omega⟩

theorem Holds.disjoint {a : StackAlloc β} (hh : Holds R base a K) {j : StackBlock w} (hi : i ∈ K)
    (hj : j ∈ K) (hne : i ≠ j) : Disjoint i.block.bytes j.block.bytes := by
  have hpair : K.Pairwise fun i j => Disjoint i.block.bytes j.block.bytes :=
    hh.pairwise.imp fun hle => Block.disjoint_of_le (Or.inr hle)
  have hsymm : Std.Symm fun i j : StackBlock w => Disjoint i.block.bytes j.block.bytes :=
    ⟨fun _ _ hij => hij.symm⟩
  exact hpair.forall hi hj hne

theorem Records.allocate_some (hR : R.Lawful) (hr : Records R base h L)
    (heq : (allocator w R).allocate l h = (some b, h')) : Issued (Records R base) L h h' b l := by
  obtain ⟨K, hh, hmem⟩ := hr
  obtain ⟨a, hcall, rfl⟩ := allocate_eq_some heq
  obtain ⟨hholds, -⟩ := hh.allocate_some hR hcall
  refine ⟨⟨_, hholds, fun g hg => ?_⟩, fun g hg => ?_, fun _ _ => rfl⟩
  · rcases Set.mem_insert_iff.mp hg with rfl | hg
    · exact ⟨_, List.mem_cons_self, rfl⟩
    · obtain ⟨i, hi, rfl⟩ := hmem g hg
      exact ⟨i, List.mem_cons_of_mem _ hi, rfl⟩
  · obtain ⟨i, hi, rfl⟩ := hmem g hg
    have hle := (List.pairwise_cons.mp hholds.pairwise).1 i hi
    exact Block.disjoint_of_le (Or.inr hle)

theorem Records.allocate_none (hR : R.Lawful) (hr : Records R base h L)
    (heq : (allocator w R).allocate l h = (none, h')) : Unchanged (Records R base) L h h' := by
  obtain ⟨K, hh, hmem⟩ := hr
  obtain ⟨a, hcall, rfl⟩ := allocate_eq_none heq
  exact ⟨⟨K, (hh.allocate_none hR hcall).1, hmem⟩, fun _ _ => rfl⟩

/-- A free takes the block off the stack, or leaves everything as it is. -/
theorem Records.deallocate (hr : Records R base h L) (hg : g ∈ L) :
    Unchanged (Records R base) (L \ {g}) h
      ((allocator w R).deallocate g.block.ptr g.layout h) := by
  obtain ⟨K, hh, hmem⟩ := hr
  obtain ⟨i, hi, rfl⟩ := hmem g hg
  rw [deallocate_eq]
  refine ⟨?_, fun _ _ => rfl⟩
  rcases hh.deallocate_cases (hh.ptr_lt hi) with ⟨j, K', rfl, hptr, -, -, hholds⟩ | ⟨-, hsame⟩
  · refine ⟨K', hholds, fun g' hg' => ?_⟩
    obtain ⟨k, hk, rfl⟩ := hmem g' hg'.1
    rcases List.mem_cons.mp hk with rfl | hk
    · have hki : k = i := hh.eq_of_ptr List.mem_cons_self hi hptr
      exact absurd (hki ▸ rfl) hg'.2
    · exact ⟨k, hk, rfl⟩
  · refine ⟨K, ?_, fun g' hg' => hmem g' hg'.1⟩
    show Holds R base (StackAlloc.deallocate w R i.block.ptr h.alloc.stack).2 K
    rw [hsame]
    exact hh

theorem honoursCore (hR : R.Lawful) (hbase : 0 < base) :
    HonoursCore (allocator w R) (Records R base) where
  satisfies := by
    rintro h L g ⟨K, hh, hmem⟩ hg
    obtain ⟨i, hi, rfl⟩ := hmem g hg
    exact hh.satisfies hbase hi
  disjoint := by
    rintro h L g g' ⟨K, hh, hmem⟩ hg hg' hne
    obtain ⟨i, hi, rfl⟩ := hmem g hg
    obtain ⟨j, hj, rfl⟩ := hmem g' hg'
    refine hh.disjoint hi hj ?_
    rintro rfl
    exact hne rfl
  allocate_some := fun hr heq => hr.allocate_some hR heq
  allocate_none := fun hr heq => hr.allocate_none hR heq
  deallocate := fun hr hg => hr.deallocate hg
  write := fun hr _ => hr

/-- **`StackAlloc` meets the contract**, and its blocks lie in its range. -/
theorem honours (hR : R.Lawful) (hbase : 0 < base) :
    HonoursRange (allocator w R) (debugRange R) (Records R base) where
  toHonours := (honoursCore hR hbase).withDefaults rfl rfl fun _ _ heq => by cases heq
  base_le := by
    rintro h L g ⟨K, hh, hmem⟩ hg
    obtain ⟨i, hi, rfl⟩ := hmem g hg
    exact hh.base_eq ▸ hh.base_le i hi
  le_end := by
    rintro h L g ⟨K, hh, hmem⟩ hg
    obtain ⟨i, hi, rfl⟩ := hmem g hg
    have hle := hh.le_cursor hi
    have hcursor := hh.cursor_le
    show i.block.ptr + i.block.len ≤ R.base h.alloc.stack.backing + h.alloc.stack.capacity
    rw [hh.base_eq]
    omega
  base_pos := by
    rintro h L ⟨K, hh, -⟩
    exact hbase.trans_eq hh.base_eq.symm
  end_le := by
    rintro h L ⟨K, hh, -⟩
    exact hh.base_eq ▸ hh.end_le
  base_allocate := by
    rintro h L l ⟨K, hh, -⟩
    rcases hcall : (allocator w R).allocate l h with ⟨_ | b, h'⟩
    · obtain ⟨a, hstack, rfl⟩ := allocate_eq_none hcall
      exact (hh.allocate_none hR hstack).1.base_eq.trans hh.base_eq.symm
    · obtain ⟨a, hstack, rfl⟩ := allocate_eq_some hcall
      exact (hh.allocate_some hR hstack).1.base_eq.trans hh.base_eq.symm
  base_deallocate := by
    intro h L g _ _
    rw [deallocate_eq]
    exact congrArg R.base (backing_deallocate _ _)

/-! ## Frees in the order of the requests -/

/-- A free, with the count of the assertions that failed. -/
def freeOne (w : Nat) (R : FixedRange β) (ptr : Nat) (s : DebugStack β) : DebugStack β :=
  let (outcome, a) := StackAlloc.deallocate w R ptr s.stack
  ⟨a, if outcome = .popped then s.tripped else s.tripped + 1⟩

/-- Free the addresses of the list, the first one first. -/
def freeSeq (w : Nat) (R : FixedRange β) (ptrs : List Nat) (s : DebugStack β) : DebugStack β :=
  ptrs.foldl (fun s ptr => freeOne w R ptr s) s

variable {s s₀ : DebugStack β}

theorem freeSeq_cons (ptr : Nat) (ptrs : List Nat) (s : DebugStack β) :
    freeSeq w R (ptr :: ptrs) s = freeSeq w R ptrs (freeOne w R ptr s) := rfl

theorem freeSeq_stack (ptrs : List Nat) (s : DebugStack β) :
    (freeSeq w R ptrs s).stack = freeAll w R ptrs s.stack := by
  induction ptrs generalizing s with
  | nil => rfl
  | cons ptr ptrs ih =>
      rw [freeSeq_cons, ih, freeAll_cons]
      rfl

theorem tripped_le_freeOne (ptr : Nat) (s : DebugStack β) :
    s.tripped ≤ (freeOne w R ptr s).tripped := by
  simp only [freeOne]
  split
  · exact le_rfl
  · exact Nat.le_succ _

theorem tripped_le_freeSeq (ptrs : List Nat) (s : DebugStack β) :
    s.tripped ≤ (freeSeq w R ptrs s).tripped := by
  induction ptrs generalizing s with
  | nil => exact le_rfl
  | cons ptr ptrs ih => exact (tripped_le_freeOne ptr s).trans (ih _)

/-- A lone block is on top. -/
theorem Holds.freeOne_top (hh : Holds R base s.stack (i :: K)) :
    (freeOne w R i.block.ptr s).tripped = s.tripped ∧
      Holds R base (freeOne w R i.block.ptr s).stack K := by
  obtain ⟨hcall, hrest⟩ := hh.deallocate_top
  simp only [freeOne, hcall]
  exact ⟨if_pos trivial, hrest⟩

/-- A block that has others above it is refused. -/
theorem Holds.freeOne_below {j : StackBlock w} (hh : Holds R base s.stack (i :: K)) (hj : j ∈ K) :
    (freeOne w R j.block.ptr s).tripped = s.tripped + 1 ∧
      (freeOne w R j.block.ptr s).stack = s.stack := by
  have hjK : j ∈ i :: K := List.mem_cons_of_mem _ hj
  have htop : ∀ k ∈ (i :: K).head?, k.block.ptr ≠ j.block.ptr := by
    intro k hk
    cases hk
    have hnodup := hh.nodup_ptr
    rw [List.map_cons, List.nodup_cons] at hnodup
    exact fun heq => hnodup.1 (heq ▸ List.mem_map_of_mem hj)
  obtain ⟨hout, hsame⟩ := hh.deallocate_refused (hh.ptr_lt hjK) htop
  simp only [freeOne]
  exact ⟨if_neg hout, hsame⟩

/-- Under a block lies at least what was there when it was requested. -/
theorem Holds.cursor_lt_of_mem {bs : List (StackBlock w)} (h₀ : Holds R base s₀.stack K)
    (hh : Holds R base s.stack (bs ++ i :: K)) :
    base + s₀.stack.cursor < i.block.ptr + i.block.len := by
  have hst := hh.stacked
  rw [List.map_append] at hst
  have hbelow := hst.of_append
  rw [List.map_cons, stacked_cons] at hbelow
  obtain ⟨-, hbefore, -, hrest⟩ := hbelow
  have hcursor : s₀.stack.cursor = (region base i).before := h₀.stacked.cursor_unique hrest
  have hi : i ∈ bs ++ i :: K := List.mem_append_right _ List.mem_cons_self
  have hpos := hh.len_pos hi
  have hbase := hh.base_le i hi
  simp only [region] at hbefore hcursor
  omega

/-- **Freeing blocks in the order in which they were requested** goes through without a refusal,
and brings the cursor back, exactly when there is a single block and nothing above it. -/
theorem Holds.freeSeq_reverse_iff {above bs : List (StackBlock w)}
    (h₀ : Holds R base s₀.stack K) (hh : Holds R base s.stack (above ++ (bs ++ K)))
    (hne : bs ≠ []) :
    ((freeSeq w R (bs.reverse.map fun i => i.block.ptr) s).tripped = s.tripped ↔
        above = [] ∧ bs.length = 1) ∧
      ((freeSeq w R (bs.reverse.map fun i => i.block.ptr) s).stack.cursor = s₀.stack.cursor ↔
        above = [] ∧ bs.length = 1) := by
  rcases List.eq_nil_or_concat bs with rfl | ⟨xs, r, rfl⟩
  · exact absurd rfl hne
  rw [List.concat_eq_append] at hh ⊢
  rw [List.reverse_concat, List.map_cons, freeSeq_cons]
  have hshape : above ++ (xs ++ [r] ++ K) = above ++ xs ++ r :: K := by simp
  rw [hshape] at hh
  have hsingle : (above = [] ∧ (xs ++ [r]).length = 1) ↔ above ++ xs = [] := by
    rw [List.length_append, List.length_singleton, List.append_eq_nil_iff]
    exact and_congr_right fun _ => by rw [← List.length_eq_zero_iff]; omega
  rw [hsingle]
  rcases htop : above ++ xs with _ | ⟨i, rest⟩
  · obtain ⟨-, rfl⟩ := List.append_eq_nil_iff.mp htop
    rw [htop] at hh
    obtain ⟨htripped, hrest⟩ := hh.freeOne_top
    have hcursor := hrest.stacked.cursor_unique h₀.stacked
    exact ⟨iff_of_true htripped rfl, iff_of_true hcursor rfl⟩
  · have hbelow := h₀.cursor_lt_of_mem hh
    have hrK : r ∈ above ++ xs ++ r :: K := List.mem_append_right _ List.mem_cons_self
    have hother : ∀ p ∈ xs.reverse.map fun i => i.block.ptr, p < 2 ^ w ∧ p ≠ r.block.ptr := by
      intro p hp
      obtain ⟨j, hj, rfl⟩ := List.mem_map.mp hp
      have hjxs : j ∈ above ++ xs := List.mem_append_right _ (List.mem_reverse.mp hj)
      refine ⟨hh.ptr_lt (List.mem_append_left _ hjxs), ?_⟩
      have hnodup := hh.nodup_ptr
      rw [List.map_append] at hnodup
      exact (List.nodup_append.mp hnodup).2.2 j.block.ptr (List.mem_map_of_mem hjxs) r.block.ptr
        (List.mem_map_of_mem List.mem_cons_self)
    rw [htop] at hh hrK
    have hr : r ∈ rest ++ r :: K := List.mem_append_right _ List.mem_cons_self
    obtain ⟨htripped, hstack⟩ := hh.freeOne_below hr
    have hle := tripped_le_freeSeq (w := w) (R := R) (xs.reverse.map fun i => i.block.ptr)
      (freeOne w R r.block.ptr s)
    refine ⟨iff_of_false (by omega) (List.cons_ne_nil _ _),
      iff_of_false (fun heq => ?_) (List.cons_ne_nil _ _)⟩
    -- the block that was refused stays under the cursor
    rw [freeSeq_stack, hstack] at heq
    obtain ⟨K', hholds, hkept⟩ :=
      hh.mem_freeAll hrK (fun p hp => (hother p hp).1) fun p hp => (hother p hp).2
    have hcursor := hholds.le_cursor hkept
    omega

end StackAlloc

end ForgeAlloc
