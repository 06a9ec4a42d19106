import ForgeAlloc.Layout.StackAllocRun

set_option autoImplicit false

/-! # Resizes on a `StackAlloc`

`StackAlloc` inherits `grow` and `shrink`, which request the new block, copy, and free the old one.
By then the new block is on top, so the free of the old one is out of order: it fails its debug
assertion and the frame of the old block stays below everything that is live.

`ResizeFrees` says what the resize owes: no assertion fails, and afterwards the blocks can be freed
one by one down to an empty stack. It holds when the new block is not served, and in no other case
(`resize_frees_iff`).
-/

namespace ForgeAlloc

open MachineInt ByteMemory RegionStack StackAlloc

namespace StackRun

variable {w : Nat} {β : Type} {R : FixedRange β} {base capacity : Nat} {s : StackRun w β}
  {K : List (StackBlock w)} {g i : StackBlock w} {new : NonZeroLayout w}

/-- A request is served: it fits above the cursor, and the backing commits it. -/
def Serves (R : FixedRange β) (l : NonZeroLayout w) (a : StackAlloc β) : Prop :=
  Fits (R.base a.backing) a.capacity a.cursor l.size l.align ∧
    (R.commit (alignUp (R.base a.backing + a.cursor) l.align - R.base a.backing) l.size
      a.backing).1 = true

/-- Freeing the addresses one after the other takes off the top block each time and restores the
cursor named beside the address; nothing is left in the end. -/
def Unwinds (w : Nat) (R : FixedRange β) : List (Nat × Nat) → StackAlloc β → Prop
  | [], a => a.cursor = 0 ∧ a.frames = []
  | (ptr, before) :: rest, a =>
      (deallocate w R ptr a).1 = .popped ∧ (deallocate w R ptr a).2.cursor = before ∧
        Unwinds w R rest (deallocate w R ptr a).2

/-- What a resize of `g` owes on success: its own free trips no assertion, and the new block and the
other live ones, the newest first, unwind the stack. -/
def ResizeFrees (R : FixedRange β) (s : StackRun w β) (g : StackBlock w) (tripped : Nat)
    (result : Option Block × Heap (DebugStack β)) : Prop :=
  ∀ b h', result = (some b, h') → h'.alloc.tripped = tripped ∧
    Unwinds w R ((b.ptr, g.before) ::
      (s.live.filter fun i => i ≠ g).map fun i => (i.block.ptr, i.before)) h'.alloc.stack

/-- Both resizes request first and free afterwards; only the copy differs. -/
theorem resize_cases (r : Resize) {ptr : Nat} {old : NonZeroLayout w} {h h' : Heap (DebugStack β)}
    {b : Block} (heq : r.call (allocator w R) ptr old new h = (some b, h')) :
    ∃ a m, StackAlloc.allocate R new h.alloc.stack = (some b, a) ∧
      h' = (allocator w R).deallocate ptr old ⟨⟨a, h.alloc.tripped⟩, m⟩ := by
  cases r with
  | grow =>
      simp only [Resize.call, allocator, defaultGrow, allocator.onAllocate] at heq
      split at heq
      · cases heq
      case h_2 dst h₁ hcall =>
          cases heq
          obtain ⟨hsome, rfl⟩ := Prod.mk.inj hcall
          exact ⟨_, _, Prod.ext hsome rfl, rfl⟩
  | shrink =>
      simp only [Resize.call, allocator, defaultShrink, allocator.onAllocate] at heq
      split at heq
      · cases heq
      case h_2 dst h₁ hcall =>
          cases heq
          obtain ⟨hsome, rfl⟩ := Prod.mk.inj hcall
          exact ⟨_, _, Prod.ext hsome rfl, rfl⟩

/-- A resize succeeds exactly when the new block is served. -/
theorem resize_isSome_iff (hR : R.Lawful) (hinv : Inv R base capacity s K) (r : Resize) {ptr : Nat}
    {old : NonZeroLayout w} {tripped : Nat} {m : Mem} :
    (r.call (allocator w R) ptr old new ⟨⟨s.stack, tripped⟩, m⟩).1.isSome ↔
      Serves R new s.stack := by
  have hserves : (StackAlloc.allocate R new s.stack).1.isSome ↔ Serves R new s.stack := by
    rw [hinv.holds.isSome_allocate_iff hR, Serves, hinv.holds.base_eq]
  rw [← hserves]
  cases r with
  | grow =>
      simp only [Resize.call, allocator, defaultGrow, allocator.onAllocate]
      split <;> simp_all
  | shrink =>
      simp only [Resize.call, allocator, defaultShrink, allocator.onAllocate]
      split <;> simp_all

/-- A free that pops nothing counts as a failed assertion. -/
theorem deallocate_tripped {ptr tripped : Nat} {l : NonZeroLayout w} {a : StackAlloc β} {m : Mem}
    (hout : (deallocate w R ptr a).1 ≠ .popped) :
    (allocator w R).deallocate ptr l ⟨⟨a, tripped⟩, m⟩ =
      ⟨⟨(deallocate w R ptr a).2, tripped + 1⟩, m⟩ := by
  show allocator.onDeallocate w R ptr l ⟨⟨a, tripped⟩, m⟩ = _
  unfold allocator.onDeallocate
  split
  case h_1 heq => exact absurd (congrArg Prod.fst heq) hout
  case h_2 heq => exact congrArg (fun r : FreeOutcome × StackAlloc β => (⟨⟨r.2, tripped + 1⟩, m⟩ :
      Heap (DebugStack β))) heq.symm

/-- **A resize that succeeds does not free the old block.** The new block is on top of the stack
when the old one is freed, so an assertion fails and every frame stays. -/
theorem Inv.resize_stuck (hR : R.Lawful) (hinv : Inv R base capacity s K) (hg : g ∈ K) (r : Resize)
    {tripped : Nat} {m : Mem} {b : Block} {h' : Heap (DebugStack β)}
    (heq : r.call (allocator w R) g.block.ptr g.layout new ⟨⟨s.stack, tripped⟩, m⟩ =
      (some b, h')) :
    h'.alloc.tripped = tripped + 1 ∧
      Holds R base h'.alloc.stack (⟨b, new, s.stack.cursor⟩ :: K) := by
  obtain ⟨a, m', hcall, rfl⟩ := resize_cases r heq
  have htop := (hinv.holds.allocate_some hR hcall).1
  have hnodup := htop.nodup_ptr
  rw [List.map_cons, List.nodup_cons] at hnodup
  have hne : b.ptr ≠ g.block.ptr := fun h => hnodup.1 (h ▸ List.mem_map_of_mem hg)
  obtain ⟨hout, hsame⟩ := htop.deallocate_refused (hinv.holds.ptr_lt hg)
    (fun i hi => by cases hi; exact hne)
  rw [deallocate_tripped hout, hsame]
  exact ⟨rfl, htop⟩

/-- **What the inherited resizes owe and when they deliver.** After a resize of a live block the
stack can be unwound, with no assertion failed, exactly when the new block was not served. When it
was, an assertion fails and, whatever else is freed, the frame of the old block stays and the
cursor never comes back to zero. The sizes of the two layouts play no part. -/
theorem resize_frees_iff (hR : R.Lawful) {b : β} {a : StackAlloc β} {maxDepth : Nat}
    {reserved : Bool} (hnew : withMaxDepth R b maxDepth reserved = some a)
    (hend : R.base b + R.size b ≤ 2 ^ w) {es : List (StackOp w)}
    (hrun : Machine.run (step R) (init w a) es = some s) (hg : g ∈ s.live) (r : Resize)
    (tripped : Nat) (m : Mem) :
    (ResizeFrees R s g tripped (r.call (allocator w R) g.block.ptr g.layout new
      ⟨⟨s.stack, tripped⟩, m⟩) ↔ ¬ Serves R new s.stack) ∧
    ∀ b' h', r.call (allocator w R) g.block.ptr g.layout new ⟨⟨s.stack, tripped⟩, m⟩ =
        (some b', h') →
      h'.alloc.tripped = tripped + 1 ∧
      ∀ ptrs : List Nat, (∀ p ∈ ptrs, p < 2 ^ w ∧ p ≠ g.block.ptr) →
        frame (R.base b) g ∈ (freeAll w R ptrs h'.alloc.stack).frames ∧
        0 < (freeAll w R ptrs h'.alloc.stack).cursor := by
  obtain ⟨K, hinv⟩ := run_inv hR ⟨[], Inv.init hnew hend⟩ hrun
  have hgK := hinv.mem_of_live hg
  constructor
  · rw [← resize_isSome_iff hR hinv r]
    constructor
    · intro hfrees hsome
      obtain ⟨b', hb'⟩ := Option.isSome_iff_exists.mp hsome
      have heq : r.call (allocator w R) g.block.ptr g.layout new ⟨⟨s.stack, tripped⟩, m⟩ =
          (some b', _) := Prod.ext hb' rfl
      have hstuck := (hinv.resize_stuck hR hgK r heq).1
      have hkept := (hfrees b' _ heq).1
      omega
    · intro hnone b' h' heq
      rw [heq] at hnone
      exact absurd rfl hnone
  · intro b' h' heq
    obtain ⟨htripped, hholds⟩ := hinv.resize_stuck hR hgK r heq
    refine ⟨htripped, fun ptrs hptrs => ?_⟩
    obtain ⟨K', hholds', hmem⟩ := hholds.mem_freeAll (List.mem_cons_of_mem _ hgK)
      (fun p hp => (hptrs p hp).1) (fun p hp => (hptrs p hp).2)
    refine ⟨?_, hholds'.cursor_pos hmem⟩
    rw [hholds'.frames_eq]
    exact List.mem_map_of_mem hmem

/-- One block of eight bytes. -/
def oneBlock : List (StackOp 64) := [.allocate bytes8]

def block8 : StackBlock 64 := ⟨⟨64, 8⟩, bytes8, 0⟩

theorem resize_frees_iff_grow :
    ∃ s, Machine.run (step inlineRange) (init 64 ⟨inline, 64, 0, []⟩) oneBlock = some s ∧
      (ResizeFrees inlineRange s block8 0 (Resize.grow.call (allocator 64 inlineRange) 64 bytes8
        bytes16 ⟨⟨s.stack, 0⟩, fun _ => 0⟩) ↔ ¬ Serves inlineRange bytes16 s.stack) := by
  have hnew : withMaxDepth inlineRange inline 0 false = some ⟨inline, 64, 0, []⟩ := rfl
  obtain ⟨s, hrun, hlive⟩ : ∃ s,
      Machine.run (step inlineRange) (init 64 ⟨inline, 64, 0, []⟩) oneBlock = some s ∧
        s.live = [block8] := ⟨_, rfl, rfl⟩
  have hg : block8 ∈ s.live := by simp [hlive]
  exact ⟨s, hrun, (resize_frees_iff (InlineBacked.range_lawful 64 64) hnew
    (show 64 + 64 ≤ 2 ^ 64 by decide) hrun hg .grow 0 fun _ => 0).1⟩

/-- **A block of 8 bytes is grown to 16.** The resize returns the new block, an assertion fails, and
after the new block, the only one that is live, has been freed the cursor is at 8. -/
theorem grow_stuck :
    ∃ s b h', Machine.run (step inlineRange) (init 64 ⟨inline, 64, 0, []⟩) oneBlock = some s ∧
      s.live = [block8] ∧
      Resize.grow.call (allocator 64 inlineRange) 64 bytes8 bytes16 ⟨⟨s.stack, 0⟩, fun _ => 0⟩ =
        (some b, h') ∧
      h'.alloc.tripped = 1 ∧ (freeAll 64 inlineRange [b.ptr] h'.alloc.stack).cursor = 8 ∧
      ¬ ResizeFrees inlineRange s block8 0 (Resize.grow.call (allocator 64 inlineRange) 64 bytes8
        bytes16 ⟨⟨s.stack, 0⟩, fun _ => 0⟩) := by
  refine ⟨_, _, _, rfl, rfl, rfl, rfl, rfl, fun hfrees => ?_⟩
  have hzero := (hfrees _ _ rfl).1
  cases hzero

end StackRun

end ForgeAlloc
