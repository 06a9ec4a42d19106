import ForgeAlloc.Backing.HeapBytes
import ForgeAlloc.Backing.InlineContract
import ForgeAlloc.Fuzz.Harness
import ForgeAlloc.Layout.ArenaComponents
import ForgeAlloc.Layout.FallbackComponent
import ForgeAlloc.Layout.SlabDebug
import ForgeAlloc.Layout.SlabDrop

set_option autoImplicit false

/-! # The fuzz targets

Each target runs over a storage of 8192 bytes that lies inside a local value. The value is built in
one place and moved to another, its last one. The targets are debug builds, so the slab is that of
`SlabDebug`. No input makes a target panic.
-/

namespace ForgeAlloc

open MachineInt ByteMemory

namespace Fuzz

variable {w : Nat}

/-- The storage of the targets. -/
abbrev Storage (w : Nat) : Type := InlineBacked w 8192

/-- A place for it. -/
structure Place (w : Nat) where
  addr : Nat
  addr_pos : 0 < addr
  addr_aligned : maxAlign ∣ addr
  /-- The cursor of the value lies behind the storage. -/
  end_lt : addr + 8192 < 2 ^ w

/-- `InlineBacked::<8192>::new()`. -/
def Place.storage (p : Place w) : Storage w :=
  InlineBacked.new p.addr p.addr_pos p.addr_aligned p.end_lt.le

/-! ## `fuzz_bump_arena` -/

inductive BumpOp
  | alloc (size : UInt16) (alignLog : UInt8)
  | reset

/-- The arena, and the ranges of the blocks since the last reset. -/
abbrev BumpRun (w : Nat) : Type := Run (BumpArena (Storage w)) (Nat × Nat)

def bumpStep (s : BumpRun w) : BumpOp → Except FuzzFailure (BumpRun w)
  | .alloc size alignLog =>
      let size := min (max size.toNat 1) 256
      let align := 1 <<< (alignLog.toNat &&& 7)
      match NonZeroLayout.fromSizeAlign w size align with
      | none => .ok s
      | some layout =>
          match BumpArena.allocate (InlineBacked.range w 8192) layout s.heap with
          | (none, h) => .ok ⟨h, s.live⟩
          | (some block, h) =>
              let start := block.ptr
              match checkedAdd w start block.len with
              | none => .error .overflow
              | some fin => do
                  check (start % align = 0) "alignment violated"
                  check (size ≤ fin - start) "size too small"
                  s.live.forM fun r => check (fin ≤ r.1 ∨ r.2 ≤ start) "overlap with live range"
                  .ok ⟨h, s.live ++ [(start, fin)]⟩
  | .reset => .ok ⟨⟨s.heap.alloc.reset, s.heap.mem⟩, []⟩

/-- `fuzz_bump_arena`, with the arena built at `built` and moved to `place`. -/
def fuzzBumpArena (built place : Place w) (m : Mem) (ops : List BumpOp) :
    Except FuzzFailure Unit :=
  match BumpArena.new w (InlineBacked.range w 8192) built.storage with
  | none => .ok ()
  | some a => do
      let arena := { a with backing := a.backing.movedTo place.storage }
      let _ ← (ops.take 256).foldlM bumpStep ⟨⟨arena, m⟩, []⟩
      .ok ()

/-- The ranges are those of blocks that are out, below the cursor and above the base. -/
def BumpHeld (base : Nat) (s : BumpRun w) : Prop :=
  ∃ L : Set (Grant w), BumpArena.Holds (InlineBacked.range w 8192) base s.heap L ∧
    ∀ r ∈ s.live, ∃ g ∈ L, r = (g.block.ptr, g.block.ptr + g.block.len)

theorem bumpStep_ok {base : Nat} (hbase : 0 < base) (s : BumpRun w) (op : BumpOp)
    (hs : BumpHeld base s) : ∃ s', bumpStep s op = .ok s' ∧ BumpHeld base s' := by
  obtain ⟨L, hh, hlive⟩ := hs
  have hR := InlineBacked.range_lawful w 8192
  cases op with
  | reset =>
      have hsound : BumpArena.Sound w (InlineBacked.range w 8192) base s.heap.alloc.reset :=
        ⟨hh.sound.base_eq, hh.sound.end_lt, Nat.zero_le _⟩
      exact ⟨_, rfl, ∅, BumpArena.holds_empty hsound _, List.forall_mem_nil _⟩
  | alloc size alignLog =>
      simp only [bumpStep]
      generalize min (max size.toNat 1) 256 = n
      generalize 1 <<< (alignLog.toNat &&& 7) = align
      cases hlayout : NonZeroLayout.fromSizeAlign w n align with
      | none => exact ⟨s, rfl, L, hh, hlive⟩
      | some layout =>
          obtain ⟨rfl, rfl⟩ := NonZeroLayout.fromSizeAlign_eq_some.mp hlayout
          simp only
          rcases hcall : BumpArena.allocate (InlineBacked.range w 8192) layout s.heap with
            ⟨_ | b, h⟩
          · exact ⟨_, rfl, L, (hh.allocate_none hR hcall).inv, hlive⟩
          · obtain ⟨hiss, -, hlen, -⟩ := hh.allocate_some hR hcall
            have hb : (⟨b, layout⟩ : Grant w) ∈ insert (⟨b, layout⟩ : Grant w) L :=
              Set.mem_insert _ _
            have hsat := (BumpArena.honoursCore hR base hbase).satisfies hiss.inv hb
            have hfin : b.ptr + b.len < 2 ^ w := by
              have hcursor := hiss.inv.le_cursor _ hb
              have hbound := hiss.inv.sound.cursor_le
              have hend := hiss.inv.sound.end_lt
              simp only at hcursor
              omega
            have halign : b.ptr % layout.align = 0 := Nat.mod_eq_zero_of_dvd hsat.aligned
            have hlarge : layout.size ≤ b.ptr + b.len - b.ptr := by omega
            have hapart : ∀ r ∈ s.live, b.ptr + b.len ≤ r.1 ∨ r.2 ≤ b.ptr := by
              intro r hr
              obtain ⟨g, hg, rfl⟩ := hlive r hr
              have hdisj := hiss.fresh g hg
              rw [Block.disjoint_iff] at hdisj
              have hpos := hsat.len_pos
              have hpos' : 0 < g.block.len := hh.len_eq g hg ▸ g.layout.size_pos
              simp only at hpos ⊢
              omega
            simp only [checkedAdd_eq_some.mpr ⟨hfin, rfl⟩, check_of halign, check_of hlarge,
              forM_check hapart]
            refine ⟨_, rfl, _, hiss.inv, ?_⟩
            intro r hr
            rcases List.mem_append.mp hr with hr | hr
            · obtain ⟨g, hg, heq⟩ := hlive r hr
              exact ⟨g, Set.mem_insert_of_mem _ hg, heq⟩
            · exact ⟨_, hb, List.mem_singleton.mp hr⟩

/-- **`fuzz_bump_arena` never panics**, wherever the arena is built and wherever it is moved to. -/
theorem fuzzBumpArena_ok (built place : Place w) (m : Mem) (ops : List BumpOp) :
    fuzzBumpArena built place m ops = .ok () := by
  unfold fuzzBumpArena
  split
  · rfl
  case h_2 a hnew =>
      obtain ⟨rfl, -⟩ := BumpArena.new_eq_some hnew
      let arena : BumpArena (Storage w) := ⟨built.storage.movedTo place.storage, 8192, 0⟩
      have hsound : BumpArena.Sound w (InlineBacked.range w 8192) place.addr arena :=
        ⟨rfl, place.end_lt, Nat.zero_le _⟩
      have hstart : BumpHeld place.addr ⟨⟨arena, m⟩, []⟩ :=
        ⟨∅, BumpArena.holds_empty hsound m, List.forall_mem_nil _⟩
      obtain ⟨s, hrun, -⟩ := foldlM_ok (bumpStep_ok place.addr_pos) hstart (ops.take 256)
      exact congrArg (· >>= fun _ => Except.ok ()) hrun

/-! ## `fuzz_slab` -/

inductive SlabOp
  | alloc
  | free (idx : UInt8)

/-- A call of the slab. -/
def slabCall {α : Type} (r : Except SlabPanic α) : Except FuzzFailure α :=
  r.mapError fun p => .call p.message

section

variable {β : Type} {T : RustType w}

def slabStep (R : FixedRange β) (layout : NonZeroLayout w) (s : Run (Slab T β) Nat) :
    SlabOp → Except FuzzFailure (Run (Slab T β) Nat)
  | .alloc => do
      match ← slabCall (Slab.debugAllocate R layout s.heap) with
      | (none, h) => .ok ⟨h, s.live⟩
      | (some block, h) => do
          s.live.forM fun q => check (block.ptr ≠ q) "duplicate live ptr"
          .ok ⟨h, s.live ++ [block.ptr]⟩
  | .free idx =>
      freeAt (fun t h => slabCall (Slab.debugDeallocate R t.1 t.2 h)) (fun p => (p, layout))
        idx.toNat s

variable {R : FixedRange β} {layout : NonZeroLayout w} {n : Nat}

theorem slabStep_ok (s : Run (Slab T β) Nat) (op : SlabOp)
    (hs : Held (Slab.Holds R n) (fun p => (p, layout)) s) :
    ∃ s', slabStep R layout s op = .ok s' ∧ Held (Slab.Holds R n) (fun p => (p, layout)) s' := by
  have hA := (Slab.honours T R n).toHonoursCore
  cases op with
  | free idx =>
      rw [slabStep]
      refine freeAt_ok hA (fun {t ts h} ht => ?_) hs idx.toNat
      -- the ticket is that of a live slot, whose layout the assertion tests
      obtain ⟨g, rfl, -, G, -, -, -, G', hset, hissues⟩ := ht.exists_grant
      have hg : g ∈ G' := (Set.ext_iff.mp hset g).mp (Or.inl List.mem_cons_self)
      show slabCall (Slab.debugDeallocate R g.block.ptr g.layout h) = _
      rw [hissues.debugDeallocate_eq hg]
      rfl
  | alloc =>
      have hcalled : slabCall (Slab.debugAllocate R layout s.heap) =
          .ok (Slab.allocate R layout s.heap) := by
        obtain ⟨G, -, -, -, G', -, hissues⟩ := hs
        rw [hissues.debugAllocate_eq]
        rfl
      rw [slabStep, hcalled]
      rcases hcall : Slab.allocate R layout s.heap with ⟨_ | b, h⟩
      · exact ⟨_, rfl, Tracked.allocate_none hA hs hcall⟩
      · obtain ⟨htracked, hnew⟩ := Tracked.allocate_some hA hs hcall
        have hlive : ∀ q ∈ s.live, b.ptr ≠ q :=
          fun q hq => (hnew (q, layout) (List.mem_map_of_mem hq)).symm
        refine ⟨⟨h, s.live ++ [b.ptr]⟩, ?_, ?_⟩
        · show ((s.live.forM fun q => check (b.ptr ≠ q) "duplicate live ptr") >>= fun _ => _) = _
          rw [forM_check hlive]
          rfl
        · rw [Held, List.map_append]
          exact htracked

end

/-- `fuzz_slab`, with the slab built at `built` and moved to `place`, and dropped there. `u64` is the
type as the platform lays it out; it has no destructor, so the drop counts nothing. -/
def fuzzSlab (u64 : RustType w) (built place : Place w) (m : Mem) (ops : List SlabOp) :
    Except FuzzFailure Unit :=
  match Slab.withProtection (InlineBacked.allocator w 8192) (InlineBacked.range w 8192) u64 64 .none
      ⟨built.storage, m⟩ with
  | none => .ok ()
  | some h =>
      match NonZeroLayout.forType u64 with
      | none => .error .unwrap
      | some layout => do
          let slab := h.alloc.moveTo (h.alloc.backing.movedTo place.storage)
          let s ← (ops.take 512).foldlM (slabStep (InlineBacked.range w 8192) layout)
            ⟨⟨slab, h.mem⟩, []⟩
          match (Slab.drop (InlineBacked.allocator w 8192) (InlineBacked.range w 8192) false
            s.heap).1 with
          | some p => .error (.call p.message)
          | none => .ok ()

theorem le_ptr_of_allocate {N : Nat} {s : InlineBacked w N} {m : Mem} {l : NonZeroLayout w}
    {b : Block} {h : Heap (InlineBacked w N)}
    (hcall : InlineBacked.allocate l ⟨s, m⟩ = (some b, h)) : s.addr ≤ b.ptr ∧ h.alloc.addr = s.addr := by
  have hframe := (InlineBacked.allocate_frame l ⟨s, m⟩).2
  rw [hcall] at hframe
  refine ⟨?_, hframe⟩
  unfold InlineBacked.allocate at hcall
  split at hcall
  · cases hcall
  · split at hcall
    · cases hcall
    · cases hcall
      exact Nat.le_add_right _ _

/-- **A slab that is built and then moved is one that is built where it ends up.** -/
theorem withProtection_movedTo {N : Nat} (T : RustType w) (n : Nat) (mac : FreelistProtection)
    (s place : InlineBacked w N) (m : Mem) :
    Slab.withProtection (InlineBacked.allocator w N) (InlineBacked.range w N) T n mac
        ⟨s.movedTo place, m⟩ =
      (Slab.withProtection (InlineBacked.allocator w N) (InlineBacked.range w N) T n mac
        ⟨s, m⟩).map fun h => ⟨h.alloc.moveTo (h.alloc.backing.movedTo place), h.mem⟩ := by
  unfold Slab.withProtection
  split
  · rfl
  split
  · rfl
  split
  · rfl
  simp only [Option.bind_eq_bind, Option.map_bind, Function.comp_def]
  refine congrArg (Option.bind _) (funext fun padded => ?_)
  refine congrArg (Option.bind _) (funext fun total => ?_)
  refine congrArg (Option.bind _) (funext fun layout => ?_)
  rw [show (InlineBacked.allocator w N).allocate layout ⟨s.movedTo place, m⟩ = _ from
    InlineBacked.allocate_movedTo s place m layout]
  rcases hcall : InlineBacked.allocate layout ⟨s, m⟩ with ⟨_ | b, h⟩
  · rw [show (InlineBacked.allocator w N).allocate layout ⟨s, m⟩ = _ from hcall]
    rfl
  · rw [show (InlineBacked.allocator w N).allocate layout ⟨s, m⟩ = _ from hcall]
    obtain ⟨hle, haddr⟩ := le_ptr_of_allocate hcall
    have hsub : checkedSub b.ptr h.alloc.addr = some (b.ptr - s.addr) :=
      checkedSub_eq_some.mpr ⟨haddr ▸ hle, by rw [haddr]⟩
    have hsub' : checkedSub (place.addr + (b.ptr - s.addr)) place.addr = some (b.ptr - s.addr) :=
      checkedSub_eq_some.mpr ⟨Nat.le_add_right _ _, by rw [Nat.add_sub_cancel_left]⟩
    simp only [InlineBacked.range, hsub, Option.map_some]
    rw [show checkedSub _ (h.alloc.movedTo place).addr = _ from hsub']
    rfl

/-- The layout of a type that a slab can hold. -/
theorem exists_forType {T : RustType w} (hT : T.size ≠ 0) :
    ∃ l : NonZeroLayout w, NonZeroLayout.forType T = some l := by
  have hpos : 0 < T.size := Nat.pos_of_ne_zero hT
  have hsize : T.size < 2 ^ (w - 1) := by
    have hle := T.size_le
    rw [isizeMax] at hle
    have htwo := Nat.two_pow_pos (w - 1)
    omega
  obtain ⟨k, hk⟩ := T.align_pow
  obtain ⟨c, hc⟩ := T.align_dvd
  -- half the address space is a multiple of the alignment, as the size is
  have hkw : k < w - 1 := by
    have hle : 2 ^ k ≤ T.size := hk ▸ Nat.le_of_dvd hpos T.align_dvd
    exact (Nat.pow_lt_pow_iff_right (by decide)).mp (hle.trans_lt hsize)
  obtain ⟨d, hd⟩ : T.align ∣ 2 ^ (w - 1) := hk ▸ pow_dvd_pow 2 hkw.le
  have hbound : T.size + (T.align - 1) ≤ isizeMax w := by
    rw [isizeMax]
    rw [hc, hd] at hsize
    have hcd : c + 1 ≤ d := Nat.lt_of_mul_lt_mul_left hsize
    have hmul : T.align * (c + 1) ≤ T.align * d := Nat.mul_le_mul_left _ hcd
    rw [Nat.mul_add, Nat.mul_one, ← hc, ← hd] at hmul
    omega
  exact ⟨⟨T.size, T.align, hpos, T.align_pow, hbound⟩,
    NonZeroLayout.fromSizeAlign_eq_some.mpr ⟨rfl, rfl⟩⟩

/-- **`fuzz_slab` never panics**, wherever the slab is built and wherever it is moved to: no
assertion of the target fails, and none of the slab. -/
theorem fuzzSlab_ok (u64 : RustType w) (built place : Place w) (m : Mem) (ops : List SlabOp) :
    fuzzSlab u64 built place m ops = .ok () := by
  unfold fuzzSlab
  split
  · rfl
  case h_2 h hnew =>
      have hsize : u64.size ≠ 0 := by
        intro hzero
        rw [Slab.withProtection, if_neg (by decide), if_pos hzero] at hnew
        cases hnew
      obtain ⟨layout, hlayout⟩ := exists_forType hsize
      simp only [hlayout]
      have hmoved := withProtection_movedTo u64 64 .none built.storage place.storage m
      rw [hnew] at hmoved
      have hA : HonoursRange (InlineBacked.allocator w 8192) (InlineBacked.range w 8192)
          (InlineBacked.Holds place.addr) := InlineBacked.honours w 8192 place.addr_pos
      have hfresh := InlineBacked.component_fresh (s := built.storage.movedTo place.storage) rfl
        place.end_lt m
      have hholds := Slab.holds_new hA hfresh.1 FreelistProtection.none_sound hmoved
      have hstart : Held (Slab.Holds (InlineBacked.range w 8192) 64) (fun p => (p, layout))
          ⟨⟨h.alloc.moveTo (h.alloc.backing.movedTo place.storage), h.mem⟩, []⟩ :=
        tracked_nil hholds
      obtain ⟨s, hrun, -⟩ := foldlM_ok slabStep_ok hstart (ops.take 512)
      rw [hrun]
      rfl

/-! ## `fuzz_with_fallback` -/

inductive FallbackOp
  | alloc (size : UInt16)
  | free (idx : UInt8)

section

variable {σ : Type}

def fallbackStep (A : Allocator w σ) (s : Run σ (Ticket w)) :
    FallbackOp → Except FuzzFailure (Run σ (Ticket w))
  | .alloc size =>
      let size := min (max size.toNat 1) 512
      match NonZeroLayout.fromSizeAlign w size 1 with
      | none => .error .unwrap
      | some layout =>
          match A.allocate layout s.heap with
          | (none, h) => .ok ⟨h, s.live⟩
          | (some block, h) => .ok ⟨h, s.live ++ [(block.ptr, layout)]⟩
  | .free idx => freeAt (fun t h => .ok (A.deallocate t.1 t.2 h)) id idx.toNat s

/-- One round of the last loop. What lies in the storage is left to it. -/
def drain (S : Allocator w σ) (h : Heap (WithFallback (Storage w) σ)) (t : Ticket w) :
    Heap (WithFallback (Storage w) σ) :=
  let R := InlineBacked.range w 8192
  if R.contains w t.1 h.alloc.primary then h
  else WithFallback.deallocate (InlineBacked.allocator w 8192) R S t.1 t.2 h

/-- `fuzz_with_fallback` over the global allocator `G`, with the value at `place`. -/
def fuzzWithFallback (G : Allocator w σ) (place : Place w) (a : σ) (m : Mem)
    (ops : List FallbackOp) : Except FuzzFailure (Heap (WithFallback (Storage w) σ)) := do
  let S := systemAllocator G
  let wf := WithFallback.allocator (InlineBacked.allocator w 8192) (InlineBacked.range w 8192) S
  let s ← (ops.take 512).foldlM (fallbackStep wf) ⟨⟨⟨place.storage, a⟩, m⟩, []⟩
  .ok (s.live.foldl (drain S) s.heap)

variable {A : Allocator w σ} {Inv : Heap σ → Set (Grant w) → Prop}

theorem fallbackStep_ok (hspace : 512 ≤ isizeMax w) (hA : HonoursCore A Inv)
    (s : Run σ (Ticket w)) (op : FallbackOp) (hs : Held Inv id s) :
    ∃ s', fallbackStep A s op = .ok s' ∧ Held Inv id s' := by
  cases op with
  | free idx => exact freeAt_ok hA (fun _ => rfl) hs idx.toNat
  | alloc size =>
      have hpos : 0 < min (max size.toNat 1) 512 := by omega
      have hbound : min (max size.toNat 1) 512 + (1 - 1) ≤ isizeMax w := by omega
      obtain ⟨layout, hlayout⟩ : ∃ layout : NonZeroLayout w,
          NonZeroLayout.fromSizeAlign w (min (max size.toNat 1) 512) 1 = some layout :=
        ⟨⟨_, 1, hpos, ⟨0, rfl⟩, hbound⟩, NonZeroLayout.fromSizeAlign_eq_some.mpr ⟨rfl, rfl⟩⟩
      simp only [fallbackStep, hlayout]
      rcases hcall : A.allocate layout s.heap with ⟨_ | b, h⟩
      · exact ⟨_, rfl, Tracked.allocate_none hA hs hcall⟩
      · refine ⟨_, rfl, ?_⟩
        rw [Held, List.map_append]
        exact (Tracked.allocate_some hA hs hcall).1

variable {S : Allocator w σ} {Z : Set Nat} {place : Place w} {K : Set (Grant w)}
  {h : Heap (WithFallback (Storage w) σ)}

/-- What holds of the value at `place` over a secondary with the invariant `IS`. -/
abbrev Halved (place : Place w) (IS : Heap σ → Set (Grant w) → Prop) :
    Heap (WithFallback (Storage w) σ) → Set (Grant w) → Prop :=
  WithFallback.Halved (InlineBacked.component w 8192 place.addr).inv IS

/-- **The last loop** leaves blocks of the storage out, and no others. -/
theorem foldl_drain (hS : WorksIn S Z Inv) (hdisj : Disjoint (Block.bytes ⟨place.addr, 8192⟩) Z)
    {ts : List (Ticket w)} (ht : Tracked (Halved place Inv) K ts h)
    (hK : ∀ g ∈ K, g.block.ptr ∈ Block.bytes ⟨place.addr, 8192⟩) :
    ∃ K', Halved place Inv (ts.foldl (drain S) h) K' ∧
      ∀ g ∈ K', g.block.ptr ∈ Block.bytes ⟨place.addr, 8192⟩ := by
  have hP := InlineBacked.lawful w 8192 place.addr_pos
  have htells := WithFallback.tells hP rfl
  have hA := (WithFallback.worksIn hP.toWorksIn hS hdisj htells).toHonoursCore
  induction ts generalizing h K with
  | nil => exact ⟨K, ht.inv_of_nil, hK⟩
  | cons t ts ih =>
      rw [List.foldl_cons]
      cases hin : (InlineBacked.range w 8192).contains w t.1 h.alloc.primary with
      | false =>
          rw [drain, if_neg (Bool.eq_false_iff.mp hin)]
          exact ih (ht.deallocate hA) hK
      | true =>
          rw [drain, if_pos hin]
          obtain ⟨g, rfl, hforget⟩ := ht.forget
          refine ih hforget (Set.forall_mem_insert.mpr ⟨?_, hK⟩)
          obtain ⟨G, -, -, -, hinv⟩ := hforget
          have hsat := hA.satisfies hinv (Or.inr (Set.mem_insert g K))
          obtain ⟨LP, LS, -, hs⟩ := hinv
          exact (htells _ _ hs.primary _ (WithFallback.ptr_lt hsat)).mp hin

/-- Where all that is out lies in the storage, nothing is out of the secondary. -/
theorem secondary_empty (hS : WorksIn S Z Inv)
    (hdisj : Disjoint (Block.bytes ⟨place.addr, 8192⟩) Z) (hinv : Halved place Inv h K)
    (hK : ∀ g ∈ K, g.block.ptr ∈ Block.bytes ⟨place.addr, 8192⟩) :
    Inv (WithFallback.secondaryHeap h) ∅ := by
  obtain ⟨LP, LS, rfl, hs⟩ := hinv
  have hempty : LS = ∅ := by
    refine Set.eq_empty_of_forall_notMem fun g hg => ?_
    have hsat := hS.satisfies hs.secondary hg
    have hfirst := hS.subset hs.secondary hg (WithFallback.first_mem hsat)
    exact Set.disjoint_left.mp hdisj (hK g (Or.inr hg)) hfirst
  exact hempty ▸ hs.secondary

/-- **`fuzz_with_fallback` never panics**, and hands back to the global allocator what it was given:
each block once, with its layout, and nothing else. -/
theorem fuzzWithFallback_ok {G : Allocator w σ} (hG : WorksIn G Z Inv)
    (hdisj : Disjoint (Block.bytes ⟨place.addr, 8192⟩) Z) {a : σ} {m : Mem}
    (hstart : Inv ⟨a, m⟩ ∅) (ops : List FallbackOp) :
    ∃ h, fuzzWithFallback (recorded G) place ⟨a, [], []⟩ m ops = .ok h ∧
      h.alloc.secondary.issued.Perm h.alloc.secondary.received ∧
      Inv ⟨h.alloc.secondary.inner, h.mem⟩ ∅ := by
  have hspace : 512 ≤ isizeMax w := by
    have hlt : 2 ^ 13 < 2 ^ w := (Nat.le_add_left _ _).trans_lt place.end_lt
    have hw : 13 < w := (Nat.pow_lt_pow_iff_right (by decide)).mp hlt
    have hle : 2 ^ 13 ≤ 2 ^ (w - 1) := Nat.pow_le_pow_right (by decide) (by omega)
    rw [isizeMax]
    omega
  have hP := InlineBacked.lawful w 8192 place.addr_pos
  have htells := WithFallback.tells hP rfl
  have hS : WorksIn (systemAllocator (recorded G)) Z (Logged Inv []) :=
    systemAllocator_worksIn (hG.recorded [])
  have hA := (WithFallback.worksIn hP.toWorksIn hS hdisj htells).toHonoursCore
  have hprimary : (InlineBacked.component w 8192 place.addr).inv ⟨place.storage, m⟩ ∅ :=
    InlineBacked.component_fresh (s := place.storage) rfl place.end_lt m
  have hfresh : Halved place (Logged Inv []) ⟨⟨place.storage, ⟨a, [], []⟩⟩, m⟩ ∅ :=
    ⟨∅, ∅, (Set.union_empty ∅).symm, hprimary, logged_empty hstart⟩
  have hheld : Held (Halved place (Logged Inv [])) id ⟨⟨⟨place.storage, ⟨a, [], []⟩⟩, m⟩, []⟩ :=
    tracked_nil hfresh
  obtain ⟨s, hrun, hheld⟩ := foldlM_ok (fallbackStep_ok hspace hA) hheld (ops.take 512)
  rw [Held, List.map_id] at hheld
  obtain ⟨K, hinv, hK⟩ := foldl_drain hS hdisj hheld fun g hg => absurd hg (Set.notMem_empty g)
  have hlogged := secondary_empty hS hdisj hinv hK
  have hperm := (tracked_nil hlogged).accounts
  rw [List.append_nil] at hperm
  refine ⟨_, ?_, hperm, hlogged.inv⟩
  exact congrArg (fun r => r >>= fun s =>
    .ok (s.live.foldl (drain (systemAllocator (recorded G))) s.heap)) hrun

end

/-- An arena of a kilobyte in the place of the system's allocator. -/
abbrev systemArena : Component 64 (BumpArena (InlineBacked 64 1024)) :=
  BumpArena.component 64 (InlineBacked.range 64 1024) 4096 ⟨4096, 1024⟩

theorem maxAlign_dvd_page : maxAlign ∣ 65536 := by decide

theorem page_end_lt : 65536 + 8192 < 2 ^ 64 := by decide

def atPage : Place 64 := ⟨65536, Nat.succ_pos 65535, maxAlign_dvd_page, page_end_lt⟩

/-- The storage serves sixteen requests of 512 bytes, and the arena the next one. -/
theorem fuzzWithFallback_ok_full : ∃ h,
    fuzzWithFallback (recorded systemArena.calls) atPage
        ⟨⟨.lit 64 1024 4096 (Eq.refl true), 1024, 0⟩, [], []⟩ (fun _ => 0)
        (List.replicate 17 (.alloc 512)) = .ok h ∧
      h.alloc.secondary.issued.Perm h.alloc.secondary.received ∧
      h.alloc.secondary.received.length = 1 := by
  have hlawful : systemArena.Lawful :=
    BumpArena.lawful (InlineBacked.range_lawful 64 1024) (by decide) ⟨4096, 1024⟩
  have hstart : systemArena.inv
      ⟨⟨.lit 64 1024 4096 (Eq.refl true), 1024, 0⟩, fun _ => 0⟩ ∅ :=
    BumpArena.component_fresh (b := InlineBacked.lit 64 1024 4096 (Eq.refl true)) rfl fun _ => 0
  have hdisj : Disjoint (Block.bytes ⟨atPage.addr, 8192⟩) systemArena.territory :=
    Block.disjoint_iff.mpr (by decide)
  obtain ⟨h, hrun, hperm, -⟩ := fuzzWithFallback_ok hlawful.toWorksIn hdisj hstart
    (List.replicate 17 (.alloc 512))
  have hlen : (fuzzWithFallback (recorded systemArena.calls) atPage
      ⟨⟨.lit 64 1024 4096 (Eq.refl true), 1024, 0⟩, [], []⟩ (fun _ => 0)
      (List.replicate 17 (.alloc 512))).toOption.map
        (fun h => h.alloc.secondary.received.length) = some 1 := by decide +kernel
  rw [hrun] at hlen
  exact ⟨h, hrun, hperm, Option.some.inj hlen⟩

end Fuzz

end ForgeAlloc
