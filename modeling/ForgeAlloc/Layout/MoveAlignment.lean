import ForgeAlloc.Backing.Inline
import ForgeAlloc.Layout.GenerationalRun
import ForgeAlloc.Layout.SizeClassedBacking
import ForgeAlloc.Layout.Slab

set_option autoImplicit false

/-! # Alignment and moves

`Slab`, `GenerationalSlab` and `SizeClassed` find their slots at an offset from the base of the
backing that was computed when they were built. Their runs here are interleaved with moves of the
whole value. A move may put the base of the backing anywhere; calls may be made with any pointer,
and memory may be overwritten between them, since no address depends on either.

A slot keeps the alignment `a` exactly when the base is where it was at construction, modulo `a`
(`moved_aligned_iff`). An `InlineBacked` asks for 16, so a slot aligned to 64 does not survive
every move it permits (`moved_misaligned`).
-/

namespace ForgeAlloc

open MachineInt ByteMemory

inductive MoveOp (w : Nat) (β : Type)
  | allocate (l : NonZeroLayout w)
  | deallocate (ptr : Nat) (l : NonZeroLayout w)
  | write (m : Mem)
  | move (b : β) (m : Mem)

/-- A step of an allocator that `place` puts over a moved backing. -/
def moveStep {w : Nat} {β σ : Type} (A : Allocator w σ) (place : σ → β → σ) (h : Heap σ) :
    MoveOp w β → Option (Heap σ)
  | .allocate l => some (A.allocate l h).2
  | .deallocate ptr l => some (A.deallocate ptr l h)
  | .write m => some ⟨h.alloc, m⟩
  | .move b m => some ⟨place h.alloc b, m⟩

variable {w : Nat} {β : Type} {R : FixedRange β}

/-! ## Backings -/

/-- In the states `Ok` of a backing `allocate` returns aligned blocks, and its calls stay among
these states. -/
structure KeepsAligned (A : Allocator w β) (Ok : β → Prop) : Prop where
  aligned : ∀ {l : NonZeroLayout w} {h h' : Heap β} {b : Block}, Ok h.alloc →
    A.allocate l h = (some b, h') → l.align ∣ b.ptr
  allocate : ∀ {l : NonZeroLayout w} {h : Heap β}, Ok h.alloc → Ok (A.allocate l h).2.alloc
  deallocate : ∀ {ptr : Nat} {l : NonZeroLayout w} {h : Heap β}, Ok h.alloc →
    Ok (A.deallocate ptr l h).alloc

/-- An arena rounds the address up to the alignment, wherever its backing is now. -/
theorem BumpArena.keepsAligned (w : Nat) (R : FixedRange β) :
    KeepsAligned (BumpArena.allocator w R) fun _ => True where
  aligned := by
    intro l h h' b _ heq
    obtain ⟨k, hk, hkw⟩ := l.exists_align
    have hcall : BumpArena.allocate R l h = (some b, h') := heq
    unfold BumpArena.allocate at hcall
    split at hcall
    case h_1 => cases hcall
    case h_2 p a hres =>
        cases hcall
        rw [hk] at hres ⊢
        simp only [BumpArena.reserve] at hres
        split at hres
        case h_1 => cases hres
        case h_2 off fin hbump =>
            split at hres
            · cases hres
            · cases hres
              exact dvd_add_of_bump hkw hbump
  allocate := fun _ => trivial
  deallocate := fun _ => trivial

/-- An `InlineBacked` used without an arena. -/
theorem InlineBacked.keepsAligned (w N : Nat) :
    KeepsAligned (InlineBacked.allocator w N) fun _ => True :=
  ⟨fun _ heq => InlineBacked.allocate_aligned heq, fun _ => trivial, fun _ => trivial⟩

/-! ## `Slab` -/

namespace Slab

variable {T : RustType w} {l : NonZeroLayout w} {h h' s : Heap (Slab T β)} {b : Block}

/-- The slots are where they were, relative to the base of the backing. -/
structure SamePlaces (h s : Heap (Slab T β)) : Prop where
  baseOffset_eq : s.alloc.baseOffset = h.alloc.baseOffset
  blockStride_eq : s.alloc.blockStride = h.alloc.blockStride

theorem popFree_places (h : Heap (Slab T β)) :
    (popFree R h).2.backing = h.alloc.backing ∧ (popFree R h).2.baseOffset = h.alloc.baseOffset ∧
      (popFree R h).2.blockStride = h.alloc.blockStride := by
  simp only [popFree]
  split
  · split
    · exact ⟨rfl, rfl, rfl⟩
    · exact ⟨rfl, rfl, rfl⟩
  · exact ⟨rfl, rfl, rfl⟩

theorem popFree_ptr (heq : (popFree R h).1 = some b) : ∃ i, b.ptr = h.alloc.slotPtr R i := by
  simp only [popFree] at heq
  split at heq
  · split at heq
    · cases heq
      exact ⟨_, rfl⟩
    · cases heq
  · cases heq

theorem carve_places (s : Slab T β) :
    (s.carve R).2.baseOffset = s.baseOffset ∧ (s.carve R).2.blockStride = s.blockStride := by
  unfold carve
  split
  · exact ⟨rfl, rfl⟩
  · exact ⟨rfl, rfl⟩

theorem allocate_places (h : Heap (Slab T β)) : SamePlaces h (allocate R l h).2 := by
  obtain ⟨-, hoff, hstride⟩ := popFree_places (R := R) h
  unfold allocate
  split
  · exact ⟨rfl, rfl⟩
  split
  · exact ⟨rfl, rfl⟩
  split
  case h_1 b s hpop =>
      rw [hpop] at hoff hstride
      exact ⟨hoff, hstride⟩
  case h_2 s hpop =>
      rw [hpop] at hoff hstride
      obtain ⟨hoff', hstride'⟩ := carve_places (R := R) s
      exact ⟨hoff'.trans hoff, hstride'.trans hstride⟩

theorem deallocate_places (ptr : Nat) (h : Heap (Slab T β)) :
    SamePlaces h (deallocate R ptr l h) := by
  unfold deallocate
  split
  · exact ⟨rfl, rfl⟩
  · exact ⟨rfl, rfl⟩

/-- Whatever the links say, a block is a slot. -/
theorem allocate_ptr (heq : allocate R l h = (some b, h')) :
    ∃ i, b.ptr = h.alloc.basePtr R + i * h.alloc.blockStride := by
  obtain ⟨hbacking, hoff, hstride⟩ := popFree_places (R := R) h
  unfold allocate at heq
  split at heq
  · cases heq
  split at heq
  · cases heq
  split at heq
  case h_1 c s hpop =>
      cases heq
      exact popFree_ptr (congrArg Prod.fst hpop)
  case h_2 s hpop =>
      rw [hpop] at hbacking hoff hstride
      simp only [carve] at heq
      split at heq
      · cases heq
      · cases heq
        refine ⟨s.nextUncarved, ?_⟩
        show R.base s.backing + s.baseOffset + s.nextUncarved * s.blockStride = _
        rw [hbacking, hoff, hstride]
        rfl

theorem places_step {op : MoveOp w β} {s' : Heap (Slab T β)} (hs : SamePlaces h s)
    (hstep : moveStep (Slab.allocator w T R) moveTo s op = some s') : SamePlaces h s' := by
  cases op with
  | allocate l =>
      cases hstep
      have hp : SamePlaces s (allocate R l s).2 := allocate_places s
      exact ⟨hp.baseOffset_eq.trans hs.baseOffset_eq, hp.blockStride_eq.trans hs.blockStride_eq⟩
  | deallocate ptr l =>
      cases hstep
      have hp : SamePlaces s (deallocate R ptr l s) := deallocate_places ptr s
      exact ⟨hp.baseOffset_eq.trans hs.baseOffset_eq, hp.blockStride_eq.trans hs.blockStride_eq⟩
  | write m =>
      cases hstep
      exact ⟨hs.baseOffset_eq, hs.blockStride_eq⟩
  | move b m =>
      cases hstep
      exact ⟨hs.baseOffset_eq, hs.blockStride_eq⟩

/-- A block of a moved slab is aligned exactly when the base is where it was at construction,
modulo the alignment. -/
theorem allocate_aligned_iff {A : Allocator w β} {Inv : Heap β → Set (Grant w) → Prop}
    (hA : HonoursRange A R Inv) {g : Heap β} {L : Set (Grant w)} (hinv : Inv g L)
    {n : Nat} {mac : FreelistProtection} (hnew : withProtection A R T n mac g = some h)
    {ops : List (MoveOp w β)}
    (hrun : Machine.run (moveStep (Slab.allocator w T R) moveTo) h ops = some s)
    (heq : allocate R l s = (some b, h')) :
    l.align ∣ b.ptr ↔ R.base s.alloc.backing ≡ R.base h.alloc.backing [MOD l.align] := by
  have hplaces : SamePlaces h s :=
    Machine.run_invariant (P := SamePlaces h) (fun _ _ _ hs hstep => places_step hs hstep)
      ⟨rfl, rfl⟩ hrun
  obtain ⟨hbase, hstride⟩ := withProtection_aligned hA hinv hnew
  have hfits : s.alloc.FitsSlot l := by
    by_contra hnot
    rw [allocate_of_not_fits hnot] at heq
    cases heq
  -- the request is aligned to at most a slot, so the start and the stride are multiples of it
  have hdvd : l.align ∣ max T.align freeLinkAlign := by
    apply dvd_of_le_of_isPowerOfTwo l.align_pow _ hfits.1
    rcases max_choice T.align freeLinkAlign with hmax | hmax
    · rw [hmax]
      exact T.align_pow
    · rw [hmax]
      exact ⟨2, rfl⟩
  obtain ⟨i, hi⟩ := allocate_ptr heq
  rw [hi]
  show l.align ∣ R.base s.alloc.backing + s.alloc.baseOffset + i * s.alloc.blockStride ↔ _
  rw [hplaces.baseOffset_eq, hplaces.blockStride_eq]
  exact dvd_displaced_iff (hdvd.trans hbase) (hdvd.trans hstride)

end Slab

/-! ## `GenerationalSlab` -/

namespace GenerationalSlab

variable {α : Type} {G : GenerationInt}

inductive GenMoveOp (α β : Type)
  | op (o : GenOp α)
  | move (b : β)

def genMoveStep (G : GenerationInt) (s : GenRun w α β) : GenMoveOp α β → Option (GenRun w α β)
  | .op o => some (s.act G o)
  | .move b => some { s with slab := { s.slab with backing := b } }

theorem insert_slotsOffset (v : α) (s : GenerationalSlab w α β) :
    (s.insert v).2.slotsOffset = s.slotsOffset ∧ (s.insert v).2.capacity = s.capacity := by
  cases hhead : s.freeHead with
  | none =>
      simp only [insert, hhead]
      split
      · exact ⟨rfl, rfl⟩
      · exact ⟨rfl, rfl⟩
  | some idx =>
      by_cases hidx : s.capacity ≤ idx
      · simp only [insert, hhead, if_pos hidx]
        split
        · exact ⟨rfl, rfl⟩
        · exact ⟨rfl, rfl⟩
      · simp only [insert, hhead, if_neg hidx]
        split
        · exact ⟨rfl, rfl⟩
        · exact ⟨rfl, rfl⟩

theorem removed_slotsOffset (s : GenerationalSlab w α β) (i : Nat) :
    (s.removed G i).slotsOffset = s.slotsOffset ∧ (s.removed G i).capacity = s.capacity := by
  by_cases hwrap : G.wrappingInc (s.slots i).generation = 0
  · rw [removed_of_wrap hwrap]
    exact ⟨rfl, rfl⟩
  · rw [removed_of_not_wrap hwrap]
    exact ⟨rfl, rfl⟩

/-- No operation moves the array of slots. -/
theorem act_slotsOffset (s : GenRun w α β) (o : GenOp α) :
    (s.act G o).slab.slotsOffset = s.slab.slotsOffset ∧
      (s.act G o).slab.capacity = s.slab.capacity := by
  cases o with
  | insert v =>
      have hkeep := insert_slotsOffset v s.slab
      rcases hcall : s.slab.insert v with ⟨_ | h, slab⟩
      · rw [hcall] at hkeep
        simp only [GenRun.act, hcall]
        exact hkeep
      · rw [hcall] at hkeep
        simp only [GenRun.act, hcall]
        exact hkeep
  | get h => exact ⟨rfl, rfl⟩
  | getMut h f =>
      rcases GenRun.getMut_eq h f s.slab with ⟨v, -, hcall⟩ | hcall
      · simp only [GenRun.act, hcall]
        exact ⟨rfl, rfl⟩
      · simp only [GenRun.act, hcall]
        exact ⟨trivial, trivial⟩
  | remove h =>
      rcases handle_cases s.slab h with hstale | ⟨v, hres⟩ | hvacant
      · simp only [GenRun.act, remove_of_stale hstale]
        exact ⟨trivial, trivial⟩
      · simp only [GenRun.act, remove_of_resolves hres]
        exact removed_slotsOffset s.slab h.index
      · simp only [GenRun.act, remove_of_vacant hvacant]
        exact removed_slotsOffset s.slab h.index
  | contains h => exact ⟨rfl, rfl⟩

/-- What construction records about the array of slots. -/
theorem withGeneration_aligned {A : Allocator w β} {Inv : Heap β → Set (Grant w) → Prop}
    (hA : HonoursRange A R Inv) {g : Heap β} {L : Set (Grant w)} (hinv : Inv g L)
    {S : RustType w} {n : Nat} {slab : GenerationalSlab w α β}
    (hnew : withGeneration A R S n g = some slab) :
    S.align ∣ R.base slab.backing + slab.slotsOffset ∧ slab.capacity = n := by
  unfold withGeneration at hnew
  split at hnew
  · cases hnew
  split at hnew
  · cases hnew
  simp only [Option.bind_eq_bind, Option.bind_eq_some_iff] at hnew
  obtain ⟨layout, hlayout, hblock⟩ := hnew
  have halign : layout.align = S.align := (NonZeroLayout.array_eq_some hlayout).2
  split at hblock
  · cases hblock
  case h_2 block g' halloc =>
      cases hblock
      have hiss := hA.allocate_some hinv halloc
      have hgrant : (⟨block, layout⟩ : Grant w) ∈ Insert.insert (⟨block, layout⟩ : Grant w) L :=
        Set.mem_insert _ _
      have hsat := hA.satisfies hiss.inv hgrant
      have hle : R.base g'.alloc ≤ block.ptr := hA.base_le hiss.inv hgrant
      have hlt : block.ptr < 2 ^ w := by
        have hspace := hsat.inSpace
        have hpos := hsat.len_pos
        simp only at hspace hpos
        omega
      refine ⟨?_, rfl⟩
      show S.align ∣ R.base g'.alloc + wrappingSub w block.ptr (R.base g'.alloc)
      rw [wrappingSub_of_le hle hlt, Nat.add_sub_cancel' hle, ← halign]
      exact hsat.aligned

/-- Every slot a moved slab dereferences is aligned exactly when the base is where it was at
construction, modulo the alignment of a slot. -/
theorem slotPtr_aligned_iff {A : Allocator w β} {Inv : Heap β → Set (Grant w) → Prop}
    (hA : HonoursRange A R Inv) {g : Heap β} {L : Set (Grant w)} (hinv : Inv g L)
    {S : RustType w} {n : Nat} {slab : GenerationalSlab w α β}
    (hnew : withGeneration A R S n g = some slab) {ops : List (GenMoveOp α β)}
    {s : GenRun w α β} (hrun : Machine.run (genMoveStep G) (GenRun.init slab) ops = some s)
    (idx : Nat) :
    S.align ∣ s.slab.slotPtr R S idx ↔
      R.base s.slab.backing ≡ R.base slab.backing [MOD S.align] := by
  have hkeep : s.slab.slotsOffset = slab.slotsOffset := by
    refine Machine.run_invariant
      (P := fun u : GenRun w α β => u.slab.slotsOffset = slab.slotsOffset) ?_ rfl hrun
    intro u op u' hu hstep
    cases op with
    | op o =>
        cases hstep
        exact (act_slotsOffset u o).1.trans hu
    | move b =>
        cases hstep
        exact hu
  show S.align ∣ R.base s.slab.backing + s.slab.slotsOffset + idx * S.size ↔ _
  rw [hkeep]
  exact dvd_displaced_iff (withGeneration_aligned hA hinv hnew).1 S.align_dvd

end GenerationalSlab

/-! ## `SizeClassed` -/

namespace UntypedSlab

/-- The class has a slot to give: the top of an intact list, or an uncarved one. -/
def HasSlot (backingBase : Nat) (m : Mem) (s : UntypedSlab) : Prop :=
  (s.freeHead ≠ 0 ∧ readU32 m (s.slotPtr backingBase (s.freeHead - 1)) ≤ s.capacity) ∨
    s.nextUncarved < s.capacity

variable {base p : Nat} {s : UntypedSlab} {m : Mem}

theorem carve_region (base : Nat) (s : UntypedSlab) : s.SameRegion (s.carve base).2 := by
  unfold carve
  split
  · exact ⟨rfl, rfl, rfl⟩
  · exact ⟨rfl, rfl, rfl⟩

theorem allocateSlot_region (base : Nat) (m : Mem) (s : UntypedSlab) :
    s.SameRegion (s.allocateSlot w base m).2 := by
  simp only [allocateSlot]
  split
  · split
    · obtain ⟨hoff, hstride, hcap⟩ := carve_region base
        { s with corruptionEvents := wrappingAdd w s.corruptionEvents 1, freeHead := 0 }
      exact ⟨hoff, hstride, hcap⟩
    · exact ⟨rfl, rfl, rfl⟩
  · exact carve_region base s

theorem freeSlot_region (ptr : Nat) (s : UntypedSlab) :
    s.SameRegion (s.freeSlot w base ptr m).1 := by
  unfold freeSlot
  split
  · exact ⟨rfl, rfl, rfl⟩
  · exact ⟨rfl, rfl, rfl⟩

theorem allocateSlot_ptr (heq : (s.allocateSlot w base m).1 = some p) :
    ∃ i, p = base + s.baseOffset + i * s.blockStride := by
  simp only [allocateSlot, carve] at heq
  split at heq
  · split at heq
    · split at heq
      · cases heq
      · cases heq
        exact ⟨_, rfl⟩
    · cases heq
      exact ⟨_, rfl⟩
  · split at heq
    · cases heq
    · cases heq
      exact ⟨_, rfl⟩

theorem allocateSlot_isSome_iff :
    (s.allocateSlot w base m).1.isSome ↔ s.HasSlot base m := by
  unfold HasSlot
  simp only [allocateSlot, carve]
  split
  case isTrue hhead =>
      split
      case isTrue hbad =>
          split
          · simp only [Option.isSome_none, Bool.false_eq_true, false_iff]
            omega
          · simp only [Option.isSome_some, true_iff]
            omega
      case isFalse hgood =>
          simp only [Option.isSome_some, true_iff]
          exact Or.inl ⟨hhead, by omega⟩
  case isFalse hhead =>
      split
      · simp only [Option.isSome_none, Bool.false_eq_true, false_iff]
        omega
      · simp only [Option.isSome_some, true_iff]
        omega

end UntypedSlab

namespace SizeClassed

variable {n : Nat} {A : Allocator w β} {l : NonZeroLayout w} {b : Block}
  {h h' s : Heap (SizeClassed w n β)}

def moveTo (s : SizeClassed w n β) (b : β) : SizeClassed w n β := { s with backing := b }

/-- A move leaves the backing in one of the states `Ok`. -/
def MovesOk (Ok : β → Prop) (_h : Heap (SizeClassed w n β)) (op : MoveOp w β) : Prop :=
  ∀ b m, op = .move b m → Ok b

/-- The regions and the table are those of construction. -/
structure SamePlaces (Ok : β → Prop) (h s : Heap (SizeClassed w n β)) : Prop where
  sizes_eq : s.alloc.classSizes = h.alloc.classSizes
  lookup_eq : s.alloc.classLookup = h.alloc.classLookup
  region : ∀ i, (h.alloc.slabs i).SameRegion (s.alloc.slabs i)
  ok : Ok s.alloc.backing

theorem SamePlaces.setSlab {Ok : β → Prop} (hs : SamePlaces Ok h s) {i : Fin n}
    {slab : UntypedSlab} {m : Mem} (hsame : (s.alloc.slabs i).SameRegion slab) :
    SamePlaces Ok h ⟨s.alloc.setSlab i slab, m⟩ := by
  refine ⟨hs.sizes_eq, hs.lookup_eq, fun i' => ?_, hs.ok⟩
  show (h.alloc.slabs i').SameRegion (Function.update s.alloc.slabs i slab i')
  by_cases hi : i' = i
  · subst hi
    rw [Function.update_self]
    obtain ⟨hoff, hstride, hcap⟩ := hs.region i'
    exact ⟨hsame.baseOffset_eq.trans hoff, hsame.blockStride_eq.trans hstride,
      hsame.capacity_eq.trans hcap⟩
  · rw [Function.update_of_ne hi]
    exact hs.region i'

theorem SamePlaces.setBacking {Ok : β → Prop} (hs : SamePlaces Ok h s) {bk : β} {m : Mem}
    (hok : Ok bk) : SamePlaces Ok h ⟨{ s.alloc with backing := bk }, m⟩ :=
  ⟨hs.sizes_eq, hs.lookup_eq, hs.region, hok⟩

theorem places_step {Ok : β → Prop} (hk : KeepsAligned A Ok) {op : MoveOp w β}
    {s' : Heap (SizeClassed w n β)} (hs : SamePlaces Ok h s) (hop : MovesOk Ok s op)
    (hstep : moveStep (allocator A R) moveTo s op = some s') : SamePlaces Ok h s' := by
  cases op with
  | allocate l =>
      cases hstep
      show SamePlaces Ok h (allocate A R l s).2
      unfold allocate
      split
      · exact hs.setBacking (hk.allocate hs.ok)
      case h_2 i _ =>
          have hregion := UntypedSlab.allocateSlot_region (w := w)
            (R.base s.alloc.backing) s.mem (s.alloc.slabs i)
          split
          case h_1 p slab hcall =>
              rw [hcall] at hregion
              exact hs.setSlab hregion
          case h_2 slab hcall =>
              rw [hcall] at hregion
              have hs' : SamePlaces Ok h ⟨s.alloc.setSlab i slab, s.mem⟩ := hs.setSlab hregion
              exact hs'.setBacking (hk.allocate hs'.ok)
  | deallocate ptr l =>
      cases hstep
      show SamePlaces Ok h (deallocate A R ptr l s)
      unfold deallocate
      split
      · exact hs.setSlab (UntypedSlab.freeSlot_region ptr _)
      · exact hs.setBacking (hk.deallocate hs.ok)
  | write m =>
      cases hstep
      exact ⟨hs.sizes_eq, hs.lookup_eq, hs.region, hs.ok⟩
  | move b m =>
      cases hstep
      exact hs.setBacking (hop b m rfl)

/-- The request is answered by a class. -/
def ServedByClass (R : FixedRange β) (l : NonZeroLayout w) (s : Heap (SizeClassed w n β)) : Prop :=
  ∃ i, s.alloc.pickClass l.size l.align = some i ∧
    (s.alloc.slabs i).HasSlot (R.base s.alloc.backing) s.mem

/-- A block of a moved value is aligned if the backing has answered, and otherwise exactly when the
base is where it was at construction, modulo the alignment. -/
theorem allocate_aligned_iff {Inv : Heap β → Set (Grant w) → Prop} (hA : HonoursRange A R Inv)
    {Ok : β → Prop} (hk : KeepsAligned A Ok) {g : Heap β} {L : Set (Grant w)} (hinv : Inv g L)
    {sizes : Fin n → Nat} {cap : Nat} (hcap : cap < 2 ^ 32)
    (hnew : withClassSizes A R sizes cap g = .ok h) (hok : Ok h.alloc.backing)
    {ops : List (MoveOp w β)}
    (hmoves : Machine.StepsSatisfy (moveStep (allocator A R) moveTo) (MovesOk Ok) h ops)
    (hrun : Machine.run (moveStep (allocator A R) moveTo) h ops = some s)
    (heq : allocate A R l s = (some b, h')) :
    l.align ∣ b.ptr ↔ (ServedByClass R l s →
      R.base s.alloc.backing ≡ R.base h.alloc.backing [MOD l.align]) := by
  obtain ⟨regions, -, -, -, hholds⟩ := withClassSizes_holds hA hinv hcap hnew
  have hplaces : SamePlaces Ok h s :=
    Machine.run_invariant_of_stepsSatisfy (P := SamePlaces Ok h)
      (fun _ _ _ hs hop hstep => places_step hk hs hop hstep)
      ⟨rfl, rfl, fun _ => ⟨rfl, rfl, rfl⟩, hok⟩ hmoves hrun
  have hsized : s.alloc.Sized := by
    refine ⟨?_, ?_, ?_⟩
    · rw [hplaces.sizes_eq]
      exact hholds.sized.pow
    · rw [hplaces.sizes_eq]
      exact hholds.sized.strictMono
    · rw [hplaces.sizes_eq, hplaces.lookup_eq]
      exact hholds.sized.lookup_eq
  by_cases hserved : ServedByClass R l s
  · rw [forall_prop_of_true hserved]
    obtain ⟨i, hpick, hslot⟩ := hserved
    obtain ⟨p, hp⟩ := Option.isSome_iff_exists.mp
      (UntypedSlab.allocateSlot_isSome_iff (w := w).mpr hslot)
    have hptr : b.ptr = p := by
      unfold allocate at heq
      rw [hpick] at heq
      simp only at heq
      split at heq
      case h_1 q slab hcall =>
          rw [hcall] at hp
          cases hp
          cases heq
          rfl
      case h_2 slab hcall =>
          rw [hcall] at hp
          cases hp
    -- the stride is a multiple of the alignment, and the start of the region of the stride
    have hsize := hholds.layout_align i
    have hstride := hholds.stride_eq i
    have hdvd : l.align ∣ h.alloc.classSizes i := by
      obtain ⟨k, -, hpow⟩ := hholds.sized.pow i
      have hfits := (pickClass_eq_some hsized l.width_pos hpick).1
      rw [hplaces.sizes_eq] at hfits
      exact dvd_of_le_of_isPowerOfTwo l.align_pow ⟨k, hpow⟩ ((le_max_right _ _).trans hfits)
    have hregion : h.alloc.classSizes i ∣
        R.base h.alloc.backing + (h.alloc.slabs i).baseOffset := by
      have haligned := (hA.satisfies hholds.backing_inv (hholds.region_grant i)).aligned
      rw [hholds.region_layout, hsize, hholds.region_ptr, ← hholds.base_eq] at haligned
      exact haligned
    obtain ⟨idx, hidx⟩ := UntypedSlab.allocateSlot_ptr hp
    rw [hptr, hidx, (hplaces.region i).baseOffset_eq, (hplaces.region i).blockStride_eq, hstride]
    exact dvd_displaced_iff (hdvd.trans hregion) hdvd
  · -- the backing has answered
    have haligned : l.align ∣ b.ptr := by
      unfold allocate at heq
      split at heq
      · have hfst : (A.allocate l ⟨s.alloc.backing, s.mem⟩).1 = some b := congrArg Prod.fst heq
        exact hk.aligned hplaces.ok (Prod.ext hfst rfl)
      case h_2 i hpick =>
          split at heq
          case h_1 p slab hcall =>
              refine absurd ⟨i, hpick, ?_⟩ hserved
              exact UntypedSlab.allocateSlot_isSome_iff (w := w).mp (by rw [hcall]; rfl)
          case h_2 slab hcall =>
              have hfst : (A.allocate l ⟨s.alloc.backing, s.mem⟩).1 = some b :=
                congrArg Prod.fst heq
              exact hk.aligned hplaces.ok (Prod.ext hfst rfl)
    exact ⟨fun _ hs => absurd hs hserved, fun _ => haligned⟩

end SizeClassed

/-! ## The three layouts -/

/-- **Alignment under moves.** Whatever the calls and the moves were, a slot of the three layouts
is aligned exactly when the base of the backing is where it was at construction, modulo the
alignment; a block that `SizeClassed` takes from the backing is always aligned. -/
theorem moved_aligned_iff {A : Allocator w β} {Inv : Heap β → Set (Grant w) → Prop}
    (hA : HonoursRange A R Inv) {Ok : β → Prop} (hk : KeepsAligned A Ok) {g : Heap β}
    {L : Set (Grant w)} (hinv : Inv g L) :
    (∀ {T : RustType w} {n : Nat} {mac : FreelistProtection} {h s s' : Heap (Slab T β)}
        {ops : List (MoveOp w β)} {l : NonZeroLayout w} {b : Block},
      Slab.withProtection A R T n mac g = some h →
      Machine.run (moveStep (Slab.allocator w T R) Slab.moveTo) h ops = some s →
      Slab.allocate R l s = (some b, s') →
      (l.align ∣ b.ptr ↔ R.base s.alloc.backing ≡ R.base h.alloc.backing [MOD l.align])) ∧
    (∀ {α : Type} {G : GenerationInt} {S : RustType w} {n : Nat} {slab : GenerationalSlab w α β}
        {ops : List (GenerationalSlab.GenMoveOp α β)} {s : GenRun w α β},
      GenerationalSlab.withGeneration A R S n g = some slab →
      Machine.run (GenerationalSlab.genMoveStep G) (GenRun.init slab) ops = some s →
      ∀ idx, (S.align ∣ s.slab.slotPtr R S idx ↔
        R.base s.slab.backing ≡ R.base slab.backing [MOD S.align])) ∧
    (∀ {n : Nat} {sizes : Fin n → Nat} {cap : Nat} {h s s' : Heap (SizeClassed w n β)}
        {ops : List (MoveOp w β)} {l : NonZeroLayout w} {b : Block}, cap < 2 ^ 32 →
      SizeClassed.withClassSizes A R sizes cap g = .ok h → Ok h.alloc.backing →
      Machine.StepsSatisfy (moveStep (SizeClassed.allocator A R) SizeClassed.moveTo)
        (SizeClassed.MovesOk Ok) h ops →
      Machine.run (moveStep (SizeClassed.allocator A R) SizeClassed.moveTo) h ops = some s →
      SizeClassed.allocate A R l s = (some b, s') →
      (l.align ∣ b.ptr ↔ (SizeClassed.ServedByClass R l s →
        R.base s.alloc.backing ≡ R.base h.alloc.backing [MOD l.align]))) := by
  refine ⟨?_, ?_, ?_⟩
  · intro T n mac h s s' ops l b hnew hrun heq
    exact Slab.allocate_aligned_iff hA hinv hnew hrun heq
  · intro α G S n slab ops s hnew hrun idx
    exact GenerationalSlab.slotPtr_aligned_iff hA hinv hnew hrun idx
  · intro n sizes cap h s s' ops l b hcap hnew hok hmoves hrun heq
    exact SizeClassed.allocate_aligned_iff hA hk hinv hcap hnew hok hmoves hrun heq

namespace MovedInline

/-- 256 bytes inside a value at address 64. -/
def at64 : InlineBacked 64 256 :=
  .new 64 (Nat.succ_pos 63) ⟨4, Eq.refl 64⟩ (Nat.le_of_ble_eq_true (Eq.refl true))

/-- The same value 16 bytes further. -/
def at80 : InlineBacked 64 256 :=
  at64.moveTo 80 (Nat.succ_pos 79) ⟨5, Eq.refl 80⟩ (Nat.le_of_ble_eq_true (Eq.refl true))

abbrev arena : Allocator 64 (BumpArena (InlineBacked 64 256)) :=
  BumpArena.allocator 64 (InlineBacked.range 64 256)

abbrev range : FixedRange (BumpArena (InlineBacked 64 256)) :=
  BumpArena.range (InlineBacked.range 64 256)

def start : Heap (BumpArena (InlineBacked 64 256)) := ⟨⟨at64, 256, 0⟩, fun _ => 0⟩

theorem start_holds :
    BumpArena.Holds (InlineBacked.range 64 256) 64 start (∅ : Set (Grant 64)) :=
  BumpArena.holds_new (b := at64) rfl _

/-- The arena after the move, with one slot of `size` bytes taken. -/
def moved (size : Nat) : BumpArena (InlineBacked 64 256) := ⟨at80, 256, size⟩

def cell16 : RustType 64 := .lit 64 16 16 (Eq.refl true)

def line64 : RustType 64 := .lit 64 64 64 (Eq.refl true)

/-- One class, of the size of the type. -/
def oneSize (T : RustType 64) : Fin 1 → Nat := fun _ => T.size

/-- A slab of one slot is moved and gives out the slot. -/
theorem slab_moved {T : RustType 64} {l : NonZeroLayout 64} {p : Nat}
    (hp : ((Slab.withProtection arena range T 1 .none start).bind fun h =>
      (Machine.run (moveStep (Slab.allocator 64 T range) Slab.moveTo) h
        [.move (moved T.size) fun _ => 0]).bind fun s =>
          (Slab.allocate range l s).1.map Block.ptr) = some p) :
    ∃ h s s' b, Slab.withProtection arena range T 1 .none start = some h ∧
      Machine.run (moveStep (Slab.allocator 64 T range) Slab.moveTo) h
        [.move (moved T.size) fun _ => 0] = some s ∧
      Slab.allocate range l s = (some b, s') ∧ b.ptr = p := by
  obtain ⟨h, hnew, hrest⟩ := Option.bind_eq_some_iff.mp hp
  obtain ⟨s, hrun, hrest⟩ := Option.bind_eq_some_iff.mp hrest
  obtain ⟨b, hcall, hptr⟩ := Option.map_eq_some_iff.mp hrest
  exact ⟨h, s, _, b, hnew, hrun, Prod.ext hcall rfl, hptr⟩

/-- The same for a class of one slot. -/
theorem class_moved {T : RustType 64} {l : NonZeroLayout 64} {p : Nat}
    (hp : ((SizeClassed.withClassSizes arena range (oneSize T) 1 start).toOption.bind fun h =>
      (Machine.run (moveStep (SizeClassed.allocator arena range) SizeClassed.moveTo) h
        [.move (moved T.size) fun _ => 0]).bind fun s =>
          (SizeClassed.allocate arena range l s).1.map Block.ptr) = some p) :
    ∃ h s s' b, SizeClassed.withClassSizes arena range (oneSize T) 1 start = .ok h ∧
      Machine.run (moveStep (SizeClassed.allocator arena range) SizeClassed.moveTo) h
        [.move (moved T.size) fun _ => 0] = some s ∧
      SizeClassed.allocate arena range l s = (some b, s') ∧ b.ptr = p := by
  obtain ⟨h, hok, hrest⟩ := Option.bind_eq_some_iff.mp hp
  obtain ⟨s, hrun, hrest⟩ := Option.bind_eq_some_iff.mp hrest
  obtain ⟨b, hcall, hptr⟩ := Option.map_eq_some_iff.mp hrest
  exact ⟨h, s, _, b, SizeClassed.ok_of_toOption hok, hrun, Prod.ext hcall rfl, hptr⟩

def bytes16 : NonZeroLayout 64 := .lit 64 16 16 (Eq.refl true)

def bytes64 : NonZeroLayout 64 := .lit 64 64 64 (Eq.refl true)

/-- Alignment 16 survives the move by 16 bytes in all three layouts. -/
theorem moved_aligned_iff_inline :
    (∃ h s s' b, Slab.withProtection arena range cell16 1 .none start = some h ∧
      Machine.run (moveStep (Slab.allocator 64 cell16 range) Slab.moveTo) h
        [.move (moved 16) fun _ => 0] = some s ∧
      Slab.allocate range bytes16 s = (some b, s') ∧ b.ptr = 80 ∧
      (bytes16.align ∣ b.ptr ↔
        range.base s.alloc.backing ≡ range.base h.alloc.backing [MOD bytes16.align])) ∧
    (∃ (slab : GenerationalSlab 64 Bool (BumpArena (InlineBacked 64 256))) (s : GenRun 64 Bool _),
      GenerationalSlab.withGeneration arena range cell16 1 start = some slab ∧
      Machine.run (GenerationalSlab.genMoveStep GenRun.u32) (GenRun.init slab)
        [.op (.insert true), .move (moved 16), .op (.get ⟨0, 0⟩)] = some s ∧
      (cell16.align ∣ s.slab.slotPtr range cell16 0 ↔
        range.base s.slab.backing ≡ range.base slab.backing [MOD cell16.align])) ∧
    ∃ h s s' b, SizeClassed.withClassSizes arena range (oneSize cell16) 1 start = .ok h ∧
      Machine.run (moveStep (SizeClassed.allocator arena range) SizeClassed.moveTo) h
        [.move (moved 16) fun _ => 0] = some s ∧
      SizeClassed.allocate arena range bytes16 s = (some b, s') ∧ b.ptr = 80 ∧
      (bytes16.align ∣ b.ptr ↔ (SizeClassed.ServedByClass range bytes16 s →
        range.base s.alloc.backing ≡ range.base h.alloc.backing [MOD bytes16.align])) := by
  have hA := BumpArena.honours (w := 64) (InlineBacked.range_lawful 64 256) 64 (by decide)
  obtain ⟨hslab, hgen, hclass⟩ :=
    moved_aligned_iff hA (BumpArena.keepsAligned 64 (InlineBacked.range 64 256)) start_holds
  refine ⟨?_, ?_, ?_⟩
  · obtain ⟨h, s, s', b, hnew, hrun, hcall, hptr⟩ :=
      slab_moved (T := cell16) (l := bytes16) (p := 80) (by decide +kernel)
    exact ⟨h, s, s', b, hnew, hrun, hcall, hptr, hslab hnew hrun hcall⟩
  · have hnew : (GenerationalSlab.withGeneration arena range cell16 1 start :
        Option (GenerationalSlab 64 Bool _)).isSome := by decide +kernel
    obtain ⟨slab, hnew⟩ := Option.isSome_iff_exists.mp hnew
    obtain ⟨s, hrun⟩ : ∃ s, Machine.run (GenerationalSlab.genMoveStep GenRun.u32) (GenRun.init slab)
        [.op (.insert true), .move (moved 16), .op (.get ⟨0, 0⟩)] = some s := ⟨_, rfl⟩
    exact ⟨slab, s, hnew, hrun, hgen hnew hrun 0⟩
  · obtain ⟨h, s, s', b, hnew, hrun, hcall, hptr⟩ :=
      class_moved (T := cell16) (l := bytes16) (p := 80) (by decide +kernel)
    have hmoves : Machine.StepsSatisfy (moveStep (SizeClassed.allocator arena range)
        SizeClassed.moveTo) (SizeClassed.MovesOk fun _ => True) h
        [.move (moved 16) fun _ => 0] := ⟨fun _ _ _ => trivial, fun _ _ => trivial⟩
    exact ⟨h, s, s', b, hnew, hrun, hcall, hptr, hclass (by decide) hnew trivial hmoves hrun hcall⟩

/-- **Alignment 64 does not.** The type of all three values is aligned to 16 only, so the move is
one it permits. -/
theorem moved_misaligned :
    (∃ h s s' b, Slab.withProtection arena range line64 1 .none start = some h ∧
      Machine.run (moveStep (Slab.allocator 64 line64 range) Slab.moveTo) h
        [.move (moved 64) fun _ => 0] = some s ∧
      Slab.allocate range bytes64 s = (some b, s') ∧ ¬ bytes64.align ∣ b.ptr) ∧
    (∃ (slab : GenerationalSlab 64 Bool (BumpArena (InlineBacked 64 256))) (s : GenRun 64 Bool _),
      GenerationalSlab.withGeneration arena range line64 1 start = some slab ∧
      Machine.run (GenerationalSlab.genMoveStep GenRun.u32) (GenRun.init slab)
        [.op (.insert true), .move (moved 64), .op (.get ⟨0, 0⟩)] = some s ∧
      s.slab.get ⟨0, 0⟩ = some true ∧ ¬ line64.align ∣ s.slab.slotPtr range line64 0) ∧
    ∃ h s s' b, SizeClassed.withClassSizes arena range (oneSize line64) 1 start = .ok h ∧
      Machine.run (moveStep (SizeClassed.allocator arena range) SizeClassed.moveTo) h
        [.move (moved 64) fun _ => 0] = some s ∧
      SizeClassed.allocate arena range bytes64 s = (some b, s') ∧ ¬ bytes64.align ∣ b.ptr := by
  have hnot : ¬ bytes64.align ∣ 80 := by decide
  refine ⟨?_, ?_, ?_⟩
  · obtain ⟨h, s, s', b, hnew, hrun, hcall, hptr⟩ :=
      slab_moved (T := line64) (l := bytes64) (p := 80) (by decide +kernel)
    exact ⟨h, s, s', b, hnew, hrun, hcall, hptr ▸ hnot⟩
  · have hmoved : (GenerationalSlab.withGeneration arena range line64 1 start :
        Option (GenerationalSlab 64 Bool _)).bind (fun slab =>
          (Machine.run (GenerationalSlab.genMoveStep GenRun.u32) (GenRun.init slab)
          [.op (.insert true), .move (moved 64), .op (.get ⟨0, 0⟩)]).map fun s =>
            (s.slab.get ⟨0, 0⟩, s.slab.slotPtr range line64 0)) = some (some true, 80) := by
      decide +kernel
    obtain ⟨slab, hnew, hrest⟩ := Option.bind_eq_some_iff.mp hmoved
    obtain ⟨s, hrun, hs⟩ := Option.map_eq_some_iff.mp hrest
    have hget : s.slab.get ⟨0, 0⟩ = some true := congrArg Prod.fst hs
    have hptr : s.slab.slotPtr range line64 0 = 80 := congrArg Prod.snd hs
    exact ⟨slab, s, hnew, hrun, hget, hptr.symm ▸ hnot⟩
  · obtain ⟨h, s, s', b, hnew, hrun, hcall, hptr⟩ :=
      class_moved (T := line64) (l := bytes64) (p := 80) (by decide +kernel)
    exact ⟨h, s, s', b, hnew, hrun, hcall, hptr ▸ hnot⟩

end MovedInline

end ForgeAlloc
