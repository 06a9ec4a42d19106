import ForgeAlloc.Backing.Mmap
import ForgeAlloc.Core.Forwarding
import ForgeAlloc.Hardening.Statistics
import ForgeAlloc.Hardening.Watermark

set_option autoImplicit false

/-! # The wrappers that hand on the inner block

`Faulty`, `NumaLocal`, `SplitMetadata`, `HugePageAligned`, `Statistics` and `Watermark`, each as a
`Forwarder`. `Faulty` refuses requests and `HugePageAligned` asks for a stricter alignment; the last
two keep books, here for calls that no other thread interrupts.
-/

namespace ForgeAlloc

open MachineInt ByteMemory

variable {w : Nat} {σ ρ : Type}

/-! ## Refusals -/

/-- A policy of type `ρ`. `should_fail` may count its calls. -/
structure AllocFaultPolicy (w : Nat) (ρ : Type) where
  shouldFail : NonZeroLayout w → ρ → Bool × ρ

structure Faulty (σ ρ : Type) where
  inner : σ
  policy : ρ

/-- The policy is asked before the inner allocator is touched. -/
def Faulty.forwarder (P : AllocFaultPolicy w ρ) : Forwarder w (Faulty σ ρ) σ Unit where
  inner := inner
  put := fun s t => { s with inner := t }
  key := fun _ => ()
  promote := fun _ l => some l
  refuses := fun l s =>
    let (fails, policy) := P.shouldFail l s.policy
    (fails, { s with policy := policy })
  promote_spec := Forwarder.promote_self

/-! ## Placement -/

structure NumaLocal (σ : Type) where
  inner : σ

def NumaLocal.forwarder : Forwarder w (NumaLocal σ) σ Unit where
  inner := inner
  put := fun s t => { s with inner := t }
  key := fun _ => ()
  promote := fun _ l => some l
  promote_spec := Forwarder.promote_self

/-- The metadata region is held for as long as the wrapper is. -/
structure SplitMetadata (σ : Type) where
  metaRegion : MmapBacked
  dataRegion : σ

def SplitMetadata.forwarder : Forwarder w (SplitMetadata σ) σ Unit where
  inner := dataRegion
  put := fun s t => { s with dataRegion := t }
  key := fun _ => ()
  promote := fun _ l => some l
  promote_spec := Forwarder.promote_self

structure HugePageAligned (σ : Type) where
  inner : σ
  hugePageSize : Nat
  /-- The two tests of `with_huge_page_size`. -/
  pow : hugePageSize.isPowerOfTwo
  le : 4096 ≤ hugePageSize

namespace HugePageAligned

def withHugePageSize (inner : σ) (hugePageSize : Nat) : Option (HugePageAligned σ) :=
  if h : hugePageSize.isPowerOfTwo ∧ 4096 ≤ hugePageSize then some ⟨inner, hugePageSize, h.1, h.2⟩
  else none

def promoteLayout (hugePageSize : Nat) (l : NonZeroLayout w) : Option (NonZeroLayout w) :=
  NonZeroLayout.fromSizeAlign w l.size (max l.align hugePageSize)

/-- Only the alignment is promoted. -/
theorem promoteLayout_spec {size : Nat} {l il : NonZeroLayout w} (hpow : size.isPowerOfTwo)
    (h : promoteLayout size l = some il) : il.size = l.size ∧ l.align ∣ il.align := by
  obtain ⟨hsize, halign⟩ := NonZeroLayout.fromSizeAlign_eq_some.mp h
  refine ⟨hsize, ?_⟩
  rw [halign]
  rcases le_total l.align size with hle | hle
  · rw [max_eq_right hle]
    exact dvd_of_le_of_isPowerOfTwo l.align_pow hpow hle
  · rw [max_eq_left hle]

/-- A huge page size. -/
abbrev PageSize := { size : Nat // size.isPowerOfTwo }

def forwarder : Forwarder w (HugePageAligned σ) σ PageSize where
  inner := inner
  put := fun s t => { s with inner := t }
  key := fun s => ⟨s.hugePageSize, s.pow⟩
  promote := fun size l => promoteLayout size.val l
  promote_spec := fun {size _ _} h => promoteLayout_spec size.property h

end HugePageAligned

/-! ## Counters -/

structure Statistics (σ : Type) where
  inner : σ
  stats : AllocStats

namespace AllocStats

/-- `mirror_corruption`. -/
def mirrorCorruption (w innerVal : Nat) (s : AllocStats) : AllocStats :=
  let clamped := min innerVal (2 ^ w - 1)
  if s.corruptionEvents < clamped then
    { s with corruptionEvents := max s.corruptionEvents clamped }
  else s

/-- What `allocate` counts for its result. -/
def countAllocate (l : NonZeroLayout w) (s : AllocStats) : Option Block → AllocStats
  | some _ =>
      let prev := s.bytesAllocated
      let new := saturatingAdd w prev l.size
      { s with
        totalAllocations := wrappingAdd w s.totalAllocations 1
        bytesAllocated := wrappingAdd w prev l.size
        bytesPeak := if s.bytesPeak < new then max s.bytesPeak new else s.bytesPeak }
  | none => { s with failures := wrappingAdd w s.failures 1 }

/-- What `deallocate` counts before it forwards. -/
def countDeallocate (l : NonZeroLayout w) (s : AllocStats) : AllocStats :=
  { s with
    totalDeallocations := wrappingAdd w s.totalDeallocations 1
    bytesAllocated := wrappingSub w s.bytesAllocated l.size }

end AllocStats

/-- `corruptionEvents` is that method of the inner allocator. -/
def Statistics.forwarder (corruptionEvents : σ → Nat) : Forwarder w (Statistics σ) σ Unit where
  inner := inner
  put := fun s t => { s with inner := t }
  key := fun _ => ()
  promote := fun _ l => some l
  requested := fun l r s =>
    { s with stats := (s.stats.mirrorCorruption w (corruptionEvents s.inner)).countAllocate l r }
  freeing := fun l s =>
    { s with stats := (s.stats.countDeallocate l).mirrorCorruption w (corruptionEvents s.inner) }
  promote_spec := Forwarder.promote_self

/-- `Watermark` with its inner allocator, and what its handler has been told, the newest first. -/
structure Watermarked (w : Nat) (σ : Type) where
  inner : σ
  mark : Watermark
  told : List (WatermarkEvent w)

namespace Watermarked

/-- `Watermark::current_capacity`. -/
def currentCapacity (capacityBytes : σ → Option Nat) (s : Watermarked w σ) : Nat :=
  (capacityBytes s.inner).getD s.mark.capacityBytes

/-- `check_and_fire` without a layout. -/
def checkAndFire (capacityBytes : σ → Option Nat) (newBytes : Nat) (s : Watermarked w σ) :
    Watermarked w σ :=
  let capacity := s.currentCapacity capacityBytes
  match Watermark.check s.mark.thresholds newBytes capacity with
  | none => s
  | some level =>
      let prev := s.mark.fired
      let (mask, flag) := Watermark.raises level
      { s with
        mark := { s.mark with fired := prev ||| mask }
        told := if prev &&& flag = 0 then ⟨level, newBytes, capacity, none⟩ :: s.told else s.told }

/-- What `allocate` notes for its result. -/
def note (capacityBytes : σ → Option Nat) (l : NonZeroLayout w) (s : Watermarked w σ) :
    Option Block → Watermarked w σ
  | some _ =>
      let prev := s.mark.allocated
      let newBytes := saturatingAdd w prev l.size
      let s := { s with mark := { s.mark with allocated := wrappingAdd w prev l.size } }
      if s.mark.warnThresholdBytes ≤ newBytes then s.checkAndFire capacityBytes newBytes else s
  | none =>
      let event := ⟨.oom, s.mark.allocated, s.currentCapacity capacityBytes, some l⟩
      { s with told := event :: s.told }

theorem inner_checkAndFire (capacityBytes : σ → Option Nat) (newBytes : Nat)
    (s : Watermarked w σ) : (s.checkAndFire capacityBytes newBytes).inner = s.inner := by
  simp only [checkAndFire]
  split <;> rfl

theorem inner_note (capacityBytes : σ → Option Nat) (l : NonZeroLayout w) (r : Option Block)
    (s : Watermarked w σ) : (s.note capacityBytes l r).inner = s.inner := by
  cases r with
  | none => rfl
  | some b =>
      simp only [note]
      split
      · exact inner_checkAndFire ..
      · rfl

/-- `capacityBytes` is that method of the inner allocator. -/
def forwarder (capacityBytes : σ → Option Nat) : Forwarder w (Watermarked w σ) σ Unit where
  inner := inner
  put := fun s t => { s with inner := t }
  key := fun _ => ()
  promote := fun _ l => some l
  requested := fun l r s => s.note capacityBytes l r
  freeing := fun l s =>
    { s with mark := { s.mark with allocated := wrappingSub w s.mark.allocated l.size } }
  inner_requested := fun l r s => inner_note capacityBytes l r s
  promote_spec := Forwarder.promote_self

end Watermarked

end ForgeAlloc
