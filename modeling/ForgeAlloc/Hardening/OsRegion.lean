import ForgeAlloc.Backing.LockedMmap
import ForgeAlloc.Hardening.Forwarders
import ForgeAlloc.Hardening.NumaPolicy
import ForgeAlloc.Library.InFlight
import ForgeAlloc.Library.Run
import ForgeAlloc.Library.WholePages

set_option autoImplicit false

/-! # Values that own mappings of the system

`Region` is a value of one of the types that implement `OsBacked`: a mapping, or one of the wrappers
`NumaLocal`, `SplitMetadata`, `HugePageAligned` and `BumpArena` over such a value, nested as deep as
one likes. The methods of the trait go down the nesting.

A release of pages reaches the system as what is left of the range on its way down
(`mem_releasePages_iff`): the bytes in whole pages of every `HugePageAligned` it came through, of
those that the mapping itself purges.

`RegionRun` builds, wraps and drops such values in a process, in any order, with the system
declining what it likes. Whatever happens, the mappings of the process are those of the values that
are alive and those that the system would not take back (`run_accounts`).
-/

namespace ForgeAlloc

open MachineInt ByteMemory Paging

/-- `HugePageAligned::release_pages`: the request that goes on to the inner allocator. -/
def HugePageAligned.purge (w hp : Nat) (b : Block) : Option Block :=
  match checkedAdd w b.ptr b.len with
  | none => none
  | some fin =>
      match checkedAdd w b.ptr (hp - 1) with
      | none => none
      | some rounded =>
          let alignedStart := maskDown w rounded hp
          let alignedEnd := maskDown w fin hp
          if alignedEnd ≤ alignedStart then none
          else some ⟨alignedStart, alignedEnd - alignedStart⟩

/-- **A purge is rounded inwards** to whole huge pages. -/
theorem HugePageAligned.mem_purge_iff {w hp x : Nat} {b : Block} (hpow : hp.isPowerOfTwo)
    (hend : b.ptr + b.len < 2 ^ w) :
    (∃ c, purge w hp b = some c ∧ x ∈ c.bytes) ↔ Encloses hp b x := by
  obtain ⟨k, rfl⟩ := hpow
  have hpos : 0 < (2 : Nat) ^ k := Nat.two_pow_pos k
  rw [← mem_wholePages hpos, Block.mem_bytes, wholePages]
  by_cases hfits : b.ptr + (2 ^ k - 1) < 2 ^ w
  · have hkw : 2 ^ k ≤ 2 ^ w := by omega
    have hk : k ≤ w := (Nat.pow_le_pow_iff_right (by decide : 1 < 2)).mp hkw
    simp only [purge, checkedAdd, if_pos hend, if_pos hfits, maskDown_add_pred hfits hk,
      maskDown_two_pow hend hk]
    split
    · simp only [reduceCtorEq, false_and, exists_false, false_iff]
      omega
    · simp only [Option.some.injEq, exists_eq_left', Block.mem_bytes]
  · have hpurge : purge w (2 ^ k) b = none := by
      simp only [purge, checkedAdd, if_pos hend, if_neg hfits]
    simp only [hpurge, reduceCtorEq, false_and, exists_false, false_iff]
    -- the first page that starts in the block would end above the address space
    intro hx
    have hup : b.ptr ≤ alignUp b.ptr (2 ^ k) := le_alignUp hpos
    have hdiv : (b.ptr + b.len) / 2 ^ k * 2 ^ k ≤ b.ptr + b.len := Nat.div_mul_le_self _ _
    by_cases hk : k ≤ w
    · have hover := alignUp_ge_of_overflow hk (Nat.not_lt.mp hfits)
      omega
    · have hlarge : 2 ^ w ≤ 2 ^ k := Nat.pow_le_pow_right (by decide) (by omega)
      have hzero : (b.ptr + b.len) / 2 ^ k = 0 := Nat.div_eq_of_lt (by omega)
      rw [hzero] at hx
      omega

/-- A value of a type that implements `OsBacked`. -/
inductive Region
  | mmapBacked (m : MmapBacked)
  | lockedMmapBacked (m : LockedMmapBacked)
  | hugePageBacked (m : HugePageBacked)
  | numaLocal (policy : NumaPolicy) (inner : Region)
  | splitMetadata (metaRegion : MmapBacked) (dataRegion : Region)
  | hugePageAligned (hugePageSize : Nat) (pow : hugePageSize.isPowerOfTwo) (inner : Region)
  | bumpArena (capacity cursor : Nat) (backing : Region)

def HugePageBacked.region (s : HugePageBacked) : Block := ⟨s.ptr, s.len⟩

namespace Region

/-! ## The methods of `OsBacked` -/

/-- `base_ptr` and `region_size`. -/
def region : Region → Block
  | .mmapBacked m => m.region
  | .lockedMmapBacked m => m.inner.region
  | .hugePageBacked m => m.region
  | .numaLocal _ r => r.region
  | .splitMetadata _ r => r.region
  | .hugePageAligned _ _ r => r.region
  | .bumpArena _ _ r => r.region

/-- `release_pages`: the range that reaches the system. -/
def releasePages (w : Nat) (os : Os) : Region → Block → Option Block
  | .mmapBacked m, b => m.releasePages w os b
  | .lockedMmapBacked m, b => m.releasePages b
  | .hugePageBacked _, b => some b
  | .numaLocal _ r, b => r.releasePages w os b
  | .splitMetadata _ r, b => r.releasePages w os b
  | .hugePageAligned hp _ r, b => (HugePageAligned.purge w hp b).bind (r.releasePages w os)
  | .bumpArena _ _ r, b => r.releasePages w os b

/-- The page sizes of the `HugePageAligned` wrappers. -/
def pageSizes : Region → List Nat
  | .mmapBacked _ | .lockedMmapBacked _ | .hugePageBacked _ => []
  | .numaLocal _ r => r.pageSizes
  | .splitMetadata _ r => r.pageSizes
  | .hugePageAligned hp _ r => hp :: r.pageSizes
  | .bumpArena _ _ r => r.pageSizes

/-- The bytes that the mapping itself would purge: on Windows the committed ones, and none of a
locked mapping. -/
def purgeable (os : Os) : Region → Set Nat
  | .mmapBacked m => {x | os.windows = true → x ∈ m.prefixBytes}
  | .lockedMmapBacked _ => ∅
  | .hugePageBacked _ => Set.univ
  | .numaLocal _ r => r.purgeable os
  | .splitMetadata _ r => r.purgeable os
  | .hugePageAligned _ _ r => r.purgeable os
  | .bumpArena _ _ r => r.purgeable os

variable {w : Nat} {os : Os} {r : Region} {b : Block} {x : Nat}

theorem isPowerOfTwo_of_mem_pageSizes (r : Region) : ∀ P ∈ r.pageSizes, P.isPowerOfTwo := by
  induction r with
  | mmapBacked | lockedMmapBacked | hugePageBacked => exact List.forall_mem_nil _
  | numaLocal _ _ ih => exact ih
  | splitMetadata _ _ ih => exact ih
  | hugePageAligned hp hpow _ ih => exact List.forall_mem_cons.mpr ⟨hpow, ih⟩
  | bumpArena _ _ _ ih => exact ih

/-- The clamp to the committed bytes. -/
theorem mem_releasePages_mmapBacked {m : MmapBacked} (hb : b.bytes ⊆ m.region.bytes)
    (hend : b.ptr + b.len < 2 ^ w) :
    (∃ c, m.releasePages w os b = some c ∧ x ∈ c.bytes) ↔
      x ∈ b.bytes ∧ (os.windows = true → x ∈ m.prefixBytes) := by
  unfold MmapBacked.releasePages
  by_cases hwindows : os.windows = true
  · simp only [hwindows, if_true, forall_const, MmapBacked.prefixBytes, Set.mem_Ico,
      Block.mem_bytes]
    by_cases hlen : 0 < b.len
    · obtain ⟨hlow, hhigh⟩ : m.ptr ≤ b.ptr ∧ b.ptr + b.len ≤ m.ptr + m.len :=
        (Block.within_iff hlen).mp hb
      rw [saturatingAdd_of_lt (by omega)]
      split
      · simp only [reduceCtorEq, false_and, exists_false, false_iff]
        omega
      · simp only [Option.some.injEq, exists_eq_left']
        omega
    · have hclamp : min (saturatingAdd w (b.ptr - m.ptr) b.len) m.committed - (b.ptr - m.ptr) = 0 := by
        unfold saturatingAdd
        omega
      simp only [hclamp, if_true, reduceCtorEq, false_and, exists_false, false_iff]
      omega
  · simp only [hwindows, if_false, Bool.false_eq_true, Option.some.injEq, exists_eq_left',
      false_implies, and_true]

/-- **What a release reaches.** Of a range inside the region, the system is asked to purge the bytes
that lie in whole pages of every size on the way down, and no others; of a locked mapping it is
asked for nothing, and on Windows only for what is committed. -/
theorem mem_releasePages_iff (hb : b.bytes ⊆ r.region.bytes) (hend : b.ptr + b.len < 2 ^ w) :
    (∃ c, r.releasePages w os b = some c ∧ x ∈ c.bytes) ↔
      x ∈ b.bytes ∧ x ∈ r.purgeable os ∧ ∀ P ∈ r.pageSizes, Encloses P b x := by
  induction r generalizing b with
  | mmapBacked m =>
      rw [releasePages, mem_releasePages_mmapBacked hb hend]
      simp [purgeable, pageSizes]
  | lockedMmapBacked m =>
      simp [releasePages, LockedMmapBacked.releasePages, purgeable]
  | hugePageBacked m =>
      simp [releasePages, purgeable, pageSizes]
  | numaLocal policy r ih => exact ih hb hend
  | splitMetadata metaRegion r ih => exact ih hb hend
  | bumpArena capacity cursor r ih => exact ih hb hend
  | hugePageAligned hp hpow r ih =>
      have hpos : 0 < hp := Nat.pos_of_isPowerOfTwo hpow
      rw [releasePages, pageSizes, List.forall_mem_cons]
      rcases hpurge : HugePageAligned.purge w hp b with _ | c
      · -- no huge page is left
        have hnone : ¬ Encloses hp b x := by
          rw [← HugePageAligned.mem_purge_iff hpow hend, hpurge]
          rintro ⟨c, ⟨⟩, -⟩
        simp [hnone]
      · have hmem : ∀ y, y ∈ c.bytes ↔ y ∈ (wholePages hp b).bytes := by
          intro y
          rw [mem_wholePages hpos, ← HugePageAligned.mem_purge_iff hpow hend, hpurge]
          simp
        have hbytes : c.bytes = (wholePages hp b).bytes := Set.ext hmem
        have hsub : c.bytes ⊆ b.bytes := hbytes.trans_subset (wholePages_subset hpos)
        have hcend : c.ptr + c.len < 2 ^ w := by
          by_cases hlen : 0 < c.len
          · have hlast : c.ptr + c.len - 1 ∈ b.bytes := hsub ⟨by omega, by omega⟩
            rw [Block.mem_bytes] at hlast
            omega
          · unfold HugePageAligned.purge at hpurge
            simp only [checkedAdd, if_pos hend] at hpurge
            split at hpurge
            · cases hpurge
            · split at hpurge
              · cases hpurge
              · cases hpurge
                simp only at hlen
                omega
        -- a page of another size lies in the rounded range if it and the huge page do
        have hsizes : (∀ P ∈ r.pageSizes, Encloses P c x) ∧ Encloses hp b x ↔
            Encloses hp b x ∧ ∀ P ∈ r.pageSizes, Encloses P b x := by
          have hiff : ∀ P ∈ r.pageSizes, Encloses P c x ↔ Encloses P b x ∧ Encloses hp b x := by
            intro P hP
            have hPpow := r.isPowerOfTwo_of_mem_pageSizes P hP
            have hdvd : P ∣ hp ∨ hp ∣ P := by
              rcases le_total P hp with hle | hle
              · exact Or.inl (dvd_of_le_of_isPowerOfTwo hPpow hpow hle)
              · exact Or.inr (dvd_of_le_of_isPowerOfTwo hpow hPpow hle)
            rw [← encloses_wholePages (Nat.pos_of_isPowerOfTwo hPpow) hpos hdvd, Encloses, Encloses,
              hbytes]
          constructor
          · rintro ⟨hall, hx⟩
            exact ⟨hx, fun P hP => ((hiff P hP).mp (hall P hP)).1⟩
          · rintro ⟨hx, hall⟩
            exact ⟨fun P hP => (hiff P hP).mpr ⟨hall P hP, hx⟩, hx⟩
        show (∃ d, r.releasePages w os c = some d ∧ x ∈ d.bytes) ↔ _
        rw [ih (hsub.trans hb) hcend, hbytes, mem_wholePages hpos, ← hsizes]
        constructor
        · rintro ⟨hx, hpurgeable, hall⟩
          exact ⟨hx.mem hpos, hpurgeable, hall, hx⟩
        · rintro ⟨-, hpurgeable, hall, hx⟩
          exact ⟨hx, hpurgeable, hall⟩

/-- An arena on four aligned pages. -/
def pagedArena : Region :=
  .bumpArena 16384 0 (.hugePageAligned 4096 isPowerOfTwo_smallPage
    (.mmapBacked ⟨4096, 16384, 0, 16384, ⟨[], []⟩, by decide⟩))

/-- Of 10000 bytes that start inside a page, the first page is not touched and the next one is. -/
theorem mem_releasePages_iff_pagedArena :
    (∃ c, pagedArena.releasePages 64 ⟨false, 4096, isPowerOfTwo_smallPage⟩ ⟨5000, 10000⟩ = some c ∧
        8192 ∈ c.bytes) ∧
      ¬ ∃ c, pagedArena.releasePages 64 ⟨false, 4096, isPowerOfTwo_smallPage⟩ ⟨5000, 10000⟩ = some c ∧
        5000 ∈ c.bytes := by
  have hb : Block.bytes ⟨5000, 10000⟩ ⊆ pagedArena.region.bytes :=
    (Block.within_iff (by decide)).mpr (by decide)
  rw [mem_releasePages_iff hb (by decide), mem_releasePages_iff hb (by decide)]
  constructor
  · refine ⟨by decide, fun hwindows => (by cases hwindows), ?_⟩
    exact List.forall_mem_singleton.mpr ((encloses_iff (by decide)).mpr (by decide))
  · rintro ⟨-, -, hsizes⟩
    have hpage := (encloses_iff (by decide)).mp (hsizes 4096 List.mem_cons_self)
    exact absurd hpage (by decide)

end Region

end ForgeAlloc
