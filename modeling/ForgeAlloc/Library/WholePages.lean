import ForgeAlloc.Library.MachineInt
import ForgeAlloc.Library.Paging

set_option autoImplicit false

/-! # The whole pages of a block

A page that lies in a block with all its bytes is a whole page of the block. `wholePages P b` is the
part of `b` made of these: its start rounded up and its end rounded down. A byte is in it exactly
when the page around the byte is in `b` (`mem_wholePages`), so the pages that `b` only has a part of
are left alone.

Rounding for pages of two sizes, one a multiple of the other, keeps what lies in whole pages of both
(`encloses_wholePages`), in whatever order.
-/

namespace Paging

open ByteMemory MachineInt

/-- The page with the byte `x`. -/
def pageOf (P x : Nat) : Block := ⟨x / P * P, P⟩

/-- The page of `x` lies in the block. -/
def Encloses (P : Nat) (b : Block) (x : Nat) : Prop := (pageOf P x).bytes ⊆ b.bytes

/-- The block without the pages that it only has a part of. -/
def wholePages (P : Nat) (b : Block) : Block :=
  ⟨alignUp b.ptr P, (b.ptr + b.len) / P * P - alignUp b.ptr P⟩

variable {P Q x y : Nat} {b : Block}

theorem mem_pageOf_iff (hP : 0 < P) : y ∈ (pageOf P x).bytes ↔ y / P = x / P := by
  rw [Block.mem_bytes, pageOf, Nat.div_eq_iff hP, Nat.le_sub_one_iff_lt (by omega)]

theorem mem_pageOf_self (hP : 0 < P) : x ∈ (pageOf P x).bytes := (mem_pageOf_iff hP).mpr rfl

theorem pageOf_congr (h : y / P = x / P) : pageOf P y = pageOf P x := by
  rw [pageOf, pageOf, h]

theorem encloses_iff (hP : 0 < P) :
    Encloses P b x ↔ b.ptr ≤ x / P * P ∧ x / P * P + P ≤ b.ptr + b.len := by
  unfold Encloses
  have hpage : 0 < (pageOf P x).len := hP
  exact Block.within_iff hpage

theorem Encloses.mem (hP : 0 < P) (h : Encloses P b x) : x ∈ b.bytes := h (mem_pageOf_self hP)

/-- **What is left of a block** are the bytes whose page lies in it. -/
theorem mem_wholePages (hP : 0 < P) : x ∈ (wholePages P b).bytes ↔ Encloses P b x := by
  rw [encloses_iff hP, Block.mem_bytes, wholePages]
  have hlow : alignUp b.ptr P ≤ x ↔ b.ptr ≤ x / P * P := by
    constructor
    · intro hle
      have hdiv : alignUp b.ptr P / P ≤ x / P := Nat.div_le_div_right hle
      have hmul : alignUp b.ptr P / P * P = alignUp b.ptr P :=
        Nat.div_mul_cancel (dvd_alignUp b.ptr P)
      calc b.ptr ≤ alignUp b.ptr P := le_alignUp hP
        _ = alignUp b.ptr P / P * P := hmul.symm
        _ ≤ x / P * P := Nat.mul_le_mul_right P hdiv
    · intro hle
      exact (alignUp_le_of_dvd hP (Dvd.intro_left _ rfl) hle).trans (Nat.div_mul_le_self x P)
  have hhigh : x < (b.ptr + b.len) / P * P ↔ x / P * P + P ≤ b.ptr + b.len := by
    rw [← Nat.div_lt_iff_lt_mul hP, ← Nat.add_one_mul, Nat.lt_iff_add_one_le,
      Nat.le_div_iff_mul_le hP]
  simp only
  constructor
  · rintro ⟨hge, hlt⟩
    exact ⟨hlow.mp hge, hhigh.mp (by omega)⟩
  · rintro ⟨hge, hlt⟩
    have hx := hlow.mpr hge
    have hx' := hhigh.mpr hlt
    exact ⟨hx, by omega⟩

theorem wholePages_subset (hP : 0 < P) : (wholePages P b).bytes ⊆ b.bytes := fun _ hx =>
  ((mem_wholePages hP).mp hx).mem hP

/-- A smaller page lies in the larger page around it. -/
theorem pageOf_subset (hP : 0 < P) (hQ : 0 < Q) (hdvd : P ∣ Q) :
    (pageOf P x).bytes ⊆ (pageOf Q x).bytes := by
  intro y hy
  rw [mem_pageOf_iff hP] at hy
  rw [mem_pageOf_iff hQ]
  obtain ⟨k, rfl⟩ := hdvd
  rw [← Nat.div_div_eq_div_mul, ← Nat.div_div_eq_div_mul, hy]

theorem Encloses.of_dvd (hP : 0 < P) (hQ : 0 < Q) (hdvd : P ∣ Q) (h : Encloses Q b x) :
    Encloses P b x := (pageOf_subset hP hQ hdvd).trans h

/-- **Rounding twice** keeps what lies in whole pages of both sizes. -/
theorem encloses_wholePages (hP : 0 < P) (hQ : 0 < Q) (hdvd : P ∣ Q ∨ Q ∣ P) :
    Encloses P (wholePages Q b) x ↔ Encloses P b x ∧ Encloses Q b x := by
  constructor
  · intro h
    exact ⟨h.trans (wholePages_subset hQ), (mem_wholePages hQ).mp (h (mem_pageOf_self hP))⟩
  · rintro ⟨hPx, hQx⟩ y hy
    rw [mem_wholePages hQ]
    rcases hdvd with hPQ | hQP
    · -- the large page of `y` is that of `x`
      have hyQ : y ∈ (pageOf Q x).bytes := pageOf_subset hP hQ hPQ hy
      rw [Encloses, pageOf_congr ((mem_pageOf_iff hQ).mp hyQ)]
      exact hQx
    · -- the small page of `y` lies in the large one of `x`
      have hyP : pageOf P y = pageOf P x := pageOf_congr ((mem_pageOf_iff hP).mp hy)
      have hsub : (pageOf Q y).bytes ⊆ (pageOf P y).bytes := pageOf_subset hQ hP hQP
      rw [hyP] at hsub
      exact hsub.trans hPx

end Paging
