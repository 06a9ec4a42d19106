import ForgeAlloc.Library.Memory

set_option autoImplicit false

/-! # Rights of pages

The system keeps access rights for pages of `P` bytes. A change that is requested for a block of
addresses is made to every page that has a byte in the block (`setRights`), so it may reach further
than the block: to bytes the block only shares a page with (`Touches`).

It reaches nothing beyond the end of the block exactly when the block ends where a page does
(`end_untouched_iff`), and nothing before its start exactly when it starts where a page does
(`start_untouched_iff`).
-/

namespace Paging

open ByteMemory

variable {P x lo hi : Nat} {b : Block}

/-- The page of `x` has a byte in the block. -/
def Touches (P : Nat) (b : Block) (x : Nat) : Prop := ∃ y ∈ b.bytes, y / P = x / P

/-- The rights of all pages after the change to `f` of those that have a byte in the block. -/
def setRights {ρ : Type} (P : Nat) (b : Block) (f : ρ) (rights : Nat → ρ) : Nat → ρ := fun page =>
  if 0 < b.len ∧ b.ptr / P ≤ page ∧ page ≤ (b.ptr + b.len - 1) / P then f else rights page

theorem touches_of_mem (h : x ∈ b.bytes) : Touches P b x := ⟨x, h, rfl⟩

theorem touches_iff (hP : 0 < P) :
    Touches P b x ↔ 0 < b.len ∧ b.ptr / P ≤ x / P ∧ x / P ≤ (b.ptr + b.len - 1) / P := by
  constructor
  · rintro ⟨y, hy, hpage⟩
    rw [Block.mem_bytes] at hy
    have hlow : b.ptr / P ≤ y / P := Nat.div_le_div_right hy.1
    have hhigh : y / P ≤ (b.ptr + b.len - 1) / P := Nat.div_le_div_right (by omega)
    exact ⟨by omega, hpage ▸ hlow, hpage ▸ hhigh⟩
  · rintro ⟨hlen, hlow, hhigh⟩
    -- the first byte that the page and the block may share
    have hpage : x / P * P ≤ b.ptr + b.len - 1 :=
      (Nat.mul_le_mul_right P hhigh).trans (Nat.div_mul_le_self _ _)
    refine ⟨max b.ptr (x / P * P), ⟨le_max_left _ _, max_lt (by omega) (by omega)⟩, ?_⟩
    rcases le_total b.ptr (x / P * P) with hle | hle
    · rw [max_eq_right hle, Nat.mul_div_cancel _ hP]
    · rw [max_eq_left hle]
      refine le_antisymm hlow ?_
      rw [Nat.le_div_iff_mul_le hP]
      exact hle

theorem setRights_div {ρ : Type} {f : ρ} {rights : Nat → ρ} (hP : 0 < P) :
    (Touches P b x → setRights P b f rights (x / P) = f) ∧
      (¬ Touches P b x → setRights P b f rights (x / P) = rights (x / P)) := by
  rw [touches_iff hP]
  exact ⟨fun h => if_pos h, fun h => if_neg h⟩

/-- Neighbours are in one page unless the second one starts a page. -/
theorem div_eq_div_of_not_dvd (hx : 0 < x) (h : ¬ P ∣ x) : (x - 1) / P = x / P := by
  have hsucc : (x - 1 + 1) / P = (x - 1) / P + if P ∣ x - 1 + 1 then 1 else 0 := Nat.succ_div
  rw [Nat.sub_add_cancel hx, if_neg h] at hsucc
  exact hsucc.symm

/-- **What lies behind a block** is left alone exactly when a page ends with the block. -/
theorem end_untouched_iff (hP : 0 < P) (hlen : 0 < b.len) (hhi : b.ptr + b.len < hi) :
    (∀ x, b.ptr + b.len ≤ x → x < hi → ¬ Touches P b x) ↔ P ∣ b.ptr + b.len := by
  constructor
  · intro hfree
    by_contra hdvd
    have hlast : b.ptr + b.len - 1 ∈ b.bytes := ⟨by omega, by omega⟩
    exact hfree _ le_rfl hhi ⟨_, hlast, div_eq_div_of_not_dvd (by omega) hdvd⟩
  · rintro ⟨q, hq⟩ x hx - ⟨y, hy, hpage⟩
    have hyq : y / P < q := Nat.div_lt_of_lt_mul (hq ▸ hy.2)
    have hxq : q ≤ x / P := (Nat.le_div_iff_mul_le hP).mpr (by rw [mul_comm, ← hq]; exact hx)
    omega

/-- **What lies before a block** is left alone exactly when a page starts with the block. -/
theorem start_untouched_iff (hP : 0 < P) (hlen : 0 < b.len) (hlo : lo < b.ptr) :
    (∀ x, lo ≤ x → x < b.ptr → ¬ Touches P b x) ↔ P ∣ b.ptr := by
  constructor
  · intro hfree
    by_contra hdvd
    have hfirst : b.ptr ∈ b.bytes := ⟨le_rfl, by omega⟩
    exact hfree (b.ptr - 1) (by omega) (by omega)
      ⟨_, hfirst, (div_eq_div_of_not_dvd (by omega) hdvd).symm⟩
  · rintro ⟨q, hq⟩ x - hx ⟨y, hy, hpage⟩
    have hxq : x / P < q := Nat.div_lt_of_lt_mul (hq ▸ hx)
    have hyq : q ≤ y / P := (Nat.le_div_iff_mul_le hP).mpr (by rw [mul_comm, ← hq]; exact hy.1)
    omega

end Paging
