import ForgeAlloc.Backing.Protect

set_option autoImplicit false

/-! # `GuardPage`

The first and the last `page_size` bytes of a mapping become guards, which nothing can access, and
blocks are cut off what lies between them with a cursor of the wrapper's own.

`new_eq_some` says what a construction that succeeds has checked and done, and
`new_eq_none_of_failed` that it does not succeed when the system has declined a call.
-/

namespace ForgeAlloc

open MachineInt ByteMemory Paging

structure GuardPage (σ : Type) where
  inner : σ
  pageSize : Nat
  /-- The first address behind the leading guard. -/
  base : Nat
  usableSize : Nat
  cursor : Nat
  base_pos : 0 < base

namespace GuardPage

variable {w : Nat} {σ : Type}

/-- Protect a guard, and look whether the system has recorded an error. -/
def installGuard (O : OsBacked σ) (inner : σ) (guard : Block) (s : OsPages) : Bool × OsPages :=
  let (_, s') := O.protect inner guard ProtectFlags.noAccess s
  (s'.lastOsError.isNone, s')

def new (w : Nat) (O : OsBacked σ) (inner : σ) (pageSize : Nat) (s : OsPages) :
    Option (GuardPage σ) × OsPages :=
  if pageSize = 0 ∨ ¬ pageSize.isPowerOfTwo then (none, s)
  else
    let regionSize := O.regionSize inner
    match (checkedMul w 2 pageSize).bind fun v => checkedAdd w v 1 with
    | none => (none, s)
    | some needed =>
        if regionSize < needed then (none, s)
        else
          let baseAddr := O.basePtr inner
          if baseAddr &&& (pageSize - 1) ≠ 0 then (none, s)
          else if regionSize &&& (pageSize - 1) ≠ 0 then (none, s)
          else
            match installGuard O inner ⟨baseAddr, pageSize⟩ s.clearLastOsError with
            | (false, s') => (none, s')
            | (true, s') =>
                let tail := baseAddr + wrappingSub w regionSize pageSize
                match installGuard O inner ⟨tail, pageSize⟩ s' with
                | (false, s'') => (none, s'')
                | (true, s'') =>
                    (some
                      { inner := inner
                        pageSize := pageSize
                        base := baseAddr + pageSize
                        usableSize := wrappingSub w regionSize (wrappingMul w 2 pageSize)
                        cursor := 0
                        base_pos := Nat.add_pos_left (O.base_pos inner) pageSize }, s'')

def allocated (g : GuardPage σ) : Nat := g.cursor

def allocate (l : NonZeroLayout w) (h : Heap (GuardPage σ)) : Option Block × Heap (GuardPage σ) :=
  match bump w h.alloc.base h.alloc.usableSize h.alloc.cursor l.size l.align with
  | none => (none, h)
  | some (alignedOff, endOff) =>
      (some ⟨h.alloc.base + alignedOff, l.size⟩, ⟨{ h.alloc with cursor := endOff }, h.mem⟩)

/-- `deallocate` does nothing; the resizes are the trait's. -/
def allocator (w : Nat) (σ : Type) : Allocator w (GuardPage σ) where
  allocate := allocate
  deallocate := fun _ _ h => h
  grow := defaultGrow allocate (fun _ _ h => h)
  shrink := defaultShrink allocate (fun _ _ h => h)
  usableSize := fun _ _ _ => none

/-- The range between the guards. -/
def range (σ : Type) : FixedRange (GuardPage σ) where
  base := fun g => g.base
  size := fun g => g.usableSize
  commit := fun _ _ g => (true, g)

theorem range_lawful (σ : Type) : (range σ).Lawful where
  base_pos := fun g => g.base_pos
  base_commit := fun _ _ _ => rfl
  size_commit := fun _ _ _ => rfl

/-! ## Construction -/

variable {os : Os} {O : OsBacked σ} {inner : σ} {pageSize : Nat} {s s' : OsPages}
  {g : GuardPage σ} {guard : Block}

/-- The guard is installed, and no error was recorded. -/
theorem installGuard_eq_true (hO : O.Lawful w os inner)
    (heq : installGuard O inner guard s = (true, s')) :
    O.protect inner guard ProtectFlags.noAccess s = (true, s') ∧ s'.lastOsError = none ∧
      s'.rights = setRights os.pageSize guard ProtectFlags.noAccess s.rights := by
  rcases hcall : O.protect inner guard ProtectFlags.noAccess s with ⟨ok, s₁⟩
  rw [installGuard, hcall] at heq
  obtain ⟨hnone, rfl⟩ := Prod.mk.inj heq
  have herror : s₁.lastOsError = none := Option.isNone_iff_eq_none.mp hnone
  cases ok with
  | false =>
      have hsome := hO.failed hcall
      rw [herror] at hsome
      cases hsome
  | true => exact ⟨rfl, herror, (hO.granted hcall).2⟩

/-- A call that was declined is seen. -/
theorem installGuard_of_failed (hO : O.Lawful w os inner)
    (hcall : O.protect inner guard ProtectFlags.noAccess s = (false, s')) :
    installGuard O inner guard s = (false, s') := by
  rw [installGuard, hcall]
  have hsome := hO.failed hcall
  cases herror : s'.lastOsError with
  | none =>
      rw [herror] at hsome
      cases hsome
  | some code => simp [herror]

/-- The guards of a mapping. -/
def head (O : OsBacked σ) (inner : σ) (pageSize : Nat) : Block := ⟨O.basePtr inner, pageSize⟩

def tail (O : OsBacked σ) (inner : σ) (pageSize : Nat) : Block :=
  ⟨O.basePtr inner + (O.regionSize inner - pageSize), pageSize⟩

/-- What construction checks. -/
structure Accepted (w : Nat) (O : OsBacked σ) (inner : σ) (pageSize : Nat) : Prop where
  pow : pageSize.isPowerOfTwo
  room : 2 * pageSize < O.regionSize inner
  base_dvd : pageSize ∣ O.basePtr inner
  size_dvd : pageSize ∣ O.regionSize inner

theorem dvd_of_land_eq_zero {x k : Nat} (h : x &&& (2 ^ k - 1) = 0) : 2 ^ k ∣ x := by
  rw [Nat.and_two_pow_sub_one_eq_mod] at h
  exact Nat.dvd_of_mod_eq_zero h

/-- **A construction that succeeds** has checked the sizes, the system has granted both calls, and
the value describes what lies between the guards. -/
theorem new_eq_some (hO : O.Lawful w os inner) (hnew : new w O inner pageSize s = (some g, s')) :
    Accepted w O inner pageSize ∧
      (∃ s₁, O.protect inner (head O inner pageSize) ProtectFlags.noAccess s.clearLastOsError =
          (true, s₁) ∧
        O.protect inner (tail O inner pageSize) ProtectFlags.noAccess s₁ = (true, s')) ∧
      s'.rights = setRights os.pageSize (tail O inner pageSize) ProtectFlags.noAccess
        (setRights os.pageSize (head O inner pageSize) ProtectFlags.noAccess s.rights) ∧
      g.base = O.basePtr inner + pageSize ∧
      g.usableSize = O.regionSize inner - 2 * pageSize ∧ g.cursor = 0 := by
  have hend := hO.end_le
  have hpos := O.base_pos inner
  unfold new at hnew
  split at hnew
  · cases hnew
  case isFalse hpow =>
  simp only [not_or, not_not] at hpow
  obtain ⟨k, rfl⟩ := hpow.2
  split at hnew
  · cases hnew
  case h_2 needed hneeded =>
  simp only [Option.bind_eq_some_iff, checkedMul_eq_some, checkedAdd_eq_some] at hneeded
  obtain ⟨_, ⟨hmul, rfl⟩, -, rfl⟩ := hneeded
  simp only at hnew
  split at hnew
  · cases hnew
  case isFalse hroom =>
  split at hnew
  · cases hnew
  case isFalse hbase =>
  split at hnew
  · cases hnew
  case isFalse hsize =>
  rw [wrappingMul_of_lt hmul, wrappingSub_of_le (by omega) (by omega),
    wrappingSub_of_le (by omega) (by omega)] at hnew
  split at hnew
  · cases hnew
  case h_2 s₁ hhead =>
  split at hnew
  · cases hnew
  case h_2 s₂ htail =>
  cases hnew
  obtain ⟨hcall, -, hrights⟩ := installGuard_eq_true hO hhead
  obtain ⟨hcall', -, hrights'⟩ := installGuard_eq_true hO htail
  refine ⟨⟨⟨k, rfl⟩, by omega, dvd_of_land_eq_zero (not_not.mp hbase),
    dvd_of_land_eq_zero (not_not.mp hsize)⟩, ⟨s₁, hcall, hcall'⟩, ?_, rfl, rfl, rfl⟩
  rw [hrights', hrights]
  rfl

/-- **A call that the system declines is not overlooked.** -/
theorem new_eq_none_of_failed (hO : O.Lawful w os inner) :
    (∀ s₁, O.protect inner (head O inner pageSize) ProtectFlags.noAccess s.clearLastOsError =
        (false, s₁) → (new w O inner pageSize s).1 = none) ∧
      ∀ s₁ s₂, O.protect inner (head O inner pageSize) ProtectFlags.noAccess s.clearLastOsError =
          (true, s₁) →
        O.protect inner (tail O inner pageSize) ProtectFlags.noAccess s₁ = (false, s₂) →
        (new w O inner pageSize s).1 = none := by
  constructor
  · intro s₁ hcall
    cases hnew : new w O inner pageSize s with
    | mk r s' =>
        cases r with
        | none => rfl
        | some g =>
            obtain ⟨-, ⟨t, ht, -⟩, -⟩ := new_eq_some hO hnew
            cases hcall.symm.trans ht
  · intro s₁ s₂ hcall hcall'
    cases hnew : new w O inner pageSize s with
    | mk r s' =>
        cases r with
        | none => rfl
        | some g =>
            obtain ⟨-, ⟨t, ht, ht'⟩, -⟩ := new_eq_some hO hnew
            cases hcall.symm.trans ht
            cases hcall'.symm.trans ht'

end GuardPage

end ForgeAlloc
