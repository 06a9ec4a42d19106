import ForgeAlloc.Backing.Mmap
import ForgeAlloc.Library.Paging

set_option autoImplicit false

/-! # `OsBacked` and page protection

A backing that is a mapping of the operating system can have the rights of its pages changed. The
call returns nothing. When the system declines, the error code goes to a slot of the calling thread
(`mmap_last_os_error`), and a caller that wants to know has to look there.

`OsBacked.Lawful` is what a caller may assume: the region lies inside the address space, and a call
either fails and is recorded, or changes exactly the pages that have a byte in the range.
`os_protect` over a mapping is of this kind (`MmapBacked.osBacked_lawful`).
-/

namespace ForgeAlloc

open MachineInt ByteMemory Paging

structure ProtectFlags where
  read : Bool
  write : Bool
  exec : Bool
  deriving DecidableEq

namespace ProtectFlags

/-- `ProtectFlags::NONE`. -/
def noAccess : ProtectFlags := ⟨false, false, false⟩

/-- `ProtectFlags::RW`. -/
def rw : ProtectFlags := ⟨true, true, false⟩

end ProtectFlags

/-- The system's side of page protection. -/
structure OsPages where
  /-- The rights of each page. -/
  rights : Nat → ProtectFlags
  /-- The last error recorded on this thread. -/
  lastOsError : Option Nat
  /-- The answers to the calls to come, an error code each; afterwards every call is granted. -/
  answers : List (Option Nat)

namespace OsPages

/-- `mmap_clear_last_os_error`. -/
def clearLastOsError (s : OsPages) : OsPages := { s with lastOsError := none }

/-- A call that is declined. -/
def fail (code : Nat) (s : OsPages) : Bool × OsPages :=
  (false, { s with lastOsError := some code, answers := s.answers.tail })

/-- A call that is granted. -/
def grant (os : Os) (b : Block) (flags : ProtectFlags) (s : OsPages) : Bool × OsPages :=
  (true, { s with rights := setRights os.pageSize b flags s.rights, answers := s.answers.tail })

/-- The byte can be read and written. -/
def Accessible (os : Os) (s : OsPages) (x : Nat) : Prop :=
  (s.rights (x / os.pageSize)).read = true ∧ (s.rights (x / os.pageSize)).write = true

instance (os : Os) (s : OsPages) (x : Nat) : Decidable (s.Accessible os x) :=
  inferInstanceAs (Decidable (_ ∧ _))

/-- Every access to the byte faults. -/
def Inaccessible (os : Os) (s : OsPages) (x : Nat) : Prop :=
  s.rights (x / os.pageSize) = ProtectFlags.noAccess

instance (os : Os) (s : OsPages) (x : Nat) : Decidable (s.Inaccessible os x) :=
  inferInstanceAs (Decidable (_ = _))

theorem not_accessible {os : Os} {s : OsPages} {x : Nat} (h : s.Inaccessible os x) :
    ¬ s.Accessible os x := by
  intro haccess
  have hread := haccess.1
  rw [show s.rights (x / os.pageSize) = ProtectFlags.noAccess from h] at hread
  cases hread

end OsPages

/-- The methods of `OsBacked` that change protection. A call also tells whether it was granted,
which its caller does not see. -/
structure OsBacked (σ : Type) where
  basePtr : σ → Nat
  regionSize : σ → Nat
  protect : σ → Block → ProtectFlags → OsPages → Bool × OsPages
  base_pos : ∀ s, 0 < basePtr s

namespace OsBacked

/-- What a caller may assume of the value `inner`. -/
structure Lawful {σ : Type} (w : Nat) (os : Os) (O : OsBacked σ) (inner : σ) : Prop where
  end_le : O.basePtr inner + O.regionSize inner ≤ 2 ^ w
  failed : ∀ {b flags s s'}, O.protect inner b flags s = (false, s') → s'.lastOsError.isSome
  granted : ∀ {b flags s s'}, O.protect inner b flags s = (true, s') →
    s'.lastOsError = s.lastOsError ∧ s'.rights = setRights os.pageSize b flags s.rights

end OsBacked

theorem Os.pageSize_pos (os : Os) : 0 < os.pageSize := by
  obtain ⟨k, hk⟩ := os.pageSize_pow
  rw [hk]
  exact Nat.two_pow_pos k

/-! ## Mappings -/

/-- The code for an invalid argument. -/
def einval (os : Os) : Nat := if os.windows = true then 87 else 22

/-- `os_protect`. Windows changes all pages in reach of the range; Unix wants the range to start
with a page, and goes on to the end of the last one. -/
def osProtect (os : Os) (b : Block) (flags : ProtectFlags) (s : OsPages) : Bool × OsPages :=
  match s.answers.headD none with
  | some code => s.fail code
  | none =>
      if os.windows = false ∧ ¬ os.pageSize ∣ b.ptr then s.fail (einval os)
      else s.grant os b flags

def MmapBacked.osBacked (os : Os) : OsBacked MmapBacked where
  basePtr := fun m => m.ptr
  regionSize := fun m => m.len
  protect := fun _ b flags s => osProtect os b flags s
  base_pos := fun m => m.ptr_pos

theorem osProtect_cases (os : Os) (b : Block) (flags : ProtectFlags) (s : OsPages) :
    (∃ code, osProtect os b flags s = s.fail code) ∨
      osProtect os b flags s = s.grant os b flags ∧
        (os.windows = false → os.pageSize ∣ b.ptr) := by
  unfold osProtect
  split
  case h_1 code _ => exact Or.inl ⟨code, rfl⟩
  case h_2 =>
      split
      case isTrue => exact Or.inl ⟨_, rfl⟩
      case isFalse hok => exact Or.inr ⟨rfl, fun hunix => by_contra fun hdvd => hok ⟨hunix, hdvd⟩⟩

theorem MmapBacked.osBacked_lawful {w : Nat} {os : Os} {m : MmapBacked}
    (hend : m.ptr + m.len ≤ 2 ^ w) : (osBacked os).Lawful w os m where
  end_le := hend
  failed := by
    intro b flags s s' heq
    rcases osProtect_cases os b flags s with ⟨code, hcall⟩ | ⟨hcall, -⟩
    · cases heq.symm.trans hcall
      rfl
    · cases heq.symm.trans hcall
  granted := by
    intro b flags s s' heq
    rcases osProtect_cases os b flags s with ⟨code, hcall⟩ | ⟨hcall, -⟩
    · cases heq.symm.trans hcall
    · cases heq.symm.trans hcall
      exact ⟨rfl, rfl⟩

end ForgeAlloc
