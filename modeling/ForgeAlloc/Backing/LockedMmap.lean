import ForgeAlloc.Backing.LazyCommit
import ForgeAlloc.Backing.HugePageBacked
import ForgeAlloc.Core.Forwarding

set_option autoImplicit false

/-! # `MmapBacked` and `LockedMmapBacked` in a process

The constructors and the drops of the mappings with what they do to the process. A
`LockedMmapBacked` exists only with its lock: if the system declines the lock, the constructor
unmaps again and fails. An unmapping that fails as well writes to the error slot, so the code of the
lock is saved before and put back after.

`RootCause` says that the slot holds the first failure since a state, whatever failed later. Each
constructor that fails leaves it so, and one that succeeds leaves the slot alone (`new_reports`).
-/

namespace ForgeAlloc

open MachineInt ByteMemory

variable {w : Nat} {t : Target} {K : Kernel} {p q : OsProcess}

/-- The slot has the code of what failed first after `p`. -/
def RootCause (p q : OsProcess) : Prop :=
  ∃ code later, q.failures = later ++ code :: p.failures ∧ q.lastOsError = some code

/-- What a constructor leaves in the slot: nothing if it has built a value, and else the cause. -/
def Reports (p q : OsProcess) (built : Bool) : Prop :=
  if built = true then q.lastOsError = p.lastOsError ∧ q.failures = p.failures else RootCause p q

theorem rootCause_captureOsError (code : Nat) (p : OsProcess) :
    RootCause p (p.captureOsError code) := ⟨code, [], rfl, rfl⟩

/-! ## `MmapBacked` -/

namespace MmapBacked

def region (s : MmapBacked) : Block := ⟨s.ptr, s.len⟩

/-- `MmapBacked::with_flags` in a process. `answers` are those to the commits to come. -/
def withFlagsIn (w : Nat) (t : Target) (K : Kernel) (size : Nat) (lazyCommit : Bool)
    (answers : List Bool) (p : OsProcess) : Option MmapBacked × OsProcess :=
  if size = 0 then (none, p.captureSyntheticEinval t)
  else
    match checkedAdd w size (t.pageSize - 1) with
    | none => (none, p.captureSyntheticEinval t)
    | some padded =>
        match p.osMap K (maskDown w padded t.pageSize) 0 with
        | (none, p) => (none, p)
        | (some place, p) =>
            (withFlags w t.os size lazyCommit (some place) answers, p)

/-- `drop`. -/
def drop (K : Kernel) (s : MmapBacked) (p : OsProcess) : OsProcess := p.osUnmap K s.region

/-- `release_pages`: what is left of the range for `os_release_pages`. Windows resets committed pages
only. -/
def releasePages (w : Nat) (os : Os) (b : Block) (s : MmapBacked) : Option Block :=
  if os.windows = true then
    let off := b.ptr - s.ptr
    let clamped := min (saturatingAdd w off b.len) s.committed - off
    if clamped = 0 then none else some ⟨b.ptr, clamped⟩
  else some b

variable {size : Nat} {lazyCommit : Bool} {answers : List Bool} {s : MmapBacked}

theorem withFlagsIn_none (hnew : withFlagsIn w t K size lazyCommit answers p = (none, q)) :
    ∃ code, q = p.captureOsError code := by
  unfold withFlagsIn at hnew
  split at hnew
  · cases hnew
    exact ⟨_, rfl⟩
  case isFalse hsize =>
      split at hnew
      case h_1 =>
          cases hnew
          exact ⟨_, rfl⟩
      case h_2 padded hpadded =>
          split at hnew
          case h_1 p' hmap =>
              cases hnew
              exact OsProcess.eq_capture_of_osMap_none hmap
          case h_2 place p' hmap =>
              -- the arguments were checked, and a place is not null
              obtain ⟨hflags, -⟩ := Prod.mk.inj hnew
              change checkedAdd w size (t.os.pageSize - 1) = some padded at hpadded
              simp only [withFlags, if_neg hsize, hpadded, Option.bind_eq_bind, Option.bind_some,
                place.pos, dite_true] at hflags
              split at hflags
              · cases hflags
              · cases hflags

/-- A mapping that is built is one that the system has made, of the length it was asked for. -/
theorem withFlagsIn_some (hnew : withFlagsIn w t K size lazyCommit answers p = (some s, q)) :
    ∃ place : ℕ+, p.osMap K s.len 0 = (some place, q) ∧ s.ptr = place ∧ 0 < s.len ∧
      withFlags w t.os size lazyCommit (some s.ptr) answers = some s := by
  unfold withFlagsIn at hnew
  split at hnew
  · cases hnew
  · split at hnew
    case h_1 => cases hnew
    case h_2 padded hpadded =>
        split at hnew
        case h_1 => cases hnew
        case h_2 place p' hmap =>
            obtain ⟨hlt, rfl⟩ := checkedAdd_eq_some.mp hpadded
            obtain ⟨hflags, rfl⟩ := Prod.mk.inj hnew
            obtain ⟨hpos, hlt', hplace, hlen, -⟩ := withFlags_eq_some hflags
            have hptr : (place : Nat) = s.ptr := Option.some.inj hplace
            have hle : size ≤ s.len := by
              rw [hlen]
              exact (pageEnd hlt').2
            change s.len = maskDown w (size + (t.pageSize - 1)) t.pageSize at hlen
            exact ⟨place, hlen ▸ hmap, hptr.symm, by omega, hptr ▸ hflags⟩


end MmapBacked

/-! ## `LockedMmapBacked` -/

structure LockedMmapBacked where
  inner : MmapBacked

namespace LockedMmapBacked

/-- `LockedMmapBacked::new`. -/
def new (w : Nat) (t : Target) (K : Kernel) (size : Nat) (p : OsProcess) :
    Option LockedMmapBacked × OsProcess :=
  match MmapBacked.withFlagsIn w t K size false [] p with
  | (none, p) => (none, p)
  | (some inner, p) =>
      match p.osLock K inner.region with
      | (true, p) => (some ⟨inner⟩, p)
      | (false, p) =>
          let saved := p.lastOsError
          let p := inner.drop K p
          match saved with
          | some code => (none, p.mmapSetLastOsError code)
          | none => (none, p)

/-- `drop`: the lock goes while the pages are still mapped. -/
def drop (K : Kernel) (s : LockedMmapBacked) (p : OsProcess) : OsProcess :=
  s.inner.drop K (p.osUnlock K s.inner.region)

/-- `release_pages` does nothing. -/
def releasePages (_ : Block) (_ : LockedMmapBacked) : Option Block := none

/-- The calls of `Allocator` go to the mapping as they are. -/
def forwarder : Forwarder w LockedMmapBacked MmapBacked Unit where
  inner := inner
  put := fun _ m => ⟨m⟩
  key := fun _ => ()
  promote := fun _ l => some l
  promote_spec := Forwarder.promote_self

variable {size : Nat} {s : LockedMmapBacked}

/-- The two ways a construction fails: nothing was mapped, or the mapping was given back because the
lock was declined. -/
theorem new_none (hnew : new w t K size p = (none, q)) :
    (∃ code, q = p.captureOsError code) ∨
      ∃ inner p₁ code, MmapBacked.withFlagsIn w t K size false [] p = (some inner, p₁) ∧
        K.lock p₁ inner.region = some code ∧
        q = (inner.drop K (p₁.captureOsError code)).mmapSetLastOsError code := by
  unfold new at hnew
  split at hnew
  case h_1 p' hmap =>
      cases hnew
      exact Or.inl (MmapBacked.withFlagsIn_none hmap)
  case h_2 inner p₁ hmap =>
      refine Or.inr ⟨inner, p₁, ?_⟩
      rcases hlock : K.lock p₁ inner.region with _ | code
      · simp only [OsProcess.osLock, hlock] at hnew
        cases hnew
      · simp only [OsProcess.osLock, hlock] at hnew
        cases hnew
        exact ⟨code, hmap, rfl, rfl⟩

theorem new_some (hnew : new w t K size p = (some s, q)) :
    ∃ p₁, MmapBacked.withFlagsIn w t K size false [] p = (some s.inner, p₁) ∧
      p₁.osLock K s.inner.region = (true, q) := by
  unfold new at hnew
  split at hnew
  case h_1 => cases hnew
  case h_2 inner p₁ hmap =>
      rcases hlock : p₁.osLock K inner.region with ⟨_ | _, p₂⟩
      · simp only [hlock] at hnew
        split at hnew
        · cases hnew
        · cases hnew
      · simp only [hlock] at hnew
        cases hnew
        exact ⟨p₁, hmap, hlock⟩

end LockedMmapBacked

/-! ## The slot after a failure -/

theorem failures_osUnmap (K : Kernel) (b : Block) (p : OsProcess) :
    ∃ later, (p.osUnmap K b).failures = later ++ p.failures := by
  unfold OsProcess.osUnmap
  split
  case h_1 code _ => exact ⟨[code], rfl⟩
  case h_2 => exact ⟨[], rfl⟩

theorem slot_osMap {len flags : Nat} {place : ℕ+} (hmap : p.osMap K len flags = (some place, q)) :
    q.lastOsError = p.lastOsError ∧ q.failures = p.failures := by
  unfold OsProcess.osMap at hmap
  split at hmap
  · cases hmap
  · cases hmap
    exact ⟨rfl, rfl⟩

theorem reports_of_capture {α : Type} {r : Option α × OsProcess}
    (hnone : r.1 = none → ∃ code, r.2 = p.captureOsError code)
    (hsome : ∀ v, r.1 = some v → ∃ (place : ℕ+) (len flags : Nat),
      p.osMap K len flags = (some place, r.2)) : Reports p r.2 r.1.isSome := by
  obtain ⟨v, q⟩ := r
  cases v with
  | none =>
      obtain ⟨code, rfl⟩ := hnone rfl
      exact rootCause_captureOsError code p
  | some v =>
      obtain ⟨place, len, flags, hmap⟩ := hsome v rfl
      exact slot_osMap hmap

theorem MmapBacked.reports_withFlagsIn (w : Nat) (t : Target) (K : Kernel) (p : OsProcess)
    (size : Nat) (lazyCommit : Bool) (answers : List Bool) :
    Reports p (withFlagsIn w t K size lazyCommit answers p).2
      (withFlagsIn w t K size lazyCommit answers p).1.isSome := by
  refine reports_of_capture (K := K) (fun hnone => withFlagsIn_none (Prod.ext hnone rfl)) ?_
  intro m hsome
  obtain ⟨place, hmap, -⟩ := withFlagsIn_some (Prod.ext hsome rfl)
  exact ⟨place, m.len, 0, hmap⟩

theorem HugePageBacked.reports_withHugePageSize (w : Nat) (t : Target) (K : Kernel) (p : OsProcess)
    (minSize hpSize : Nat) :
    Reports p (withHugePageSize w t K minSize hpSize p).2
      (withHugePageSize w t K minSize hpSize p).1.isSome := by
  refine reports_of_capture (K := K) (fun hnone => withHugePageSize_none (Prod.ext hnone rfl)) ?_
  intro m hsome
  obtain ⟨place, flags, -, hmap, -⟩ := osMap_of_some (Prod.ext hsome rfl)
  exact ⟨place, m.len, flags, hmap⟩

/-- **The cause survives the clean-up**: the slot has the code of the lock even if the unmapping
that follows fails too. -/
theorem LockedMmapBacked.reports_new (w : Nat) (t : Target) (K : Kernel) (p : OsProcess)
    (size : Nat) : Reports p (new w t K size p).2 (new w t K size p).1.isSome := by
  rcases hnew : new w t K size p with ⟨_ | m, q⟩
  · rcases new_none hnew with ⟨code, rfl⟩ | ⟨inner, p₁, code, hmap, -, rfl⟩
    · exact rootCause_captureOsError code p
    · obtain ⟨place, hplace, -⟩ := MmapBacked.withFlagsIn_some hmap
      obtain ⟨-, hfailures⟩ := slot_osMap hplace
      obtain ⟨later, hlater⟩ := failures_osUnmap K inner.region (p₁.captureOsError code)
      refine ⟨code, later, ?_, rfl⟩
      calc (OsProcess.osUnmap K inner.region (p₁.captureOsError code)).failures
          = later ++ code :: p₁.failures := hlater
        _ = later ++ code :: p.failures := by rw [hfailures]
  · obtain ⟨p₁, hmap, hlock⟩ := new_some hnew
    obtain ⟨place, hplace, -⟩ := MmapBacked.withFlagsIn_some hmap
    obtain ⟨hslot, hfailures⟩ := slot_osMap hplace
    unfold OsProcess.osLock at hlock
    split at hlock
    · cases hlock
    · cases hlock
      exact ⟨hslot, hfailures⟩

/-- **What the constructors report.** For every system: one that succeeds leaves the error slot as it
was, and one that fails leaves there the code of what failed first, be it a check of its arguments
or a call, whatever the clean-up meets after it. -/
theorem new_reports (w : Nat) (t : Target) (K : Kernel) (p : OsProcess) :
    (∀ size lazyCommit answers,
        Reports p (MmapBacked.withFlagsIn w t K size lazyCommit answers p).2
          (MmapBacked.withFlagsIn w t K size lazyCommit answers p).1.isSome) ∧
      (∀ size, Reports p (LockedMmapBacked.new w t K size p).2
        (LockedMmapBacked.new w t K size p).1.isSome) ∧
      ∀ minSize hpSize, Reports p (HugePageBacked.withHugePageSize w t K minSize hpSize p).2
        (HugePageBacked.withHugePageSize w t K minSize hpSize p).1.isSome :=
  ⟨MmapBacked.reports_withFlagsIn w t K p, LockedMmapBacked.reports_new w t K p,
    HugePageBacked.reports_withHugePageSize w t K p⟩

end ForgeAlloc
