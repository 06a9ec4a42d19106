import ForgeAlloc.Backing.OsProcess
import ForgeAlloc.Layout.Bump

set_option autoImplicit false

/-! # `HugePageBacked`

A mapping of large pages. The length that the system is asked for is rounded up to the granularity
of the platform, and on Linux the flags carry the logarithm of the page size: six bits from bit 26
on, from which the system reads it back (`pageSize_hugeFlag`). The two always agree
(`withHugePageSize_some`).

`allocate` is that of a `BumpArena` over the mapping (`allocate_toArena`).
-/

namespace ForgeAlloc

open MachineInt ByteMemory

structure HugePageBacked where
  ptr : Nat
  len : Nat
  /-- What the length is a multiple of. -/
  hugePageSize : Nat
  cursor : Nat
  ptr_pos : 0 < ptr

namespace HugePageBacked

variable {w : Nat}

/-- `default_huge_page_size`: 2 MiB. -/
def defaultHugePageSize : Nat := 2 * 1024 * 1024

/-- `rounding_granularity`: macOS maps superpages of 2 MiB only. -/
def roundingGranularity (t : Target) (hpSize : Nat) : Nat :=
  if t.platform = .macosX86 then
    if 2 * 1024 * 1024 < hpSize then hpSize else 2 * 1024 * 1024
  else hpSize

/-! ## The flags -/

/-- `encode_huge_size_linux`. The shift is made in 32 bits. -/
def encodeHugeSizeLinux (w hpSize : Nat) : Nat := trailingZeros w hpSize <<< 26 % 2 ^ 32

/-- The flags that ask for large pages; `none` where there is no call for them. -/
def hugeFlag (w : Nat) (t : Target) (hpSize : Nat) : Option Nat :=
  match t.platform with
  | .linux => some (0x40000 ||| encodeHugeSizeLinux w hpSize)
  | .macosX86 => some (1 <<< 16)
  | .windows => some 0x20000000
  | .otherUnix => none

/-- The page size that Linux reads from the flags. -/
def pageSizeOf (flags : Nat) : Nat := 2 ^ (flags >>> 26 % 2 ^ 6)

/-- `os_map_huge`. -/
def osMapHuge (w : Nat) (t : Target) (K : Kernel) (len hpSize : Nat) (p : OsProcess) :
    Option ℕ+ × OsProcess :=
  match hugeFlag w t hpSize with
  | none => (none, p.captureSyntheticEinval t)
  | some flags => p.osMap K len flags

/-- `HugePageBacked::with_huge_page_size`. -/
def withHugePageSize (w : Nat) (t : Target) (K : Kernel) (minSize hpSize : Nat) (p : OsProcess) :
    Option HugePageBacked × OsProcess :=
  if minSize = 0 ∨ hpSize < 4096 ∨ ¬ hpSize.isPowerOfTwo then (none, p.captureSyntheticEinval t)
  else
    let round := roundingGranularity t hpSize
    match checkedAdd w minSize (round - 1) with
    | none => (none, p.captureSyntheticEinval t)
    | some padded =>
        let len := maskDown w padded round
        match osMapHuge w t K len hpSize p with
        | (none, p) => (none, p)
        | (some place, p) => (some ⟨place, len, round, 0, place.pos⟩, p)

/-- `HugePageBacked::new`. -/
def new (w : Nat) (t : Target) (K : Kernel) (minSize : Nat) (p : OsProcess) :
    Option HugePageBacked × OsProcess :=
  withHugePageSize w t K minSize defaultHugePageSize p

def allocate (l : NonZeroLayout w) (h : Heap HugePageBacked) : Option Block × Heap HugePageBacked :=
  match chainedBump w h.alloc.ptr h.alloc.len h.alloc.cursor l.size l.align with
  | none => (none, h)
  | some (alignedOff, endOff) =>
      (some ⟨h.alloc.ptr + alignedOff, l.size⟩, ⟨{ h.alloc with cursor := endOff }, h.mem⟩)

def allocator (w : Nat) : Allocator w HugePageBacked where
  allocate := allocate
  deallocate := fun _ _ h => h
  grow := defaultGrow allocate (fun _ _ h => h)
  shrink := defaultShrink allocate (fun _ _ h => h)
  usableSize := fun _ _ _ => none

/-- The whole mapping is committed. -/
def range : FixedRange HugePageBacked where
  base := fun s => s.ptr
  size := fun s => s.len
  commit := fun _ _ s => (true, s)

/-! ## What the system is asked for -/

variable {t : Target} {K : Kernel} {p q : OsProcess} {minSize hpSize : Nat} {h : HugePageBacked}

/-- **The system reads the page size back** from the flags. -/
theorem pageSize_hugeFlag {k : Nat} (hw : w ≤ 64) (hk : k < w) :
    pageSizeOf (0x40000 ||| encodeHugeSizeLinux w (2 ^ k)) = 2 ^ k := by
  have hsmall : k < 2 ^ 6 := by omega
  have hbound : k * 2 ^ 26 < 2 ^ 32 := by omega
  have hencode : encodeHugeSizeLinux w (2 ^ k) = k <<< 26 := by
    rw [encodeHugeSizeLinux, trailingZeros_two_pow hk, Nat.shiftLeft_eq, Nat.mod_eq_of_lt hbound]
  -- the bit of `MAP_HUGETLB` is below those of the size
  have hread : (0x40000 ||| k <<< 26) >>> 26 = k := by
    rw [Nat.shiftRight_or_distrib, Nat.shiftLeft_shiftRight]
    exact Nat.zero_or k
  rw [pageSizeOf, hencode, hread, Nat.mod_eq_of_lt hsmall]

theorem le_roundingGranularity (t : Target) (hpSize : Nat) :
    hpSize ≤ roundingGranularity t hpSize := by
  unfold roundingGranularity
  split
  · split
    · exact le_rfl
    · omega
  · exact le_rfl

theorem isPowerOfTwo_roundingGranularity (t : Target) (hpow : hpSize.isPowerOfTwo) :
    (roundingGranularity t hpSize).isPowerOfTwo := by
  unfold roundingGranularity
  split
  · split
    · exact hpow
    · exact ⟨21, rfl⟩
  · exact hpow

theorem withHugePageSize_none (hnew : withHugePageSize w t K minSize hpSize p = (none, q)) :
    ∃ code, q = p.captureOsError code := by
  unfold withHugePageSize at hnew
  split at hnew
  · cases hnew
    exact ⟨_, rfl⟩
  · simp only at hnew
    split at hnew
    case h_1 =>
        cases hnew
        exact ⟨_, rfl⟩
    case h_2 padded _ =>
        split at hnew
        case h_1 p' hmap =>
            cases hnew
            unfold osMapHuge at hmap
            split at hmap
            case h_1 =>
                cases hmap
                exact ⟨_, rfl⟩
            case h_2 flags _ => exact OsProcess.eq_capture_of_osMap_none hmap
        case h_2 => cases hnew

/-- A mapping that is built is one that the system has made, of the length it was asked for. -/
theorem osMap_of_some (hnew : withHugePageSize w t K minSize hpSize p = (some h, q)) :
    ∃ (place : ℕ+) (flags : Nat), hugeFlag w t hpSize = some flags ∧
      p.osMap K h.len flags = (some place, q) ∧ h.ptr = place ∧ 0 < h.len ∧
      hpSize.isPowerOfTwo ∧ h.hugePageSize = roundingGranularity t hpSize ∧
      h.len = alignUp minSize h.hugePageSize := by
  unfold withHugePageSize at hnew
  split at hnew
  case isTrue => cases hnew
  case isFalse hok =>
      obtain ⟨hmin, -, hpow⟩ : minSize ≠ 0 ∧ 4096 ≤ hpSize ∧ hpSize.isPowerOfTwo := by
        simpa only [not_or, not_not, Nat.not_lt] using hok
      obtain ⟨k, hk⟩ := isPowerOfTwo_roundingGranularity t hpow
      have hpos : 0 < (2 : Nat) ^ k := Nat.two_pow_pos k
      simp only [hk] at hnew
      split at hnew
      case h_1 => cases hnew
      case h_2 padded hpadded =>
          obtain ⟨hlt, rfl⟩ := checkedAdd_eq_some.mp hpadded
          have hkw : k ≤ w := (Nat.pow_le_pow_iff_right (by decide : 1 < 2)).mp (by omega)
          rw [maskDown_add_pred hlt hkw] at hnew
          have hle : minSize ≤ alignUp minSize (2 ^ k) := le_alignUp hpos
          split at hnew
          case h_1 => cases hnew
          case h_2 place p' hmap =>
              cases hnew
              unfold osMapHuge at hmap
              split at hmap
              case h_1 => cases hmap
              case h_2 flags hflags =>
                  exact ⟨place, flags, hflags, hmap, rfl, by simp only; omega, hpow, hk.symm, rfl⟩

/-- **What a mapping of large pages is made of.** Its length is the least multiple of the granularity
that has room for the request; the granularity is a multiple of the page size asked for, and of a
superpage on macOS; on Linux the flags of the call select that page size. -/
theorem withHugePageSize_some (hw : w ≤ 64) (hhp : hpSize < 2 ^ w)
    (hnew : withHugePageSize w t K minSize hpSize p = (some h, q)) :
    h.len = alignUp minSize h.hugePageSize ∧ 0 < h.len ∧ hpSize ∣ h.hugePageSize ∧
      (t.platform = .macosX86 → 2 * 1024 * 1024 ∣ h.hugePageSize) ∧
      (t.platform = .linux → ∃ flags place, K.map p h.len flags = .ok place ∧
        h.ptr = place ∧ pageSizeOf flags = hpSize) := by
  obtain ⟨place, flags, hflags, hmap, hptr, hpos, hpow, hround, hlen⟩ := osMap_of_some hnew
  have hroundpow := isPowerOfTwo_roundingGranularity t hpow
  refine ⟨hlen, hpos, ?_, fun hmac => ?_, fun hlinux => ⟨flags, place, ?_, hptr, ?_⟩⟩
  · rw [hround]
    exact dvd_of_le_of_isPowerOfTwo hpow hroundpow (le_roundingGranularity t hpSize)
  · rw [hround]
    refine dvd_of_le_of_isPowerOfTwo ⟨21, rfl⟩ hroundpow ?_
    rw [roundingGranularity, if_pos hmac]
    split <;> omega
  · unfold OsProcess.osMap at hmap
    split at hmap
    case h_1 => cases hmap
    case h_2 place' hok =>
        cases hmap
        exact hok
  · rw [hugeFlag, hlinux] at hflags
    cases hflags
    obtain ⟨j, rfl⟩ := hpow
    have hj : j < w := (Nat.pow_lt_pow_iff_right (by decide : 1 < 2)).mp hhp
    exact pageSize_hugeFlag hw hj

/-- A system that grants everything. -/
def granting : Kernel where
  map := fun _ _ _ => .ok ⟨2 ^ 30, by decide⟩
  unmap := fun _ _ => none
  lock := fun _ _ => none
  unlock := fun _ _ => none
  mbind := fun _ _ _ => none

/-- A mapping for 5000 bytes is one page of 2 MiB, and the flags say so. -/
theorem withHugePageSize_some_granting : ∃ h q flags,
    new 64 ⟨.linux, 4096, isPowerOfTwo_smallPage⟩ granting 5000 .init = (some h, q) ∧
      h.len = 2 * 1024 * 1024 ∧ pageSizeOf flags = 2 * 1024 * 1024 := by
  have hnew : new 64 ⟨.linux, 4096, isPowerOfTwo_smallPage⟩ granting 5000 .init =
      (some ⟨2 ^ 30, 2 * 1024 * 1024, 2 * 1024 * 1024, 0, by decide⟩,
        ⟨[⟨2 ^ 30, 2 * 1024 * 1024⟩], [], [], none, []⟩) := by rfl
  obtain ⟨-, -, -, -, hflags⟩ := withHugePageSize_some (by decide) (by decide) hnew
  obtain ⟨flags, place, -, -, hsize⟩ := hflags rfl
  exact ⟨_, _, flags, hnew, rfl, hsize⟩

/-! ## The mapping as an arena -/

/-- The arena over the bare mapping. -/
def toArena (s : HugePageBacked) : BumpArena HugePageBacked :=
  ⟨{ s with cursor := 0 }, s.len, s.cursor⟩

def selfArena : SelfArena range toArena where
  commit := fun _ _ s => (true, s)
  advance := fun endOff s => { s with cursor := endOff }
  commit_eq := fun _ _ _ => rfl
  toArena_commit := fun _ _ _ => rfl
  toArena_advance := fun _ _ => rfl

theorem allocate_eq (l : NonZeroLayout w) (s : Heap HugePageBacked) :
    allocate l s = selfArena.allocate l s := by
  unfold allocate
  rw [chainedBump_eq]
  rfl

/-- **`HugePageBacked::allocate` is `BumpArena::allocate`** over the range of the mapping. -/
theorem allocate_toArena (l : NonZeroLayout w) (s : Heap HugePageBacked) :
    BumpArena.allocate range l (s.map toArena) =
      ((allocate l s).1, (allocate l s).2.map toArena) := by
  rw [allocate_eq]
  exact selfArena.allocate_toArena l s

theorem range_lawful : range.Lawful where
  base_pos := fun s => s.ptr_pos
  base_commit := fun _ _ _ => rfl
  size_commit := fun _ _ _ => rfl

/-- What holds of a mapping at `base` whose blocks `L` are out. -/
def Holds (w : Nat) (base : Nat) (s : Heap HugePageBacked) (L : Set (Grant w)) : Prop :=
  BumpArena.Holds range base (s.map toArena) L

/-- **`HugePageBacked` meets the `Allocator` contract.** -/
theorem honours (w : Nat) {base : Nat} (hbase : 0 < base) :
    Honours (allocator w) (Holds w base) := by
  have harena := BumpArena.honours (w := w) range_lawful base hbase
  have hcore : HonoursCore (allocator w) (Holds w base) :=
    harena.toHonoursCore.comap toArena allocate_toArena fun _ _ _ => rfl
  exact hcore.withDefaults rfl rfl fun _ _ heq => by cases heq

end HugePageBacked

end ForgeAlloc
