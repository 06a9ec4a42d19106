import ForgeAlloc.Core.Carving
import ForgeAlloc.Library.PackedWord

set_option autoImplicit false

/-! # `CacheJitter`

A request whose alignment is at most a cache line is served from a larger block of the inner
allocator, one line and a random number of further lines after its start; any other request goes
through unchanged. The word before the block is the header: the displacement in lines in the low
16 bits and a keyed code of the block's address and displacement in the high 48. `deallocate`
recovers the inner block from the header.

The parameters that never change carry the tests of `with_params` as fields (`JitterParams`).
A displacement is a multiple of the line within the window (`nextDisplacement_le`,
`dvd_nextDisplacement`), packing one and unpacking it gives it back (`unpack_pack`), and a header
that is accepted is the packed one of its displacement if no shift of a 16-bit field by the line
leaves the word (`eq_pack_of_unpack`).
-/

namespace ForgeAlloc

open MachineInt ByteMemory PackedWord

/-- `JITTER_HEADER_SIZE`. -/
def jitterHeaderSize : Nat := 8

/-- `HEADER_DISP_BITS`. -/
def headerDispBits : Nat := 16

/-- `HEADER_DISP_MASK`. -/
def headerDispMask : BitVec 64 := lowMask 64 headerDispBits

/-- `MAX_ASSOCIATIVITY`. -/
def maxAssociativity : Nat := 2 ^ headerDispBits - 1

/-- The parameters of a wrapper, which never change. -/
structure JitterParams (w : Nat) where
  cacheLineSize : Nat
  associativity : Nat
  lineShift : Nat
  macKey : BitVec 64
  line_pow : cacheLineSize.isPowerOfTwo
  header_le : 8 ≤ cacheLineSize
  associativity_pos : 0 < associativity
  associativity_le : associativity ≤ maxAssociativity
  window_lt : cacheLineSize * associativity < 2 ^ w
  lineShift_eq : lineShift = trailingZeros w cacheLineSize

structure CacheJitter (w : Nat) (σ : Type) extends JitterParams w where
  inner : σ
  rng : BitVec 64

/-- Where `deallocate` panics. -/
inductive JitterPanic
  | innerLayout
  | header
  deriving DecidableEq, Repr

/-- The message of a release build. -/
def JitterPanic.message : JitterPanic → String
  | .innerLayout =>
      "CacheJitter::deallocate: inner_layout_for(layout) failed for a layout that succeeded at " ++
        "allocate-time — caller passed a different layout than the one used to allocate"
  | .header =>
      "CacheJitter::deallocate: prefix header MAC failed — heap corruption (linear underflow " ++
        "into prefix, or UAF prefix write)"

/-! ## The parameters -/

namespace JitterParams

variable {w : Nat} (p : JitterParams w)

def maxDisplacement : Nat := (p.associativity - 1) * p.cacheLineSize

/-- The bytes before the block: a line for the header and room for the displacement. -/
def jitterPrefix : Nat := p.cacheLineSize + p.maxDisplacement

/-- A mixed value of the address and the displacement under the key. -/
def headerMix (userPtrAddr : Nat) (dispLines : BitVec 64) : BitVec 64 :=
  let x := p.macKey ^^^ BitVec.ofNat 64 userPtrAddr
  let x := x * 0x9E3779B97F4A7C15#64
  let x := x ^^^ x.rotateLeft 31
  let x := x ^^^ dispLines
  let x := x * 0xBF58476D1CE4E5B9#64
  let x := x ^^^ (x >>> 27)
  let x := x * 0x94D049BB133111EB#64
  x ^^^ (x >>> 31)

def packHeader (userPtrAddr dispBytes : Nat) : BitVec 64 :=
  let dispLines := BitVec.ofNat 64 (dispBytes >>> p.lineShift)
  let mac48 := p.headerMix userPtrAddr dispLines >>> headerDispBits
  (mac48 <<< headerDispBits) ||| (dispLines &&& headerDispMask)

/-- The displacement in bytes is computed with the shift of the machine word, which drops what it
moves out. -/
def unpackHeader (userPtrAddr : Nat) (header : BitVec 64) : Option Nat :=
  let dispLines := header &&& headerDispMask
  let expectedMac48 := p.headerMix userPtrAddr dispLines >>> headerDispBits
  let storedMac48 := header >>> headerDispBits
  if storedMac48 = expectedMac48 then
    let dispBytes := ((dispLines.toNat % 2 ^ w) <<< p.lineShift) % 2 ^ w
    if dispBytes ≤ p.maxDisplacement then some dispBytes else none
  else none

/-- `inner_layout_for`: `none` if the request is not jittered, `some none` if there is no layout. -/
def innerLayoutFor (l : NonZeroLayout w) : Option (Option (NonZeroLayout w)) :=
  if p.cacheLineSize < l.align then none
  else some ((checkedAdd w l.size p.jitterPrefix).bind fun total =>
    NonZeroLayout.fromSizeAlign w total p.cacheLineSize)

end JitterParams

namespace JitterParams

variable {w : Nat} {p : JitterParams w}

/-! ## Headers -/

theorem cacheLineSize_lt (p : JitterParams w) : p.cacheLineSize < 2 ^ w :=
  (Nat.le_mul_of_pos_right _ p.associativity_pos).trans_lt p.window_lt

/-- The line is `2 ^ lineShift`, within the word. -/
theorem cacheLineSize_eq (p : JitterParams w) :
    p.cacheLineSize = 2 ^ p.lineShift ∧ p.lineShift < w := by
  obtain ⟨k, hk⟩ := p.line_pow
  have hlt : k < w := by
    have hline := p.cacheLineSize_lt
    rw [hk] at hline
    exact (Nat.pow_lt_pow_iff_right (by decide)).mp hline
  have hshift : p.lineShift = k := by rw [p.lineShift_eq, hk, trailingZeros_two_pow hlt]
  rw [hshift]
  exact ⟨hk, hlt⟩

/-- A displacement in the window is a number of lines that the field of the header can hold. -/
theorem exists_lines {d : Nat} (hle : d ≤ p.maxDisplacement) (hdvd : p.cacheLineSize ∣ d) :
    ∃ k, d = k * p.cacheLineSize ∧ k < 2 ^ headerDispBits ∧ d < 2 ^ w ∧ k < 2 ^ w := by
  obtain ⟨k, rfl⟩ := hdvd
  have hline : 0 < p.cacheLineSize := Nat.pos_of_isPowerOfTwo p.line_pow
  have hk : k ≤ p.associativity - 1 := by
    rw [maxDisplacement, Nat.mul_comm] at hle
    exact Nat.le_of_mul_le_mul_right hle hline
  have hassoc := p.associativity_le
  have hpos := p.associativity_pos
  have hwindow := p.window_lt
  have hd : p.cacheLineSize * k ≤ p.cacheLineSize * p.associativity :=
    Nat.mul_le_mul_left _ (by omega)
  have hkd : k ≤ p.cacheLineSize * k := Nat.le_mul_of_pos_left k hline
  unfold maxAssociativity at hassoc
  exact ⟨k, Nat.mul_comm _ _, by omega, by omega, by omega⟩

/-- The header of `k` lines, as two fields. -/
theorem packHeader_mul (p : JitterParams w) (addr k : Nat) :
    p.packHeader addr (k * p.cacheLineSize) =
      pack headerDispBits (p.headerMix addr (BitVec.ofNat 64 k)) (BitVec.ofNat 64 k) := by
  have hshift : (k * p.cacheLineSize) >>> p.lineShift = k := by
    rw [p.cacheLineSize_eq.1, Nat.shiftRight_eq_div_pow, Nat.mul_div_cancel _ (Nat.two_pow_pos _)]
  rw [packHeader, hshift]
  rfl

/-- What a header has to be for its displacement to be recovered. -/
theorem unpackHeader_eq_some {addr : Nat} {header : BitVec 64} {d : Nat} :
    p.unpackHeader addr header = some d ↔
      high headerDispBits header =
          high headerDispBits (p.headerMix addr (low headerDispBits header)) ∧
        d = ((low headerDispBits header).toNat % 2 ^ w * p.cacheLineSize) % 2 ^ w ∧
        d ≤ p.maxDisplacement := by
  have hbytes : (((header &&& headerDispMask).toNat % 2 ^ w) <<< p.lineShift) % 2 ^ w =
      ((low headerDispBits header).toNat % 2 ^ w * p.cacheLineSize) % 2 ^ w := by
    rw [Nat.shiftLeft_eq, ← p.cacheLineSize_eq.1]
    rfl
  simp only [unpackHeader, hbytes]
  constructor
  · intro h
    split at h
    case isTrue hmac =>
        split at h
        case isTrue hle =>
            cases h
            exact ⟨hmac, rfl, hle⟩
        case isFalse => cases h
    case isFalse => cases h
  · rintro ⟨hmac, rfl, hle⟩
    exact (if_pos hmac).trans (if_pos hle)

/-- **Packing and unpacking**: the displacement of an allocation is recovered. -/
theorem unpack_pack {addr d : Nat} (hle : d ≤ p.maxDisplacement) (hdvd : p.cacheLineSize ∣ d) :
    p.unpackHeader addr (p.packHeader addr d) = some d := by
  obtain ⟨k, rfl, hk, hd, hkw⟩ := exists_lines hle hdvd
  have hlow : low headerDispBits (p.packHeader addr (k * p.cacheLineSize)) = BitVec.ofNat 64 k := by
    rw [packHeader_mul, low_pack, low_ofNat (by decide) hk]
  have hnat : (BitVec.ofNat 64 k).toNat = k := by
    rw [BitVec.toNat_ofNat]
    exact Nat.mod_eq_of_lt (hk.trans_le (by decide))
  rw [unpackHeader_eq_some, hlow, hnat, Nat.mod_eq_of_lt hkw, Nat.mod_eq_of_lt hd]
  refine ⟨?_, rfl, hle⟩
  rw [packHeader_mul, high_pack]

/-- **Only the packed header is accepted**, if no 16-bit number of lines leaves the word. -/
theorem eq_pack_of_unpack (hline : p.cacheLineSize * 2 ^ headerDispBits ≤ 2 ^ w) {addr d : Nat}
    {header : BitVec 64} (hunpack : p.unpackHeader addr header = some d) :
    header = p.packHeader addr d := by
  obtain ⟨hmac, hd, -⟩ := unpackHeader_eq_some.mp hunpack
  have hlines : (low headerDispBits header).toNat < 2 ^ headerDispBits := by
    rw [toNat_low (by decide)]
    exact Nat.mod_lt _ (by decide)
  have hpos : 0 < p.cacheLineSize := Nat.pos_of_isPowerOfTwo p.line_pow
  have hprod : (low headerDispBits header).toNat * p.cacheLineSize < 2 ^ w := by
    calc (low headerDispBits header).toNat * p.cacheLineSize
        < 2 ^ headerDispBits * p.cacheLineSize := Nat.mul_lt_mul_of_pos_right hlines hpos
      _ ≤ 2 ^ w := by rwa [Nat.mul_comm]
  have hself : (low headerDispBits header).toNat ≤
      (low headerDispBits header).toNat * p.cacheLineSize := Nat.le_mul_of_pos_right _ hpos
  rw [Nat.mod_eq_of_lt (hself.trans_lt hprod), Nat.mod_eq_of_lt hprod] at hd
  rw [hd, packHeader_mul, BitVec.ofNat_toNat, BitVec.setWidth_eq]
  apply ext_fields (k := headerDispBits)
  · rw [low_pack, low_low]
  · rw [high_pack]
    exact hmac

/-- A header that differs from the packed one in the code only is rejected, whatever the line. -/
theorem unpack_of_changed_mac {addr d : Nat} {header : BitVec 64} (hle : d ≤ p.maxDisplacement)
    (hdvd : p.cacheLineSize ∣ d)
    (hlow : low headerDispBits header = low headerDispBits (p.packHeader addr d))
    (hne : header ≠ p.packHeader addr d) : p.unpackHeader addr header = none := by
  obtain ⟨k, rfl, hk, -, -⟩ := exists_lines hle hdvd
  rcases hunpack : p.unpackHeader addr header with _ | d'
  · rfl
  · exfalso
    obtain ⟨hmac, -, -⟩ := unpackHeader_eq_some.mp hunpack
    refine hne (ext_fields hlow ?_)
    rw [packHeader_mul, low_pack, low_ofNat (by decide) hk] at hlow
    rw [hmac, hlow, packHeader_mul, high_pack]

/-- **Another header is accepted** at every address when a 16-bit number of lines can leave the
word: the shift drops the bits of the displacement that the window test would have refused. -/
theorem exists_forged (hline : 2 ^ w < p.cacheLineSize * 2 ^ headerDispBits) (addr : Nat) :
    ∃ header, p.unpackHeader addr header = some 0 ∧ header ≠ p.packHeader addr 0 := by
  obtain ⟨hsize, hshift⟩ := p.cacheLineSize_eq
  have hpow : 2 ^ w = 2 ^ (w - p.lineShift) * p.cacheLineSize := by
    rw [hsize, ← pow_add, Nat.sub_add_cancel (Nat.le_of_lt hshift)]
  have hpos : 0 < p.cacheLineSize := Nat.pos_of_isPowerOfTwo p.line_pow
  -- that many lines are one word, and they fit into the field
  have hlines : 2 ^ (w - p.lineShift) < 2 ^ headerDispBits := by
    rw [hpow, Nat.mul_comm] at hline
    exact Nat.lt_of_mul_lt_mul_left hline
  have hlt : 2 ^ (w - p.lineShift) < 2 ^ w := by
    have hheader := p.header_le
    have hone : 0 < 2 ^ (w - p.lineShift) := Nat.two_pow_pos _
    rw [hpow]
    exact lt_mul_of_one_lt_right hone (by omega)
  have hnat : (BitVec.ofNat 64 (2 ^ (w - p.lineShift))).toNat = 2 ^ (w - p.lineShift) := by
    rw [BitVec.toNat_ofNat]
    exact Nat.mod_eq_of_lt (hlines.trans_le (by decide))
  let lines := BitVec.ofNat 64 (2 ^ (w - p.lineShift))
  have hlow : low headerDispBits (pack headerDispBits (p.headerMix addr lines) lines) = lines := by
    rw [low_pack, low_ofNat (by decide) hlines]
  refine ⟨pack headerDispBits (p.headerMix addr lines) lines, ?_, fun heq => ?_⟩
  · rw [unpackHeader_eq_some, hlow, hnat, Nat.mod_eq_of_lt hlt, ← hpow, Nat.mod_self]
    exact ⟨high_pack .., rfl, Nat.zero_le _⟩
  · have hzero : low headerDispBits (p.packHeader addr 0) = BitVec.ofNat 64 0 := by
      have hpack := p.packHeader_mul addr 0
      rw [Nat.zero_mul] at hpack
      rw [hpack, low_pack, low_ofNat (by decide) (Nat.two_pow_pos _)]
    have hsame : lines = BitVec.ofNat 64 0 := by
      rw [← hlow, heq, hzero]
    have hval := congrArg BitVec.toNat hsame
    rw [hnat] at hval
    exact absurd hval (Nat.two_pow_pos _).ne'

end JitterParams

/-! ## The wrapper -/

namespace CacheJitter

variable {w : Nat} {σ : Type}

/-- The key that `with_params` derives from the seed, by a step of splitmix64. -/
def deriveMacKey (seed : BitVec 64) : BitVec 64 :=
  let x := seed + 0x9E3779B97F4A7C15#64
  let x := (x ^^^ (x >>> 30)) * 0xBF58476D1CE4E5B9#64
  let x := (x ^^^ (x >>> 27)) * 0x94D049BB133111EB#64
  x ^^^ (x >>> 31)

/-- `CacheJitter::with_params`. -/
def withParams (w : Nat) (inner : σ) (cacheLineSize associativity : Nat) (seed : BitVec 64) :
    Option (CacheJitter w σ) :=
  if hline : cacheLineSize.isPowerOfTwo ∧ 8 ≤ cacheLineSize then
    if hassoc : 0 < associativity ∧ associativity ≤ maxAssociativity then
      match hwindow : checkedMul w cacheLineSize associativity with
      | none => none
      | some _ =>
          let seed := if seed = 0#64 then 0x9E3779B97F4A7C15#64 else seed
          some
            { cacheLineSize, associativity, inner
              lineShift := trailingZeros w cacheLineSize
              macKey := deriveMacKey seed
              rng := seed
              line_pow := hline.1
              header_le := hline.2
              associativity_pos := hassoc.1
              associativity_le := hassoc.2
              window_lt := (checkedMul_eq_some.mp hwindow).1
              lineShift_eq := rfl }
    else none
  else none

/-- `next_rng`: a step of xorshift64. -/
def nextRng (x : BitVec 64) : BitVec 64 :=
  let x := x ^^^ (x <<< 13)
  let x := x ^^^ (x >>> 7)
  x ^^^ (x <<< 17)

/-- `next_displacement`, for the output `r` of the generator: `(r * associativity) >> 64` lines. -/
def nextDisplacement (p : JitterParams w) (r : BitVec 64) : Nat :=
  ((r.toNat * p.associativity) >>> 64) % 2 ^ w * p.cacheLineSize

def deallocate (A : Allocator w σ) (ptr : Nat) (l : NonZeroLayout w) (h : Heap (CacheJitter w σ)) :
    Option JitterPanic × Heap (CacheJitter w σ) :=
  match h.alloc.innerLayoutFor l with
  | none =>
      let h' := A.deallocate ptr l (h.map CacheJitter.inner)
      (none, ⟨{ h.alloc with inner := h'.alloc }, h'.mem⟩)
  | some none => (some .innerLayout, h)
  | some (some il) =>
      let header := BitVec.ofNat 64 (readU64 h.mem (ptr - jitterHeaderSize))
      match h.alloc.unpackHeader ptr header with
      | none => (some .header, h)
      | some displacement =>
          let innerPtr := ptr - (h.alloc.cacheLineSize + displacement)
          let h' := A.deallocate innerPtr il (h.map CacheJitter.inner)
          (none, ⟨{ h.alloc with inner := h'.alloc }, h'.mem⟩)

def allocate (A : Allocator w σ) (l : NonZeroLayout w) (h : Heap (CacheJitter w σ)) :
    Option Block × Heap (CacheJitter w σ) :=
  match h.alloc.innerLayoutFor l with
  | none =>
      let (r, h') := A.allocate l (h.map CacheJitter.inner)
      (r, ⟨{ h.alloc with inner := h'.alloc }, h'.mem⟩)
  | some none => (none, h)
  | some (some il) =>
      match A.allocate il (h.map CacheJitter.inner) with
      | (none, h') => (none, ⟨{ h.alloc with inner := h'.alloc }, h'.mem⟩)
      | (some block, h') =>
          let rng := nextRng h.alloc.rng
          let displacement := nextDisplacement h.alloc.toJitterParams rng
          let userPtr := block.ptr + (h.alloc.cacheLineSize + displacement)
          let header := h.alloc.packHeader userPtr displacement
          let m := writeU64 h'.mem (userPtr - jitterHeaderSize) header.toNat
          (some ⟨userPtr, l.size⟩, ⟨{ h.alloc with inner := h'.alloc, rng := rng }, m⟩)

/-- The inner block that serves a request. -/
def serves (A : Allocator w σ) (l : NonZeroLayout w) (h : Heap (CacheJitter w σ)) :
    Option (Grant w) := do
  let il ← (h.alloc.innerLayoutFor l).getD (some l)
  let block ← (A.allocate il (h.map CacheJitter.inner)).1
  some ⟨block, il⟩

def guard (A : Allocator w σ) : Guard w σ (CacheJitter w σ) (JitterParams w) JitterPanic where
  inner := CacheJitter.inner
  key := CacheJitter.toJitterParams
  allocate := allocate A
  deallocate := deallocate A
  serves := serves A

end CacheJitter

end ForgeAlloc
