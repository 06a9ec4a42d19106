import Mathlib

set_option autoImplicit false

/-! # Byte-addressed memory and blocks of addresses

Memory is a total map from addresses to bytes. A `Block` is a half-open range of addresses,
given by its first address and its length; `Block.bytes` is the set of addresses it covers, so
that disjointness and containment are those of sets and the empty block is inside every region
and disjoint from everything.

Words of four and of eight bytes are stored little-endian (`readU32`, `writeU32`, `readU64`,
`writeU64`). Each write comes with its frame lemma: the addresses outside the range it names keep
their bytes.
-/

namespace ByteMemory

/-- The contents of the address space. -/
abbrev Mem := Nat → UInt8

/-! ## Blocks -/

/-- The range of `len` addresses that starts at `ptr`. -/
structure Block where
  ptr : Nat
  len : Nat
  deriving DecidableEq, Repr

/-- The addresses of a block. -/
def Block.bytes (b : Block) : Set Nat := Set.Ico b.ptr (b.ptr + b.len)

@[simp] theorem Block.mem_bytes {b : Block} {a : Nat} :
    a ∈ b.bytes ↔ b.ptr ≤ a ∧ a < b.ptr + b.len := Iff.rfl

instance (b : Block) (a : Nat) : Decidable (a ∈ b.bytes) :=
  inferInstanceAs (Decidable (b.ptr ≤ a ∧ a < b.ptr + b.len))

theorem Block.disjoint_iff {b c : Block} :
    Disjoint b.bytes c.bytes ↔
      b.len = 0 ∨ c.len = 0 ∨ b.ptr + b.len ≤ c.ptr ∨ c.ptr + c.len ≤ b.ptr := by
  rw [Block.bytes, Block.bytes, Set.Ico_disjoint_Ico]
  omega

theorem Block.disjoint_of_le {b c : Block} (h : b.ptr + b.len ≤ c.ptr ∨ c.ptr + c.len ≤ b.ptr) :
    Disjoint b.bytes c.bytes := by
  rw [Block.disjoint_iff]
  omega

/-- Every byte of the block is in `[base, base + len)`. -/
def Block.Within (b : Block) (base len : Nat) : Prop := b.bytes ⊆ Set.Ico base (base + len)

theorem Block.within_of_le {b : Block} {base len : Nat} (h : base ≤ b.ptr)
    (h' : b.ptr + b.len ≤ base + len) : b.Within base len := by
  intro a ha
  rw [Block.mem_bytes] at ha
  rw [Set.mem_Ico]
  omega

theorem Block.within_iff {b : Block} {base len : Nat} (hb : 0 < b.len) :
    b.Within base len ↔ base ≤ b.ptr ∧ b.ptr + b.len ≤ base + len := by
  constructor
  · intro h
    have hfst : b.ptr ∈ Set.Ico base (base + len) := h ⟨le_rfl, by omega⟩
    have hlst : b.ptr + b.len - 1 ∈ Set.Ico base (base + len) := h ⟨by omega, by omega⟩
    rw [Set.mem_Ico] at hfst hlst
    omega
  · rintro ⟨h, h'⟩
    exact Block.within_of_le h h'

theorem Block.Within.mono {b : Block} {base len len' : Nat} (h : b.Within base len)
    (hle : len ≤ len') : b.Within base len' :=
  h.trans (Set.Ico_subset_Ico_right (Nat.add_le_add_left hle base))

/-- A block from the end of a region on is disjoint from everything in the region. -/
theorem Block.Within.disjoint_of_ge {b c : Block} {base len : Nat} (h : c.Within base len)
    (hb : b.len = 0 ∨ base + len ≤ b.ptr) : Disjoint b.bytes c.bytes := by
  rw [Set.disjoint_left]
  intro x hxb hxc
  have hlt := (h hxc).2
  rw [Block.mem_bytes] at hxb
  omega

/-- The bytes of disjoint blocks, counted. -/
theorem exists_finset_bytes {bs : List Block}
    (hdisj : bs.Pairwise fun b c => Disjoint b.bytes c.bytes) :
    ∃ F : Finset Nat, (∀ x, x ∈ F ↔ ∃ b ∈ bs, x ∈ b.bytes) ∧ F.card = (bs.map Block.len).sum := by
  induction bs with
  | nil => exact ⟨∅, by simp, rfl⟩
  | cons b bs ih =>
      obtain ⟨hhead, htail⟩ := List.pairwise_cons.mp hdisj
      obtain ⟨F, hmem, hcard⟩ := ih htail
      have hdisjoint : Disjoint (Finset.Ico b.ptr (b.ptr + b.len)) F := by
        rw [Finset.disjoint_left]
        intro x hx hxF
        obtain ⟨c, hc, hxc⟩ := (hmem x).mp hxF
        exact Set.disjoint_left.mp (hhead c hc) (Finset.mem_Ico.mp hx) hxc
      refine ⟨Finset.Ico b.ptr (b.ptr + b.len) ∪ F, fun x => ?_, ?_⟩
      · rw [Finset.mem_union, hmem, Finset.mem_Ico, List.exists_mem_cons_iff]
        exact Iff.rfl
      · rw [Finset.card_union_of_disjoint hdisjoint, hcard, Nat.card_Ico, List.map_cons,
          List.sum_cons, Nat.add_sub_cancel_left]

/-- Disjoint blocks inside a range are together no longer than the range. -/
theorem sum_len_le {bs : List Block} (hdisj : bs.Pairwise fun b c => Disjoint b.bytes c.bytes)
    {lo hi : Nat} (hin : ∀ b ∈ bs, b.bytes ⊆ Set.Ico lo hi) : (bs.map Block.len).sum ≤ hi - lo := by
  obtain ⟨F, hmem, hcard⟩ := exists_finset_bytes hdisj
  rw [← hcard, ← Nat.card_Ico]
  refine Finset.card_le_card fun x hx => ?_
  obtain ⟨b, hb, hxb⟩ := (hmem x).mp hx
  exact Finset.mem_Ico.mpr (hin b hb hxb)

/-- Addresses that lie in some blocks are no more than the blocks are long. -/
theorem card_le_sum_len {F : Finset Nat} {cs : List Block}
    (hin : ∀ x ∈ F, ∃ c ∈ cs, x ∈ c.bytes) : F.card ≤ (cs.map Block.len).sum := by
  induction cs generalizing F with
  | nil =>
      have hempty : F = ∅ := Finset.eq_empty_of_forall_notMem fun x hx => by
        obtain ⟨c, hc, -⟩ := hin x hx
        cases hc
      rw [hempty, Finset.card_empty]
      exact Nat.zero_le _
  | cons c cs ih =>
      have hrest := @ih (F \ Finset.Ico c.ptr (c.ptr + c.len)) fun x hx => by
        obtain ⟨hx, hout⟩ := Finset.mem_sdiff.mp hx
        obtain ⟨d, hd, hxd⟩ := hin x hx
        rcases List.mem_cons.mp hd with rfl | hd
        · exact absurd (Finset.mem_Ico.mpr hxd) hout
        · exact ⟨d, hd, hxd⟩
      calc F.card ≤ (Finset.Ico c.ptr (c.ptr + c.len)).card +
            (F \ Finset.Ico c.ptr (c.ptr + c.len)).card :=
              Nat.add_comm _ _ ▸ Finset.card_le_card_sdiff_add_card
        _ ≤ c.len + (cs.map Block.len).sum := by
              rw [Nat.card_Ico, Nat.add_sub_cancel_left]
              exact Nat.add_le_add_left hrest _
        _ = ((c :: cs).map Block.len).sum := by rw [List.map_cons, List.sum_cons]

/-- Disjoint blocks inside others are together no longer than those. -/
theorem sum_len_le_sum_len {bs cs : List Block}
    (hdisj : bs.Pairwise fun b c => Disjoint b.bytes c.bytes)
    (hin : ∀ b ∈ bs, ∃ c ∈ cs, b.bytes ⊆ c.bytes) :
    (bs.map Block.len).sum ≤ (cs.map Block.len).sum := by
  obtain ⟨F, hmem, hcard⟩ := exists_finset_bytes hdisj
  rw [← hcard]
  refine card_le_sum_len fun x hx => ?_
  obtain ⟨b, hb, hxb⟩ := (hmem x).mp hx
  obtain ⟨c, hc, hsub⟩ := hin b hb
  exact ⟨c, hc, hsub hxb⟩

/-! ## Writes -/

def writeByte (m : Mem) (a : Nat) (v : UInt8) : Mem := Function.update m a v

theorem writeByte_of_ne {m : Mem} {a x : Nat} (v : UInt8) (h : x ≠ a) :
    writeByte m a v x = m x := by
  unfold writeByte
  rw [Function.update_of_ne h]

/-- Store the bytes `bs` from address `a` on. -/
def writeBytes (m : Mem) (a : Nat) (bs : List UInt8) : Mem :=
  fun x => if a ≤ x ∧ x < a + bs.length then bs.getD (x - a) 0 else m x

theorem writeBytes_of_not_mem {m : Mem} {a x : Nat} {bs : List UInt8}
    (h : ¬ (a ≤ x ∧ x < a + bs.length)) : writeBytes m a bs x = m x := if_neg h

theorem writeBytes_add {m : Mem} {a i : Nat} {bs : List UInt8} (h : i < bs.length) :
    writeBytes m a bs (a + i) = bs.getD i 0 := by
  rw [writeBytes, if_pos (by omega), Nat.add_sub_cancel_left]

/-- The same bytes go where the memories agree. -/
theorem writeBytes_eqOn {m m' : Mem} {Z : Set Nat} (h : Set.EqOn m' m Z) (a : Nat)
    (bs : List UInt8) : Set.EqOn (writeBytes m' a bs) (writeBytes m a bs) Z := by
  intro x hx
  unfold writeBytes
  split
  · rfl
  · exact h hx

/-- Store the byte `v` at `n` addresses from `a` on. -/
def fillBytes (m : Mem) (a n : Nat) (v : UInt8) : Mem := writeBytes m a (List.replicate n v)

theorem fillBytes_of_not_mem {m : Mem} {a n x : Nat} (v : UInt8) (h : ¬ (a ≤ x ∧ x < a + n)) :
    fillBytes m a n v x = m x :=
  writeBytes_of_not_mem (by rwa [List.length_replicate])

theorem fillBytes_add {m : Mem} {a n i : Nat} (v : UInt8) (h : i < n) :
    fillBytes m a n v (a + i) = v := by
  rw [fillBytes, writeBytes_add (by rwa [List.length_replicate])]
  simp [List.getD, h]

/-- Filling byte by byte. -/
theorem foldl_writeByte_eq (m : Mem) (a n : Nat) (v : UInt8) :
    (List.range n).foldl (fun m i => writeByte m (a + i) v) m = fillBytes m a n v := by
  induction n with
  | zero =>
      funext x
      rw [fillBytes_of_not_mem v (by omega)]
      rfl
  | succ n ih =>
      rw [List.range_succ, List.foldl_append, ih]
      funext x
      show writeByte (fillBytes m a n v) (a + n) v x = _
      by_cases hx : x = a + n
      · rw [hx, fillBytes_add v (Nat.lt_succ_self n), writeByte, Function.update_self]
      · rw [writeByte_of_ne v hx]
        by_cases hin : a ≤ x ∧ x < a + n
        · obtain ⟨i, rfl⟩ := Nat.exists_eq_add_of_le hin.1
          rw [fillBytes_add v (by omega), fillBytes_add v (by omega)]
        · rw [fillBytes_of_not_mem v hin, fillBytes_of_not_mem v (by omega)]

/-- Copy `n` bytes from `src` to `dst`. -/
def copyBytes (m : Mem) (src dst n : Nat) : Mem :=
  fun x => if dst ≤ x ∧ x < dst + n then m (src + (x - dst)) else m x

theorem copyBytes_of_not_mem {m : Mem} {src dst n x : Nat} (h : ¬ (dst ≤ x ∧ x < dst + n)) :
    copyBytes m src dst n x = m x := if_neg h

theorem copyBytes_add {m : Mem} {src dst n i : Nat} (h : i < n) :
    copyBytes m src dst n (dst + i) = m (src + i) := by
  rw [copyBytes, if_pos (by omega), Nat.add_sub_cancel_left]

/-! ## Runs of bytes -/

/-- The `n` bytes from address `a` on. -/
def readBytes (m : Mem) (a n : Nat) : List UInt8 := (List.range n).map fun i => m (a + i)

@[simp] theorem length_readBytes (m : Mem) (a n : Nat) : (readBytes m a n).length = n := by
  simp [readBytes]

/-- The same bytes at two addresses, in two memories. -/
theorem readBytes_congr {m m' : Mem} {a a' n : Nat} (h : ∀ i < n, m' (a' + i) = m (a + i)) :
    readBytes m' a' n = readBytes m a n :=
  List.map_congr_left fun i hi => h i (List.mem_range.mp hi)

theorem readBytes_add (m : Mem) (a n k : Nat) :
    readBytes m a (n + k) = readBytes m a n ++ readBytes m (a + n) k := by
  unfold readBytes
  rw [List.range_add, List.map_append, List.map_map]
  congr 1
  refine List.map_congr_left fun i _ => ?_
  exact congrArg m (Nat.add_assoc a n i).symm

theorem readBytes_writeBytes (m : Mem) (a : Nat) (bs : List UInt8) :
    readBytes (writeBytes m a bs) a bs.length = bs := by
  refine List.ext_getElem (length_readBytes _ _ _) fun i h h' => ?_
  simp only [readBytes, List.getElem_map, List.getElem_range]
  rw [writeBytes_add h', List.getD_eq_getElem _ _ h']

/-- What is written after the first `n` bytes is appended to them. -/
theorem readBytes_append (m : Mem) (a n : Nat) (bs : List UInt8) :
    readBytes (writeBytes m (a + n) bs) a (n + bs.length) = readBytes m a n ++ bs := by
  have hfst : readBytes (writeBytes m (a + n) bs) a n = readBytes m a n :=
    readBytes_congr fun i hi => writeBytes_of_not_mem (by omega)
  rw [readBytes_add, hfst, readBytes_writeBytes]

/-! ## Four-byte words -/

/-- The word stored at `a`. -/
def readU32 (m : Mem) (a : Nat) : Nat :=
  (m a).toNat + 2 ^ 8 * (m (a + 1)).toNat + 2 ^ 16 * (m (a + 2)).toNat
    + 2 ^ 24 * (m (a + 3)).toNat

/-- The four bytes of a word. -/
def bytesOfU32 (x : Nat) : List UInt8 :=
  [UInt8.ofNat x, UInt8.ofNat (x / 2 ^ 8), UInt8.ofNat (x / 2 ^ 16), UInt8.ofNat (x / 2 ^ 24)]

def writeU32 (m : Mem) (a x : Nat) : Mem := writeBytes m a (bytesOfU32 x)

theorem readU32_congr {m m' : Mem} {a : Nat} (h : ∀ x, a ≤ x → x < a + 4 → m' x = m x) :
    readU32 m' a = readU32 m a := by
  unfold readU32
  rw [h a (by omega) (by omega), h (a + 1) (by omega) (by omega), h (a + 2) (by omega) (by omega),
    h (a + 3) (by omega) (by omega)]

theorem writeU32_of_not_mem {m : Mem} {a v x : Nat} (h : ¬ (a ≤ x ∧ x < a + 4)) :
    writeU32 m a v x = m x := writeBytes_of_not_mem h

theorem readU32_writeU32_of_disjoint {m : Mem} {a b v : Nat} (h : a + 4 ≤ b ∨ b + 4 ≤ a) :
    readU32 (writeU32 m a v) b = readU32 m b :=
  readU32_congr fun _ _ _ => writeU32_of_not_mem (by omega)

theorem readU32_writeU32 {m : Mem} {a v : Nat} (hv : v < 2 ^ 32) :
    readU32 (writeU32 m a v) a = v := by
  have hbyte : ∀ i, i < 4 → writeU32 m a v (a + i) = (bytesOfU32 v).getD i 0 :=
    fun i hi => writeBytes_add hi
  have h0 := hbyte 0 (by decide)
  rw [Nat.add_zero] at h0
  rw [readU32, h0, hbyte 1 (by decide), hbyte 2 (by decide), hbyte 3 (by decide)]
  simp only [bytesOfU32, List.getD_cons_zero, List.getD_cons_succ, UInt8.toNat_ofNat']
  omega

/-! ## Eight-byte words -/

/-- The word stored at `a`, its low half first. -/
def readU64 (m : Mem) (a : Nat) : Nat := readU32 m a + 2 ^ 32 * readU32 m (a + 4)

def writeU64 (m : Mem) (a x : Nat) : Mem :=
  writeU32 (writeU32 m a (x % 2 ^ 32)) (a + 4) (x / 2 ^ 32)

theorem readU64_congr {m m' : Mem} {a : Nat} (h : ∀ x, a ≤ x → x < a + 8 → m' x = m x) :
    readU64 m' a = readU64 m a := by
  have hlow : readU32 m' a = readU32 m a := readU32_congr fun x hx hx' => h x hx (by omega)
  have hhigh : readU32 m' (a + 4) = readU32 m (a + 4) :=
    readU32_congr fun x hx hx' => h x (by omega) (by omega)
  rw [readU64, hlow, hhigh, readU64]

theorem writeU64_of_not_mem {m : Mem} {a v x : Nat} (h : ¬ (a ≤ x ∧ x < a + 8)) :
    writeU64 m a v x = m x := by
  rw [writeU64, writeU32_of_not_mem (by omega), writeU32_of_not_mem (by omega)]

theorem readU64_writeU64_of_disjoint {m : Mem} {a b v : Nat} (h : a + 8 ≤ b ∨ b + 8 ≤ a) :
    readU64 (writeU64 m a v) b = readU64 m b :=
  readU64_congr fun _ _ _ => writeU64_of_not_mem (by omega)

theorem readU64_writeU64 {m : Mem} {a v : Nat} (hv : v < 2 ^ 64) :
    readU64 (writeU64 m a v) a = v := by
  have hlow : readU32 (writeU64 m a v) a = v % 2 ^ 32 := by
    rw [writeU64, readU32_writeU32_of_disjoint (Or.inr le_rfl), readU32_writeU32 (by omega)]
  have hhigh : readU32 (writeU64 m a v) (a + 4) = v / 2 ^ 32 := readU32_writeU32 (by omega)
  rw [readU64, hlow, hhigh]
  omega

end ByteMemory
