import ForgeAlloc.Core.Carving

set_option autoImplicit false

/-! # `Canary`

Each block is served from a larger block of the inner allocator. The words just before and just
after it hold the canary value and are checked when the block is freed:

    inner pointer, `max(8, align)` bytes of pad that end in the first word, block, second word.

The inner layout is computed from the user's at the allocation and again at the free, without
wrapping: its size is the sum of the parts or there is no inner layout (`innerLayout_eq_some`,
`innerLayout_eq_none_iff`). `Sealed` describes a block with its two words; `sound` says what the
calls do in terms of it and makes the wrapper an instance of `Guard`.
-/

namespace ForgeAlloc

open MachineInt ByteMemory

structure Canary (σ : Type) where
  inner : σ
  /-- The word stored on both sides. -/
  value : BitVec 64

/-- Where `deallocate` panics. -/
inductive CanaryPanic
  | preCanary
  | postCanary
  | innerLayout
  deriving DecidableEq, Repr

/-- The message of a release build. -/
def CanaryPanic.message : CanaryPanic → String
  | .preCanary => "canary corruption detected at pre-canary"
  | .postCanary => "canary corruption detected at post-canary"
  | .innerLayout =>
      "Canary::deallocate: inner_layout(layout) failed for a layout that succeeded at " ++
        "allocate-time — caller passed a different layout than the one used to allocate: AllocError"

namespace Canary

variable {w : Nat} {σ : Type}

/-- `Canary::new_with_seed`. -/
def newWithSeed (inner : σ) (seed : BitVec 64) : Canary σ :=
  ⟨inner, if seed = 0#64 then 0xCAFEBABEDEADBEEF#64 else seed⟩

def canaryValue (c : Canary σ) : BitVec 64 := c.value

/-- The bytes before the block. -/
def prePad (align : Nat) : Nat := if align < 8 then 8 else align

def innerLayout (l : NonZeroLayout w) : Option (NonZeroLayout w) := do
  let v ← checkedAdd w (prePad l.align) l.size
  let total ← checkedAdd w v 8
  NonZeroLayout.fromSizeAlign w total (max 8 l.align)

/-- `volatile_zero_canary`. -/
def volatileZeroCanary (m : Mem) (ptr : Nat) : Mem := writeBytes m ptr (List.replicate 8 0)

/-- `Canary::verify`: the word at `ptr` is the canary. -/
def verify (c : Canary σ) (m : Mem) (ptr : Nat) : Bool := readU64 m ptr == c.value.toNat

/-- A panic leaves the allocator underneath and the memory as they are at that point. -/
def deallocate (A : Allocator w σ) (ptr : Nat) (l : NonZeroLayout w) (h : Heap (Canary σ)) :
    Option CanaryPanic × Heap (Canary σ) :=
  let innerPtr := ptr - prePad l.align
  if !h.alloc.verify h.mem (ptr - 8) then (some .preCanary, h)
  else if !h.alloc.verify h.mem (ptr + l.size) then (some .postCanary, h)
  else
    let m := volatileZeroCanary (volatileZeroCanary h.mem (ptr - 8)) (ptr + l.size)
    match innerLayout l with
    | none => (some .innerLayout, ⟨h.alloc, m⟩)
    | some il =>
        let h' := A.deallocate innerPtr il ⟨h.alloc.inner, m⟩
        (none, ⟨{ h.alloc with inner := h'.alloc }, h'.mem⟩)

def allocate (A : Allocator w σ) (l : NonZeroLayout w) (h : Heap (Canary σ)) :
    Option Block × Heap (Canary σ) :=
  let pre := prePad l.align
  match innerLayout l with
  | none => (none, h)
  | some il =>
      match A.allocate il (h.map Canary.inner) with
      | (none, h') => (none, ⟨{ h.alloc with inner := h'.alloc }, h'.mem⟩)
      | (some block, h') =>
          let userPtr := block.ptr + pre
          let m := writeU64 h'.mem (userPtr - 8) h.alloc.value.toNat
          let m := writeU64 m (userPtr + l.size) h.alloc.value.toNat
          (some ⟨userPtr, l.size⟩, ⟨{ h.alloc with inner := h'.alloc }, m⟩)

/-- The inner block that serves a request. -/
def serves (A : Allocator w σ) (l : NonZeroLayout w) (h : Heap (Canary σ)) : Option (Grant w) := do
  let il ← innerLayout l
  let block ← (A.allocate il (h.map Canary.inner)).1
  some ⟨block, il⟩

def guard (A : Allocator w σ) : Guard w σ (Canary σ) (BitVec 64) CanaryPanic where
  inner := Canary.inner
  key := Canary.value
  allocate := allocate A
  deallocate := deallocate A
  serves := serves A

/-! ## The inner layout -/

theorem prePad_eq_max (align : Nat) : prePad align = max 8 align := by
  unfold prePad
  split <;> omega

theorem le_prePad (align : Nat) : 8 ≤ prePad align := by
  rw [prePad_eq_max]
  exact le_max_left 8 align

/-- The alignment of a request divides the pad. -/
theorem align_dvd_prePad (l : NonZeroLayout w) : l.align ∣ prePad l.align := by
  unfold prePad
  split
  case isTrue hlt => exact dvd_of_le_of_isPowerOfTwo l.align_pow ⟨3, rfl⟩ (Nat.le_of_lt hlt)
  case isFalse => exact dvd_rfl

/-- The inner layout has exactly the sum of the parts for its size. -/
theorem innerLayout_eq_some {l il : NonZeroLayout w} (h : innerLayout l = some il) :
    il.size = prePad l.align + l.size + 8 ∧ il.align = prePad l.align := by
  simp only [innerLayout, Option.bind_eq_bind, Option.bind_eq_some_iff, checkedAdd_eq_some] at h
  obtain ⟨v, ⟨-, rfl⟩, total, ⟨-, rfl⟩, hl⟩ := h
  obtain ⟨hsize, halign⟩ := NonZeroLayout.fromSizeAlign_eq_some.mp hl
  exact ⟨hsize, halign.trans (prePad_eq_max l.align).symm⟩

theorem prePad_isPowerOfTwo (l : NonZeroLayout w) : (prePad l.align).isPowerOfTwo := by
  unfold prePad
  split
  case isTrue => exact ⟨3, rfl⟩
  case isFalse => exact l.align_pow

/-- There is none exactly for the requests whose parts add up to more than a layout may have. -/
theorem innerLayout_eq_none_iff {l : NonZeroLayout w} :
    innerLayout l = none ↔
      isizeMax w < prePad l.align + l.size + 8 + (prePad l.align - 1) := by
  have hpre := le_prePad l.align
  constructor
  · intro hnone
    by_contra hle
    have hlt := isizeMax_lt w
    have hv : checkedAdd w (prePad l.align) l.size = some (prePad l.align + l.size) :=
      checkedAdd_eq_some.mpr ⟨by omega, rfl⟩
    have htotal : checkedAdd w (prePad l.align + l.size) 8 = some (prePad l.align + l.size + 8) :=
      checkedAdd_eq_some.mpr ⟨by omega, rfl⟩
    have hlayout : NonZeroLayout.fromSizeAlign w (prePad l.align + l.size + 8) (max 8 l.align) =
        some ⟨prePad l.align + l.size + 8, prePad l.align, by omega, prePad_isPowerOfTwo l,
          by omega⟩ :=
      NonZeroLayout.fromSizeAlign_eq_some.mpr ⟨rfl, prePad_eq_max l.align⟩
    simp [innerLayout, hv, htotal, hlayout] at hnone
  · intro hlt
    rcases hsome : innerLayout l with _ | il
    · rfl
    · obtain ⟨hsize, halign⟩ := innerLayout_eq_some hsome
      have hbound := il.bound
      rw [hsize, halign] at hbound
      omega

/-! ## A block with its canaries -/

/-- The block is in its place inside the inner block, between two intact words. -/
structure Sealed (value : BitVec 64) (c : Carving w) (m : Mem) : Prop where
  layout_eq : innerLayout c.user.layout = some c.inner.layout
  ptr_eq : c.user.block.ptr = c.inner.block.ptr + prePad c.user.layout.align
  len_eq : c.user.block.len = c.user.layout.size
  tail_le : c.user.block.ptr + c.user.layout.size + 8 ≤ c.inner.block.ptr + c.inner.block.len
  pre_eq : readU64 m (c.user.block.ptr - 8) = value.toNat
  post_eq : readU64 m (c.user.block.ptr + c.user.layout.size) = value.toNat

/-- The words before and after the block. -/
def preWord (c : Carving w) : Block := ⟨c.user.block.ptr - 8, 8⟩

def postWord (c : Carving w) : Block := ⟨c.user.block.ptr + c.user.layout.size, 8⟩

variable {value : BitVec 64} {c : Carving w} {m m' : Mem}

/-- The three parts lie inside the inner block and do not overlap. -/
theorem Sealed.parts (hs : Sealed value c m) :
    (preWord c).bytes ⊆ c.inner.block.bytes ∧ c.user.block.bytes ⊆ c.inner.block.bytes ∧
      (postWord c).bytes ⊆ c.inner.block.bytes ∧
      Disjoint (preWord c).bytes c.user.block.bytes ∧
      Disjoint c.user.block.bytes (postWord c).bytes ∧
      Disjoint (preWord c).bytes (postWord c).bytes := by
  have hpre := le_prePad c.user.layout.align
  have hptr := hs.ptr_eq
  have hlen := hs.len_eq
  have htail := hs.tail_le
  refine ⟨?_, ?_, ?_, ?_, ?_, ?_⟩
  · intro x hx
    simp only [preWord, Block.mem_bytes] at hx ⊢
    omega
  · intro x hx
    simp only [Block.mem_bytes] at hx ⊢
    omega
  · intro x hx
    simp only [postWord, Block.mem_bytes] at hx ⊢
    omega
  · apply Block.disjoint_of_le
    simp only [preWord]
    omega
  · apply Block.disjoint_of_le
    simp only [postWord]
    omega
  · apply Block.disjoint_of_le
    simp only [preWord, postWord]
    omega

theorem carves (value : BitVec 64) : Carves (Sealed (w := w) value) where
  satisfies := by
    intro c m hs hinner
    obtain ⟨-, halign⟩ := innerLayout_eq_some hs.layout_eq
    have hptr := hs.ptr_eq
    have hlen := hs.len_eq
    have htail := hs.tail_le
    have hpos := hinner.nonnull
    have hspace := hinner.inSpace
    constructor
    · rw [hptr]
      refine Nat.dvd_add ?_ (align_dvd_prePad c.user.layout)
      exact (align_dvd_prePad c.user.layout).trans (halign ▸ hinner.aligned)
    · exact hlen.ge
    · omega
    · omega
  subset := fun hs => hs.parts.2.1
  congr := by
    intro c m m' hs hm
    obtain ⟨hpre, -, hpost, hdpre, hdpost, -⟩ := hs.parts
    -- neither word has a byte in common with the block
    have hread : ∀ x, x ∈ (preWord c).bytes ∨ x ∈ (postWord c).bytes → m' x = m x := by
      rintro x (hx | hx)
      · exact hm ⟨hpre hx, Set.disjoint_left.mp hdpre hx⟩
      · exact hm ⟨hpost hx, Set.disjoint_right.mp hdpost hx⟩
    exact { hs with
      pre_eq := (readU64_congr fun x hx hx' => hread x (Or.inl ⟨hx, hx'⟩)).trans hs.pre_eq
      post_eq := (readU64_congr fun x hx hx' => hread x (Or.inr ⟨hx, hx'⟩)).trans hs.post_eq }

/-! ## The calls -/

variable {A : Allocator w σ} {h h' : Heap (Canary σ)} {l : NonZeroLayout w} {b : Block}

theorem volatileZeroCanary_of_not_mem {ptr x : Nat} (hx : ¬ (ptr ≤ x ∧ x < ptr + 8)) :
    volatileZeroCanary m ptr x = m x := by
  apply writeBytes_of_not_mem
  rw [List.length_replicate]
  exact hx

/-- The two words written around a block serve it. -/
theorem sealed_write {il : NonZeroLayout w} {ib : Block} (hl : innerLayout l = some il)
    (hsat : Satisfies ib il) :
    let userPtr := ib.ptr + prePad l.align
    let m' := writeU64 (writeU64 m (userPtr - 8) value.toNat) (userPtr + l.size) value.toNat
    Set.EqOn m' m (ib.bytes)ᶜ ∧ Sealed value ⟨⟨⟨userPtr, l.size⟩, l⟩, ⟨ib, il⟩⟩ m' := by
  intro userPtr m'
  have hpre := le_prePad l.align
  obtain ⟨hsize, -⟩ := innerLayout_eq_some hl
  have hlarge := hsat.large
  have huser : userPtr = ib.ptr + prePad l.align := rfl
  have hvalue : value.toNat < 2 ^ 64 := value.isLt
  constructor
  · intro x hx
    have hout : ¬ (ib.ptr ≤ x ∧ x < ib.ptr + ib.len) := hx
    calc m' x = writeU64 m (userPtr - 8) value.toNat x := writeU64_of_not_mem (by omega)
      _ = m x := writeU64_of_not_mem (by omega)
  · constructor
    · exact hl
    · rfl
    · rfl
    · show userPtr + l.size + 8 ≤ ib.ptr + ib.len
      omega
    · show readU64 m' (userPtr - 8) = value.toNat
      calc readU64 m' (userPtr - 8)
          = readU64 (writeU64 m (userPtr - 8) value.toNat) (userPtr - 8) :=
            readU64_writeU64_of_disjoint (by omega)
        _ = value.toNat := readU64_writeU64 hvalue
    · exact readU64_writeU64 hvalue

/-- A changed word makes the free panic, and the inner allocator has received nothing. -/
theorem deallocate_changed {ptr : Nat}
    (hne : readU64 h.mem (ptr - 8) ≠ h.alloc.value.toNat ∨
      readU64 h.mem (ptr + l.size) ≠ h.alloc.value.toNat) :
    ∃ p, deallocate A ptr l h = (some p, h) := by
  by_cases hpre : readU64 h.mem (ptr - 8) = h.alloc.value.toNat
  · have hpost : readU64 h.mem (ptr + l.size) ≠ h.alloc.value.toNat :=
      hne.resolve_left fun hne' => hne' hpre
    exact ⟨.postCanary, by simp [deallocate, verify, hpre, hpost]⟩
  · exact ⟨.preCanary, by simp [deallocate, verify, hpre]⟩

/-- The free of a sealed block hands the inner block back, with both words zeroed. -/
theorem deallocate_sealed (hs : Sealed h.alloc.value c h.mem) :
    deallocate A c.user.block.ptr c.user.layout h =
      let m := volatileZeroCanary (volatileZeroCanary h.mem (c.user.block.ptr - 8))
        (c.user.block.ptr + c.user.layout.size)
      let h' := A.deallocate c.inner.block.ptr c.inner.layout ⟨h.alloc.inner, m⟩
      (none, ⟨{ h.alloc with inner := h'.alloc }, h'.mem⟩) := by
  have hinner : c.user.block.ptr - prePad c.user.layout.align = c.inner.block.ptr := by
    rw [hs.ptr_eq, Nat.add_sub_cancel]
  simp [deallocate, verify, hs.pre_eq, hs.post_eq, hs.layout_eq, hinner]

/-- **What the calls of the wrapper do.** -/
theorem sound (A : Allocator w σ) : (guard A).Sound A Sealed where
  carves := carves
  allocate_none := by
    intro l h h' heq
    rcases hl : innerLayout l with _ | il
    · have hcall : allocate A l h = (none, h) := by simp only [allocate, hl]
      have hsame : h' = h := (congrArg Prod.snd (hcall.symm.trans heq)).symm
      subst hsame
      exact ⟨by simp [guard, serves, hl], rfl, Or.inl rfl⟩
    · rcases hinner : A.allocate il (h.map Canary.inner) with ⟨_ | block, t⟩
      · have hcall : allocate A l h = (none, ⟨{ h.alloc with inner := t.alloc }, t.mem⟩) := by
          simp only [allocate, hl, hinner]
        have hout := (congrArg Prod.snd (hcall.symm.trans heq)).symm
        subst hout
        exact ⟨by simp [guard, serves, hl, hinner], rfl, Or.inr ⟨il, hinner⟩⟩
      · have hfst := congrArg Prod.fst heq
        simp [guard, allocate, hl, hinner] at hfst
  allocate_some := by
    intro l h h' b heq
    rcases hl : innerLayout l with _ | il
    · have hfst := congrArg Prod.fst heq
      simp [guard, allocate, hl] at hfst
    · rcases hinner : A.allocate il (h.map Canary.inner) with ⟨_ | block, t⟩
      · have hfst := congrArg Prod.fst heq
        simp [guard, allocate, hl, hinner] at hfst
      · have hcall : (guard A).allocate l h = allocate A l h := rfl
        simp only [hcall, allocate, hl, hinner, Prod.mk.injEq, Option.some.injEq] at heq
        obtain ⟨rfl, rfl⟩ := heq
        exact ⟨⟨block, il⟩, t, by simp [guard, serves, hl, hinner], rfl, hinner, rfl,
          fun hsat => sealed_write hl hsat⟩
  deallocate := by
    intro c h hs hsat
    obtain ⟨hpre, -, hpost, -⟩ := hs.parts
    refine ⟨_, _, deallocate_sealed hs, rfl, fun x hx => ?_, rfl⟩
    calc volatileZeroCanary (volatileZeroCanary h.mem (c.user.block.ptr - 8))
          (c.user.block.ptr + c.user.layout.size) x
        = volatileZeroCanary h.mem (c.user.block.ptr - 8) x :=
          volatileZeroCanary_of_not_mem fun hmem => hx (hpost hmem)
      _ = h.mem x := volatileZeroCanary_of_not_mem fun hmem => hx (hpre hmem)

end Canary

end ForgeAlloc
