import ForgeAlloc.Core.ClientRun

set_option autoImplicit false

/-! # The conformance helpers

The checks that a test of an allocator runs, with the message of each one that fails. A component that
meets the contract passes them, from any state with nothing out, as long as it serves the requests.
-/

namespace ForgeAlloc

open MachineInt ByteMemory

/-! ## Checks -/

/-- An address in hexadecimal. -/
def hex (n : Nat) : String := "0x" ++ String.ofList (Nat.toDigits 16 n)

inductive ContractFailure
  | base
  | size
  | containsBase
  | containsLast
  | containsPast
  | layout
  | firstRefused
  | misaligned (ptr : Nat)
  | short
  | secondRefused
  | overlap (p1Start p1End p2Start p2End : Nat)
  | readBack (i : Nat)
  | zeroedRefused
  | notZero (i : Nat)
  | layoutPow
  | underAligned (align ptr : Nat)
  | combinedRefused
  | containsIssued
  | containsOutside
  deriving DecidableEq

def ContractFailure.message : ContractFailure → String
  | .base => "FixedRange::base() must return the same address on every call"
  | .size => "FixedRange::size() must return the same value on every call"
  | .containsBase => "FixedRange::contains(base()) must be true when size() > 0"
  | .containsLast => "FixedRange::contains(base() + size() - 1) must be true"
  | .containsPast => "FixedRange::contains(base() + size()) must be false (one past end)"
  | .layout => "64/8 is a valid NonZeroLayout"
  | .firstRefused => "first basic allocation (64 bytes, align 8) must succeed"
  | .misaligned ptr =>
      "Allocator::allocate must return a pointer aligned to layout.align() (" ++ hex ptr ++ ")"
  | .short => "Allocator::allocate must return a slice of at least layout.size() bytes"
  | .secondRefused => "second basic allocation must succeed"
  | .overlap p1Start p1End p2Start p2End =>
      "two live allocations must not overlap (got p1=[" ++ hex p1Start ++ ", " ++ hex p1End ++
        "), p2=[" ++ hex p2Start ++ ", " ++ hex p2End ++ "))"
  | .readBack i =>
      "byte " ++ toString i ++ " of fresh allocation must round-trip through write/read"
  | .zeroedRefused => "allocate_zeroed must succeed for 64 bytes, align 8"
  | .notZero i => "Allocator::allocate_zeroed byte " ++ toString i ++ " must be zero"
  | .layoutPow => "64/(power-of-two) is always a valid NonZeroLayout"
  | .underAligned align ptr =>
      "Allocator::allocate with align=" ++ toString align ++
        " returned an under-aligned pointer (" ++ hex ptr ++ ")"
  | .combinedRefused => "64/8 allocation must succeed for combined check"
  | .containsIssued =>
      "FixedRange::contains() must return true for any pointer issued by allocate()"
  | .containsOutside =>
      "FixedRange::contains() must return false for a pointer far outside the range"

/-- A request was not served. -/
def ContractFailure.Refused (f : ContractFailure) : Prop :=
  f = .firstRefused ∨ f = .secondRefused ∨ f = .zeroedRefused ∨ f = .combinedRefused

section

variable {w : Nat} {σ : Type}

/-- `assert!`. -/
def require (p : Prop) [Decidable p] (f : ContractFailure) : Except ContractFailure Unit :=
  if p then .ok () else .error f

def expect {α : Type} (o : Option α) (f : ContractFailure) : Except ContractFailure α :=
  match o with
  | some a => .ok a
  | none => .error f

/-- The block that a request must return, with the heap after it. -/
def expectBlock (r : Option Block × Heap σ) (f : ContractFailure) :
    Except ContractFailure (Block × Heap σ) :=
  match r with
  | (some b, h) => .ok (b, h)
  | (none, _) => .error f

/-- The first of 64 bytes that is not what is expected. -/
def requireBytes (m : Mem) (ptr : Nat) (expected : Nat → UInt8) (f : Nat → ContractFailure) :
    Except ContractFailure Unit :=
  match (List.range 64).find? fun i => m (ptr + i) ≠ expected i with
  | some i => .error (f i)
  | none => .ok ()

def assertFixedRangeInvariants (w : Nat) (R : FixedRange σ) (r : σ) :
    Except ContractFailure Unit := do
  let b1 := R.base r
  let b2 := R.base r
  require (b1 = b2) .base
  let s1 := R.size r
  let s2 := R.size r
  require (s1 = s2) .size
  require (0 < s1 → R.contains w b1 r = true) .containsBase
  let lastByte := b1 + (s1 - 1)
  require (0 < s1 → R.contains w lastByte r = true) .containsLast
  let pastAddr := wrappingAdd w b1 s1
  require (pastAddr ≠ 0 → R.contains w pastAddr r = false) .containsPast

def pattern (i : Nat) : UInt8 := 0xCC ^^^ UInt8.ofNat i

def assertAllocatorBasicRoundTrip (A : Allocator w σ) (h : Heap σ) :
    Except ContractFailure (Heap σ) := do
  let layout ← expect (NonZeroLayout.fromSizeAlign w 64 8) .layout
  let (p1, h) ← expectBlock (A.allocate layout h) .firstRefused
  require (p1.ptr % 8 = 0) (.misaligned p1.ptr)
  require (layout.size ≤ p1.len) .short
  let (p2, h) ← expectBlock (A.allocate layout h) .secondRefused
  require (p1.ptr + 64 ≤ p2.ptr ∨ p2.ptr + 64 ≤ p1.ptr)
    (.overlap p1.ptr (p1.ptr + 64) p2.ptr (p2.ptr + 64))
  let m := writeBytes h.mem p1.ptr ((List.range 64).map pattern)
  requireBytes m p1.ptr pattern .readBack
  let (p3, h) ← expectBlock (defaultAllocateZeroed A.allocate layout ⟨h.alloc, m⟩) .zeroedRefused
  requireBytes h.mem p3.ptr (fun _ => 0) .notZero
  let h := A.deallocate p1.ptr layout h
  let h := A.deallocate p2.ptr layout h
  .ok (A.deallocate p3.ptr layout h)

/-- One round of the loop, at the alignment `align`. -/
def checkAlignment (A : Allocator w σ) (align : Nat) (h : Heap σ) :
    Except ContractFailure (Heap σ) := do
  let layout ← expect (NonZeroLayout.fromSizeAlign w 64 align) .layoutPow
  match A.allocate layout h with
  | (some p, h) => do
      require (p.ptr % align = 0) (.underAligned align p.ptr)
      .ok (A.deallocate p.ptr layout h)
  | (none, h) => .ok h

def assertAllocatorRespectsAlignment (A : Allocator w σ) (h : Heap σ) :
    Except ContractFailure (Heap σ) :=
  (List.range 10).foldlM (fun h alignPow => checkAlignment A (2 ^ alignPow) h) h

def assertCombinedInvariants (A : Allocator w σ) (R : FixedRange σ) (h : Heap σ) :
    Except ContractFailure (Heap σ) := do
  assertFixedRangeInvariants w R h.alloc
  let layout ← expect (NonZeroLayout.fromSizeAlign w 64 8) .layout
  let (p, h) ← expectBlock (A.allocate layout h) .combinedRefused
  require (R.contains w p.ptr h.alloc = true) .containsIssued
  let outsideAddr := wrappingAdd w (R.base h.alloc) ((2 ^ w - 1) / 2)
  require (outsideAddr ≠ 0 → R.contains w outsideAddr h.alloc = false) .containsOutside
  assertAllocatorBasicRoundTrip A (A.deallocate p.ptr layout h)

end

/-! ## Outcomes -/

/-- A value with the property `Q`, or a failure with the property `E`. -/
def Outcome {α : Type} (E : ContractFailure → Prop) (Q : α → Prop)
    (r : Except ContractFailure α) : Prop :=
  match r with
  | .ok a => Q a
  | .error f => E f

section

variable {w : Nat} {σ α β : Type} {E E' : ContractFailure → Prop} {Q : α → Prop} {Q' : β → Prop}
  {f : ContractFailure}

theorem Outcome.bind {r : Except ContractFailure α} {k : α → Except ContractFailure β}
    (hr : Outcome E Q r) (hk : ∀ a, Q a → Outcome E Q' (k a)) : Outcome E Q' (r >>= k) := by
  cases r with
  | ok a => exact hk a hr
  | error f => exact hr

theorem Outcome.mono {r : Except ContractFailure α} (hr : Outcome E Q r) (hE : ∀ f, E f → E' f) :
    Outcome E' Q r := by
  cases r with
  | ok a => exact hr
  | error f => exact hE f hr

/-- A check that holds. -/
theorem Outcome.require {p : Prop} [Decidable p] (hp : p) {k : Except ContractFailure β}
    (hk : Outcome E Q' k) : Outcome E Q' (ForgeAlloc.require p f >>= fun _ => k) := by
  rw [ForgeAlloc.require, if_pos hp]
  exact hk

theorem Outcome.expect {a : α} {k : α → Except ContractFailure β} (hk : Outcome E Q' (k a)) :
    Outcome E Q' (ForgeAlloc.expect (some a) f >>= k) := hk

/-- A request whose refusal is a failure. -/
theorem Outcome.expectBlock {r : Option Block × Heap σ} (hf : E f)
    {k : Block × Heap σ → Except ContractFailure β}
    (hk : ∀ b h, r = (some b, h) → Outcome E Q' (k (b, h))) :
    Outcome E Q' (ForgeAlloc.expectBlock r f >>= k) := by
  rcases r with ⟨_ | b, h⟩
  · exact hf
  · exact hk b h rfl

theorem Outcome.requireBytes {m : Mem} {ptr : Nat} {expected : Nat → UInt8}
    {g : Nat → ContractFailure} (hm : ∀ i < 64, m (ptr + i) = expected i)
    {k : Except ContractFailure β} (hk : Outcome E Q' k) :
    Outcome E Q' (ForgeAlloc.requireBytes m ptr expected g >>= fun _ => k) := by
  have hnone : ((List.range 64).find? fun i => m (ptr + i) ≠ expected i) = none := by
    rw [List.find?_eq_none]
    intro i hi
    simp [hm i (List.mem_range.mp hi)]
  rw [ForgeAlloc.requireBytes, hnone]
  exact hk

end

/-! ## A range -/

section

variable {w : Nat} {σ : Type} {R : FixedRange σ} {r : σ}

theorem fixedRange_conforms (hend : R.base r + R.size r ≤ 2 ^ w) :
    assertFixedRangeInvariants w R r = .ok () := by
  have hin : ∀ p < 2 ^ w, (R.contains w p r = true ↔ R.base r ≤ p ∧ p < R.base r + R.size r) :=
    fun p hp => FixedRange.contains_iff hp hend
  have hpast : wrappingAdd w (R.base r) (R.size r) ≠ 0 →
      R.contains w (wrappingAdd w (R.base r) (R.size r)) r = false := by
    intro hne
    have hlt : R.base r + R.size r < 2 ^ w := by
      refine lt_of_le_of_ne hend fun heq => hne ?_
      rw [wrappingAdd, heq, Nat.mod_self]
    rw [wrappingAdd_of_lt hlt, Bool.eq_false_iff, ne_eq, hin _ hlt]
    omega
  have hfirst : 0 < R.size r → R.contains w (R.base r) r = true :=
    fun hpos => (hin _ (by omega)).mpr (by omega)
  have hlast : 0 < R.size r → R.contains w (R.base r + (R.size r - 1)) r = true :=
    fun hpos => (hin _ (by omega)).mpr (by omega)
  simp only [assertFixedRangeInvariants, require, if_pos hfirst, if_pos hlast, if_pos hpast, if_true]
  rfl

/-- An address half the address space away is outside a range of at most that length. -/
theorem contains_outside (hend : R.base r + R.size r ≤ 2 ^ w) (hle : R.size r ≤ isizeMax w) :
    R.contains w (wrappingAdd w (R.base r) ((2 ^ w - 1) / 2)) r = false := by
  have hhalf : isizeMax w ≤ (2 ^ w - 1) / 2 := by
    cases w with
    | zero => exact Nat.zero_le _
    | succ n =>
        rw [isizeMax, Nat.add_sub_cancel, Nat.pow_succ]
        omega
  have hpos : 0 < 2 ^ w := Nat.two_pow_pos w
  have hlt := Nat.mod_lt (R.base r + (2 ^ w - 1) / 2) hpos
  rw [wrappingAdd, Bool.eq_false_iff, ne_eq, FixedRange.contains_iff hlt hend]
  rcases Nat.lt_or_ge (R.base r + (2 ^ w - 1) / 2) (2 ^ w) with hin | hwrap
  · rw [Nat.mod_eq_of_lt hin]
    omega
  · -- the sum wraps, to below the base
    rw [Nat.mod_eq_sub_mod hwrap, Nat.mod_eq_of_lt (by omega)]
    omega

end

/-! ## A component that meets the contract -/

section

variable {w : Nat} {σ : Type} {C : Component w σ} {h : Heap σ} {L : Set (Grant w)}
  {l : NonZeroLayout w} {E : ContractFailure → Prop}

theorem exists_layout (hw : 16 ≤ w) {align k : Nat} (hpow : align = 2 ^ k) (hk : k < 10) :
    ∃ l : NonZeroLayout w, NonZeroLayout.fromSizeAlign w 64 align = some l ∧ l.size = 64 ∧
      l.align = align := by
  have hspace : 2 ^ 15 ≤ 2 ^ (w - 1) := Nat.pow_le_pow_right (by decide) (by omega)
  have hle : 2 ^ k ≤ 2 ^ 9 := Nat.pow_le_pow_right (by decide) (by omega)
  have hbound : 64 + (align - 1) ≤ isizeMax w := by
    rw [isizeMax, hpow]
    omega
  exact ⟨⟨64, align, by decide, ⟨k, hpow⟩, hbound⟩,
    NonZeroLayout.fromSizeAlign_eq_some.mpr ⟨rfl, rfl⟩, rfl, rfl⟩

/-- A new block has room for 64 bytes. -/
theorem issued_ne {h h' : Heap σ} {b : Block} {g : Grant w} (hC : HonoursCore C.calls C.inv)
    (hiss : Issued C.inv L h h' b l) (hg : g ∈ L) : (⟨b, l⟩ : Grant w) ≠ g := by
  rintro rfl
  have hpos := (hC.satisfies hiss.inv (Set.mem_insert _ _)).len_pos
  exact not_disjoint_self hpos (hiss.fresh _ hg)

theorem sdiff_three (g1 g2 g3 : Grant w) :
    ((insert g3 (insert g2 (insert g1 ∅)) \ {g1}) \ {g2}) \ {g3} = (∅ : Set (Grant w)) := by
  ext g
  simp only [Set.mem_sdiff, Set.mem_insert_iff, Set.mem_singleton_iff, Set.mem_empty_iff_false,
    iff_false]
  tauto

/-- The two allocations, what was written to the first one, and the zeroed one. -/
theorem roundTrip_conforms (hC : HonoursCore C.calls C.inv) (hw : 16 ≤ w) (hinv : C.inv h ∅)
    (hE : ∀ f, f.Refused → E f) :
    Outcome E (fun h' => C.inv h' ∅) (assertAllocatorBasicRoundTrip C.calls h) := by
  obtain ⟨l, hl, hsize, halign⟩ : ∃ l : NonZeroLayout w,
      NonZeroLayout.fromSizeAlign w 64 8 = some l ∧ l.size = 64 ∧ l.align = 8 :=
    exists_layout (k := 3) hw rfl (by decide)
  rw [assertAllocatorBasicRoundTrip, hl]
  refine Outcome.expect ?_
  refine Outcome.expectBlock (hE _ (Or.inl rfl)) fun p1 h1 hcall1 => ?_
  have hiss1 := hC.allocate_some hinv hcall1
  have hsat1 := hC.satisfies hiss1.inv (Set.mem_insert _ _)
  refine Outcome.require (Nat.mod_eq_zero_of_dvd (halign ▸ hsat1.aligned)) ?_
  refine Outcome.require hsat1.large ?_
  refine Outcome.expectBlock (hE _ (Or.inr (Or.inl rfl))) fun p2 h2 hcall2 => ?_
  have hiss2 := hC.allocate_some hiss1.inv hcall2
  have hsat2 := hC.satisfies hiss2.inv (Set.mem_insert _ _)
  have hfresh2 := hiss2.fresh _ (Set.mem_insert _ _)
  have hapart : p1.ptr + 64 ≤ p2.ptr ∨ p2.ptr + 64 ≤ p1.ptr := by
    have hlarge1 := hsat1.large
    have hlarge2 := hsat2.large
    rw [Block.disjoint_iff] at hfresh2
    simp only at hlarge1 hlarge2 hfresh2
    omega
  refine Outcome.require hapart ?_
  -- the pattern goes into the first block
  have hpattern : ∀ i < 64, writeBytes h2.mem p1.ptr ((List.range 64).map pattern) (p1.ptr + i) =
      pattern i := by
    intro i hi
    rw [writeBytes_add (by simpa using hi)]
    simp [List.getD, hi]
  refine Outcome.requireBytes hpattern ?_
  have hwritten : C.inv ⟨h2.alloc, writeBytes h2.mem p1.ptr ((List.range 64).map pattern)⟩
      (insert ⟨p2, l⟩ (insert ⟨p1, l⟩ ∅)) := by
    refine hC.write hiss2.inv fun x hx => writeBytes_of_not_mem fun hin => hx ?_
    have hlarge := hsat1.large
    rw [List.length_map, List.length_range] at hin
    refine bytes_subset_liveBytes (g := ⟨p1, l⟩) (by simp) ?_
    simp only [Block.mem_bytes]
    simp only at hlarge
    omega
  refine Outcome.expectBlock (hE _ (Or.inr (Or.inr (Or.inl rfl)))) fun p3 h3 hcall3 => ?_
  obtain ⟨hiss3, hzero⟩ := ClientRun.zeroed_some hC hwritten hcall3
  rw [hsize] at hzero
  refine Outcome.requireBytes hzero ?_
  -- the three frees
  have hne21 : (⟨p2, l⟩ : Grant w) ≠ ⟨p1, l⟩ := issued_ne hC hiss2 (Set.mem_insert _ _)
  have hne31 : (⟨p3, l⟩ : Grant w) ≠ ⟨p1, l⟩ := issued_ne hC hiss3 (by simp)
  have hne32 : (⟨p3, l⟩ : Grant w) ≠ ⟨p2, l⟩ := issued_ne hC hiss3 (by simp)
  have hfree1 := (hC.deallocate (g := ⟨p1, l⟩) hiss3.inv (by simp)).inv
  have hfree2 := (hC.deallocate (g := ⟨p2, l⟩) hfree1 (by simp [hne21])).inv
  have hfree3 := (hC.deallocate (g := ⟨p3, l⟩) hfree2 (by simp [hne31, hne32])).inv
  rw [sdiff_three] at hfree3
  exact hfree3

theorem checkAlignment_conforms (hC : HonoursCore C.calls C.inv) (hw : 16 ≤ w) {k : Nat}
    (hk : k < 10) (hinv : C.inv h ∅) :
    Outcome (fun _ => False) (fun h' => C.inv h' ∅) (checkAlignment C.calls (2 ^ k) h) := by
  obtain ⟨l, hl, hsize, halign⟩ := exists_layout hw (rfl : 2 ^ k = 2 ^ k) hk
  rw [checkAlignment, hl]
  refine Outcome.expect ?_
  rcases hcall : C.calls.allocate l h with ⟨_ | p, h'⟩
  · exact (hC.allocate_none hinv hcall).inv
  · have hiss := hC.allocate_some hinv hcall
    have hsat := hC.satisfies hiss.inv (Set.mem_insert _ _)
    refine Outcome.require (Nat.mod_eq_zero_of_dvd (halign ▸ hsat.aligned)) ?_
    have hfree := (hC.deallocate (g := ⟨p, l⟩) hiss.inv (Set.mem_insert _ _)).inv
    rw [Set.insert_sdiff_of_mem _ (Set.mem_singleton _), Set.empty_sdiff] at hfree
    exact hfree

theorem alignments_conform (hC : HonoursCore C.calls C.inv) (hw : 16 ≤ w) :
    ∀ {ks : List Nat} {h : Heap σ}, (∀ k ∈ ks, k < 10) → C.inv h ∅ →
      Outcome (fun _ => False) (fun h' => C.inv h' ∅)
        (ks.foldlM (fun h alignPow => checkAlignment C.calls (2 ^ alignPow) h) h) := by
  intro ks
  induction ks with
  | nil => exact fun _ hinv => hinv
  | cons k ks ih =>
      intro h hks hinv
      obtain ⟨hk, hrest⟩ := List.forall_mem_cons.mp hks
      rw [List.foldlM_cons]
      exact (checkAlignment_conforms hC hw hk hinv).bind fun h' hinv' => ih hrest hinv'

end

end ForgeAlloc
