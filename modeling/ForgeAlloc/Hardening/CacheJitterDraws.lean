import ForgeAlloc.Hardening.CacheJitterRun
import ForgeAlloc.Library.XorShift

set_option autoImplicit false

/-! # The draws of `CacheJitter`

Every jittered allocation draws a displacement: one step of the generator, and its output reduced to
a number of lines by a multiplication in 128 bits and a shift.

The step is a linear map of words. It is injective, so a state that is not zero is never followed by
zero, and it annihilates a polynomial with an odd number of terms, so it fixes no word but zero: the
generator never gets stuck. Draws are within the window whatever the output is (`drawFits`). Both
hold in the whole life of a wrapper, from any seed and under any calls (`cacheJitter_draws_correct`).
-/

namespace ForgeAlloc

open MachineInt ByteMemory XorShift

namespace CacheJitter

/-! ## The generator -/

theorem nextRng_eq (x : BitVec 64) : nextRng x = xorLeft 17 (xorRight 7 (xorLeft 13 x)) := rfl

theorem xorLinear_nextRng : XorLinear nextRng :=
  (xorLinear_xorLeft 17).comp ((xorLinear_xorRight 7).comp (xorLinear_xorLeft 13))

theorem nextRng_injective : Function.Injective nextRng := by
  intro x y hxy
  rw [nextRng_eq, nextRng_eq] at hxy
  have hmiddle := xorLeft_injective (by decide) hxy
  have hfirst := xorRight_injective (by decide) hmiddle
  exact xorLeft_injective (by decide) hfirst

/-- The coefficients of the characteristic polynomial of the step, the constant one first. -/
def stepPolynomial : List Bool := (List.range 65).map (Nat.testBit 0x1013ED4A358913201)

/-- The step is a root of the polynomial. -/
theorem combination_stepPolynomial :
    ∀ i < 64, combination nextRng stepPolynomial (BitVec.twoPow 64 i) = 0#64 := by
  decide +kernel

theorem nextRng_eq_zero_iff (x : BitVec 64) : nextRng x = 0#64 ↔ x = 0#64 :=
  xorLinear_nextRng.eq_zero_iff nextRng_injective x

theorem nextRng_eq_self_iff (x : BitVec 64) : nextRng x = x ↔ x = 0#64 := by
  constructor
  · intro hfix
    exact xorLinear_nextRng.eq_zero_of_fixed (by decide) combination_stepPolynomial hfix
  · rintro rfl
    exact xorLinear_nextRng.map_zero

variable {w : Nat} {σ : Type} {line assoc : Nat} {seed : BitVec 64} {inner : σ}
  {jit c : CacheJitter w σ}

/-- The state that construction starts from is not zero. -/
theorem withParams_rng_ne_zero (hnew : withParams w inner line assoc seed = some jit) :
    jit.rng ≠ 0#64 := by
  unfold withParams at hnew
  split at hnew
  case isFalse => cases hnew
  case isTrue =>
      split at hnew
      case isFalse => cases hnew
      case isTrue =>
          split at hnew
          · cases hnew
          · cases hnew
            show (if seed = 0#64 then 0x9E3779B97F4A7C15#64 else seed) ≠ 0#64
            by_cases hseed : seed = 0#64
            · rw [if_pos hseed]
              decide
            · rwa [if_neg hseed]

/-! ## A draw -/

/-- `next_displacement`: the displacement, and the wrapper after it. -/
def drawDisplacement (c : CacheJitter w σ) : Nat × CacheJitter w σ :=
  let rng := nextRng c.rng
  (nextDisplacement c.toJitterParams rng, { c with rng := rng })

/-- The number of lines that the next draw comes to, as an exact integer. -/
def drawnLines (c : CacheJitter w σ) : Nat := (nextRng c.rng).toNat * c.associativity / 2 ^ 64

/-- The next draw of a wrapper with `assoc` lines of `line` bytes is exact and within the window. -/
structure DrawFits (line assoc : Nat) (c : CacheJitter w σ) : Prop where
  /-- The product of the generator's output fits into 128 bits. -/
  wide_lt : (nextRng c.rng).toNat * c.associativity < 2 ^ 128
  /-- The cast to `usize` drops nothing. -/
  lines_lt_word : c.drawnLines < 2 ^ w
  /-- The displacement is that many lines, and fits into `usize`. -/
  eq_lines : (drawDisplacement c).1 = c.drawnLines * line
  lt_word : c.drawnLines * line < 2 ^ w
  dvd : line ∣ (drawDisplacement c).1
  le : (drawDisplacement c).1 ≤ (assoc - 1) * line
  /-- The header's field is filled with the number of lines, and holds it. -/
  header_eq : (drawDisplacement c).1 >>> c.lineShift = c.drawnLines
  lines_lt_field : c.drawnLines < 2 ^ headerDispBits

theorem drawnLines_lt (c : CacheJitter w σ) : c.drawnLines < c.associativity := by
  have hlt := lines_lt c.toJitterParams (nextRng c.rng)
  rwa [Nat.shiftRight_eq_div_pow] at hlt

/-- **Every draw fits**, whatever the state of the generator. -/
theorem drawFits (c : CacheJitter w σ) : DrawFits c.cacheLineSize c.associativity c := by
  have hlines := c.drawnLines_lt
  have hpos := c.associativity_pos
  have hassoc : c.associativity ≤ 2 ^ 16 - 1 := c.associativity_le
  have hwindow := c.window_lt
  have hline : 0 < c.cacheLineSize := Nat.pos_of_isPowerOfTwo c.line_pow
  have hprod : c.drawnLines * c.cacheLineSize < 2 ^ w := by
    calc c.drawnLines * c.cacheLineSize
        ≤ c.associativity * c.cacheLineSize := Nat.mul_le_mul_right _ hlines.le
      _ < 2 ^ w := by rwa [Nat.mul_comm]
  have hword : c.drawnLines < 2 ^ w := (Nat.le_mul_of_pos_right _ hline).trans_lt hprod
  have heq : (drawDisplacement c).1 = c.drawnLines * c.cacheLineSize := by
    show ((nextRng c.rng).toNat * c.associativity) >>> 64 % 2 ^ w * c.cacheLineSize = _
    rw [Nat.shiftRight_eq_div_pow]
    exact congrArg (· * c.cacheLineSize) (Nat.mod_eq_of_lt hword)
  constructor
  · calc (nextRng c.rng).toNat * c.associativity
        ≤ (2 ^ 64 - 1) * (2 ^ 16 - 1) := Nat.mul_le_mul (Nat.le_pred_of_lt (BitVec.isLt _)) hassoc
      _ < 2 ^ 128 := by decide
  · exact hword
  · exact heq
  · exact hprod
  · exact dvd_nextDisplacement _ _
  · exact nextDisplacement_le _ _
  · rw [heq, c.cacheLineSize_eq.1, Nat.shiftRight_eq_div_pow,
      Nat.mul_div_cancel _ (Nat.two_pow_pos _)]
  · show c.drawnLines < 2 ^ 16
    omega

/-- The wrapper after `n` draws. -/
def afterDraws (c : CacheJitter w σ) (n : Nat) : CacheJitter w σ :=
  (fun c => (drawDisplacement c).2)^[n] c

theorem afterDraws_succ (c : CacheJitter w σ) (n : Nat) :
    c.afterDraws (n + 1) = (drawDisplacement (c.afterDraws n)).2 :=
  Function.iterate_succ_apply' _ n c

/-- Each draw is one step of the generator. -/
theorem rng_afterDraws (c : CacheJitter w σ) (n : Nat) :
    (c.afterDraws n).rng = nextRng^[n] c.rng := by
  induction n with
  | zero => rfl
  | succ n ih =>
      rw [afterDraws_succ, Function.iterate_succ_apply', ← ih]
      rfl

/-! ## The calls between the draws -/

/-- A call of a wrapper, by whatever caller: a resize is a request, a copy and a free. -/
inductive JitterCall (w : Nat)
  | allocate (l : NonZeroLayout w)
  | deallocate (ptr : Nat) (l : NonZeroLayout w)
  /-- The memory becomes `m`, headers and all. -/
  | overwrite (m : Mem)

def callStep (A : Allocator w σ) (h : Heap (CacheJitter w σ)) :
    JitterCall w → Option (Heap (CacheJitter w σ))
  | .allocate l => some (allocate A l h).2
  | .deallocate ptr l => some (deallocate A ptr l h).2
  | .overwrite m => some ⟨h.alloc, m⟩

variable {A : Allocator w σ} {h h' : Heap (CacheJitter w σ)}

/-- **A jittered allocation is displaced by a draw**, and leaves the generator as the draw does. -/
theorem allocate_draws {l il : NonZeroLayout w} {block : Block} {t : Heap σ}
    (hl : h.alloc.innerLayoutFor l = some (some il))
    (hinner : A.allocate il (h.map CacheJitter.inner) = (some block, t)) :
    (allocate A l h).1 =
        some ⟨block.ptr + (h.alloc.cacheLineSize + (drawDisplacement h.alloc).1), l.size⟩ ∧
      (allocate A l h).2.alloc = { (drawDisplacement h.alloc).2 with inner := t.alloc } := by
  simp only [allocate, hl, hinner]
  exact ⟨rfl, rfl⟩

/-- What the calls of a wrapper leave alone: the parameters, and that the state is not zero. -/
structure Alive (line assoc : Nat) (c : CacheJitter w σ) : Prop where
  line_eq : c.cacheLineSize = line
  assoc_eq : c.associativity = assoc
  rng_ne : c.rng ≠ 0#64

theorem Alive.draw (ha : Alive line assoc c) : Alive line assoc (drawDisplacement c).2 where
  line_eq := ha.line_eq
  assoc_eq := ha.assoc_eq
  rng_ne := fun hzero => ha.rng_ne ((nextRng_eq_zero_iff _).mp hzero)

theorem Alive.withInner (ha : Alive line assoc c) (s : σ) :
    Alive line assoc { c with inner := s } := ⟨ha.line_eq, ha.assoc_eq, ha.rng_ne⟩

theorem Alive.drawFits (ha : Alive line assoc c) : DrawFits line assoc c := by
  have hfits := CacheJitter.drawFits c
  rwa [ha.line_eq, ha.assoc_eq] at hfits

theorem Alive.afterDraws (ha : Alive line assoc c) (n : Nat) :
    Alive line assoc (c.afterDraws n) := by
  induction n with
  | zero => exact ha
  | succ n ih =>
      rw [afterDraws_succ]
      exact ih.draw

/-- **A call draws once or not at all**, and changes the inner allocator besides. -/
theorem callStep_alloc {op : JitterCall w} (hstep : callStep A h op = some h') :
    ∃ s, h'.alloc = { h.alloc with inner := s } ∨
      h'.alloc = { (drawDisplacement h.alloc).2 with inner := s } := by
  cases op with
  | allocate l =>
      cases hstep
      unfold CacheJitter.allocate
      split
      · exact ⟨_, Or.inl rfl⟩
      · exact ⟨h.alloc.inner, Or.inl rfl⟩
      · split
        · exact ⟨_, Or.inl rfl⟩
        · exact ⟨_, Or.inr rfl⟩
  | deallocate ptr l =>
      cases hstep
      unfold CacheJitter.deallocate
      split
      · exact ⟨_, Or.inl rfl⟩
      · exact ⟨h.alloc.inner, Or.inl rfl⟩
      · simp only
        split
        · exact ⟨h.alloc.inner, Or.inl rfl⟩
        · exact ⟨_, Or.inl rfl⟩
  | overwrite m =>
      cases hstep
      exact ⟨h.alloc.inner, Or.inl rfl⟩

theorem Alive.call {op : JitterCall w} (ha : Alive line assoc h.alloc)
    (hstep : callStep A h op = some h') : Alive line assoc h'.alloc := by
  obtain ⟨s, heq | heq⟩ := callStep_alloc hstep
  · exact heq ▸ ha.withInner s
  · exact heq ▸ ha.draw.withInner s

/-- The state after a run is that after some draws, no more than there were calls. -/
theorem exists_draws {calls : List (JitterCall w)}
    (hrun : Machine.run (callStep A) h calls = some h') :
    ∃ n ≤ calls.length, h'.alloc.rng = nextRng^[n] h.alloc.rng := by
  refine Machine.run_induction (P := fun calls t => ∃ n ≤ calls.length,
    t.alloc.rng = nextRng^[n] h.alloc.rng) ⟨0, le_rfl, rfl⟩ ?_ hrun
  rintro calls t op t' - ⟨n, hn, heq⟩ hstep
  rw [List.length_append]
  obtain ⟨s, hcall | hcall⟩ := callStep_alloc hstep
  · exact ⟨n, Nat.le_add_right_of_le hn, by rw [hcall]; exact heq⟩
  · refine ⟨n + 1, Nat.add_le_add_right hn 1, ?_⟩
    rw [Function.iterate_succ_apply', ← heq, hcall]
    rfl

theorem alive_run {calls : List (JitterCall w)} (ha : Alive line assoc h.alloc)
    (hrun : Machine.run (callStep A) h calls = some h') : Alive line assoc h'.alloc :=
  Machine.run_invariant (P := fun h => Alive line assoc h.alloc) (fun _ _ _ ha hstep => ha.call hstep)
    ha hrun

/-- **The generator never gets stuck, and its displacements fit.** The step is injective and fixes
zero only; each draw is one step. After any number of draws, and after any calls over any inner
allocator, the state is not zero and the next displacement is exact and within the window. -/
theorem cacheJitter_draws_correct (hnew : withParams w inner line assoc seed = some jit) :
    (Function.Injective nextRng ∧ (∀ x, nextRng x = 0#64 ↔ x = 0#64) ∧
        ∀ x, nextRng x = x ↔ x = 0#64) ∧
      (∀ n, (jit.afterDraws n).rng = nextRng^[n] jit.rng ∧ (jit.afterDraws n).rng ≠ 0#64 ∧
        DrawFits line assoc (jit.afterDraws n)) ∧
      ∀ (A : Allocator w σ) m calls h, Machine.run (callStep A) ⟨jit, m⟩ calls = some h →
        (∃ n ≤ calls.length, h.alloc.rng = nextRng^[n] jit.rng) ∧ h.alloc.rng ≠ 0#64 ∧
          DrawFits line assoc h.alloc := by
  obtain ⟨hline, hassoc, -⟩ := withParams_eq_some hnew
  have ha : Alive line assoc jit := ⟨hline, hassoc, withParams_rng_ne_zero hnew⟩
  refine ⟨⟨nextRng_injective, nextRng_eq_zero_iff, nextRng_eq_self_iff⟩, fun n => ?_,
    fun A m calls h hrun => ?_⟩
  · exact ⟨jit.rng_afterDraws n, (ha.afterDraws n).rng_ne, (ha.afterDraws n).drawFits⟩
  · have hafter := alive_run (h := ⟨jit, m⟩) ha hrun
    exact ⟨exists_draws hrun, hafter.rng_ne, hafter.drawFits⟩

/-- The widest window there is, of lines of 64 bytes, and the seed zero. -/
theorem cacheJitter_draws_correct_seedZero :
    ∃ jit, withParams 64 () 64 65535 0#64 = some jit ∧
      ∀ n, (jit.afterDraws n).rng = nextRng^[n] jit.rng ∧ (jit.afterDraws n).rng ≠ 0#64 ∧
        DrawFits 64 65535 (jit.afterDraws n) := by
  have hsome : (withParams 64 () 64 65535 0#64).isSome := by decide +kernel
  obtain ⟨jit, hnew⟩ := Option.isSome_iff_exists.mp hsome
  exact ⟨jit, hnew, (cacheJitter_draws_correct hnew).2.1⟩

end CacheJitter

end ForgeAlloc
