import ForgeAlloc.Hardening.CacheJitter
import ForgeAlloc.Core.GuardRun
import ForgeAlloc.Backing.Inline
import ForgeAlloc.Layout.Bump

set_option autoImplicit false

/-! # Runs of `CacheJitter`

`CacheJitter` over any allocator that meets the contract, in runs that allocate, free live blocks
and write into live blocks. A live block either is the inner block itself or lies behind its
header in the inner block (`Displaced`); `CacheJitter.sound` says what the calls do in terms of
it and makes the wrapper an instance of `Guard`.

`Correct` collects what is to hold of a parameter set. All of it does, except that the packed header
is the only one accepted: that holds exactly of the lines that a 16-bit number of can be addressed
(`cacheJitter_correct_iff`).
-/

namespace ForgeAlloc

open MachineInt ByteMemory PackedWord

namespace CacheJitter

variable {w : Nat} {σ : Type} {p : JitterParams w} {l : NonZeroLayout w}

/-! ## Displacements -/

/-- The generator's output picks one of `associativity` lines. -/
theorem lines_lt (p : JitterParams w) (r : BitVec 64) :
    (r.toNat * p.associativity) >>> 64 < p.associativity := by
  rw [Nat.shiftRight_eq_div_pow, Nat.div_lt_iff_lt_mul (Nat.two_pow_pos _), Nat.mul_comm]
  exact Nat.mul_lt_mul_of_pos_left r.isLt p.associativity_pos

theorem dvd_nextDisplacement (p : JitterParams w) (r : BitVec 64) :
    p.cacheLineSize ∣ nextDisplacement p r := Dvd.intro_left _ rfl

theorem nextDisplacement_le (p : JitterParams w) (r : BitVec 64) :
    nextDisplacement p r ≤ p.maxDisplacement := by
  have hlt := lines_lt p r
  apply Nat.mul_le_mul_right
  calc (r.toNat * p.associativity) >>> 64 % 2 ^ w
      ≤ (r.toNat * p.associativity) >>> 64 := Nat.mod_le _ _
    _ ≤ p.associativity - 1 := by omega

/-! ## The inner layout -/

theorem innerLayoutFor_eq_none_iff : p.innerLayoutFor l = none ↔ p.cacheLineSize < l.align := by
  simp [JitterParams.innerLayoutFor]

theorem innerLayoutFor_eq_some {il : NonZeroLayout w} (h : p.innerLayoutFor l = some (some il)) :
    l.align ≤ p.cacheLineSize ∧ il.size = l.size + p.jitterPrefix ∧
      il.align = p.cacheLineSize := by
  unfold JitterParams.innerLayoutFor at h
  split at h
  case isTrue => cases h
  case isFalse hle =>
      rw [Option.some.injEq, Option.bind_eq_some_iff] at h
      obtain ⟨total, htotal, hlayout⟩ := h
      obtain ⟨-, rfl⟩ := checkedAdd_eq_some.mp htotal
      obtain ⟨hsize, halign⟩ := NonZeroLayout.fromSizeAlign_eq_some.mp hlayout
      exact ⟨Nat.le_of_not_lt hle, hsize, halign⟩

/-! ## A block behind its header -/

/-- The block lies a line and `d` bytes after the start of the inner block, and the word before it
is the header for `d`. -/
structure Displaced (p : JitterParams w) (c : Carving w) (m : Mem) (d : Nat) : Prop where
  layout_eq : p.innerLayoutFor c.user.layout = some (some c.inner.layout)
  disp_le : d ≤ p.maxDisplacement
  disp_dvd : p.cacheLineSize ∣ d
  ptr_eq : c.user.block.ptr = c.inner.block.ptr + (p.cacheLineSize + d)
  len_eq : c.user.block.len = c.user.layout.size
  end_le : c.user.block.ptr + c.user.layout.size ≤ c.inner.block.ptr + c.inner.block.len
  header_eq : readU64 m (c.user.block.ptr - jitterHeaderSize) =
    (p.packHeader c.user.block.ptr d).toNat

/-- What a live block is: for a request that went through, the inner allocator's own. -/
inductive Jittered (p : JitterParams w) (c : Carving w) (m : Mem) : Prop
  | through (hline : p.cacheLineSize < c.user.layout.align) (heq : c.user = c.inner)
  | displaced (d : Nat) (hd : Displaced p c m d)

/-- The word before the block. -/
def headerWord (c : Carving w) : Block := ⟨c.user.block.ptr - jitterHeaderSize, jitterHeaderSize⟩

variable {c c' : Carving w} {m m' : Mem} {d : Nat}

theorem Displaced.parts (hd : Displaced p c m d) :
    (headerWord c).bytes ⊆ c.inner.block.bytes ∧ c.user.block.bytes ⊆ c.inner.block.bytes ∧
      Disjoint (headerWord c).bytes c.user.block.bytes := by
  have hheader := p.header_le
  have hptr := hd.ptr_eq
  have hlen := hd.len_eq
  have hend := hd.end_le
  refine ⟨?_, ?_, ?_⟩
  · intro x hx
    simp only [headerWord, jitterHeaderSize, Block.mem_bytes] at hx ⊢
    omega
  · intro x hx
    simp only [Block.mem_bytes] at hx ⊢
    omega
  · apply Block.disjoint_of_le
    simp only [headerWord, jitterHeaderSize]
    omega

theorem Displaced.satisfies (hd : Displaced p c m d)
    (hinner : Satisfies c.inner.block c.inner.layout) :
    Satisfies c.user.block c.user.layout := by
  obtain ⟨hle, -, halign⟩ := innerLayoutFor_eq_some hd.layout_eq
  have hdvd : c.user.layout.align ∣ p.cacheLineSize :=
    dvd_of_le_of_isPowerOfTwo c.user.layout.align_pow p.line_pow hle
  have hbase : p.cacheLineSize ∣ c.inner.block.ptr := halign ▸ hinner.aligned
  have hpos := hinner.nonnull
  have hspace := hinner.inSpace
  have hptr := hd.ptr_eq
  have hlen := hd.len_eq
  have hend := hd.end_le
  constructor
  · rw [hptr]
    exact hdvd.trans (Nat.dvd_add hbase (Nat.dvd_add dvd_rfl hd.disp_dvd))
  · exact hlen.ge
  · omega
  · omega

theorem carves (p : JitterParams w) : Carves (Jittered p) where
  satisfies := by
    intro c m hj hinner
    cases hj with
    | through hline heq => rwa [heq]
    | displaced d hd => exact hd.satisfies hinner
  subset := by
    intro c m hj
    cases hj with
    | through hline heq => rw [heq]
    | displaced d hd => exact hd.parts.2.1
  congr := by
    intro c m m' hj hm
    cases hj with
    | through hline heq => exact .through hline heq
    | displaced d hd =>
        obtain ⟨hheader, -, hdisj⟩ := hd.parts
        refine .displaced d { hd with
          header_eq := (readU64_congr fun x hx hx' => ?_).trans hd.header_eq }
        -- the header is in the inner block and not in the user's
        have hword : x ∈ (headerWord c).bytes := ⟨hx, hx'⟩
        exact hm ⟨hheader hword, Set.disjoint_left.mp hdisj hword⟩

/-! ## The calls -/

variable {A : Allocator w σ} {h h' : Heap (CacheJitter w σ)}

/-- The header written before a displaced block. -/
theorem displaced_write {il : NonZeroLayout w} {ib : Block}
    (hl : p.innerLayoutFor l = some (some il)) (hsat : Satisfies ib il) (r : BitVec 64) :
    let userPtr := ib.ptr + (p.cacheLineSize + nextDisplacement p r)
    let m' := writeU64 m (userPtr - jitterHeaderSize)
      (p.packHeader userPtr (nextDisplacement p r)).toNat
    Set.EqOn m' m (ib.bytes)ᶜ ∧
      Displaced p ⟨⟨⟨userPtr, l.size⟩, l⟩, ⟨ib, il⟩⟩ m' (nextDisplacement p r) := by
  intro userPtr m'
  obtain ⟨-, hsize, -⟩ := innerLayoutFor_eq_some hl
  have hle := nextDisplacement_le p r
  have hheader := p.header_le
  have hlarge := hsat.large
  have hpre : p.jitterPrefix = p.cacheLineSize + p.maxDisplacement := rfl
  have hpos := l.size_pos
  have huser : userPtr = ib.ptr + (p.cacheLineSize + nextDisplacement p r) := rfl
  constructor
  · intro x hx
    have hout : ¬ (ib.ptr ≤ x ∧ x < ib.ptr + ib.len) := hx
    refine writeU64_of_not_mem ?_
    unfold jitterHeaderSize
    omega
  · constructor
    · exact hl
    · exact hle
    · exact dvd_nextDisplacement p r
    · rfl
    · rfl
    · show userPtr + l.size ≤ ib.ptr + ib.len
      omega
    · exact readU64_writeU64 (BitVec.isLt _)

/-- The free of a displaced block recovers the inner block from the header. -/
theorem deallocate_displaced (hd : Displaced h.alloc.toJitterParams c h.mem d) :
    deallocate A c.user.block.ptr c.user.layout h =
      let h' := A.deallocate c.inner.block.ptr c.inner.layout (h.map CacheJitter.inner)
      (none, ⟨{ h.alloc with inner := h'.alloc }, h'.mem⟩) := by
  have hinner : c.user.block.ptr - (h.alloc.cacheLineSize + d) = c.inner.block.ptr := by
    rw [hd.ptr_eq, Nat.add_sub_cancel]
  have hunpack : h.alloc.unpackHeader c.user.block.ptr
      (BitVec.ofNat 64 (readU64 h.mem (c.user.block.ptr - jitterHeaderSize))) = some d := by
    rw [hd.header_eq, BitVec.ofNat_toNat, BitVec.setWidth_eq]
    exact JitterParams.unpack_pack hd.disp_le hd.disp_dvd
  simp only [deallocate, hd.layout_eq, hunpack, hinner]

theorem deallocate_through {ptr : Nat} (hline : h.alloc.cacheLineSize < l.align) :
    deallocate A ptr l h =
      let h' := A.deallocate ptr l (h.map CacheJitter.inner)
      (none, ⟨{ h.alloc with inner := h'.alloc }, h'.mem⟩) := by
  simp only [deallocate, innerLayoutFor_eq_none_iff.mpr hline]

/-- **What the calls of the wrapper do.** -/
theorem sound (A : Allocator w σ) : (guard A).Sound A Jittered where
  carves := carves
  allocate_none := by
    intro l h h' heq
    change allocate A l h = (none, h') at heq
    rcases hl : h.alloc.innerLayoutFor l with _ | _ | il
    · rcases hinner : A.allocate l (h.map CacheJitter.inner) with ⟨_ | block, t⟩
      · simp only [allocate, hl, hinner, Prod.mk.injEq, true_and] at heq
        subst heq
        exact ⟨by simp [guard, serves, hl, hinner], rfl, Or.inr ⟨l, hinner⟩⟩
      · simp [allocate, hl, hinner] at heq
    · simp only [allocate, hl, Prod.mk.injEq, true_and] at heq
      subst heq
      exact ⟨by simp [guard, serves, hl], rfl, Or.inl rfl⟩
    · rcases hinner : A.allocate il (h.map CacheJitter.inner) with ⟨_ | block, t⟩
      · simp only [allocate, hl, hinner, Prod.mk.injEq, true_and] at heq
        subst heq
        exact ⟨by simp [guard, serves, hl, hinner], rfl, Or.inr ⟨il, hinner⟩⟩
      · simp [allocate, hl, hinner] at heq
  allocate_some := by
    intro l h h' b heq
    change allocate A l h = (some b, h') at heq
    rcases hl : h.alloc.innerLayoutFor l with _ | _ | il
    · rcases hinner : A.allocate l (h.map CacheJitter.inner) with ⟨_ | block, t⟩
      · simp [allocate, hl, hinner] at heq
      · simp only [allocate, hl, hinner, Prod.mk.injEq, Option.some.injEq] at heq
        obtain ⟨rfl, rfl⟩ := heq
        exact ⟨⟨block, l⟩, t, by simp [guard, serves, hl, hinner], rfl, hinner, rfl,
          fun _ => ⟨fun _ _ => rfl, .through (innerLayoutFor_eq_none_iff.mp hl) rfl⟩⟩
    · simp [allocate, hl] at heq
    · rcases hinner : A.allocate il (h.map CacheJitter.inner) with ⟨_ | block, t⟩
      · simp [allocate, hl, hinner] at heq
      · simp only [allocate, hl, hinner, Prod.mk.injEq, Option.some.injEq] at heq
        obtain ⟨rfl, rfl⟩ := heq
        refine ⟨⟨block, il⟩, t, by simp [guard, serves, hl, hinner], rfl, hinner, rfl,
          fun hsat => ?_⟩
        obtain ⟨hframe, hdisp⟩ := displaced_write hl hsat (nextRng h.alloc.rng)
        exact ⟨hframe, .displaced _ hdisp⟩
  deallocate := by
    intro c h hj hsat
    cases hj with
    | through hline heq =>
        refine ⟨_, h.mem, deallocate_through hline, rfl, fun _ _ => rfl, ?_⟩
        rw [heq]
        rfl
    | displaced d hd =>
        exact ⟨_, h.mem, deallocate_displaced hd, rfl, fun _ _ => rfl, rfl⟩

/-! ## What is to hold of a parameter set -/

/-- The bytes of a block and of its header, if it has one. -/
def footprint (p : JitterParams w) (c : Carving w) : Set Nat :=
  if p.cacheLineSize < c.user.layout.align then c.user.block.bytes
  else (headerWord c).bytes ∪ c.user.block.bytes

/-- The block is where the request wants it, inside the inner block and apart from its header. -/
structure Placed (p : JitterParams w) (c : Carving w) : Prop where
  aligned : c.user.layout.align ∣ c.user.block.ptr
  large : c.user.layout.size ≤ c.user.block.len
  inside : footprint p c ⊆ c.inner.block.bytes
  apart : c.user.layout.align ≤ p.cacheLineSize →
    Disjoint (headerWord c).bytes c.user.block.bytes

/-- What holds of the states that a run reaches. -/
structure RunCorrect (A : Allocator w σ)
    (s : GuardRun w (CacheJitter w (Recorded w σ)) JitterPanic) : Prop where
  placed : ∀ c ∈ s.live, Placed s.heap.alloc.toJitterParams c
  apart : ∀ c ∈ s.live, ∀ c' ∈ s.live, c ≠ c' →
    Disjoint (footprint s.heap.alloc.toJitterParams c) (footprint s.heap.alloc.toJitterParams c')
  received_eq : s.heap.alloc.inner.received = s.freed.map fun c => c.inner.ticket
  issued_perm : s.heap.alloc.inner.issued.Perm ((s.freed ++ s.live).map fun c => c.inner.ticket)
  panicked_eq : s.panicked = none
  served : ∀ l, (allocate (recorded A) l s.heap).1.isSome = (serves (recorded A) l s.heap).isSome

/-- Headers and displacements determine each other. -/
structure HeadersExact (p : JitterParams w) : Prop where
  unpack_pack : ∀ addr d, d ≤ p.maxDisplacement → p.cacheLineSize ∣ d →
    p.unpackHeader addr (p.packHeader addr d) = some d
  pack_of_unpack : ∀ addr header d, p.unpackHeader addr header = some d →
    header = p.packHeader addr d
  mac_checked : ∀ addr header d, d ≤ p.maxDisplacement → p.cacheLineSize ∣ d →
    header &&& headerDispMask = p.packHeader addr d &&& headerDispMask →
    header ≠ p.packHeader addr d → p.unpackHeader addr header = none

theorem Jittered.footprint_subset (hj : Jittered p c m) : footprint p c ⊆ c.inner.block.bytes := by
  unfold footprint
  cases hj with
  | through hline heq => rw [if_pos hline, heq]
  | displaced d hd =>
      obtain ⟨hheader, huser, -⟩ := hd.parts
      split
      · exact huser
      · exact Set.union_subset hheader huser

theorem Jittered.placed (hj : Jittered p c m) (hsat : Satisfies c.inner.block c.inner.layout) :
    Placed p c := by
  have huser := (carves p).satisfies hj hsat
  refine ⟨huser.aligned, huser.large, hj.footprint_subset, fun hle => ?_⟩
  cases hj with
  | through hline heq => exact absurd hle (Nat.not_le_of_lt hline)
  | displaced d hd => exact hd.parts.2.2

theorem headersExact_iff :
    HeadersExact p ↔ p.cacheLineSize * 2 ^ headerDispBits ≤ 2 ^ w := by
  constructor
  · intro hexact
    by_contra hlt
    obtain ⟨header, hunpack, hne⟩ := JitterParams.exists_forged (Nat.lt_of_not_le hlt) 0
    exact hne (hexact.pack_of_unpack 0 header 0 hunpack)
  · intro hle
    constructor
    · exact fun _ _ => JitterParams.unpack_pack
    · exact fun _ _ _ => JitterParams.eq_pack_of_unpack hle
    · exact fun _ _ _ => JitterParams.unpack_of_changed_mac

/-- The run part holds for every parameter set. -/
theorem runCorrect {I : Heap σ → Set (Grant w) → Prop} (hA : HonoursCore A I) {inner : σ} {m : Mem}
    (hinit : I ⟨inner, m⟩ ∅) {jit : CacheJitter w (Recorded w σ)}
    (hinner : jit.inner = ⟨inner, [], []⟩) {ops : List (GuardOp w)}
    {s : GuardRun w (CacheJitter w (Recorded w σ)) JitterPanic}
    (hrun : Machine.run (GuardRun.step (guard (recorded A))) (GuardRun.init jit m) ops = some s) :
    RunCorrect A s := by
  have hsound := sound (recorded A)
  have hrec := recorded_honoursCore hA
  have hstart : GuardRun.Inv (guard (recorded A)) Jittered I jit.toJitterParams
      (GuardRun.init jit m) := by
    apply GuardRun.Inv.init
    · show I ⟨jit.inner.inner, m⟩ ∅
      rw [hinner]
      exact hinit
    · exact congrArg Recorded.issued hinner
    · exact congrArg Recorded.received hinner
  have hinv := GuardRun.run_inv hsound hA hstart hrun
  have hjittered : ∀ c ∈ s.live, Jittered s.heap.alloc.toJitterParams c s.heap.mem :=
    fun c hc => hinv.holds.holds c hc
  constructor
  · intro c hc
    exact (hjittered c hc).placed (hinv.holds.inner_satisfies hrec hc)
  · intro c hc c' hc' hne
    have hdisj := hinv.holds.inner_disjoint hrec hc hc' hne
    exact hdisj.mono (hjittered c hc).footprint_subset (hjittered c' hc').footprint_subset
  · exact hinv.received_eq
  · exact hinv.issued_perm
  · exact hinv.panicked_eq
  · exact hinv.isSome_allocate hsound hA

theorem withParams_eq_some {inner : σ} {line assoc : Nat} {seed : BitVec 64}
    {jit : CacheJitter w σ} (hnew : withParams w inner line assoc seed = some jit) :
    jit.cacheLineSize = line ∧ jit.associativity = assoc ∧ jit.inner = inner := by
  unfold withParams at hnew
  split at hnew
  case isFalse => cases hnew
  case isTrue =>
      split at hnew
      case isFalse => cases hnew
      case isTrue =>
          split at hnew
          · cases hnew
          · cases hnew
            exact ⟨rfl, rfl, rfl⟩

/-- **`CacheJitter` is correct exactly for the lines that a 16-bit number of can be addressed.**
Runs are correct for every parameter set, seed and state of the generator; that no header but the
packed one is accepted needs `cacheLineSize * 2 ^ 16 ≤ 2 ^ w`. -/
theorem cacheJitter_correct_iff {I : Heap σ → Set (Grant w) → Prop} (hA : HonoursCore A I)
    {inner : σ} {m : Mem} (hinit : I ⟨inner, m⟩ ∅) {line assoc : Nat} {seed : BitVec 64}
    {jit : CacheJitter w (Recorded w σ)}
    (hnew : withParams w (⟨inner, [], []⟩ : Recorded w σ) line assoc seed = some jit) :
    ((∀ rng ops s, Machine.run (GuardRun.step (guard (recorded A)))
        (GuardRun.init { jit with rng := rng } m) ops = some s → RunCorrect A s) ∧
      HeadersExact jit.toJitterParams) ↔ line * 2 ^ headerDispBits ≤ 2 ^ w := by
  obtain ⟨hline, -, hinner⟩ := withParams_eq_some hnew
  have hheaders : HeadersExact jit.toJitterParams ↔ line * 2 ^ headerDispBits ≤ 2 ^ w := by
    rw [headersExact_iff, hline]
  constructor
  · rintro ⟨-, hexact⟩
    exact hheaders.mp hexact
  · intro hle
    refine ⟨fun rng ops s hrun => ?_, hheaders.mpr hle⟩
    refine runCorrect hA hinit ?_ hrun
    exact hinner

/-- **A line of `2 ^ 50` bytes** and one of it is accepted as a parameter set. At address 4096 the
header for `2 ^ 14` lines, outside the window, is accepted for the displacement 0. -/
theorem forged_header_accepted :
    ∃ jit, withParams 64 () (2 ^ 50) 1 1#64 = some jit ∧
      jit.unpackHeader 4096 0x25D58C797C954000#64 = some 0 ∧
      jit.packHeader 4096 0 ≠ 0x25D58C797C954000#64 ∧ ¬ HeadersExact jit.toJitterParams := by
  have hrun : (withParams 64 () (2 ^ 50) 1 1#64).map (fun jit =>
      (jit.unpackHeader 4096 0x25D58C797C954000#64, jit.packHeader 4096 0)) =
      some (some 0, 0xC7A5C81F048D0000#64) := by decide +kernel
  obtain ⟨jit, hnew, hvalue⟩ := Option.map_eq_some_iff.mp hrun
  obtain ⟨hunpack, hpack⟩ := Prod.mk.inj hvalue
  have hne : jit.packHeader 4096 0 ≠ 0x25D58C797C954000#64 := by
    rw [hpack]
    decide
  exact ⟨jit, hnew, hunpack, hne, fun hexact => hne (hexact.pack_of_unpack _ _ _ hunpack).symm⟩

/-! ## A buffer of 2048 bytes -/

def buffer2048 : Heap (BumpArena (InlineBacked 64 2048)) :=
  ⟨⟨.lit 64 2048 4096 (Eq.refl true), 2048, 0⟩, fun _ => 0⟩

theorem buffer2048_holds :
    BumpArena.Holds (InlineBacked.range 64 2048) 4096 buffer2048 (∅ : Set (Grant 64)) :=
  BumpArena.holds_new (b := InlineBacked.lit 64 2048 4096 (Eq.refl true)) rfl _

/-- Lines of 64 bytes and eight of them, over the buffer. -/
theorem cacheJitter_correct_iff_buffer2048 :
    ∃ jit, withParams 64 (⟨buffer2048.alloc, [], []⟩ : Recorded 64 _) 64 8 1#64 = some jit ∧
      HeadersExact jit.toJitterParams ∧
      ∀ rng ops s, Machine.run (GuardRun.step (guard (recorded
          (BumpArena.allocator 64 (InlineBacked.range 64 2048)))))
        (GuardRun.init { jit with rng := rng } buffer2048.mem) ops = some s →
        RunCorrect (BumpArena.allocator 64 (InlineBacked.range 64 2048)) s := by
  have hsome : (withParams 64 (⟨buffer2048.alloc, [], []⟩ : Recorded 64 _) 64 8 1#64).isSome := by
    decide +kernel
  obtain ⟨jit, hnew⟩ := Option.isSome_iff_exists.mp hsome
  have hA := BumpArena.honours (w := 64) (InlineBacked.range_lawful 64 2048) 4096 (by decide)
  obtain ⟨hruns, hexact⟩ :=
    (cacheJitter_correct_iff hA.toHonoursCore buffer2048_holds hnew).mpr (by decide)
  exact ⟨jit, hnew, hexact, hruns⟩

end CacheJitter

end ForgeAlloc
