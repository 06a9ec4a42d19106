import ForgeAlloc.Backing.Inline
import ForgeAlloc.Containers.AlignedCol
import ForgeAlloc.Library.Run

set_option autoImplicit false

/-! # Runs of an `AlignedColBuffer`

`ColRun` is a buffer, the heap of the allocator it takes its block from, and the concatenation of
what was appended with success since the last `clear`. The allocator is any that meets the
contract; it is watched (`policed`), so that a ticket handed back twice, or one that is not the
ticket of the current allocation, would show.

Every call is described by `Called`. The three ways of appending are one: a `push` of a byte and an
`extend_from_typed` do what `extend_from_slice` does for the same bytes (`push_eq`,
`extendFromTyped_eq`).
-/

namespace ForgeAlloc

open MachineInt ByteMemory Policed

namespace AlignedColBuffer

variable {w align : Nat} {σ : Type}

inductive ColCall (w : Nat)
  | push (byte : UInt8)
  | extendFromSlice (bytes : List UInt8)
  | extendFromTyped (T : RustType w) (slice : Slice T)
  | reserve (additional : Nat)
  | clear

namespace ColCall

/-- The bytes a successful call appends. -/
def appended : ColCall w → List UInt8
  | push byte => [byte]
  | extendFromSlice bytes => bytes
  | extendFromTyped _ slice => slice.bytes
  | reserve _ => []
  | clear => []

/-- The room a call reserves. -/
def additional : ColCall w → Nat
  | push _ => 1
  | extendFromSlice bytes => bytes.length
  | extendFromTyped T slice => T.size * slice.len
  | reserve additional => additional
  | clear => 0

/-- The contents after a successful call. -/
def contents (c : ColCall w) (old : List UInt8) : List UInt8 :=
  match c with
  | clear => []
  | _ => old ++ c.appended

end ColCall

def call (A : Allocator w σ) (buf : AlignedColBuffer align) (h : Heap σ) :
    ColCall w → Bool × AlignedColBuffer align × Heap σ
  | .push byte => buf.push A byte h
  | .extendFromSlice bytes => buf.extendFromSlice A bytes h
  | .extendFromTyped T slice => buf.extendFromTyped A T slice h
  | .reserve additional => buf.reserve A additional h
  | .clear => (true, buf.clear, h)

structure ColRun (align : Nat) (σ : Type) where
  buf : AlignedColBuffer align
  heap : Heap σ
  contents : List UInt8

def ColRun.step (A : Allocator w σ) (s : ColRun align σ) (c : ColCall w) :
    Option (ColRun align σ) :=
  match s.buf.call A s.heap c with
  | (true, buf, h) => some ⟨buf, h, c.contents s.contents⟩
  | (false, buf, h) => some ⟨buf, h, s.contents⟩

/-! ## One call -/

variable {A : Allocator w σ} {I : Heap σ → Set (Grant w) → Prop} {K : Set (Grant w)}
  {buf buf' : AlignedColBuffer align} {h h' : Heap (Policed w σ)} {ok : Bool} {c : ColCall w}

theorem extendFromTyped_eq {A : Allocator w σ} {h : Heap σ} (T : RustType w) (slice : Slice T) :
    buf.extendFromTyped A T slice h = buf.extendFromSlice A slice.bytes h := by
  rw [extendFromTyped, extendFromSlice, slice.length_bytes]

theorem push_eq {A : Allocator w σ} {h : Heap σ} (byte : UInt8) (hlen : buf.len ≤ buf.cap)
    (hcap : buf.cap < 2 ^ w) : buf.push A byte h = buf.extendFromSlice A [byte] h := by
  rw [push, extendFromSlice]
  split
  case isTrue heq => rfl
  case isFalse hne =>
      rw [List.length_singleton, reserve_one_of_lt (lt_of_le_of_ne hlen hne) hcap]

/-- What a call does. The heap after the `reserve` for its room is the heap as the allocator left
it; all that the call itself writes is `appended`, behind the old bytes and within the capacity. -/
structure Called (A : Allocator w σ) (I : Heap σ → Set (Grant w) → Prop) (K : Set (Grant w))
    (buf buf' : AlignedColBuffer align) (h h' : Heap (Policed w σ)) (ok : Bool) (c : ColCall w) :
    Prop where
  owns : Owns I K buf' h'
  len_le : buf'.len ≤ buf'.cap
  others : Set.EqOn h'.mem h.mem (liveBytes K)
  of_err : ok = false → buf' = buf ∧ buf'.asBytes h'.mem = buf.asBytes h.mem ∧
    h'.mem = (buf.reserve (policed A) c.additional h).2.2.mem
  of_ok : ok = true → buf'.asBytes h'.mem = c.contents (buf.asBytes h.mem) ∧
    h'.mem = writeBytes (buf.reserve (policed A) c.additional h).2.2.mem (buf'.ptr + buf.len)
      c.appended ∧
    buf.len + c.appended.length ≤ buf'.cap

theorem writeBytes_nil (m : Mem) (a : Nat) : writeBytes m a [] = m :=
  funext fun x => writeBytes_of_not_mem (by simp only [List.length_nil]; omega)

/-- What is stored behind the old bytes is appended to them. -/
theorem Grown.store (hA : Honours A I) (hg : Grown I K buf buf' h h')
    (hlen : buf.len ≤ buf.cap) {bs : List UInt8} (hroom : buf.len + bs.length ≤ buf'.cap) :
    Owns I K (buf'.store bs h').1 (buf'.store bs h').2 ∧
      (buf'.store bs h').1.len ≤ (buf'.store bs h').1.cap ∧
      Set.EqOn (buf'.store bs h').2.mem h.mem (liveBytes K) ∧
      (buf'.store bs h').1.asBytes (buf'.store bs h').2.mem = buf.asBytes h.mem ++ bs := by
  have hlen' := hg.len_eq
  obtain ⟨howns, hothers⟩ := hg.owns.write hA
    (m := writeBytes h'.mem (buf'.ptr + buf'.len) bs)
    fun x hx => writeBytes_of_not_mem (by omega)
  refine ⟨?_, ?_, hothers.trans hg.others, ?_⟩
  · cases howns with
    | nothing hcap hptr hh => exact .nothing hcap hptr hh
    | block g hcap halign hptr hh => exact .block g hcap halign hptr hh
  · show buf'.len + bs.length ≤ buf'.cap
    omega
  · rw [← hg.asBytes hlen]
    exact readBytes_append h'.mem buf'.ptr buf'.len bs

/-- **Appending**: the bytes are behind the old ones, or nothing has changed. -/
theorem Owns.append_spec (hA : Honours A I) (ho : Owns I K buf h) (hlen : buf.len ≤ buf.cap)
    (hadd : c.additional = c.appended.length)
    (hcont : ∀ old, c.contents old = old ++ c.appended)
    (heq : buf.extendFromSlice (policed A) c.appended h = (ok, buf', h')) :
    Called A I K buf buf' h h' ok c := by
  unfold extendFromSlice at heq
  split at heq
  case h_1 b₁ h₁ hres =>
      cases heq
      obtain ⟨hgrown, -, herr⟩ := ho.reserve_spec hA hres
      have hsame : buf' = buf := herr rfl
      subst hsame
      exact ⟨hgrown.owns, hlen, hgrown.others,
        fun _ => ⟨rfl, hgrown.asBytes hlen, by rw [hadd, hres]⟩, by simp⟩
  case h_2 b₁ h₁ hres =>
      cases heq
      obtain ⟨hgrown, hok, -⟩ := ho.reserve_spec hA hres
      obtain ⟨howns, hlen', hothers, hbytes⟩ := hgrown.store hA hlen (hok rfl)
      refine ⟨howns, hlen', hothers, by simp, fun _ => ⟨?_, ?_, hok rfl⟩⟩
      · rw [hcont]
        exact hbytes
      · rw [hadd, hres, ← hgrown.len_eq]

theorem Owns.reserve_called (hA : Honours A I) (ho : Owns I K buf h)
    (hlen : buf.len ≤ buf.cap) {additional : Nat}
    (heq : buf.reserve (policed A) additional h = (ok, buf', h')) :
    Called A I K buf buf' h h' ok (.reserve additional) := by
  obtain ⟨hgrown, hok, herr⟩ := ho.reserve_spec hA heq
  have hlen' : buf'.len ≤ buf'.cap := by
    rw [hgrown.len_eq]
    exact hlen.trans hgrown.cap_le
  have hmem : h'.mem = (buf.reserve (policed A) additional h).2.2.mem := by rw [heq]
  refine ⟨hgrown.owns, hlen', hgrown.others, fun hf => ⟨herr hf, hgrown.asBytes hlen, hmem⟩,
    fun ht => ⟨?_, ?_, hlen.trans hgrown.cap_le⟩⟩
  · exact (hgrown.asBytes hlen).trans (List.append_nil _).symm
  · exact hmem.trans (writeBytes_nil _ _).symm

theorem Owns.clear_called (ho : Owns I K buf h) (hlen : buf.len ≤ buf.cap) :
    Called A I K buf buf.clear h h true .clear := by
  have hcap := ho.cap_lt
  have hadd : checkedAdd w buf.len 0 = some buf.len :=
    checkedAdd_eq_some.mpr ⟨by omega, rfl⟩
  have hres : buf.reserve (policed A) 0 h = (true, buf, h) := by
    rw [reserve, hadd]
    exact if_pos hlen
  refine ⟨?_, Nat.zero_le _, fun _ _ => rfl, by simp, fun _ => ⟨rfl, ?_, hlen⟩⟩
  · cases ho with
    | nothing hcap hptr hh => exact .nothing hcap hptr hh
    | block g hcap halign hptr hh => exact .block g hcap halign hptr hh
  · show h.mem = writeBytes (buf.reserve (policed A) 0 h).2.2.mem (buf.ptr + buf.len) []
    rw [hres, writeBytes_nil]

theorem Owns.called (hA : Honours A I) (ho : Owns I K buf h) (hlen : buf.len ≤ buf.cap)
    (heq : buf.call (policed A) h c = (ok, buf', h')) : Called A I K buf buf' h h' ok c := by
  cases c with
  | push byte =>
      refine ho.append_spec hA hlen rfl (fun _ => rfl) ?_
      rw [← heq]
      exact (push_eq byte hlen ho.cap_lt).symm
  | extendFromSlice bytes => exact ho.append_spec hA hlen rfl (fun _ => rfl) heq
  | extendFromTyped T slice =>
      refine ho.append_spec hA hlen slice.length_bytes.symm (fun _ => rfl) ?_
      rw [← heq]
      exact (extendFromTyped_eq T slice).symm
  | reserve additional => exact ho.reserve_called hA hlen heq
  | clear =>
      cases heq
      exact ho.clear_called hlen

/-! ## Runs -/

/-- The invariant of the runs. The memory of the others is `m₀`, their blocks are `K`. -/
structure ColRun.Inv (I : Heap σ → Set (Grant w) → Prop) (K : Set (Grant w)) (m₀ : Mem)
    (s : ColRun align (Policed w σ)) : Prop where
  owns : Owns I K s.buf s.heap
  len_le : s.buf.len ≤ s.buf.cap
  contents : s.buf.asBytes s.heap.mem = s.contents
  others : Set.EqOn s.heap.mem m₀ (liveBytes K)

variable {m₀ : Mem}
  {s s' : ColRun align (Policed w σ)} {cs : List (ColCall w)}

theorem ColRun.Inv.step (hA : Honours A I) (hs : s.Inv I K m₀)
    (hstep : s.step (policed A) c = some s') : s'.Inv I K m₀ := by
  unfold ColRun.step at hstep
  split at hstep
  case h_1 buf h hcall =>
      cases hstep
      have hc := hs.owns.called hA hs.len_le hcall
      refine ⟨hc.owns, hc.len_le, ?_, hc.others.trans hs.others⟩
      rw [← hs.contents]
      exact (hc.of_ok rfl).1
  case h_2 buf h hcall =>
      cases hstep
      have hc := hs.owns.called hA hs.len_le hcall
      refine ⟨hc.owns, hc.len_le, ?_, hc.others.trans hs.others⟩
      rw [← hs.contents]
      exact (hc.of_err rfl).2.1

theorem ColRun.Inv.run (hA : Honours A I) (hs : s.Inv I K m₀)
    (hrun : Machine.run (ColRun.step (policed A)) s cs = some s') : s'.Inv I K m₀ :=
  Machine.run_invariant (fun _ _ _ ht hstep => ht.step hA hstep) hs hrun

/-- A buffer that has just been built. -/
theorem ColRun.inv_withCapacity (hA : Honours A I) {s₀ : σ} (hinv : I ⟨s₀, m₀⟩ K) {capacity : Nat}
    (hcap : capacity < 2 ^ w)
    (hnew : withCapacity (policed A) align capacity ⟨⟨s₀, [], false⟩, m₀⟩ = (true, buf, h)) :
    ColRun.Inv I K m₀ ⟨buf, h, []⟩ := by
  have ho : Owns I K (new align) ⟨⟨s₀, [], false⟩, m₀⟩ := .nothing rfl rfl (.init hinv)
  rw [withCapacity_eq (policed A) hcap] at hnew
  obtain ⟨hgrown, -, -⟩ := ho.reserve_spec hA hnew
  have hlen : buf.len = 0 := hgrown.len_eq
  refine ⟨hgrown.owns, hlen.le.trans (Nat.zero_le _), ?_, hgrown.others⟩
  show readBytes h.mem buf.ptr buf.len = []
  rw [hlen]
  rfl

/-- **Typed round trip.** The bytes of a typed slice, alone in the buffer, are read back as that
slice. -/
theorem asTyped_of_asBytes {T : RustType w} {slice : Slice T} {m : Mem} (hsize : T.size ≠ 0)
    (hdvd : T.align ∣ buf.ptr) (hlen : buf.len = T.size * slice.len)
    (hbytes : buf.asBytes m = slice.bytes) :
    buf.asTyped T m = some (slice.len, slice.bytes) := by
  have hdiv : T.size * slice.len / T.size = slice.len :=
    Nat.mul_div_cancel_left _ (Nat.pos_of_ne_zero hsize)
  rw [asTyped, if_neg, hlen, hdiv, ← hlen]
  · exact congrArg (fun bs => some (slice.len, bs)) hbytes
  · rintro (hz | hmod | halign)
    · exact hsize hz
    · exact hmod (by rw [hlen, Nat.mul_mod_right])
    · exact halign (Nat.mod_eq_zero_of_dvd hdvd)

/-- **What an `AlignedColBuffer` promises**, over every allocator that meets the contract, after
every run of calls on a buffer that was built with any capacity, zero included (`new`). The
contents are those that were appended; the pointer is aligned and the length at most the capacity;
the blocks `K` of everybody else keep their bytes; what is out is the current allocation and
nothing else, and nothing else was ever handed back. A call that fails leaves the buffer and its
bytes and writes nothing; one that succeeds writes what it appends, within the capacity. The drop
leaves nothing out. Reading elements of positive size back returns what was appended alone. -/
theorem aligned_col_correct (hA : Honours A I) (hpow : align.isPowerOfTwo) {s₀ : σ}
    (hinv : I ⟨s₀, m₀⟩ K) {capacity : Nat} (hcap : capacity < 2 ^ w)
    (hnew : withCapacity (policed A) align capacity ⟨⟨s₀, [], false⟩, m₀⟩ = (true, buf, h))
    (hrun : Machine.run (ColRun.step (policed A)) ⟨buf, h, []⟩ cs = some s) :
    s.buf.asBytes s.heap.mem = s.contents ∧
    align ∣ s.buf.ptr ∧ s.buf.len ≤ s.buf.cap ∧
    Set.EqOn s.heap.mem m₀ (liveBytes K) ∧
    s.heap.alloc.out = (s.buf.ticket w).toList ∧ s.heap.alloc.misused = false ∧
    (∀ c ok buf' h', s.buf.call (policed A) s.heap c = (ok, buf', h') →
      (ok = false → buf' = s.buf ∧ buf'.asBytes h'.mem = s.buf.asBytes s.heap.mem ∧
        h'.mem = (s.buf.reserve (policed A) c.additional s.heap).2.2.mem) ∧
      (ok = true → h'.mem = writeBytes (s.buf.reserve (policed A) c.additional s.heap).2.2.mem
          (buf'.ptr + s.buf.len) c.appended ∧
        s.buf.len + c.appended.length ≤ buf'.cap)) ∧
    (∃ h', s.buf.drop (policed A) s.heap = some h' ∧ h'.alloc.out = [] ∧
      h'.alloc.misused = false ∧ Set.EqOn h'.mem m₀ (liveBytes K)) ∧
    (∀ (T : RustType w) (slice : Slice T) buf' h', T.size ≠ 0 → T.align ≤ align →
      s.buf.len = 0 → s.buf.extendFromTyped (policed A) T slice s.heap = (true, buf', h') →
      buf'.asTyped T h'.mem = some (slice.len, slice.bytes)) := by
  have hs : s.Inv I K m₀ := (ColRun.inv_withCapacity hA hinv hcap hnew).run hA hrun
  refine ⟨hs.contents, hs.owns.align_dvd hA, hs.len_le, hs.others, hs.owns.out, hs.owns.clean,
    ?_, ?_, ?_⟩
  · intro c ok buf' h' hcall
    have hc := hs.owns.called hA hs.len_le hcall
    exact ⟨hc.of_err, fun hok => (hc.of_ok hok).2⟩
  · obtain ⟨h', hdrop, hh, hframe⟩ := hs.owns.drop_spec hA
    exact ⟨h', hdrop, hh.out, hh.clean, hframe.trans hs.others⟩
  · intro T slice buf' h' hsize halign hempty hcall
    have hc := hs.owns.called hA hs.len_le (c := .extendFromTyped T slice) hcall
    have hdvd : T.align ∣ align := dvd_of_le_of_isPowerOfTwo T.align_pow hpow halign
    have hbytes : buf'.asBytes h'.mem = slice.bytes := by
      rw [(hc.of_ok rfl).1, asBytes, hempty]
      rfl
    have hlen : buf'.len = T.size * slice.len := by
      rw [← slice.length_bytes, ← hbytes, asBytes, length_readBytes]
    exact asTyped_of_asBytes hsize (hdvd.trans (hc.owns.align_dvd hA)) hlen hbytes

/-! ## Over an arena of 256 bytes -/

/-- Elements of four bytes, and of none. -/
def word : RustType 64 := .lit 64 4 4 (Eq.refl true)

def unit : RustType 64 := .lit 64 0 1 (Eq.refl true)

def twoWords : Slice word := ⟨2, [1, 0, 0, 0, 2, 0, 0, 0], by decide, by decide⟩

def threeUnits : Slice unit := ⟨3, [], by decide, by decide⟩

def arena256 : BumpArena (InlineBacked 64 256) := ⟨.lit 64 256 4096 (Eq.refl true), 256, 0⟩

theorem arena256_holds : BumpArena.Holds (InlineBacked.range 64 256) 4096
    ⟨arena256, fun _ => 0⟩ (∅ : Set (Grant 64)) :=
  BumpArena.holds_new (b := InlineBacked.lit 64 256 4096 (Eq.refl true)) rfl _

/-- The buffer grows twice, and the arena is full when it should grow again. -/
theorem aligned_col_correct_arena256 :
    ∃ s, Machine.run (ColRun.step (policed (BumpArena.allocator 64 (InlineBacked.range 64 256))))
        ⟨new 16, ⟨⟨arena256, [], false⟩, fun _ => 0⟩, []⟩
        [.push 7, .clear, .extendFromTyped word twoWords, .extendFromSlice [3], .reserve 300] =
          some s ∧
      s.buf.asBytes s.heap.mem = s.contents ∧ s.heap.alloc.misused = false := by
  have hsome : (Machine.run
      (ColRun.step (policed (BumpArena.allocator 64 (InlineBacked.range 64 256))))
      ⟨new 16, ⟨⟨arena256, [], false⟩, fun _ => 0⟩, []⟩
      [.push 7, .clear, .extendFromTyped word twoWords, .extendFromSlice [3],
        .reserve 300]).isSome := by decide +kernel
  obtain ⟨s, hrun⟩ := Option.isSome_iff_exists.mp hsome
  have hA := BumpArena.honours (w := 64) (InlineBacked.range_lawful 64 256) 4096 (by decide)
  obtain ⟨hbytes, -, -, -, -, hclean, -⟩ :=
    aligned_col_correct hA.toHonours ⟨4, rfl⟩ arena256_holds (show 0 < 2 ^ 64 by decide) rfl hrun
  exact ⟨s, hrun, hbytes, hclean⟩

/-- Three elements of size zero are appended to a new buffer and cannot be read back, although the
alignment of the buffer is large enough. -/
theorem as_typed_of_zero_size :
    unit.align ≤ 64 ∧
      ∃ buf h, (new 64).extendFromTyped
          (policed (BumpArena.allocator 64 (InlineBacked.range 64 256))) unit threeUnits
          ⟨⟨arena256, [], false⟩, fun _ => 0⟩ = (true, buf, h) ∧
        buf.asTyped unit h.mem = none ∧
        buf.asTyped unit h.mem ≠ some (threeUnits.len, threeUnits.bytes) := by
  refine ⟨by decide, _, _, rfl, rfl, fun hsome => ?_⟩
  exact Option.some_ne_none _ hsome.symm

end AlignedColBuffer

end ForgeAlloc
