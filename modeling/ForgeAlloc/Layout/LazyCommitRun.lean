import ForgeAlloc.Layout.LazyCommit

set_option autoImplicit false

/-! # Runs over a lazily committed mapping

`LazyRun.Inv` is the invariant of the runs: the watermark is a witness, the capacity of the client
is inside the mapping, and every block that was ever handed out is below the watermark. Frees,
rewinds and resets move the cursor of the client only.
-/

namespace ForgeAlloc

open MachineInt ByteMemory MmapBacked

namespace LazyRun

variable {w : Nat} {β : Type} {os : Os} {R : FixedRange β} {toMapping : β → MmapBacked}
  {s s' : LazyRun β} {e : LazyCall w} {es : List (LazyCall w)}

structure Inv (w : Nat) (os : Os) (toMapping : β → MmapBacked) (s : LazyRun β) : Prop where
  witnessed : Witnessed w os (s.client.bottom toMapping)
  capacity_le : s.client.capacity ≤ (s.client.bottom toMapping).len
  inside : ∀ b ∈ s.issued, b.bytes ⊆ (s.client.bottom toMapping).prefixBytes

/-- The invariant survives when the mapping advances. -/
theorem Inv.advance {c : LazyClient β} {m : Mem} (hs : Inv w os toMapping s)
    (hadv : Advance w os (s.client.bottom toMapping) (c.bottom toMapping))
    (hcap : c.capacity = s.client.capacity) : Inv w os toMapping ⟨c, m, s.issued⟩ where
  witnessed := hadv.witnessed
  capacity_le := by
    show c.capacity ≤ (c.bottom toMapping).len
    rw [hcap, hadv.len_eq]
    exact hs.capacity_le
  inside := fun b hb => (hs.inside b hb).trans hadv.prefix_subset

theorem Inv.step_request (hF : Forwards w os R toMapping) (hs : Inv w os toMapping s)
    {q : LazyRequest w} (hstep : step os R s (.request q) = some s') :
    Inv w os toMapping s' ∧
      Advance w os (s.client.bottom toMapping) (s'.client.bottom toMapping) := by
  simp only [step] at hstep
  split at hstep
  case isFalse => cases hstep
  case isTrue hq =>
      obtain ⟨⟨r, c, m⟩, hcall, rfl⟩ := Option.map_eq_some_iff.mp hstep
      have hserved := LazyClient.request_served hF hs.witnessed hs.capacity_le hq hcall
      have hkeep := hs.advance (m := m) hserved.toAdvance hserved.capacity_eq
      refine ⟨⟨hkeep.witnessed, hkeep.capacity_le, ?_⟩, hserved.toAdvance⟩
      intro b hb
      rcases List.mem_append.mp hb with hnew | hold
      · exact hserved.inside b (Option.mem_toList.mp hnew)
      · exact hkeep.inside b hold

/-- A commit of any part of the range, whoever asks for it. -/
theorem commit_spec (off len : Nat) (hF : Forwards w os R toMapping) {c : LazyClient β}
    (hs : Witnessed w os (c.bottom toMapping)) (hcap : c.capacity ≤ (c.bottom toMapping).len) :
    Advance w os (c.bottom toMapping) ((c.commit w os R off len).2.bottom toMapping) ∧
      (c.commit w os R off len).2.capacity = c.capacity ∧
      ((c.commit w os R off len).1 = true → off + len ≤ c.capacity →
        off + len ≤ ((c.commit w os R off len).2.bottom toMapping).committed) ∧
      ((c.commit w os R off len).1 = false →
        ((c.commit w os R off len).2.bottom toMapping).committed =
          (c.bottom toMapping).committed) := by
  have hcall : osCommit w os off len (c.bottom toMapping) =
      ((c.commit w os R off len).1, (c.commit w os R off len).2.bottom toMapping) := by
    cases c with
    | mapping s => rfl
    | arena a => exact hF.commit rfl
    | stack a => exact hF.commit rfl
  obtain ⟨hadv, hok, herr, -⟩ := osCommit_spec hs hcall
  refine ⟨hadv, ?_, fun htrue hle => hok htrue (hle.trans hcap), herr⟩
  cases c with
  | mapping s => exact hadv.len_eq
  | arena a => rfl
  | stack a => rfl

theorem Inv.step (hF : Forwards w os R toMapping) (hs : Inv w os toMapping s)
    (hstep : LazyRun.step os R s e = some s') :
    Inv w os toMapping s' ∧
      Advance w os (s.client.bottom toMapping) (s'.client.bottom toMapping) := by
  have hrefl := Advance.refl hs.witnessed
  cases e with
  | request q => exact hs.step_request hF hstep
  | deallocate ptr l =>
      cases hstep
      have hkeep : (s.client.deallocate R ptr l s.mem).bottom toMapping =
            s.client.bottom toMapping ∧
          (s.client.deallocate R ptr l s.mem).capacity = s.client.capacity := by
        cases s.client with
        | mapping t => exact ⟨rfl, rfl⟩
        | arena a => exact ⟨rfl, rfl⟩
        | stack a => exact StackAlloc.bottom_onDeallocate toMapping ptr l ⟨a, s.mem⟩
      rw [← hkeep.1] at hrefl
      have hadv : Advance w os (s.client.bottom toMapping)
          ((s.client.deallocate R ptr l s.mem).bottom toMapping) := by
        rw [← hkeep.1]
        exact hrefl
      exact ⟨hs.advance hadv hkeep.2, hadv⟩
  | commit off len =>
      simp only [LazyRun.step] at hstep
      split at hstep
      case isFalse => cases hstep
      case isTrue hle =>
          cases hstep
          obtain ⟨hadv, hcap, -, -⟩ :=
            commit_spec off len hF hs.witnessed hs.capacity_le
          exact ⟨hs.advance hadv hcap, hadv⟩
  | rewindTo mark =>
      obtain ⟨c, m, issued⟩ := s
      cases c with
      | mapping t => cases hstep
      | stack a => cases hstep
      | arena a =>
          cases hstep
          exact ⟨hs.advance (c := .arena (a.rewindTo mark)) hrefl rfl, hrefl⟩
  | reset =>
      obtain ⟨c, m, issued⟩ := s
      cases c with
      | mapping t => cases hstep
      | stack a => cases hstep
      | arena a =>
          cases hstep
          exact ⟨hs.advance (c := .arena a.reset) hrefl rfl, hrefl⟩

theorem Inv.run (hF : Forwards w os R toMapping) (hs : Inv w os toMapping s)
    (hrun : Machine.run (LazyRun.step os R) s es = some s') :
    Inv w os toMapping s' ∧
      Advance w os (s.client.bottom toMapping) (s'.client.bottom toMapping) := by
  refine Machine.run_invariant (P := fun t => Inv w os toMapping t ∧
    Advance w os (s.client.bottom toMapping) (t.client.bottom toMapping)) ?_
    ⟨hs, Advance.refl hs.witnessed⟩ hrun
  rintro t e t' ⟨ht, hadv⟩ hstep
  obtain ⟨ht', hadv'⟩ := ht.step hF hstep
  exact ⟨ht', hadv.trans hadv'⟩

/-- A client that has just been built over the backing `b`. -/
inductive Fresh (w : Nat) (R : FixedRange β) (toMapping : β → MmapBacked) (b : β) :
    LazyClient β → Prop
  | mapping : Fresh w R toMapping b (.mapping (toMapping b))
  | arena (a : BumpArena β) (hnew : BumpArena.new w R b = some a) :
      Fresh w R toMapping b (.arena a)
  | stack (a : StackAlloc β) (maxDepth : Nat) (reserved : Bool)
      (hnew : StackAlloc.withMaxDepth R b maxDepth reserved = some a) :
      Fresh w R toMapping b (.stack ⟨a, 0⟩)

theorem Fresh.inv (hF : Forwards w os R toMapping) {b : β} {c : LazyClient β}
    (hc : Fresh w R toMapping b c) (hw : Witnessed w os (toMapping b)) (m : Mem) :
    Inv w os toMapping (init c m) := by
  cases hc with
  | mapping => exact ⟨hw, le_rfl, fun b hb => absurd hb List.not_mem_nil⟩
  | arena a hnew =>
      obtain ⟨rfl, -⟩ := BumpArena.new_eq_some hnew
      exact ⟨hw, (hF.size_eq b).le, fun b hb => absurd hb List.not_mem_nil⟩
  | stack a maxDepth reserved hnew =>
      have ha : a = ⟨b, R.size b, 0, []⟩ := by
        unfold StackAlloc.withMaxDepth at hnew
        split at hnew
        · cases hnew
        · split at hnew
          · cases hnew
          · exact (Option.some.inj hnew).symm
      subst ha
      exact ⟨hw, (hF.size_eq b).le, fun b hb => absurd hb List.not_mem_nil⟩

/-- **The watermark is a witness of what is committed.** In every run of a client of a mapping,
whatever the system declines: the watermark is a multiple of the page and at most the length, the
bytes below it are those the system has committed, and it never goes down; every block that was
ever handed out is below it. A commit that succeeds has its range below the watermark, one that
fails leaves the watermark. A request during which the system declined fails, and a request that
fails leaves the cursor and the frames. -/
theorem lazy_commit_correct {size : Nat} {lazyCommit : Bool} {mapped : Option Nat}
    {answers : List Bool} {t : MmapBacked}
    (hmap : withFlags w os size lazyCommit mapped answers = some t) (hspace : t.ptr + t.len ≤ 2 ^ w)
    {c : LazyClient MmapBacked} (hc : Fresh w (MmapBacked.range w os) id t c) {m : Mem}
    {s : LazyRun MmapBacked} {es : List (LazyCall w)}
    (hrun : Machine.run (LazyRun.step os (MmapBacked.range w os)) (init c m) es = some s) :
    os.pageSize ∣ (s.client.bottom id).committed ∧
    (s.client.bottom id).committed ≤ (s.client.bottom id).len ∧
    (s.client.bottom id).committedBytes = Set.Ico (s.client.bottom id).ptr
      ((s.client.bottom id).ptr + (s.client.bottom id).committed) ∧
    (∀ b ∈ s.issued, b.bytes ⊆ Set.Ico (s.client.bottom id).ptr
      ((s.client.bottom id).ptr + (s.client.bottom id).committed)) ∧
    (∀ (es' : List (LazyCall w)) s',
      Machine.run (LazyRun.step os (MmapBacked.range w os)) s es' = some s' →
      (s.client.bottom id).committed ≤ (s'.client.bottom id).committed) ∧
    (∀ off len ok c', off + len ≤ s.client.capacity →
      s.client.commit w os (MmapBacked.range w os) off len = (ok, c') →
      (ok = true → off + len ≤ (c'.bottom id).committed) ∧
      (ok = false → (c'.bottom id).committed = (s.client.bottom id).committed)) ∧
    (∀ (q : LazyRequest w) r c' m', q.PtrInSpace →
      s.client.request os (MmapBacked.range w os) s.mem q = some (r, c', m') →
      (Declined (s.client.bottom id) (c'.bottom id) → r = none) ∧
      (r = none → c'.position = s.client.position)) := by
  have hF := Forwards.mapping w os
  have hs : Inv w os id s := ((hc.inv hF (witnessed_new hmap hspace) m).run hF hrun).1
  refine ⟨hs.witnessed.dvd, hs.witnessed.le_len, hs.witnessed.committed_eq, hs.inside,
    fun es' s' hrest => (hs.run hF hrest).2.committed_le, ?_, ?_⟩
  · intro off len ok c' hle hcommit
    obtain ⟨-, -, hok, herr⟩ :=
      commit_spec off len hF hs.witnessed hs.capacity_le
    rw [hcommit] at hok herr
    exact ⟨fun htrue => hok htrue hle, herr⟩
  · intro q r c' m' hq hcall
    have hserved := LazyClient.request_served hF hs.witnessed hs.capacity_le hq hcall
    exact ⟨hserved.declined, hserved.position_eq⟩

/-- Pages of four bytes, committed on demand. -/
def fourBytePages : Os := ⟨true, 4, 2, rfl⟩

/-- The first page is granted, the second request declined and the third one granted again. -/
def declinedCalls : List (LazyCall 64) :=
  [.request (.allocate (.lit 64 3 1 (Eq.refl true))),
    .request (.allocate (.lit 64 6 2 (Eq.refl true))), .commit 9 2, .request (.allocate (.lit 64 6 2 (Eq.refl true))), .reset]

theorem lazy_commit_correct_declined :
    ∃ t a s, withFlags 64 fourBytePages 10 true (some 64) [true, false] = some t ∧
      BumpArena.new 64 (MmapBacked.range 64 fourBytePages) t = some a ∧
      Machine.run (LazyRun.step fourBytePages (MmapBacked.range 64 fourBytePages))
        (init (.arena a) fun _ => 0) declinedCalls = some s ∧
      ∀ b ∈ s.issued, b.bytes ⊆ Set.Ico (s.client.bottom id).ptr
        ((s.client.bottom id).ptr + (s.client.bottom id).committed) := by
  let t : MmapBacked := ⟨64, 12, 0, 0, ⟨[true, false], []⟩, by decide⟩
  let a : BumpArena MmapBacked := ⟨t, 12, 0⟩
  have hmap : withFlags 64 fourBytePages 10 true (some 64) [true, false] = some t := by rfl
  have hnew : BumpArena.new 64 (MmapBacked.range 64 fourBytePages) t = some a := by rfl
  have hsome : (Machine.run (LazyRun.step fourBytePages (MmapBacked.range 64 fourBytePages))
      (init (.arena a) fun _ => 0) declinedCalls).isSome := by decide +kernel
  obtain ⟨s, hrun⟩ := Option.isSome_iff_exists.mp hsome
  obtain ⟨-, -, -, hinside, -⟩ :=
    lazy_commit_correct hmap (show 64 + 12 ≤ 2 ^ 64 by decide) (.arena a hnew) hrun
  exact ⟨t, a, s, hmap, hnew, hrun, hinside⟩

end LazyRun

end ForgeAlloc
