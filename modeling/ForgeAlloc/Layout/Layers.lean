import ForgeAlloc.Layout.LazyCommitRun

set_option autoImplicit false

/-! # Layers over a lazily committed mapping

A `FixedRange` may be wrapped in another one any number of times. The pass-through wrappers hand
every `commit` on; `BumpArena` and `StackAlloc` have the trait's default, which reports success and
does nothing. `Layers` are the compositions, and `range` gives each of them the `FixedRange` that
the types have.

A composition of wrappers forwards to the mapping (`forwards_range`). With an arena anywhere in it a
commit succeeds and reaches nothing (`commit_of_not_forwards`), so that a range is backed afterwards
exactly if it was before.
-/

namespace ForgeAlloc

open MachineInt ByteMemory MmapBacked

/-- The wrappers that own no range of their own. -/
inductive Wrapper
  | statistics
  | watermark
  | quarantine
  | poisonOnFree
  | zeroizeOnFree
  | canary
  | cacheJitter
  | faulty
  | hugePageAligned
  | numaLocal
  | splitMetadata
  deriving DecidableEq

/-- A wrapper, by what its range looks at. -/
structure Wrapped (β : Type) where
  inner : β

variable {w : Nat} {β : Type} {os : Os}

/-- `FixedRange` for every one of the wrappers. -/
def Wrapper.range (_k : Wrapper) (R : FixedRange β) : FixedRange (Wrapped β) where
  base := fun s => R.base s.inner
  size := fun s => R.size s.inner
  commit := fun off len s =>
    let (ok, b) := R.commit off len s.inner
    (ok, ⟨b⟩)

/-- The stack forwards its base, and has the trait's default `commit`. -/
def StackAlloc.range (R : FixedRange β) : FixedRange (StackAlloc β) where
  base := fun a => R.base a.backing
  size := fun a => a.capacity
  commit := fun _ _ a => (true, a)

/-! ## Compositions -/

inductive Layers
  | mapping
  | bumpArena (below : Layers)
  | stackAlloc (below : Layers)
  | wrapper (k : Wrapper) (below : Layers)
  deriving DecidableEq

namespace Layers

def Value : Layers → Type
  | .mapping => MmapBacked
  | .bumpArena below => BumpArena below.Value
  | .stackAlloc below => StackAlloc below.Value
  | .wrapper _ below => Wrapped below.Value

def range (w : Nat) (os : Os) : (k : Layers) → FixedRange k.Value
  | .mapping => MmapBacked.range w os
  | .bumpArena below => BumpArena.range (below.range w os)
  | .stackAlloc below => StackAlloc.range (below.range w os)
  | .wrapper k below => k.range (below.range w os)

/-- The mapping at the bottom. -/
def toMapping : (k : Layers) → k.Value → MmapBacked
  | .mapping, s => s
  | .bumpArena below, a => below.toMapping a.backing
  | .stackAlloc below, a => below.toMapping a.backing
  | .wrapper _ below, s => below.toMapping s.inner

/-- No layer is an arena. -/
def forwards : Layers → Bool
  | .mapping => true
  | .bumpArena _ => false
  | .stackAlloc _ => false
  | .wrapper _ below => below.forwards

variable {k : Layers}

theorem base_eq (w : Nat) (os : Os) (k : Layers) (v : k.Value) :
    (k.range w os).base v = (k.toMapping v).ptr := by
  induction k with
  | mapping => rfl
  | bumpArena below ih => exact ih v.backing
  | stackAlloc below ih => exact ih v.backing
  | wrapper _ below ih => exact ih v.inner

/-- **Wrappers forward.** -/
theorem forwards_range (hk : k.forwards = true) : Forwards w os (k.range w os) k.toMapping := by
  induction k with
  | mapping => exact Forwards.mapping w os
  | bumpArena below => cases hk
  | stackAlloc below => cases hk
  | wrapper _ below ih =>
      have hbelow := ih hk
      exact ⟨fun v => hbelow.base_eq v.inner, fun v => hbelow.size_eq v.inner,
        fun off len v => hbelow.commit_eq off len v.inner⟩

/-- **An arena does not forward**: a commit above it succeeds and reaches nothing. -/
theorem commit_of_not_forwards (w : Nat) (os : Os) (hk : k.forwards = false) (off len : Nat)
    (v : k.Value) :
    ((k.range w os).commit off len v).1 = true ∧
      k.toMapping ((k.range w os).commit off len v).2 = k.toMapping v := by
  induction k with
  | mapping => cases hk
  | bumpArena below => exact ⟨rfl, rfl⟩
  | stackAlloc below => exact ⟨rfl, rfl⟩
  | wrapper _ below ih => exact ih hk v.inner

/-! ## What a commit and an arena over it can promise -/

/-- A range is committed if it is empty or ends below the watermark. -/
theorem subset_committed_iff {s : MmapBacked} (hs : Witnessed w os s) {off len : Nat} :
    Set.Ico (s.ptr + off) (s.ptr + off + len) ⊆ s.committedBytes ↔
      len = 0 ∨ off + len ≤ s.committed := by
  rw [hs.committed_eq, prefixBytes]
  constructor
  · intro hsub
    by_cases hlen : len = 0
    · exact Or.inl hlen
    · have hlast : s.ptr + off + len - 1 ∈ Set.Ico s.ptr (s.ptr + s.committed) :=
        hsub ⟨by omega, by omega⟩
      have hlt := hlast.2
      right
      omega
  · rintro (hlen | hle) x ⟨hx, hx'⟩
    · omega
    · exact ⟨by omega, by omega⟩

/-- **A commit**, over any layers. -/
theorem commit_backs_iff {v : k.Value} (hw : Witnessed w os (k.toMapping v)) {off len : Nat}
    (hle : off + len ≤ (k.range w os).size v) :
    (∀ v', (k.range w os).commit off len v = (true, v') →
      Set.Ico ((k.range w os).base v + off) ((k.range w os).base v + off + len) ⊆
        (k.toMapping v').committedBytes) ↔
      k.forwards = true ∨ len = 0 ∨ off + len ≤ (k.toMapping v).committed := by
  rw [base_eq]
  cases hk : k.forwards with
  | true =>
      have hF : Forwards w os (k.range w os) k.toMapping := forwards_range hk
      refine ⟨fun _ => Or.inl rfl, fun _ v' hcommit => ?_⟩
      obtain ⟨hadv, hok, -, -⟩ := osCommit_spec hw (hF.commit hcommit)
      rw [hF.size_eq] at hle
      rw [← hadv.ptr_eq]
      exact (subset_committed_iff hadv.witnessed).mpr (Or.inr (hok rfl hle))
  | false =>
      obtain ⟨hok, hsame⟩ := commit_of_not_forwards w os hk off len v
      rw [← subset_committed_iff hw]
      constructor
      · intro hbacked
        right
        have hafter := hbacked _ (Prod.ext hok rfl)
        rw [hsame] at hafter
        exact hafter
      · rintro (hfalse | hbefore) v' hcommit
        · cases hfalse
        · have hv' : k.toMapping v' = k.toMapping v := by
            rw [hcommit] at hsame
            exact hsame
          rw [hv']
          exact hbefore

/-- What an arena has asked of its backing when it hands out a block. -/
structure CommitsBlock (R : FixedRange β) (b b' : β) (capacity cursor : Nat) (l : NonZeroLayout w)
    (block : Block) : Prop where
  ptr_eq : block.ptr = alignUp (R.base b + cursor) l.align
  len_eq : block.len = l.size
  commit_eq : R.commit (block.ptr - R.base b) l.size b = (true, b')
  le_capacity : block.ptr - R.base b + l.size ≤ capacity

variable {R : FixedRange β} {l : NonZeroLayout w} {b : Block} {m : Mem}

theorem CommitsBlock.of_bump {base : β} {b' : β} {capacity cursor off fin : Nat}
    (hbump : bump w (R.base base) capacity cursor l.size l.align = some (off, fin))
    (hcommit : R.commit off l.size base = (true, b')) :
    CommitsBlock R base b' capacity cursor l ⟨R.base base + off, l.size⟩ := by
  obtain ⟨k, hk, hkw⟩ := l.exists_align
  rw [hk] at hbump
  obtain ⟨hoff, hfin, hle⟩ := bump_spec hkw hbump
  have hge : R.base base + cursor ≤ alignUp (R.base base + cursor) (2 ^ k) :=
    le_alignUp (Nat.two_pow_pos k)
  have hsub : R.base base + off - R.base base = off := Nat.add_sub_cancel_left _ _
  refine ⟨?_, rfl, ?_, ?_⟩
  · rw [hk]
    simp only
    omega
  · simp only [hsub]
    exact hcommit
  · simp only [hsub]
    omega

theorem commitsBlock_bumpArena {a : BumpArena β} {h : Heap (BumpArena β)}
    (heq : BumpArena.allocate R l ⟨a, m⟩ = (some b, h)) :
    CommitsBlock R a.backing h.alloc.backing a.capacity a.cursor l b := by
  simp only [BumpArena.allocate, BumpArena.reserve] at heq
  rcases hbump : bump w (R.base a.backing) a.capacity a.cursor l.size l.align with _ | ⟨off, fin⟩
  · rw [hbump] at heq
    cases heq
  · rcases hcommit : R.commit off l.size a.backing with ⟨_ | _, b'⟩
    · simp only [hbump, hcommit] at heq
      cases heq
    · simp only [hbump, hcommit] at heq
      cases heq
      exact CommitsBlock.of_bump hbump hcommit

theorem commitsBlock_stackAlloc {a a' : StackAlloc β}
    (heq : StackAlloc.allocate R l a = (some b, a')) :
    CommitsBlock R a.backing a'.backing a.capacity a.cursor l b := by
  simp only [StackAlloc.allocate] at heq
  rcases hbump : bump w (R.base a.backing) a.capacity a.cursor l.size l.align with _ | ⟨off, fin⟩
  · rw [hbump] at heq
    cases heq
  · rcases hcommit : R.commit off l.size a.backing with ⟨_ | _, b'⟩
    · simp only [hbump, hcommit] at heq
      cases heq
    · simp only [hbump, hcommit] at heq
      cases heq
      exact CommitsBlock.of_bump hbump hcommit

/-- **A block of an arena** over any layers: it is backed if the layers forward, or if it fits below
the watermark anyway. -/
theorem block_backed_iff {v v' : k.Value} (hw : Witnessed w os (k.toMapping v))
    {capacity cursor : Nat} (hcap : capacity ≤ (k.range w os).size v)
    (hb : CommitsBlock (k.range w os) v v' capacity cursor l b) :
    b.bytes ⊆ (k.toMapping v').committedBytes ↔
      k.forwards = true ∨
        Fits (k.toMapping v).ptr (k.toMapping v).committed cursor l.size l.align := by
  have hle := hb.le_capacity.trans hcap
  have hge : (k.range w os).base v + cursor ≤ alignUp ((k.range w os).base v + cursor) l.align :=
    le_alignUp l.align_pos
  have hptr : (k.range w os).base v + (b.ptr - (k.range w os).base v) = b.ptr := by
    rw [hb.ptr_eq]
    omega
  have hbytes : b.bytes = Set.Ico ((k.range w os).base v + (b.ptr - (k.range w os).base v))
      ((k.range w os).base v + (b.ptr - (k.range w os).base v) + l.size) := by
    rw [hptr, ← hb.len_eq]
    rfl
  have hiff := commit_backs_iff hw hle
  rw [← hbytes] at hiff
  have hone : (∀ u, (k.range w os).commit (b.ptr - (k.range w os).base v) l.size v = (true, u) →
      b.bytes ⊆ (k.toMapping u).committedBytes) ↔ b.bytes ⊆ (k.toMapping v').committedBytes := by
    refine ⟨fun hall => hall v' hb.commit_eq, fun hback u hu => ?_⟩
    obtain rfl : u = v' := (Prod.mk.inj (hu.symm.trans hb.commit_eq)).2
    exact hback
  rw [← hone, hiff]
  refine or_congr_right ?_
  have hpos := l.size_pos
  have hbase := base_eq w os k v
  have hat := hb.ptr_eq
  rw [hbase] at hat hge
  unfold Fits
  rw [hbase]
  omega

/-- **Commits over layers.** For every composition and every state of it in which the watermark is
a witness: a commit that succeeds backs its range exactly if no layer is an arena or the range was
backed before; an arena over the composition hands out a block that is backed exactly if no layer
below it is an arena or the block is below the watermark already; and over wrappers every block that
a client ever hands out is backed, in every run. -/
theorem layers_commit_iff (k : Layers) {v : k.Value} (hw : Witnessed w os (k.toMapping v)) :
    (∀ off len, off + len ≤ (k.range w os).size v →
      ((∀ v', (k.range w os).commit off len v = (true, v') →
        Set.Ico ((k.range w os).base v + off) ((k.range w os).base v + off + len) ⊆
          (k.toMapping v').committedBytes) ↔
        k.forwards = true ∨ len = 0 ∨ off + len ≤ (k.toMapping v).committed)) ∧
    (∀ (a : BumpArena k.Value) (l : NonZeroLayout w) m b h, a.backing = v →
      a.capacity ≤ (k.range w os).size v →
      BumpArena.allocate (k.range w os) l ⟨a, m⟩ = (some b, h) →
      (b.bytes ⊆ (k.toMapping h.alloc.backing).committedBytes ↔ k.forwards = true ∨
        Fits (k.toMapping v).ptr (k.toMapping v).committed a.cursor l.size l.align)) ∧
    (∀ (a a' : StackAlloc k.Value) (l : NonZeroLayout w) b, a.backing = v →
      a.capacity ≤ (k.range w os).size v →
      StackAlloc.allocate (k.range w os) l a = (some b, a') →
      (b.bytes ⊆ (k.toMapping a'.backing).committedBytes ↔ k.forwards = true ∨
        Fits (k.toMapping v).ptr (k.toMapping v).committed a.cursor l.size l.align)) ∧
    (k.forwards = true → ∀ (c : LazyClient k.Value) m (es : List (LazyCall w)) s,
      LazyRun.Fresh w (k.range w os) k.toMapping v c →
      Machine.run (LazyRun.step os (k.range w os)) (LazyRun.init c m) es = some s →
      ∀ b ∈ s.issued, b.bytes ⊆ (s.client.bottom k.toMapping).committedBytes) := by
  refine ⟨fun off len hle => commit_backs_iff hw hle, ?_, ?_, ?_⟩
  · rintro a l m b h rfl hcap heq
    exact block_backed_iff hw hcap (commitsBlock_bumpArena heq)
  · rintro a a' l b rfl hcap heq
    exact block_backed_iff hw hcap (commitsBlock_stackAlloc heq)
  · intro hk c m es s hc hrun b hb
    have hF : Forwards w os (k.range w os) k.toMapping := forwards_range hk
    have hs := ((hc.inv hF hw m).run hF hrun).1
    rw [hs.witnessed.committed_eq]
    exact hs.inside b hb

/-! ## An arena over an arena -/

/-- Windows, with its pages of 4096 bytes. -/
def windowsPages : Os := ⟨true, 4096, 12, rfl⟩

/-- One page of reserved address space. -/
def reservedPage : MmapBacked := ⟨65536, 4096, 0, 0, ⟨[], []⟩, by decide⟩

theorem reservedPage_new :
    withFlags 64 windowsPages 4096 true (some 65536) [] = some reservedPage := by
  rfl

theorem reservedPage_witnessed : Witnessed 64 windowsPages reservedPage :=
  witnessed_new reservedPage_new (show 65536 + 4096 ≤ 2 ^ 64 by decide)

theorem layers_commit_iff_statistics :
    Witnessed 64 windowsPages reservedPage ∧
    ∀ v', ((Layers.wrapper .statistics .mapping).range 64 windowsPages).commit 0 5
        (⟨reservedPage⟩ : Wrapped MmapBacked) = (true, v') →
      Set.Ico (((Layers.wrapper .statistics .mapping).range 64 windowsPages).base
          (⟨reservedPage⟩ : Wrapped MmapBacked) + 0)
        (((Layers.wrapper .statistics .mapping).range 64 windowsPages).base
          (⟨reservedPage⟩ : Wrapped MmapBacked) + 0 + 5) ⊆
        ((Layers.wrapper .statistics .mapping).toMapping v').committedBytes := by
  have hwitnessed : Witnessed 64 windowsPages
      ((Layers.wrapper .statistics .mapping).toMapping (⟨reservedPage⟩ : Wrapped MmapBacked)) :=
    reservedPage_witnessed
  have hall := layers_commit_iff (.wrapper .statistics .mapping) hwitnessed
  exact ⟨reservedPage_witnessed, (hall.1 0 5 (by decide)).mpr (Or.inl rfl)⟩

/-- **A commit that reaches nothing.** One page is reserved, an arena is built over it and another
arena over that. The commit of eight bytes of the inner arena succeeds and the outer arena hands
eight bytes out, and the system has committed no byte. -/
theorem arena_commit_reaches_nothing :
    ∃ (inner : (Layers.bumpArena .mapping).Value) (outer : BumpArena (Layers.bumpArena .mapping).Value)
      (h : Heap (BumpArena (Layers.bumpArena .mapping).Value)),
      withFlags 64 windowsPages 4096 true (some 65536) [] = some reservedPage ∧
      BumpArena.new 64 (Layers.mapping.range 64 windowsPages) reservedPage = some inner ∧
      ((Layers.bumpArena .mapping).range 64 windowsPages).commit 0 8 inner = (true, inner) ∧
      BumpArena.new 64 ((Layers.bumpArena .mapping).range 64 windowsPages) inner = some outer ∧
      BumpArena.allocate ((Layers.bumpArena .mapping).range 64 windowsPages)
        (.lit 64 8 8 (Eq.refl true)) ⟨outer, fun _ => 0⟩ = (some ⟨65536, 8⟩, h) ∧
      ((Layers.bumpArena .mapping).toMapping inner).committedBytes = ∅ ∧
      ((Layers.bumpArena .mapping).toMapping h.alloc.backing).committedBytes = ∅ := by
  let inner : BumpArena MmapBacked := ⟨reservedPage, 4096, 0⟩
  let outer : BumpArena (BumpArena MmapBacked) := ⟨inner, 4096, 0⟩
  have hnone : reservedPage.committedBytes = ∅ := by
    ext x
    simp [committedBytes, reservedPage]
  have houter : BumpArena.new 64 (BumpArena.range (MmapBacked.range 64 windowsPages)) inner =
      some outer := by
    simp [BumpArena.new, BumpArena.range, MmapBacked.range, checkedAdd, inner, outer, reservedPage]
  have hblock : BumpArena.allocate (BumpArena.range (MmapBacked.range 64 windowsPages))
      (NonZeroLayout.lit 64 8 8 (Eq.refl true)) ⟨outer, fun _ => 0⟩ =
        (some ⟨65536, 8⟩, ⟨⟨inner, 4096, 8⟩, fun _ => 0⟩) := by
    have hbump : bump 64 65536 4096 0 8 8 = some (0, 8) := by decide
    simp only [BumpArena.allocate, BumpArena.reserve, BumpArena.range, MmapBacked.range,
      reservedPage, NonZeroLayout.lit, inner, outer, hbump]
  exact ⟨inner, outer, ⟨⟨inner, 4096, 8⟩, fun _ => 0⟩, reservedPage_new, rfl, rfl, houter, hblock,
    hnone, hnone⟩

end Layers

end ForgeAlloc
