import ForgeAlloc.Core.Recording

set_option autoImplicit false

/-! # Blocks carved out of larger blocks

Some wrappers serve a request from a larger block of the inner allocator: the client gets a part
of it, and the wrapper keeps words of its own in the rest. A `Carving` is such a pair of grants.

`Carves P` says what makes a description `P` of carvings sound: the client's block meets the
contract when the inner one does, lies inside it, and `P` reads no byte of it. `Carved P Inv h K`
is the invariant of a set `K` of carvings; it is kept by serving a request (`Carved.serve`), by
handing a block back (`Carved.release`) and by what the clients write (`Carved.write`).

`Guard` is the interface of such a wrapper and `Guard.Sound` its specification in terms of the
calls it makes. A sound guard meets the contract of the allocator underneath (`Guard.honours`).
-/

namespace ForgeAlloc

open ByteMemory

/-- The block a client holds, and the inner block it is served from. -/
structure Carving (w : Nat) where
  user : Grant w
  inner : Grant w
  deriving DecidableEq

variable {w : Nat} {σ τ κ π : Type}

structure Carves (P : Carving w → Mem → Prop) : Prop where
  satisfies : ∀ {c m}, P c m → Satisfies c.inner.block c.inner.layout →
    Satisfies c.user.block c.user.layout
  subset : ∀ {c m}, P c m → c.user.block.bytes ⊆ c.inner.block.bytes
  congr : ∀ {c m m'}, P c m → Set.EqOn m' m (c.inner.block.bytes \ c.user.block.bytes) → P c m'

structure Carved (P : Carving w → Mem → Prop) (Inv : Heap σ → Set (Grant w) → Prop) (h : Heap σ)
    (K : Set (Carving w)) : Prop where
  inner : Inv h (Carving.inner '' K)
  injOn : Set.InjOn Carving.inner K
  holds : ∀ c ∈ K, P c h.mem

/-! ## The two ledgers -/

section Ledgers

variable {A : Allocator w σ} {Inv : Heap σ → Set (Grant w) → Prop} {P : Carving w → Mem → Prop}
  {h h' : Heap σ} {K : Set (Carving w)} {c c' : Carving w}

theorem Carved.inner_satisfies (hA : HonoursCore A Inv) (hk : Carved P Inv h K) (hc : c ∈ K) :
    Satisfies c.inner.block c.inner.layout :=
  hA.satisfies hk.inner (Set.mem_image_of_mem Carving.inner hc)

theorem Carved.satisfies (hA : HonoursCore A Inv) (hP : Carves P) (hk : Carved P Inv h K)
    (hc : c ∈ K) : Satisfies c.user.block c.user.layout :=
  hP.satisfies (hk.holds c hc) (hk.inner_satisfies hA hc)

theorem Carved.inner_disjoint (hA : HonoursCore A Inv) (hk : Carved P Inv h K) (hc : c ∈ K)
    (hc' : c' ∈ K) (hne : c ≠ c') : Disjoint c.inner.block.bytes c'.inner.block.bytes := by
  have hne' : c.inner ≠ c'.inner := fun heq => hne (hk.injOn hc hc' heq)
  exact hA.disjoint hk.inner (Set.mem_image_of_mem _ hc) (Set.mem_image_of_mem _ hc') hne'

theorem Carved.user_disjoint (hA : HonoursCore A Inv) (hP : Carves P) (hk : Carved P Inv h K)
    (hc : c ∈ K) (hc' : c' ∈ K) (hne : c ≠ c') :
    Disjoint c.user.block.bytes c'.user.block.bytes :=
  (hk.inner_disjoint hA hc hc' hne).mono (hP.subset (hk.holds c hc)) (hP.subset (hk.holds c' hc'))

/-- Two carvings with one block for the client are one carving. -/
theorem Carved.user_injOn (hA : HonoursCore A Inv) (hP : Carves P) (hk : Carved P Inv h K) :
    Set.InjOn Carving.user K := by
  intro c hc c' hc' heq
  by_contra hne
  have hdisj := hk.user_disjoint hA hP hc hc' hne
  rw [← heq] at hdisj
  exact not_disjoint_self (hk.satisfies hA hP hc).len_pos hdisj

theorem Carved.inner_sdiff (hk : Carved P Inv h K) (hc : c ∈ K) :
    Carving.inner '' (K \ {c}) = Carving.inner '' K \ {c.inner} := by
  rw [hk.injOn.image_sdiff_subset (Set.singleton_subset_iff.mpr hc), Set.image_singleton]

theorem Carved.user_sdiff (hA : HonoursCore A Inv) (hP : Carves P) (hk : Carved P Inv h K)
    (hc : c ∈ K) : Carving.user '' (K \ {c}) = Carving.user '' K \ {c.user} := by
  rw [(hk.user_injOn hA hP).image_sdiff_subset (Set.singleton_subset_iff.mpr hc),
    Set.image_singleton]

/-- The clients' bytes are bytes of the inner allocator's ledger. -/
theorem Carved.liveBytes_subset (hP : Carves P) (hk : Carved P Inv h K) :
    liveBytes (Carving.user '' K) ⊆ liveBytes (Carving.inner '' K) := by
  rintro a ⟨g, ⟨c, hc, rfl⟩, ha⟩
  exact ⟨c.inner, Set.mem_image_of_mem _ hc, hP.subset (hk.holds c hc) ha⟩

/-- A block that overlaps none of the ledger belongs to no carving. -/
theorem Carved.not_mem_of_disjoint (hA : HonoursCore A Inv) (hk : Carved P Inv h K)
    (hd : ∀ g ∈ Carving.inner '' K, Disjoint c.inner.block.bytes g.block.bytes) :
    c.inner ∉ Carving.inner '' K := by
  rintro ⟨c', hc', heq⟩
  have hself := hd c'.inner (Set.mem_image_of_mem _ hc')
  rw [heq] at hself
  have hpos := (hk.inner_satisfies hA hc').len_pos
  rw [heq] at hpos
  exact not_disjoint_self hpos hself

end Ledgers

/-! ## What keeps the invariant -/

section Steps

variable {A : Allocator w σ} {Inv : Heap σ → Set (Grant w) → Prop} {P : Carving w → Mem → Prop}
  {h h' : Heap σ} {K : Set (Carving w)} {c : Carving w} {m : Mem}

/-- A block fresh from the inner allocator, with the wrapper's words written into it. -/
theorem Carved.serve (hA : HonoursCore A Inv) (hk : Carved P Inv h K) (hP : Carves P)
    (hiss : Issued Inv (Carving.inner '' K) h h' c.inner.block c.inner.layout)
    (hm : Set.EqOn m h'.mem (c.inner.block.bytes)ᶜ) (hc : P c m) :
    Carved P Inv ⟨h'.alloc, m⟩ (insert c K) := by
  have hset : Carving.inner '' insert c K = insert c.inner (Carving.inner '' K) :=
    Set.image_insert_eq
  have hnew : c.inner ∉ Carving.inner '' K := hk.not_mem_of_disjoint hA hiss.fresh
  have hout : ∀ c' ∈ K, Set.EqOn m h.mem c'.inner.block.bytes := by
    intro c' hc' x hx
    have hledger : c'.inner ∈ Carving.inner '' K := Set.mem_image_of_mem _ hc'
    have hxc : x ∉ c.inner.block.bytes := fun hxc =>
      Set.disjoint_left.mp (hiss.fresh _ hledger) hxc hx
    calc m x = h'.mem x := hm hxc
      _ = h.mem x := hiss.frame ⟨c'.inner, hledger, hx⟩
  constructor
  · show Inv ⟨h'.alloc, m⟩ (Carving.inner '' insert c K)
    rw [hset]
    refine hA.write hiss.inv (hm.mono (Set.compl_subset_compl.mpr ?_))
    exact bytes_subset_liveBytes (Set.mem_insert c.inner _)
  · refine (Set.injOn_insert fun hmem => hnew (Set.mem_image_of_mem _ hmem)).mpr ⟨hk.injOn, hnew⟩
  · rintro c' (rfl | hc')
    · exact hc
    · exact hP.congr (hk.holds c' hc') ((hout c' hc').mono Set.sdiff_subset)

/-- A block handed back, with the wrapper's words in it already overwritten. -/
theorem Carved.release (hA : HonoursCore A Inv) (hk : Carved P Inv h K) (hP : Carves P)
    (hc : c ∈ K) (hm : Set.EqOn m h.mem (c.inner.block.bytes)ᶜ) :
    let h' := A.deallocate c.inner.block.ptr c.inner.layout ⟨h.alloc, m⟩
    Carved P Inv h' (K \ {c}) ∧
      Set.EqOn h'.mem h.mem (liveBytes (Carving.inner '' (K \ {c}))) := by
  intro h'
  have hledger : c.inner ∈ Carving.inner '' K := Set.mem_image_of_mem _ hc
  have hset := hk.inner_sdiff hc
  have hwrite : Inv ⟨h.alloc, m⟩ (Carving.inner '' K) :=
    hA.write hk.inner (hm.mono (Set.compl_subset_compl.mpr (bytes_subset_liveBytes hledger)))
  have hfree := hA.deallocate hwrite hledger
  have hframe : Set.EqOn h'.mem h.mem (liveBytes (Carving.inner '' (K \ {c}))) := by
    intro x hx
    have hxc : x ∉ c.inner.block.bytes := by
      obtain ⟨g, ⟨c', ⟨hc', hne⟩, rfl⟩, hxg⟩ := hx
      exact Set.disjoint_left.mp (hk.inner_disjoint hA hc' hc hne) hxg
    rw [hset] at hx
    calc h'.mem x = m x := hfree.frame hx
      _ = h.mem x := hm hxc
  refine ⟨⟨?_, hk.injOn.mono Set.sdiff_subset, ?_⟩, hframe⟩
  · rw [hset]
    exact hfree.inv
  · intro c' hc'
    refine hP.congr (hk.holds c' hc'.1) fun x hx => hframe ?_
    exact ⟨c'.inner, Set.mem_image_of_mem _ hc', hx.1⟩

/-- A block that leaves the inner allocator's ledger without a write. -/
theorem Carved.remove (hk : Carved P Inv h K) (hc : c ∈ K)
    (hinv : Inv h' (Carving.inner '' K \ {c.inner})) (hmem : h'.mem = h.mem) :
    Carved P Inv h' (K \ {c}) where
  inner := hk.inner_sdiff hc ▸ hinv
  injOn := hk.injOn.mono Set.sdiff_subset
  holds := fun c' hc' => hmem ▸ hk.holds c' hc'.1

/-- The bytes a carving keeps from its client are no client's. -/
theorem Carved.not_mem_liveBytes (hA : HonoursCore A Inv) (hk : Carved P Inv h K) (hP : Carves P)
    (hc : c ∈ K) {x : Nat} (hx : x ∈ c.inner.block.bytes \ c.user.block.bytes) :
    x ∉ liveBytes (Carving.user '' K) := by
  rintro ⟨g, ⟨c', hc', rfl⟩, hxg⟩
  -- the byte is inside two inner blocks, so they are one, and it is the client's
  have heq : c' = c := by
    by_contra hne
    exact Set.disjoint_left.mp (hk.inner_disjoint hA hc' hc hne)
      (hP.subset (hk.holds c' hc') hxg) hx.1
  subst heq
  exact hx.2 hxg

/-- Clients that write into their own blocks. -/
theorem Carved.write (hA : HonoursCore A Inv) (hk : Carved P Inv h K) (hP : Carves P)
    (hm : Set.EqOn m h.mem (liveBytes (Carving.user '' K))ᶜ) : Carved P Inv ⟨h.alloc, m⟩ K :=
  ⟨hA.write hk.inner (hm.mono (Set.compl_subset_compl.mpr (hk.liveBytes_subset hP))),
    hk.injOn, fun c hc => hP.congr (hk.holds c hc) fun _ hx =>
      hm (hk.not_mem_liveBytes hA hP hc hx)⟩

/-- A call of the inner allocator that gives no block. -/
theorem Carved.unchanged (hk : Carved P Inv h K) (hP : Carves P)
    (hun : Unchanged Inv (Carving.inner '' K) h h') : Carved P Inv h' K :=
  ⟨hun.inv, hk.injOn, fun c hc => hP.congr (hk.holds c hc) fun _ hx =>
    hun.frame ⟨c.inner, Set.mem_image_of_mem _ hc, hx.1⟩⟩

end Steps

/-! ## Guards -/

/-- A wrapper that carves: its calls, the first outcome of `deallocate` being its panic if there
is one, and the block of the inner allocator that serves a request. `key` is what the wrapper
never changes. -/
structure Guard (w : Nat) (σ τ κ π : Type) where
  inner : τ → σ
  key : τ → κ
  allocate : NonZeroLayout w → Heap τ → Option Block × Heap τ
  deallocate : Nat → NonZeroLayout w → Heap τ → Option π × Heap τ
  serves : NonZeroLayout w → Heap τ → Option (Grant w)

namespace Guard

/-- The wrapper as an allocator, with the trait's resizes. -/
def allocator (W : Guard w σ τ κ π) : Allocator w τ where
  allocate := W.allocate
  deallocate := fun ptr l h => (W.deallocate ptr l h).2
  grow := defaultGrow W.allocate fun ptr l h => (W.deallocate ptr l h).2
  shrink := defaultShrink W.allocate fun ptr l h => (W.deallocate ptr l h).2
  usableSize := fun _ _ _ => none

/-- The heap of the allocator underneath. -/
def heap (W : Guard w σ τ κ π) (h : Heap τ) : Heap σ := h.map W.inner

/-- What the calls of a guard do, in terms of the calls of the allocator underneath. -/
structure Sound (W : Guard w σ τ κ π) (A : Allocator w σ) (P : κ → Carving w → Mem → Prop) :
    Prop where
  carves : ∀ k, Carves (P k)
  /-- A request that is refused has not changed anything, or the inner allocator has refused. -/
  allocate_none : ∀ {l h h'}, W.allocate l h = (none, h') →
    W.serves l h = none ∧ W.key h'.alloc = W.key h.alloc ∧
      (W.heap h' = W.heap h ∨ ∃ l', A.allocate l' (W.heap h) = (none, W.heap h'))
  allocate_some : ∀ {l h h' b}, W.allocate l h = (some b, h') →
    ∃ g t, W.serves l h = some g ∧ W.key h'.alloc = W.key h.alloc ∧
      A.allocate g.layout (W.heap h) = (some g.block, t) ∧ W.inner h'.alloc = t.alloc ∧
      (Satisfies g.block g.layout →
        Set.EqOn h'.mem t.mem (g.block.bytes)ᶜ ∧ P (W.key h.alloc) ⟨⟨b, l⟩, g⟩ h'.mem)
  deallocate : ∀ {c h}, P (W.key h.alloc) c h.mem → Satisfies c.inner.block c.inner.layout →
    ∃ h' m, W.deallocate c.user.block.ptr c.user.layout h = (none, h') ∧
      W.key h'.alloc = W.key h.alloc ∧ Set.EqOn m h.mem (c.inner.block.bytes)ᶜ ∧
      W.heap h' = A.deallocate c.inner.block.ptr c.inner.layout ⟨W.inner h.alloc, m⟩

/-- The invariant of a guard over an allocator with the invariant `Inv`. -/
def Holds (W : Guard w σ τ κ π) (P : κ → Carving w → Mem → Prop)
    (Inv : Heap σ → Set (Grant w) → Prop) (h : Heap τ) (K : Set (Carving w)) : Prop :=
  Carved (P (W.key h.alloc)) Inv (W.heap h) K

variable {W : Guard w σ τ κ π} {A : Allocator w σ} {P : κ → Carving w → Mem → Prop}
  {Inv : Heap σ → Set (Grant w) → Prop} {h h' : Heap τ} {K : Set (Carving w)} {c : Carving w}
  {l : NonZeroLayout w} {b : Block}

theorem holds_init (hinv : Inv (W.heap h) ∅) : W.Holds P Inv h ∅ where
  inner := by
    rw [Set.image_empty]
    exact hinv
  injOn := Set.injOn_empty _
  holds := fun _ hc => absurd hc (Set.notMem_empty _)

theorem Holds.allocate_some (hW : W.Sound A P) (hA : HonoursCore A Inv) (hh : W.Holds P Inv h K)
    (heq : W.allocate l h = (some b, h')) :
    ∃ g t, W.serves l h = some g ∧ A.allocate g.layout (W.heap h) = (some g.block, t) ∧
      W.inner h'.alloc = t.alloc ∧ W.Holds P Inv h' (insert ⟨⟨b, l⟩, g⟩ K) ∧
      (∀ c ∈ K, Disjoint g.block.bytes c.inner.block.bytes) ∧
      Set.EqOn h'.mem h.mem (liveBytes (Carving.inner '' K)) := by
  obtain ⟨g, t, hserves, hkey, hcall, hinner, hpost⟩ := hW.allocate_some heq
  have hP := hW.carves (W.key h.alloc)
  have hiss := hA.allocate_some hh.inner hcall
  obtain ⟨hm, hc⟩ := hpost (hA.allocate_satisfies hh.inner hcall)
  have hcarved := Carved.serve (c := ⟨⟨b, l⟩, g⟩) hA hh hP hiss hm hc
  refine ⟨g, t, hserves, hcall, hinner, ?_, fun c hc' => hiss.fresh _ ⟨c, hc', rfl⟩, ?_⟩
  · have hheap : W.heap h' = ⟨t.alloc, h'.mem⟩ := by
      show (⟨W.inner h'.alloc, h'.mem⟩ : Heap σ) = ⟨t.alloc, h'.mem⟩
      rw [hinner]
    rw [Holds, hkey, hheap]
    exact hcarved
  · intro x hx
    have hxg : x ∉ g.block.bytes := by
      obtain ⟨g', hg', hxg'⟩ := hx
      exact fun hxg => Set.disjoint_left.mp (hiss.fresh g' hg') hxg hxg'
    calc h'.mem x = t.mem x := hm hxg
      _ = h.mem x := hiss.frame hx

theorem Holds.allocate_none (hW : W.Sound A P) (hA : HonoursCore A Inv) (hh : W.Holds P Inv h K)
    (heq : W.allocate l h = (none, h')) :
    W.serves l h = none ∧ W.Holds P Inv h' K ∧
      Set.EqOn h'.mem h.mem (liveBytes (Carving.inner '' K)) := by
  obtain ⟨hserves, hkey, hcall⟩ := hW.allocate_none heq
  have hP := hW.carves (W.key h.alloc)
  rw [Holds, hkey]
  rcases hcall with hsame | ⟨l', hcall⟩
  · have hmem : (W.heap h').mem = (W.heap h).mem := congrArg Heap.mem hsame
    refine ⟨hserves, ?_, fun x _ => congrFun hmem x⟩
    rw [hsame]
    exact hh
  · have hun := hA.allocate_none hh.inner hcall
    exact ⟨hserves, Carved.unchanged hh hP hun, hun.frame⟩

theorem Holds.deallocate (hW : W.Sound A P) (hA : HonoursCore A Inv) (hh : W.Holds P Inv h K)
    (hc : c ∈ K) :
    ∃ h' m, W.deallocate c.user.block.ptr c.user.layout h = (none, h') ∧
      W.heap h' = A.deallocate c.inner.block.ptr c.inner.layout ⟨W.inner h.alloc, m⟩ ∧
      W.Holds P Inv h' (K \ {c}) ∧
      Set.EqOn h'.mem h.mem (liveBytes (Carving.inner '' (K \ {c}))) := by
  have hP := hW.carves (W.key h.alloc)
  obtain ⟨h', m, heq, hkey, hm, hheap⟩ :=
    hW.deallocate (hh.holds c hc) (hh.inner_satisfies hA hc)
  obtain ⟨hcarved, hframe⟩ := Carved.release hA hh hP hc hm
  refine ⟨h', m, heq, hheap, ?_, ?_⟩
  · rw [Holds, hkey, hheap]
    exact hcarved
  · have hmem : h'.mem =
        (A.deallocate c.inner.block.ptr c.inner.layout ⟨W.inner h.alloc, m⟩).mem :=
      congrArg Heap.mem hheap
    rw [hmem]
    exact hframe

theorem Holds.write (hW : W.Sound A P) (hA : HonoursCore A Inv) (hh : W.Holds P Inv h K) {m : Mem}
    (hm : Set.EqOn m h.mem (liveBytes (Carving.user '' K))ᶜ) : W.Holds P Inv ⟨h.alloc, m⟩ K :=
  Carved.write hA hh (hW.carves _) hm

/-- **A sound guard meets the contract of the allocator underneath.** -/
theorem honours (hW : W.Sound A P) (hA : HonoursCore A Inv) :
    Honours W.allocator fun h L => ∃ K, L = Carving.user '' K ∧ W.Holds P Inv h K := by
  have hcore : HonoursCore W.allocator
      fun h L => ∃ K, L = Carving.user '' K ∧ W.Holds P Inv h K :=
    { satisfies := by
        rintro h L g ⟨K, rfl, hh⟩ ⟨c, hc, rfl⟩
        exact hh.satisfies hA (hW.carves _) hc
      disjoint := by
        rintro h L g g' ⟨K, rfl, hh⟩ ⟨c, hc, rfl⟩ ⟨c', hc', rfl⟩ hne
        exact hh.user_disjoint hA (hW.carves _) hc hc' fun heq => hne (congrArg _ heq)
      allocate_some := by
        rintro h L l b h' ⟨K, rfl, hh⟩ heq
        obtain ⟨g, t, -, -, -, hh', hfresh, hframe⟩ := hh.allocate_some hW hA heq
        have hnew := (hW.carves _).subset (hh'.holds ⟨⟨b, l⟩, g⟩ (Set.mem_insert _ _))
        have hset : Carving.user '' insert ⟨⟨b, l⟩, g⟩ K = insert ⟨b, l⟩ (Carving.user '' K) :=
          Set.image_insert_eq
        refine ⟨⟨_, hset.symm, hh'⟩, ?_, hframe.mono (hh.liveBytes_subset (hW.carves _))⟩
        rintro g' ⟨c, hc, rfl⟩
        exact (hfresh c hc).mono hnew ((hW.carves _).subset (hh.holds c hc))
      allocate_none := by
        rintro h L l h' ⟨K, rfl, hh⟩ heq
        obtain ⟨-, hh', hframe⟩ := hh.allocate_none hW hA heq
        exact ⟨⟨K, rfl, hh'⟩, hframe.mono (hh.liveBytes_subset (hW.carves _))⟩
      deallocate := by
        rintro h L g ⟨K, rfl, hh⟩ ⟨c, hc, rfl⟩
        obtain ⟨h', m, heq, -, hh', hframe⟩ := hh.deallocate hW hA hc
        have hset := (hh.user_sdiff hA (hW.carves _) hc).symm
        have hout : W.allocator.deallocate c.user.block.ptr c.user.layout h = h' :=
          congrArg Prod.snd heq
        rw [hout, hset]
        refine ⟨⟨_, rfl, hh'⟩, hframe.mono ?_⟩
        rintro a ⟨g, ⟨c', hc', rfl⟩, ha⟩
        exact ⟨c'.inner, ⟨c', hc', rfl⟩, (hW.carves _).subset (hh.holds c' hc'.1) ha⟩
      write := by
        rintro h L m ⟨K, rfl, hh⟩ hm
        exact ⟨K, rfl, hh.write hW hA hm⟩ }
  exact hcore.withDefaults rfl rfl fun _ _ heq => by cases heq

end Guard

end ForgeAlloc
