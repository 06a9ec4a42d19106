import ForgeAlloc.Core.Carving
import ForgeAlloc.Core.Component

set_option autoImplicit false

/-! # Wrappers as components

A sound guard over a lawful component is a lawful component in the same territory
(`Component.Lawful.guarded`). What it answers to `usable_size` is its own affair, as long as the
answers stay inside its slices.
-/

namespace ForgeAlloc

open ByteMemory

variable {w : Nat} {σ τ κ π : Type}

namespace Guard.Sound

variable {W : Guard w σ τ κ π} {A : Allocator w σ} {P : κ → Carving w → Mem → Prop} {h : Heap τ}
  {c : Carving w}

theorem key_allocate (hW : W.Sound A P) (l : NonZeroLayout w) (h : Heap τ) :
    W.key (W.allocate l h).2.alloc = W.key h.alloc := by
  rcases hcall : W.allocate l h with ⟨_ | b, h'⟩
  · exact (hW.allocate_none hcall).2.1
  · obtain ⟨g, t, -, hkey, -⟩ := hW.allocate_some hcall
    exact hkey

theorem key_deallocate (hW : W.Sound A P) (hP : P (W.key h.alloc) c h.mem)
    (hsat : Satisfies c.inner.block c.inner.layout) :
    W.key (W.deallocate c.user.block.ptr c.user.layout h).2.alloc = W.key h.alloc := by
  obtain ⟨h', m, hcall, hkey, -⟩ := hW.deallocate hP hsat
  rw [hcall]
  exact hkey

end Guard.Sound

/-- A guard over an allocator that has issued nothing. -/
theorem Guard.holds_empty {W : Guard w σ τ κ π} {P : κ → Carving w → Mem → Prop}
    {Inv : Heap σ → Set (Grant w) → Prop} {h : Heap τ} (hinner : Inv (W.heap h) ∅) :
    W.Holds P Inv h ∅ := by
  refine ⟨?_, Set.injOn_empty _, fun c hc => absurd hc (Set.notMem_empty c)⟩
  rw [Set.image_empty]
  exact hinner

namespace Component

/-- The component of a guard over `C` with the key `k`, and with its own answers to
`usable_size`. -/
def guarded (C : Component w σ) (W : Guard w σ τ κ π) (P : κ → Carving w → Mem → Prop) (k : κ)
    (put : τ → σ → τ) (usableSize : Nat → NonZeroLayout w → Heap τ → Option Nat)
    (answer : Grant w → Option Nat) (roomy leaks : NonZeroLayout w → Heap τ → Bool) :
    Component w τ where
  calls := { W.allocator with usableSize := usableSize }
  range := C.range.map fun (R, c) => (R.through W.inner put, c)
  territory := C.territory
  inv := fun h L => (∃ K, L = Carving.user '' K ∧ W.Holds P C.inv h K) ∧ W.key h.alloc = k
  answer := answer
  roomy := roomy
  leaks := leaks
  remoteFree := fun _ _ _ => none

variable {C : Component w σ} {W : Guard w σ τ κ π} {P : κ → Carving w → Mem → Prop}
  {k : κ} {put : τ → σ → τ}
  {usableSize : Nat → NonZeroLayout w → Heap τ → Option Nat}
  {answer : Grant w → Option Nat} {roomy leaks : NonZeroLayout w → Heap τ → Bool} {h : Heap τ}
  {K : Set (Carving w)} {c : Carving w} {l : NonZeroLayout w} {m : Mem}

theorem Lawful.inner_subset (hC : C.Lawful) (hh : W.Holds P C.inv h K) (hc : c ∈ K) :
    c.inner.block.bytes ⊆ C.territory :=
  hC.subset hh.inner (Set.mem_image_of_mem _ hc)

theorem Lawful.guarded_allocate_frame (hC : C.Lawful) (hW : W.Sound C.calls P)
    (hh : W.Holds P C.inv h K) : Set.EqOn (W.allocate l h).2.mem h.mem C.territoryᶜ := by
  rcases hcall : W.allocate l h with ⟨_ | b, h'⟩
  · obtain ⟨-, -, hsame | ⟨l', hinner⟩⟩ := hW.allocate_none hcall
    · have hmem : (W.heap h').mem = (W.heap h).mem := congrArg Heap.mem hsame
      exact fun x _ => congrFun hmem x
    · have hframe := hC.allocate_frame (l := l') hh.inner
      rw [hinner] at hframe
      exact hframe
  · obtain ⟨g, t, -, -, hinner, -, hpost⟩ := hW.allocate_some hcall
    have hframe := hC.allocate_frame (l := g.layout) hh.inner
    rw [hinner] at hframe
    have hiss := (hC.allocate_some hh.inner hinner).inv
    have hsub := hC.subset hiss (Set.mem_insert g _)
    obtain ⟨hwords, -⟩ := hpost (hC.allocate_satisfies hh.inner hinner)
    exact (hwords.mono (Set.compl_subset_compl.mpr hsub)).trans hframe

theorem Lawful.guarded_deallocate_frame (hC : C.Lawful) (hW : W.Sound C.calls P)
    (hh : W.Holds P C.inv h K) (hc : c ∈ K) :
    Set.EqOn (W.deallocate c.user.block.ptr c.user.layout h).2.mem h.mem C.territoryᶜ := by
  obtain ⟨h', m, hcall, -, hm, hheap⟩ :=
    hW.deallocate (hh.holds c hc) (Carved.inner_satisfies hC.toHonoursCore hh hc)
  have hledger : c.inner ∈ Carving.inner '' K := Set.mem_image_of_mem _ hc
  have hwrite := hC.write (m := m) hh.inner
    (hm.mono (Set.compl_subset_compl.mpr (bytes_subset_liveBytes hledger)))
  have hframe := hC.deallocate_frame hwrite hledger
  have hmem : h'.mem = (W.heap h').mem := rfl
  rw [hcall, hmem, hheap]
  exact hframe.trans (hm.mono (Set.compl_subset_compl.mpr (hC.inner_subset hh hc)))

theorem Lawful.guarded_mem_congr (hC : C.Lawful) (hW : W.Sound C.calls P)
    (hh : W.Holds P C.inv h K)
    (hm : Set.EqOn m h.mem (C.territory \ liveBytes (Carving.user '' K))) :
    W.Holds P C.inv ⟨h.alloc, m⟩ K := by
  have hP := hW.carves (W.key h.alloc)
  refine ⟨hC.mem_congr hh.inner (hm.mono ?_), hh.injOn, fun c hc => ?_⟩
  · exact Set.sdiff_subset_sdiff_right (Carved.liveBytes_subset hP hh)
  · refine hP.congr (hh.holds c hc) fun x hx => hm ⟨hC.inner_subset hh hc hx.1, ?_⟩
    exact Carved.not_mem_liveBytes hC.toHonoursCore hh hP hc hx

/-- **A sound guard over a lawful component** is a lawful component. -/
theorem Lawful.guarded (hC : C.Lawful) (hW : W.Sound C.calls P)
    (hanswer : ∀ {h K c}, W.Holds P C.inv h K → W.key h.alloc = k → c ∈ K →
      usableSize c.user.block.ptr c.user.layout h = answer c.user ∧
        ∀ n, answer c.user = some n → c.user.layout.size ≤ n ∧ n ≤ c.user.block.len)
    (hleaks : ∀ {h K l b h'}, W.Holds P C.inv h K → W.key h.alloc = k →
      W.allocate l h = (some b, h') → (roomy l h = true ↔ l.size < b.len) ∧
        (leaks l h = true ↔ (answer ⟨b, l⟩).getD l.size < b.len)) :
    (C.guarded W P k put usableSize answer roomy leaks).Lawful where
  toHonoursCore := by
    have hcore := (Guard.honours hW hC.toHonoursCore).toHonoursCore
    refine (hcore.restrict (Q := fun s => W.key s = k) ?_ ?_).congr rfl rfl
    · rintro h L l - rfl
      exact hW.key_allocate l h
    · rintro h L g ⟨K, rfl, hh⟩ ⟨c, hc, rfl⟩ rfl
      exact hW.key_deallocate (hh.holds c hc) (Carved.inner_satisfies hC.toHonoursCore hh hc)
  subset := by
    rintro h L g ⟨⟨K, rfl, hh⟩, -⟩ ⟨c, hc, rfl⟩
    exact ((hW.carves _).subset (hh.holds c hc)).trans (hC.inner_subset hh hc)
  allocate_frame := by
    rintro h L l ⟨⟨K, rfl, hh⟩, -⟩
    exact hC.guarded_allocate_frame hW hh
  deallocate_frame := by
    rintro h L g ⟨⟨K, rfl, hh⟩, -⟩ ⟨c, hc, rfl⟩
    exact hC.guarded_deallocate_frame hW hh hc
  mem_congr := by
    rintro h L m ⟨⟨K, rfl, hh⟩, hk⟩ hm
    exact ⟨⟨K, rfl, hC.guarded_mem_congr hW hh hm⟩, hk⟩
  range_spec := by
    intro R c hR
    obtain ⟨⟨R', c'⟩, hR', heq⟩ := Option.map_eq_some_iff.mp hR
    cases heq
    obtain ⟨hterritory, hblock⟩ := hC.range_spec hR'
    refine ⟨hterritory, ?_⟩
    rintro h L ⟨⟨K, rfl, hh⟩, -⟩
    exact hblock hh.inner
  answer_eq := by
    rintro h L g ⟨⟨K, rfl, hh⟩, hk⟩ ⟨c, hc, rfl⟩
    exact (hanswer hh hk hc).1
  answer_le := by
    rintro h L g n ⟨⟨K, rfl, hh⟩, hk⟩ ⟨c, hc, rfl⟩ hn
    exact (hanswer hh hk hc).2 n hn
  roomy_iff := by
    rintro h L l b h' ⟨⟨K, rfl, hh⟩, hk⟩ hcall
    exact (hleaks hh hk hcall).1
  leaks_iff := by
    rintro h L l b h' ⟨⟨K, rfl, hh⟩, hk⟩ hcall
    exact (hleaks hh hk hcall).2
  remote_free := by
    rintro h L g h' - - ⟨⟩

end Component

end ForgeAlloc
