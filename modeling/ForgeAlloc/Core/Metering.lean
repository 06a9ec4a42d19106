import ForgeAlloc.Core.Ledger
import ForgeAlloc.Library.InFlight

set_option autoImplicit false

/-! # Wrappers that count bytes

A counting wrapper adds the size of a block to a counter some time after the allocator underneath
has issued it, and subtracts it some time before the block goes back. Any number of calls may be in
flight in between. `holds c` are the blocks that a call holds at its place in the code, and
`counted c` those of them that the counter includes.

`Books` says that the clients and the calls hold what the allocator's ledger has, some blocks apart
that were issued past the wrapper, and that the counter is the sum of the sizes of what is counted.
A step of a call keeps the books if it keeps them locally (`Books.move`). The counter never wraps, in
either direction (`Books.add_lt`, `Books.size_le`), because the blocks that are out fit into the
address space.
-/

namespace ForgeAlloc

open ByteMemory InFlight

variable {w : Nat} {κ : Type}

/-- The sizes the blocks were requested with, added up. -/
def sizes (gs : List (Grant w)) : Nat := (gs.map fun g => g.layout.size).sum

@[simp] theorem sizes_nil : sizes ([] : List (Grant w)) = 0 := rfl

@[simp] theorem sizes_cons (g : Grant w) (gs : List (Grant w)) :
    sizes (g :: gs) = g.layout.size + sizes gs := List.sum_cons

@[simp] theorem sizes_append (gs gs' : List (Grant w)) :
    sizes (gs ++ gs') = sizes gs + sizes gs' := by
  rw [sizes, List.map_append, List.sum_append]
  rfl

theorem sizes_perm {gs gs' : List (Grant w)} (h : gs.Perm gs') : sizes gs = sizes gs' :=
  (h.map _).sum_eq

theorem sizes_le_of_sublist {gs gs' : List (Grant w)} (h : gs.Sublist gs') :
    sizes gs ≤ sizes gs' :=
  (h.map _).sum_le_sum fun _ _ => Nat.zero_le _

theorem size_le_sizes {gs : List (Grant w)} {g : Grant w} (h : g ∈ gs) :
    g.layout.size ≤ sizes gs :=
  List.single_le_sum (fun _ _ => Nat.zero_le _) _ (List.mem_map_of_mem h)

structure Books (holds counted : κ → List (Grant w)) (inner : Ledger w) (counter : Nat)
    (live : List (Grant w)) (calls : List κ) : Prop where
  outstanding : ∃ foreign, inner.grants.Perm (foreign ++ (live ++ calls.flatMap holds))
  counter_eq : counter = sizes (live ++ calls.flatMap counted)

namespace Books

variable {holds counted : κ → List (Grant w)} {inner inner' : Ledger w} {counter counter' : Nat}
  {live live' back out : List (Grant w)} {calls : List κ} {i : Nat} {c : κ} {next : Option κ}
  {g : Grant w}

/-- The wrapper is put around an allocator whose blocks it has not seen. -/
theorem init (inner : Ledger w) : Books holds counted inner 0 [] [] :=
  ⟨⟨inner.grants, by simp⟩, rfl⟩

/-- A call starts with the blocks `out` of its client. -/
theorem start (hb : Books holds counted inner counter live calls)
    (hlive : live.Perm (out ++ live')) (hholds : holds c = out) (hcounted : counted c = out) :
    Books holds counted inner counter live' (c :: calls) := by
  have hmove : ∀ f : κ → List (Grant w), f c = out →
      (live ++ calls.flatMap f).Perm (live' ++ (c :: calls).flatMap f) := by
    intro f hf
    rw [List.flatMap_cons, hf, ← List.append_assoc]
    exact (hlive.trans List.perm_append_comm).append_right _
  obtain ⟨foreign, hout⟩ := hb.outstanding
  exact ⟨⟨foreign, hout.trans ((hmove holds hholds).append_left _)⟩,
    hb.counter_eq.trans (sizes_perm (hmove counted hcounted))⟩

/-- **A step keeps the books** if what the call holds and counts changes by what the ledger and the
counter change by. The blocks `back` go to the client. -/
theorem move (hb : Books holds counted inner counter live calls) (hc : calls[i]? = some c)
    (hholds : (holds c ++ inner'.grants).Perm
      (inner.grants ++ (back ++ next.toList.flatMap holds)))
    (hcounted : sizes (counted c) + counter' =
      counter + sizes (back ++ next.toList.flatMap counted)) :
    Books holds counted inner' counter' (back ++ live) (replace calls i next) := by
  constructor
  · obtain ⟨foreign, hout⟩ := hb.outstanding
    refine ⟨foreign, (List.perm_append_left_iff (holds c)).mp (hholds.trans ?_)⟩
    have hstep := flatMap_replace_perm holds hc next
    have hold : (inner.grants ++ (back ++ next.toList.flatMap holds)).Perm
        ((foreign ++ (live ++ calls.flatMap holds)) ++ (back ++ next.toList.flatMap holds)) :=
      hout.append_right _
    have hnew : (foreign ++ (back ++ live) ++ (next.toList.flatMap holds ++
        calls.flatMap holds)).Perm
          (foreign ++ (back ++ live) ++ (holds c ++ (replace calls i next).flatMap holds)) :=
      hstep.symm.append_left _
    refine hold.trans ((List.Perm.trans ?_ hnew).trans ?_)
    · simp only [← Multiset.coe_eq_coe, ← Multiset.coe_add]
      abel
    · simp only [← Multiset.coe_eq_coe, ← Multiset.coe_add]
      abel
  · have hstep := sizes_perm (flatMap_replace_perm counted hc next)
    have hcounter := hb.counter_eq
    simp only [sizes_append] at hstep hcounter hcounted ⊢
    omega

/-- What is counted in a call is held in it. -/
theorem counter_lt (hb : Books holds counted inner counter live calls)
    (hsub : ∀ c, (counted c).Sublist (holds c)) : counter < 2 ^ w := by
  have hle : sizes (live ++ calls.flatMap counted) ≤ sizes (live ++ calls.flatMap holds) :=
    sizes_le_of_sublist ((List.Sublist.refl live).append
      (List.Sublist.flatMap_right calls fun c _ => hsub c))
  obtain ⟨foreign, hout⟩ := hb.outstanding
  calc counter = sizes (live ++ calls.flatMap counted) := hb.counter_eq
    _ ≤ sizes (live ++ calls.flatMap holds) := hle
    _ ≤ sizes (foreign ++ (live ++ calls.flatMap holds)) :=
      sizes_le_of_sublist (List.sublist_append_right _ _)
    _ = sizes inner.grants := (sizes_perm hout).symm
    _ < 2 ^ w := inner.sum_size_lt

/-- **Adding does not wrap**: the block to be counted is out already. -/
theorem add_lt (hb : Books holds counted inner counter live calls)
    (hsub : ∀ c, (counted c).Sublist (holds c)) (hc : calls[i]? = some c)
    (hg : (g :: counted c).Sublist (holds c)) : counter + g.layout.size < 2 ^ w := by
  have hperm := perm_cons_eraseIdx hc
  have hcounted := sizes_perm (hperm.flatMap_right counted)
  have hholds := sizes_perm (hperm.flatMap_right holds)
  have hrest : sizes ((calls.eraseIdx i).flatMap counted) ≤
      sizes ((calls.eraseIdx i).flatMap holds) :=
    sizes_le_of_sublist (List.Sublist.flatMap_right _ fun c _ => hsub c)
  have hcall := sizes_le_of_sublist hg
  have hcounter := hb.counter_eq
  obtain ⟨foreign, hperm'⟩ := hb.outstanding
  have hout := sizes_perm hperm'
  have hlt : sizes inner.grants < 2 ^ w := inner.sum_size_lt
  simp only [List.flatMap_cons, sizes_append, sizes_cons] at hcounted hholds hcall hcounter hout
  omega

/-- **Subtracting does not wrap**: the block is counted. -/
theorem size_le (hb : Books holds counted inner counter live calls) (hc : c ∈ calls)
    (hg : g ∈ counted c) : g.layout.size ≤ counter := by
  rw [hb.counter_eq]
  exact size_le_sizes (List.mem_append_right _ (List.mem_flatMap.mpr ⟨c, hc, hg⟩))

/-- What a call holds is out. -/
theorem mem_grants (hb : Books holds counted inner counter live calls) (hc : c ∈ calls)
    (hg : g ∈ holds c) : g ∈ inner.grants := by
  obtain ⟨foreign, hout⟩ := hb.outstanding
  refine hout.mem_iff.mpr (List.mem_append_right _ (List.mem_append_right _ ?_))
  exact List.mem_flatMap.mpr ⟨c, hc, hg⟩

/-- With no call in flight the counter is the sum over the live blocks. -/
theorem quiescent (hb : Books holds counted inner counter live []) : counter = sizes live := by
  have hcounter := hb.counter_eq
  rw [List.flatMap_nil, List.append_nil] at hcounter
  exact hcounter

end Books

end ForgeAlloc
