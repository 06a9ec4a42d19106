import ForgeAlloc.Core.Component
import ForgeAlloc.Layout.Fallback

set_option autoImplicit false

/-! # `WithFallback` as a component

The primary is a component that owns a range, the secondary a component that works elsewhere; it
need not have a range. So the two work apart (`WithFallback.worksIn`).

A question about a block goes to the half that issued it, as a free does. Whether a request leaks is
decided by the half that serves it, the secondary in the heap that the primary leaves (`byHalf`).
-/

namespace ForgeAlloc

open ByteMemory

namespace WithFallback

variable {w : Nat} {π σ : Type}

/-- What the half that serves a request says of it. -/
def byHalf (P : Component w π) (ofPrimary : NonZeroLayout w → Heap π → Bool)
    (ofSecondary : NonZeroLayout w → Heap σ → Bool) (l : NonZeroLayout w)
    (h : Heap (WithFallback π σ)) : Bool :=
  match P.calls.allocate l (primaryHeap h) with
  | (some _, _) => ofPrimary l (primaryHeap h)
  | (none, r) => ofSecondary l (secondaryHeap (setPrimary h r))

/-- The component over a primary with the range `R` at `c`. -/
def component (P : Component w π) (R : FixedRange π) (c : Block) (S : Component w σ) :
    Component w (WithFallback π σ) where
  calls := allocator P.calls R S.calls
  range := none
  territory := P.territory ∪ S.territory
  inv := Halved P.inv S.inv
  answer := fun g =>
    if c.ptr ≤ g.block.ptr ∧ g.block.ptr < c.ptr + c.len then P.answer g else S.answer g
  roomy := byHalf P P.roomy S.roomy
  leaks := byHalf P P.leaks S.leaks
  remoteFree := fun ptr l h =>
    if R.contains w ptr h.alloc.primary then
      (P.remoteFree ptr l (primaryHeap h)).map (setPrimary h)
    else (S.remoteFree ptr l (secondaryHeap h)).map (setSecondary h)

variable {P : Component w π} {S : Component w σ} {R : FixedRange π} {c : Block}
  {h h' : Heap (WithFallback π σ)} {LP LS : Set (Grant w)} {g : Grant w} {b : Block}
  {l : NonZeroLayout w} {rP : Heap π} {rS : Heap σ}

theorem tells (hP : P.Lawful) (hR : P.range = some (R, c)) : Tells w R P.territory P.inv := by
  intro r L hinv p hp
  obtain ⟨hterritory, hblock⟩ := hP.range_spec hR
  obtain ⟨hc, -, hend⟩ := hblock hinv
  rw [hterritory]
  exact tells_range hend r L ⟨hinv, hc⟩ p hp

/-- What the component answers for a block of the primary. -/
theorem answer_primary (hP : P.Lawful) (hR : P.range = some (R, c)) (hinv : P.inv rP LP)
    (hg : g ∈ LP) : (component P R c S).answer g = P.answer g := by
  have hmem := hP.subset hinv hg (first_mem (hP.satisfies hinv hg))
  rw [(hP.range_spec hR).1] at hmem
  exact if_pos hmem

theorem answer_secondary (hP : P.Lawful) (hS : S.Lawful) (hR : P.range = some (R, c))
    (hdisj : Disjoint P.territory S.territory) (hinv : S.inv rS LS) (hg : g ∈ LS) :
    (component P R c S).answer g = S.answer g := by
  have hmem := hS.subset hinv hg (first_mem (hS.satisfies hinv hg))
  rw [(hP.range_spec hR).1] at hdisj
  exact if_neg fun hc => Set.disjoint_left.mp hdisj hc hmem

/-! ## The contract -/

variable (hs : Halves P.inv S.inv h LP LS) (hP : P.Lawful) (hS : S.Lawful)
  (hR : P.range = some (R, c)) (hdisj : Disjoint P.territory S.territory)

include hs hP hS hdisj in
theorem Halves.roomy_iff
    (heq : allocateWith P.calls.allocate S.calls.allocate l h = (some b, h')) :
    byHalf P P.roomy S.roomy l h = true ↔ l.size < b.len := by
  rcases WithFallback.allocateWith_some heq with ⟨r, hcall, rfl⟩ | ⟨r, r', hfail, hcall, rfl⟩
  · simp only [byHalf, hcall]
    exact hP.roomy_iff hs.primary hcall
  · obtain ⟨hs₁, -⟩ := hs.primary_none hS.toWorksIn hdisj hP.serves hfail
    simp only [byHalf, hfail]
    exact hS.roomy_iff hs₁.secondary hcall

include hs hP hS hR hdisj in
theorem Halves.leaks_iff
    (heq : allocateWith P.calls.allocate S.calls.allocate l h = (some b, h')) :
    (component P R c S).leaks l h = true ↔ (component P R c S).answered ⟨b, l⟩ < b.len := by
  rcases WithFallback.allocateWith_some heq with ⟨r, hcall, rfl⟩ | ⟨r, r', hfail, hcall, rfl⟩
  · have hiss := (hP.allocate_some hs.primary hcall).inv
    have hanswer := answer_primary (S := S) hP hR hiss (Set.mem_insert ⟨b, l⟩ LP)
    simp only [Component.answered, hanswer]
    simp only [component, byHalf, hcall]
    exact hP.leaks_iff hs.primary hcall
  · obtain ⟨hs₁, -⟩ := hs.primary_none hS.toWorksIn hdisj hP.serves hfail
    have hiss := (hS.allocate_some hs₁.secondary hcall).inv
    have hanswer := answer_secondary hP hS hR hdisj hiss (Set.mem_insert ⟨b, l⟩ LS)
    simp only [Component.answered, hanswer]
    simp only [component, byHalf, hfail]
    exact hS.leaks_iff hs₁.secondary hcall

include hs hP hS hR hdisj in
theorem Halves.answer_eq (hg : g ∈ LP ∪ LS) :
    usableSize P.calls R S.calls g.block.ptr g.layout h = (component P R c S).answer g := by
  have htells := tells hP hR
  rcases hg with hg | hg
  · rw [answer_primary hP hR hs.primary hg, ← hP.answer_eq hs.primary hg]
    exact hs.usableSize_primary hP.toWorksIn htells hg
  · rw [answer_secondary hP hS hR hdisj hs.secondary hg, ← hS.answer_eq hs.secondary hg]
    exact hs.usableSize_secondary hS.toWorksIn htells hdisj hg

include hs hP hS hR hdisj in
theorem Halves.remote_free (hg : g ∈ LP ∪ LS)
    (hcall : (component P R c S).remoteFree g.block.ptr g.layout h = some h') :
    (component P R c S).inv h' ((LP ∪ LS) \ {g}) ∧ h'.mem = h.mem := by
  have htells := tells hP hR
  rcases hg with hg | hg
  · simp only [component, hs.contains_primary hP.toWorksIn htells hg, if_true,
      Option.map_eq_some_iff] at hcall
    obtain ⟨r, hfree, rfl⟩ := hcall
    obtain ⟨hinv, hmem⟩ := hP.remote_free hs.primary hg hfree
    obtain ⟨hs', -⟩ := hs.primary_step hS.toWorksIn hdisj hinv fun x _ => congrFun hmem x
    rw [hs.sdiff_primary hP.toWorksIn hS.toWorksIn hdisj hg]
    exact ⟨⟨_, LS, rfl, hs'⟩, hmem⟩
  · simp only [component, hs.contains_secondary hS.toWorksIn htells hdisj hg, Bool.false_eq_true,
      if_false, Option.map_eq_some_iff] at hcall
    obtain ⟨r, hfree, rfl⟩ := hcall
    obtain ⟨hinv, hmem⟩ := hS.remote_free hs.secondary hg hfree
    obtain ⟨hs', -⟩ := hs.secondary_step hP.toWorksIn hdisj hinv fun x _ => congrFun hmem x
    rw [hs.sdiff_secondary hP.toWorksIn hS.toWorksIn hdisj hg]
    exact ⟨⟨LP, _, rfl, hs'⟩, hmem⟩

/-- **`WithFallback` over two lawful components that work apart** is a lawful component. -/
theorem lawful (hP : P.Lawful) (hS : S.Lawful) (hR : P.range = some (R, c))
    (hdisj : Disjoint P.territory S.territory) : (component P R c S).Lawful where
  toWorksIn := worksIn hP.toWorksIn hS.toWorksIn hdisj (tells hP hR)
  range_spec := by
    rintro R' c' ⟨⟩
  answer_eq := by
    rintro h L g ⟨LP, LS, rfl, hs⟩ hg
    exact hs.answer_eq hP hS hR hdisj hg
  answer_le := by
    rintro h L g n ⟨LP, LS, rfl, hs⟩ (hg | hg) hn
    · rw [answer_primary hP hR hs.primary hg] at hn
      exact hP.answer_le hs.primary hg hn
    · rw [answer_secondary hP hS hR hdisj hs.secondary hg] at hn
      exact hS.answer_le hs.secondary hg hn
  roomy_iff := by
    rintro h L l b h' ⟨LP, LS, rfl, hs⟩ heq
    exact hs.roomy_iff hP hS hdisj heq
  leaks_iff := by
    rintro h L l b h' ⟨LP, LS, rfl, hs⟩ heq
    exact hs.leaks_iff hP hS hR hdisj heq
  remote_free := by
    rintro h L g h' ⟨LP, LS, rfl, hs⟩ hg hcall
    exact hs.remote_free hP hS hR hdisj hg hcall

theorem component_fresh {p : π} {s : σ} {m : Mem} (hP : P.inv ⟨p, m⟩ ∅) (hS : S.inv ⟨s, m⟩ ∅) :
    (component P R c S).inv ⟨⟨p, s⟩, m⟩ ∅ :=
  ⟨∅, ∅, (Set.union_empty ∅).symm, hP, hS⟩

end WithFallback

end ForgeAlloc
