import ForgeAlloc.Core.Component
import ForgeAlloc.Library.ObjectStore
import ForgeAlloc.Library.Run

set_option autoImplicit false

/-! # The client of an allocator

A client asks a component for blocks, with or without zeros, writes to them, resizes them and frees
them, some from another thread. What it has is, in the end, a store of objects that nobody else
touches. `client_run_refines` says so: whatever the component does underneath, each run of the client
is a run of the store, and the memory holds what the store knows.
-/

namespace ForgeAlloc

open ByteMemory ObjectStore

structure ClientRun (w : Nat) (ι σ : Type) where
  heap : Heap σ
  /-- The blocks that are out, under the client's names. -/
  objects : ι → Option (Grant w)

inductive ClientOp (w : Nat) (ι : Type)
  | allocate (i : ι) (l : NonZeroLayout w)
  | allocateZeroed (i : ι) (l : NonZeroLayout w)
  | write (i : ι) (k : Nat) (v : UInt8)
  | resize (r : Resize) (i : ι) (new : NonZeroLayout w)
  | deallocate (i : ι)
  | remoteFree (i : ι)

namespace ClientRun

variable {w : Nat} {ι σ : Type} [DecidableEq ι]

/-- What a call returns goes under the name `i`, if it succeeds. -/
def receive (s : ClientRun w ι σ) (i : ι) (l : NonZeroLayout w) (r : Option Block × Heap σ) :
    ClientRun w ι σ :=
  match r with
  | (none, h) => { s with heap := h }
  | (some b, h) => ⟨h, Function.update s.objects i (some ⟨b, l⟩)⟩

def step (C : Component w σ) (s : ClientRun w ι σ) : ClientOp w ι → Option (ClientRun w ι σ)
  | .allocate i l =>
      match s.objects i with
      | some _ => none
      | none => some (s.receive i l (C.calls.allocate l s.heap))
  | .allocateZeroed i l =>
      match s.objects i with
      | some _ => none
      | none => some (s.receive i l (defaultAllocateZeroed C.calls.allocate l s.heap))
  | .write i k v =>
      match s.objects i with
      | none => none
      | some g =>
          if k < g.block.len then
            some { s with heap := ⟨s.heap.alloc, writeByte s.heap.mem (g.block.ptr + k) v⟩ }
          else none
  | .resize r i new =>
      match s.objects i with
      | none => none
      | some g =>
          if r.Legal g.layout new ∧ g.layout.align = new.align then
            some (s.receive i new (r.call C.calls g.block.ptr g.layout new s.heap))
          else none
  | .deallocate i =>
      match s.objects i with
      | none => none
      | some g =>
          some ⟨C.calls.deallocate g.block.ptr g.layout s.heap, Function.update s.objects i none⟩
  | .remoteFree i =>
      match s.objects i with
      | none => none
      | some g =>
          (C.remoteFree g.block.ptr g.layout s.heap).map fun h =>
            ⟨h, Function.update s.objects i none⟩

/-- What an operation of the client is to the store. A request may be refused; a block may be longer
than what was asked for. -/
inductive Does : ClientOp w ι → Op ι → Prop
  | allocate {i : ι} {l : NonZeroLayout w} {n : Nat} (h : l.size ≤ n) :
      Does (.allocate i l) (.create i false l.size n)
  | allocateZeroed {i : ι} {l : NonZeroLayout w} {n : Nat} (h : l.size ≤ n) :
      Does (.allocateZeroed i l) (.create i true l.size n)
  | write {i : ι} {k : Nat} {v : UInt8} : Does (.write i k v) (.write i k v)
  | resize {r : Resize} {i : ι} {new : NonZeroLayout w} {n : Nat} (h : new.size ≤ n) :
      Does (.resize r i new) (.resize i new.size n)
  | deallocate {i : ι} : Does (.deallocate i) (.remove i)
  | remoteFree {i : ι} : Does (.remoteFree i) (.remove i)
  | allocateRefused {i : ι} {l : NonZeroLayout w} : Does (.allocate i l) .refuse
  | zeroedRefused {i : ι} {l : NonZeroLayout w} : Does (.allocateZeroed i l) .refuse
  | resizeRefused {r : Resize} {i : ι} {new : NonZeroLayout w} : Does (.resize r i new) .refuse

/-- The grants that are out. -/
def live (objects : ι → Option (Grant w)) : Set (Grant w) := {g | ∃ i, objects i = some g}

/-- Where the objects are. -/
def place (objects : ι → Option (Grant w)) : ι → Option Block := fun i =>
  (objects i).map Grant.block

/-- The client has what the store says. -/
structure Agrees (C : Component w σ) (s : ClientRun w ι σ) (a : Store ι) : Prop where
  inv : C.inv s.heap (live s.objects)
  injective : ∀ i j g, s.objects i = some g → s.objects j = some g → i = j
  represents : Represents s.heap.mem (place s.objects) a
  size_eq : ∀ i g o, s.objects i = some g → a i = some o → o.size = g.layout.size

variable {C : Component w σ} {s s' : ClientRun w ι σ} {a : Store ι} {i : ι} {g : Grant w}
  {h' : Heap σ} {b : Block} {l new : NonZeroLayout w} {o : Object} {kept : Set (Grant w)}
  {objects : ι → Option (Grant w)}

/-! ## The table of the client -/

omit [DecidableEq ι] in
theorem mem_live (h : objects i = some g) : g ∈ live objects := ⟨i, h⟩

theorem place_update (objects : ι → Option (Grant w)) (i : ι) (v : Option (Grant w)) :
    place (Function.update objects i v) = Function.update (place objects) i (v.map Grant.block) :=
  funext fun _ => Function.apply_update (fun _ => Option.map Grant.block) objects i v _

theorem live_update_some (objects : ι → Option (Grant w)) (i : ι) (g : Grant w) :
    live (Function.update objects i (some g)) =
      insert g (live (Function.update objects i none)) := by
  ext g'
  simp only [live, Set.mem_ofPred_eq, Set.mem_insert_iff, update_eq_iff, Option.some.injEq,
    reduceCtorEq, and_false, false_or, exists_or, exists_eq_left, @eq_comm _ g g']

theorem live_update_none_of_none (h : objects i = none) :
    live (Function.update objects i none) = live objects := by
  rw [← h, Function.update_eq_self]

theorem live_update_none (hinj : ∀ i j g, objects i = some g → objects j = some g → i = j)
    (h : objects i = some g) : live (Function.update objects i none) = live objects \ {g} := by
  ext g'
  constructor
  · rintro ⟨j, hj⟩
    obtain ⟨-, ⟨⟩⟩ | ⟨hji, hj⟩ := update_eq_iff.mp hj
    refine ⟨⟨j, hj⟩, ?_⟩
    rintro rfl
    exact hji (hinj j i g' hj h)
  · rintro ⟨⟨j, hj⟩, hne⟩
    have hji : j ≠ i := by
      rintro rfl
      exact hne (Option.some.inj (hj.symm.trans h))
    exact ⟨j, update_eq_iff.mpr (Or.inr ⟨hji, hj⟩)⟩

/-- The objects apart from `i`. -/
theorem mem_live_of_ne {j : ι} {g' : Grant w} (hji : j ≠ i) (hj : objects j = some g') :
    g' ∈ live (Function.update objects i none) := ⟨j, update_eq_iff.mpr (Or.inr ⟨hji, hj⟩)⟩

/-! ## What the calls do to the store -/

/-- The bytes of the other objects, where they are. -/
theorem eqOn_place {m m' : Mem} (hkept : live (Function.update objects i none) = kept)
    (hframe : Set.EqOn m' m (liveBytes kept)) {j : ι} {p : Block} (hji : j ≠ i)
    (hj : place objects j = some p) : Set.EqOn m' m p.bytes := by
  obtain ⟨g', hg', rfl⟩ := Option.map_eq_some_iff.mp hj
  have hmem : g' ∈ kept := hkept ▸ mem_live_of_ne hji hg'
  exact hframe.mono (bytes_subset_liveBytes hmem)

/-- A block is issued under the name `i`. -/
theorem Agrees.issued (hC : C.Lawful) (h : Agrees C s a)
    (hkept : live (Function.update s.objects i none) = kept)
    (hiss : Issued C.inv kept s.heap h' b l) (hat : o.At h'.mem b) (hsize : o.size = l.size) :
    Agrees C ⟨h', Function.update s.objects i (some ⟨b, l⟩)⟩ (Function.update a i (some o)) where
  inv := by
    rw [live_update_some, hkept]
    exact hiss.inv
  injective := by
    -- the new block is apart from the others, and not empty
    have hnew : ∀ j, j ≠ i → s.objects j ≠ some ⟨b, l⟩ := by
      intro j hji hj
      have hmem : (⟨b, l⟩ : Grant w) ∈ kept := hkept ▸ mem_live_of_ne hji hj
      have hpos := (hC.satisfies hiss.inv (Set.mem_insert _ _)).len_pos
      exact not_disjoint_self hpos (hiss.fresh _ hmem)
    intro j k g' hj hk
    rcases update_eq_iff.mp hj with ⟨rfl, hb⟩ | ⟨hji, hold⟩
    · rcases update_eq_iff.mp hk with ⟨rfl, -⟩ | ⟨hki, hold⟩
      · rfl
      · exact absurd (hold.trans hb.symm) (hnew k hki)
    · rcases update_eq_iff.mp hk with ⟨rfl, hb⟩ | ⟨-, hold'⟩
      · exact absurd (hold.trans hb.symm) (hnew j hji)
      · exact h.injective j k g' hold hold'
  represents := by
    rw [place_update]
    refine h.represents.update hat (fun j p hji hj => eqOn_place hkept hiss.frame hji hj) ?_
    intro j p hji hj
    obtain ⟨g', hg', rfl⟩ := Option.map_eq_some_iff.mp hj
    exact hiss.fresh g' (hkept ▸ mem_live_of_ne hji hg')
  size_eq := by
    intro j g' o' hj ho
    rcases update_eq_iff.mp hj with ⟨rfl, hb⟩ | ⟨hji, hj⟩
    · rw [Function.update_self] at ho
      exact Option.some.inj hb ▸ Option.some.inj ho ▸ hsize
    · rw [Function.update_of_ne hji] at ho
      exact h.size_eq j g' o' hj ho

/-- The object `i` is gone. -/
theorem Agrees.removed (h : Agrees C s a) (hg : s.objects i = some g)
    (hinv : C.inv h' (live s.objects \ {g}))
    (hframe : Set.EqOn h'.mem s.heap.mem (liveBytes (live s.objects \ {g}))) :
    Agrees C ⟨h', Function.update s.objects i none⟩ (Function.update a i none) where
  inv := by
    rw [live_update_none h.injective hg]
    exact hinv
  injective := by
    intro j k g' hj hk
    obtain ⟨-, ⟨⟩⟩ | ⟨-, hj⟩ := update_eq_iff.mp hj
    obtain ⟨-, ⟨⟩⟩ | ⟨-, hk⟩ := update_eq_iff.mp hk
    exact h.injective j k g' hj hk
  represents := by
    rw [place_update]
    exact h.represents.remove fun j p hji hj =>
      eqOn_place (live_update_none h.injective hg) hframe hji hj
  size_eq := by
    intro j g' o' hj ho
    obtain ⟨-, ⟨⟩⟩ | ⟨hji, hj⟩ := update_eq_iff.mp hj
    rw [Function.update_of_ne hji] at ho
    exact h.size_eq j g' o' hj ho

omit [DecidableEq ι] in
/-- Nothing happens to the objects. -/
theorem Agrees.unchanged (h : Agrees C s a)
    (hun : Unchanged C.inv (live s.objects) s.heap h') : Agrees C { s with heap := h' } a where
  inv := hun.inv
  injective := h.injective
  represents := h.represents.congr fun j p hj => by
    obtain ⟨g', hg', rfl⟩ := Option.map_eq_some_iff.mp hj
    exact hun.frame.mono (bytes_subset_liveBytes (mem_live hg'))
  size_eq := h.size_eq

omit [DecidableEq ι] in
/-- The store knows an object where the client has one. -/
theorem Agrees.exists_object (h : Agrees C s a) (hg : s.objects i = some g) :
    ∃ o, a i = some o ∧ o.At s.heap.mem g.block ∧ o.size = g.layout.size := by
  have hplace : place s.objects i = some g.block := by rw [place, hg]; rfl
  cases ho : a i with
  | none =>
      rw [(h.represents.none_iff i).mpr ho] at hplace
      cases hplace
  | some o => exact ⟨o, rfl, h.represents.held i g.block o hplace ho, h.size_eq i g o hg ho⟩

omit [DecidableEq ι] in
/-- An object of the client is where its layout allows, in the territory. -/
theorem Agrees.object_spec (hC : C.Lawful) (h : Agrees C s a) (hg : s.objects i = some g) :
    Satisfies g.block g.layout ∧ g.block.bytes ⊆ C.territory ∧
      ∃ o, a i = some o ∧ o.size = g.layout.size := by
  obtain ⟨o, ho, -, hsize⟩ := h.exists_object hg
  exact ⟨hC.satisfies h.inv (mem_live hg), hC.subset h.inv (mem_live hg), o, ho, hsize⟩

omit [DecidableEq ι] in
theorem Agrees.eq_none (h : Agrees C s a) (hnone : s.objects i = none) : a i = none :=
  (h.represents.none_iff i).mp (by rw [place, hnone]; rfl)

/-- A zeroed request zeroes what was asked for. -/
theorem zeroed_some {A : Allocator w σ} {Inv : Heap σ → Set (Grant w) → Prop} {h : Heap σ}
    {L : Set (Grant w)} (hA : HonoursCore A Inv) (hinv : Inv h L)
    (hcall : defaultAllocateZeroed A.allocate l h = (some b, h')) :
    Issued Inv L h h' b l ∧ ∀ k < l.size, h'.mem (b.ptr + k) = 0 := by
  unfold defaultAllocateZeroed at hcall
  split at hcall
  case h_1 => cases hcall
  case h_2 b' h₁ halloc =>
      cases hcall
      obtain ⟨hinv', hfresh, hframe⟩ := hA.allocate_some hinv halloc
      have hlarge := (hA.allocate_satisfies hinv halloc).large
      have hout : ∀ x, x ∉ b.bytes → fillBytes h₁.mem b.ptr l.size 0 x = h₁.mem x := by
        intro x hx
        rw [Block.mem_bytes] at hx
        exact fillBytes_of_not_mem 0 (by omega)
      refine ⟨⟨?_, hfresh, ?_⟩, fun k hk => fillBytes_add 0 hk⟩
      · refine hA.write hinv' fun x hx => hout x fun hxb => hx ?_
        exact bytes_subset_liveBytes (Set.mem_insert _ _) hxb
      · rintro x ⟨g', hg', hx⟩
        refine (hout x fun hxb => ?_).trans (hframe ⟨g', hg', hx⟩)
        exact Set.disjoint_left.mp (hfresh g' hg') hxb hx

theorem zeroed_none {A : Allocator w σ} {Inv : Heap σ → Set (Grant w) → Prop} {h : Heap σ}
    {L : Set (Grant w)} (hA : HonoursCore A Inv) (hinv : Inv h L)
    (hcall : defaultAllocateZeroed A.allocate l h = (none, h')) : Unchanged Inv L h h' := by
  unfold defaultAllocateZeroed at hcall
  split at hcall
  case h_1 h₁ halloc =>
      cases hcall
      exact hA.allocate_none hinv halloc
  case h_2 => cases hcall

/-- The client writes a byte of an object. -/
theorem Agrees.written (hA : HonoursCore C.calls C.inv) (h : Agrees C s a)
    (hg : s.objects i = some g) (ho : a i = some o) (hat : o.At s.heap.mem g.block) {k : Nat}
    (hk : k < g.block.len) (v : UInt8) :
    Agrees C { s with heap := ⟨s.heap.alloc, writeByte s.heap.mem (g.block.ptr + k) v⟩ }
      (Function.update a i (some (o.write k v))) where
  inv := hA.write h.inv (writeByte_eqOn_live (mem_live hg) hk s.heap.mem v)
  injective := h.injective
  represents := by
    have hplace : place s.objects i = some g.block := by rw [place, hg]; rfl
    have hothers : ∀ j p, j ≠ i → place s.objects j = some p → Disjoint g.block.bytes p.bytes :=
      fun j p hji hj => h.represents.disjoint i j g.block p hji.symm hplace hj
    have hframe : ∀ j p, j ≠ i → place s.objects j = some p →
        Set.EqOn (writeByte s.heap.mem (g.block.ptr + k) v) s.heap.mem p.bytes := by
      intro j p hji hj x hx
      refine writeByte_of_ne v ?_
      rintro rfl
      refine Set.disjoint_left.mp (hothers j p hji hj) ?_ hx
      exact ⟨Nat.le_add_right _ _, Nat.add_lt_add_left hk _⟩
    have hrep := h.represents.update (hat.write v) hframe hothers
    rwa [← hplace, Function.update_eq_self] at hrep
  size_eq := by
    intro j g' o' hj ho'
    rcases update_eq_iff.mp ho' with ⟨rfl, heq⟩ | ⟨-, hold⟩
    · exact Option.some.inj heq ▸ h.size_eq j g' o hj ho
    · exact h.size_eq j g' o' hj hold

omit [DecidableEq ι] in
/-- A resize, of either kind. -/
theorem resize_some {A : Allocator w σ} {Inv : Heap σ → Set (Grant w) → Prop} {h : Heap σ}
    {L : Set (Grant w)} {r : Resize} (hA : Honours A Inv) (hinv : Inv h L) (hg : g ∈ L)
    (hlegal : r.Legal g.layout new) (halign : g.layout.align = new.align)
    (hcall : r.call A g.block.ptr g.layout new h = (some b, h')) :
    Issued Inv (L \ {g}) h h' b new ∧
      ∀ k < min g.layout.size new.size, h'.mem (b.ptr + k) = h.mem (g.block.ptr + k) := by
  cases r with
  | grow =>
      rw [min_eq_left hlegal]
      exact hA.grow_some hinv hg hlegal halign hcall
  | shrink =>
      rw [min_eq_right hlegal]
      exact hA.shrink_some hinv hg hlegal halign hcall

omit [DecidableEq ι] in
theorem resize_none {A : Allocator w σ} {Inv : Heap σ → Set (Grant w) → Prop} {h : Heap σ}
    {L : Set (Grant w)} {r : Resize} (hA : Honours A Inv) (hinv : Inv h L) (hg : g ∈ L)
    (hlegal : r.Legal g.layout new) (halign : g.layout.align = new.align)
    (hcall : r.call A g.block.ptr g.layout new h = (none, h')) : Unchanged Inv L h h' := by
  cases r with
  | grow => exact hA.grow_none hinv hg hlegal halign hcall
  | shrink => exact hA.shrink_none hinv hg hlegal halign hcall

/-! ## The simulation -/

/-- **One operation of the client is one of the store.** -/
theorem agrees_step (hC : C.Lawful) (hA : Honours C.calls C.inv) (op : ClientOp w ι)
    (h : Agrees C s a) (hstep : step C s op = some s') :
    ∃ d a', Does op d ∧ ObjectStore.step a d = some a' ∧ Agrees C s' a' := by
  cases op with
  | allocate i l =>
      simp only [step] at hstep
      split at hstep
      case h_1 => cases hstep
      case h_2 hfree =>
          have hkept := live_update_none_of_none hfree
          rcases hcall : C.calls.allocate l s.heap with ⟨_ | b, h'⟩
          · rw [hcall] at hstep
            cases hstep
            exact ⟨_, a, .allocateRefused, rfl, h.unchanged (hA.allocate_none h.inv hcall)⟩
          · rw [hcall] at hstep
            cases hstep
            have hat : (Object.fresh false l.size b.len).At h'.mem b :=
              Object.fresh_at fun hzeroed => (by cases hzeroed)
            refine ⟨_, _, .allocate (hA.allocate_satisfies h.inv hcall).large, ?_,
              h.issued hC hkept (hA.allocate_some h.inv hcall) hat rfl⟩
            simp only [ObjectStore.step, h.eq_none hfree]
  | allocateZeroed i l =>
      simp only [step] at hstep
      split at hstep
      case h_1 => cases hstep
      case h_2 hfree =>
          have hkept := live_update_none_of_none hfree
          rcases hcall : defaultAllocateZeroed C.calls.allocate l s.heap with ⟨_ | b, h'⟩
          · rw [hcall] at hstep
            cases hstep
            exact ⟨_, a, .zeroedRefused, rfl,
              h.unchanged (zeroed_none hA.toHonoursCore h.inv hcall)⟩
          · rw [hcall] at hstep
            cases hstep
            obtain ⟨hiss, hzero⟩ := zeroed_some hA.toHonoursCore h.inv hcall
            have hlarge := (hA.satisfies (g := ⟨b, l⟩) hiss.inv (Set.mem_insert _ _)).large
            have hat : (Object.fresh true l.size b.len).At h'.mem b := Object.fresh_at fun _ => hzero
            refine ⟨_, _, .allocateZeroed hlarge, ?_, h.issued hC hkept hiss hat rfl⟩
            simp only [ObjectStore.step, h.eq_none hfree]
  | write i k v =>
      simp only [step] at hstep
      split at hstep
      case h_1 => cases hstep
      case h_2 g hg =>
          split at hstep
          case isFalse => cases hstep
          case isTrue hk =>
              cases hstep
              obtain ⟨o, ho, hat, -⟩ := h.exists_object hg
              refine ⟨_, _, .write, ?_, h.written hA.toHonoursCore hg ho hat hk v⟩
              simp only [ObjectStore.step, ho, hat.room_eq, if_pos hk]
  | resize r i new =>
      simp only [step] at hstep
      split at hstep
      case h_1 => cases hstep
      case h_2 g hg =>
          split at hstep
          case isFalse => cases hstep
          case isTrue hguard =>
              obtain ⟨hlegal, halign⟩ := hguard
              obtain ⟨o, ho, hat, hsize⟩ := h.exists_object hg
              rcases hcall : r.call C.calls g.block.ptr g.layout new s.heap with ⟨_ | b, h'⟩
              · rw [hcall] at hstep
                cases hstep
                exact ⟨_, a, .resizeRefused, rfl,
                  h.unchanged (resize_none hA h.inv (mem_live hg) hlegal halign hcall)⟩
              · rw [hcall] at hstep
                cases hstep
                obtain ⟨hiss, hcopy⟩ := resize_some hA h.inv (mem_live hg) hlegal halign hcall
                have hlarge := (hA.satisfies (g := ⟨b, new⟩) hiss.inv (Set.mem_insert _ _)).large
                have hkeep : o.size ≤ g.block.len := by
                  rw [hsize]
                  exact (hA.satisfies h.inv (mem_live hg)).large
                rw [← hsize] at hcopy
                refine ⟨_, _, .resize hlarge, ?_, h.issued hC (live_update_none h.injective hg) hiss
                  (hat.resize hkeep hcopy) rfl⟩
                simp only [ObjectStore.step, ho]
  | deallocate i =>
      simp only [step] at hstep
      split at hstep
      case h_1 => cases hstep
      case h_2 g hg =>
          cases hstep
          obtain ⟨o, ho, -⟩ := h.exists_object hg
          have hfree := hA.deallocate h.inv (mem_live hg)
          refine ⟨_, _, .deallocate, ?_, h.removed hg hfree.inv hfree.frame⟩
          simp only [ObjectStore.step, ho]
  | remoteFree i =>
      simp only [step] at hstep
      split at hstep
      case h_1 => cases hstep
      case h_2 g hg =>
          obtain ⟨h', hfree, rfl⟩ := Option.map_eq_some_iff.mp hstep
          obtain ⟨o, ho, -⟩ := h.exists_object hg
          obtain ⟨hinv, hmem⟩ := hC.remote_free h.inv (mem_live hg) hfree
          refine ⟨_, _, .remoteFree, ?_, h.removed hg hinv fun x _ => congrFun hmem x⟩
          simp only [ObjectStore.step, ho]

omit [DecidableEq ι] in
theorem agrees_start {h : Heap σ} (hstart : C.inv h ∅) :
    Agrees C ⟨h, fun _ => none⟩ (ObjectStore.empty : Store ι) where
  inv := by
    have hempty : live (fun _ : ι => (none : Option (Grant w))) = ∅ := by
      refine Set.eq_empty_of_forall_notMem ?_
      rintro g ⟨i, ⟨⟩⟩
    exact hempty ▸ hstart
  injective := by
    rintro i j g ⟨⟩
  represents := represents_empty h.mem
  size_eq := by
    rintro i g o ⟨⟩

/-- The component keeps its invariant for the objects of the client. -/
theorem run_inv (hC : C.Lawful) (hA : Honours C.calls C.inv) {h : Heap σ} (hstart : C.inv h ∅)
    {ops : List (ClientOp w ι)} (hrun : Machine.run (step C) ⟨h, fun _ => none⟩ ops = some s) :
    C.inv s.heap (live s.objects) := by
  obtain ⟨-, a, -, -, hagrees⟩ := Machine.run_simulation
    (fun s a op s' => agrees_step hC hA op) (agrees_start hstart) hrun
  exact hagrees.inv

/-- **What a client has is a store of objects.** Let the component meet the contract, with nothing
out to begin with. Every run of the client, from whatever memory, is a run of the store in which each
operation does what it says, or is refused where it is a request; and in the end

* the objects of the client are those of the store, each in a block that satisfies its layout, inside
  the territory of the component, apart from the others;
* each byte that the store knows is in the memory. -/
theorem client_run_refines (hC : C.Lawful) (hA : Honours C.calls C.inv) {h : Heap σ}
    (hstart : C.inv h ∅) {ops : List (ClientOp w ι)}
    (hrun : Machine.run (step C) ⟨h, fun _ => none⟩ ops = some s) :
    ∃ ds a, List.Forall₂ Does ops ds ∧ Machine.run ObjectStore.step ObjectStore.empty ds = some a ∧
      Represents s.heap.mem (place s.objects) a ∧
      ∀ i g, s.objects i = some g → Satisfies g.block g.layout ∧ g.block.bytes ⊆ C.territory ∧
        ∃ o, a i = some o ∧ o.size = g.layout.size := by
  obtain ⟨ds, a, hds, hstore, hagrees⟩ := Machine.run_simulation
    (fun s a op s' => agrees_step hC hA op) (agrees_start hstart) hrun
  exact ⟨ds, a, hds, hstore, hagrees.represents, fun i g hg => hagrees.object_spec hC hg⟩

end ClientRun

end ForgeAlloc
