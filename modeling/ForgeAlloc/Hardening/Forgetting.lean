import ForgeAlloc.Hardening.StackClient
import ForgeAlloc.Layout.SlabRun

set_option autoImplicit false

/-! # What a freed secret leaves behind

Two runs of a client that differ only in what it writes into its blocks are compared. Over a
component that never looks into the blocks that are out (`Component.Blind`), with a scrubbing wrapper
on top, they end with the same objects, the same allocator and the same memory, apart from the bytes
of the objects that are still out (`scrubbed_run_forgets`). A byte that was written and freed has left
no trace: not in the freed slots, not in the links between them, and not in the answers to later
requests.

Slabs and arenas are such components, and so are scrubbing wrappers over them.
-/

namespace ForgeAlloc

open ByteMemory ObjectStore

variable {w : Nat} {σ ω ι : Type}

/-- The two heaps are the same, apart from the bytes in `Z`. -/
def SameBut (Z : Set Nat) (h h' : Heap σ) : Prop :=
  h'.alloc = h.alloc ∧ Set.EqOn h'.mem h.mem Zᶜ

section

variable {Z Z' : Set Nat} {h h' : Heap σ} {L : Set (Grant w)} {m m' : Mem}

theorem SameBut.refl (Z : Set Nat) (h : Heap σ) : SameBut Z h h := ⟨rfl, fun _ _ => rfl⟩

theorem SameBut.mono (hsame : SameBut Z h h') (hsub : Z ⊆ Z') : SameBut Z' h h' :=
  ⟨hsame.1, hsame.2.mono (Set.compl_subset_compl.mpr hsub)⟩

/-- Writes into `Z`, on either side. -/
theorem SameBut.written (hsame : SameBut Z h h') (hm : Set.EqOn m h.mem Zᶜ)
    (hm' : Set.EqOn m' h'.mem Zᶜ) : SameBut Z ⟨h.alloc, m⟩ ⟨h'.alloc, m'⟩ := by
  refine ⟨hsame.1, fun x hx => ?_⟩
  calc m' x = h'.mem x := hm' hx
    _ = h.mem x := hsame.2 hx
    _ = m x := (hm hx).symm

end

/-! ## Components that do not look -/

/-- The component does not look into the blocks that are out, answers for their whole length, and takes
none back behind the wrapper. -/
structure Component.Blind (C : Component w σ) : Prop where
  allocate : ∀ {h h' L} (l : NonZeroLayout w), C.inv h L → C.inv h' L → SameBut (liveBytes L) h h' →
    (C.calls.allocate l h').1 = (C.calls.allocate l h).1 ∧
      SameBut (liveBytes L) (C.calls.allocate l h).2 (C.calls.allocate l h').2
  deallocate : ∀ {h h' L g}, C.inv h L → C.inv h' L → g ∈ L →
    SameBut (liveBytes (L \ {g})) h h' →
    SameBut (liveBytes (L \ {g})) (C.calls.deallocate g.block.ptr g.layout h)
      (C.calls.deallocate g.block.ptr g.layout h')
  answered_eq : ∀ {h L g}, C.inv h L → g ∈ L → C.answered g = g.block.len
  remoteFree_eq : ∀ ptr l h, C.remoteFree ptr l h = none

/-- What was in a block is gone when it is freed. -/
structure Component.Forgetful (C : Component w σ) : Prop extends C.Blind where
  forgets : ∀ {h h' L g}, C.inv h L → C.inv h' L → g ∈ L → SameBut (liveBytes L) h h' →
    SameBut (liveBytes (L \ {g})) (C.calls.deallocate g.block.ptr g.layout h)
      (C.calls.deallocate g.block.ptr g.layout h')

/-- The bytes that are live, and not those of `g`, are those of the others. -/
theorem mem_liveBytes_sdiff {L : Set (Grant w)} {g : Grant w} {x : Nat} (hx : x ∈ liveBytes L)
    (hxg : x ∉ g.block.bytes) : x ∈ liveBytes (L \ {g}) := by
  obtain ⟨g', hg', hxg'⟩ := hx
  refine ⟨g', ⟨hg', ?_⟩, hxg'⟩
  rintro rfl
  exact hxg hxg'

namespace BumpArena

variable {β : Type} {R : FixedRange β}

/-- What an arena answers does not depend on the memory at all. -/
theorem allocate_of_alloc_eq {h h' : Heap (BumpArena β)} (halloc : h'.alloc = h.alloc)
    (l : NonZeroLayout w) : (allocate R l h').1 = (allocate R l h).1 ∧
      (allocate R l h').2.alloc = (allocate R l h).2.alloc := by
  unfold allocate
  rw [halloc]
  split
  · exact ⟨rfl, rfl⟩
  · exact ⟨rfl, rfl⟩

theorem blind (hR : R.Lawful) (base : Nat) (c : Block) : (component w R base c).Blind where
  allocate := by
    intro h h' L l _ _ hsame
    obtain ⟨hanswer, halloc⟩ := allocate_of_alloc_eq (R := R) hsame.1 l
    refine ⟨hanswer, halloc, fun x hx => ?_⟩
    show (allocate R l h').2.mem x = (allocate R l h).2.mem x
    rw [(quiet_allocate hR l h).2, (quiet_allocate hR l h').2]
    exact hsame.2 hx
  deallocate := fun _ _ _ hsame => hsame
  answered_eq := by
    rintro h L g ⟨hh, -⟩ hg
    exact (hh.len_eq g hg).symm
  remoteFree_eq := fun _ _ _ => rfl

end BumpArena

namespace Slab

variable {β : Type} {T : RustType w} {R : FixedRange β} {n : Nat} {c : Block}
  {h h' : Heap (Slab T β)} {G : List (Grant w)}

/-- A request looks at one link only, that of the first free slot. -/
theorem allocate_of_link_eq (halloc : h'.alloc = h.alloc)
    (hlink : h.alloc.freeHead ≠ 0 → ∀ x, h.alloc.slotPtr R (h.alloc.freeHead - 1) ≤ x →
      x < h.alloc.slotPtr R (h.alloc.freeHead - 1) + freeLinkSize → h'.mem x = h.mem x)
    (l : NonZeroLayout w) : (allocate R l h').1 = (allocate R l h).1 ∧
      (allocate R l h').2.alloc = (allocate R l h).2.alloc := by
  have hpop : popFree R h' = popFree R h := by
    unfold popFree
    rw [halloc]
    by_cases hne : h.alloc.freeHead ≠ 0
    · have hbytes := hlink hne
      unfold freeLinkSize at hbytes
      have hnext : readU32 h'.mem (h.alloc.slotPtr R (h.alloc.freeHead - 1)) =
          readU32 h.mem (h.alloc.slotPtr R (h.alloc.freeHead - 1)) :=
        readU32_congr fun x hx hx' => hbytes x hx (by omega)
      have hmac : readU32 h'.mem (h.alloc.slotPtr R (h.alloc.freeHead - 1) + 4) =
          readU32 h.mem (h.alloc.slotPtr R (h.alloc.freeHead - 1) + 4) :=
        readU32_congr fun x hx hx' => hbytes x (by omega) (by omega)
      simp only [hnext, hmac]
    · simp only [if_neg hne]
  unfold allocate
  rw [hpop, halloc]
  split
  · exact ⟨rfl, halloc⟩
  · split
    · exact ⟨rfl, halloc⟩
    · split
      · exact ⟨rfl, rfl⟩
      · exact ⟨rfl, rfl⟩

/-- A request writes nothing. -/
theorem allocate_mem (R : FixedRange β) (l : NonZeroLayout w) (h : Heap (Slab T β)) :
    (allocate R l h).2.mem = h.mem := by
  unfold allocate
  split
  · rfl
  · split
    · rfl
    · split
      · rfl
      · rfl

/-- The link of the first free slot is in no block that is out. -/
theorem Issues.link_not_live (hi : Issues R n h G) (hne : h.alloc.freeHead ≠ 0) {x : Nat}
    (hx : h.alloc.slotPtr R (h.alloc.freeHead - 1) ≤ x)
    (hx' : x < h.alloc.slotPtr R (h.alloc.freeHead - 1) + freeLinkSize) :
    x ∉ liveBytes {g | g ∈ G} := by
  rintro ⟨g, hg, hxg⟩
  obtain ⟨free, hchain, -, hfree, -⟩ := hi.outstanding.freelist
  obtain ⟨i, hi'⟩ := Nat.exists_eq_succ_of_ne_zero hne
  rw [hi', Linked.ofLink_succ] at hchain
  obtain ⟨rest, rfl, -⟩ := hchain.exists_cons
  have hnot := ((hfree i).mp List.mem_cons_self).2
  obtain ⟨j, -, hj⟩ := hi.block_eq_slot hg
  have hij : i ≠ j := by
    rintro rfl
    apply hnot
    rw [slotPtr_eq, ← hj]
    exact List.mem_map_of_mem hg
  rw [hi', Nat.succ_sub_one, slotPtr_eq] at hx hx'
  have hlink := hi.outstanding.shape.link_le
  rw [hj] at hxg
  refine Set.disjoint_left.mp (SlotPool.slot_disjoint hij) ⟨hx, ?_⟩ hxg
  exact hx'.trans_le (Nat.add_le_add_left hlink _)

/-- What a free writes depends on the slab only. -/
theorem deallocate_eqOn {Z : Set Nat} (hsame : SameBut Z h h') (ptr : Nat) (l : NonZeroLayout w) :
    SameBut Z (deallocate R ptr l h) (deallocate R ptr l h') := by
  unfold deallocate
  rw [hsame.1]
  split
  · exact hsame
  · exact ⟨rfl, writeBytes_eqOn (writeBytes_eqOn hsame.2 _ _) _ _⟩

theorem blind (T : RustType w) (R : FixedRange β) (n : Nat) (c : Block) :
    (component T R n c).Blind where
  allocate := by
    rintro h h' L l ⟨⟨G, rfl, hi⟩, -⟩ ⟨⟨G', hG', hi'⟩, -⟩ hsame
    obtain ⟨hanswer, halloc⟩ := allocate_of_link_eq (R := R) hsame.1
      (fun hne x hx hx' => hsame.2 (hi.link_not_live hne hx hx')) l
    refine ⟨hanswer, halloc, fun x hx => ?_⟩
    show (allocate R l h').2.mem x = (allocate R l h).2.mem x
    rw [allocate_mem, allocate_mem]
    exact hsame.2 hx
  deallocate := by
    intro h h' L g _ _ _ hsame
    exact deallocate_eqOn hsame g.block.ptr g.layout
  answered_eq := fun _ _ => rfl
  remoteFree_eq := fun _ _ _ => rfl

end Slab

/-! ## Scrubbing wrappers forget -/

namespace Scrubber

variable {S : Scrubber ω σ} {C : Component w σ}

/-- The scrub makes the two heaps the same in the block, and the free below does not look at the
others. -/
theorem forgetful (S : Scrubber ω σ) (hC : C.Lawful) (hB : C.Blind) : (S.component C).Forgetful := by
  have hforgets : ∀ {h h' : Heap ω} {L : Set (Grant w)} {g : Grant w},
      (S.component C).inv h L → (S.component C).inv h' L → g ∈ L → SameBut (liveBytes L) h h' →
        SameBut (liveBytes (L \ {g})) ((S.component C).calls.deallocate g.block.ptr g.layout h)
          ((S.component C).calls.deallocate g.block.ptr g.layout h') := by
    intro h h' L g hinv hinv' hg hsame
    have hscrubs := ScrubRun.scrubs S hC hinv hg
    have hscrubs' := ScrubRun.scrubs S hC hinv' hg
    have hlen : ∀ {k}, (S.component C).inv k L → ScrubRun.scrubLen S C k g = g.block.len :=
      fun hinv => (hC.usableLen_eq hinv hg).trans (hB.answered_eq hinv hg)
    rw [hlen hinv] at hscrubs
    rw [hlen hinv'] at hscrubs'
    have hscrubbed : SameBut (liveBytes (L \ {g}))
        (⟨S.inner h.alloc, fillBytes h.mem g.block.ptr g.block.len (S.pattern h.alloc)⟩ : Heap σ)
        ⟨S.inner h'.alloc, fillBytes h'.mem g.block.ptr g.block.len (S.pattern h'.alloc)⟩ := by
      refine ⟨congrArg S.inner hsame.1, fun x hx => ?_⟩
      simp only [hsame.1]
      by_cases hxg : x ∈ g.block.bytes
      · obtain ⟨i, rfl⟩ := Nat.exists_eq_add_of_le hxg.1
        have hi : i < g.block.len := Nat.lt_of_add_lt_add_left hxg.2
        rw [fillBytes_add _ hi, fillBytes_add _ hi]
      · rw [fillBytes_of_not_mem _ hxg, fillBytes_of_not_mem _ hxg]
        exact hsame.2 fun hlive => hx (mem_liveBytes_sdiff hlive hxg)
    obtain ⟨halloc, hmem⟩ := hB.deallocate hscrubs.kept hscrubs'.kept hg hscrubbed
    show SameBut _ ((onFree S C.calls).deallocate g.block.ptr g.layout h)
      ((onFree S C.calls).deallocate g.block.ptr g.layout h')
    rw [hscrubs.free_eq, hscrubs'.free_eq]
    exact ⟨congrArg₂ S.put hsame.1 halloc, hmem⟩
  exact
    { allocate := by
        intro h h' L l hinv hinv' hsame
        have hinner : SameBut (liveBytes L) (S.heap h) (S.heap h') :=
          ⟨congrArg S.inner hsame.1, hsame.2⟩
        obtain ⟨hanswer, halloc, hmem⟩ := hB.allocate l hinv hinv' hinner
        exact ⟨hanswer, congrArg₂ S.put hsame.1 halloc, hmem⟩
      deallocate := fun hinv hinv' hg hsame =>
        hforgets hinv hinv' hg (hsame.mono (liveBytes_mono Set.sdiff_subset))
      answered_eq := fun hinv hg => hB.answered_eq hinv hg
      remoteFree_eq := fun ptr l h => by
        show (C.remoteFree ptr l (S.heap h)).map (S.after h) = none
        rw [hB.remoteFree_eq]
        rfl
      forgets := hforgets }

end Scrubber

/-! ## Two calls -/

/-- Two calls of one kind, where the blocks `L` are out: the same answer, and heaps that are the same
but for what is in the blocks that are out afterwards. -/
structure Twins (L kept : Set (Grant w)) (l : NonZeroLayout w) (r r' : Option Block × Heap σ) :
    Prop where
  answer_eq : r'.1 = r.1
  refused : r.1 = none → SameBut (liveBytes L) r.2 r'.2
  issued : ∀ b, r.1 = some b → SameBut (liveBytes (insert ⟨b, l⟩ kept)) r.2 r'.2

namespace Component

variable {C : Component w σ} {h h' : Heap σ} {L : Set (Grant w)} {g : Grant w}
  {l new : NonZeroLayout w}

theorem Blind.twins_allocate (hB : C.Blind) (hinv : C.inv h L) (hinv' : C.inv h' L)
    (hsame : SameBut (liveBytes L) h h') (l : NonZeroLayout w) :
    Twins L L l (C.calls.allocate l h) (C.calls.allocate l h') := by
  obtain ⟨hanswer, hsame'⟩ := hB.allocate l hinv hinv' hsame
  exact ⟨hanswer, fun _ => hsame', fun b _ => hsame'.mono (liveBytes_mono (Set.subset_insert _ _))⟩

theorem Blind.twins_zeroed (hB : C.Blind) (hC : C.Lawful) (hinv : C.inv h L) (hinv' : C.inv h' L)
    (hsame : SameBut (liveBytes L) h h') (l : NonZeroLayout w) :
    Twins L L l (defaultAllocateZeroed C.calls.allocate l h)
      (defaultAllocateZeroed C.calls.allocate l h') := by
  have htwins := hB.twins_allocate hinv hinv' hsame l
  unfold defaultAllocateZeroed
  rcases hcall : C.calls.allocate l h with ⟨r, k⟩
  rcases hcall' : C.calls.allocate l h' with ⟨r', k'⟩
  rw [hcall, hcall'] at htwins
  obtain rfl : r' = r := htwins.answer_eq
  cases r' with
  | none => exact ⟨rfl, htwins.refused, fun b hb => (by cases hb)⟩
  | some b =>
      refine ⟨rfl, fun hnone => (by cases hnone), ?_⟩
      rintro b' ⟨⟩
      have hzeros := (hC.allocate_satisfies hinv hcall).zeros_eqOn L
      exact (htwins.issued b rfl).written (hzeros k.mem) (hzeros k'.mem)

/-- A resize copies into the new block, and forgets the old one. -/
theorem Forgetful.twins_resize (hF : C.Forgetful) (hC : C.Lawful)
    (hgrow : C.calls.grow = defaultGrow C.calls.allocate C.calls.deallocate)
    (hshrink : C.calls.shrink = defaultShrink C.calls.allocate C.calls.deallocate)
    (hinv : C.inv h L) (hinv' : C.inv h' L) (hg : g ∈ L) (hsame : SameBut (liveBytes L) h h')
    {r : Resize} (hlegal : r.Legal g.layout new) :
    Twins L (L \ {g}) new (r.call C.calls g.block.ptr g.layout new h)
      (r.call C.calls g.block.ptr g.layout new h') := by
  have htwins := hF.twins_allocate hinv hinv' hsame new
  rcases hcall : C.calls.allocate new h with ⟨answer, k⟩
  rcases hcall' : C.calls.allocate new h' with ⟨answer', k'⟩
  rw [hcall, hcall'] at htwins
  obtain rfl : answer' = answer := htwins.answer_eq
  cases answer' with
  | none =>
      rw [Resize.call_of_none hgrow hshrink _ hcall, Resize.call_of_none hgrow hshrink _ hcall']
      exact ⟨rfl, htwins.refused, fun b hb => (by cases hb)⟩
  | some b =>
      rw [Resize.call_of_some hgrow hshrink _ hlegal hcall,
        Resize.call_of_some hgrow hshrink _ hlegal hcall']
      refine ⟨rfl, fun hnone => (by cases hnone), ?_⟩
      rintro b' ⟨⟩
      have hle : min g.layout.size new.size ≤ new.size := min_le_right _ _
      have hiss := hC.allocate_some hinv hcall
      have hsat := hC.allocate_satisfies hinv hcall
      have hcopy := hsat.copy_eqOn hle L g.block.ptr
      have hfreed := hF.forgets (hC.copy_inv hinv g.block.ptr hle hcall)
        (hC.copy_inv hinv' g.block.ptr hle hcall') (Set.mem_insert_of_mem _ hg)
        ((htwins.issued b rfl).written (hcopy k.mem) (hcopy k'.mem))
      have hne : g ≠ ⟨b, new⟩ := hC.ne_of_disjoint hinv hg (hiss.fresh g hg)
      rwa [Set.insert_sdiff_of_notMem _ fun hmem => hne hmem.symm] at hfreed

end Component

/-! ## Two runs -/

/-- The same operation, but for the byte that is written. -/
inductive SameButWritten : ClientOp w ι → ClientOp w ι → Prop
  | same (op : ClientOp w ι) : SameButWritten op op
  | written (i : ι) (k : Nat) (v v' : UInt8) : SameButWritten (.write i k v) (.write i k v')

namespace ClientRun

variable [DecidableEq ι] {C : Component w σ} {s s' t t' : ClientRun w ι σ} {a : Store ι}
  {op op' : ClientOp w ι} {ops ops' : List (ClientOp w ι)} {i : ι} {g : Grant w}

/-- The clients have the same objects, and the heaps are the same but for what is in them. -/
structure Alike (s t : ClientRun w ι σ) : Prop where
  objects_eq : t.objects = s.objects
  same : SameBut (liveBytes (live s.objects)) s.heap t.heap

/-- Both clients are those of the component, besides. -/
structure Together (C : Component w σ) (s t : ClientRun w ι σ) : Prop where
  agrees : ∃ a, Agrees C s a
  agrees' : ∃ a, Agrees C t a
  alike : Alike s t

/-- Two answers go under one name. -/
theorem alike_receive {r r' : Option Block × Heap σ} {l : NonZeroLayout w}
    (hobjects : t.objects = s.objects)
    (htwins : Twins (live s.objects) (live (Function.update s.objects i none)) l r r') :
    Alike (s.receive i l r) (t.receive i l r') := by
  obtain ⟨answer, k⟩ := r
  obtain ⟨answer', k'⟩ := r'
  obtain rfl : answer' = answer := htwins.answer_eq
  cases answer' with
  | none => exact ⟨hobjects, htwins.refused rfl⟩
  | some b =>
      constructor
      · simp only [receive, hobjects]
      · simp only [receive, live_update_some]
        exact htwins.issued b rfl

omit [DecidableEq ι] in
/-- A byte of an object, which need not be the same one. -/
theorem alike_write (h : Alike s t) (hg : s.objects i = some g) {k : Nat} (hk : k < g.block.len)
    (v v' : UInt8) :
    Alike { s with heap := ⟨s.heap.alloc, writeByte s.heap.mem (g.block.ptr + k) v⟩ }
      { t with heap := ⟨t.heap.alloc, writeByte t.heap.mem (g.block.ptr + k) v'⟩ } :=
  ⟨h.objects_eq, h.same.written (writeByte_eqOn_live (mem_live hg) hk s.heap.mem v)
    (writeByte_eqOn_live (mem_live hg) hk t.heap.mem v')⟩

/-- **One operation, twice.** -/
theorem alike_step (hF : C.Forgetful) (hC : C.Lawful)
    (hgrow : C.calls.grow = defaultGrow C.calls.allocate C.calls.deallocate)
    (hshrink : C.calls.shrink = defaultShrink C.calls.allocate C.calls.deallocate)
    (hinv : C.inv s.heap (live s.objects)) (hinv' : C.inv t.heap (live s.objects))
    (hinj : ∀ i j g, s.objects i = some g → s.objects j = some g → i = j) (h : Alike s t)
    (hop : SameButWritten op op') (hstep : step C s op = some s') :
    ∃ t', step C t op' = some t' ∧ Alike s' t' := by
  obtain ⟨heap, objects⟩ := t
  obtain rfl : objects = s.objects := h.objects_eq
  cases hop with
  | written i k v v' =>
      simp only [step] at hstep ⊢
      split at hstep
      case h_1 => cases hstep
      case h_2 g hg =>
          split at hstep
          case isFalse => cases hstep
          case isTrue hk =>
              cases hstep
              simp only [if_pos hk]
              exact ⟨_, rfl, alike_write h hg hk v v'⟩
  | same =>
      cases op with
      | allocate i l =>
          simp only [step] at hstep ⊢
          split at hstep
          case h_1 => cases hstep
          case h_2 hfree =>
              cases hstep
              refine ⟨_, rfl, alike_receive rfl ?_⟩
              rw [live_update_none_of_none hfree]
              exact hF.twins_allocate hinv hinv' h.same l
      | allocateZeroed i l =>
          simp only [step] at hstep ⊢
          split at hstep
          case h_1 => cases hstep
          case h_2 hfree =>
              cases hstep
              refine ⟨_, rfl, alike_receive rfl ?_⟩
              rw [live_update_none_of_none hfree]
              exact hF.twins_zeroed hC hinv hinv' h.same l
      | write i k v =>
          simp only [step] at hstep ⊢
          split at hstep
          case h_1 => cases hstep
          case h_2 g hg =>
              split at hstep
              case isFalse => cases hstep
              case isTrue hk =>
                  cases hstep
                  simp only [if_pos hk]
                  exact ⟨_, rfl, alike_write h hg hk v v⟩
      | resize r i new =>
          simp only [step] at hstep ⊢
          split at hstep
          case h_1 => cases hstep
          case h_2 g hg =>
              split at hstep
              case isFalse => cases hstep
              case isTrue hguard =>
                  cases hstep
                  simp only [if_pos hguard]
                  refine ⟨_, rfl, alike_receive rfl ?_⟩
                  rw [live_update_none hinj hg]
                  exact hF.twins_resize hC hgrow hshrink hinv hinv' (mem_live hg) h.same hguard.1
      | deallocate i =>
          simp only [step] at hstep ⊢
          split at hstep
          case h_1 => cases hstep
          case h_2 g hg =>
              cases hstep
              refine ⟨_, rfl, rfl, ?_⟩
              rw [live_update_none hinj hg]
              exact hF.forgets hinv hinv' (mem_live hg) h.same
      | remoteFree i =>
          -- no block is freed behind the wrapper
          simp only [step] at hstep
          split at hstep
          case h_1 => cases hstep
          case h_2 g hg =>
              rw [hF.remoteFree_eq] at hstep
              cases hstep

/-- Runs that differ only in what is written. -/
theorem forgetful_run_alike (hF : C.Forgetful) (hC : C.Lawful)
    (hgrow : C.calls.grow = defaultGrow C.calls.allocate C.calls.deallocate)
    (hshrink : C.calls.shrink = defaultShrink C.calls.allocate C.calls.deallocate) {h : Heap σ}
    (hstart : C.inv h ∅) (hops : List.Forall₂ SameButWritten ops ops')
    (hrun : Machine.run (step C) ⟨h, fun _ => none⟩ ops = some s) :
    ∃ t, Machine.run (step C) ⟨h, fun _ => none⟩ ops' = some t ∧ Alike s t := by
  have hA := hC.honours_of_defaults hgrow hshrink
  have hagrees : Agrees C ⟨h, fun _ => none⟩ (ObjectStore.empty : Store ι) := agrees_start hstart
  have htogether : ∀ (s t : ClientRun w ι σ) (op op' : ClientOp w ι) (s' : ClientRun w ι σ),
      Together C s t → SameButWritten op op' → step C s op = some s' →
        ∃ t', step C t op' = some t' ∧ Together C s' t' := by
    rintro s t op op' s' ⟨⟨a, hs⟩, ⟨b, ht⟩, halike⟩ hop hstep
    obtain ⟨t', hstep', halike'⟩ := alike_step hF hC hgrow hshrink hs.inv
      (halike.objects_eq ▸ ht.inv) hs.injective halike hop hstep
    obtain ⟨-, a', -, -, hs'⟩ := agrees_step hC hA op hs hstep
    obtain ⟨-, b', -, -, ht'⟩ := agrees_step hC hA op' ht hstep'
    exact ⟨t', hstep', ⟨a', hs'⟩, ⟨b', ht'⟩, halike'⟩
  have hfirst : Together C ⟨h, fun _ : ι => none⟩ ⟨h, fun _ : ι => none⟩ :=
    ⟨⟨_, hagrees⟩, ⟨_, hagrees⟩, rfl, SameBut.refl _ _⟩
  obtain ⟨t, hrun', -, -, halike⟩ := Machine.run_lockstep htogether hops hfirst hrun
  exact ⟨t, hrun', halike⟩

/-- **A freed secret leaves no trace.** Let a scrubbing wrapper be put over a component that never
looks into the blocks that are out, with nothing out. Take any run of a client, and replace the bytes
it writes by any others. That is a run as well, and it ends with the same objects and the same
allocator; the memories differ at most in the bytes of the objects that are still out. -/
theorem scrubbed_run_forgets (S : Scrubber ω σ) (hC : C.Lawful) (hB : C.Blind) {h : Heap ω}
    (hstart : C.inv (S.heap h) ∅) (hops : List.Forall₂ SameButWritten ops ops')
    {s : ClientRun w ι ω}
    (hrun : Machine.run (step (S.component C)) ⟨h, fun _ => none⟩ ops = some s) :
    ∃ t, Machine.run (step (S.component C)) ⟨h, fun _ => none⟩ ops' = some t ∧
      t.objects = s.objects ∧ t.heap.alloc = s.heap.alloc ∧
      ∀ x, (∀ i g, s.objects i = some g → x ∉ g.block.bytes) → t.heap.mem x = s.heap.mem x := by
  obtain ⟨t, hrun', hobjects, halloc, hmem⟩ := forgetful_run_alike (S.forgetful hC hB) (S.lawful hC)
    rfl rfl hstart hops hrun
  refine ⟨t, hrun', hobjects, halloc, fun x hx => hmem ?_⟩
  rintro ⟨g, ⟨i, hi⟩, hxg⟩
  exact hx i g hi hxg

/-- A slab of three words in an arena. -/
def wordSlab : Component 16 (Slab SlabRun.word8 (BumpArena Nat)) :=
  Slab.component SlabRun.word8 (BumpArena.range SlabRun.movable) 3
    ((Slab.range SlabRun.word8 (BumpArena.range SlabRun.movable)).block SlabRun.slab8.alloc)

/-- A 7 in a word that is freed leaves what a 200 leaves. -/
theorem scrubbed_run_forgets_slab8 : ∃ s t,
    Machine.run (step (ZeroizeOnFree.scrubber.component wordSlab))
        ⟨⟨⟨SlabRun.slab8.alloc⟩, SlabRun.slab8.mem⟩, fun _ => none⟩
        [.allocate () SlabRun.layout8, .write () 3 7, .deallocate ()] = some s ∧
      Machine.run (step (ZeroizeOnFree.scrubber.component wordSlab))
        ⟨⟨⟨SlabRun.slab8.alloc⟩, SlabRun.slab8.mem⟩, fun _ => none⟩
        [.allocate () SlabRun.layout8, .write () 3 200, .deallocate ()] = some t ∧
      t.heap.mem = s.heap.mem := by
  have hfreed : (Machine.run (step (ZeroizeOnFree.scrubber.component wordSlab))
      ⟨⟨⟨SlabRun.slab8.alloc⟩, SlabRun.slab8.mem⟩, fun _ => none⟩
      [.allocate () SlabRun.layout8, .write () 3 7, .deallocate ()]).map
        (fun s => (s.objects ()).isNone) = some true := by decide +kernel
  obtain ⟨s, hrun, hnone⟩ := Option.map_eq_some_iff.mp hfreed
  have hnew : Slab.withProtection (BumpArena.allocator 16 SlabRun.movable)
      (BumpArena.range SlabRun.movable) SlabRun.word8 3 .none ⟨⟨0, 64, 0⟩, fun _ => 0⟩ =
        some SlabRun.slab8 := rfl
  have hstart := Slab.component_fresh
    (BumpArena.honours (w := 16) SlabRun.movable_lawful 16 (by decide))
    (BumpArena.holds_new (b := 0) rfl _) FreelistProtection.none_sound hnew
  obtain ⟨t, hrun', -, -, hmem⟩ := scrubbed_run_forgets ZeroizeOnFree.scrubber
    (Slab.lawful SlabRun.word8 (BumpArena.range SlabRun.movable) 3 _)
    (Slab.blind SlabRun.word8 (BumpArena.range SlabRun.movable) 3 _) hstart
    (.cons (.same _) (.cons (.written () 3 7 200) (.cons (.same _) .nil))) hrun
  refine ⟨s, t, hrun, hrun', ?_⟩
  funext x
  apply hmem
  -- nothing is out at the end
  intro i g hg
  rw [Option.isNone_iff_eq_none.mp hnone] at hg
  cases hg

end ClientRun

end ForgeAlloc
