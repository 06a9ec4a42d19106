import ForgeAlloc.Layout.Slab

set_option autoImplicit false

/-! # Outstanding blocks of a `Slab`

`Outstanding R h n ptrs` says that `ptrs` are the addresses of the blocks that the slab in the heap
`h`, of `n` slots, has issued and not got back, each once. It hides the pool: the layouts that pass
blocks of a slab from hand to hand are verified with the rules of this module only.
-/

namespace ForgeAlloc

namespace Slab

open MachineInt ByteMemory SlotPool Linked

variable {w : Nat} {β : Type} {T : RustType w} {R : FixedRange β} {h h' : Heap (Slab T β)}
  {n : Nat} {ptrs ptrs' : List Nat} {l : NonZeroLayout w} {b : Block}

def Outstanding (R : FixedRange β) (h : Heap (Slab T β)) (n : Nat) (ptrs : List Nat) : Prop :=
  ∃ p : Pool n, Refines R h p ∧ ptrs.Perm (p.live.map (h.alloc.slotPtr R))

theorem Outstanding.perm (ho : Outstanding R h n ptrs) (hperm : ptrs'.Perm ptrs) :
    Outstanding R h n ptrs' := by
  obtain ⟨p, hr, hp⟩ := ho
  exact ⟨p, hr, hperm.trans hp⟩

theorem slotPtr_injective {s : Slab T β} (hs : Shape R s) :
    Function.Injective (s.slotPtr R) := fun _ _ heq => slot_inj hs.stride_pos heq

theorem Outstanding.shape (ho : Outstanding R h n ptrs) : Shape R h.alloc := by
  obtain ⟨p, hr, -⟩ := ho
  exact hr.shape

theorem Outstanding.capacity_eq (ho : Outstanding R h n ptrs) : h.alloc.capacity = n := by
  obtain ⟨p, hr, -⟩ := ho
  exact hr.capacity_eq

theorem Outstanding.nodup (ho : Outstanding R h n ptrs) : ptrs.Nodup := by
  obtain ⟨p, hr, hp⟩ := ho
  rw [hp.nodup_iff]
  exact p.nodup_live.map (slotPtr_injective hr.shape)

theorem Outstanding.exists_slot (ho : Outstanding R h n ptrs) {q : Nat} (hq : q ∈ ptrs) :
    ∃ i < h.alloc.nextUncarved, q = h.alloc.slotPtr R i := by
  obtain ⟨p, hr, hp⟩ := ho
  obtain ⟨i, hi, rfl⟩ := List.mem_map.mp (hp.mem_iff.mp hq)
  exact ⟨i, hr.threaded.carved_eq ▸ p.lt_of_mem_live hi, rfl⟩

theorem Outstanding.carved_le (ho : Outstanding R h n ptrs) : h.alloc.nextUncarved ≤ n := by
  obtain ⟨p, hr, -⟩ := ho
  exact hr.threaded.carved_eq ▸ p.carved_le

/-- The link word of a slot, as the slot it names. -/
def linkOf (R : FixedRange β) (h : Heap (Slab T β)) (i : Nat) : Option Nat :=
  ofLink (readU32 h.mem (h.alloc.slotPtr R i))

/-- The list threaded from the head holds the carved slots that are not outstanding. -/
theorem Outstanding.freelist (ho : Outstanding R h n ptrs) :
    ∃ free : List Nat, Chain (linkOf R h) (ofLink h.alloc.freeHead) free ∧ free.Nodup ∧
      (∀ i, i ∈ free ↔ i < h.alloc.nextUncarved ∧ h.alloc.slotPtr R i ∉ ptrs) ∧
      ptrs.length + free.length = h.alloc.nextUncarved := by
  obtain ⟨p, hr, hp⟩ := ho
  have hcarved := hr.threaded.carved_eq
  refine ⟨p.free, hr.threaded.chain, p.nodup_free, fun i => ?_, ?_⟩
  · rw [hp.mem_iff, List.mem_map_of_injective (slotPtr_injective hr.shape), hcarved]
    exact p.mem_free_iff hr.retired_eq
  · have hlen := p.length
    rw [hr.retired_eq, List.length_nil] at hlen
    rw [hp.length_eq, List.length_map, hcarved]
    omega

/-- Two blocks of the slab have no byte in common. -/
theorem Outstanding.disjoint (ho : Outstanding R h n ptrs) {q q' : Nat} (hq : q ∈ ptrs)
    (hq' : q' ∈ ptrs) (hne : q ≠ q') :
    Disjoint (⟨q, h.alloc.blockStride⟩ : Block).bytes (⟨q', h.alloc.blockStride⟩ : Block).bytes := by
  obtain ⟨i, -, rfl⟩ := ho.exists_slot hq
  obtain ⟨j, -, rfl⟩ := ho.exists_slot hq'
  exact slot_disjoint fun hij => hne (hij ▸ rfl)

/-! ## The operations -/

/-- Freeing an outstanding block takes it off the list, puts its slot on top of the freelist and
writes into that slot only. -/
theorem Outstanding.deallocate {q : Nat} (ho : Outstanding R h n (q :: ptrs)) :
    Outstanding R (deallocate R q l h) n ptrs ∧ SameShape h.alloc (deallocate R q l h).alloc ∧
      (∀ x ∉ (⟨q, h.alloc.blockStride⟩ : Block).bytes, (deallocate R q l h).mem x = h.mem x) ∧
      ∀ i, q = h.alloc.slotPtr R i → (deallocate R q l h).alloc.freeHead = i + 1 := by
  obtain ⟨p, hr, hp⟩ := ho
  obtain ⟨i, hi, rfl⟩ := List.mem_map.mp (hp.mem_iff.mp List.mem_cons_self)
  obtain ⟨heq, hr'⟩ := deallocate_live (l := l) hr hi
  refine ⟨⟨p.release i hi, hr', ?_⟩, ?_, ?_, ?_⟩
  · rw [heq]
    have hinj := slotPtr_injective hr.shape
    have hrest : ptrs.Perm ((p.live.map (h.alloc.slotPtr R)).erase (h.alloc.slotPtr R i)) :=
      (List.cons_perm_iff_perm_erase.mp hp).2
    rw [← List.map_erase hinj] at hrest
    exact hrest
  · rw [heq]
    exact ⟨_, _, _, rfl⟩
  · intro x hx
    rw [heq]
    apply writeLink_of_not_mem
    have hlink := hr.shape.link_le
    rw [Block.mem_bytes] at hx
    simp only at hx
    omega
  · intro j hj
    rw [heq, slotPtr_injective hr.shape hj]

/-- A block that `allocate` returns is one more outstanding block: a slot that was not. -/
theorem Outstanding.allocate_some (ho : Outstanding R h n ptrs)
    (heq : allocate R l h = (some b, h')) :
    h.alloc.FitsSlot l ∧ b.len = h.alloc.blockStride ∧ Outstanding R h' n (b.ptr :: ptrs) ∧
      SameShape h.alloc h'.alloc ∧ h'.mem = h.mem := by
  obtain ⟨p, hr, hp⟩ := ho
  by_cases hfits : h.alloc.FitsSlot l
  · rcases allocate_of_fits hr hfits with ⟨-, hnone⟩ | ⟨i, q, s', hq, hsome, hr', hsame⟩
    · rw [hnone] at heq
      cases heq
    · rw [hsome] at heq
      cases heq
      refine ⟨hfits, rfl, ⟨q, hr', ?_⟩, hsame, rfl⟩
      obtain ⟨head, carved, events, rfl⟩ := hsame
      rw [(Pool.alloc_cases hq).1, List.map_cons]
      exact hp.cons _
  · rw [allocate_of_not_fits hfits] at heq
    cases heq

/-- The new block has no byte in common with the outstanding ones. -/
theorem Outstanding.allocate_disjoint (ho : Outstanding R h n ptrs)
    (heq : allocate R l h = (some b, h')) {q : Nat} (hq : q ∈ ptrs) :
    Disjoint b.bytes (⟨q, h.alloc.blockStride⟩ : Block).bytes := by
  obtain ⟨-, hlen, ho', hsame, -⟩ := ho.allocate_some heq
  obtain ⟨head, carved, events, hshape⟩ := hsame
  have hstride : h'.alloc.blockStride = h.alloc.blockStride := by rw [hshape]
  have hne : b.ptr ≠ q := by
    rintro rfl
    exact (List.nodup_cons.mp ho'.nodup).1 hq
  have hdisj := ho'.disjoint List.mem_cons_self (List.mem_cons_of_mem _ hq) hne
  rw [hstride, ← hlen] at hdisj
  rw [← hlen]
  exact hdisj

/-- A call that fails changes nothing, and for a layout that fits every slot is outstanding. -/
theorem Outstanding.allocate_none (ho : Outstanding R h n ptrs)
    (heq : allocate R l h = (none, h')) :
    h' = h ∧ (h.alloc.FitsSlot l → ptrs.length = n) := by
  obtain ⟨p, hr, hp⟩ := ho
  by_cases hfits : h.alloc.FitsSlot l
  · rcases allocate_of_fits hr hfits with ⟨hp', hnone⟩ | ⟨i, q, s', -, hsome, -, -⟩
    · rw [hnone] at heq
      cases heq
      refine ⟨rfl, fun _ => ?_⟩
      rw [hp.length_eq, List.length_map]
      exact (Pool.alloc_eq_none_iff_live hr.retired_eq).mp hp'
    · rw [hsome] at heq
      cases heq
  · rw [allocate_of_not_fits hfits] at heq
    cases heq
    exact ⟨rfl, fun hfits' => absurd hfits' hfits⟩

theorem Outstanding.allocate_eq_none_iff (ho : Outstanding R h n ptrs)
    (hfits : h.alloc.FitsSlot l) : (allocate R l h).1 = none ↔ ptrs.length = n := by
  obtain ⟨p, hr, hp⟩ := ho
  rw [hp.length_eq, List.length_map, ← Pool.alloc_eq_none_iff_live hr.retired_eq]
  rcases allocate_of_fits hr hfits with ⟨hq, hnone⟩ | ⟨i, q, s', hq, hsome, -, -⟩
  · simp [hnone, hq]
  · simp [hsome, hq]

/-- A change of memory inside the outstanding blocks or outside the region is not seen. -/
theorem Outstanding.mem_congr (ho : Outstanding R h n ptrs) {m : Mem}
    (hbytes : ∀ i < n, h.alloc.slotPtr R i ∉ ptrs →
      ∀ x ∈ (slot (h.alloc.basePtr R) h.alloc.blockStride i).bytes, m x = h.mem x) :
    Outstanding R ⟨h.alloc, m⟩ n ptrs := by
  obtain ⟨p, hr, hp⟩ := ho
  refine ⟨p, hr.mem_congr fun i hi => hbytes i ((p.lt_of_mem_free hi).trans_le p.carved_le) ?_, hp⟩
  rw [hp.mem_iff, List.mem_map_of_injective (slotPtr_injective hr.shape)]
  exact p.not_mem_live_of_mem_free hi

/-- A write into an outstanding block. -/
theorem Outstanding.writeByte (ho : Outstanding R h n ptrs) {q a : Nat} (hq : q ∈ ptrs)
    (ha : a ∈ (⟨q, h.alloc.blockStride⟩ : Block).bytes) (v : UInt8) :
    Outstanding R ⟨h.alloc, ByteMemory.writeByte h.mem a v⟩ n ptrs := by
  refine ho.mem_congr fun i _ hi x hx => writeByte_of_ne v ?_
  rintro rfl
  obtain ⟨j, -, rfl⟩ := ho.exists_slot hq
  -- the slot of the block and a slot that is not outstanding have no byte in common
  have hne : i ≠ j := by
    rintro rfl
    exact hi hq
  exact Set.disjoint_left.mp (slot_disjoint hne) hx ha

/-- A write outside the region. -/
theorem Outstanding.writeOutside (ho : Outstanding R h n ptrs) {a : Nat}
    (ha : ¬ (h.alloc.basePtr R ≤ a ∧ a < h.alloc.basePtr R + n * h.alloc.blockStride))
    (v : UInt8) : Outstanding R ⟨h.alloc, ByteMemory.writeByte h.mem a v⟩ n ptrs := by
  refine ho.mem_congr fun i hi _ x hx => writeByte_of_ne v ?_
  rintro rfl
  have hle := slot_le (h.alloc.basePtr R) h.alloc.blockStride hi
  have hge := slot_ptr_le (h.alloc.basePtr R) h.alloc.blockStride i
  rw [Block.mem_bytes] at hx
  omega

/-- The slab may be moved, with the bytes of its range. -/
theorem Outstanding.move (ho : Outstanding R h n []) {bk : β} {m : Mem}
    (hsize : R.size bk = R.size h.alloc.backing) (hpos : 0 < R.base bk)
    (hspace : R.base bk + R.size bk ≤ 2 ^ w)
    (hbytes : ∀ x < R.size bk, m (R.base bk + x) = h.mem (R.base h.alloc.backing + x)) :
    Outstanding R ⟨h.alloc.moveTo bk, m⟩ n [] := by
  obtain ⟨p, hr, hp⟩ := ho
  refine ⟨p, hr.move hsize hpos hspace hbytes, ?_⟩
  rw [List.map_eq_nil_iff.mp (List.nil_perm.mp hp)]
  exact List.Perm.nil

theorem outstanding_new {A : Allocator w β} {Inv : Heap β → Set (Grant w) → Prop}
    {L : Set (Grant w)} (hA : HonoursRange A R Inv) {g : Heap β} (hinv : Inv g L)
    {mac : FreelistProtection} (hM : mac.Sound)
    (hnew : withProtection A R T n mac g = some h) : Outstanding R h n [] :=
  ⟨Pool.empty n, (withProtection_refines hA hinv hM hnew).1, List.Perm.nil⟩

end Slab

end ForgeAlloc
