import ForgeAlloc.Layout.SlabAttack

set_option autoImplicit false

/-! # A `Slab` whose free slots are tampered with

Links of free slots are overwritten, and every overwritten link is one that `allocate` refuses: it
does not verify or names no slot. `Damaged R h p link bad` says that the slab represents the pool
`p` up to that: `link i` is what was stored as the link of the slot `i` when it was freed, memory
still holds it for the free slots outside `bad`, and holds a refused link for those in `bad`.

A pop that meets a slot of `bad` gives up the list: in the pool the free slots are taken out of
service (`Pool.abandon`), among them that slot. So there are never more such events than slots, and
the counter does not wrap around (`Damaged.events_lt`).
-/

namespace ForgeAlloc

open MachineInt ByteMemory SlotPool

namespace Slab

variable {w : Nat} {β : Type} {T : RustType w} {R : FixedRange β} {h h' : Heap (Slab T β)}
  {l : NonZeroLayout w} {n : Nat} {p : Pool n} {link : Nat → Nat} {bad : Set Nat}

/-- `allocate` follows the link stored at `i`: it verifies and names a slot or none. -/
def Followed (R : FixedRange β) (h : Heap (Slab T β)) (i : Nat) : Prop :=
  h.alloc.mac.verify (readU32 h.mem (h.alloc.slotPtr R i))
      (readU32 h.mem (h.alloc.slotPtr R i + 4)) i = true ∧
    readU32 h.mem (h.alloc.slotPtr R i) ≤ h.alloc.capacity

instance (R : FixedRange β) (h : Heap (Slab T β)) (i : Nat) : Decidable (Followed R h i) :=
  inferInstanceAs (Decidable (_ ∧ _))

structure Damaged (R : FixedRange β) (h : Heap (Slab T β)) (p : Pool n) (link : Nat → Nat)
    (bad : Set Nat) : Prop where
  shape : Shape R h.alloc
  capacity_eq : h.alloc.capacity = n
  mac_sound : h.alloc.mac.Sound
  threaded : Threaded link h.alloc.freeHead h.alloc.nextUncarved p
  kept : ∀ i ∈ p.free, i ∉ bad → readU32 h.mem (h.alloc.slotPtr R i) = link i
  tagged : ∀ i ∈ p.free, i ∉ bad → h.alloc.mac.verify (readU32 h.mem (h.alloc.slotPtr R i))
    (readU32 h.mem (h.alloc.slotPtr R i + 4)) i = true
  refused : ∀ i ∈ p.free, i ∈ bad → ¬ Followed R h i
  events_le : h.alloc.corruptionEvents ≤ p.retired.length

/-! ## The counter -/

theorem capacity_lt_word (hs : Shape R h.alloc) : h.alloc.capacity < 2 ^ w := by
  have hregion := hs.region_le
  have hpos := hs.base_pos
  have hspace := hs.inSpace
  have hle := Nat.le_mul_of_pos_right h.alloc.capacity hs.stride_pos
  omega

/-- An event that takes a slot out of service is counted exactly. -/
theorem Damaged.events_lt (hd : Damaged R h p link bad) (hfree : p.free ≠ []) :
    wrappingAdd w h.alloc.corruptionEvents 1 = h.alloc.corruptionEvents + 1 ∧
      h.alloc.corruptionEvents + 1 ≤ p.abandon.retired.length := by
  have hlen := p.length
  have hcarved := p.carved_le
  have hcap := capacity_lt_word hd.shape
  have hevents := hd.events_le
  have hpos : 0 < p.free.length := List.length_pos_of_ne_nil hfree
  have hcapn := hd.capacity_eq
  constructor
  · exact wrappingAdd_of_lt (by omega)
  · show h.alloc.corruptionEvents + 1 ≤ (p.free ++ p.retired).length
    rw [List.length_append]
    omega

/-! ## Pops -/

/-- The slab that has given up its list. -/
def abandoned (s : Slab T β) : Slab T β :=
  { s with corruptionEvents := s.corruptionEvents + 1, freeHead := 0 }

theorem Damaged.lt_capacity (hd : Damaged R h p link bad) {i : Nat} (hi : i < p.carved) :
    i < h.alloc.capacity := by
  rw [hd.capacity_eq]
  exact hi.trans_le p.carved_le

theorem Damaged.bounded (hd : Damaged R h p link bad) : Bounded R h.alloc where
  shape := hd.shape
  head_le := by
    rw [hd.capacity_eq]
    exact hd.threaded.head_le
  carved_le := by
    rw [hd.capacity_eq, hd.threaded.carved_eq]
    exact p.carved_le

theorem Damaged.head_mem (hd : Damaged R h p link bad) (hne : h.alloc.freeHead ≠ 0) :
    h.alloc.freeHead - 1 ∈ p.free := by
  obtain ⟨t, hfree, -⟩ := hd.threaded.free_eq_cons hne
  rw [hfree]
  exact List.mem_cons_self

/-- A pop of an honest link issues the slot of the head. -/
theorem Damaged.popFree_honest (hd : Damaged R h p link bad) (hne : h.alloc.freeHead ≠ 0)
    (hhonest : h.alloc.freeHead - 1 ∉ bad) :
    popFree R h = (some (slot (h.alloc.basePtr R) h.alloc.blockStride (h.alloc.freeHead - 1)),
      { h.alloc with freeHead := link (h.alloc.freeHead - 1) }) := by
  have hmem := hd.head_mem hne
  have hkept := hd.kept _ hmem hhonest
  have htag := hd.tagged _ hmem hhonest
  have hle := hd.threaded.next_le hne
  rw [hkept] at htag
  rw [← hd.capacity_eq] at hle
  simp only [popFree, ne_eq, hne, not_false_eq_true, if_true, hkept, htag, hle, and_self]
  rfl

/-- A pop that meets a refused link counts it and gives up the list. -/
theorem Damaged.popFree_refused (hd : Damaged R h p link bad) (hne : h.alloc.freeHead ≠ 0)
    (hbad : h.alloc.freeHead - 1 ∈ bad) :
    popFree R h = (none, h.alloc.abandoned) := by
  have hmem := hd.head_mem hne
  have hrefused := hd.refused _ hmem hbad
  obtain ⟨hevents, -⟩ := hd.events_lt (List.ne_nil_of_mem hmem)
  unfold Followed at hrefused
  simp only [popFree, ne_eq, hne, not_false_eq_true, if_true, if_neg hrefused, hevents]
  rfl

/-! ## The calls -/

/-- New values of the head and the two counters, which thread a part of the free slots. -/
theorem Damaged.update (hd : Damaged R h p link bad) {s' : Slab T β} {q : Pool n}
    (hsame : SameShape h.alloc s') (hthreaded : Threaded link s'.freeHead s'.nextUncarved q)
    (hsub : ∀ i ∈ q.free, i ∈ p.free) (hevents : s'.corruptionEvents ≤ q.retired.length) :
    Damaged R ⟨s', h.mem⟩ q link bad := by
  have hshape := hd.shape.congr hsame
  obtain ⟨head, carved, events, rfl⟩ := hsame
  constructor
  · exact hshape
  · exact hd.capacity_eq
  · exact hd.mac_sound
  · exact hthreaded
  · exact fun i hi => hd.kept i (hsub i hi)
  · exact fun i hi => hd.tagged i (hsub i hi)
  · exact fun i hi => hd.refused i (hsub i hi)
  · exact hevents

theorem Damaged.abandon (hd : Damaged R h p link bad) (hfree : p.free ≠ []) :
    Damaged R ⟨h.alloc.abandoned, h.mem⟩ p.abandon link bad :=
  hd.update ⟨_, _, _, rfl⟩ hd.threaded.abandon (fun _ hi => absurd hi List.not_mem_nil)
    (hd.events_lt hfree).2

/-- With no list, `carve` is the pool's allocation. -/
theorem Damaged.carve (hd : Damaged R h p link bad) (hzero : h.alloc.freeHead = 0) :
    (p.alloc = none ∧ h.alloc.carve R = (none, h.alloc)) ∨
      ∃ i q s', p.alloc = some (i, q) ∧
        h.alloc.carve R = (some (slot (h.alloc.basePtr R) h.alloc.blockStride i), s') ∧
        Damaged R ⟨s', h.mem⟩ q link bad ∧
        s'.corruptionEvents = h.alloc.corruptionEvents ∧ s'.freeHead = 0 := by
  by_cases hfull : h.alloc.capacity ≤ h.alloc.nextUncarved
  · left
    refine ⟨hd.threaded.exhausted hzero (hd.capacity_eq ▸ hfull), ?_⟩
    rw [Slab.carve, if_pos hfull]
  · right
    have hcap := hd.capacity_eq
    obtain ⟨q, hq, hthreaded⟩ := hd.threaded.carve hzero (by omega)
    have hretired := (Pool.alloc_cases hq).2.1
    have hnone : q.free = [] := hthreaded.free_eq_nil hzero
    have hcarve : h.alloc.carve R =
        (some (slot (h.alloc.basePtr R) h.alloc.blockStride h.alloc.nextUncarved),
          { h.alloc with nextUncarved := h.alloc.nextUncarved + 1 }) := by
      rw [Slab.carve, if_neg hfull]
      rfl
    refine ⟨_, q, _, hq, hcarve, ?_, rfl, hzero⟩
    refine hd.update ⟨_, _, _, rfl⟩ hthreaded (fun i hi => ?_) ?_
    · rw [hnone] at hi
      exact absurd hi List.not_mem_nil
    · rw [hretired]
      exact hd.events_le

/-- A pop of an honest link is the pool's allocation. -/
theorem Damaged.pop (hd : Damaged R h p link bad) (hne : h.alloc.freeHead ≠ 0) {s' : Slab T β}
    (hs' : s' = { h.alloc with freeHead := link (h.alloc.freeHead - 1) }) :
    ∃ q, p.alloc = some (h.alloc.freeHead - 1, q) ∧ Damaged R ⟨s', h.mem⟩ q link bad := by
  obtain ⟨q, hq, hthreaded⟩ := hd.threaded.pop hne
  obtain ⟨-, hretired, hfree⟩ := Pool.alloc_cases hq
  have hsub : ∀ i ∈ q.free, i ∈ p.free := by
    intro i hi
    rcases hfree with ⟨hcons, -⟩ | ⟨-, hnil, -⟩
    · rw [hcons]
      exact List.mem_cons_of_mem _ hi
    · rw [hnil] at hi
      exact absurd hi List.not_mem_nil
  subst hs'
  refine ⟨q, hq, hd.update ⟨_, _, _, rfl⟩ hthreaded hsub ?_⟩
  rw [hretired]
  exact hd.events_le

/-- **`allocate` on a damaged slab** for a request that fits: the pool's allocation, after giving up
the list if the head has been tampered with. -/
theorem Damaged.allocate (hd : Damaged R h p link bad) (hfits : h.alloc.FitsSlot l) :
    ∃ p' : Pool n, p'.live = p.live ∧
      (p' = p ∨ h.alloc.freeHead ≠ 0 ∧ h.alloc.freeHead - 1 ∈ bad ∧ p' = p.abandon) ∧
      ((p'.alloc = none ∧ (allocate R l h).1 = none ∧
          Damaged R (allocate R l h).2 p' link bad) ∨
        ∃ i q, p'.alloc = some (i, q) ∧
          (allocate R l h).1 = some (slot (h.alloc.basePtr R) h.alloc.blockStride i) ∧
          Damaged R (allocate R l h).2 q link bad) := by
  rw [allocate_eq hfits]
  by_cases hzero : h.alloc.freeHead = 0
  · refine ⟨p, rfl, Or.inl rfl, ?_⟩
    rw [popFree_zero hzero]
    rcases hd.carve hzero with ⟨hnone, heq⟩ | ⟨i, q, s', hq, heq, hd', -⟩
    · simp only [heq]
      exact Or.inl ⟨hnone, trivial, hd⟩
    · simp only [heq]
      exact Or.inr ⟨i, q, hq, rfl, hd'⟩
  · by_cases hbad : h.alloc.freeHead - 1 ∈ bad
    · refine ⟨p.abandon, rfl, Or.inr ⟨hzero, hbad, rfl⟩, ?_⟩
      have hfree : p.free ≠ [] := List.ne_nil_of_mem (hd.head_mem hzero)
      rw [hd.popFree_refused hzero hbad]
      rcases (hd.abandon hfree).carve rfl with ⟨hnone, heq⟩ | ⟨i, q, s', hq, heq, hd', -⟩
      · simp only at heq
        simp only [heq]
        exact Or.inl ⟨hnone, trivial, hd.abandon hfree⟩
      · simp only at heq
        simp only [heq]
        exact Or.inr ⟨i, q, hq, rfl, hd'⟩
    · refine ⟨p, rfl, Or.inl rfl, Or.inr ?_⟩
      obtain ⟨q, hq, hd'⟩ := hd.pop hzero rfl
      rw [hd.popFree_honest hzero hbad]
      exact ⟨_, q, hq, rfl, hd'⟩

/-! ## What is counted -/

theorem carve_events (s : Slab T β) : (s.carve R).2.corruptionEvents = s.corruptionEvents ∧
    (s.carve R).2.freeHead = s.freeHead := by
  unfold Slab.carve
  split <;> exact ⟨rfl, rfl⟩

/-- **A pop that meets a tampered link** raises the counter by one and gives up the list. -/
theorem Damaged.allocate_tampered (hd : Damaged R h p link bad) (hfits : h.alloc.FitsSlot l)
    (hne : h.alloc.freeHead ≠ 0) (hbad : h.alloc.freeHead - 1 ∈ bad) :
    (Slab.allocate R l h).2.alloc.corruptionEvents = h.alloc.corruptionEvents + 1 ∧
      (Slab.allocate R l h).2.alloc.freeHead = 0 := by
  rw [allocate_eq hfits, hd.popFree_refused hne hbad]
  exact carve_events h.alloc.abandoned

/-- **An honest pop** issues the slot of the head and leaves the counter. -/
theorem Damaged.allocate_honest (hd : Damaged R h p link bad) (hfits : h.alloc.FitsSlot l)
    (hne : h.alloc.freeHead ≠ 0) (hhonest : h.alloc.freeHead - 1 ∉ bad) :
    (Slab.allocate R l h).2.alloc.corruptionEvents = h.alloc.corruptionEvents ∧
      (Slab.allocate R l h).1 =
        some (slot (h.alloc.basePtr R) h.alloc.blockStride (h.alloc.freeHead - 1)) := by
  rw [allocate_eq hfits, hd.popFree_honest hne hhonest]
  exact ⟨rfl, rfl⟩

theorem allocate_no_pop (hno : ¬ h.alloc.FitsSlot l ∨ h.alloc.freeHead = 0) :
    (allocate R l h).2.alloc.corruptionEvents = h.alloc.corruptionEvents := by
  by_cases hfits : h.alloc.FitsSlot l
  · rw [allocate_eq hfits, popFree_zero (hno.resolve_left fun hnot => hnot hfits)]
    exact (carve_events h.alloc).1
  · rw [allocate_of_not_fits hfits]

/-! ## Writes -/

/-- The link words at `a` are the same in both memories. -/
def SameLink (m m' : Mem) (a : Nat) : Prop := ∀ x, a ≤ x → x < a + freeLinkSize → m' x = m x

theorem SameLink.read {m m' : Mem} {a : Nat} (hs : SameLink m m' a) :
    readU32 m' a = readU32 m a ∧ readU32 m' (a + 4) = readU32 m (a + 4) := by
  unfold SameLink freeLinkSize at hs
  constructor
  · exact readU32_congr fun x hx hx' => hs x hx (by omega)
  · exact readU32_congr fun x hx hx' => hs x (by omega) (by omega)

/-- Whether the link of a slot is followed depends on its words only. -/
theorem followed_congr {m : Mem} {i : Nat} (hs : SameLink h.mem m (h.alloc.slotPtr R i)) :
    Followed R ⟨h.alloc, m⟩ i ↔ Followed R h i := by
  obtain ⟨hnext, hmac⟩ := hs.read
  show (h.alloc.mac.verify (readU32 m (h.alloc.slotPtr R i)) (readU32 m (h.alloc.slotPtr R i + 4)) i
    = true ∧ readU32 m (h.alloc.slotPtr R i) ≤ h.alloc.capacity) ↔ _
  rw [hnext, hmac]
  rfl

theorem Damaged.tagged_congr (hd : Damaged R h p link bad) {m : Mem} {i : Nat} (hi : i ∈ p.free)
    (hnot : i ∉ bad) (hs : SameLink h.mem m (h.alloc.slotPtr R i)) :
    h.alloc.mac.verify (readU32 m (h.alloc.slotPtr R i)) (readU32 m (h.alloc.slotPtr R i + 4)) i
      = true := by
  obtain ⟨hnext, hmac⟩ := hs.read
  rw [hnext, hmac]
  exact hd.tagged i hi hnot

/-- A link written into one slot leaves the links of the others. -/
theorem sameLink_writeLink (hs : Shape R h.alloc) {i j : Nat} (hne : j ≠ i) (next tag : Nat) :
    SameLink h.mem (writeLink h.mem (h.alloc.slotPtr R i) next tag) (h.alloc.slotPtr R j) := by
  intro x hx hx'
  have hlink := hs.link_le
  have hfar := slot_lt_or_lt (h.alloc.basePtr R) h.alloc.blockStride hne
  rw [← slotPtr_eq, ← slotPtr_eq] at hfar
  exact writeLink_of_not_mem (by omega)

/-- The links of the free slots are as they were, but for one that is refused now. -/
theorem Damaged.overwrite (hd : Damaged R h p link bad) {m : Mem} {j : Nat}
    (hsame : ∀ i ∈ p.free, i ≠ j → SameLink h.mem m (h.alloc.slotPtr R i))
    (hrefused : ¬ Followed R ⟨h.alloc, m⟩ j) :
    Damaged R ⟨h.alloc, m⟩ p link (insert j bad) where
  shape := hd.shape
  capacity_eq := hd.capacity_eq
  mac_sound := hd.mac_sound
  threaded := hd.threaded
  kept := by
    intro i hi hnot
    have hne : i ≠ j := fun heq => hnot (Or.inl heq)
    exact (hsame i hi hne).read.1.trans (hd.kept i hi fun hbad => hnot (Or.inr hbad))
  tagged := by
    intro i hi hnot
    have hne : i ≠ j := fun heq => hnot (Or.inl heq)
    exact hd.tagged_congr hi (fun hbad => hnot (Or.inr hbad)) (hsame i hi hne)
  refused := by
    intro i hi hmem
    by_cases heq : i = j
    · rwa [heq]
    · rw [followed_congr (hsame i hi heq)]
      exact hd.refused i hi (hmem.resolve_left heq)
  events_le := hd.events_le

/-- Writes that spare the links of the free slots. -/
theorem Damaged.mem_congr (hd : Damaged R h p link bad) {m : Mem}
    (hsame : ∀ i ∈ p.free, SameLink h.mem m (h.alloc.slotPtr R i)) :
    Damaged R ⟨h.alloc, m⟩ p link bad where
  shape := hd.shape
  capacity_eq := hd.capacity_eq
  mac_sound := hd.mac_sound
  threaded := hd.threaded
  kept := fun i hi hnot => (hsame i hi).read.1.trans (hd.kept i hi hnot)
  tagged := fun i hi hnot => hd.tagged_congr hi hnot (hsame i hi)
  refused := by
    intro i hi hmem
    rw [followed_congr (hsame i hi)]
    exact hd.refused i hi hmem
  events_le := hd.events_le

/-- **`deallocate` of a live slot** pushes it with an honest link. -/
theorem Damaged.deallocate (hd : Damaged R h p link bad) {i : Nat} (hi : i ∈ p.live)
    (l : NonZeroLayout w) :
    Slab.deallocate R (h.alloc.slotPtr R i) l h = ⟨{ h.alloc with freeHead := i + 1 },
        writeLink h.mem (h.alloc.slotPtr R i) h.alloc.freeHead
          (h.alloc.mac.sign h.alloc.freeHead i)⟩ ∧
      Damaged R (Slab.deallocate R (h.alloc.slotPtr R i) l h) (p.release i hi)
        (Function.update link i h.alloc.freeHead) (bad \ {i}) := by
  have hs := hd.shape
  have heq : Slab.deallocate R (h.alloc.slotPtr R i) l h = ⟨{ h.alloc with freeHead := i + 1 },
      writeLink h.mem (h.alloc.slotPtr R i) h.alloc.freeHead
        (h.alloc.mac.sign h.alloc.freeHead i)⟩ := by
    rw [Slab.deallocate, slotIndex_slotPtr hs (hd.lt_capacity (p.lt_of_mem_live hi))]
  have hhead : h.alloc.freeHead < 2 ^ 32 := by
    have hle := hd.threaded.head_le
    have hcap := hd.capacity_eq
    have hlt := hs.capacity_lt
    omega
  have hother : ∀ j ∈ p.free, j ≠ i := fun j hj heq => p.not_mem_live_of_mem_free hj (heq ▸ hi)
  obtain ⟨m, hm⟩ : ∃ m, m = writeLink h.mem (h.alloc.slotPtr R i) h.alloc.freeHead
    (h.alloc.mac.sign h.alloc.freeHead i) := ⟨_, rfl⟩
  have hnext : readU32 m (h.alloc.slotPtr R i) = h.alloc.freeHead := by
    rw [hm]
    exact readU32_writeLink hhead
  have htag : readU32 m (h.alloc.slotPtr R i + 4) = h.alloc.mac.sign h.alloc.freeHead i := by
    rw [hm]
    exact readU32_writeLink_mac (hd.mac_sound.sign_lt _ _)
  have hsame : ∀ j ∈ p.free, SameLink h.mem m (h.alloc.slotPtr R j) := by
    intro j hj
    rw [hm]
    exact sameLink_writeLink hs (hother j hj) _ _
  refine ⟨heq, ?_⟩
  rw [heq, ← hm]
  constructor
  · exact hs.congr ⟨_, _, _, rfl⟩
  · exact hd.capacity_eq
  · exact hd.mac_sound
  · exact hd.threaded.push hi (Function.update_self ..) fun j hj =>
      Function.update_of_ne (hother j hj) _ _
  · intro j hj hnot
    rcases List.mem_cons.mp hj with rfl | hj
    · rw [Function.update_self]
      exact hnext
    · have hbad : j ∉ bad := fun hbad => hnot ⟨hbad, hother j hj⟩
      rw [Function.update_of_ne (hother j hj)]
      exact (hsame j hj).read.1.trans (hd.kept j hj hbad)
  · intro j hj hnot
    rcases List.mem_cons.mp hj with rfl | hj
    · show h.alloc.mac.verify (readU32 m (h.alloc.slotPtr R j))
        (readU32 m (h.alloc.slotPtr R j + 4)) j = true
      rw [hnext, htag]
      exact hd.mac_sound.verify_sign _ _
    · exact hd.tagged_congr hj (fun hbad => hnot ⟨hbad, hother j hj⟩) (hsame j hj)
  · intro j hj hmem
    rcases List.mem_cons.mp hj with rfl | hj
    · exact absurd rfl hmem.2
    · have hold := hd.refused j hj hmem.1
      rw [← followed_congr (hsame j hj)] at hold
      exact hold
  · exact hd.events_le

/-- A constructed slab is not damaged. -/
theorem damaged_new {A : Allocator w β} {Inv : Heap β → Set (Grant w) → Prop} {L : Set (Grant w)}
    (hA : HonoursRange A R Inv) {g : Heap β} (hinv : Inv g L) {mac : FreelistProtection}
    (hM : mac.Sound) (hnew : withProtection A R T n mac g = some h) (link : Nat → Nat) :
    Damaged R h (Pool.empty n) link ∅ := by
  obtain ⟨hr, -⟩ := withProtection_refines hA hinv hM hnew
  refine ⟨hr.shape, hr.capacity_eq, hr.mac_sound, hr.threaded.congr fun i hi => ?_, fun i hi => ?_,
    fun i hi => ?_, fun i hi => ?_, hr.corruption_eq.le⟩
  · exact absurd hi List.not_mem_nil
  · exact absurd hi List.not_mem_nil
  · exact absurd hi List.not_mem_nil
  · exact absurd hi List.not_mem_nil

end Slab

end ForgeAlloc
