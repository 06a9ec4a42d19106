import ForgeAlloc.Library.Chain
import ForgeAlloc.Library.Memory
import ForgeAlloc.Library.SlotPool

set_option autoImplicit false

/-! # Pools stored as a freelist in an array of slots

A slot allocator stores its pool as two numbers, the head of the freelist and the number of
slots carved, and a link for each free slot. `Threaded next head carved p` says that these
represent the pool `p`: the links thread exactly the free slots, in the order of the stack.
`next i` is the number stored as the link of the slot `i`, `0` for none and `j + 1` for `j`.

Pop, carve and push are the operations of the pool (`Threaded.pop`, `Threaded.carve`,
`Threaded.push`), and writes that spare the links of the free slots change nothing
(`Threaded.congr`). A list that is given up takes its slots out of service (`Threaded.abandon`).

The last section places `capacity` slots of `stride` bytes one after the other from an address.
-/

namespace SlotPool

open Linked

variable {capacity : Nat} {p : Pool capacity} {next next' : Nat → Nat} {head carved : Nat}

theorem Pool.alloc_of_free_cons {i : Nat} {t : List Nat} (h : p.free = i :: t) :
    ∃ q, p.alloc = some (i, q) ∧ q.free = t ∧ q.carved = p.carved := by
  rcases hq : p.alloc with _ | ⟨j, q⟩
  · rw [(Pool.alloc_eq_none_iff.mp hq).1] at h
    cases h
  · rcases (Pool.alloc_cases hq).2.2 with ⟨hfree, hcarved⟩ | ⟨hnil, -⟩
    · rw [hfree] at h
      cases h
      exact ⟨q, rfl, rfl, hcarved⟩
    · rw [hnil] at h
      cases h

theorem Pool.alloc_of_free_nil (h : p.free = []) (hlt : p.carved < capacity) :
    ∃ q, p.alloc = some (p.carved, q) ∧ q.free = [] ∧ q.carved = p.carved + 1 := by
  rcases hq : p.alloc with _ | ⟨j, q⟩
  · have := (Pool.alloc_eq_none_iff.mp hq).2
    omega
  · rcases (Pool.alloc_cases hq).2.2 with ⟨hfree, -⟩ | ⟨-, hnil, rfl, hcarved, -⟩
    · rw [hfree] at h
      cases h
    · exact ⟨q, rfl, hnil, hcarved⟩

structure Threaded (next : Nat → Nat) (head carved : Nat) (p : Pool capacity) : Prop where
  chain : Chain (fun i => ofLink (next i)) (ofLink head) p.free
  carved_eq : carved = p.carved

theorem Threaded.empty (next : Nat → Nat) : Threaded next 0 0 (Pool.empty capacity) :=
  ⟨rfl, rfl⟩

theorem Threaded.congr (h : Threaded next head carved p)
    (hframe : ∀ i ∈ p.free, next' i = next i) : Threaded next' head carved p :=
  ⟨h.chain.congr fun i hi => by rw [hframe i hi], h.carved_eq⟩

theorem Threaded.free_eq_nil (h : Threaded next head carved p) (hzero : head = 0) :
    p.free = [] := by
  have hchain := h.chain
  rw [hzero, ofLink_zero] at hchain
  exact chain_none.mp hchain

/-- A nonzero head names the top of the stack, and the link stored there the rest. -/
theorem Threaded.free_eq_cons (h : Threaded next head carved p) (hne : head ≠ 0) :
    ∃ t, p.free = (head - 1) :: t ∧
      Chain (fun i => ofLink (next i)) (ofLink (next (head - 1))) t := by
  obtain ⟨i, rfl⟩ := Nat.exists_eq_succ_of_ne_zero hne
  exact h.chain.exists_cons

/-- The link of the top of the stack names a slot of the pool or none. -/
theorem Threaded.next_le (h : Threaded next head carved p) (hne : head ≠ 0) :
    next (head - 1) ≤ capacity := by
  obtain ⟨t, hfree, ht⟩ := h.free_eq_cons hne
  rw [ht.toLink_head]
  cases t with
  | nil => exact Nat.zero_le _
  | cons j t =>
      have hj : j < p.carved := p.lt_of_mem_free (by rw [hfree]; simp)
      exact hj.trans_le p.carved_le

theorem Threaded.head_le (h : Threaded next head carved p) : head ≤ capacity := by
  rw [h.chain.toLink_head]
  rcases hfree : p.free with _ | ⟨i, t⟩
  · exact Nat.zero_le _
  · have hi : i < p.carved := p.lt_of_mem_free (by rw [hfree]; simp)
    exact hi.trans_le p.carved_le

theorem Threaded.pop (h : Threaded next head carved p) (hne : head ≠ 0) :
    ∃ q, p.alloc = some (head - 1, q) ∧ Threaded next (next (head - 1)) carved q := by
  obtain ⟨t, hfree, ht⟩ := h.free_eq_cons hne
  obtain ⟨q, hq, hqfree, hqcarved⟩ := Pool.alloc_of_free_cons hfree
  exact ⟨q, hq, by rw [hqfree]; exact ht, h.carved_eq.trans hqcarved.symm⟩

theorem Threaded.carve (h : Threaded next head carved p) (hzero : head = 0)
    (hlt : carved < capacity) :
    ∃ q, p.alloc = some (carved, q) ∧ Threaded next head (carved + 1) q := by
  have hfree := h.free_eq_nil hzero
  have hcarved := h.carved_eq
  subst hcarved
  obtain ⟨q, hq, hqfree, hqcarved⟩ := Pool.alloc_of_free_nil hfree hlt
  refine ⟨q, hq, ?_, hqcarved.symm⟩
  rw [hzero, hqfree]
  rfl

theorem Threaded.exhausted (h : Threaded next head carved p) (hzero : head = 0)
    (hle : capacity ≤ carved) : p.alloc = none := by
  rw [Pool.alloc_eq_none_iff]
  refine ⟨h.free_eq_nil hzero, le_antisymm p.carved_le ?_⟩
  rw [← h.carved_eq]
  exact hle

/-- Storing the old head as the link of a live slot pushes the slot. -/
theorem Threaded.push (h : Threaded next head carved p) {i : Nat} (hi : i ∈ p.live)
    (hlink : next' i = head) (hframe : ∀ j ∈ p.free, next' j = next j) :
    Threaded next' (i + 1) carved (p.release i hi) :=
  ⟨h.chain.push (by rw [hlink]) fun j hj => by rw [hframe j hj], h.carved_eq⟩

/-- Taking a live slot out of service leaves the list as it is. -/
theorem Threaded.retire (h : Threaded next head carved p) {i : Nat} (hi : i ∈ p.live)
    (hframe : ∀ j ∈ p.free, next' j = next j) : Threaded next' head carved (p.retire i hi) :=
  ⟨(h.congr hframe).chain, h.carved_eq⟩

/-- With the head cleared nothing is threaded, and what was is out of service. -/
theorem Threaded.abandon (h : Threaded next head carved p) :
    Threaded next 0 carved p.abandon :=
  ⟨rfl, h.carved_eq⟩

/-! ## Slots in memory -/

open ByteMemory

/-- The slot `i` of an array of slots of `stride` bytes that starts at `base`. -/
def slot (base stride i : Nat) : Block := ⟨base + i * stride, stride⟩

theorem slot_le (base stride : Nat) {i : Nat} (hi : i < capacity) :
    (slot base stride i).ptr + (slot base stride i).len ≤ base + capacity * stride := by
  have h : (i + 1) * stride ≤ capacity * stride := Nat.mul_le_mul_right _ hi
  rw [Nat.succ_mul] at h
  simp only [slot]
  omega

theorem slot_ptr_le (base stride i : Nat) : base ≤ (slot base stride i).ptr :=
  Nat.le_add_right _ _

/-- Of two slots one ends before the other starts. -/
theorem slot_lt_or_lt (base stride : Nat) {i j : Nat} (h : i ≠ j) :
    (slot base stride i).ptr + stride ≤ (slot base stride j).ptr ∨
      (slot base stride j).ptr + stride ≤ (slot base stride i).ptr := by
  simp only [slot]
  rcases Nat.lt_or_gt_of_ne h with hlt | hlt
  · have hmul : (i + 1) * stride ≤ j * stride := Nat.mul_le_mul_right _ hlt
    rw [Nat.succ_mul] at hmul
    omega
  · have hmul : (j + 1) * stride ≤ i * stride := Nat.mul_le_mul_right _ hlt
    rw [Nat.succ_mul] at hmul
    omega

theorem slot_disjoint {base stride i j : Nat} (h : i ≠ j) :
    Disjoint (slot base stride i).bytes (slot base stride j).bytes :=
  Block.disjoint_of_le (slot_lt_or_lt base stride h)

theorem slot_inj {base stride i j : Nat} (hpos : 0 < stride)
    (h : (slot base stride i).ptr = (slot base stride j).ptr) : i = j := by
  by_contra hne
  rcases slot_lt_or_lt base stride hne with hlt | hlt <;> omega

end SlotPool
