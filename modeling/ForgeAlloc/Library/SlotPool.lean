import Mathlib

set_option autoImplicit false

/-! # Slot pools

A pool of `capacity` numbered slots. Slots are *carved* in order, the first time each is
needed; a carved slot is *live*, *free* or *retired*. Free slots are kept on a stack: the slot
freed last is issued first, and a slot is carved only when the stack is empty. A retired slot
is never issued again.

A `Pool` carries the proof that its three lists hold each carved slot exactly once, so a slot
that is live and free at the same time cannot be expressed. This is the specification the
slot allocators are compared with.
-/

namespace SlotPool

structure Pool (capacity : Nat) where
  /-- The number of slots carved so far. -/
  carved : Nat
  live : List Nat
  /-- The free slots, most recently freed first. -/
  free : List Nat
  retired : List Nat
  perm : (live ++ free ++ retired).Perm (List.range carved)
  carved_le : carved ≤ capacity

variable {capacity : Nat}

def Pool.empty (capacity : Nat) : Pool capacity where
  carved := 0
  live := []
  free := []
  retired := []
  perm := List.Perm.refl _
  carved_le := Nat.zero_le _

/-! ## What a pool excludes -/

theorem Pool.nodup (p : Pool capacity) : (p.live ++ p.free ++ p.retired).Nodup :=
  p.perm.nodup_iff.mpr List.nodup_range

theorem Pool.nodup_live (p : Pool capacity) : p.live.Nodup :=
  (List.nodup_append.mp (List.nodup_append.mp p.nodup).1).1

theorem Pool.nodup_free (p : Pool capacity) : p.free.Nodup :=
  (List.nodup_append.mp (List.nodup_append.mp p.nodup).1).2.1

theorem Pool.not_mem_live_of_mem_free (p : Pool capacity) {i : Nat} (h : i ∈ p.free) :
    i ∉ p.live :=
  fun hl => (List.nodup_append.mp (List.nodup_append.mp p.nodup).1).2.2 i hl i h rfl

theorem Pool.not_mem_free_of_mem_live (p : Pool capacity) {i : Nat} (h : i ∈ p.live) :
    i ∉ p.free := fun hf => p.not_mem_live_of_mem_free hf h

theorem Pool.not_mem_retired_of_mem_live (p : Pool capacity) {i : Nat} (h : i ∈ p.live) :
    i ∉ p.retired :=
  fun hr => (List.nodup_append.mp p.nodup).2.2 i (List.mem_append_left _ h) i hr rfl

theorem Pool.mem_iff (p : Pool capacity) {i : Nat} :
    i < p.carved ↔ i ∈ p.live ∨ i ∈ p.free ∨ i ∈ p.retired := by
  rw [← List.mem_range, ← p.perm.mem_iff]
  simp

theorem Pool.lt_of_mem_live (p : Pool capacity) {i : Nat} (h : i ∈ p.live) : i < p.carved :=
  p.mem_iff.mpr (Or.inl h)

theorem Pool.lt_of_mem_free (p : Pool capacity) {i : Nat} (h : i ∈ p.free) : i < p.carved :=
  p.mem_iff.mpr (Or.inr (Or.inl h))

theorem Pool.length (p : Pool capacity) :
    p.live.length + p.free.length + p.retired.length = p.carved := by
  have h := p.perm.length_eq
  simp only [List.length_append, List.length_range] at h
  exact h

/-- With nothing retired, the free slots are the carved slots that are not live. -/
theorem Pool.mem_free_iff (p : Pool capacity) (hr : p.retired = []) {i : Nat} :
    i ∈ p.free ↔ i < p.carved ∧ i ∉ p.live := by
  constructor
  · intro h
    exact ⟨p.lt_of_mem_free h, p.not_mem_live_of_mem_free h⟩
  · rintro ⟨hlt, hnot⟩
    rcases p.mem_iff.mp hlt with h | h | h
    · exact absurd h hnot
    · exact h
    · rw [hr] at h
      cases h

/-! ## The operations -/

/-- Issue a slot: the top of the stack, or a newly carved one. -/
def Pool.alloc : Pool capacity → Option (Nat × Pool capacity)
  | ⟨n, live, i :: free, retired, hperm, hn⟩ =>
      some (i, ⟨n, i :: live, free, retired, by
        refine List.Perm.trans ?_ hperm
        simpa using List.perm_middle.symm.append_right retired, hn⟩)
  | ⟨n, live, [], retired, hperm, _⟩ =>
      if h : n < capacity then
        some (n, ⟨n + 1, n :: live, [], retired, by
          rw [List.range_succ]
          exact (hperm.cons n).trans (List.perm_append_singleton n _).symm, h⟩)
      else none

/-- Take back a live slot. -/
def Pool.release (p : Pool capacity) (i : Nat) (h : i ∈ p.live) : Pool capacity where
  carved := p.carved
  live := p.live.erase i
  free := i :: p.free
  retired := p.retired
  perm := by
    refine List.Perm.trans (List.Perm.append_right _ ?_) p.perm
    exact List.perm_middle.trans ((List.perm_cons_erase h).symm.append_right p.free)
  carved_le := p.carved_le

/-- Take a live slot out of service. -/
def Pool.retire (p : Pool capacity) (i : Nat) (h : i ∈ p.live) : Pool capacity where
  carved := p.carved
  live := p.live.erase i
  free := p.free
  retired := i :: p.retired
  perm := by
    refine List.Perm.trans List.perm_middle ?_
    exact (((List.perm_cons_erase h).symm.append_right p.free).append_right p.retired).trans p.perm
  carved_le := p.carved_le

/-- Give up the stack: every free slot is taken out of service. -/
def Pool.abandon (p : Pool capacity) : Pool capacity where
  carved := p.carved
  live := p.live
  free := []
  retired := p.free ++ p.retired
  perm := by
    rw [List.append_nil, ← List.append_assoc]
    exact p.perm
  carved_le := p.carved_le

/-- What issuing a slot can do. -/
theorem Pool.alloc_cases {p q : Pool capacity} {i : Nat} (h : p.alloc = some (i, q)) :
    q.live = i :: p.live ∧ q.retired = p.retired ∧
      ((p.free = i :: q.free ∧ q.carved = p.carved) ∨
        (p.free = [] ∧ q.free = [] ∧ i = p.carved ∧ q.carved = p.carved + 1
          ∧ p.carved < capacity)) := by
  obtain ⟨n, live, free, retired, hperm, hn⟩ := p
  cases free with
  | nil =>
      simp only [Pool.alloc] at h
      split at h
      case isTrue hlt =>
        cases h
        exact ⟨rfl, rfl, Or.inr ⟨rfl, rfl, rfl, rfl, hlt⟩⟩
      case isFalse => cases h
  | cons j free =>
      simp only [Pool.alloc, Option.some.injEq, Prod.mk.injEq] at h
      obtain ⟨rfl, rfl⟩ := h
      exact ⟨rfl, rfl, Or.inl ⟨rfl, rfl⟩⟩

theorem Pool.alloc_eq_none_iff {p : Pool capacity} :
    p.alloc = none ↔ p.free = [] ∧ p.carved = capacity := by
  obtain ⟨n, live, free, retired, hperm, hn⟩ := p
  cases free with
  | nil =>
      simp only [Pool.alloc, dite_eq_right_iff, true_and]
      constructor
      · intro h
        by_contra hne
        exact absurd (h (by omega)) (by simp)
      · intro h hlt
        omega
  | cons j free => simp [Pool.alloc]

/-- With nothing retired, the pool is exhausted exactly when every slot is live. -/
theorem Pool.alloc_eq_none_iff_live {p : Pool capacity} (hr : p.retired = []) :
    p.alloc = none ↔ p.live.length = capacity := by
  have hlen := p.length
  have hle := p.carved_le
  rw [hr] at hlen
  rw [Pool.alloc_eq_none_iff, ← List.length_eq_zero_iff]
  simp only [List.length_nil] at hlen
  omega

theorem Pool.alloc_lt {p q : Pool capacity} {i : Nat} (h : p.alloc = some (i, q)) :
    i < capacity := by
  have hmem : i ∈ q.live := by
    rw [(Pool.alloc_cases h).1]
    exact List.mem_cons_self
  exact (q.lt_of_mem_live hmem).trans_le q.carved_le

theorem Pool.alloc_not_mem {p q : Pool capacity} {i : Nat} (h : p.alloc = some (i, q)) :
    i ∉ p.live := by
  have hnd := q.nodup_live
  rw [(Pool.alloc_cases h).1] at hnd
  exact (List.nodup_cons.mp hnd).1

theorem Pool.alloc_not_mem_retired {p q : Pool capacity} {i : Nat} (h : p.alloc = some (i, q)) :
    i ∉ p.retired := by
  rw [← (Pool.alloc_cases h).2.1]
  apply q.not_mem_retired_of_mem_live
  rw [(Pool.alloc_cases h).1]
  exact List.mem_cons_self

end SlotPool
