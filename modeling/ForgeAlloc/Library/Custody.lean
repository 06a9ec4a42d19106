import Mathlib

set_option autoImplicit false

/-! # Custody

Values held under keys, with a book of what went in and what came out. Every key is put in at most
once; while it is live its value may be changed; `take` returns the value and ends the key.

A `Custody` carries the proof that its book balances: every entry ever accepted is live or has been
returned, and none is both. `settle` is the closing of the book: the entries returned, with any
list of the live ones, are the entries accepted.
-/

structure Custody (κ α : Type*) where
  /-- The map. -/
  live : κ → Option α
  /-- Every key put in, with the value it has, or had when it was taken. -/
  accepted : List (κ × α)
  /-- Every key taken, with the value that came out. -/
  returned : List (κ × α)
  nodup_accepted : (accepted.map Prod.fst).Nodup
  nodup_returned : (returned.map Prod.fst).Nodup
  mem_accepted : ∀ e : κ × α, e ∈ accepted ↔ live e.1 = some e.2 ∨ e ∈ returned
  live_returned : ∀ e ∈ returned, live e.1 = none

namespace Custody

variable {κ α : Type*}

/-- The keys put in so far. -/
def keys (l : Custody κ α) : List κ := l.accepted.map Prod.fst

def empty : Custody κ α :=
  ⟨fun _ => none, [], [], List.nodup_nil, List.nodup_nil, fun _ => by simp, fun _ he => by cases he⟩

theorem mem_keys_of_live {l : Custody κ α} {k : κ} {v : α} (h : l.live k = some v) : k ∈ l.keys :=
  List.mem_map_of_mem ((l.mem_accepted (k, v)).mpr (Or.inl h))

theorem mem_keys_of_returned {l : Custody κ α} {e : κ × α} (h : e ∈ l.returned) : e.1 ∈ l.keys :=
  List.mem_map_of_mem ((l.mem_accepted e).mpr (Or.inr h))

/-- The value under the key `k` changed by `f`. -/
def changeAt [DecidableEq κ] (k : κ) (f : α → α) (e : κ × α) : κ × α :=
  if e.1 = k then (e.1, f e.2) else e

section

variable [DecidableEq κ]

theorem changeAt_fst (k : κ) (f : α → α) (e : κ × α) : (changeAt k f e).1 = e.1 := by
  unfold changeAt
  split <;> rfl

theorem changeAt_of_ne {k : κ} (f : α → α) {e : κ × α} (h : e.1 ≠ k) : changeAt k f e = e :=
  if_neg h

theorem map_changeAt_fst (k : κ) (f : α → α) (es : List (κ × α)) :
    (es.map (changeAt k f)).map Prod.fst = es.map Prod.fst := by
  rw [List.map_map]
  exact List.map_congr_left fun e _ => changeAt_fst k f e

/-! ## The operations -/

/-- Put `v` in under a new key; a key used before is left alone. -/
def put (l : Custody κ α) (k : κ) (v : α) : Custody κ α :=
  if hk : k ∈ l.keys then l
  else
    { live := Function.update l.live k (some v)
      accepted := (k, v) :: l.accepted
      returned := l.returned
      nodup_accepted := List.nodup_cons.mpr ⟨hk, l.nodup_accepted⟩
      nodup_returned := l.nodup_returned
      mem_accepted := by
        intro e
        rw [List.mem_cons, l.mem_accepted e]
        by_cases hek : e.1 = k
        · have hold : ¬ l.live e.1 = some e.2 := fun h => hk (hek ▸ mem_keys_of_live h)
          have hret : e ∉ l.returned := fun h => hk (hek ▸ mem_keys_of_returned h)
          rw [hek, Function.update_self]
          constructor
          · rintro (rfl | h | h)
            · exact Or.inl rfl
            · exact absurd (hek ▸ h) hold
            · exact absurd h hret
          · rintro (h | h)
            · exact Or.inl (Prod.ext hek (Option.some.inj h).symm)
            · exact absurd h hret
        · have hne : e ≠ (k, v) := fun h => hek (congrArg Prod.fst h)
          rw [Function.update_of_ne hek, or_iff_right hne]
      live_returned := by
        intro e he
        have hek : e.1 ≠ k := fun h => hk (h ▸ mem_keys_of_returned he)
        rw [Function.update_of_ne hek]
        exact l.live_returned e he }

/-- Apply `f` to the value under a live key. -/
def change (l : Custody κ α) (k : κ) (f : α → α) : Custody κ α :=
  match hl : l.live k with
  | none => l
  | some v =>
    { live := Function.update l.live k (some (f v))
      accepted := l.accepted.map (changeAt k f)
      returned := l.returned
      nodup_accepted := by
        rw [map_changeAt_fst]
        exact l.nodup_accepted
      nodup_returned := l.nodup_returned
      mem_accepted := by
        intro e
        have hret : ∀ e' ∈ l.returned, e'.1 ≠ k := by
          rintro e' he' rfl
          rw [l.live_returned e' he'] at hl
          cases hl
        rw [List.mem_map]
        constructor
        · rintro ⟨e', he', rfl⟩
          rw [changeAt_fst]
          by_cases hek : e'.1 = k
          · left
            have hlive := ((l.mem_accepted e').mp he').resolve_right fun h => hret e' h hek
            rw [hek, hl] at hlive
            rw [hek, Function.update_self, changeAt, if_pos hek, Option.some.inj hlive]
          · rw [Function.update_of_ne hek, changeAt_of_ne f hek]
            exact (l.mem_accepted e').mp he'
        · rintro (h | h)
          · by_cases hek : e.1 = k
            · rw [hek, Function.update_self] at h
              refine ⟨(k, v), (l.mem_accepted (k, v)).mpr (Or.inl hl), ?_⟩
              rw [changeAt, if_pos rfl]
              exact Prod.ext hek.symm (Option.some.inj h)
            · rw [Function.update_of_ne hek] at h
              exact ⟨e, (l.mem_accepted e).mpr (Or.inl h), changeAt_of_ne f hek⟩
          · exact ⟨e, (l.mem_accepted e).mpr (Or.inr h), changeAt_of_ne f (hret e h)⟩
      live_returned := by
        intro e he
        have hlive := l.live_returned e he
        have hek : e.1 ≠ k := by
          rintro rfl
          rw [hlive] at hl
          cases hl
        rw [Function.update_of_ne hek]
        exact hlive }

/-- Take out the value under a live key. -/
def take (l : Custody κ α) (k : κ) : Custody κ α :=
  match hl : l.live k with
  | none => l
  | some v =>
    { live := Function.update l.live k none
      accepted := l.accepted
      returned := (k, v) :: l.returned
      nodup_accepted := l.nodup_accepted
      nodup_returned := by
        refine List.nodup_cons.mpr ⟨fun h => ?_, l.nodup_returned⟩
        obtain ⟨e, he, hek⟩ := List.mem_map.mp h
        have hlive := l.live_returned e he
        rw [hek, hl] at hlive
        cases hlive
      mem_accepted := by
        intro e
        rw [l.mem_accepted e, List.mem_cons]
        by_cases hek : e.1 = k
        · rw [hek, Function.update_self, hl]
          constructor
          · rintro (h | h)
            · exact Or.inr (Or.inl (Prod.ext hek (Option.some.inj h).symm))
            · exact Or.inr (Or.inr h)
          · rintro (h | rfl | h)
            · cases h
            · exact Or.inl rfl
            · exact Or.inr h
        · have hne : e ≠ (k, v) := fun h => hek (congrArg Prod.fst h)
          rw [Function.update_of_ne hek, or_iff_right hne]
      live_returned := by
        intro e he
        by_cases hek : e.1 = k
        · rw [hek, Function.update_self]
        · rw [Function.update_of_ne hek]
          rcases List.mem_cons.mp he with rfl | he
          · exact absurd rfl hek
          · exact l.live_returned e he }

variable {l : Custody κ α} {k : κ}

theorem put_of_not_mem (hk : k ∉ l.keys) (v : α) :
    (l.put k v).live = Function.update l.live k (some v) ∧ (l.put k v).keys = k :: l.keys ∧
      (l.put k v).returned = l.returned := by
  rw [put, dif_neg hk]
  exact ⟨rfl, rfl, rfl⟩

theorem change_of_none (hl : l.live k = none) (f : α → α) : l.change k f = l := by
  unfold change
  split
  · rfl
  case h_2 v hv =>
      rw [hl] at hv
      cases hv

theorem change_of_some {v : α} (hl : l.live k = some v) (f : α → α) :
    (l.change k f).live = Function.update l.live k (some (f v)) ∧
      (l.change k f).keys = l.keys ∧ (l.change k f).returned = l.returned := by
  unfold change
  split
  case h_1 hn =>
      rw [hl] at hn
      cases hn
  case h_2 u hu =>
      rw [hl] at hu
      cases hu
      exact ⟨rfl, map_changeAt_fst k f _, rfl⟩

theorem take_of_none (hl : l.live k = none) : l.take k = l := by
  unfold take
  split
  · rfl
  case h_2 v hv =>
      rw [hl] at hv
      cases hv

theorem take_of_some {v : α} (hl : l.live k = some v) :
    (l.take k).live = Function.update l.live k none ∧ (l.take k).keys = l.keys ∧
      (l.take k).returned = (k, v) :: l.returned := by
  unfold take
  split
  case h_1 hn =>
      rw [hl] at hn
      cases hn
  case h_2 u hu =>
      rw [hl] at hu
      cases hu
      exact ⟨rfl, rfl, rfl⟩

end

/-! ## Closing the book -/

/-- **The book balances**: the entries returned and the live ones are the entries accepted. -/
theorem settle (l : Custody κ α) {rest : List (κ × α)} (hnodup : (rest.map Prod.fst).Nodup)
    (hrest : ∀ e : κ × α, e ∈ rest ↔ l.live e.1 = some e.2) :
    (l.returned ++ rest).Perm l.accepted := by
  have hdisjoint : ∀ a ∈ l.returned, ∀ b ∈ rest, a ≠ b := by
    rintro a ha b hb rfl
    have hlive := (hrest a).mp hb
    rw [l.live_returned a ha] at hlive
    cases hlive
  refine (List.perm_ext_iff_of_nodup ?_ l.nodup_accepted.of_map).mpr fun e => ?_
  · exact List.nodup_append.mpr ⟨l.nodup_returned.of_map, hnodup.of_map, hdisjoint⟩
  · rw [List.mem_append, hrest, l.mem_accepted]
    exact or_comm

end Custody
