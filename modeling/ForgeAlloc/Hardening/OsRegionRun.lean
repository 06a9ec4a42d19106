import ForgeAlloc.Hardening.OsRegion

set_option autoImplicit false

/-! # Building and dropping mappings

The constructors of the values of `Region`, with what they do to the process. A constructor takes
its inner value by move, so one that fails drops what it was given.

`Inv` is the accounting of `OsProcess.Inv` with the values that are alive as the owners. Every step
keeps it, whatever the system declines.
-/

namespace ForgeAlloc

open MachineInt ByteMemory

namespace Region

variable {w : Nat} {t : Target} {K : Kernel} {p q : OsProcess} {r : Region}
  {owned' held' : List Block}

/-- The mappings that a value owns. -/
def owned : Region → List Block
  | .mmapBacked m => [m.region]
  | .lockedMmapBacked m => [m.inner.region]
  | .hugePageBacked m => [m.region]
  | .numaLocal _ r => r.owned
  | .splitMetadata m r => m.region :: r.owned
  | .hugePageAligned _ _ r => r.owned
  | .bumpArena _ _ r => r.owned

/-- The mappings that a value keeps locked. -/
def held : Region → List Block
  | .mmapBacked _ | .hugePageBacked _ => []
  | .lockedMmapBacked m => [m.inner.region]
  | .numaLocal _ r => r.held
  | .splitMetadata _ r => r.held
  | .hugePageAligned _ _ r => r.held
  | .bumpArena _ _ r => r.held

/-! ## Constructors and drops -/

/-- `drop`. The fields of a struct are dropped in order, so the metadata goes first. -/
def drop (K : Kernel) : Region → OsProcess → OsProcess
  | .mmapBacked m, p => m.drop K p
  | .lockedMmapBacked m, p => m.drop K p
  | .hugePageBacked m, p => p.osUnmap K m.region
  | .numaLocal _ r, p => r.drop K p
  | .splitMetadata m r, p => r.drop K (m.drop K p)
  | .hugePageAligned _ _ r, p => r.drop K p
  | .bumpArena _ _ r, p => r.drop K p

/-- `NumaLocal::new`. -/
def newNumaLocal (t : Target) (K : Kernel) (inner : Region) (policy : NumaPolicy) (p : OsProcess) :
    Option Region × OsProcess :=
  match policy.mbindArgs with
  | none => (none, inner.drop K p)
  | some (mode, mask, maxnode) =>
      match p.applyPolicy t K inner.region (mode, mask.toNat, maxnode) with
      | (false, p) => (none, inner.drop K p)
      | (true, p) => (some (.numaLocal policy inner), p)

/-- `SplitMetadata::new`. -/
def newSplitMetadata (w : Nat) (t : Target) (K : Kernel) (dataRegion : Region) (metaSize : Nat)
    (p : OsProcess) : Option Region × OsProcess :=
  match MmapBacked.withFlagsIn w t K metaSize false [] p with
  | (none, p) => (none, dataRegion.drop K p)
  | (some metaRegion, p) => (some (.splitMetadata metaRegion dataRegion), p)

/-- `HugePageAligned::with_huge_page_size`. -/
def newHugePageAligned (K : Kernel) (inner : Region) (hugePageSize : Nat) (p : OsProcess) :
    Option Region × OsProcess :=
  match HugePageAligned.withHugePageSize inner hugePageSize with
  | none => (none, inner.drop K p)
  | some s => (some (.hugePageAligned s.hugePageSize s.pow s.inner), p)

/-- `base` and `size` of a value; `BumpArena::new` does not commit. -/
def fixedRange : FixedRange Region where
  base := fun r => r.region.ptr
  size := fun r => r.region.len
  commit := fun _ _ r => (true, r)

/-- `BumpArena::new`. -/
def newBumpArena (w : Nat) (K : Kernel) (backing : Region) (p : OsProcess) :
    Option Region × OsProcess :=
  match BumpArena.new w fixedRange backing with
  | none => (none, backing.drop K p)
  | some a => (some (.bumpArena a.capacity a.cursor a.backing), p)

/-! ## Each of them keeps the accounts -/

theorem held_subset_owned (r : Region) : r.held ⊆ r.owned := by
  induction r with
  | mmapBacked | hugePageBacked => exact List.nil_subset _
  | lockedMmapBacked => exact List.Subset.refl _
  | numaLocal _ _ ih => exact ih
  | splitMetadata _ _ ih => exact fun b hb => List.mem_cons_of_mem _ (ih hb)
  | hugePageAligned _ _ _ ih => exact ih
  | bumpArena _ _ _ ih => exact ih

/-- **A drop gives back** what the value owns. -/
theorem inv_drop (hi : OsProcess.Inv K p (r.owned ++ owned') (r.held ++ held'))
    (hsub : held' ⊆ owned') : OsProcess.Inv K (r.drop K p) owned' held' := by
  have hunlocked : ∀ {b : Block} {p : OsProcess} {held owned : List Block},
      OsProcess.Inv K p (b :: owned) held → held ⊆ owned →
        OsProcess.Inv K (p.osUnmap K b) owned held := fun hi hsub =>
    hi.unmap_unlocked fun hb => hi.not_mem_of_cons.1 (hsub hb)
  induction r generalizing p owned' held' with
  | mmapBacked m => exact hunlocked hi hsub
  | hugePageBacked m => exact hunlocked hi hsub
  | lockedMmapBacked m => exact hi.unlock_unmap
  | numaLocal policy r ih => exact ih hi hsub
  | hugePageAligned hp hpow r ih => exact ih hi hsub
  | bumpArena capacity cursor r ih => exact ih hi hsub
  | splitMetadata m r ih =>
      have hrest : r.held ++ held' ⊆ r.owned ++ owned' :=
        List.append_subset.mpr ⟨fun b hb => List.mem_append_left _ (r.held_subset_owned hb),
          fun b hb => List.mem_append_right _ (hsub hb)⟩
      exact ih (hunlocked hi hrest) hsub

theorem inv_withFlagsIn (hK : K.Lawful) (hi : OsProcess.Inv K p owned' held') {size : Nat}
    {lazyCommit : Bool} {answers : List Bool} {m : MmapBacked}
    (hnew : MmapBacked.withFlagsIn w t K size lazyCommit answers p = (some m, q)) :
    OsProcess.Inv K q (m.region :: owned') held' := by
  obtain ⟨place, hmap, hptr, hlen, -⟩ := MmapBacked.withFlagsIn_some hnew
  rw [MmapBacked.region, hptr]
  exact hi.map hK hlen hmap

theorem inv_withFlagsIn_none (hi : OsProcess.Inv K p owned' held') {size : Nat}
    {lazyCommit : Bool} {answers : List Bool}
    (hnew : MmapBacked.withFlagsIn w t K size lazyCommit answers p = (none, q)) :
    OsProcess.Inv K q owned' held' := by
  obtain ⟨code, rfl⟩ := MmapBacked.withFlagsIn_none hnew
  exact hi.congr (OsProcess.sameMappings_captureOsError code p)

/-- **A locked mapping** is mapped and locked, or not there at all. -/
theorem inv_newLocked (hK : K.Lawful) (hi : OsProcess.Inv K p owned' held')
    (hsub : held' ⊆ owned') {size : Nat} {m : Option LockedMmapBacked}
    (hnew : LockedMmapBacked.new w t K size p = (m, q)) :
    OsProcess.Inv K q ((m.map Region.lockedMmapBacked).toList.flatMap owned ++ owned')
      ((m.map Region.lockedMmapBacked).toList.flatMap held ++ held') := by
  cases m with
  | some m =>
      obtain ⟨p₁, hmap, hlock⟩ := LockedMmapBacked.new_some hnew
      have hmapped := inv_withFlagsIn hK hi hmap
      exact hmapped.lock (fun hb => hmapped.not_mem_of_cons.1 (hsub hb)) hlock
  | none =>
      rcases LockedMmapBacked.new_none hnew with ⟨code, rfl⟩ | ⟨inner, p₁, code, hmap, -, rfl⟩
      · exact hi.congr (OsProcess.sameMappings_captureOsError code p)
      · have hmapped := inv_withFlagsIn hK hi hmap
        have hcaptured := hmapped.congr (OsProcess.sameMappings_captureOsError code p₁)
        have hdropped := inv_drop (r := .mmapBacked inner) hcaptured hsub
        exact hdropped.congr ⟨rfl, rfl, rfl⟩

theorem inv_newHugePageBacked (hK : K.Lawful) (hi : OsProcess.Inv K p owned' held')
    {minSize hpSize : Nat} {m : HugePageBacked}
    (hnew : HugePageBacked.withHugePageSize w t K minSize hpSize p = (some m, q)) :
    OsProcess.Inv K q (m.region :: owned') held' := by
  obtain ⟨place, flags, -, hmap, hptr, hlen, -⟩ := HugePageBacked.osMap_of_some hnew
  rw [HugePageBacked.region, hptr]
  exact hi.map hK hlen hmap

theorem inv_newHugePageBacked_none (hi : OsProcess.Inv K p owned' held') {minSize hpSize : Nat}
    (hnew : HugePageBacked.withHugePageSize w t K minSize hpSize p = (none, q)) :
    OsProcess.Inv K q owned' held' := by
  obtain ⟨code, rfl⟩ := HugePageBacked.withHugePageSize_none hnew
  exact hi.congr (OsProcess.sameMappings_captureOsError code p)

theorem inv_newNumaLocal (hi : OsProcess.Inv K p (r.owned ++ owned') (r.held ++ held'))
    (hsub : held' ⊆ owned') {policy : NumaPolicy} {v : Option Region}
    (hnew : newNumaLocal t K r policy p = (v, q)) :
    OsProcess.Inv K q (v.toList.flatMap owned ++ owned') (v.toList.flatMap held ++ held') := by
  unfold newNumaLocal at hnew
  split at hnew
  case h_1 =>
      cases hnew
      exact inv_drop hi hsub
  case h_2 mode mask maxnode _ =>
      rcases OsProcess.applyPolicy_cases t K r.region (mode, mask.toNat, maxnode) p with
        hbind | ⟨code, hbind⟩
      · rw [hbind] at hnew
        cases hnew
        simpa [owned, held] using hi
      · rw [hbind] at hnew
        cases hnew
        exact inv_drop (hi.congr (OsProcess.sameMappings_captureOsError code p)) hsub

theorem inv_newSplitMetadata (hK : K.Lawful)
    (hi : OsProcess.Inv K p (r.owned ++ owned') (r.held ++ held')) (hsub : held' ⊆ owned')
    {metaSize : Nat} {v : Option Region} (hnew : newSplitMetadata w t K r metaSize p = (v, q)) :
    OsProcess.Inv K q (v.toList.flatMap owned ++ owned') (v.toList.flatMap held ++ held') := by
  unfold newSplitMetadata at hnew
  split at hnew
  case h_1 p' hmap =>
      cases hnew
      exact inv_drop (inv_withFlagsIn_none hi hmap) hsub
  case h_2 m p' hmap =>
      cases hnew
      simpa [owned, held] using inv_withFlagsIn hK hi hmap

theorem inv_newHugePageAligned (hi : OsProcess.Inv K p (r.owned ++ owned') (r.held ++ held'))
    (hsub : held' ⊆ owned') {hugePageSize : Nat} {v : Option Region}
    (hnew : newHugePageAligned K r hugePageSize p = (v, q)) :
    OsProcess.Inv K q (v.toList.flatMap owned ++ owned') (v.toList.flatMap held ++ held') := by
  unfold newHugePageAligned at hnew
  split at hnew
  case h_1 =>
      cases hnew
      exact inv_drop hi hsub
  case h_2 s hs =>
      cases hnew
      have hinner : s.inner = r := by
        unfold HugePageAligned.withHugePageSize at hs
        split at hs
        · cases hs
          rfl
        · cases hs
      simpa [hinner, owned, held] using hi

theorem inv_newBumpArena (hi : OsProcess.Inv K p (r.owned ++ owned') (r.held ++ held'))
    (hsub : held' ⊆ owned') {v : Option Region} (hnew : newBumpArena w K r p = (v, q)) :
    OsProcess.Inv K q (v.toList.flatMap owned ++ owned') (v.toList.flatMap held ++ held') := by
  unfold newBumpArena at hnew
  split at hnew
  case h_1 =>
      cases hnew
      exact inv_drop hi hsub
  case h_2 a ha =>
      cases hnew
      obtain ⟨rfl, -⟩ := BumpArena.new_eq_some ha
      simpa [owned, held] using hi

end Region

/-! ## Runs -/

/-- A process with the values that are alive in it. -/
structure RegionRun where
  process : OsProcess
  live : List Region

/-- A call of a constructor or a drop. Numbers are those of values that are alive; they are moved
into the call. -/
inductive RegionOp
  | mmapBacked (size : Nat) (lazyCommit : Bool) (answers : List Bool)
  | lockedMmapBacked (size : Nat)
  | hugePageBacked (minSize hpSize : Nat)
  | numaLocal (i : Nat) (policy : NumaPolicy)
  | splitMetadata (i metaSize : Nat)
  | withMeta (i j : Nat)
  | hugePageAligned (i hugePageSize : Nat)
  | bumpArena (i : Nat)
  | drop (i : Nat)

namespace RegionRun

open Region

variable {w : Nat} {t : Target} {K : Kernel} {s s' : RegionRun} {ops : List RegionOp} {i : Nat}
  {r : Region}

/-- What a constructor returns joins the values that are alive. -/
def adopt (live : List Region) (r : Option Region × OsProcess) : RegionRun :=
  ⟨r.2, r.1.toList ++ live⟩

def step (w : Nat) (t : Target) (K : Kernel) (s : RegionRun) : RegionOp → Option RegionRun
  | .mmapBacked size lazyCommit answers =>
      let (m, p) := MmapBacked.withFlagsIn w t K size lazyCommit answers s.process
      some (adopt s.live (m.map .mmapBacked, p))
  | .lockedMmapBacked size =>
      let (m, p) := LockedMmapBacked.new w t K size s.process
      some (adopt s.live (m.map .lockedMmapBacked, p))
  | .hugePageBacked minSize hpSize =>
      let (m, p) := HugePageBacked.withHugePageSize w t K minSize hpSize s.process
      some (adopt s.live (m.map .hugePageBacked, p))
  | .numaLocal i policy =>
      s.live[i]?.map fun r => adopt (s.live.eraseIdx i) (newNumaLocal t K r policy s.process)
  | .splitMetadata i metaSize =>
      s.live[i]?.map fun r => adopt (s.live.eraseIdx i) (newSplitMetadata w t K r metaSize s.process)
  | .withMeta i j =>
      match s.live[i]?, (s.live.eraseIdx i)[j]? with
      | some r, some (.mmapBacked m) =>
          some ⟨s.process, .splitMetadata m r :: (s.live.eraseIdx i).eraseIdx j⟩
      | _, _ => none
  | .hugePageAligned i hugePageSize =>
      s.live[i]?.map fun r =>
        adopt (s.live.eraseIdx i) (newHugePageAligned K r hugePageSize s.process)
  | .bumpArena i =>
      s.live[i]?.map fun r => adopt (s.live.eraseIdx i) (newBumpArena w K r s.process)
  | .drop i =>
      s.live[i]?.map fun r => ⟨r.drop K s.process, s.live.eraseIdx i⟩

/-- What is mapped and locked is accounted for. -/
def Inv (K : Kernel) (s : RegionRun) : Prop :=
  OsProcess.Inv K s.process (s.live.flatMap owned) (s.live.flatMap held)

theorem flatMap_held_subset (live : List Region) : live.flatMap held ⊆ live.flatMap owned := by
  intro b hb
  obtain ⟨r, hr, hb⟩ := List.mem_flatMap.mp hb
  exact List.mem_flatMap.mpr ⟨r, hr, r.held_subset_owned hb⟩

/-- The value number `i` first. -/
theorem Inv.take (hi : Inv K s) (hr : s.live[i]? = some r) :
    OsProcess.Inv K s.process (r.owned ++ (s.live.eraseIdx i).flatMap owned)
      (r.held ++ (s.live.eraseIdx i).flatMap held) := by
  have hperm := InFlight.perm_cons_eraseIdx hr
  exact OsProcess.Inv.perm hi (hperm.flatMap_right owned).symm (hperm.flatMap_right held).symm

theorem inv_admit {live : List Region} {v : Option Region} {p : OsProcess}
    (hi : OsProcess.Inv K p (v.toList.flatMap owned ++ live.flatMap owned)
      (v.toList.flatMap held ++ live.flatMap held)) : Inv K (adopt live (v, p)) := by
  unfold Inv adopt
  rw [List.flatMap_append, List.flatMap_append]
  exact hi

theorem inv_init (K : Kernel) : Inv K ⟨.init, []⟩ := OsProcess.inv_init K

/-- **One step keeps the accounts**, whether it succeeds or not. -/
theorem inv_step (hK : K.Lawful) (op : RegionOp) (hi : Inv K s)
    (hstep : step w t K s op = some s') : Inv K s' := by
  have hsub := flatMap_held_subset s.live
  cases op with
  | mmapBacked size lazyCommit answers =>
      simp only [step] at hstep
      rcases hnew : MmapBacked.withFlagsIn w t K size lazyCommit answers s.process with ⟨_ | m, p⟩
      · rw [hnew] at hstep
        cases hstep
        exact inv_withFlagsIn_none hi hnew
      · rw [hnew] at hstep
        cases hstep
        exact inv_withFlagsIn hK hi hnew
  | lockedMmapBacked size =>
      simp only [step] at hstep
      rcases hnew : LockedMmapBacked.new w t K size s.process with ⟨m, p⟩
      rw [hnew] at hstep
      cases hstep
      exact inv_admit (inv_newLocked hK hi hsub hnew)
  | hugePageBacked minSize hpSize =>
      simp only [step] at hstep
      rcases hnew : HugePageBacked.withHugePageSize w t K minSize hpSize s.process with ⟨_ | m, p⟩
      · rw [hnew] at hstep
        cases hstep
        exact inv_newHugePageBacked_none hi hnew
      · rw [hnew] at hstep
        cases hstep
        exact inv_newHugePageBacked hK hi hnew
  | numaLocal i policy =>
      obtain ⟨r, hr, rfl⟩ := Option.map_eq_some_iff.mp hstep
      exact inv_admit (inv_newNumaLocal (hi.take hr) (flatMap_held_subset _) rfl)
  | splitMetadata i metaSize =>
      obtain ⟨r, hr, rfl⟩ := Option.map_eq_some_iff.mp hstep
      exact inv_admit (inv_newSplitMetadata hK (hi.take hr) (flatMap_held_subset _) rfl)
  | withMeta i j =>
      simp only [step] at hstep
      split at hstep
      case h_1 r m hr hm =>
          cases hstep
          -- the metadata is one of the others
          have hperm := (InFlight.perm_cons_eraseIdx hr).trans
            ((InFlight.perm_cons_eraseIdx hm).cons r)
          have hswap : (Region.splitMetadata m r :: (s.live.eraseIdx i).eraseIdx j).flatMap owned
              |>.Perm (s.live.flatMap owned) := by
            refine List.Perm.trans ?_ (hperm.flatMap_right owned).symm
            simp only [List.flatMap_cons, owned, List.cons_append, List.nil_append]
            exact List.perm_middle.symm
          have hheld : (Region.splitMetadata m r :: (s.live.eraseIdx i).eraseIdx j).flatMap held
              |>.Perm (s.live.flatMap held) := by
            refine List.Perm.trans ?_ (hperm.flatMap_right held).symm
            simp only [List.flatMap_cons, held, List.nil_append]
            exact List.Perm.refl _
          exact OsProcess.Inv.perm hi hswap hheld
      case h_2 => cases hstep
  | hugePageAligned i hugePageSize =>
      obtain ⟨r, hr, rfl⟩ := Option.map_eq_some_iff.mp hstep
      exact inv_admit (inv_newHugePageAligned (hi.take hr) (flatMap_held_subset _) rfl)
  | bumpArena i =>
      obtain ⟨r, hr, rfl⟩ := Option.map_eq_some_iff.mp hstep
      exact inv_admit (inv_newBumpArena (hi.take hr) (flatMap_held_subset _) rfl)
  | drop i =>
      obtain ⟨r, hr, rfl⟩ := Option.map_eq_some_iff.mp hstep
      exact inv_drop (hi.take hr) (flatMap_held_subset _)

/-- **No mapping is lost, and no locked value is without its lock.** For every system that maps
where nothing is mapped, in every state of every run:

* the mappings of the process are those of the values that are alive, each once, and those that the
  system declined to take back; they are disjoint;
* the mapping of a `LockedMmapBacked` that is alive is locked, and what is locked belongs to one or
  has leaked;
* a system that always takes mappings back leaves nothing mapped or locked when no value is
  alive. -/
theorem run_accounts (hK : K.Lawful)
    (hrun : Machine.run (step w t K) ⟨.init, []⟩ ops = some s) :
    (s.process.mapped.Perm (s.live.flatMap owned ++ s.process.leaked) ∧
        s.process.mapped.Pairwise fun b c => Disjoint b.bytes c.bytes) ∧
      ((∀ b ∈ s.live.flatMap held, b ∈ s.process.mapped ∧ b ∈ s.process.locked) ∧
        ∀ b ∈ s.process.locked, b ∈ s.live.flatMap held ∨ b ∈ s.process.leaked) ∧
      ((∀ p b, K.unmap p b = none) → s.live = [] →
        s.process.mapped = [] ∧ s.process.locked = []) := by
  have hi : Inv K s := Machine.run_invariant (P := Inv K)
    (fun _ op _ hi hstep => inv_step hK op hi hstep) (inv_init K) hrun
  refine ⟨⟨hi.accounts, hi.disjoint⟩, ⟨fun b hb => ?_, hi.locked_owner⟩, fun htakes hnone => ?_⟩
  · exact ⟨hi.mapped_of_owned (flatMap_held_subset _ hb), hi.held_locked hb⟩
  · have hleaked : s.process.leaked = [] := by
      refine List.eq_nil_iff_forall_not_mem.mpr fun b hb => ?_
      obtain ⟨p, hdeclined⟩ := hi.leaked_declined b hb
      rw [htakes p b] at hdeclined
      cases hdeclined
    constructor
    · have haccounts := hi.accounts
      rw [hnone, hleaked] at haccounts
      exact List.perm_nil.mp haccounts
    · refine List.eq_nil_iff_forall_not_mem.mpr fun b hb => ?_
      rcases hi.locked_owner b hb with hheld | hb
      · rw [hnone] at hheld
        cases hheld
      · rw [hleaked] at hb
        cases hb

/-! ## A system with room for one lock -/

def linux : Target := ⟨.linux, 4096, isPowerOfTwo_smallPage⟩

/-- The end of what is mapped. -/
def topOf (p : OsProcess) : Nat := (p.mapped.map fun b => b.ptr + b.len).foldr max 4096

theorem le_topOf {p : OsProcess} {b : Block} (hb : b ∈ p.mapped) : b.ptr + b.len ≤ topOf p := by
  unfold topOf
  generalize p.mapped = bs at hb
  induction bs with
  | nil => cases hb
  | cons c cs ih =>
      rw [List.map_cons, List.foldr_cons]
      rcases List.mem_cons.mp hb with rfl | hb
      · exact le_max_left _ _
      · exact (ih hb).trans (le_max_right _ _)

theorem topOf_pos (p : OsProcess) : 0 < topOf p := by
  unfold topOf
  induction p.mapped with
  | nil => decide
  | cons c cs ih => exact lt_max_of_lt_right ih

/-- It maps above what is mapped, lets a process lock one range, and takes everything back. -/
def oneLock : Kernel where
  map := fun p _ _ => .ok ⟨topOf p, topOf_pos p⟩
  unmap := fun _ _ => none
  lock := fun p _ => if p.locked = [] then none else some 12
  unlock := fun _ _ => none
  mbind := fun _ _ _ => none

theorem oneLock_lawful : oneLock.Lawful where
  map_fresh := by
    intro p len flags place b hmap hb
    cases hmap
    exact Block.disjoint_of_le (Or.inr (le_topOf hb))

/-- The second locked mapping is refused, and only the first is there. -/
theorem run_accounts_oneLock : ∃ s,
    Machine.run (step 64 linux oneLock) ⟨.init, []⟩
        [.lockedMmapBacked 100, .lockedMmapBacked 100, .mmapBacked 5000 false [],
          .splitMetadata 0 1] = some s ∧
      s.process.lastOsError = some 12 ∧ s.process.mapped.length = 3 ∧
      s.process.mapped.Perm (s.live.flatMap owned ++ s.process.leaked) := by
  have hsome : (Machine.run (step 64 linux oneLock) ⟨.init, []⟩
      [.lockedMmapBacked 100, .lockedMmapBacked 100, .mmapBacked 5000 false [],
        .splitMetadata 0 1]).map (fun s => (s.process.lastOsError, s.process.mapped.length)) =
      some (some 12, 3) := by decide +kernel
  obtain ⟨s, hrun, heq⟩ := Option.map_eq_some_iff.mp hsome
  obtain ⟨hslot, hlen⟩ := Prod.mk.inj heq
  exact ⟨s, hrun, hslot, hlen, (run_accounts oneLock_lawful hrun).1.1⟩

end RegionRun

end ForgeAlloc
