import ForgeAlloc.Backing.Protect

set_option autoImplicit false

/-! # Mapping, locking and the error slot

The backings of a process map, lock, unlock and unmap ranges of addresses. What the system answers
is up to a `Kernel`, which may look at everything the process has done so far. All that is assumed of
it is that it maps where nothing is mapped (`Kernel.Lawful`).

A call that is declined leaves its code in the error slot of the thread. An unmapping that is
declined leaves a mapping that nobody owns (`leaked`).

`OsProcess.Inv` says whose the mappings and the locks are: all that is mapped has an owner or has
leaked, and so has all that is locked. Each owner's acts keep it: `Inv.map`, `Inv.lock`, `Inv.unmap`
and `Inv.unlock_unmap`.
-/

namespace ForgeAlloc

open MachineInt ByteMemory

/-- The platforms that the backings tell apart. -/
inductive Platform
  | linux
  | macosX86
  | windows
  | otherUnix
  deriving DecidableEq, Repr

structure Target where
  platform : Platform
  pageSize : Nat
  pageSize_pow : pageSize.isPowerOfTwo

def Target.os (t : Target) : Os := ⟨t.platform == .windows, t.pageSize, t.pageSize_pow⟩

structure OsProcess where
  mapped : List Block
  locked : List Block
  /-- The mappings that the system declined to take back. -/
  leaked : List Block
  /-- `LAST_OS_ERROR`. -/
  lastOsError : Option Nat
  /-- Every code that went to the slot because something failed, the newest first. -/
  failures : List Nat
  deriving DecidableEq

/-- The answers of the system: the code of a call that is declined, and the place of a mapping. -/
structure Kernel where
  /-- A mapping of a length, with the flags that select large pages (`0` for ordinary ones). -/
  map : OsProcess → Nat → Nat → Except Nat ℕ+
  unmap : OsProcess → Block → Option Nat
  lock : OsProcess → Block → Option Nat
  unlock : OsProcess → Block → Option Nat
  /-- `mbind` with a mode, a node mask and the width of the mask. -/
  mbind : OsProcess → Block → Nat × Nat × Nat → Option Nat

/-- A mapping that no address was asked for goes where nothing is mapped. -/
structure Kernel.Lawful (K : Kernel) : Prop where
  map_fresh : ∀ {p len flags place b}, K.map p len flags = .ok place → b ∈ p.mapped →
    Disjoint (Block.bytes ⟨place, len⟩) b.bytes

namespace OsProcess

/-- A process that has mapped nothing. -/
def init : OsProcess := ⟨[], [], [], none, []⟩

/-! ## The slot -/

/-- `capture_os_error` after a call that was declined with `code`. -/
def captureOsError (code : Nat) (p : OsProcess) : OsProcess :=
  { p with lastOsError := some code, failures := code :: p.failures }

/-- `capture_synthetic_einval`. -/
def captureSyntheticEinval (t : Target) (p : OsProcess) : OsProcess :=
  p.captureOsError (einval t.os)

/-- `mmap_set_last_os_error`. -/
def mmapSetLastOsError (code : Nat) (p : OsProcess) : OsProcess :=
  { p with lastOsError := some code }

/-! ## The calls -/

def osMap (K : Kernel) (len flags : Nat) (p : OsProcess) : Option ℕ+ × OsProcess :=
  match K.map p len flags with
  | .error code => (none, p.captureOsError code)
  | .ok place => (some place, { p with mapped := ⟨place, len⟩ :: p.mapped })

/-- `os_unmap`. With a mapping its locks go as well. -/
def osUnmap (K : Kernel) (b : Block) (p : OsProcess) : OsProcess :=
  match K.unmap p b with
  | some code => { p.captureOsError code with leaked := b :: p.leaked }
  | none => { p with mapped := p.mapped.erase b, locked := p.locked.erase b }

def osLock (K : Kernel) (b : Block) (p : OsProcess) : Bool × OsProcess :=
  match K.lock p b with
  | some code => (false, p.captureOsError code)
  | none => (true, { p with locked := b :: p.locked })

def osUnlock (K : Kernel) (b : Block) (p : OsProcess) : OsProcess :=
  match K.unlock p b with
  | some code => p.captureOsError code
  | none => { p with locked := p.locked.erase b }

/-- `apply_policy`: there is a call for it on Linux only. -/
def applyPolicy (t : Target) (K : Kernel) (b : Block) (args : Nat × Nat × Nat) (p : OsProcess) :
    Bool × OsProcess :=
  if t.platform = .linux then
    match K.mbind p b args with
    | some code => (false, p.captureOsError code)
    | none => (true, p)
  else (true, p)

/-! ## Whose the mappings are -/

/-- The process with its owners: `owned` are the mappings of the values that are alive, and `held`
those that these keep locked. -/
structure Inv (K : Kernel) (p : OsProcess) (owned held : List Block) : Prop where
  accounts : p.mapped.Perm (owned ++ p.leaked)
  disjoint : p.mapped.Pairwise fun b c => Disjoint b.bytes c.bytes
  len_pos : ∀ b ∈ p.mapped, 0 < b.len
  held_nodup : held.Nodup
  held_owned : held ⊆ owned
  held_locked : held ⊆ p.locked
  locked_nodup : p.locked.Nodup
  locked_owner : ∀ b ∈ p.locked, b ∈ held ∨ b ∈ p.leaked
  leaked_declined : ∀ b ∈ p.leaked, ∃ p', (K.unmap p' b).isSome

/-- The same mappings and locks. -/
structure SameMappings (p q : OsProcess) : Prop where
  mapped : q.mapped = p.mapped
  locked : q.locked = p.locked
  leaked : q.leaked = p.leaked

variable {p q : OsProcess} {owned owned' held held' : List Block} {b : Block} {K : Kernel}

theorem SameMappings.refl (p : OsProcess) : SameMappings p p := ⟨rfl, rfl, rfl⟩

theorem sameMappings_captureOsError (code : Nat) (p : OsProcess) :
    SameMappings p (p.captureOsError code) := ⟨rfl, rfl, rfl⟩

theorem applyPolicy_cases (t : Target) (K : Kernel) (b : Block) (args : Nat × Nat × Nat)
    (p : OsProcess) : applyPolicy t K b args p = (true, p) ∨
      ∃ code, applyPolicy t K b args p = (false, p.captureOsError code) := by
  unfold applyPolicy
  split
  · split
    case h_1 code _ => exact Or.inr ⟨code, rfl⟩
    case h_2 => exact Or.inl rfl
  · exact Or.inl rfl

theorem inv_init (K : Kernel) : Inv K init [] [] where
  accounts := List.Perm.refl _
  disjoint := List.Pairwise.nil
  len_pos := List.forall_mem_nil _
  held_nodup := List.nodup_nil
  held_owned := List.Subset.refl _
  held_locked := List.Subset.refl _
  locked_nodup := List.nodup_nil
  locked_owner := List.forall_mem_nil _
  leaked_declined := List.forall_mem_nil _

/-- The invariant is about the mappings and the locks. -/
theorem Inv.congr (hi : Inv K p owned held) (hsame : SameMappings p q) : Inv K q owned held where
  accounts := by rw [hsame.mapped, hsame.leaked]; exact hi.accounts
  disjoint := by rw [hsame.mapped]; exact hi.disjoint
  len_pos := by rw [hsame.mapped]; exact hi.len_pos
  held_nodup := hi.held_nodup
  held_owned := hi.held_owned
  held_locked := by rw [hsame.locked]; exact hi.held_locked
  locked_nodup := by rw [hsame.locked]; exact hi.locked_nodup
  locked_owner := by rw [hsame.locked, hsame.leaked]; exact hi.locked_owner
  leaked_declined := by rw [hsame.leaked]; exact hi.leaked_declined

/-- In what order the owners are listed does not matter. -/
theorem Inv.perm (hi : Inv K p owned held) (howned : owned'.Perm owned) (hheld : held'.Perm held) :
    Inv K p owned' held' where
  accounts := hi.accounts.trans (howned.symm.append_right _)
  disjoint := hi.disjoint
  len_pos := hi.len_pos
  held_nodup := hheld.nodup_iff.mpr hi.held_nodup
  held_owned := fun _ hb => howned.mem_iff.mpr (hi.held_owned (hheld.mem_iff.mp hb))
  held_locked := fun _ hb => hi.held_locked (hheld.mem_iff.mp hb)
  locked_nodup := hi.locked_nodup
  locked_owner := fun c hc => (hi.locked_owner c hc).imp_left hheld.mem_iff.mpr
  leaked_declined := hi.leaked_declined

theorem Inv.nodup (hi : Inv K p owned held) : p.mapped.Nodup := by
  refine List.Pairwise.imp_of_mem (fun {b c} hb _ hdisj heq => ?_) hi.disjoint
  subst heq
  have hpos := hi.len_pos b hb
  rw [Block.disjoint_iff] at hdisj
  omega

/-- A mapping has one owner, and has not leaked. -/
theorem Inv.not_mem_of_cons (hi : Inv K p (b :: owned) held) : b ∉ owned ∧ b ∉ p.leaked := by
  have hnodup : (b :: owned ++ p.leaked).Nodup := hi.accounts.nodup_iff.mp hi.nodup
  rw [List.cons_append, List.nodup_cons, List.mem_append] at hnodup
  exact not_or.mp hnodup.1

theorem Inv.mapped_of_owned (hi : Inv K p owned held) (hb : b ∈ owned) : b ∈ p.mapped :=
  hi.accounts.mem_iff.mpr (List.mem_append_left _ hb)

/-- **The system maps a range.** -/
theorem Inv.map (hK : K.Lawful) (hi : Inv K p owned held) {len flags : Nat} (hlen : 0 < len)
    {place : ℕ+} (hmap : osMap K len flags p = (some place, q)) :
    Inv K q (⟨place, len⟩ :: owned) held := by
  unfold osMap at hmap
  split at hmap
  case h_1 => cases hmap
  case h_2 place' hok =>
      cases hmap
      exact
        { accounts := hi.accounts.cons _
          disjoint := List.pairwise_cons.mpr ⟨fun c hc => hK.map_fresh hok hc, hi.disjoint⟩
          len_pos := List.forall_mem_cons.mpr ⟨hlen, hi.len_pos⟩
          held_nodup := hi.held_nodup
          held_owned := fun c hc => List.mem_cons_of_mem _ (hi.held_owned hc)
          held_locked := hi.held_locked
          locked_nodup := hi.locked_nodup
          locked_owner := hi.locked_owner
          leaked_declined := hi.leaked_declined }

theorem eq_capture_of_osMap_none {len flags : Nat} (hmap : osMap K len flags p = (none, q)) :
    ∃ code, q = p.captureOsError code := by
  unfold osMap at hmap
  split at hmap
  case h_1 code _ =>
      cases hmap
      exact ⟨code, rfl⟩
  case h_2 => cases hmap

/-- **The owner locks its mapping.** -/
theorem Inv.lock (hi : Inv K p (b :: owned) held) (hheld : b ∉ held)
    (hlock : osLock K b p = (true, q)) : Inv K q (b :: owned) (b :: held) := by
  unfold osLock at hlock
  split at hlock
  case h_1 => cases hlock
  case h_2 =>
      cases hlock
      have hfree : b ∉ p.locked := fun hmem => by
        rcases hi.locked_owner b hmem with hb | hb
        · exact hheld hb
        · exact hi.not_mem_of_cons.2 hb
      exact
        { accounts := hi.accounts
          disjoint := hi.disjoint
          len_pos := hi.len_pos
          held_nodup := List.nodup_cons.mpr ⟨hheld, hi.held_nodup⟩
          held_owned := List.cons_subset.mpr ⟨List.mem_cons_self, hi.held_owned⟩
          held_locked := List.cons_subset_cons _ hi.held_locked
          locked_nodup := List.nodup_cons.mpr ⟨hfree, hi.locked_nodup⟩
          locked_owner := List.forall_mem_cons.mpr
            ⟨Or.inl List.mem_cons_self,
              fun c hc => (hi.locked_owner c hc).imp_left (List.mem_cons_of_mem _)⟩
          leaked_declined := hi.leaked_declined }

/-- **The owner unmaps**, after what locks it had are gone or left to the unmapping. -/
theorem Inv.unmap (hi : Inv K p (b :: owned) held')
    (hnodup : held.Nodup) (howned : held ⊆ owned) (hlocked : held ⊆ p.locked)
    (howner : ∀ c ∈ p.locked, c = b ∨ c ∈ held ∨ c ∈ p.leaked) :
    Inv K (osUnmap K b p) owned held := by
  obtain ⟨hfresh, -⟩ := hi.not_mem_of_cons
  have hne : ∀ c ∈ held, c ≠ b := fun c hc heq => hfresh (heq ▸ howned hc)
  unfold osUnmap
  split
  case h_1 code hdeclined =>
      exact
        { accounts := hi.accounts.trans List.perm_middle.symm
          disjoint := hi.disjoint
          len_pos := hi.len_pos
          held_nodup := hnodup
          held_owned := howned
          held_locked := hlocked
          locked_nodup := hi.locked_nodup
          locked_owner := by
            intro c hc
            rcases howner c hc with rfl | hc | hc
            · exact Or.inr List.mem_cons_self
            · exact Or.inl hc
            · exact Or.inr (List.mem_cons_of_mem _ hc)
          leaked_declined := List.forall_mem_cons.mpr ⟨⟨p, hdeclined ▸ rfl⟩, hi.leaked_declined⟩ }
  case h_2 =>
      have hperm := hi.accounts.erase b
      rw [List.cons_append, List.erase_cons_head] at hperm
      exact
        { accounts := hperm
          disjoint := hi.disjoint.sublist List.erase_sublist
          len_pos := fun c hc => hi.len_pos c (List.mem_of_mem_erase hc)
          held_nodup := hnodup
          held_owned := howned
          held_locked := fun c hc => (List.mem_erase_of_ne (hne c hc)).mpr (hlocked hc)
          locked_nodup := hi.locked_nodup.sublist List.erase_sublist
          locked_owner := by
            intro c hc
            obtain ⟨hcb, hc⟩ := hi.locked_nodup.mem_erase_iff.mp hc
            exact (howner c hc).resolve_left hcb
          leaked_declined := hi.leaked_declined }

/-- A mapping that its owner did not lock. -/
theorem Inv.unmap_unlocked (hi : Inv K p (b :: owned) held) (hheld : b ∉ held) :
    Inv K (osUnmap K b p) owned held := by
  refine hi.unmap hi.held_nodup (fun c hc => ?_) hi.held_locked
    fun c hc => Or.inr (hi.locked_owner c hc)
  rcases List.mem_cons.mp (hi.held_owned hc) with rfl | hc
  · exact absurd hc hheld
  · exact hc

/-- **The owner of a locked mapping unlocks and unmaps it.** A lock that could not be taken off goes
with the mapping, or leaks with it. -/
theorem Inv.unlock_unmap (hi : Inv K p (b :: owned) (b :: held)) :
    Inv K (osUnmap K b (osUnlock K b p)) owned held := by
  obtain ⟨hheld, hnodup⟩ := List.nodup_cons.mp hi.held_nodup
  have howned : held ⊆ owned := by
    intro c hc
    rcases List.mem_cons.mp (hi.held_owned (List.mem_cons_of_mem _ hc)) with rfl | hc
    · exact absurd hc hheld
    · exact hc
  have hlocked : held ⊆ p.locked := fun c hc => hi.held_locked (List.mem_cons_of_mem _ hc)
  have howner : ∀ c ∈ p.locked, c = b ∨ c ∈ held ∨ c ∈ p.leaked := by
    intro c hc
    rcases hi.locked_owner c hc with hc | hc
    · exact (List.mem_cons.mp hc).imp_right Or.inl
    · exact Or.inr (Or.inr hc)
  unfold osUnlock
  split
  case h_1 code _ =>
      have hi' := hi.congr (sameMappings_captureOsError code p)
      exact hi'.unmap hnodup howned hlocked howner
  case h_2 =>
      -- without the lock it is a mapping like any other
      have hkept : held ⊆ p.locked.erase b := by
        intro c hc
        have hne : c ≠ b := fun heq => hheld (heq ▸ hc)
        exact (List.mem_erase_of_ne hne).mpr (hlocked hc)
      have hi' : Inv K { p with locked := p.locked.erase b } (b :: owned) held :=
        { accounts := hi.accounts
          disjoint := hi.disjoint
          len_pos := hi.len_pos
          held_nodup := hnodup
          held_owned := fun c hc => List.mem_cons_of_mem _ (howned hc)
          held_locked := hkept
          locked_nodup := hi.locked_nodup.sublist List.erase_sublist
          locked_owner := by
            intro c hc
            obtain ⟨hcb, hc⟩ := hi.locked_nodup.mem_erase_iff.mp hc
            exact (howner c hc).resolve_left hcb
          leaked_declined := hi.leaked_declined }
      exact hi'.unmap_unlocked hheld

end OsProcess

end ForgeAlloc
