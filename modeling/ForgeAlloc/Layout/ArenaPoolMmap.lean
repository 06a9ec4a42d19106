import ForgeAlloc.Hardening.OsRegionRun
import ForgeAlloc.Layout.ArenaPoolRun

set_option autoImplicit false

/-! # A pool of mappings

`ArenaPool` over `MmapBacked`, in a process. The account of the pool is that of the process: the
mappings that the arenas own are mapped, and nobody else owns them. From this follows that arenas do
not overlap, and what the clients of the pool need.
-/

namespace ForgeAlloc

open MachineInt ByteMemory

variable {w : Nat} {t : Target} {K : Kernel}

namespace MmapBacked

/-- A factory that maps, and the drop of a mapping. -/
def mappings (w : Nat) (t : Target) (K : Kernel) (size : OsProcess → Nat)
    (lazyCommit : OsProcess → Bool) (answers : OsProcess → List Bool) :
    Backings MmapBacked OsProcess where
  mint := fun p => withFlagsIn w t K (size p) (lazyCommit p) (answers p) p
  drop := MmapBacked.drop K

def pageRelease (w : Nat) (os : Os) : PageRelease MmapBacked := ⟨region, releasePages w os⟩

theorem pageRelease_lawful (w : Nat) (os : Os) : (pageRelease w os).Lawful (range w os) where
  region_eq := fun _ => rfl
  releasePages_subset := by
    intro m c d hrelease
    change releasePages w os c m = some d at hrelease
    unfold releasePages at hrelease
    split at hrelease
    · simp only at hrelease
      split at hrelease
      · cases hrelease
      · cases hrelease
        refine Set.Ico_subset_Ico_right ?_
        -- the sum may saturate, but not above what was asked for
        have hsat : saturatingAdd w (c.ptr - m.ptr) c.len ≤ c.ptr - m.ptr + c.len := min_le_left _ _
        simp only
        omega
    · cases hrelease
      exact Set.Subset.rfl

theorem region_osCommit (w : Nat) (os : Os) (off len : Nat) (s : MmapBacked) :
    (osCommit w os off len s).2.region = s.region := by
  obtain ⟨ok, committed, system, hcommit, -⟩ := osCommit_eq w os off len s
  rw [hcommit]
  rfl

/-- The record of a process in which others own `owned` and keep `held` locked. -/
def InProcess (K : Kernel) (owned held : List Block) (p : OsProcess) (bs : List MmapBacked) : Prop :=
  OsProcess.Inv K p (bs.map region ++ owned) held

variable {owned held : List Block} {size : OsProcess → Nat} {lazyCommit : OsProcess → Bool}
  {answers : OsProcess → List Bool}

/-- **The process is an account** of the mappings of a pool. -/
theorem account (hK : K.Lawful) (hsub : held ⊆ owned) (os : Os) :
    Account (range w os) (mappings w t K size lazyCommit answers) (InProcess K owned held) where
  perm := fun hperm hacc =>
    OsProcess.Inv.perm hacc ((hperm.symm.map region).append_right owned) (List.Perm.refl _)
  mint_some := fun hmint hacc => Region.inv_withFlagsIn hK hacc hmint
  mint_none := fun hmint hacc => Region.inv_withFlagsIn_none hacc hmint
  drop := by
    intro p m bs hacc
    have hsub' : held ⊆ bs.map region ++ owned := fun b hb => List.mem_append_right _ (hsub hb)
    exact Region.inv_drop (r := .mmapBacked m) hacc hsub'
  commit := by
    intro p m bs off len hacc
    have hsame : ((range w os).commit off len m).2.region = m.region :=
      region_osCommit w os off len m
    rw [InProcess, List.map_cons, hsame]
    exact hacc

theorem separate_of_inProcess {os : Os} {p : OsProcess} {bs : List MmapBacked}
    (hacc : InProcess K owned held p bs) : PoolRun.Separate (range w os) bs := by
  have hsymm : ∀ {b c : Block}, Disjoint b.bytes c.bytes → Disjoint c.bytes b.bytes :=
    fun h => h.symm
  have hall : (bs.map region ++ owned ++ p.leaked).Pairwise
      fun b c => Disjoint b.bytes c.bytes := (hacc.accounts.pairwise_iff hsymm).mp hacc.disjoint
  have hbs : (bs.map region).Pairwise fun b c => Disjoint b.bytes c.bytes :=
    (List.pairwise_append.mp (List.pairwise_append.mp hall).1).1
  rw [List.pairwise_map] at hbs
  exact hbs

end MmapBacked

namespace PoolRun

open MmapBacked

variable {size : OsProcess → Nat} {lazyCommit : OsProcess → Bool} {answers : OsProcess → List Bool}
  {owned held : List Block} {p : OsProcess} {cap : Nat} {m : Mem} {ops : List (PoolOp w)}
  {s : PoolRun MmapBacked OsProcess}

end PoolRun

end ForgeAlloc
