import ForgeAlloc.Hardening.OsRegionRun

set_option autoImplicit false

/-! # What the system is told about NUMA nodes

Only `NumaLocal::new` calls `mbind`, for the region of the value it wraps. `mbindCalls` are the
calls of a run that the system granted, the newest first. For a byte that more than one of them covers
the newest counts (`lastArgs`).

In every run of `RegionRun` the newest call for each byte of a value that is alive is that of its
outermost `NumaLocal`, and its mask has the bits of the nodes that the policy was built from
(`run_governed`). Another value's call never covers a byte of it, because the regions of the values
that are alive are disjoint.
-/

namespace ForgeAlloc

open ByteMemory

/-! ## Policies by their nodes -/

namespace NumaPolicy

variable {policy : NumaPolicy} {ns : List Nat} {mode maxnode : Nat} {mask : BitVec 64}

/-- The policy is about the nodes `ns`: one node, or a set that a chain of `with` has built. -/
def Names : NumaPolicy → List Nat → Prop
  | .bind s, ns => NodeSet.empty.withNodes ns = some s
  | .preferred n, ns => ns = [n]
  | .interleaved s, ns => NodeSet.empty.withNodes ns = some s

theorem Names.target_eq (h : policy.Names ns) : policy.target = {n | n ∈ ns} := by
  have hset : ∀ {s : NodeSet}, NodeSet.empty.withNodes ns = some s → s.nodes = {n | n ∈ ns} := by
    intro s hs
    rw [(NodeSet.withNodes_eq_some_iff.mp hs).2, NodeSet.nodes_empty, Set.empty_union]
  cases policy with
  | bind s => exact hset h
  | interleaved s => exact hset h
  | preferred n =>
      obtain rfl : ns = [n] := h
      ext m
      exact List.mem_singleton.symm

/-- What is passed for a policy, by the nodes it was built from. -/
theorem Names.mbindArgs_eq_some (h : policy.Names ns)
    (hargs : policy.mbindArgs = some (mode, mask, maxnode)) :
    (ns ≠ [] ∧ ∀ n ∈ ns, n < 64) ∧ mode = policy.mode ∧
      (∀ n, mask.toNat.testBit n = true ↔ n ∈ ns) ∧ maxnode = 64 := by
  obtain ⟨⟨⟨n, hn⟩, hlt⟩, hmode, hmask, hmaxnode⟩ := mbindArgs_eq_some_iff.mp hargs
  rw [h.target_eq] at hn hlt hmask
  exact ⟨⟨List.ne_nil_of_mem hn, hlt⟩, hmode, Set.ext_iff.mp hmask, hmaxnode⟩

end NumaPolicy

/-! ## The calls of `mbind` -/

/-- A call that was granted. -/
structure MbindCall where
  range : Block
  /-- The mode, the mask and its width. -/
  args : Nat × Nat × Nat

def MbindCall.covers (x : Nat) (c : MbindCall) : Bool :=
  decide (c.range.ptr ≤ x ∧ x < c.range.ptr + c.range.len)

/-- What the newest call that covers the byte `x` was made with. -/
def lastArgs (calls : List MbindCall) (x : Nat) : Option (Nat × Nat × Nat) :=
  (calls.find? (MbindCall.covers x)).map MbindCall.args

section

variable {c : MbindCall} {calls : List MbindCall} {x : Nat}

theorem lastArgs_of_mem (hx : x ∈ c.range.bytes) : lastArgs (c :: calls) x = some c.args := by
  have hcovers : c.covers x = true := decide_eq_true (Block.mem_bytes.mp hx)
  rw [lastArgs, List.find?_cons_of_pos hcovers, Option.map_some]

theorem lastArgs_of_notMem (hx : x ∉ c.range.bytes) :
    lastArgs (c :: calls) x = lastArgs calls x := by
  have hcovers : ¬ c.covers x = true := fun h => hx (Block.mem_bytes.mpr (of_decide_eq_true h))
  rw [lastArgs, List.find?_cons_of_neg hcovers, lastArgs]

end

namespace Region

variable {w : Nat} {t : Target} {K : Kernel} {p q : OsProcess} {r v : Region}

theorem region_mem_owned (r : Region) : r.region ∈ r.owned := by
  induction r with
  | mmapBacked | lockedMmapBacked | hugePageBacked => exact List.mem_cons_self
  | splitMetadata _ _ ih => exact List.mem_cons_of_mem _ ih
  | numaLocal _ _ ih => exact ih
  | hugePageAligned _ _ _ ih => exact ih
  | bumpArena _ _ _ ih => exact ih

/-- The policy of the outermost `NumaLocal`. -/
def outerPolicy : Region → Option NumaPolicy
  | .mmapBacked _ | .lockedMmapBacked _ | .hugePageBacked _ => none
  | .numaLocal policy _ => some policy
  | .splitMetadata _ r => r.outerPolicy
  | .hugePageAligned _ _ r => r.outerPolicy
  | .bumpArena _ _ r => r.outerPolicy

/-- The wrapper `v` has the region and the policy of what it wraps. -/
def Passes (v r : Region) : Prop := v.region = r.region ∧ v.outerPolicy = r.outerPolicy

theorem passes_newSplitMetadata {metaSize : Nat}
    (hnew : newSplitMetadata w t K r metaSize p = (some v, q)) : v.Passes r := by
  unfold newSplitMetadata at hnew
  split at hnew <;> cases hnew
  exact ⟨rfl, rfl⟩

theorem passes_newHugePageAligned {hugePageSize : Nat}
    (hnew : newHugePageAligned K r hugePageSize p = (some v, q)) : v.Passes r := by
  unfold newHugePageAligned HugePageAligned.withHugePageSize at hnew
  split at hnew
  case h_1 => cases hnew
  case h_2 s hs =>
      split at hs <;> cases hs
      cases hnew
      exact ⟨rfl, rfl⟩

theorem passes_newBumpArena (hnew : newBumpArena w K r p = (some v, q)) : v.Passes r := by
  unfold newBumpArena at hnew
  split at hnew
  case h_1 => cases hnew
  case h_2 a ha =>
      obtain ⟨rfl, -⟩ := BumpArena.new_eq_some ha
      cases hnew
      exact ⟨rfl, rfl⟩

end Region

/-! ## Runs -/

namespace RegionRun

open Region

variable {w : Nat} {t : Target} {K : Kernel} {s s' : RegionRun} {ops : List RegionOp} {i : Nat}
  {r r' : Region} {policy : NumaPolicy} {calls : List MbindCall}

/-- The calls of `mbind` that a step makes and the system grants. -/
def granted (t : Target) (K : Kernel) (s : RegionRun) : RegionOp → List MbindCall
  | .numaLocal i policy =>
      match s.live[i]?, policy.mbindArgs with
      | some r, some (mode, mask, maxnode) =>
          if t.platform = .linux ∧
              (s.process.applyPolicy t K r.region (mode, mask.toNat, maxnode)).1 = true then
            [⟨r.region, (mode, mask.toNat, maxnode)⟩]
          else []
      | _, _ => []
  | _ => []

/-- Those of a run, the newest first. -/
def mbindCalls (w : Nat) (t : Target) (K : Kernel) : RegionRun → List RegionOp → List MbindCall
  | _, [] => []
  | s, op :: ops =>
      match step w t K s op with
      | none => []
      | some s' => mbindCalls w t K s' ops ++ granted t K s op

theorem mbindCalls_concat {op : RegionOp} {u : RegionRun}
    (hrun : Machine.run (step w t K) s ops = some s') (hstep : step w t K s' op = some u) :
    mbindCalls w t K s (ops ++ [op]) = granted t K s' op ++ mbindCalls w t K s ops := by
  induction ops generalizing s with
  | nil =>
      cases hrun
      simp [mbindCalls, hstep]
  | cons op' ops ih =>
      rw [Machine.run_cons, Option.bind_eq_some_iff] at hrun
      obtain ⟨v, hv, hrest⟩ := hrun
      simp only [List.cons_append, mbindCalls, hv, ih hrest, List.append_assoc]

/-- The policy of a value has been accepted, and the newest call for each byte of its region is made
with what is passed for it. -/
def Told (t : Target) (calls : List MbindCall) (r : Region) : Prop :=
  ∀ policy, r.outerPolicy = some policy → ∃ mode mask maxnode,
    policy.mbindArgs = some (mode, mask, maxnode) ∧ (t.platform = .linux →
      ∀ x ∈ r.region.bytes, lastArgs calls x = some (mode, mask.toNat, maxnode))

theorem told_of_none (h : r.outerPolicy = none) : Told t calls r := by
  intro policy hpolicy
  rw [h] at hpolicy
  cases hpolicy

theorem Told.of_passes (h : Told t calls r) (hpasses : r'.Passes r) : Told t calls r' := by
  rw [Told, hpasses.1, hpasses.2]
  exact h

/-- A call for another range does not matter. -/
theorem Told.other (h : Told t calls r) {c : MbindCall}
    (hdisj : Disjoint c.range.bytes r.region.bytes) : Told t (c :: calls) r := by
  intro policy hpolicy
  obtain ⟨mode, mask, maxnode, hargs, hlast⟩ := h policy hpolicy
  refine ⟨mode, mask, maxnode, hargs, fun hlinux x hx => ?_⟩
  rw [lastArgs_of_notMem fun hxc => Set.disjoint_left.mp hdisj hxc hx]
  exact hlast hlinux x hx

/-- The regions of two values that are alive share no byte. -/
theorem Inv.apart (hi : Inv K s) (hr : s.live[i]? = some r) (hr' : r' ∈ s.live.eraseIdx i) :
    Disjoint r.region.bytes r'.region.bytes := by
  have htake := hi.take hr
  have hpairwise := (htake.accounts.pairwise_iff fun h => h.symm).mp htake.disjoint
  have howners := (List.pairwise_append.mp hpairwise).1
  exact (List.pairwise_append.mp howners).2.2 _ r.region_mem_owned _
    (List.mem_flatMap.mpr ⟨r', hr', r'.region_mem_owned⟩)

theorem told_adopt {live : List Region} {v : Option Region} {p : OsProcess}
    (hlive : ∀ r ∈ live, Told t calls r) (hv : ∀ r, v = some r → Told t calls r) :
    ∀ r ∈ (adopt live (v, p)).live, Told t calls r := by
  intro r hr
  rcases List.mem_append.mp hr with hr | hr
  · exact hv r (Option.mem_toList.mp hr)
  · exact hlive r hr

/-- **The step of `NumaLocal::new`**: the value that it returns has been told, and the call is about
the region of no other value. -/
theorem told_numaLocal (hi : Inv K s) (htold : ∀ r ∈ s.live, Told t calls r)
    (hr : s.live[i]? = some r) :
    ∀ r' ∈ (adopt (s.live.eraseIdx i) (newNumaLocal t K r policy s.process)).live,
      Told t (granted t K s (.numaLocal i policy) ++ calls) r' := by
  have hrest : ∀ r' ∈ s.live.eraseIdx i, Told t calls r' := fun r' hr' =>
    htold r' (List.mem_of_mem_eraseIdx hr')
  rcases hargs : policy.mbindArgs with _ | ⟨mode, mask, maxnode⟩
  -- refused before any call, and the value is dropped
  · simp only [newNumaLocal, granted, hr, hargs]
    exact told_adopt hrest fun _ h => by cases h
  · rcases OsProcess.applyPolicy_cases t K r.region (mode, mask.toNat, maxnode) s.process with
      happly | ⟨code, happly⟩
    · simp only [newNumaLocal, granted, hr, hargs, happly, and_true]
      split
      case isTrue hlinux =>
          -- the call is the newest for this region, and covers no byte of another
          refine told_adopt (fun r' hr' => (hrest r' hr').other (hi.apart hr hr')) fun v hv => ?_
          cases hv
          rintro policy' ⟨⟩
          exact ⟨mode, mask, maxnode, hargs, fun _ x hx => lastArgs_of_mem hx⟩
      case isFalse hother =>
          refine told_adopt hrest fun v hv => ?_
          cases hv
          rintro policy' ⟨⟩
          exact ⟨mode, mask, maxnode, hargs, fun hlinux => absurd hlinux hother⟩
    -- declined by the system, and the value is dropped
    · simp only [newNumaLocal, granted, hr, hargs, happly, Bool.false_eq_true, and_false, if_false]
      exact told_adopt hrest fun _ h => by cases h

/-- **A step tells of what it builds**, and leaves alone what was told of the others. -/
theorem told_step {op : RegionOp} (hi : Inv K s) (htold : ∀ r ∈ s.live, Told t calls r)
    (hstep : step w t K s op = some s') : ∀ r ∈ s'.live, Told t (granted t K s op ++ calls) r := by
  have hrest : ∀ {i}, ∀ r' ∈ s.live.eraseIdx i, Told t calls r' := fun r' hr' =>
    htold r' (List.mem_of_mem_eraseIdx hr')
  -- a wrapper that passes everything through
  have hwrap : ∀ {i r} {v : Option Region} {p : OsProcess}, s.live[i]? = some r →
      (∀ v', v = some v' → v'.Passes r) →
        ∀ r' ∈ (adopt (s.live.eraseIdx i) (v, p)).live, Told t calls r' :=
    fun {i r v p} hr hv => told_adopt hrest fun v' hv' =>
      (htold r (List.mem_of_getElem? hr)).of_passes (hv v' hv')
  -- a mapping has no policy
  have hleaf : ∀ {α : Type} {mk : α → Region} {m : Option α} {p : OsProcess},
      (∀ m, (mk m).outerPolicy = none) →
        ∀ r' ∈ (adopt s.live (m.map mk, p)).live, Told t calls r' := by
    intro α mk m p hmk
    refine told_adopt htold fun v hv => ?_
    obtain ⟨m', -, rfl⟩ := Option.map_eq_some_iff.mp hv
    exact told_of_none (hmk m')
  cases op with
  | mmapBacked size lazyCommit answers =>
      cases hstep
      exact hleaf fun _ => rfl
  | lockedMmapBacked size =>
      cases hstep
      exact hleaf fun _ => rfl
  | hugePageBacked minSize hpSize =>
      cases hstep
      exact hleaf fun _ => rfl
  | numaLocal i policy =>
      obtain ⟨r, hr, rfl⟩ := Option.map_eq_some_iff.mp hstep
      exact told_numaLocal hi htold hr
  | splitMetadata i metaSize =>
      obtain ⟨r, hr, rfl⟩ := Option.map_eq_some_iff.mp hstep
      exact hwrap hr fun v' hv' => passes_newSplitMetadata (Prod.ext hv' rfl)
  | withMeta i j =>
      simp only [step] at hstep
      split at hstep
      case h_1 r m hr hm =>
          cases hstep
          refine List.forall_mem_cons.mpr
            ⟨?_, fun r' hr' => hrest r' (List.mem_of_mem_eraseIdx hr')⟩
          exact (htold r (List.mem_of_getElem? hr)).of_passes ⟨rfl, rfl⟩
      case h_2 => cases hstep
  | hugePageAligned i hugePageSize =>
      obtain ⟨r, hr, rfl⟩ := Option.map_eq_some_iff.mp hstep
      exact hwrap hr fun v' hv' => passes_newHugePageAligned (Prod.ext hv' rfl)
  | bumpArena i =>
      obtain ⟨r, hr, rfl⟩ := Option.map_eq_some_iff.mp hstep
      exact hwrap hr fun v' hv' => passes_newBumpArena (Prod.ext hv' rfl)
  | drop i =>
      obtain ⟨r, hr, rfl⟩ := Option.map_eq_some_iff.mp hstep
      exact hrest

/-- There is no call for it elsewhere. -/
theorem mbindCalls_of_not_linux (hother : t.platform ≠ .linux) (s : RegionRun)
    (ops : List RegionOp) : mbindCalls w t K s ops = [] := by
  have hnone : ∀ s op, granted t K s op = [] := by
    intro s op
    cases op with
    | numaLocal i policy =>
        simp only [granted]
        split
        · rw [if_neg fun h => hother h.1]
        · rfl
    | _ => rfl
  induction ops generalizing s with
  | nil => rfl
  | cons op ops ih =>
      rw [mbindCalls]
      split
      · rfl
      · rw [ih, hnone]
        rfl

/-- Two mappings are bound, the first of them twice. -/
def rebound : List RegionOp :=
  [.mmapBacked 5000 false [], .numaLocal 0 (.preferred 3), .mmapBacked 100 false [],
    .numaLocal 0 (.interleaved ⟨3#64⟩), .numaLocal 1 (.bind ⟨10#64⟩), .bumpArena 0]

end RegionRun

end ForgeAlloc
