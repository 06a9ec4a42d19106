import Mathlib

set_option autoImplicit false

/-! # NUMA policies

A `NodeSet` is a word with a bit for each node. `mbindArgs` turns a policy into the arguments of
`mbind`: the mode, the word and its width. It rejects a policy that names no node, or a node without
a bit.

`withNodes_eq_some_iff` says what a set is that was built node by node, and `mbindArgs_eq_some_iff`
what is passed for a policy.
-/

namespace ForgeAlloc

structure NodeSet where
  mask : BitVec 64
  deriving DecidableEq

namespace NodeSet

def empty : NodeSet := ⟨0#64⟩

def single (node : Nat) : Option NodeSet := if 64 ≤ node then none else some ⟨1#64 <<< node⟩

/-- `NodeSet::with`. -/
def withNode (s : NodeSet) (node : Nat) : Option NodeSet :=
  if 64 ≤ node then none else some ⟨s.mask ||| 1#64 <<< node⟩

def isEmpty (s : NodeSet) : Bool := s.mask == 0#64

def mbindMaxnode (_ : NodeSet) : Nat := 64

/-- A chain of `with`. -/
def withNodes (s : NodeSet) (nodes : List Nat) : Option NodeSet := nodes.foldlM withNode s

/-- The nodes with their bit set. -/
def nodes (s : NodeSet) : Set Nat := {n | s.mask.getLsbD n = true}

variable {s s' : NodeSet} {n node : Nat}

theorem mem_nodes : n ∈ s.nodes ↔ s.mask.getLsbD n = true := Iff.rfl

theorem lt_of_mem_nodes (h : n ∈ s.nodes) : n < 64 := BitVec.lt_of_getLsbD h

theorem getLsbD_one_shiftLeft (hnode : node < 64) : (1#64 <<< node).getLsbD n = true ↔ n = node := by
  rw [BitVec.getLsbD_shiftLeft, BitVec.getLsbD_one]
  simp only [Bool.and_eq_true, Bool.not_eq_true', decide_eq_true_eq, decide_eq_false_iff_not]
  omega

theorem nodes_empty : empty.nodes = ∅ := by
  ext n
  simp [nodes, empty]

theorem single_eq_some_iff : single node = some s ↔ node < 64 ∧ s.nodes = {node} := by
  unfold single
  split
  case isTrue hge =>
      exact ⟨fun h => (by cases h), fun h => absurd h.1 (by omega)⟩
  case isFalse hlt =>
      rw [Nat.not_le] at hlt
      have hnodes : (⟨1#64 <<< node⟩ : NodeSet).nodes = {node} := by
        ext n
        exact getLsbD_one_shiftLeft hlt
      constructor
      · intro h
        cases h
        exact ⟨hlt, hnodes⟩
      · rintro ⟨-, hset⟩
        refine congrArg some (congrArg NodeSet.mk (BitVec.eq_of_getLsbD_eq fun i _ => ?_))
        exact Bool.eq_iff_iff.mpr (Set.ext_iff.mp (hnodes.trans hset.symm) i)

theorem withNode_eq_some (h : s.withNode node = some s') :
    node < 64 ∧ s'.nodes = insert node s.nodes := by
  unfold withNode at h
  split at h
  case isTrue => cases h
  case isFalse hlt =>
      rw [Nat.not_le] at hlt
      cases h
      refine ⟨hlt, ?_⟩
      ext n
      rw [mem_nodes, BitVec.getLsbD_or, Bool.or_eq_true, getLsbD_one_shiftLeft hlt,
        Set.mem_insert_iff, mem_nodes, or_comm]

theorem withNode_eq_none_iff : s.withNode node = none ↔ 64 ≤ node := by
  unfold withNode
  split <;> simp_all

theorem ext_nodes (h : s.nodes = s'.nodes) : s = s' := by
  obtain ⟨mask⟩ := s
  obtain ⟨mask'⟩ := s'
  refine congrArg NodeSet.mk (BitVec.eq_of_getLsbD_eq fun i _ => ?_)
  exact Bool.eq_iff_iff.mpr (Set.ext_iff.mp h i)

/-- **A set that is built node by node** has the nodes it was given, and can be built exactly when
each of them has a bit. -/
theorem withNodes_eq_some_iff {ns : List Nat} :
    s.withNodes ns = some s' ↔ (∀ n ∈ ns, n < 64) ∧ s'.nodes = s.nodes ∪ {n | n ∈ ns} := by
  induction ns generalizing s with
  | nil =>
      have hnone : {n : Nat | n ∈ ([] : List Nat)} = ∅ := by
        ext n
        simp
      rw [withNodes, List.foldlM_nil, hnone, Set.union_empty]
      constructor
      · intro h
        cases h
        exact ⟨List.forall_mem_nil _, rfl⟩
      · intro h
        exact congrArg some (ext_nodes h.2.symm)
  | cons node ns ih =>
      rw [withNodes, List.foldlM_cons, List.forall_mem_cons]
      rcases hnode : s.withNode node with _ | t
      · have hge := withNode_eq_none_iff.mp hnode
        exact ⟨fun h => (by cases h), fun h => absurd h.1.1 (by omega)⟩
      · obtain ⟨hlt, hnodes⟩ := withNode_eq_some hnode
        have hunion : t.nodes ∪ {n | n ∈ ns} = s.nodes ∪ {n | n ∈ node :: ns} := by
          ext n
          simp only [hnodes, Set.mem_union, Set.mem_insert_iff, Set.mem_ofPred_eq, List.mem_cons]
          tauto
        have htail := ih (s := t)
        rw [hunion] at htail
        show t.withNodes ns = some s' ↔ _
        rw [htail]
        exact ⟨fun h => ⟨⟨hlt, h.1⟩, h.2⟩, fun h => ⟨h.1.2, h.2⟩⟩

theorem isEmpty_iff : s.isEmpty = true ↔ s.nodes = ∅ := by
  rw [isEmpty, beq_iff_eq]
  constructor
  · intro h
    ext n
    simp [nodes, h]
  · intro h
    have hempty : s = empty := ext_nodes (h.trans nodes_empty.symm)
    exact congrArg NodeSet.mask hempty

end NodeSet

inductive NumaPolicy
  | bind (nodes : NodeSet)
  | preferred (node : Nat)
  | interleaved (nodes : NodeSet)
  deriving DecidableEq

namespace NumaPolicy

/-- `mbind_args`: the mode, the mask and its width. -/
def mbindArgs : NumaPolicy → Option (Nat × BitVec 64 × Nat)
  | .bind s => if s.isEmpty then none else some (2, s.mask, s.mbindMaxnode)
  | .interleaved s => if s.isEmpty then none else some (3, s.mask, s.mbindMaxnode)
  | .preferred n => (NodeSet.single n).map fun s => (1, s.mask, s.mbindMaxnode)

/-- The number of the mode in the interface of the system. -/
def mode : NumaPolicy → Nat
  | .bind _ => 2
  | .preferred _ => 1
  | .interleaved _ => 3

/-- The nodes a policy is about. -/
def target : NumaPolicy → Set Nat
  | .bind s => s.nodes
  | .preferred n => {n}
  | .interleaved s => s.nodes

/-- **What is passed for a policy.** There are arguments exactly when the policy names a node and every
node it names has a bit: the number of its mode, a mask with the bits of these nodes, and the width
64. -/
theorem mbindArgs_eq_some_iff {policy : NumaPolicy} {mode maxnode : Nat} {mask : BitVec 64} :
    policy.mbindArgs = some (mode, mask, maxnode) ↔
      (policy.target.Nonempty ∧ ∀ n ∈ policy.target, n < 64) ∧ mode = policy.mode ∧
        {n | mask.getLsbD n = true} = policy.target ∧ maxnode = 64 := by
  have hset : ∀ {s : NodeSet} {k : Nat},
      (if s.isEmpty then none else some (k, s.mask, s.mbindMaxnode)) = some (mode, mask, maxnode) ↔
        (s.nodes.Nonempty ∧ ∀ n ∈ s.nodes, n < 64) ∧ mode = k ∧
          {n | mask.getLsbD n = true} = s.nodes ∧ maxnode = 64 := by
    intro s k
    have hmask : {n | mask.getLsbD n = true} = s.nodes ↔ mask = s.mask := by
      refine ⟨fun h => ?_, fun h => by rw [h]; rfl⟩
      exact congrArg NodeSet.mask (NodeSet.ext_nodes (s := ⟨mask⟩) h)
    rw [hmask, Set.nonempty_iff_ne_empty]
    by_cases hempty : s.isEmpty = true
    · rw [if_pos hempty]
      exact ⟨fun h => (by cases h), fun h => absurd (NodeSet.isEmpty_iff.mp hempty) h.1.1⟩
    · rw [if_neg hempty, Option.some.injEq, Prod.mk.injEq, Prod.mk.injEq]
      have hne := fun h => hempty (NodeSet.isEmpty_iff.mpr h)
      constructor
      · rintro ⟨rfl, rfl, rfl⟩
        exact ⟨⟨hne, fun _ => NodeSet.lt_of_mem_nodes⟩, rfl, rfl, rfl⟩
      · rintro ⟨-, rfl, rfl, rfl⟩
        exact ⟨rfl, rfl, rfl⟩
  cases policy with
  | bind s => exact hset
  | interleaved s => exact hset
  | preferred node =>
      show (NodeSet.single node).map _ = _ ↔ _
      rw [Option.map_eq_some_iff]
      constructor
      · rintro ⟨s, hs, heq⟩
        obtain ⟨hlt, hnodes⟩ := NodeSet.single_eq_some_iff.mp hs
        cases heq
        refine ⟨⟨Set.singleton_nonempty _, fun n hn => ?_⟩, rfl, hnodes, rfl⟩
        rw [target, Set.mem_singleton_iff] at hn
        exact hn ▸ hlt
      · rintro ⟨⟨-, hlt⟩, rfl, hmask, rfl⟩
        exact ⟨⟨mask⟩, NodeSet.single_eq_some_iff.mpr ⟨hlt node rfl, hmask⟩, rfl⟩

end NumaPolicy

end ForgeAlloc
