import Gammaboard.Api.Capabilities
import Gammaboard.Utils.Text
import Mathlib.Data.Bool.Basic

/-!
# Automatic roles

`plan_auto_roles` of `api/nodes.rs`: which free nodes become samplers and which
evaluators of a run. The largest number of active runs is tried first; samplers
that no evaluator requirement fits are taken before the others.
-/

namespace Gammaboard.Api

open Gammaboard.Lib Gammaboard.Stores Gammaboard.Utils

/-! ## The node with the least key -/

section Least

variable {κ : Type} [LinearOrder κ]

/-- `min_by_key` over the positions of the nodes with the property. -/
def leastIndex (satisfies : RegisteredNode → Bool) (key : RegisteredNode → Except Panic κ)
    (nodes : List RegisteredNode) : Except Panic (Option Nat) := do
  let scored ← (nodes.zipIdx.filter (satisfies ·.1)).mapM fun e => (key e.1).map fun k => (k, e.2)
  return (scored.argmin (·.1)).map (·.2)

/-- `Vec::remove` -/
def removeAt (nodes : List RegisteredNode) (index : Nat) :
    Except Panic (RegisteredNode × List RegisteredNode) :=
  match nodes[index]? with
  | some node => .ok (node, nodes.eraseIdx index)
  | none => .error .outOfBounds

/-- The node of the least key is removed again and again, so many times or until there is none. -/
def takeLeast (satisfies : RegisteredNode → Bool) (key : RegisteredNode → Except Panic κ) :
    Nat → List RegisteredNode → Except Panic (List RegisteredNode × List RegisteredNode)
  | 0, nodes => .ok ([], nodes)
  | count + 1, nodes => do
    match ← leastIndex satisfies key nodes with
    | none => return ([], nodes)
    | some index =>
      let picked ← removeAt nodes index
      let others ← takeLeast satisfies key count picked.2
      return (picked.1 :: others.1, others.2)

variable {satisfies : RegisteredNode → Bool} {key : RegisteredNode → Except Panic κ}
  {k : RegisteredNode → κ} {nodes : List RegisteredNode} {count : Nat}

theorem mem_candidates {e : RegisteredNode × Nat} :
    e ∈ nodes.zipIdx.filter (satisfies ·.1) ↔ nodes[e.2]? = some e.1 ∧ satisfies e.1 = true := by
  rw [List.mem_filter, List.mem_zipIdx_iff_getElem?]

/-- Where every key is defined, the index of a least one is found, if there is one. -/
theorem leastIndex_spec (hkey : ∀ n ∈ nodes, satisfies n → key n = .ok (k n)) :
    (leastIndex satisfies key nodes = .ok none ∧ ∀ n ∈ nodes, ¬ satisfies n) ∨
      ∃ index n, leastIndex satisfies key nodes = .ok (some index) ∧ nodes[index]? = some n ∧
        satisfies n ∧ ∀ m ∈ nodes, satisfies m → k n ≤ k m := by
  have hscored : (nodes.zipIdx.filter (satisfies ·.1)).mapM
      (fun e => (key e.1).map fun k => (k, e.2)) =
        .ok ((nodes.zipIdx.filter (satisfies ·.1)).map fun e => (k e.1, e.2)) := by
    refine mapM_eq_ok fun e he => ?_
    obtain ⟨hget, hsat⟩ := mem_candidates.1 he
    rw [hkey e.1 (List.mem_of_getElem? hget) hsat]
    rfl
  have hindex : leastIndex satisfies key nodes =
      .ok ((((nodes.zipIdx.filter (satisfies ·.1)).map fun e => (k e.1, e.2)).argmin (·.1)).map
        (·.2)) := by
    unfold leastIndex
    rw [hscored]
    rfl
  rw [hindex]
  cases hmin : ((nodes.zipIdx.filter (satisfies ·.1)).map fun e => (k e.1, e.2)).argmin (·.1) with
  | none =>
    refine .inl ⟨rfl, fun n hn hsat => ?_⟩
    rw [List.argmin_eq_none, List.map_eq_nil_iff] at hmin
    obtain ⟨index, hget⟩ := List.mem_iff_getElem?.1 hn
    have hmem : (n, index) ∈ nodes.zipIdx.filter (satisfies ·.1) := mem_candidates.2 ⟨hget, hsat⟩
    rw [hmin] at hmem
    exact absurd hmem List.not_mem_nil
  | some best =>
    obtain ⟨e, he, rfl⟩ := List.mem_map.1 (List.argmin_mem hmin)
    obtain ⟨hget, hsat⟩ := mem_candidates.1 he
    refine .inr ⟨e.2, e.1, rfl, hget, hsat, fun m hm hsat' => ?_⟩
    obtain ⟨index, hget'⟩ := List.mem_iff_getElem?.1 hm
    have hmem : (k m, index) ∈ (nodes.zipIdx.filter (satisfies ·.1)).map fun e => (k e.1, e.2) :=
      List.mem_map.2 ⟨(m, index), mem_candidates.2 ⟨hget', hsat'⟩, rfl⟩
    exact List.le_of_mem_argmin (f := (·.1)) hmem hmin

/-- A least key is found only where every key is defined. -/
theorem keys_of_leastIndex {r : Option Nat} (h : leastIndex satisfies key nodes = .ok r) :
    ∀ n ∈ nodes, satisfies n → ∃ value, key n = .ok value := by
  intro n hn hsat
  obtain ⟨index, hget⟩ := List.mem_iff_getElem?.1 hn
  have hmem : (n, index) ∈ nodes.zipIdx.filter (satisfies ·.1) := mem_candidates.2 ⟨hget, hsat⟩
  unfold leastIndex at h
  generalize nodes.zipIdx.filter (satisfies ·.1) = candidates at h hmem
  cases hscored : candidates.mapM fun e => (key e.1).map fun k => (k, e.2) with
  | error e =>
    rw [hscored] at h
    cases h
  | ok scored =>
    obtain ⟨entry, hentry⟩ := ok_of_mapM hscored hmem
    cases hkey : key n with
    | error e =>
      rw [hkey] at hentry
      cases hentry
    | ok value => exact ⟨value, rfl⟩

/-- Where every key is defined, the least ones are taken. -/
theorem takeLeast_spec :
    ∀ {count : Nat} {nodes : List RegisteredNode},
      (count ≠ 0 → ∀ n ∈ nodes, satisfies n → key n = .ok (k n)) →
        ∃ taken rest, takeLeast satisfies key count nodes = .ok (taken, rest) ∧
          Takes satisfies k count nodes taken rest
  | 0, nodes, _ => ⟨[], nodes, rfl, .zero⟩
  | count + 1, nodes, hkey => by
    unfold takeLeast
    rcases leastIndex_spec (hkey (Nat.succ_ne_zero count)) with
      ⟨hindex, hnone⟩ | ⟨index, n, hindex, hget, hsat, hleast⟩
    · rw [hindex]
      exact ⟨[], nodes, rfl, .none hnone⟩
    · rw [hindex]
      have hlt := (List.getElem?_eq_some_iff.1 hget).1
      have hperm : (n :: nodes.eraseIdx index).Perm nodes := by
        have h := List.getElem_cons_eraseIdx_perm hlt
        rwa [(List.getElem?_eq_some_iff.1 hget).2] at h
      have hkey' : ∀ m ∈ nodes.eraseIdx index, satisfies m → key m = .ok (k m) := fun m hm =>
        hkey (Nat.succ_ne_zero count) m (hperm.subset (List.mem_cons_of_mem _ hm))
      obtain ⟨taken, rest, htake, htakes⟩ := @takeLeast_spec count _ fun _ => hkey'
      refine ⟨n :: taken, rest, ?_, .succ hperm hsat hleast htakes⟩
      have hremove : removeAt nodes index = .ok (n, nodes.eraseIdx index) := by
        unfold removeAt
        rw [hget]
      show Except.bind (removeAt nodes index) _ = _
      rw [hremove]
      show Except.bind (takeLeast satisfies key count (nodes.eraseIdx index)) _ = _
      rw [htake]
      rfl

/-- Nodes are taken only where every key is defined. -/
theorem keys_of_takeLeast {r : List RegisteredNode × List RegisteredNode} (hcount : count ≠ 0)
    (h : takeLeast satisfies key count nodes = .ok r) :
    ∀ n ∈ nodes, satisfies n → ∃ value, key n = .ok value := by
  cases count with
  | zero => exact absurd rfl hcount
  | succ count =>
    unfold takeLeast at h
    cases hindex : leastIndex satisfies key nodes with
    | error e =>
      rw [hindex] at h
      cases h
    | ok index => exact keys_of_leastIndex hindex

end Least

/-! ## The plan -/

/-- What a plan is made for: `existing` are the samplers and the evaluators the run has, `policy` is
the largest number of active runs and the least number of evaluators of each. -/
structure RoleRequest where
  samplerRequirements : CapabilityRequirements
  evaluatorRequirements : CapabilityRequirements
  existing : Nat × Nat
  policy : Nat × Nat
  evaluatorLimit : Nat

def saturatingAdd (a b : Nat) : Nat := min (a + b) usizeMax

def saturatingMul (a b : Nat) : Nat := min (a * b) usizeMax

abbrev SamplerKey := Bool ×ₗ Score ×ₗ String

/-- The score with the name of the node as its last part. -/
def Score.named (score : Score) (name : String) : Score :=
  toLex ((ofLex score).1, toLex ((ofLex (ofLex score).2).1,
    toLex ((ofLex (ofLex (ofLex score).2).2).1, name)))

def evaluatorKey (requirements : CapabilityRequirements) (node : RegisteredNode) :
    Except Panic Score :=
  (capabilityScore node.capabilities requirements).map (·.named node.name)

def takeBestNodes (nodes : List RegisteredNode) (requirements : CapabilityRequirements)
    (limit : Nat) : Except Panic (List RegisteredNode × List RegisteredNode) :=
  takeLeast (fun node => capabilitiesSatisfy node.capabilities requirements)
    (evaluatorKey requirements) limit nodes

namespace RoleRequest

variable (request : RoleRequest) (free : List RegisteredNode)

def canSample (node : RegisteredNode) : Bool :=
  capabilitiesSatisfy node.capabilities request.samplerRequirements

def canEvaluate (node : RegisteredNode) : Bool :=
  capabilitiesSatisfy node.capabilities request.evaluatorRequirements

def samplerKey (node : RegisteredNode) : Except Panic SamplerKey :=
  (capabilityScore node.capabilities request.samplerRequirements).map fun score =>
    toLex (request.canEvaluate node, toLex (score, node.name))

/-- One round of the loop; `none` continues it. -/
def tryActive (active : Nat) :
    Except Panic (Option (List RegisteredNode × List RegisteredNode)) := do
  let picked ← takeLeast request.canSample request.samplerKey (active - request.existing.1) free
  if request.existing.1 + picked.1.length < active then return none
  else
    let evaluators ← takeBestNodes picked.2 request.evaluatorRequirements request.evaluatorLimit
    if saturatingMul active request.policy.2 ≤
        saturatingAdd request.existing.2 evaluators.1.length then
      return some (picked.1, evaluators.1)
    else return none

/-- The rounds from a number of active runs down to none. -/
def fromActive : Nat → Except Panic (List RegisteredNode × List RegisteredNode)
  | 0 => do
    match ← request.tryActive free 0 with
    | some plan => return plan
    | none => .error (.unreachable "zero active runs always fit")
  | active + 1 => do
    match ← request.tryActive free (active + 1) with
    | some plan => return plan
    | none => fromActive active

end RoleRequest

def planAutoRoles (request : RoleRequest) (free : List RegisteredNode) :
    Except Panic (List RegisteredNode × List RegisteredNode) :=
  if request.existing.1 + free.length ≤ usizeMax then
    request.fromActive free (min request.policy.1 (request.existing.1 + free.length))
  else .error .overflow

/-! ## What the plan is made of -/

/-- The step of the fold that counts roles. -/
def countRole (counts : Nat × Nat) (assignment : AssignmentTarget) : Nat × Nat :=
  match assignment.role with
  | .samplerAggregator => (counts.1 + 1, counts.2)
  | .evaluator => (counts.1, counts.2 + 1)

/-- The samplers and the evaluators the pool has for a run. -/
def existingRoles (nodes : List RegisteredNode) (runId : Int) : Nat × Nat :=
  ((nodes.filterMap RegisteredNode.poolAssignment).filter (·.runId = runId)).foldl countRole (0, 0)

/-- The nodes without a pool and without a placement. -/
def freeNodes (nodes : List RegisteredNode) : List RegisteredNode :=
  nodes.filter fun node => node.poolAssignment.isNone && node.desiredAssignment.isNone

theorem foldl_countRole (assignments : List AssignmentTarget) : ∀ counts : Nat × Nat,
    (assignments.foldl countRole counts).1 + (assignments.foldl countRole counts).2 =
      counts.1 + counts.2 + assignments.length := by
  induction assignments with
  | nil => exact fun _ => rfl
  | cons a assignments ih =>
    intro counts
    rw [List.foldl_cons, ih, List.length_cons]
    unfold countRole
    cases a.role with
    | samplerAggregator =>
      show counts.1 + 1 + counts.2 + _ = _
      omega
    | evaluator =>
      show counts.1 + (counts.2 + 1) + _ = _
      omega

theorem length_freeNodes_le : ∀ nodes : List RegisteredNode,
    (nodes.filterMap RegisteredNode.poolAssignment).length + (freeNodes nodes).length ≤ nodes.length
  | [] => le_refl 0
  | node :: nodes => by
    have ih := length_freeNodes_le nodes
    unfold freeNodes at ih ⊢
    rw [List.length_cons]
    cases hpool : node.poolAssignment with
    | none =>
      rw [List.filterMap_cons_none hpool, List.filter_cons]
      split
      · rw [List.length_cons]
        omega
      · omega
    | some target =>
      rw [List.filterMap_cons_some hpool, List.filter_cons_of_neg (by rw [hpool]; simp),
        List.length_cons]
      omega

/-- What is counted and what is free are different nodes of one list. -/
theorem existing_add_free_le (nodes : List RegisteredNode) (runId : Int) :
    (existingRoles nodes runId).1 + (existingRoles nodes runId).2 + (freeNodes nodes).length ≤
      nodes.length := by
  have hroles := foldl_countRole
    ((nodes.filterMap RegisteredNode.poolAssignment).filter (·.runId = runId)) (0, 0)
  have hfree := length_freeNodes_le nodes
  have hfilter := List.length_filter_le (fun a : AssignmentTarget => decide (a.runId = runId))
    (nodes.filterMap RegisteredNode.poolAssignment)
  unfold existingRoles
  omega

end Gammaboard.Api
