import Gammaboard.Lib.Quota
import Gammaboard.Stores.Nodes
import Mathlib.Data.Finset.Sort
import Mathlib.Data.Int.ConditionallyCompleteOrder
import Mathlib.Data.String.Basic

/-!
# The placements a controller plans

`controller_assignment_updates` of `runners/controller_child.rs`: a controller
distributes the nodes of its pool over its selected children. Placements are
compared at the controller's level, where a node below a branch counts as a
node of that branch. Each phase lists the entries it inserts into `desired`.
-/

namespace Gammaboard.Runners

open Gammaboard.Lib Gammaboard.Stores

structure ControllerAssignmentPlan where
  parentRunId : Int
  selectedChildRunIds : List Int
  branches : OrdMap Int Int
  controllers : Finset Int

/-- Placements by node name. -/
abbrev Placements := OrdMap String AssignmentTarget

namespace ControllerAssignmentPlan

def new (parentRunId : Int) (selectedChildRunIds : List Int) : ControllerAssignmentPlan where
  parentRunId := parentRunId
  selectedChildRunIds := selectedChildRunIds
  branches := OrdMap.collect (selectedChildRunIds.map fun id => (id, id))
  controllers := ∅

def addBranch (plan : ControllerAssignmentPlan) (row : PoolBranch) : ControllerAssignmentPlan :=
  { plan with
    branches := plan.branches.insert row.id row.branch
    controllers := if row.controller then insert row.branch plan.controllers else plan.controllers }

/-- The plan of `apply_controller_assignment_plan` with the branches the store lists. -/
def observe (plan : ControllerAssignmentPlan) (rows : List PoolBranch) : ControllerAssignmentPlan :=
  rows.foldl addBranch plan

variable (plan : ControllerAssignmentPlan)

/-- The direct branch a run lies in. -/
def branch (runId : Int) : Option Int := plan.branches.get runId

def selected : List Int := (plan.selectedChildRunIds.filter fun id => (plan.branch id).isSome).eraseDups

/-- A placement at this controller's level. -/
def atLevel (target : AssignmentTarget) : AssignmentTarget :=
  { target with runId := (plan.branch target.runId).getD target.runId }

def isReusable (target : AssignmentTarget) : Bool :=
  target.runId == plan.parentRunId || (plan.branch target.runId).isSome

def levelled (nodes : List RegisteredNode) : Placements :=
  OrdMap.collect (nodes.filterMap fun node =>
    node.desiredAssignment.map fun target => (node.name, plan.atLevel target))

def reusableAssignments (nodes : List RegisteredNode) : Placements :=
  (plan.levelled nodes).filter fun e => plan.isReusable e.2

/-- The samplers that stay with a selected child, and the children with a sampler. -/
def retainSamplers (selected : List Int) : Placements → Finset Int → Placements × Finset Int
  | [], activated => ([], activated)
  | e :: rest, activated =>
    if e.2.role = .samplerAggregator ∧ e.2.runId ∈ selected then
      let (retained, done) := retainSamplers selected rest (insert e.2.runId activated)
      if e.2.runId ∉ activated ∨ e.2.runId ∈ plan.controllers then (e :: retained, done)
      else (retained, done)
    else retainSamplers selected rest activated

/-- The children without a sampler after those that stay. -/
def childrenNeedingSampler (selected : List Int) (reusable : Placements) : List Int :=
  selected.filter (· ∉ (plan.retainSamplers selected reusable ∅).2)

/-- The samplers that do not stay. -/
def samplerNodes (selected : List Int) (reusable : Placements) : List String :=
  (reusable.filter fun e => e.2.role = .samplerAggregator &&
    !((plan.retainSamplers selected reusable ∅).1.map (·.1)).contains e.1).map (·.1)

def filledChildren (selected : List Int) (reusable : Placements) : Placements :=
  ((plan.childrenNeedingSampler selected reusable).zip (plan.samplerNodes selected reusable)).map
    fun p => (p.2, ⟨.samplerAggregator, p.1⟩)

/-- The samplers left over go round the nested controllers. -/
def surplusSamplers (selected : List Int) (reusable : Placements) : Placements :=
  let nested := selected.filter (· ∈ plan.controllers)
  ((plan.samplerNodes selected reusable).drop
      (plan.childrenNeedingSampler selected reusable).length).zipIdx.filterMap fun p =>
    nested[p.2 % nested.length]?.map fun runId => (p.1, ⟨.samplerAggregator, runId⟩)

/-- The samplers placed with selected children, and the children with a sampler. -/
def placeSamplers (selected : List Int) (reusable : Placements) : Placements × Finset Int :=
  let (retained, activated) := plan.retainSamplers selected reusable ∅
  let placed := plan.filledChildren selected reusable ++ plan.surplusSamplers selected reusable
  (retained ++ placed, activated ∪ (placed.map fun e => e.2.runId).toFinset)

/-- The children in the order of their ids. -/
def inOrder (activated : Finset Int) : List Int := activated.sort (· ≤ ·)

/-- The evaluators placed with the children that have a sampler. -/
def placeEvaluators (activated : Finset Int) (reusable : Placements) : Placements :=
  let evaluators := reusable.filter fun e => e.2.role = .evaluator
  if activated = ∅ then [] else
    (Quota.fill (fun e => e.2.runId) evaluators
      (Quota.evenShares evaluators.length (inOrder activated))).map fun p =>
        (p.1.1, ⟨.evaluator, p.2⟩)

/-- The placements with selected children. -/
def placements (reusable : Placements) : Placements :=
  if plan.selected = [] then [] else
    let (samplers, activated) := plan.placeSamplers plan.selected reusable
    samplers ++ placeEvaluators activated reusable

/-- `or_insert_with`: what got no place returns to the parent. -/
def returnToParent (reusable desired : Placements) : Placements :=
  reusable.foldl (fun desired e =>
    if (desired.get e.1).isSome then desired
    else desired.insert e.1 { e.2 with runId := plan.parentRunId }) desired

def desired (nodes : List RegisteredNode) : Placements :=
  let reusable := plan.reusableAssignments nodes
  let others : Placements := (plan.levelled nodes).filter fun e => !plan.isReusable e.2
  plan.returnToParent reusable (OrdMap.insertAll others (plan.placements reusable))

/-- A node below the branch it is to work for stays where it is. -/
def next (node : RegisteredNode) (planned : Option AssignmentTarget) : Option AssignmentTarget :=
  match node.desiredAssignment, planned with
  | some before, some after =>
    if plan.branch before.runId = some after.runId then some { after with runId := before.runId }
    else some after
  | _, planned => planned

/-- The changes, node by node; every planned placement is used once. -/
def updates : List RegisteredNode → Placements → List NodeAssignmentUpdate
  | [], _ => []
  | node :: nodes, desired =>
    let next := plan.next node (desired.get node.name)
    let rest := updates nodes (desired.erase node.name)
    if node.desiredAssignment ≠ next then ⟨node.uuid, node.desiredAssignment, next⟩ :: rest else rest

end ControllerAssignmentPlan

def controllerAssignmentUpdates (nodes : List RegisteredNode) (plan : ControllerAssignmentPlan) :
    List NodeAssignmentUpdate :=
  plan.updates nodes (plan.desired nodes)

/-- The nodes after the updates; the store applies one where the node still is as expected. -/
def applyUpdates (nodes : List RegisteredNode) (updates : List NodeAssignmentUpdate) :
    List RegisteredNode :=
  nodes.map fun node =>
    match updates.find? (fun u => u.nodeUuid = node.uuid ∧ u.expected = node.desiredAssignment) with
    | some u => { node with desiredAssignment := u.desired }
    | none => node

end Gammaboard.Runners
