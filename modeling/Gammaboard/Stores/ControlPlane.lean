import Gammaboard.Lib.Run
import Gammaboard.Stores.ExternalLaunch
import Gammaboard.Stores.Nodes
import Mathlib.Algebra.Order.Ring.Int
import Mathlib.Data.List.Nodup

/-!
# The control plane tables

`stores/queries/control_plane.rs`, `stores/connection_budget.rs`,
`stores/worker_resume.rs` and the assignment statements of `stores/pg_store.rs`:
the rows of `nodes` with their pool, desired and current placements, the tree of
runs, and what launch requests reserve. Every function is one transaction; one
that fails leaves the tables as they were. The launch statements themselves are
in `Stores.ExternalLaunch`: here a request has a state and its lost workers.
-/

namespace Gammaboard.Stores

open Gammaboard.Lib

/-! ## Tables -/

/-- A row of `nodes`. A role and a run are one placement: the checks of the table keep each pair
of columns null together. -/
structure ControlNode where
  name : String
  uuid : String
  leaseExpiresAt : Int
  lastSeen : Option Int
  pool : Option AssignmentTarget
  desired : Option AssignmentTarget
  active : Option AssignmentTarget
  shutdownRequested : Bool
  resumeRequested : Bool
  /-- `launch_group IS NOT NULL`. -/
  launchGroup : Bool
  launchRequestId : Option Nat
  deriving DecidableEq, Repr

/-- `state IN ('pending','starting')`. -/
def LaunchRequestState.isOpen : LaunchRequestState → Bool
  | pending | starting => true
  | fulfilled | failed | canceled => false

/-- What a row of `node_launch_requests` reserves, with its workers in
`external_worker_launches` that failed or were canceled. -/
structure LaunchReservation where
  id : Nat
  createdAt : Int
  state : LaunchRequestState
  lost : List String
  deriving DecidableEq, Repr

/-- A worker of the request that has neither connected since the request was made nor been lost. -/
def LaunchReservation.awaits (r : LaunchReservation) (n : ControlNode) : Bool :=
  n.launchRequestId == some r.id && n.lastSeen.all (· < r.createdAt) && !r.lost.contains n.name

structure ControlPlane where
  now : Int
  /-- `max_connections` of the server. -/
  maxConnections : Int
  /-- `superuser_reserved_connections` and `reserved_connections`. -/
  reservedConnections : Int
  nextRunId : Int
  runs : List RunRecord
  nextRequestId : Nat
  requests : List LaunchReservation
  nodes : List ControlNode
  deriving DecidableEq, Repr

inductive ControlError where
  | connectionBudget (live reserved additional allowed : Int)
  | missingRun
  | invalidCount
  | duplicateName
  | samplerActive
  | staleUuid (nodeUuid : String)
  | nameTaken (nodeName : String)
  deriving DecidableEq, Repr

/-! ## The connection budget -/

def maxEvaluatorDbConnections : Int := 2
def maxSamplerDbConnections : Int := 6
def connectionsPerWorker : Int := 2 + maxEvaluatorDbConnections
def extraSamplerConnections : Int := maxSamplerDbConnections - maxEvaluatorDbConnections
def connectionHeadroom : Int := 16

def capacity (maxConnections reservedConnections samplers : Int) : Int :=
  max (maxConnections - reservedConnections - connectionHeadroom
    - samplers * extraSamplerConnections) 0 / connectionsPerWorker

/-- `'sampler_aggregator' IN (pool_role, desired_role, active_role)`. -/
def ControlNode.sampler (n : ControlNode) : Bool :=
  [n.pool, n.desired, n.active].any fun p => p.any (·.role == .samplerAggregator)

namespace ControlPlane

variable (s : ControlPlane)

def live (n : ControlNode) : Bool := s.now < n.leaseExpiresAt

/-- A worker an open launch request waits for. -/
def reserved (n : ControlNode) : Bool :=
  !s.live n && s.requests.any fun r => r.state.isOpen && r.awaits n

def liveWorkers : Int := s.nodes.countP s.live
def reservedWorkers : Int := s.nodes.countP s.reserved
def samplerWorkers : Int := s.nodes.countP fun n => (s.live n || s.reserved n) && n.sampler

/-- `check_worker_connection_budget`. -/
def checkWorkerConnectionBudget (additional : Int) : Except ControlError Unit :=
  let allowed := capacity s.maxConnections s.reservedConnections s.samplerWorkers
  if allowed < s.liveWorkers + s.reservedWorkers + additional then
    .error (.connectionBudget s.liveWorkers s.reservedWorkers additional allowed)
  else .ok ()

/-! ## Assignments -/

/-- `UPDATE nodes SET … WHERE …`. -/
def updateNodes (p : ControlNode → Bool) (f : ControlNode → ControlNode) : ControlPlane :=
  { s with nodes := s.nodes.map fun n => if p n then f n else n }

def hasRun (id : Int) : Bool := s.runs.any (·.id == id)

/-- The pool run is a child run, or a controller. -/
def owned (n : ControlNode) : Bool :=
  n.pool.any fun p => s.runs.any fun r => r.id == p.runId && (r.parentRunId.isSome ||
    r.runKind.any ["integration_campaign", "parameter_scan", "hyperparameter_tuning"].contains)

def launching (n : ControlNode) : Bool :=
  s.requests.any fun r => n.launchRequestId == some r.id && r.state.isOpen

/-- A node that keeps its pool and its desired placement when its lease has ended. -/
def keepsPool (n : ControlNode) : Bool := n.resumeRequested || s.owned n || s.launching n

/-- `clear_expired_assignments`. -/
def clearExpiredAssignments : ControlPlane :=
  s.updateNodes (fun n => !s.live n && (n.desired.isSome || n.active.isSome)) fun n =>
    if s.keepsPool n then { n with active := none }
    else { n with pool := none, desired := none, active := none }

def matchesExpected (u : NodeAssignmentUpdate) : Bool :=
  s.nodes.any fun n => n.uuid == u.nodeUuid && s.live n && n.desired == u.expected

def setDesired (u : NodeAssignmentUpdate) : ControlPlane :=
  s.updateNodes (·.uuid == u.nodeUuid) fun n => { n with desired := u.desired }

/-- `update_desired_assignments`. The updates are sorted by uuid there, which orders the locks. -/
def updateDesiredAssignments (updates : List NodeAssignmentUpdate) :
    Except ControlError (Bool × ControlPlane) :=
  if updates.isEmpty then .ok (true, s)
  else
    let cleared := s.clearExpiredAssignments
    if !updates.all cleared.matchesExpected then .ok (false, s)
    else if !updates.all (fun u => u.desired.all fun t => s.hasRun t.runId) then .error .missingRun
    else
      let updated := updates.foldl setDesired cleared
      if updates.any fun u => u.desired.any (·.role == .samplerAggregator) then do
        updated.checkWorkerConnectionBudget 0
        .ok (true, updated)
      else .ok (true, updated)

/-- The recursion of `worker_pool_root`, which is no longer than the table. -/
def rootWithin (runs : List RunRecord) : Nat → Int → Option Int
  | 0, _ => none
  | k + 1, id => do
    let r ← runs.find? (·.id == id)
    match r.parentRunId with
    | none => some id
    | some parent => rootWithin runs k parent

def workerPoolRoot (runId : Int) : Option Int := rootWithin s.runs s.runs.length runId

inductive PoolAssignmentOutcome where
  | assigned
  | nodeNotLive
  | samplerOccupied
  deriving DecidableEq, Repr

/-- A run that is no controller has one sampler in its pool. -/
def samplerOccupied (root : Int) (nodeName : String) : Bool :=
  s.runs.any (fun r => r.id == root && !r.controller) &&
    s.nodes.any fun n => n.pool == some ⟨.samplerAggregator, root⟩ && n.name != nodeName

def assignPool (nodeName : String) (target : AssignmentTarget) : ControlPlane :=
  s.updateNodes (fun n => n.name == nodeName && s.live n) fun n =>
    { n with
      pool := some target
      desired := if n.pool = some target then
          some { target with runId := (n.desired.map (·.runId)).getD target.runId }
        else some target }

/-- `assign_worker_pool`. -/
def assignWorkerPool (nodeName : String) (role : WorkerRole) (runId : Int) :
    Except ControlError (PoolAssignmentOutcome × ControlPlane) :=
  let cleared := s.clearExpiredAssignments
  match cleared.workerPoolRoot runId with
  | none => .error .missingRun
  | some root =>
    -- the transaction is dropped without a commit
    if role = .samplerAggregator ∧ cleared.samplerOccupied root nodeName then
      .ok (.samplerOccupied, s)
    else
      let outcome := if s.nodes.any fun n => n.name == nodeName && s.live n
        then .assigned else .nodeNotLive
      let updated := cleared.assignPool nodeName ⟨role, root⟩
      if role = .samplerAggregator then do
        updated.checkWorkerConnectionBudget 0
        .ok (outcome, updated)
      else .ok (outcome, updated)

def withoutPlacement (n : ControlNode) : ControlNode := { n with pool := none, desired := none }

/-- `clear_desired_assignment`. -/
def clearDesiredAssignment (nodeName : String) : ControlPlane :=
  s.updateNodes (·.name == nodeName) withoutPlacement

/-- A run with the runs below it. -/
def runTree (runId : Int) : List Int :=
  if s.hasRun runId then runId :: (workerPoolBranches s.runs runId).map (·.id) else []

/-- `clear_desired_assignments_for_run`. -/
def clearDesiredAssignmentsForRun (runId : Int) : ControlPlane :=
  s.updateNodes (fun n => n.desired.any (fun t => (s.runTree runId).contains t.runId) ||
    n.pool.any (·.runId == runId)) withoutPlacement

/-- `clear_desired_assignments_for_run_except_node`. -/
def clearDesiredAssignmentsForRunExceptNode (runId : Int) (keepNodeName : String) : ControlPlane :=
  s.updateNodes (fun n => n.desired.any (·.runId == runId) && n.name != keepNodeName)
    withoutPlacement

/-- `clear_all_desired_assignments`. -/
def clearAllDesiredAssignments : ControlPlane := s.updateNodes (fun _ => true) withoutPlacement

/-- `pause_worker_pool`. -/
def pauseWorkerPool (runId : Int) : ControlPlane :=
  s.updateNodes (fun n => n.pool.any (fun p => some p.runId == s.workerPoolRoot runId) &&
    n.desired.isSome) fun n => { n with desired := none }

/-- `resume_worker_pool`. -/
def resumeWorkerPool (runId : Int) : ControlPlane :=
  s.updateNodes (fun n => n.pool.any (fun p => some p.runId == s.workerPoolRoot runId) &&
    n.desired.isNone) fun n => { n with desired := n.pool }

/-- `finish_run_assignments`: the nodes go to the parent run while the task that made the run is
active. A paused node of the run's own pool would get a run without a role, which the table
refuses. -/
def finishRunAssignments (runId : Int) (parentTaskActive : Bool) : ControlPlane :=
  let destination := if parentTaskActive
    then (s.runs.find? (·.id == runId)).bind (·.parentRunId) else none
  let placed (n : ControlNode) : Bool :=
    n.desired.any (·.runId == runId) || n.pool.any (·.runId == runId)
  match destination with
  | none => s.updateNodes placed withoutPlacement
  | some parent =>
    if s.nodes.any fun n => placed n && n.desired.isNone then s
    else s.updateNodes placed fun n =>
      { n with desired := n.desired.map fun t => { t with runId := parent } }

/-! ## Runs -/

/-- A run made under a serial id; its parent is in the table. -/
def insertRun (parentRunId : Option Int) (runKind : Option String) : ControlPlane :=
  if parentRunId.all s.hasRun then
    { s with
      runs := s.runs ++ [⟨s.nextRunId, parentRunId, runKind⟩]
      nextRunId := s.nextRunId + 1 }
  else s

/-- A placement with one of the runs. -/
def among (runs : List Int) (placement : Option AssignmentTarget) : Bool :=
  placement.any fun t => runs.contains t.runId

def without (runs : List Int) (placement : Option AssignmentTarget) : Option AssignmentTarget :=
  if among runs placement then none else placement

/-- `remove_run`. -/
def removeRun (runId : Int) : ControlPlane :=
  let deleted := s.runTree runId
  let cleared := s.updateNodes
    (fun n => among deleted n.pool || among deleted n.desired || among deleted n.active) fun n =>
    { n with
      pool := without deleted n.pool
      desired := without deleted n.desired
      active := without deleted n.active }
  { cleared with runs := s.runs.filter fun r => !deleted.contains r.id }

/-! ## Registrations -/

def leaseUntil : Int := s.now + seconds 10

/-- The primary key of `nodes`. -/
def insertNodes (rows : List ControlNode) : Except ControlError ControlPlane :=
  if ((s.nodes ++ rows).map (·.name)).Nodup then .ok { s with nodes := s.nodes ++ rows }
  else .error .duplicateName

/-- A row without a worker behind it: the epoch as its lease, and no uuid. -/
def reservedRow (nodeName : String) : ControlNode where
  name := nodeName
  uuid := ""
  leaseExpiresAt := 0
  lastSeen := none
  pool := none
  desired := none
  active := none
  shutdownRequested := false
  resumeRequested := false
  launchGroup := false
  launchRequestId := none

def renewed (n : ControlNode) : ControlNode :=
  { n with leaseExpiresAt := s.leaseUntil, lastSeen := some s.now }

/-- A row another process takes over once its lease has ended. -/
def takenOver (nodeUuid : String) (n : ControlNode) : ControlNode :=
  let kept := if s.keepsPool n then n else withoutPlacement n
  { s.renewed kept with uuid := nodeUuid, active := none, shutdownRequested := false }

/-- `announce_node`, without the publication of fulfilled launch requests that follows. -/
def announceNode (nodeName nodeUuid : String) : Except ControlError ControlPlane :=
  if s.nodes.any fun n => n.name == nodeName && n.uuid == nodeUuid then
    .ok (s.updateNodes (fun n => n.name == nodeName && n.uuid == nodeUuid) s.renewed)
  else if s.nodes.any fun n => n.name == nodeName then
    if s.nodes.any fun n => n.name == nodeName && !s.live n then
      .ok (s.updateNodes (fun n => n.name == nodeName && !s.live n) (s.takenOver nodeUuid))
    else .error (.nameTaken nodeName)
  else s.insertNodes [s.renewed { reservedRow nodeName with uuid := nodeUuid }]

def liveUuid (nodeUuid : String) (n : ControlNode) : Bool := n.uuid == nodeUuid && s.live n

/-- `idx_nodes_current_sampler_run`: one active sampler for a run. -/
def currentSamplerUnique (target : AssignmentTarget) : Bool :=
  target.role != .samplerAggregator || s.nodes.countP (·.active == some target) ≤ 1

/-- `set_current_assignment`: expired rows are cleared on their own before. -/
def setCurrentAssignment (nodeUuid : String) (target : AssignmentTarget) :
    Except ControlError Unit × ControlPlane :=
  let cleared := s.clearExpiredAssignments
  let updated := cleared.updateNodes (cleared.liveUuid nodeUuid) fun n =>
    { n with active := some target }
  if !cleared.nodes.any (cleared.liveUuid nodeUuid) then (.error (.staleUuid nodeUuid), cleared)
  else if !s.hasRun target.runId then (.error .missingRun, cleared)
  else if updated.currentSamplerUnique target then (.ok (), updated)
  else (.error .samplerActive, cleared)

/-- `clear_current_assignment`. -/
def clearCurrentAssignment (nodeUuid : String) : ControlPlane :=
  s.updateNodes (s.liveUuid nodeUuid) fun n => { n with active := none }

/-- `expire_node_lease`. -/
def expireNodeLease (nodeUuid : String) : ControlPlane :=
  s.updateNodes (·.uuid == nodeUuid) fun n =>
    let kept := if n.resumeRequested then n else withoutPlacement n
    { kept with leaseExpiresAt := s.now, active := none, shutdownRequested := false }

/-! ## Shutdown and suspension -/

def shutDown (n : ControlNode) : ControlNode :=
  { withoutPlacement n with resumeRequested := false, shutdownRequested := true }

/-- `request_node_shutdown`. -/
def requestNodeShutdown (nodeName : String) : ControlPlane :=
  if s.nodes.any (·.name == nodeName) then s.updateNodes (·.name == nodeName) shutDown
  else { s with nodes := s.nodes ++ [{ reservedRow nodeName with shutdownRequested := true }] }

/-- `request_all_nodes_shutdown`. -/
def requestAllNodesShutdown : ControlPlane :=
  s.updateNodes (fun n => s.live n || n.resumeRequested) shutDown

/-- `consume_node_shutdown_request`. -/
def consumeNodeShutdownRequest (nodeUuid : String) : ControlPlane :=
  s.updateNodes (·.uuid == nodeUuid) fun n => { n with shutdownRequested := false }

/-- `suspend_workers`. -/
def suspendWorkers : ControlPlane :=
  s.updateNodes (fun n => s.live n && !n.shutdownRequested) fun n =>
    { n with resumeRequested := true, shutdownRequested := true }

/-! ## Launches -/

/-- The first names with the given start that are not taken. -/
def freshNames (namePrefix : String) (count : Nat) (taken : List String) : List String :=
  (((List.range (taken.length + count)).map fun i => namePrefix ++ "-" ++ toString (i + 1)).filter
    fun name => !taken.contains name).take count

/-- The names of all groups, given by their name prefixes and counts. -/
def groupNames : List (String × Nat) → List String → List String
  | [], _ => []
  | group :: groups, taken =>
    let names := freshNames group.1 group.2 taken
    names ++ groupNames groups (names ++ taken)

def insertRequest : ControlPlane :=
  { s with
    nextRequestId := s.nextRequestId + 1
    requests := s.requests ++ [⟨s.nextRequestId, s.now, .pending, []⟩] }

/-- `reserve_worker_launch`. -/
def reserveWorkerLaunch (groups : List (String × Nat)) : Except ControlError ControlPlane :=
  if groups.any (·.2 == 0) then .error .invalidCount
  else do
    s.checkWorkerConnectionBudget (groups.map (·.2)).sum
    let names := groupNames groups (s.nodes.map (·.name))
    s.insertRequest.insertNodes (names.map fun name =>
      { reservedRow name with launchGroup := true, launchRequestId := some s.nextRequestId })

/-- The suspended workers whose process has ended and whose launch is known. -/
def resumable (n : ControlNode) : Bool :=
  n.resumeRequested && !s.live n && n.launchGroup &&
    s.requests.any fun r => n.launchRequestId == some r.id

def enqueueResumed (nodeName : String) : ControlPlane :=
  s.insertRequest.updateNodes (·.name == nodeName) fun n =>
    { n with
      resumeRequested := false
      launchRequestId := some s.nextRequestId
      shutdownRequested := false }

/-- `enqueue_resumed_workers`. -/
def enqueueResumedWorkers : Except ControlError ControlPlane :=
  let rows := s.nodes.filter s.resumable
  if rows.isEmpty then .ok s
  else do
    s.checkWorkerConnectionBudget rows.length
    .ok (rows.foldl (fun s n => s.enqueueResumed n.name) s)

/-- A launch statement gives a request another state. -/
def setRequestState (id : Nat) (state : LaunchRequestState) : ControlPlane :=
  { s with requests := s.requests.map fun r => if r.id = id then { r with state := state } else r }

/-- A launch statement records that a worker failed or was canceled. -/
def loseWorker (id : Nat) (nodeName : String) : ControlPlane :=
  { s with requests := s.requests.map fun r =>
      if r.id = id then { r with lost := nodeName :: r.lost } else r }

end ControlPlane

/-! ## Events -/

inductive ControlEvent where
  | tick (elapsed : Nat)
  | insertRun (parentRunId : Option Int) (runKind : Option String)
  | removeRun (runId : Int)
  | assignWorkerPool (nodeName : String) (role : WorkerRole) (runId : Int)
  | updateDesiredAssignments (updates : List NodeAssignmentUpdate)
  | clearDesiredAssignment (nodeName : String)
  | clearDesiredAssignmentsForRun (runId : Int)
  | clearDesiredAssignmentsForRunExceptNode (runId : Int) (keepNodeName : String)
  | clearAllDesiredAssignments
  | pauseWorkerPool (runId : Int)
  | resumeWorkerPool (runId : Int)
  | finishRunAssignments (runId : Int) (parentTaskActive : Bool)
  | announceNode (nodeName nodeUuid : String)
  | setCurrentAssignment (nodeUuid : String) (target : AssignmentTarget)
  | clearCurrentAssignment (nodeUuid : String)
  | expireNodeLease (nodeUuid : String)
  | requestNodeShutdown (nodeName : String)
  | requestAllNodesShutdown
  | consumeNodeShutdownRequest (nodeUuid : String)
  | suspendWorkers
  | reserveWorkerLaunch (groups : List (String × Nat))
  | enqueueResumedWorkers
  | setRequestState (id : Nat) (state : LaunchRequestState)
  | loseWorker (id : Nat) (nodeName : String)
  deriving DecidableEq, Repr

namespace ControlPlane

/-- A failed transaction changes nothing. -/
def committed (s : ControlPlane) : Except ControlError ControlPlane → ControlPlane
  | .ok s' => s'
  | .error _ => s

def step (s : ControlPlane) : ControlEvent → ControlPlane
  | .tick elapsed => { s with now := s.now + elapsed }
  | .insertRun parentRunId runKind => s.insertRun parentRunId runKind
  | .removeRun runId => s.removeRun runId
  | .assignWorkerPool nodeName role runId =>
    s.committed ((s.assignWorkerPool nodeName role runId).map (·.2))
  | .updateDesiredAssignments updates =>
    s.committed ((s.updateDesiredAssignments updates).map (·.2))
  | .clearDesiredAssignment nodeName => s.clearDesiredAssignment nodeName
  | .clearDesiredAssignmentsForRun runId => s.clearDesiredAssignmentsForRun runId
  | .clearDesiredAssignmentsForRunExceptNode runId keepNodeName =>
    s.clearDesiredAssignmentsForRunExceptNode runId keepNodeName
  | .clearAllDesiredAssignments => s.clearAllDesiredAssignments
  | .pauseWorkerPool runId => s.pauseWorkerPool runId
  | .resumeWorkerPool runId => s.resumeWorkerPool runId
  | .finishRunAssignments runId parentTaskActive => s.finishRunAssignments runId parentTaskActive
  | .announceNode nodeName nodeUuid => s.committed (s.announceNode nodeName nodeUuid)
  | .setCurrentAssignment nodeUuid target => (s.setCurrentAssignment nodeUuid target).2
  | .clearCurrentAssignment nodeUuid => s.clearCurrentAssignment nodeUuid
  | .expireNodeLease nodeUuid => s.expireNodeLease nodeUuid
  | .requestNodeShutdown nodeName => s.requestNodeShutdown nodeName
  | .requestAllNodesShutdown => s.requestAllNodesShutdown
  | .consumeNodeShutdownRequest nodeUuid => s.consumeNodeShutdownRequest nodeUuid
  | .suspendWorkers => s.suspendWorkers
  | .reserveWorkerLaunch groups => s.committed (s.reserveWorkerLaunch groups)
  | .enqueueResumedWorkers => s.committed s.enqueueResumedWorkers
  | .setRequestState id state => s.setRequestState id state
  | .loseWorker id nodeName => s.loseWorker id nodeName

/-- The tables of a new database. -/
def init (maxConnections reservedConnections : Int) : ControlPlane where
  now := 0
  maxConnections := maxConnections
  reservedConnections := reservedConnections
  nextRunId := 1
  runs := []
  nextRequestId := 1
  requests := []
  nodes := []

end ControlPlane

end Gammaboard.Stores
