import Gammaboard.Lib.Run
import Gammaboard.Stores.Nodes
import Gammaboard.Stores.Tasks
import Mathlib.Algebra.Order.Field.Basic
import Mathlib.Algebra.BigOperators.Group.List.Basic

/-!
# Worker CPU time

The trigger `account_node_cpu_time` of the schema, and the statements on
`nodes` and `run_tasks` that fire it or change what it reads. Statements commit
one after the other, and the clock has one value while a statement runs.
-/

namespace Gammaboard.Stores

open Gammaboard.Lib

variable {K : Type*} [Field K] [LinearOrder K]

/-! ## Tables -/

/-- The columns of `nodes` the trigger reads, with the keys of a row. -/
structure WorkerNode (K : Type*) where
  name : String
  uuid : String
  leaseExpiresAt : K
  active : Option AssignmentTarget
  /-- `capabilities->'cpus'` where that is a number. -/
  cpus : Option K
  cpuTimeAccountedAt : K

structure TimedTask (K : Type*) extends RunTask where
  startedAt : Option K

/-- A row of `task_worker_cpu_time`. -/
structure CpuTimeRow (K : Type*) where
  taskId : Int
  nodeUuid : String
  cpuSeconds : K

/-- What the trigger inserts for one task, with the interval it stands for. -/
structure CpuCharge (K : Type*) where
  taskId : Int
  nodeUuid : String
  start : K
  accountedUntil : K
  cpus : K

def CpuCharge.seconds (c : CpuCharge K) : K := max (c.accountedUntil - c.start) 0 * c.cpus

/-- The end of the charged interval, which is empty when the lease ended before its start. -/
def CpuCharge.stop (c : CpuCharge K) : K := max c.start c.accountedUntil

/-- The tables, the clock, and the charges of the trigger in their order. -/
structure CpuState (K : Type*) where
  clock : K
  nodes : List (WorkerNode K)
  tasks : List (TimedTask K)
  cpuTime : List (CpuTimeRow K)
  charges : List (CpuCharge K)

def CpuState.init (clock : K) : CpuState K := ⟨clock, [], [], [], []⟩

/-- The seconds of a task and a node identity in `task_worker_cpu_time`. -/
def cpuSeconds (rows : List (CpuTimeRow K)) (taskId : Int) (uuid : String) : K :=
  match rows.find? fun r => r.taskId == taskId && r.nodeUuid == uuid with
  | some r => r.cpuSeconds
  | none => 0

/-! ## The trigger -/

def WorkerNode.cpuCount (n : WorkerNode K) : K :=
  match n.cpus with
  | some cpus => max cpus 1
  | none => 1

/-- `GREATEST` ignores a missing `started_at`. -/
def chargeStart (n : WorkerNode K) (t : TimedTask K) : K :=
  match t.startedAt with
  | some startedAt => max n.cpuTimeAccountedAt startedAt
  | none => n.cpuTimeAccountedAt

/-- The node is active on the run of the task, and the task is active. -/
def WorkerNode.worksOn (n : WorkerNode K) (t : TimedTask K) : Bool :=
  n.active.map (·.runId) = some t.runId && t.state == .active

/-- `account_node_cpu_time`: the charges for the old row. -/
def accountNodeCpuTime (now : K) (tasks : List (TimedTask K)) (n : WorkerNode K) :
    List (CpuCharge K) :=
  let accountedUntil := min now n.leaseExpiresAt
  let elapsedSeconds := max (accountedUntil - n.cpuTimeAccountedAt) 0
  if 0 < elapsedSeconds then
    (tasks.filter n.worksOn).map fun t =>
      ⟨t.id, n.uuid, chargeStart n t, accountedUntil, n.cpuCount⟩
  else []

/-- `INSERT INTO task_worker_cpu_time … ON CONFLICT DO UPDATE`. -/
def insertCharge (rows : List (CpuTimeRow K)) (c : CpuCharge K) : List (CpuTimeRow K) :=
  match rows with
  | [] => [⟨c.taskId, c.nodeUuid, c.seconds⟩]
  | r :: rest =>
    if r.taskId = c.taskId ∧ r.nodeUuid = c.nodeUuid then
      { r with cpuSeconds := r.cpuSeconds + c.seconds } :: rest
    else r :: insertCharge rest c

namespace CpuState

variable (s : CpuState K)

/-- An `UPDATE nodes` of a column the trigger watches: the trigger fires on each row of the
`WHERE` clause before the row takes its new values. -/
def updateNodes (p : WorkerNode K → Bool) (f : WorkerNode K → WorkerNode K) : CpuState K :=
  let charges := (s.nodes.filter p).flatMap (accountNodeCpuTime s.clock s.tasks)
  { s with
    nodes := s.nodes.map fun n =>
      if p n then { f n with cpuTimeAccountedAt := s.clock } else n
    cpuTime := charges.foldl insertCharge s.cpuTime
    charges := s.charges ++ charges }

/-! ## Statements on `nodes` -/

/-- The interval of a lease, ten seconds. -/
def leaseUntil : K := s.clock + (10 : Nat)

/-- `announce_node`: the renewal of the row of this name and uuid, else the upsert, which takes
over the row of the name once its lease has ended. -/
def announceNode (name uuid : String) (capabilities : Option K) : CpuState K :=
  if s.nodes.any fun n => n.name == name && n.uuid == uuid then
    s.updateNodes (fun n => n.name == name && n.uuid == uuid) fun n =>
      { n with cpus := capabilities, leaseExpiresAt := s.leaseUntil }
  else if s.nodes.any fun n => n.name == name then
    s.updateNodes (fun n => n.name == name && n.leaseExpiresAt ≤ s.clock) fun n =>
      { n with uuid := uuid, cpus := capabilities, leaseExpiresAt := s.leaseUntil, active := none }
  else
    { s with nodes := s.nodes ++ [⟨name, uuid, s.leaseUntil, none, capabilities, s.clock⟩] }

def clearExpiredAssignments : CpuState K :=
  s.updateNodes (fun n => n.leaseExpiresAt ≤ s.clock && n.active.isSome) fun n =>
    { n with active := none }

def live (uuid : String) (n : WorkerNode K) : Bool := n.uuid == uuid && s.clock < n.leaseExpiresAt

/-- `idx_nodes_current_sampler_run`: one active sampler for a run. -/
def currentSamplerUnique (target : AssignmentTarget) : Bool :=
  target.role != .samplerAggregator || s.nodes.countP (·.active == some target) ≤ 1

/-- `set_current_assignment`: expired rows are cleared on their own before. -/
def setCurrentAssignment (uuid : String) (target : AssignmentTarget) : CpuState K :=
  let s := s.clearExpiredAssignments
  let updated := s.updateNodes (s.live uuid) fun n => { n with active := some target }
  if updated.currentSamplerUnique target then updated else s

/-- `clear_current_assignment`. -/
def clearCurrentAssignment (uuid : String) : CpuState K :=
  s.updateNodes (s.live uuid) fun n => { n with active := none }

/-- `expire_node_lease`. -/
def expireNodeLease (uuid : String) : CpuState K :=
  s.updateNodes (·.uuid == uuid) fun n => { n with leaseExpiresAt := s.clock, active := none }

/-! ## Statements on `run_tasks` -/

/-- A task added to the queue of its run, under a new id. -/
def insertRunTask (task : RunTask) : CpuState K :=
  if s.tasks.any (·.id == task.id) then s
  else { s with tasks := s.tasks ++ [⟨{ task with state := .pending }, none⟩] }

/-- `activate_next_run_task`; `idx_run_tasks_active_one_per_run` refuses a second active task. -/
def activateNextRunTask (runId : Int) : CpuState K :=
  if s.tasks.any fun t => t.runId == runId && t.state == .active then s
  else
    match nextPendingTask runId (s.tasks.map (·.toRunTask)) with
    | none => s
    | some next =>
      { s with tasks := s.tasks.map fun t =>
          if t.id = next.id then
            { t with state := .active, startedAt := some (t.startedAt.getD s.clock) }
          else t }

/-- `flush_task_cpu_time`. -/
def flushTaskCpuTime (taskId : Int) : CpuState K :=
  match s.tasks.find? fun t => t.id == taskId && t.state == .active with
  | none => s
  | some task => s.updateNodes (fun n => n.active.map (·.runId) = some task.runId) id

/-- `complete_run_task`. -/
def completeRunTask (taskId : Int) : CpuState K :=
  let s := s.flushTaskCpuTime taskId
  { s with tasks := s.tasks.map fun t =>
      if t.id = taskId ∧ t.state = .active then
        { t with state := .completed, failureReason := none }
      else t }

/-- `fail_run_task`. -/
def failRunTask (taskId : Int) (reason : String) : CpuState K :=
  let s := s.flushTaskCpuTime taskId
  { s with tasks := s.tasks.map fun t =>
      if t.id = taskId ∧ (t.state = .pending ∨ t.state = .active) then
        { t with state := .failed, failureReason := some reason }
      else t }

end CpuState

/-! ## Histories -/

inductive CpuEvent (K : Type*) where
  | announceNode (name uuid : String) (capabilities : Option K)
  | setCurrentAssignment (uuid : String) (target : AssignmentTarget)
  | clearCurrentAssignment (uuid : String)
  | clearExpiredAssignments
  | expireNodeLease (uuid : String)
  | insertRunTask (task : RunTask)
  | activateNextRunTask (runId : Int)
  | completeRunTask (taskId : Int)
  | failRunTask (taskId : Int) (reason : String)

/-- How long a lease is valid between two times. -/
def validTime (earlier later leaseExpiresAt : K) : K := max (min later leaseExpiresAt - earlier) 0

namespace CpuState

def statement (s : CpuState K) : CpuEvent K → CpuState K
  | .announceNode name uuid capabilities => s.announceNode name uuid capabilities
  | .setCurrentAssignment uuid target => s.setCurrentAssignment uuid target
  | .clearCurrentAssignment uuid => s.clearCurrentAssignment uuid
  | .clearExpiredAssignments => s.clearExpiredAssignments
  | .expireNodeLease uuid => s.expireNodeLease uuid
  | .insertRunTask task => s.insertRunTask task
  | .activateNextRunTask runId => s.activateNextRunTask runId
  | .completeRunTask taskId => s.completeRunTask taskId
  | .failRunTask taskId reason => s.failRunTask taskId reason

/-- The clock moves to the time of the statement, and the statement runs. -/
def step (s : CpuState K) (e : K × CpuEvent K) : CpuState K :=
  { s with clock := e.1 }.statement e.2

/-! ## Work -/

/-- The seconds an identity works on a task from the last statement to a later time: over its
rows that are active on the run of the task while the task is active, the time the lease is
valid, by the CPU count. -/
def workedUntil (s : CpuState K) (later : K) (taskId : Int) (uuid : String) : K :=
  (s.nodes.map fun n => (s.tasks.map fun t =>
    if t.id = taskId ∧ n.uuid = uuid ∧ n.worksOn t then
      validTime s.clock later n.leaseExpiresAt * n.cpuCount
    else 0).sum).sum

/-- The seconds an identity works on a task over a history. -/
def worked (s : CpuState K) (taskId : Int) (uuid : String) : List (K × CpuEvent K) → K
  | [] => 0
  | e :: es => s.workedUntil e.1 taskId uuid + worked (s.step e) taskId uuid es

end CpuState

end Gammaboard.Stores
