import Gammaboard.Api.PreflightAgreement
import Gammaboard.Lib.Run

/-!
# The task queue of a run and its edits

`api/runs.rs` and `stores/queries/tasks.rs`: tasks are appended, replaced and
removed by requests that read the queue, check it, and later apply their change
if the queue they read is still there. Between the two, other requests and the
run itself may change it. A statement that fails leaves the queue as it was.
-/

namespace Gammaboard.Api

open Gammaboard.Core Gammaboard.Lib Gammaboard.Utils

variable {K E Q T D : Type} [Field K] [LinearOrder K] [DecidableEq E] [DecidableEq Q] [DecidableEq T]
  [DecidableEq D]

/-- A run with its rows of `run_tasks`. -/
structure EditedRun (K E Q T D : Type) where
  id : Int
  kind : String
  parentRunId : Option Int
  evaluator : Option E
  domain : Domain
  nextTaskId : Int
  tasks : List (QueuedTask K E Q T D)

inductive TaskQueueChange (K E Q T D : Type) where
  | append (tasks : List (RunTaskInput K E Q T D))
  | replace (taskId : Int) (task : RunTaskInput K E Q T D)
  | remove (taskId : Int)

/-- A change with the queue it was checked against. -/
structure QueueRequest (K E Q T D : Type) where
  expected : List (QueuedTask K E Q T D)
  change : TaskQueueChange K E Q T D

variable (checks : PreflightChecks K E Q T D)

namespace EditedRun

variable (run : EditedRun K E Q T D)

/-! ## Requests -/

def ensureEditableQueue : Except ServiceError Unit :=
  if run.kind ≠ "integration" then
    .error (.badRequest "only integration runs have an editable task queue")
  else if run.parentRunId.isSome then
    .error (.badRequest ("this task queue is managed by its parent; duplicate the child as a " ++
      "standalone run to edit it"))
  else .ok ()

def listRunTasks : List (QueuedTask K E Q T D) := run.tasks.mergeSort QueuedTask.before

def validateQueueDefinition (tasks : List (RunTaskInput K E Q T D)) : Except ServiceError Unit := do
  let c ← TaskPreflightContext.fromExistingTasks ([] : List (QueuedTask K E Q T D)) run.evaluator
    run.domain
  let _ ← c.validateBatch checks tasks
  .ok ()

/-- The preflight of tasks to append. -/
def validateAppended (tasks : List (RunTaskInput K E Q T D)) : Except ServiceError Unit := do
  let c ← TaskPreflightContext.fromExistingTasks run.listRunTasks run.evaluator run.domain
  let _ ← c.validateBatch checks tasks
  .ok ()

/-- `append_tasks` up to the change of the store. -/
def appendTasks (tasks : List (RunTaskInput K E Q T D)) : Except ServiceError (QueueRequest K E Q T D) := do
  run.ensureEditableQueue
  if tasks.any (·.task.isController) then
    .error (.badRequest "controllers must be defined as run kinds")
  else do
    run.validateAppended checks tasks
    if tasks.isEmpty then .error (.badRequest "provide at least one task")
    else .ok ⟨run.listRunTasks, .append tasks⟩

/-- `remove_pending_task` up to the change of the store. -/
def removePendingTask (taskId : Int) : Except ServiceError (QueueRequest K E Q T D) := do
  run.ensureEditableQueue
  let tasks := run.listRunTasks
  run.validateQueueDefinition checks ((tasks.filter (·.id != taskId)).map QueuedTask.definition)
  .ok ⟨tasks, .remove taskId⟩

/-- The definitions with one replaced. -/
def replacedDefinitions (taskId : Int) (replacement : RunTaskInput K E Q T D)
    (tasks : List (QueuedTask K E Q T D)) : List (RunTaskInput K E Q T D) :=
  tasks.map fun t => if t.id = taskId then replacement else t.definition

/-- `edit_pending_task` up to the change of the store, with both texts parsed. -/
def editPendingTask (taskId : Int) (raw expected : RunTaskInput K E Q T D) :
    Except ServiceError (QueueRequest K E Q T D) := do
  run.ensureEditableQueue
  let tasks := run.listRunTasks
  match tasks.find? (·.id == taskId) with
  | none => .error (.notFound ("task " ++ toString taskId ++ " not found in run " ++
      toString run.id))
  | some current =>
    if current.state ≠ .pending then .error (.badRequest "only pending tasks can be edited")
    else if expected ≠ current.definition then
      .error (.badRequest "task definition changed; reopen the editor before saving")
    else do
      let replacement : RunTaskInput K E Q T D := ⟨some (raw.name.getD current.name), raw.task⟩
      run.validateQueueDefinition checks (replacedDefinitions taskId replacement tasks)
      .ok ⟨tasks, .replace taskId replacement⟩

/-! ## Changes of the store -/

/-- The rows of new tasks, from a sequence number and an id on. -/
def insertedTasks (sequenceNr id : Int) :
    List (RunTaskInput K E Q T D) → List (QueuedTask K E Q T D)
  | [] => []
  | input :: inputs =>
    ⟨id, input.nameAt sequenceNr, sequenceNr, input.task, .pending⟩ ::
      insertedTasks (sequenceNr + 1) (id + 1) inputs

/-- `run_tasks_name_unique`. -/
def withTasks (tasks : List (QueuedTask K E Q T D)) : Except StoreError (EditedRun K E Q T D) :=
  if (tasks.map (·.name)).Nodup then .ok { run with tasks := tasks }
  else .error (.invalidInput "task name must be unique within a run")

/-- `append_tasks_in_transaction`. -/
def appendTasksInTransaction (tasks : List (RunTaskInput K E Q T D)) :
    Except StoreError (EditedRun K E Q T D) :=
  { run with nextTaskId := run.nextTaskId + tasks.length }.withTasks
    (run.tasks ++ insertedTasks (QueuedTask.nextSequence run.tasks) run.nextTaskId tasks)

/-- A row that is as it was read, whatever its state. -/
def sameRow (row expected : QueuedTask K E Q T D) : Bool :=
  row.id == expected.id && row.name == expected.name && row.sequenceNr == expected.sequenceNr &&
    row.task == expected.task

def matchesExpected : List (QueuedTask K E Q T D) → List (QueuedTask K E Q T D) → Bool
  | [], [] => true
  | row :: rows, expected :: rest => sameRow row expected && matchesExpected rows rest
  | _, _ => false

def isPending (taskId : Int) : Bool := run.tasks.any fun t => t.id == taskId && t.state == .pending

/-- `apply_task_queue_change`. -/
def applyTaskQueueChange (request : QueueRequest K E Q T D) :
    Except StoreError (EditedRun K E Q T D) :=
  if !matchesExpected run.listRunTasks request.expected then
    .error (.invalidInput "task queue changed; reload it before retrying")
  else
    match request.change with
    | .append tasks => run.appendTasksInTransaction tasks
    | .replace taskId task =>
      if !run.isPending taskId then
        .error (.invalidInput "only pending tasks can be changed; reload the task queue")
      else
        match task.name with
        | none => .error (.internal "null value in column \"name\" violates not-null constraint")
        | some name =>
          run.withTasks (run.tasks.map fun t =>
            if t.id = taskId then { t with name := name, task := task.task } else t)
    | .remove taskId =>
      if !run.isPending taskId then
        .error (.invalidInput "only pending tasks can be changed; reload the task queue")
      else .ok { run with tasks := run.tasks.filter (·.id != taskId) }

/-- `RunTaskState::as_str`. -/
def stateText : Stores.RunTaskState → String
  | .pending => "pending"
  | .active => "active"
  | .completed => "completed"
  | .failed => "failed"

def validateQueueTuning : Option T → Except ServiceError Unit
  | none => .ok ()
  | some tuning => badRequest "invalid queue_tuning: " (checks.validateTuning tuning)

/-- `update_task_queue_tuning`, in one transaction with the row's lock. -/
def updateTaskQueueTuning (taskId : Int) (queueTuning : Option T) :
    Except ServiceError (EditedRun K E Q T D) := do
  run.ensureEditableQueue
  validateQueueTuning checks queueTuning
  match run.tasks.find? (·.id == taskId) with
  | none => .error (.internal ("run task " ++ toString taskId ++ " not found for update"))
  | some current =>
    if current.state ≠ .pending ∧ current.state ≠ .active then
      .error (.internal ("run task " ++ toString taskId ++ " cannot be updated in state " ++
        stateText current.state))
    else
      match current.task with
      | .sample .. =>
        match checks.validate (current.task.withQueueTuning queueTuning) with
        | .error e => .error (.internal e)
        | .ok () => .ok { run with tasks := run.tasks.map fun t =>
            if t.id = taskId then { t with task := t.task.withQueueTuning queueTuning } else t }
      | _ => .error (.internal "queue_tuning is only supported for sample tasks")

/-- A statement that moves a task to another state. -/
def setState (p : QueuedTask K E Q T D → Bool) (state : Stores.RunTaskState) : EditedRun K E Q T D :=
  { run with tasks := run.tasks.map fun t => if p t then { t with state := state } else t }

/-- `activate_next_run_task`; `idx_run_tasks_active_one_per_run` refuses a second active task. -/
def activateNextRunTask : EditedRun K E Q T D :=
  match run.listRunTasks.find? (·.state == .pending) with
  | none => run
  | some next =>
    if run.tasks.any (·.state == .active) then run else run.setState (·.id == next.id) .active

/-- `complete_run_task`. -/
def completeRunTask (taskId : Int) : EditedRun K E Q T D :=
  run.setState (fun t => t.id == taskId && t.state == .active) .completed

/-- `fail_run_task`. -/
def failRunTask (taskId : Int) : EditedRun K E Q T D :=
  run.setState (fun t => t.id == taskId && (t.state == .pending || t.state == .active)) .failed

/-! ## Creation -/

/-- The domain `prepare_run` resolves: of the run's evaluator, or of the first of a task. -/
def prepareDomain (evaluator : Option E) (tasks : List (RunTaskInput K E Q T D)) :
    Except ServiceError Domain :=
  match evaluator.or (tasks.findSome? (·.task.evaluatorConfig)) with
  | none => .ok (Domain.continuous 0)
  | some evaluator =>
    match checks.resolveDomain evaluator with
    | .ok domain => .ok domain
    | .error e => .error (.badRequest (EngineError.toText (.build
        ("failed to resolve " ++ checks.evaluatorKind evaluator ++ " domain: " ++ e.toText))))

/-- `create_run`, of its queue: the domain of the run's evaluator is known already. -/
def createRun (id : Int) (kind : String) (parentRunId : Option Int) (evaluator : Option E)
    (tasks : List (RunTaskInput K E Q T D)) (firstTaskId : Int) : Except ServiceError (EditedRun K E Q T D) := do
  let domain ← prepareDomain checks evaluator tasks
  let c ← TaskPreflightContext.fromExistingTasks ([] : List (QueuedTask K E Q T D)) evaluator domain
  let known := { c with validatedEvaluators := c.validatedEvaluators ++ evaluator.toList }
  let _ ← known.validateBatch checks tasks
  .ok ⟨id, kind, parentRunId, evaluator, domain, firstTaskId + tasks.length,
    insertedTasks 1 firstTaskId tasks⟩

/-! ## Sources at run time -/

/-- The lookup of `resolve_named_source_snapshot`: the task of a name, before the given one. -/
def namedSourceTask (t : QueuedTask K E Q T D) (name : String) :
    Except StoreError (QueuedTask K E Q T D) :=
  match run.listRunTasks.find? (·.name == name) with
  | none => .error (.store ("task " ++ toString t.id ++ " references source task '" ++ name ++
      "' but no such task exists in run " ++ toString run.id))
  | some source =>
    if t.sequenceNr ≤ source.sequenceNr then
      .error (.store ("task " ++ toString t.id ++ " references source task '" ++ name ++
        "' which is not prior in sequence"))
    else .ok source

end EditedRun

/-! ## Edits under way -/

/-- A run with the requests that were checked and not applied, or not yet. -/
structure TaskQueueSystem (K E Q T D : Type) where
  run : EditedRun K E Q T D
  requests : List (QueueRequest K E Q T D)

inductive TaskQueueEvent (K E Q T D : Type) where
  | appendTasks (tasks : List (RunTaskInput K E Q T D))
  | editPendingTask (taskId : Int) (raw expected : RunTaskInput K E Q T D)
  | removePendingTask (taskId : Int)
  | apply (request : Nat)
  /-- Tasks of other runs take ids. -/
  | insertElsewhere (count : Nat)
  | updateTaskQueueTuning (taskId : Int) (queueTuning : Option T)
  | activateNextRunTask
  | completeRunTask (taskId : Int)
  | failRunTask (taskId : Int)

namespace TaskQueueSystem

def prepared (s : TaskQueueSystem K E Q T D) :
    Except ServiceError (QueueRequest K E Q T D) → TaskQueueSystem K E Q T D
  | .ok request => { s with requests := s.requests ++ [request] }
  | .error _ => s

def committed {ε : Type} (s : TaskQueueSystem K E Q T D) :
    Except ε (EditedRun K E Q T D) → TaskQueueSystem K E Q T D
  | .ok run => { s with run := run }
  | .error _ => s

def step (s : TaskQueueSystem K E Q T D) : TaskQueueEvent K E Q T D → TaskQueueSystem K E Q T D
  | .appendTasks tasks => s.prepared (s.run.appendTasks checks tasks)
  | .editPendingTask taskId raw expected =>
    s.prepared (s.run.editPendingTask checks taskId raw expected)
  | .removePendingTask taskId => s.prepared (s.run.removePendingTask checks taskId)
  | .apply request =>
    match s.requests[request]? with
    | some request => s.committed (s.run.applyTaskQueueChange request)
    | none => s
  | .insertElsewhere count =>
    { s with run := { s.run with nextTaskId := s.run.nextTaskId + count } }
  | .updateTaskQueueTuning taskId queueTuning =>
    s.committed (s.run.updateTaskQueueTuning checks taskId queueTuning)
  | .activateNextRunTask => { s with run := s.run.activateNextRunTask }
  | .completeRunTask taskId => { s with run := s.run.completeRunTask taskId }
  | .failRunTask taskId => { s with run := s.run.failRunTask taskId }

end TaskQueueSystem

end Gammaboard.Api
