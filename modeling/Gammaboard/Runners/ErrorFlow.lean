import Gammaboard.Core.Errors
import Gammaboard.Runners.Queue
import Gammaboard.Stores.WorkQueue

/-!
# Store errors on their way to the node runner

Which class an error of a store call has when it reaches the node runner, and
what the node runner does with it. A turn of the node runner activates a role,
ticks one or stops one (`node_runner/mod.rs`, `node_runner/reconcile.rs`,
`node_runner/role_runner.rs`). Each function is the list of its fallible calls
in program order, ended by the first that fails, with the conversions its
callers apply; calls whose error is dropped or only logged
(`record_checkpoint_status` after a failed save, the measurement of a completed
task, `clear_current_assignment`) reach nobody and are left out. `Env` says how
every call ends, `Facts` which branches the data takes.
-/

namespace Gammaboard.Runners

open Gammaboard.Core Gammaboard.Stores

/-- The stretch of the node runner a call belongs to. -/
inductive Stage where
  | activate
  | initialCheckpoint
  | start
  | tick
  | failTask
  | complete
  | stop
  | failAssignment
  deriving DecidableEq, Repr

/-- The store calls, by the name of the store method. -/
inductive StoreCall where
  | loadRunSpec
  | initRoleStore
  | listenForBatches
  | loadActiveRunTask
  | listRunTasks
  | loadSamplerCheckpoint
  | resolveStageContext
  | loadLatestStageSnapshotBeforeSequence
  | resolveTaskSourceSnapshot
  | recordEvaluatorMetadata
  | restoreSamplerCheckpoint
  | loadRunSampleProgress
  | recordCheckpointStatus
  | setCurrentAssignment
  | insertBatches
  | notifyWorkAvailable
  | fetchCompletedBatches
  | cleanupConsumedCompletedBatches
  | reclaimAbandonedBatches
  | getQueueBlocker
  | getBatchQueueCounts
  | countActiveEvaluatorNodes
  | campaignSampleAllowance
  | saveAggregation
  | updateRunTaskProgress
  | saveRunSampleProgress
  | getRegisteredWorkers
  | recordSamplerPerformanceSnapshot
  | saveSamplerCheckpoint
  | persistTaskMeasurementOutput
  | completeRunTask
  | failRunTask
  | releaseUntrackedClaims
  | submitBatchResults
  | claimBatch
  | waitForWork
  | loadRunTask
  | failBatch
  | clearDesiredAssignmentsForRun
  | recordEvaluatorPerformanceSnapshot
  deriving DecidableEq

/-- Work outside the store that may fail. -/
inductive EnginePoint where
  | resolveDomain
  | accumulatorConfig
  | observableState
  | newRunner
  | taskConfig
  | processCompletedBatches
  | stopCondition
  | generate
  | enqueue
  | encodeAccumulator
  | diagnostics
  | checkTickTerminalState
  | snapshotSampler
  | buildEvaluator
  | taskContext
  deriving DecidableEq

inductive Step where
  | store (stage : Stage) (call : StoreCall)
  | engine (stage : Stage) (point : EnginePoint)
  deriving DecidableEq

def Step.stage : Step → Stage
  | .store s _ => s
  | .engine s _ => s

/-- A failure outside the store: an engine error, or a store error made from a message. -/
inductive EngineFault where
  | engine (error : EngineError)
  | message (text : String)
  deriving DecidableEq, Repr

def EngineFault.toRunnerError : EngineFault → RunnerError
  | .engine e => .engine e
  | .message text => .store (.store text)

/-- How every call ends: `none` when it succeeds. -/
structure Env where
  store : Stage → StoreCall → Option StoreError
  engine : Stage → EnginePoint → Option EngineFault

/-- The error a step ends with, as the callee returns it. -/
def Env.fault (env : Env) : Step → Option RunnerError
  | .store stage call => (env.store stage call).map .store
  | .engine stage point => (env.engine stage point).map (·.toRunnerError)

/-- The branches the data of the turn selects. -/
structure Facts where
  /-- The consecutive failures of the role have reached the limit. -/
  blocked : Bool
  taskActive : Bool
  samplerTaskPending : Bool
  specPresent : Bool
  evaluatorConfigured : Bool
  restored : Bool
  refreshDue : Bool
  insertsSettled : Bool
  queueDrained : Bool
  fetchFinished : Bool
  cleanupFinished : Bool
  reclaimDue : Bool
  drawNeeded : Bool
  campaignManaged : Bool
  aggregationSettled : Bool
  progressDue : Bool
  performanceDue : Bool
  consumedCursor : Bool
  done : Bool
  batchClaimed : Bool
  contextLoaded : Bool
  evaluationFailed : Bool
  permanentlyFailed : Bool

/-! ## Functions as their calls -/

/-- The conversion a callee applies to the error of one of its own calls. -/
def Step.convert : Step → RunnerError → RunnerError
  | .store _ .insertBatches, .store e => .store (uncertainInsert e)
  | _, e => e

/-- Run calls in order up to the first that fails. -/
def runSteps (env : Env) : List Step → Except RunnerError Unit
  | [] => .ok ()
  | s :: rest =>
    match env.fault s with
    | some e => .error (s.convert e)
    | none => runSteps env rest

def opt (b : Bool) (steps : List Step) : List Step := if b then steps else []

variable (f : Facts)

/-- `drain_finished_insert` and, in `flush`, `consume_insert_task`. -/
def insertSteps (s : Stage) : List Step :=
  opt f.insertsSettled (.store s .insertBatches :: opt f.queueDrained [.store s .notifyWorkAvailable])

/-- `SamplerQueue::tick`. -/
def queueTickSteps (s : Stage) : List Step :=
  insertSteps f s ++ opt f.fetchFinished [.store s .fetchCompletedBatches] ++
    opt f.cleanupFinished [.store s .cleanupConsumedCompletedBatches] ++
    opt f.reclaimDue [.store s .reclaimAbandonedBatches, .store s .getQueueBlocker] ++
    [.store s .getBatchQueueCounts]

def flushAggregationSteps (s : Stage) : List Step :=
  opt f.aggregationSettled [.store s .saveAggregation] ++ [.engine s .encodeAccumulator]

def flushProgressSyncSteps (s : Stage) : List Step :=
  [.store s .updateRunTaskProgress, .store s .saveRunSampleProgress]

def flushPerformanceSnapshotSteps (s : Stage) : List Step :=
  [.engine s .diagnostics, .store s .getRegisteredWorkers,
    .store s .recordSamplerPerformanceSnapshot]

/-- `produce`. -/
def produceSteps (s : Stage) : List Step :=
  opt f.drawNeeded
    ([.engine s .stopCondition, .store s .countActiveEvaluatorNodes] ++
      opt f.campaignManaged [.store s .campaignSampleAllowance] ++ [.engine s .generate]) ++
    [.engine s .enqueue]

/-- `SamplerAggregatorRunner::tick`. -/
def samplerTickSteps : List Step :=
  opt f.refreshDue [.store .tick .loadActiveRunTask, .engine .tick .taskConfig] ++
    queueTickSteps f .tick ++ [.engine .tick .processCompletedBatches] ++ produceSteps f .tick ++
    flushAggregationSteps f .tick ++ opt f.progressDue (flushProgressSyncSteps .tick) ++
    opt f.performanceDue (flushPerformanceSnapshotSteps .tick) ++
    [.engine .tick .checkTickTerminalState]

/-- `persist_sampler_checkpoint` of the initial checkpoint. -/
def initialCheckpointSteps : List Step :=
  let s := Stage.initialCheckpoint
  [.store s .recordCheckpointStatus, .engine s .snapshotSampler, .store s .saveSamplerCheckpoint]

/-- `persist_state`: `persist_sampler_checkpoint` of a stage, then the bounded cleanup. -/
def persistStateSteps (s : Stage) : List Step :=
  [.store s .recordCheckpointStatus] ++ insertSteps f s ++
    opt f.fetchFinished [.store s .fetchCompletedBatches, .engine s .processCompletedBatches] ++
    opt f.cleanupFinished [.store s .cleanupConsumedCompletedBatches] ++
    opt f.aggregationSettled [.store s .saveAggregation] ++
    [.engine s .encodeAccumulator, .store s .saveAggregation] ++
    flushPerformanceSnapshotSteps s ++ flushProgressSyncSteps s ++
    [.engine s .snapshotSampler, .store s .getBatchQueueCounts, .store s .saveSamplerCheckpoint] ++
    opt f.consumedCursor [.store s .cleanupConsumedCompletedBatches]

/-- `complete_task`; the measurement never fails the completion. -/
def completeTaskSteps : List Step :=
  persistStateSteps f .complete ++
    [.store .complete .persistTaskMeasurementOutput, .store .complete .completeRunTask]

/-- `build_sampler_runner` up to the runner itself. -/
def buildSamplerSteps : List Step :=
  let s := Stage.activate
  [.store s .loadRunSpec] ++ opt f.specPresent
    ([.store s .initRoleStore, .store s .loadActiveRunTask] ++ opt f.taskActive
      ([.store s .loadSamplerCheckpoint, .store s .loadSamplerCheckpoint,
          .store s .resolveStageContext, .engine s .resolveDomain,
          .store s .loadLatestStageSnapshotBeforeSequence, .store s .resolveTaskSourceSnapshot,
          .store s .recordEvaluatorMetadata, .engine s .accumulatorConfig,
          .engine s .observableState] ++
        opt f.restored [.store s .restoreSamplerCheckpoint] ++ [.store s .loadRunSampleProgress] ++
        opt f.restored [.store s .recordCheckpointStatus] ++ [.engine s .newRunner]))

/-- `build_evaluator_runner`. -/
def buildEvaluatorSteps : List Step :=
  let s := Stage.activate
  [.store s .loadRunSpec] ++ opt (f.specPresent && f.evaluatorConfigured)
    [.store s .initRoleStore, .store s .listenForBatches, .engine s .buildEvaluator]

/-- `EvaluatorRunner::tick`. -/
def evaluatorTickSteps : List Step :=
  let s := Stage.tick
  opt f.reclaimDue [.store s .releaseUntrackedClaims] ++ [.store s .submitBatchResults] ++
    (if f.batchClaimed then
      [.store s .claimBatch] ++
        opt (!f.contextLoaded)
          [.store s .loadRunTask, .store s .resolveStageContext, .engine s .taskContext] ++
        if f.evaluationFailed then
          [.store s .failBatch] ++
            opt f.permanentlyFailed [.store s .failRunTask, .store s .clearDesiredAssignmentsForRun] ++
            opt f.performanceDue [.store s .recordEvaluatorPerformanceSnapshot]
        else [.store s .submitBatchResults]
    else
      [.store s .claimBatch, .store s .waitForWork] ++
        opt f.performanceDue [.store s .recordEvaluatorPerformanceSnapshot])

/-! ## Roles -/

/-- `map_err(|err| StoreError::store(err.to_string()))`. -/
def storeErrResult : Except RunnerError Unit → Except StoreError Unit
  | .ok () => .ok ()
  | .error e => .error (storeErr e.toText)

/-- A store error passes; anything else becomes one by its text. -/
def passStore : Except RunnerError Unit → Except StoreError Unit
  | .ok () => .ok ()
  | .error (.store e) => .error e
  | .error e => .error (.store e.toText)

/-- A permanent error of a sampler's tick: `fail_task`, then the error. -/
def failSamplerTick (env : Env) (err : RunnerError) : Except StoreError Bool :=
  match storeErrResult (runSteps env [.store .failTask .failRunTask]) with
  | .error e => .error e
  | .ok () => (passStore (.error err)).map fun _ => false

/-- The error arms of `RoleRunner::tick` of the sampler aggregator. -/
def samplerTickError (env : Env) : RunnerError → Except StoreError Bool
  | .store e =>
    if e.isDatabaseError || e.isRetryActivation then .error e else failSamplerTick env (.store e)
  | .engine e => failSamplerTick env (.engine e)

/-- `RoleRunner::tick` of the sampler aggregator. -/
def samplerTick (env : Env) : Except StoreError Bool :=
  match runSteps env (samplerTickSteps f) with
  | .ok () =>
    if f.done then (storeErrResult (runSteps env (completeTaskSteps f))).map fun _ => true
    else .ok false
  | .error err => samplerTickError env err

/-- `RoleRunner::tick` of the evaluator. -/
def evaluatorTick (env : Env) : Except StoreError Bool :=
  (passStore (runSteps env (evaluatorTickSteps f))).map fun _ => false

/-- `build_runner_for_target` of a sampler. -/
def buildSampler (env : Env) : Except StoreError Unit :=
  match passStore (runSteps env (buildSamplerSteps f)) with
  | .error e => .error e
  | .ok () =>
    if f.specPresent && f.taskActive && !f.restored then
      storeErrResult (runSteps env initialCheckpointSteps)
    else .ok ()

def buildEvaluator (env : Env) : Except StoreError Unit :=
  passStore (runSteps env (buildEvaluatorSteps f))

/-! ## The node runner -/

inductive Turn where
  | activate (role : WorkerRole)
  | tick (role : WorkerRole)
  | stop (role : WorkerRole)
  deriving DecidableEq, Repr

/-- What a turn ends in: the error that reaches the node runner, if any, and whether the node
runner then marks a task of the run as failed. -/
structure TurnResult where
  delivered : Option StoreError
  failsTask : Bool
  deriving DecidableEq, Repr

/-- `fail_current_assignment`. -/
def failCurrentAssignment (env : Env) (role : WorkerRole) : Bool :=
  if !f.blocked && role == .evaluator then false
  else
    match env.store .failAssignment .loadActiveRunTask with
    | some _ => false
    | none => f.taskActive

/-- A role that has failed to start too often: the active task fails, or else the first pending
sampler task. -/
def failBlockedActivation (env : Env) : Bool :=
  f.blocked &&
    match env.store .failAssignment .loadActiveRunTask with
    | some _ => false
    | none =>
      f.taskActive || (env.store .failAssignment .listRunTasks).isNone && f.samplerTaskPending

/-- The arms of the tick in `NodeRunner::run`. -/
def handleTick (env : Env) (role : WorkerRole) : Except StoreError Bool → TurnResult
  | .ok _ => ⟨none, false⟩
  | .error e =>
    if e.isDatabaseError then ⟨some e, false⟩
    else if e.isRetryActivation then ⟨some e, false⟩
    else ⟨some e, failCurrentAssignment f env role⟩

/-- `build_reconciled_runner` and `start`. -/
def handleBuild (env : Env) : Except StoreError Unit → TurnResult
  | .error e =>
    if e.isDatabaseError then ⟨some e, false⟩
    else if e.isRetryActivation then ⟨some e, false⟩
    else ⟨some e, failBlockedActivation f env⟩
  | .ok () => ⟨env.store .start .setCurrentAssignment, false⟩

def turn (env : Env) : Turn → TurnResult
  | .activate .samplerAggregator => handleBuild f env (buildSampler f env)
  | .activate .evaluator => handleBuild f env (buildEvaluator f env)
  | .tick .samplerAggregator => handleTick f env .samplerAggregator (samplerTick f env)
  | .tick .evaluator => handleTick f env .evaluator (evaluatorTick f env)
  -- `stop_current` logs the error of `stop`
  | .stop _ => ⟨none, false⟩

/-! ## The call that ends a turn -/

/-- A database or retry-activation error. -/
def RunnerError.isTransient : RunnerError → Bool
  | .store e => e.isTransient
  | .engine _ => false

/-- The first call of a list that fails. -/
def firstFault (env : Env) (steps : List Step) : Option (Step × RunnerError) :=
  steps.findSome? fun s => (env.fault s).map fun e => (s, e)

/-- The failing call whose error reaches the node runner, from how the calls end alone: the
first that fails, except that a sampler reports a permanent error of its tick only when
`fail_run_task` then succeeds. -/
def endingFault (env : Env) : Turn → Option (Step × RunnerError)
  | .activate .samplerAggregator =>
    firstFault env (buildSamplerSteps f ++
      (if f.specPresent && f.taskActive && !f.restored then initialCheckpointSteps else []) ++
      [.store .start .setCurrentAssignment])
  | .activate .evaluator =>
    firstFault env (buildEvaluatorSteps f ++ [.store .start .setCurrentAssignment])
  | .tick .samplerAggregator =>
    match firstFault env (samplerTickSteps f) with
    | none => if f.done then firstFault env (completeTaskSteps f) else none
    | some (s, e) =>
      if RunnerError.isTransient e then some (s, e)
      else (firstFault env [.store .failTask .failRunTask]).or (some (s, e))
  | .tick .evaluator => firstFault env (evaluatorTickSteps f)
  | .stop _ => none

/-- A transient error that ends a turn is transient when it reaches the node runner, and no
task is marked failed. -/
def TransientKept (env : Env) (t : Turn) : Prop :=
  ∀ s e, endingFault f env t = some (s, e) → RunnerError.isTransient e = true →
    (∀ e', (turn f env t).delivered = some e' → e'.isTransient = true) ∧
      (turn f env t).failsTask = false

/-- The stretches whose errors go through `store_err`. -/
def Stage.lossy : Stage → Bool
  | .initialCheckpoint | .complete | .failTask => true
  | _ => false

/-! ## Conversions and classes -/

@[simp] theorem isTransient_uncertainInsert (e : StoreError) :
    (uncertainInsert e).isTransient = e.isTransient := by
  cases e <;> rfl

@[simp] theorem isTransient_convert (s : Step) (e : RunnerError) :
    RunnerError.isTransient (s.convert e) = RunnerError.isTransient e := by
  unfold Step.convert
  split
  · exact isTransient_uncertainInsert _
  · rfl

theorem runSteps_eq (env : Env) (steps : List Step) :
    runSteps env steps = match firstFault env steps with
      | none => .ok ()
      | some (s, e) => .error (s.convert e) := by
  induction steps with
  | nil => rfl
  | cons s steps ih =>
    unfold runSteps firstFault
    cases h : env.fault s with
    | none => simpa [h, firstFault] using ih
    | some e => simp [h]

theorem firstFault_append (env : Env) (a b : List Step) :
    firstFault env (a ++ b) = (firstFault env a).or (firstFault env b) := by
  unfold firstFault
  rw [List.findSome?_append]

theorem firstFault_mem {env : Env} {steps : List Step} {s : Step} {e : RunnerError}
    (h : firstFault env steps = some (s, e)) : s ∈ steps := by
  obtain ⟨x, hx, hf⟩ := List.exists_of_findSome?_eq_some h
  rw [Option.map_eq_some_iff] at hf
  obtain ⟨_, _, heq⟩ := hf
  cases heq
  exact hx

/-- Every step of the list is of this stage. -/
def AllAt (stage : Stage) (steps : List Step) : Prop := ∀ s ∈ steps, s.stage = stage

theorem AllAt.fault {stage : Stage} {steps : List Step} (h : AllAt stage steps) {env : Env}
    {s : Step} {e : RunnerError} (hf : firstFault env steps = some (s, e)) : s.stage = stage :=
  h s (firstFault_mem hf)

@[simp] theorem allAt_nil (stage : Stage) : AllAt stage [] := by simp [AllAt]

@[simp] theorem allAt_cons (stage : Stage) (s : Step) (steps : List Step) :
    AllAt stage (s :: steps) ↔ s.stage = stage ∧ AllAt stage steps := by
  simp [AllAt]

@[simp] theorem allAt_append (stage : Stage) (a b : List Step) :
    AllAt stage (a ++ b) ↔ AllAt stage a ∧ AllAt stage b := by
  simp [AllAt, or_imp, forall_and]

@[simp] theorem allAt_opt (stage : Stage) (b : Bool) (steps : List Step) :
    AllAt stage (opt b steps) ↔ (b = true → AllAt stage steps) := by
  cases b <;> simp [opt]

@[simp] theorem stage_store (stage : Stage) (call : StoreCall) :
    (Step.store stage call).stage = stage := rfl

@[simp] theorem stage_engine (stage : Stage) (point : EnginePoint) :
    (Step.engine stage point).stage = stage := rfl

theorem allAt_insertSteps (s : Stage) : AllAt s (insertSteps f s) := by
  simp [insertSteps]

theorem allAt_samplerTickSteps : AllAt .tick (samplerTickSteps f) := by
  simp [samplerTickSteps, queueTickSteps, allAt_insertSteps, produceSteps, flushAggregationSteps,
    flushProgressSyncSteps, flushPerformanceSnapshotSteps]

theorem allAt_completeTaskSteps : AllAt .complete (completeTaskSteps f) := by
  simp [completeTaskSteps, persistStateSteps, allAt_insertSteps, flushProgressSyncSteps,
    flushPerformanceSnapshotSteps]

theorem allAt_initialCheckpointSteps : AllAt .initialCheckpoint initialCheckpointSteps := by
  simp [initialCheckpointSteps]

theorem allAt_buildSamplerSteps : AllAt .activate (buildSamplerSteps f) := by
  simp [buildSamplerSteps]

theorem allAt_buildEvaluatorSteps : AllAt .activate (buildEvaluatorSteps f) := by
  simp [buildEvaluatorSteps]

theorem allAt_evaluatorTickSteps : AllAt .tick (evaluatorTickSteps f) := by
  unfold evaluatorTickSteps
  split
  · split <;> simp
  · simp

/-! ## Where the class is kept -/

/-- The turn ends in an error the node runner retries. -/
def Retried (r : TurnResult) : Prop :=
  (∀ e, r.delivered = some e → e.isTransient = true) ∧ r.failsTask = false

theorem retried_handleTick {env : Env} {role : WorkerRole} {e : StoreError} :
    Retried (handleTick f env role (.error e)) ↔ e.isTransient = true := by
  cases hd : e.isDatabaseError <;> cases hr : e.isRetryActivation <;>
    simp [Retried, handleTick, StoreError.isTransient, hd, hr]

theorem retried_handleBuild {env : Env} {e : StoreError} :
    Retried (handleBuild f env (.error e)) ↔ e.isTransient = true := by
  cases hd : e.isDatabaseError <;> cases hr : e.isRetryActivation <;>
    simp [Retried, handleBuild, StoreError.isTransient, hd, hr]

/-- A transient error is a store error, and passes as it is. -/
theorem passStore_transient {e : RunnerError} (h : RunnerError.isTransient e = true) :
    ∃ e', passStore (.error e) = .error e' ∧ e'.isTransient = true := by
  cases e with
  | store e => exact ⟨e, rfl, h⟩
  | engine e => cases h

theorem passStore_runSteps {env : Env} {steps : List Step} {s : Step} {e : RunnerError}
    (h : firstFault env steps = some (s, e)) (ht : RunnerError.isTransient e = true) :
    ∃ e', passStore (runSteps env steps) = .error e' ∧ e'.isTransient = true := by
  rw [runSteps_eq, h]
  exact passStore_transient (by simpa using ht)

theorem storeErrResult_runSteps {env : Env} {steps : List Step} {s : Step} {e : RunnerError}
    (h : firstFault env steps = some (s, e)) :
    ∃ e', storeErrResult (runSteps env steps) = .error e' ∧ e'.isTransient = false := by
  rw [runSteps_eq, h]
  exact ⟨_, rfl, rfl⟩

theorem runSteps_ok {env : Env} {steps : List Step} (h : firstFault env steps = none) :
    runSteps env steps = .ok () := by
  rw [runSteps_eq, h]

theorem retried_tickEvaluator {env : Env} {s : Step} {e : RunnerError}
    (h : endingFault f env (.tick .evaluator) = some (s, e))
    (ht : RunnerError.isTransient e = true) :
    Retried (turn f env (.tick .evaluator)) ∧ s.stage.lossy = false := by
  obtain ⟨e', he, ht'⟩ := passStore_runSteps h ht
  refine ⟨?_, by rw [(allAt_evaluatorTickSteps f).fault h]; rfl⟩
  simp only [turn, evaluatorTick, he, Except.map]
  exact (retried_handleTick f).2 ht'

theorem retried_start {env : Env} {s : Step} {e : RunnerError}
    (h : firstFault env [.store .start .setCurrentAssignment] = some (s, e))
    (ht : RunnerError.isTransient e = true) :
    Retried (handleBuild f env (.ok ())) ∧ s.stage.lossy = false := by
  cases hs : env.store .start .setCurrentAssignment with
  | none => simp [firstFault, Env.fault, hs] at h
  | some e' =>
    simp only [firstFault, Env.fault, hs, Option.map_some, List.findSome?_cons] at h
    cases h
    exact ⟨⟨fun x hx => by simp only [handleBuild, hs] at hx; cases hx; exact ht, rfl⟩, rfl⟩

theorem retried_activateEvaluator {env : Env} {s : Step} {e : RunnerError}
    (h : endingFault f env (.activate .evaluator) = some (s, e))
    (ht : RunnerError.isTransient e = true) :
    Retried (turn f env (.activate .evaluator)) ∧ s.stage.lossy = false := by
  simp only [endingFault, firstFault_append] at h
  simp only [turn, buildEvaluator]
  cases hb : firstFault env (buildEvaluatorSteps f) with
  | none =>
    rw [hb, Option.none_or] at h
    rw [runSteps_ok hb]
    exact retried_start f h ht
  | some x =>
    rw [hb, Option.some_or] at h
    cases h
    obtain ⟨e', he, ht'⟩ := passStore_runSteps hb ht
    rw [he]
    exact ⟨(retried_handleBuild f).2 ht', by rw [(allAt_buildEvaluatorSteps f).fault hb]; rfl⟩

/-- Building a sampler loses the class of an error of the initial checkpoint, and of no other. -/
theorem retried_activateSampler {env : Env} {s : Step} {e : RunnerError}
    (h : endingFault f env (.activate .samplerAggregator) = some (s, e))
    (ht : RunnerError.isTransient e = true) :
    Retried (turn f env (.activate .samplerAggregator)) ↔ s.stage.lossy = false := by
  simp only [endingFault, firstFault_append] at h
  simp only [turn, buildSampler]
  cases hb : firstFault env (buildSamplerSteps f) with
  | some x =>
    rw [hb, Option.some_or, Option.some_or] at h
    cases h
    obtain ⟨e', he, ht'⟩ := passStore_runSteps hb ht
    rw [he, (allAt_buildSamplerSteps f).fault hb]
    exact iff_of_true ((retried_handleBuild f).2 ht') rfl
  | none =>
    rw [hb, Option.none_or] at h
    rw [runSteps_ok hb]
    simp only [passStore]
    split at h
    · rename_i hinit
      rw [if_pos hinit]
      cases hi : firstFault env initialCheckpointSteps with
      | some x =>
        rw [hi, Option.some_or] at h
        cases h
        obtain ⟨e', he, ht'⟩ := storeErrResult_runSteps hi
        rw [he, retried_handleBuild, ht', allAt_initialCheckpointSteps.fault hi]
        decide
      | none =>
        rw [hi, Option.none_or] at h
        rw [runSteps_ok hi]
        have := retried_start f h ht
        exact iff_of_true this.1 this.2
    · rename_i hinit
      rw [if_neg hinit]
      have := retried_start f h ht
      exact iff_of_true this.1 this.2

theorem samplerTickError_transient (env : Env) {e : RunnerError}
    (h : RunnerError.isTransient e = true) :
    ∃ e', samplerTickError env e = .error e' ∧ e'.isTransient = true := by
  cases e with
  | store e => exact ⟨e, if_pos h, h⟩
  | engine e => cases h

theorem samplerTickError_permanent (env : Env) {e : RunnerError}
    (h : RunnerError.isTransient e = false) : samplerTickError env e = failSamplerTick env e := by
  cases e with
  | store e =>
    have hc : ¬ (e.isDatabaseError || e.isRetryActivation) = true := by
      simpa [RunnerError.isTransient, StoreError.isTransient] using h
    exact if_neg hc
  | engine e => rfl

/-- A sampler tick loses the class of an error of the completion and of `fail_run_task`. -/
theorem retried_tickSampler {env : Env} {s : Step} {e : RunnerError}
    (h : endingFault f env (.tick .samplerAggregator) = some (s, e))
    (ht : RunnerError.isTransient e = true) :
    Retried (turn f env (.tick .samplerAggregator)) ↔ s.stage.lossy = false := by
  simp only [endingFault] at h
  simp only [turn, samplerTick]
  cases hb : firstFault env (samplerTickSteps f) with
  | none =>
    simp only [hb] at h
    rw [runSteps_ok hb]
    split at h
    · rename_i hdone
      obtain ⟨e', he, ht'⟩ := storeErrResult_runSteps h
      simp only [hdone, if_true, he, Except.map]
      rw [retried_handleTick, ht', (allAt_completeTaskSteps f).fault h]
      decide
    · cases h
  | some x =>
    obtain ⟨s', e'⟩ := x
    simp only [hb] at h
    rw [runSteps_eq, hb]
    split at h
    · rename_i hte
      cases h
      obtain ⟨e₁, he, ht₁⟩ := samplerTickError_transient env ((isTransient_convert s e).trans hte)
      simp only [he]
      rw [retried_handleTick, ht₁, (allAt_samplerTickSteps f).fault hb]
      decide
    · rename_i hte
      have hc : RunnerError.isTransient (s'.convert e') = false := by simpa using hte
      cases hf : firstFault env [.store .failTask .failRunTask] with
      | none =>
        rw [hf, Option.none_or] at h
        cases h
        exact absurd ht hte
      | some y =>
        rw [hf, Option.some_or] at h
        cases h
        obtain ⟨e₁, he, ht₁⟩ := storeErrResult_runSteps hf
        have hstage : AllAt .failTask [.store .failTask .failRunTask] := by simp
        simp only [samplerTickError_permanent env hc, failSamplerTick, he]
        rw [retried_handleTick, ht₁, hstage.fault hf]
        decide

/-- **Transient errors stay transient** exactly when the call that ends the turn is not one of
the initial checkpoint, of the completion of the task or of `fail_run_task`, whose errors go
through `store_err`. -/
theorem transientKept_iff (env : Env) (t : Turn) :
    TransientKept f env t ↔
      ∀ s e, endingFault f env t = some (s, e) → RunnerError.isTransient e = true →
        s.stage.lossy = false := by
  refine forall₂_congr fun s e => forall₂_congr fun h ht => ?_
  cases t with
  | activate role =>
    cases role with
    | evaluator =>
      have := retried_activateEvaluator f h ht
      exact iff_of_true this.1 this.2
    | samplerAggregator => exact retried_activateSampler f h ht
  | tick role =>
    cases role with
    | evaluator =>
      have := retried_tickEvaluator f h ht
      exact iff_of_true this.1 this.2
    | samplerAggregator => exact retried_tickSampler f h ht
  | stop role => cases h

/-- The branches of a sampler tick that reports its task as done. -/
def doneFacts : Facts where
  blocked := false
  taskActive := true
  samplerTaskPending := false
  specPresent := true
  evaluatorConfigured := true
  restored := true
  refreshDue := false
  insertsSettled := false
  queueDrained := false
  fetchFinished := false
  cleanupFinished := false
  reclaimDue := false
  drawNeeded := false
  campaignManaged := false
  aggregationSettled := false
  progressDue := false
  performanceDue := false
  consumedCursor := false
  done := true
  batchClaimed := false
  contextLoaded := false
  evaluationFailed := false
  permanentlyFailed := false

/-- The connection drops while a finished task is marked completed. -/
def droppedCompletion : Env where
  store := fun stage call =>
    if stage = .complete ∧ call = .completeRunTask then some (.database "connection reset") else none
  engine := fun _ _ => none

/-- The task is marked failed although all its work is done and saved. -/
theorem not_transientKept : ¬ ∀ f env t, TransientKept f env t := by
  intro h
  have hend : endingFault doneFacts droppedCompletion (.tick .samplerAggregator) =
      some (.store .complete .completeRunTask, .store (.database "connection reset")) := by
    decide
  have hfails : (turn doneFacts droppedCompletion (.tick .samplerAggregator)).failsTask = true := by
    decide
  have hkept := (h doneFacts droppedCompletion (.tick .samplerAggregator) _ _ hend rfl).2
  rw [hfails] at hkept
  cases hkept

end Gammaboard.Runners
