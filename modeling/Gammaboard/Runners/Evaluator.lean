import Gammaboard.Stores.WorkQueue

/-!
# The evaluator loop

`runners/evaluator.rs`: the prefetch buffer, the submission buffer and `tick`. A
request to the database is a `Handle`: sent, executed with its reply on the way,
or finished. `tick` is cut at its awaits. `resume` runs the code from one await
to the next as one step; while the runner waits, its two background requests,
the database and every other party go on. Timings, performance snapshots and
the diagnostic counters are left out.
-/

namespace Gammaboard.Runners

open Gammaboard.Core Gammaboard.Stores

/-- `BatchClaim` of `core/models.rs`; `batch` is the decoded `EvaluationBatch`. -/
structure BatchClaim (Batch : Type) where
  batchId : Int
  claimToken : String
  taskId : Int
  requiresTrainingValues : Bool
  batch : Batch
  deriving DecidableEq, Repr

/-! ## Requests -/

/-- How a spawned request can end without a reply. -/
inductive TaskError where
  | store (error : StoreError)
  | join (message : String)
  deriving DecidableEq, Repr

def TaskError.toStore (label : String) : TaskError → StoreError
  | .store e => e
  | .join m => .store (label ++ m)

/-- The database did not run the request, or its reply was lost. Only the database itself reports
lost ownership. -/
structure Fault where
  error : TaskError
  notLost : ∀ e, error = .store e → e.isBatchOwnershipLost = false

inductive Handle (α : Type) where
  | sent
  | executed (reply : Except StoreError α)
  | finished (outcome : Except TaskError α)

namespace Handle

variable {α : Type}

def isFinished : Handle α → Bool
  | .finished _ => true
  | _ => false

/-- A request ends with its reply or in a fault. -/
def finish (fault : Option Fault) : Handle α → Handle α
  | .sent =>
    match fault with
    | some f => .finished (.error f.error)
    | none => .sent
  | .executed reply =>
    match fault with
    | some f => .finished (.error f.error)
    | none => .finished (reply.mapError .store)
  | .finished outcome => .finished outcome

end Handle

/-! ## The prefetch buffer -/

structure PrefetchTask (Batch : Type) where
  token : String
  handle : Handle (Option (BatchClaim Batch))

structure LatentPrefetchBuffer (Batch : Type) where
  readyBatch : Option (BatchClaim Batch)
  /-- Kept across a failed claim request: the retry recovers the same row. -/
  claimToken : Option String
  pendingPrefetch : Option (PrefetchTask Batch)

namespace LatentPrefetchBuffer

variable {Batch : Type}

def new : LatentPrefetchBuffer Batch := ⟨none, none, none⟩

def hasPendingWork (b : LatentPrefetchBuffer Batch) : Bool :=
  b.readyBatch.isSome || b.claimToken.isSome

/-- `maybe_start_prefetch`; `uuid` is the one it would draw. -/
def maybeStartPrefetch (uuid : String) (draining : Bool) (b : LatentPrefetchBuffer Batch) :
    LatentPrefetchBuffer Batch :=
  if b.readyBatch.isSome || b.pendingPrefetch.isSome || (draining && b.claimToken.isNone) then b
  else
    let token := b.claimToken.getD uuid
    { b with claimToken := some token, pendingPrefetch := some ⟨token, .sent⟩ }

def prefetchFinished (b : LatentPrefetchBuffer Batch) : Bool :=
  b.pendingPrefetch.any (·.handle.isFinished)

/-- `finish_prefetch`, once the handle it awaits is finished. -/
def finishPrefetch (b : LatentPrefetchBuffer Batch) :
    Except StoreError Unit × LatentPrefetchBuffer Batch :=
  match b.pendingPrefetch with
  | some ⟨_, .finished (.ok claimed)⟩ => (.ok (), ⟨claimed, none, none⟩)
  | some ⟨_, .finished (.error e)⟩ =>
    (.error (e.toStore "evaluator prefetch task failed: "), { b with pendingPrefetch := none })
  | _ => (.ok (), b)

end LatentPrefetchBuffer

/-! ## The submission buffer -/

structure SubmitOutcome where
  processedSamples : Nat
  deriving DecidableEq, Repr

structure Submission (Res : Type) where
  batchId : Int
  taskId : Int
  claimToken : String
  result : Res
  outcome : SubmitOutcome
  deriving DecidableEq, Repr

structure SubmitTask (Res : Type) where
  submission : Submission Res
  handle : Handle SubmitOutcome

structure ResultSubmitBuffer (Res : Type) where
  submission : Option (Submission Res)
  pendingSubmit : Option (SubmitTask Res)

namespace ResultSubmitBuffer

variable {Res : Type}

def new : ResultSubmitBuffer Res := ⟨none, none⟩

def isIdle (b : ResultSubmitBuffer Res) : Bool := b.submission.isNone

def ensureSubmit (b : ResultSubmitBuffer Res) : ResultSubmitBuffer Res :=
  match b.pendingSubmit, b.submission with
  | none, some submission => { b with pendingSubmit := some ⟨submission, .sent⟩ }
  | _, _ => b

def startSubmit (submission : Submission Res) (b : ResultSubmitBuffer Res) :
    ResultSubmitBuffer Res :=
  { b with submission := some submission }.ensureSubmit

def submitFinished (b : ResultSubmitBuffer Res) : Bool :=
  b.pendingSubmit.any (·.handle.isFinished)

/-- `wait_for_slot`, once the handle it awaits is finished. -/
def waitForSlot (b : ResultSubmitBuffer Res) :
    Except StoreError (Option SubmitOutcome) × ResultSubmitBuffer Res :=
  match b.pendingSubmit with
  | some ⟨_, .finished (.ok outcome)⟩ => (.ok (some outcome), ⟨none, none⟩)
  | some ⟨_, .finished (.error (.store e))⟩ =>
    if e.isBatchOwnershipLost then (.ok none, ⟨none, none⟩)
    else (.error e, { b with pendingSubmit := none })
  | some ⟨_, .finished (.error (.join m))⟩ =>
    (.error (.store ("evaluator submit task failed: " ++ m)), { b with pendingSubmit := none })
  | _ => (.ok none, b)

end ResultSubmitBuffer

/-! ## The runner -/

structure EvaluatedBatch (Res : Type) where
  result : Res
  processedSamples : Nat
  deriving DecidableEq, Repr

structure FailedEvaluation where
  message : String
  outcome : Option BatchFailOutcome
  deriving DecidableEq, Repr

structure ActiveBatch (Batch Res : Type) where
  claim : BatchClaim Batch
  evaluation : Option (Except FailedEvaluation (EvaluatedBatch Res))

structure EvaluatorRunner (Batch Res : Type) where
  prefetchBuffer : LatentPrefetchBuffer Batch
  submitBuffer : ResultSubmitBuffer Res
  activeBatch : Option (ActiveBatch Batch Res)
  draining : Bool
  batchesCompletedTotal : Nat
  samplesEvaluatedTotal : Nat

/-- What follows a performance snapshot. -/
inductive AfterFlush where
  | fetching
  | handOver
  | idle
  | stopped
  deriving DecidableEq, Repr

/-- Where `tick` or `stop` is suspended. -/
inductive Phase where
  /-- Between two ticks. -/
  | idle
  | reconciling (tokens : List String) (handle : Handle Unit)
  | consuming
  | fetching
  | prefetching
  | loadingContext
  | failing (handle : Handle BatchFailOutcome)
  | reportingFailure
  | waitingSlot
  | flushing (next : AfterFlush)
  | stopping
  | stopped

/-- What the world answers in one step: the uuid a claim would draw, whether reconciliation is
due, whether the store call waited for succeeded, and what the evaluation gives. -/
structure TickInput (Res : Type) where
  uuid : String
  due : Bool
  answered : Bool
  evaluation : Except String (EvaluatedBatch Res)

namespace EvaluatorRunner

variable {Batch Res : Type}

def new : EvaluatorRunner Batch Res := ⟨.new, .new, none, false, 0, 0⟩

/-- The tokens `reconcile_claims` sends. -/
def trackedTokens (r : EvaluatorRunner Batch Res) : List String :=
  r.prefetchBuffer.claimToken.toList
    ++ r.prefetchBuffer.readyBatch.toList.map (·.claimToken)
    ++ r.activeBatch.toList.map (·.claim.claimToken)
    ++ r.submitBuffer.submission.toList.map (·.claimToken)

/-- `observe_eval_batch`. -/
def observeEvalBatch (outcome : SubmitOutcome) (r : EvaluatorRunner Batch Res) :
    EvaluatorRunner Batch Res :=
  { r with
    batchesCompletedTotal := r.batchesCompletedTotal + 1
    samplesEvaluatedTotal := r.samplesEvaluatedTotal + outcome.processedSamples }

/-- The submission's reply, and where the runner goes on with or without a snapshot. -/
def takeReply (next : AfterFlush)
    (without : EvaluatorRunner Batch Res → Phase × EvaluatorRunner Batch Res)
    (r : EvaluatorRunner Batch Res) : Phase × EvaluatorRunner Batch Res :=
  match r.submitBuffer.waitForSlot with
  | (.error _, b) => (.idle, { r with submitBuffer := b })
  | (.ok none, b) => without { r with submitBuffer := b }
  | (.ok (some outcome), b) =>
    (.flushing next, ({ r with submitBuffer := b }.observeEvalBatch outcome))

/-- `consume_finished_submit`. -/
def consumeFinishedSubmit (r : EvaluatorRunner Batch Res) : Phase × EvaluatorRunner Batch Res :=
  let r := { r with submitBuffer := r.submitBuffer.ensureSubmit }
  if r.submitBuffer.submitFinished then r.takeReply .fetching (.fetching, ·) else (.fetching, r)

/-- The end of `pop`: take the ready batch and ask for the next one. -/
def takeReady (uuid : String) (r : EvaluatorRunner Batch Res) :
    Phase × EvaluatorRunner Batch Res :=
  match r.prefetchBuffer.readyBatch with
  | none => (.flushing .idle, r)
  | some claim =>
    let taken := { r.prefetchBuffer with readyBatch := none }
    (.loadingContext,
      { r with
        prefetchBuffer := taken.maybeStartPrefetch uuid r.draining
        activeBatch := some ⟨claim, none⟩ })

/-- `pop`, once the request it may wait for is finished. -/
def finishPop (uuid : String) (r : EvaluatorRunner Batch Res) :
    Phase × EvaluatorRunner Batch Res :=
  match r.prefetchBuffer.finishPrefetch with
  | (.error _, b) => (.idle, { r with prefetchBuffer := b })
  | (.ok (), b) => takeReady uuid { r with prefetchBuffer := b }

/-- `pop` with no finished request. -/
def startPop (uuid : String) (r : EvaluatorRunner Batch Res) : Phase × EvaluatorRunner Batch Res :=
  if r.prefetchBuffer.readyBatch.isSome then r.takeReady uuid
  else
    let r := { r with prefetchBuffer := r.prefetchBuffer.maybeStartPrefetch uuid r.draining }
    if r.prefetchBuffer.pendingPrefetch.isSome then (.prefetching, r) else r.takeReady uuid

/-- `pop`, up to the wait for its request. -/
def pop (uuid : String) (r : EvaluatorRunner Batch Res) : Phase × EvaluatorRunner Batch Res :=
  if r.prefetchBuffer.prefetchFinished then
    match r.prefetchBuffer.finishPrefetch with
    | (.error _, b) => (.idle, { r with prefetchBuffer := b })
    | (.ok (), b) => startPop uuid { r with prefetchBuffer := b }
  else r.startPop uuid

/-- `evaluate_claim`; the evaluation itself is the engine's. -/
def evaluateClaim (evaluation : Except String (EvaluatedBatch Res))
    (active : ActiveBatch Batch Res) : ActiveBatch Batch Res :=
  { active with evaluation := some (evaluation.mapError (⟨·, none⟩)) }

/-- `tick` with an evaluated batch: report its failure or wait for the submission slot. -/
def evaluated (r : EvaluatorRunner Batch Res) (active : ActiveBatch Batch Res) :
    Phase × EvaluatorRunner Batch Res :=
  match active.evaluation with
  | some (.error ⟨_, none⟩) => (.failing .sent, { r with activeBatch := some active })
  | some (.error ⟨_, some _⟩) => (.reportingFailure, { r with activeBatch := some active })
  | _ => (.waitingSlot, { r with activeBatch := some active })

/-- `tick` after `ensure_task_context`: a failure to load the context keeps the claim. -/
def contextLoaded (i : TickInput Res) (r : EvaluatorRunner Batch Res) :
    Phase × EvaluatorRunner Batch Res :=
  match r.activeBatch with
  | none => (.idle, r)
  | some active =>
    if active.evaluation.isSome then r.evaluated active
    else if i.answered then r.evaluated (evaluateClaim i.evaluation active)
    else (.idle, r)

/-- `persist_batch_failure`, once `fail_batch` is answered. -/
def failAnswered (outcome : Except TaskError BatchFailOutcome) (r : EvaluatorRunner Batch Res) :
    Phase × EvaluatorRunner Batch Res :=
  match outcome with
  | .ok outcome =>
    (.reportingFailure,
      { r with
        activeBatch := r.activeBatch.map fun active =>
          { active with
            evaluation := active.evaluation.map
              (Except.mapError ({ · with outcome := some outcome })) } })
  | .error (.store e) =>
    if e.isBatchOwnershipLost then (.idle, { r with activeBatch := none }) else (.idle, r)
  | .error (.join _) => (.idle, r)

/-- The outcome `persist_batch_failure` keeps with the batch. -/
def failOutcome (r : EvaluatorRunner Batch Res) : Option BatchFailOutcome :=
  match r.activeBatch with
  | some ⟨_, some (.error f)⟩ => f.outcome
  | _ => none

/-- `persist_batch_failure` with the outcome: a permanent failure first fails the task and clears
the assignments. -/
def failureReported (answered : Bool) (r : EvaluatorRunner Batch Res) :
    Phase × EvaluatorRunner Batch Res :=
  match r.failOutcome with
  | some (.permanentlyFailed _ _) =>
    if answered then (.flushing .idle, { r with activeBatch := none }) else (.idle, r)
  | _ => (.flushing .idle, { r with activeBatch := none })

/-- The end of `tick`: the evaluated batch becomes the submission. -/
def handOver (r : EvaluatorRunner Batch Res) : Phase × EvaluatorRunner Batch Res :=
  match r.activeBatch with
  | some ⟨claim, some (.ok evaluated)⟩ =>
    (.idle,
      { r with
        activeBatch := none
        submitBuffer := r.submitBuffer.startSubmit
          ⟨claim.batchId, claim.taskId, claim.claimToken, evaluated.result,
            ⟨evaluated.processedSamples⟩⟩ })
  | _ => (.idle, r)

/-- `tick` at the submission slot. -/
def slot (r : EvaluatorRunner Batch Res) : Phase × EvaluatorRunner Batch Res :=
  if r.submitBuffer.isIdle then r.handOver
  else
    let r := { r with submitBuffer := r.submitBuffer.ensureSubmit }
    if r.submitBuffer.submitFinished then r.takeReply .handOver handOver else (.waitingSlot, r)

/-- `stop` with nothing fetched or active any more: the last submission. -/
def stopSlot (r : EvaluatorRunner Batch Res) : Phase × EvaluatorRunner Batch Res :=
  let r := { r with submitBuffer := r.submitBuffer.ensureSubmit }
  match r.submitBuffer.pendingSubmit with
  | none => (.flushing .stopped, r)
  | some _ =>
    if r.submitBuffer.submitFinished then r.takeReply .stopped (.flushing .stopped, ·)
    else (.stopping, r)

/-- The start of a tick. `stop` starts ticks until nothing is fetched or active. -/
def startTick (due : Bool) (r : EvaluatorRunner Batch Res) : Phase × EvaluatorRunner Batch Res :=
  if r.draining && r.activeBatch.isNone && !r.prefetchBuffer.hasPendingWork then (.stopping, r)
  else if due then (.reconciling r.trackedTokens .sent, r)
  else (.consuming, r)

/-- The code from one await to the next. -/
def resume (i : TickInput Res) :
    Phase → EvaluatorRunner Batch Res → Phase × EvaluatorRunner Batch Res
  | .idle, r => r.startTick i.due
  | .reconciling _ (.finished (.ok ())), r => (.consuming, r)
  | .reconciling _ (.finished (.error _)), r => (.idle, r)
  | .consuming, r => r.consumeFinishedSubmit
  | .fetching, r => if r.activeBatch.isSome then (.loadingContext, r) else r.pop i.uuid
  | .prefetching, r =>
    if r.prefetchBuffer.prefetchFinished then r.finishPop i.uuid else (.prefetching, r)
  | .loadingContext, r => r.contextLoaded i
  | .failing (.finished outcome), r => r.failAnswered outcome
  | .reportingFailure, r => r.failureReported i.answered
  | .waitingSlot, r => r.slot
  | .flushing next, r =>
    if i.answered then
      match next with
      | .fetching => (.fetching, r)
      | .handOver => r.handOver
      | .idle => (.idle, r)
      | .stopped => (.stopped, r)
    else (.idle, r)
  | .stopping, r => r.stopSlot
  | phase, r => (phase, r)

end EvaluatorRunner

end Gammaboard.Runners
