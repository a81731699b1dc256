import Gammaboard.Runners.Evaluator
import Gammaboard.Stores.ClaimProtocol

/-!
# One evaluator and its queue

The runner of `Runners/Evaluator` over the `batches` table. A request is executed at any time
between being sent and being answered, its reply may be lost, and every other party runs its own
statements in between: other evaluators, earlier runners of the same node, samplers, cleanup and
recovery. Uuids are unique: nobody else uses a token this runner drew. A request that has ended in
a fault is not executed later. The state keeps four histories the code does not have: the tokens
drawn, the results evaluated, the submissions the queue accepted and those it answered with lost
ownership.
-/

namespace Gammaboard.Runners

open Gammaboard.Core Gammaboard.Lib Gammaboard.Stores

/-- What the runner is built with; `decode` is `EvaluationBatch::from_bytes`. -/
structure EvaluatorParams (Bytes Batch : Type) where
  runId : Int
  nodeUuid : String
  maxBatchRetries : Nat
  decode : Bytes → Except String Batch

/-- The evaluation of a claimed batch, under the token of its claim. -/
structure WorkItem (Res : Type) where
  batchId : Int
  token : String
  result : Res
  deriving DecidableEq, Repr

/-- A statement of another party on the queue. -/
inductive OtherStatement (Bytes Res : Type) where
  | claim (view : NodesView) (locked : Int → Bool) (runId : Int) (uuid token : String)
  | submit (batchId : Int) (uuid token : String) (result : Res)
  | fail (batchId : Int) (uuid token lastError : String) (maxBatchRetries : Nat)
  | releaseUntracked (runId : Int) (uuid : String) (trackedTokens : List String)
  | reclaimAbandoned (view : NodesView) (runId : Int)
  | insert (runId taskId : Int) (requiresTrainingValues : Bool) (createdAt : Nat)
      (batches : List (NewBatch Bytes))
  /-- `cleanup_consumed_completed_batches`, the discards of a recovery and the cascades. -/
  | delete (doomed : BatchRow Bytes Res → Bool)

namespace OtherStatement

variable {Bytes Res : Type}

/-- The claim token the statement names. -/
def token? : OtherStatement Bytes Res → Option String
  | .claim _ _ _ _ token | .submit _ _ token _ | .fail _ _ token _ _ => some token
  | _ => none

def exec : OtherStatement Bytes Res → List (BatchRow Bytes Res) → List (BatchRow Bytes Res)
  | .claim view locked runId uuid token, rows => (claimBatch view locked runId uuid token rows).2
  | .submit batchId uuid token result, rows => (submitBatchResults batchId uuid token result rows).2
  | .fail batchId uuid token lastError maxBatchRetries, rows =>
    (failBatch batchId uuid token lastError maxBatchRetries rows).2
  | .releaseUntracked runId uuid trackedTokens, rows =>
    releaseUntrackedClaims runId uuid trackedTokens rows
  | .reclaimAbandoned view runId, rows => reclaimAbandonedBatches view runId rows
  | .insert runId taskId requires createdAt batches, rows =>
    (insertBatches runId taskId requires createdAt batches rows).2
  | .delete doomed, rows => rows.filter fun r => !doomed r

end OtherStatement

inductive EvaluatorEvent (Bytes Res : Type) where
  | resume (input : TickInput Res)
  /-- `stop` is called between two ticks. -/
  | startStop
  | executePrefetch (view : NodesView) (locked : Int → Bool)
  | finishPrefetch (fault : Option Fault)
  | executeSubmit
  | finishSubmit (fault : Option Fault)
  /-- The request the tick itself waits for: a reconciliation or a failure report. -/
  | executeRequest
  | finishRequest (fault : Option Fault)
  | other (statement : OtherStatement Bytes Res)

structure EvaluatorState (Bytes Batch Res : Type) where
  rows : List (BatchRow Bytes Res)
  phase : Phase
  runner : EvaluatorRunner Batch Res
  drawn : List String
  evaluated : List (WorkItem Res)
  accepted : List (WorkItem Res)
  disowned : List (WorkItem Res)

/-- The `batches` table as the schema keeps it: a primary key and a unique claim token. -/
structure ClaimTable (Bytes Res : Type) where
  rows : List (BatchRow Bytes Res)
  nodup : (rows.map (·.id)).Nodup
  tokens : ∀ r ∈ rows, ∀ x ∈ rows, ∀ t, r.claimToken = some t → x.claimToken = some t → r = x

variable {Bytes Batch Res : Type}

def Submission.work (s : Submission Res) : WorkItem Res := ⟨s.batchId, s.claimToken, s.result⟩

/-- The evaluated result the active batch holds. -/
def ActiveBatch.work (a : ActiveBatch Batch Res) : Option (WorkItem Res) :=
  match a.evaluation with
  | some (.ok e) => some ⟨a.claim.batchId, a.claim.claimToken, e.result⟩
  | _ => none

namespace EvaluatorRunner

def activeWork (r : EvaluatorRunner Batch Res) : Option (WorkItem Res) :=
  r.activeBatch.bind (·.work)

/-- The results the runner still has in memory. -/
def kept (r : EvaluatorRunner Batch Res) : List (WorkItem Res) :=
  r.activeWork.toList ++ r.submitBuffer.submission.toList.map (·.work)

def setPrefetchHandle (token : String) (handle : Handle (Option (BatchClaim Batch)))
    (r : EvaluatorRunner Batch Res) : EvaluatorRunner Batch Res :=
  { r with prefetchBuffer := { r.prefetchBuffer with pendingPrefetch := some ⟨token, handle⟩ } }

def setSubmitHandle (submission : Submission Res) (handle : Handle SubmitOutcome)
    (r : EvaluatorRunner Batch Res) : EvaluatorRunner Batch Res :=
  { r with submitBuffer := { r.submitBuffer with pendingSubmit := some ⟨submission, handle⟩ } }

end EvaluatorRunner

namespace EvaluatorSystem

/-- The reply of `PgStore::claim_batch`. -/
def claimReply (p : EvaluatorParams Bytes Batch) (token : String) :
    Option (ClaimedBatch Bytes) → Except StoreError (Option (BatchClaim Batch))
  | none => .ok none
  | some c =>
    match p.decode c.input with
    | .ok batch => .ok (some ⟨c.batchId, token, c.taskId, c.requiresTrainingValues, batch⟩)
    | .error m => .error (.database m)

/-- The work whose evaluation ends between the two states of the runner. -/
def newWork (r r' : EvaluatorRunner Batch Res) : List (WorkItem Res) :=
  if r.activeWork.isNone then r'.activeWork.toList else []

def isLost {α : Type} : Except StoreError α → Bool
  | .ok _ => false
  | .error e => e.isBatchOwnershipLost

def init (table : ClaimTable Bytes Res) : EvaluatorState Bytes Batch Res :=
  ⟨table.rows, .idle, .new, [], [], [], []⟩

/-- The awaited request runs: `release_untracked_claims` or `fail_batch`. -/
def executeRequest (p : EvaluatorParams Bytes Batch) (s : EvaluatorState Bytes Batch Res) :
    EvaluatorState Bytes Batch Res :=
  match s.phase, s.runner.activeBatch with
  | .reconciling tokens .sent, _ =>
    { s with
      rows := releaseUntrackedClaims p.runId p.nodeUuid tokens s.rows
      phase := .reconciling tokens (.executed (.ok ())) }
  | .failing .sent, some ⟨claim, some (.error failure)⟩ =>
    let (reply, rows) := failBatch claim.batchId p.nodeUuid claim.claimToken failure.message
      p.maxBatchRetries s.rows
    { s with rows, phase := .failing (.executed reply) }
  | _, _ => s

def finishRequest (fault : Option Fault) : Phase → Phase
  | .reconciling tokens handle => .reconciling tokens (handle.finish fault)
  | .failing handle => .failing (handle.finish fault)
  | phase => phase

/-- The spawned `claim_batch` runs. -/
def executePrefetch (p : EvaluatorParams Bytes Batch) (view : NodesView) (locked : Int → Bool)
    (s : EvaluatorState Bytes Batch Res) : EvaluatorState Bytes Batch Res :=
  match s.runner.prefetchBuffer.pendingPrefetch with
  | some ⟨token, .sent⟩ =>
    let (reply, rows) := claimBatch view locked p.runId p.nodeUuid token s.rows
    { s with
      rows
      runner := s.runner.setPrefetchHandle token (.executed (claimReply p token reply.head?)) }
  | _ => s

/-- The spawned `submit_batch_results` runs. -/
def executeSubmit (p : EvaluatorParams Bytes Batch) (s : EvaluatorState Bytes Batch Res) :
    EvaluatorState Bytes Batch Res :=
  match s.runner.submitBuffer.pendingSubmit with
  | some ⟨submission, .sent⟩ =>
    let (reply, rows) := submitBatchResults submission.batchId p.nodeUuid submission.claimToken
      submission.result s.rows
    { s with
      rows
      runner := s.runner.setSubmitHandle submission
        (.executed (reply.map fun _ => submission.outcome))
      accepted := if ClaimState.completesIn submission.batchId s.rows rows
        then s.accepted ++ [submission.work] else s.accepted
      disowned := if isLost reply then s.disowned ++ [submission.work] else s.disowned }
  | _ => s

def step (p : EvaluatorParams Bytes Batch) (s : EvaluatorState Bytes Batch Res) :
    EvaluatorEvent Bytes Res → EvaluatorState Bytes Batch Res
  | .resume i =>
    -- a drawn uuid is new
    if i.uuid ∈ s.drawn ∨ ∃ r ∈ s.rows, r.claimToken = some i.uuid then s
    else
      let (phase, runner) := s.runner.resume i s.phase
      { s with
        phase, runner
        drawn := i.uuid :: s.drawn
        evaluated := s.evaluated ++ newWork s.runner runner }
  | .startStop =>
    match s.phase with
    | .idle => { s with runner := { s.runner with draining := true } }
    | _ => s
  | .executePrefetch view locked => executePrefetch p view locked s
  | .finishPrefetch fault =>
    match s.runner.prefetchBuffer.pendingPrefetch with
    | some ⟨token, handle⟩ =>
      { s with runner := s.runner.setPrefetchHandle token (handle.finish fault) }
    | none => s
  | .executeSubmit => executeSubmit p s
  | .finishSubmit fault =>
    match s.runner.submitBuffer.pendingSubmit with
    | some ⟨submission, handle⟩ =>
      { s with runner := s.runner.setSubmitHandle submission (handle.finish fault) }
    | none => s
  | .executeRequest => executeRequest p s
  | .finishRequest fault => { s with phase := finishRequest fault s.phase }
  | .other statement =>
    -- nobody else has this runner's tokens, nor reconciles this node's claims
    if (∃ t ∈ statement.token?, t ∈ s.drawn) then s
    else
      match statement with
      | .releaseUntracked runId uuid _ =>
        if runId = p.runId ∧ uuid = p.nodeUuid then s
        else { s with rows := statement.exec s.rows }
      | _ => { s with rows := statement.exec s.rows }

end EvaluatorSystem

end Gammaboard.Runners
