import Gammaboard.Evaluation.Accumulator
import Gammaboard.Runners.Queue
import Gammaboard.Stores.Recovery

/-!
# The sampler aggregator

`runners/sampler_aggregator.rs`: one worker generates draws, hands them to the
queue in pieces, merges completed batches into the accumulator and feeds them
back to the sampler. The sampler and the floating-point estimates are the
operations of `SamplerOps`. `merged` records the batches merged since the task
began and `fed` the ids of the batches whose feedback was accepted; nothing
reads them.
-/

namespace Gammaboard.Runners

open Gammaboard.Core Gammaboard.Stores Gammaboard.Sampling Gammaboard.Evaluation

variable {V P A M C : Type}

/-- What a sampler answers when asked for a draw. -/
inductive Generation (P : Type) where
  | waiting
  | finished
  | batch (batch : LatentBatch P) (trainingRemaining : Option Nat)

/-- The errors of the estimate a stop condition selects. -/
structure StopEstimate (V : Type) where
  error : V
  relativeError : V
  deriving DecidableEq, Repr

/-- The sampler, the latent payload and the float comparisons of the stop condition. -/
structure SamplerOps (V P A M C : Type) where
  finite : V → Bool
  payload : PayloadOps P
  /-- The accumulator configuration and evaluation plan sent with every batch. -/
  request : A → C
  generate : M → Nat → M × Except EngineError (Generation P)
  feedback : M → Feedback V → M × Option EngineError
  snapshot : M → M × Except EngineError M
  kindStr : A → String
  uncertaintyReady : A → Bool
  estimateForStop : A → Except EngineError (Option (StopEstimate V))
  /-- The error is finite and at most the target. -/
  reaches : V → V → Bool
  stopTarget : String

structure Kit (V P A M C : Type) where
  sampler : SamplerOps V P A M C
  accumulator : AccumulatorOps A

structure SampleStopCondition (V : Type) where
  minSamples : Option Int
  maxSamples : Option Int
  absoluteError : Option V
  relativeError : Option V
  deriving DecidableEq, Repr

/-- What the aggregator reads of its task. -/
structure SampleTask (V : Type) where
  id : Int
  nrExpectedSamples : Option Int
  stopCondition : Option (SampleStopCondition V)
  deriving DecidableEq, Repr

structure SamplerAggregatorRunner (V P A M C : Type) where
  task : SampleTask V
  nrProducedSamples : Int
  nrCompletedSamples : Int
  sampler : M
  observableState : A
  runtimeState : SamplerProgress V P
  queue : SamplerQueue P C (BatchResult V A)
  waitingForCampaignBudget : Bool
  campaignManaged : Option Bool
  merged : List (CompletedBatch (BatchResult V A))
  fed : List Int

structure CompletedIngestStats where
  completedBatches : Nat
  completedSamplesDelta : Int
  deriving DecidableEq, Repr

structure StopConditionStatus where
  reached : Bool
  maxSamplesReached : Bool
  absoluteErrorReached : Bool
  relativeErrorReached : Bool
  minSamplesReached : Bool
  deriving DecidableEq, Repr

/-- What a tick learns from the store while it produces. -/
structure ProduceReplies where
  /-- `count_active_evaluator_nodes`. -/
  activeEvaluators : Except StoreError Nat
  /-- `campaign_sample_allowance`. -/
  allowance : Except StoreError (Option Int)

/-- What the part of a tick after the queue's learns from outside. -/
structure TickReplies where
  tuned : Nat
  cleanupDue : Bool
  produce : ProduceReplies
  /-- The publications at the end: aggregation, progress and performance. -/
  published : Except RunnerError Unit

namespace SamplerAggregatorRunner

variable (kit : Kit V P A M C)

/-! ## Ingestion -/

/-- The training values of one batch: checked, assembled into the feedback of their draw, and
fed to the sampler when the draw is complete. -/
def ingestTraining (b : CompletedBatch (BatchResult V A)) (r : SamplerAggregatorRunner V P A M C) :
    SamplerAggregatorRunner V P A M C × Option EngineError :=
  match b.result.feedback with
  | none =>
    (r, some (.engine ("completed batch " ++ toString b.batchId
      ++ " requires training but has no training values")))
  | some trainingValues =>
    if trainingValues.len ≠ b.batchSize then
      (r, some (.engine ("completed batch " ++ toString b.batchId
        ++ " training value count mismatch: expected " ++ toString b.batchSize ++ ", got "
        ++ toString trainingValues.len)))
    else
      match r.runtimeState.generation.acceptFeedback kit.sampler.finite trainingValues with
      | .error e => (r, some e)
      | .ok (generation, assembled) =>
        let r := { r with
          runtimeState := { r.runtimeState with generation }, fed := r.fed ++ [b.batchId] }
        match assembled with
        | none => (r, none)
        | some values =>
          match kit.sampler.feedback r.sampler values with
          | (sampler, some e) => ({ r with sampler }, some e)
          | (sampler, none) =>
            ({ r with
                sampler
                runtimeState := { r.runtimeState with
                  ingestedBatchesTotal := r.runtimeState.ingestedBatchesTotal + 1
                  ingestedSamplesTotal := r.runtimeState.ingestedSamplesTotal + values.len } },
              none)

/-- Merge the accumulator of one batch. -/
def ingestAccumulator (b : CompletedBatch (BatchResult V A))
    (r : SamplerAggregatorRunner V P A M C) :
    SamplerAggregatorRunner V P A M C × Option EngineError :=
  match kit.accumulator.merge r.observableState b.result.accumulator with
  | (observableState, some e) => ({ r with observableState }, some e)
  | (observableState, none) => ({ r with observableState, merged := r.merged ++ [b] }, none)

/-- The body of the loop of `process_completed_batches`. -/
def ingestBatch (b : CompletedBatch (BatchResult V A)) (r : SamplerAggregatorRunner V P A M C) :
    SamplerAggregatorRunner V P A M C × Option EngineError :=
  if b.requiresTrainingValues then
    match ingestTraining kit b r with
    | (r, some e) => (r, some e)
    | (r, none) => ingestAccumulator kit b r
  else ingestAccumulator kit b r

/-- The loop: the first error ends it and keeps what has been changed so far. -/
def ingestAll : List (CompletedBatch (BatchResult V A)) → SamplerAggregatorRunner V P A M C →
    SamplerAggregatorRunner V P A M C × Option EngineError
  | [], r => (r, none)
  | b :: rest, r =>
    match ingestBatch kit b r with
    | (r, some e) => (r, some e)
    | (r, none) => ingestAll rest r

/-- The samples of completed batches. -/
def sizeOf (completed : List (CompletedBatch (BatchResult V A))) : Int :=
  (completed.map fun b => (b.batchSize : Int)).sum

/-- What is left to do once every batch of the group has been ingested. -/
def finishIngest (completed : List (CompletedBatch (BatchResult V A))) (cleanupDue : Bool)
    (r : SamplerAggregatorRunner V P A M C) : SamplerAggregatorRunner V P A M C :=
  { r with
    nrCompletedSamples := r.nrCompletedSamples + sizeOf completed
    runtimeState := { r.runtimeState with
      accumulatorCheckpointState :=
        if 0 < sizeOf completed then .ready else r.runtimeState.accumulatorCheckpointState }
    queue := r.queue.markProcessed completed cleanupDue }

/-- `process_completed_batches`; `tuned` is the batch size after the group's evaluation times
have been observed. -/
def processCompletedBatches (completed : List (CompletedBatch (BatchResult V A))) (tuned : Nat)
    (cleanupDue : Bool) (r : SamplerAggregatorRunner V P A M C) :
    SamplerAggregatorRunner V P A M C × Except RunnerError CompletedIngestStats :=
  if completed.isEmpty then (r, .ok ⟨0, 0⟩)
  else
    match completed.find? fun b => b.taskId != r.task.id with
    | some b =>
      (r, .error (.store (.store ("completed batch " ++ toString b.batchId ++ " belongs to task "
        ++ toString b.taskId ++ ", expected task " ++ toString r.task.id))))
    | none =>
      let (r, refused) := ingestAll kit completed { r with queue := r.queue.tuned tuned }
      match refused with
      | some e => (r, .error (.engine e))
      | none => (r.finishIngest completed cleanupDue, .ok ⟨completed.length, sizeOf completed⟩)

/-! ## Stop conditions -/

def context (r : SamplerAggregatorRunner V P A M C) : String :=
  "run " ++ toString r.queue.runId ++ " task " ++ toString r.task.id

/-- `active_sample_remaining_budget`. -/
def activeSampleRemainingBudget (r : SamplerAggregatorRunner V P A M C) :
    Except RunnerError (Option Nat) :=
  let target := r.task.stopCondition.elim r.task.nrExpectedSamples (·.maxSamples)
  match target with
  | none => .ok none
  | some target =>
    let remaining := target - r.nrProducedSamples - r.runtimeState.generation.pendingSamples
    if remaining < 0 then
      .error (.engine (.engine (r.context ++ " produced sample count exceeded target: produced="
        ++ toString r.nrProducedSamples ++ " target="
        ++ toString (remaining + r.nrProducedSamples))))
    else .ok (some remaining.toNat)

/-- `stop_condition_status`. -/
def stopConditionStatus (r : SamplerAggregatorRunner V P A M C) :
    Except RunnerError StopConditionStatus :=
  match r.task.stopCondition with
  | none =>
    let reached := r.task.nrExpectedSamples.any fun target => decide (target ≤ r.nrCompletedSamples)
    .ok ⟨reached, reached, false, false, true⟩
  | some stop =>
    match kit.sampler.estimateForStop r.observableState with
    | .error e => .error (.engine e)
    | .ok projected =>
      let minSamplesReached := kit.sampler.uncertaintyReady r.observableState
        && stop.minSamples.all fun target => decide (target ≤ r.nrCompletedSamples)
      if minSamplesReached && (stop.absoluteError.isSome || stop.relativeError.isSome)
          && projected.isNone then
        .error (.engine (.engine (r.context ++ " stop_condition target " ++ kit.sampler.stopTarget
          ++ " is incompatible with accumulator " ++ kit.sampler.kindStr r.observableState
          ++ " or has no uncertainty")))
      else
        let maxSamplesReached :=
          stop.maxSamples.any fun target => decide (target ≤ r.nrCompletedSamples)
        let absoluteErrorReached := minSamplesReached && stop.absoluteError.any fun target =>
          projected.any fun e => kit.sampler.reaches target e.error
        let relativeErrorReached := minSamplesReached && stop.relativeError.any fun target =>
          projected.any fun e => kit.sampler.reaches target e.relativeError
        .ok ⟨maxSamplesReached || absoluteErrorReached || relativeErrorReached, maxSamplesReached,
          absoluteErrorReached, relativeErrorReached, minSamplesReached⟩

/-! ## Production -/

/-- `enqueue_generated`: cut the buffered draw and hand the pieces to the queue. -/
def enqueueGenerated (slots chunkSize : Nat) (src : IdSource)
    (r : SamplerAggregatorRunner V P A M C) :
    IdSource × SamplerAggregatorRunner V P A M C × Except RunnerError Nat :=
  let requiresFeedback := r.runtimeState.generation.requiresFeedback
  match r.runtimeState.generation.takeBatches kit.sampler.payload slots chunkSize with
  | (generation, .error e) =>
    (src, { r with runtimeState := { r.runtimeState with generation } }, .error (.engine e))
  | (generation, .ok batches) =>
    let samples : Int := (batches.map fun b => (b.nrSamples : Int)).sum
    let work := batches.map fun b => ⟨b, kit.sampler.request r.observableState⟩
    let (src, queue) := r.queue.ingest work requiresFeedback src
    (src,
      { r with
        nrProducedSamples := r.nrProducedSamples + samples
        runtimeState := { r.runtimeState with
          generation
          producedBatchesTotal := r.runtimeState.producedBatchesTotal + batches.length
          producedSamplesTotal := r.runtimeState.producedSamplesTotal + samples }
        queue },
      .ok batches.length)

/-- The end of `produce`: the pieces of the buffered draw that this tick may send. -/
def enqueueSlots (src : IdSource) (r : SamplerAggregatorRunner V P A M C) :
    IdSource × SamplerAggregatorRunner V P A M C × Except RunnerError (Nat × Bool) :=
  let sent :=
    if r.runtimeState.accumulatorCheckpointState = .needsInitialRoundTrip then
      -- one small batch must come back before the next is sent
      enqueueGenerated kit 1 minBatchSize src
        { r with runtimeState := { r.runtimeState with
            accumulatorCheckpointState := .waitingForInitialRoundTrip } }
    else
      let sized := r.queue.productionBatchSize r.runtimeState.generation.trainingRemaining
      enqueueGenerated kit r.queue.config.maxBatchesPerTick sized.2 src { r with queue := sized.1 }
  (sent.1, sent.2.1, sent.2.2.map fun count => (count, true))

/-- The middle of `produce`: ask the sampler for a draw of at most `maxSamples` and buffer it.
`some` ends the tick's production. -/
def generateDraw (maxSamples : Nat) (r : SamplerAggregatorRunner V P A M C) :
    SamplerAggregatorRunner V P A M C × Option (Except RunnerError (Nat × Bool)) :=
  match kit.sampler.generate r.sampler maxSamples with
  | (sampler, .error e) => ({ r with sampler }, some (.error (.engine e)))
  | (sampler, .ok .waiting) => ({ r with sampler }, some (.ok (0, false)))
  | (sampler, .ok .finished) =>
    ({ r with
        sampler
        runtimeState := { r.runtimeState with
          generation := { r.runtimeState.generation with finished := true } } },
      some (.ok (0, false)))
  | (sampler, .ok (.batch batch trainingRemaining)) =>
    let r := { r with sampler }
    if batch.nrSamples = 0 ∨ maxSamples < batch.nrSamples ∨
        trainingRemaining.any (fun n => decide (n < batch.nrSamples)) then
      (r, some (.error (.engine (.engine
        "sampler returned a draw outside its budget or training window"))))
    else
      match r.runtimeState.generation.bufferDraw kit.sampler.payload batch trainingRemaining with
      | .error e => (r, some (.error (.engine e)))
      | .ok generation =>
        let generation :=
          if trainingRemaining.isSome then generation.recordDraw batch.nrSamples else generation
        ({ r with runtimeState := { r.runtimeState with generation } }, none)

/-- The start of `produce`: whether this tick may ask for a draw. -/
def prepareDraw (counts : BatchQueueCounts) (replies : ProduceReplies)
    (r : SamplerAggregatorRunner V P A M C) :
    SamplerAggregatorRunner V P A M C × Option (Except RunnerError (Nat × Bool)) :=
  if r.runtimeState.generation.finished then (r, some (.ok (0, false)))
  else
    match r.activeSampleRemainingBudget with
    | .error e => (r, some (.error e))
    | .ok budget =>
      if budget = some 0 then (r, some (.ok (0, false)))
      else
        match stopConditionStatus kit r with
        | .error e => (r, some (.error e))
        | .ok status =>
          if status.reached then (r, some (.ok (0, false)))
          else
            match replies.activeEvaluators with
            | .error e => (r, some (.error (.store e)))
            | .ok evaluators =>
              let r := { r with
                queue := { r.queue with cachedActiveEvaluatorCount := some evaluators } }
              if ¬(0 < evaluators ∧ counts.pending.toNat < evaluators) then
                (r, some (.ok (0, true)))
              else
                match (if r.campaignManaged = some false then .ok none else replies.allowance) with
                | .error e => (r, some (.error (.store e)))
                | .ok allowance =>
                  let r := { r with campaignManaged := some allowance.isSome }
                  let campaignRemaining := allowance.map fun a => (a - r.nrProducedSamples).toNat
                  if campaignRemaining = some 0 then
                    ({ r with waitingForCampaignBudget := true }, some (.ok (0, true)))
                  else
                    let maxSamples := min r.queue.config.maxGenerationSize
                      (min (budget.getD r.queue.config.maxGenerationSize)
                        (campaignRemaining.getD r.queue.config.maxGenerationSize))
                    generateDraw kit maxSamples r

/-- `produce`. -/
def produce (counts : BatchQueueCounts) (replies : ProduceReplies) (src : IdSource)
    (r : SamplerAggregatorRunner V P A M C) :
    IdSource × SamplerAggregatorRunner V P A M C × Except RunnerError (Nat × Bool) :=
  let r := { r with waitingForCampaignBudget := false }
  if r.runtimeState.accumulatorCheckpointState = .waitingForInitialRoundTrip then
    (src, r, .ok (0, true))
  else if r.runtimeState.generation.hasPending then enqueueSlots kit src r
  else
    match prepareDraw kit counts replies r with
    | (r, some result) => (src, r, result)
    | (r, none) => enqueueSlots kit src r

/-! ## The end of a tick -/

def noProgressIsTerminal (stopReached : Bool) (openBatchCount : Nat) (failedBatches : Int)
    (completedBatches producedBatches : Nat) (samplerWantsToProduce : Bool)
    (activeEvaluatorCount : Option Nat) : Bool :=
  !stopReached && openBatchCount == 0 && failedBatches == 0 && completedBatches == 0
    && producedBatches == 0 && !(samplerWantsToProduce && activeEvaluatorCount == some 0)

/-- `check_tick_terminal_state`. -/
def checkTickTerminalState (counts : BatchQueueCounts) (completedBatches producedBatches : Nat)
    (samplerWantsToProduce : Bool) (r : SamplerAggregatorRunner V P A M C) :
    Except RunnerError Bool :=
  let openBatchCount := (counts.openCount + producedBatches).toNat
  match stopConditionStatus kit r with
  | .error e => .error e
  | .ok status =>
    if !r.runtimeState.generation.finished && !r.waitingForCampaignBudget &&
        noProgressIsTerminal status.reached openBatchCount counts.failed completedBatches
          producedBatches samplerWantsToProduce r.queue.cachedActiveEvaluatorCount then
      .error (.engine (.engine (r.context
        ++ " cannot make further progress: stop condition not reached (min_samples_reached="
        ++ toString status.minSamplesReached ++ ", max_samples_reached="
        ++ toString status.maxSamplesReached ++ ", absolute_error_reached="
        ++ toString status.absoluteErrorReached ++ ", relative_error_reached="
        ++ toString status.relativeErrorReached ++ ") and sampler produced no new batches")))
    else
      .ok ((status.reached || r.runtimeState.generation.finished) && openBatchCount == 0
        && !r.runtimeState.generation.hasOutstanding)

/-- `tick` after `queue.tick`: ingest, produce, publish, and check whether the task is done. -/
def work (taken : List (CompletedBatch (BatchResult V A))) (counts : BatchQueueCounts)
    (replies : TickReplies) (src : IdSource) (r : SamplerAggregatorRunner V P A M C) :
    IdSource × SamplerAggregatorRunner V P A M C × Except RunnerError Bool :=
  match processCompletedBatches kit taken replies.tuned replies.cleanupDue r with
  | (r, .error e) => (src, r, .error e)
  | (r, .ok stats) =>
    let counts := { counts with completed := counts.completed - stats.completedBatches }
    match produce kit counts replies.produce src r with
    | (src, r, .error e) => (src, r, .error e)
    | (src, r, .ok (producedBatches, samplerWantsToProduce)) =>
      match replies.published with
      | .error e => (src, r, .error e)
      | .ok () =>
        (src, r,
          checkTickTerminalState kit counts stats.completedBatches producedBatches
            samplerWantsToProduce r)

/-! ## Activation and checkpoints -/

/-- `SamplerAggregatorRunner::new` without a checkpoint. -/
def start (runId : Int) (task : SampleTask V) (config : SamplerQueueConfig)
    (initialBatchSize : Nat) (sampler : M) (observableState : A) :
    SamplerAggregatorRunner V P A M C where
  task
  nrProducedSamples := 0
  nrCompletedSamples := 0
  sampler
  observableState
  runtimeState := .initial
  queue := .new runId task.id config
    ⟨none, none, clampSize minBatchSize config.effectiveMaxBatchSize initialBatchSize⟩ [] []
  waitingForCampaignBudget := false
  campaignManaged := none
  merged := []
  fed := []

/-- `SamplerAggregatorRunner::new` from a checkpoint. -/
def resume (runId : Int) (task : SampleTask V) (config : SamplerQueueConfig)
    (c : SamplerAggregatorCheckpoint V P A M) : SamplerAggregatorRunner V P A M C where
  task
  nrProducedSamples := c.producedSamples
  nrCompletedSamples := c.completedSamples
  sampler := c.samplerSnapshot
  observableState := c.observableState
  runtimeState := { c.runtimeState with generation := c.runtimeState.generation.restored }
  queue := .new runId task.id config c.queue c.allocated c.handed
  waitingForCampaignBudget := false
  campaignManaged := none
  merged := c.merged
  fed := c.fed

/-- The checkpoint of `persist_sampler_checkpoint`; the sampler takes its own snapshot. Of the
batches handed over it records those that the cursor has passed. -/
def checkpoint (kit : Kit V P A M C) (r : SamplerAggregatorRunner V P A M C) :
    SamplerAggregatorRunner V P A M C × Except RunnerError (SamplerAggregatorCheckpoint V P A M) :=
  match kit.sampler.snapshot r.sampler with
  | (sampler, .error e) => ({ r with sampler }, .error (.engine e))
  | (sampler, .ok samplerSnapshot) =>
    ({ r with sampler },
      .ok
        { completedSamples := r.nrCompletedSamples
          taskId := r.task.id
          samplerSnapshot
          observableState := r.observableState
          runtimeState := r.runtimeState
          queue := r.queue.checkpoint
          allocated := r.queue.allocated
          handed := r.queue.handed.filter fun id => decide (id ≤ r.queue.checkpoint.completed)
          merged := r.merged
          fed := r.fed })

end SamplerAggregatorRunner

end Gammaboard.Runners
