import Gammaboard.Core.Checkpoint
import Gammaboard.Evaluation.Accumulator
import Gammaboard.Stores.WorkQueue

/-!
# Recovery

`stores/recovery.rs`: a new sampler aggregator starts from the saved checkpoint
and the rows of its task. The restore refuses a checkpoint whose queued work is
not all there, and deletes the rows above its production boundary.
-/

namespace Gammaboard.Stores

open Gammaboard.Core Gammaboard.Evaluation

variable {V P A M In Res : Type}

/-- The batch a row was inserted for. -/
def BatchRow.produced (r : BatchRow In Res) : Produced :=
  ⟨r.id, r.batchSize, r.requiresTrainingValues⟩

/-- The batch a result is of. -/
def CompletedBatch.produced (b : CompletedBatch Res) : Produced :=
  ⟨b.batchId, b.batchSize, b.requiresTrainingValues⟩

theorem BatchRow.SameBatch.produced_eq {r s : BatchRow In Res} (h : r.SameBatch s) :
    s.produced = r.produced := by
  simp only [BatchRow.produced, h.id, h.batchSize, h.requiresTrainingValues]

theorem produced_of_toCompleted {r : BatchRow In Res} {b : CompletedBatch Res}
    (h : r.toCompleted = some b) : b.produced = r.produced := by
  cases hr : r.result with
  | none => simp [BatchRow.toCompleted, hr] at h
  | some result =>
    simp only [BatchRow.toCompleted, hr, Option.map_some, Option.some.injEq] at h
    rw [← h]
    rfl

/-- `SamplerAggregatorCheckpoint`, with the records of the runner that saved it. -/
structure SamplerAggregatorCheckpoint (V P A M : Type) where
  completedSamples : Int
  taskId : Int
  samplerSnapshot : M
  observableState : A
  runtimeState : SamplerProgress V P
  queue : SamplerQueueCheckpoint
  allocated : List Produced
  handed : List Int
  merged : List (CompletedBatch (BatchResult V A))
  fed : List Int

namespace SamplerAggregatorCheckpoint

def producedSamples (c : SamplerAggregatorCheckpoint V P A M) : Int :=
  c.runtimeState.producedSamplesTotal

/-- The samples produced and those the saved generation buffer holds. -/
def committed (c : SamplerAggregatorCheckpoint V P A M) : Int :=
  c.producedSamples + c.runtimeState.generation.pendingSamples

/-- The queue part of the saved row. -/
def cursors (c : SamplerAggregatorCheckpoint V P A M) : SavedCursors :=
  ⟨c.queue.lastCompletedBatchId, c.queue.lastProducedBatchId⟩

end SamplerAggregatorCheckpoint

/-- The rows of the queued work of a checkpoint. -/
def queuedRows (runId : Int) (c : SamplerAggregatorCheckpoint V P A M)
    (rows : List (BatchRow In Res)) : List (BatchRow In Res) :=
  rows.filter fun r =>
    r.runId == runId && r.taskId == c.taskId && decide (c.queue.completed < r.id)
      && decide (r.id ≤ c.queue.produced)

def retainedSamples (runId : Int) (c : SamplerAggregatorCheckpoint V P A M)
    (rows : List (BatchRow In Res)) : Int :=
  ((queuedRows runId c rows).map fun r => (r.batchSize : Int)).sum

/-- `restore_sampler_checkpoint`: the rows after the rollback, or why it is refused. -/
def restoreSamplerCheckpoint (runId : Int) (c : SamplerAggregatorCheckpoint V P A M)
    (rows : List (BatchRow In Res)) : Except StoreError (List (BatchRow In Res)) :=
  let expected := c.producedSamples - c.completedSamples
  let retained := retainedSamples runId c rows
  if 0 < c.producedSamples ∧ c.queue.lastProducedBatchId = none then
    .error (.store "checkpoint has no production boundary; cannot safely recover queued work")
  else if retained ≠ expected then
    .error (.store ("checkpoint needs " ++ toString expected ++ " samples of queued work but "
      ++ toString retained ++ " remain; refusing inconsistent recovery"))
  else
    .ok (rows.filter fun r =>
      !(r.runId == runId && r.taskId == c.taskId && decide (c.queue.produced < r.id)))

end Gammaboard.Stores
