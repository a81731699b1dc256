import Gammaboard.Sampling.Generation
import Mathlib.Algebra.BigOperators.Group.List.Basic
import Mathlib.Algebra.Order.Ring.Int

/-!
# Checkpoints and evaluation batches

`core/checkpoint.rs` and the batch types of `core/models.rs`: the durable part
of a sampler aggregator and the work it hands to evaluators. What a run has
produced is recorded next to the columns it is computed from, as the entries
that nothing reads.
-/

namespace Gammaboard.Core

open Gammaboard.Sampling

inductive AccumulatorCheckpointState where
  | needsInitialRoundTrip
  | waitingForInitialRoundTrip
  | ready
  deriving DecidableEq, Repr

/-- Durable sampler progress. -/
structure SamplerProgress (V P : Type) where
  generation : GenerationBuffer V P
  producedBatchesTotal : Int
  producedSamplesTotal : Int
  ingestedBatchesTotal : Int
  ingestedSamplesTotal : Int
  accumulatorCheckpointState : AccumulatorCheckpointState
  deriving DecidableEq, Repr

/-- `SamplerProgress::default`. -/
def SamplerProgress.initial {V P : Type} : SamplerProgress V P :=
  ⟨.empty, 0, 0, 0, 0, .needsInitialRoundTrip⟩

/-- Both recovery cursors and the adaptive batch size. -/
structure SamplerQueueCheckpoint where
  lastCompletedBatchId : Option Int
  lastProducedBatchId : Option Int
  batchSizeCurrent : Nat
  deriving DecidableEq, Repr

namespace SamplerQueueCheckpoint

/-- The completion cursor as the queries bind it. -/
def completed (c : SamplerQueueCheckpoint) : Int := c.lastCompletedBatchId.getD 0

/-- The production boundary as the queries bind it. -/
def produced (c : SamplerQueueCheckpoint) : Int := c.lastProducedBatchId.getD 0

end SamplerQueueCheckpoint

/-- A batch that has been given an id. -/
structure Produced where
  id : Int
  batchSize : Nat
  requiresTrainingValues : Bool
  deriving DecidableEq, Repr

/-- The samples of the batches. -/
def samples (batches : List Produced) : Int := (batches.map fun p => (p.batchSize : Int)).sum

@[simp] theorem samples_nil : samples [] = 0 := rfl

@[simp] theorem samples_append (a b : List Produced) : samples (a ++ b) = samples a + samples b := by
  simp [samples]

/-- One evaluator work unit; `request` is the accumulator configuration and the
stratification plan it carries. -/
structure EvaluationBatch (P C : Type) where
  samples : LatentBatch P
  request : C
  deriving DecidableEq, Repr

end Gammaboard.Core
