import Gammaboard.Sampling.ProcessGeneration

/-!
# Batches a host sends to its evaluators

`pack_eval_inputs` and `add_required_offsets` of `evaluation/evaluator/process.rs`, with the
parameters of the two requests for the values of a batch. The product of the weight factors of a
point is a parameter.
-/

namespace Gammaboard.Sampling

open Gammaboard.Core Gammaboard.Lib Gammaboard.Utils

/-- `json!` of a `usize`. -/
def jsonUsize (n : Nat) : Json F64 := .number (.posInt (UInt64.ofNat n))

structure PackedEvalInputs where
  binary : List UInt8
  xsDiscreteOffsets : Option (List Nat)
  xsContinuousOffsets : Option (List Nat)

variable {α : Type}

/-- One of the loops of `pack_eval_inputs` over the points: the coordinates of each are appended to
the block, and the offsets count the words behind `start`. -/
def packColumn (toLeBytes : α → List UInt8) (column : Point F64 → List α) (start : Nat) :
    List (Point F64) → List UInt8 → Option (List Nat) → List UInt8 × Option (List Nat)
  | [], binary, offsets => (binary, offsets)
  | point :: points, binary, offsets =>
    let binary := binary ++ (column point).flatMap toLeBytes
    packColumn toLeBytes column start points binary
      (offsets.map fun offsets => offsets ++ [(binary.length - start) / 8])

/-- Offsets for the dimensions the domain does not fix. -/
def requiredOffsets (fixed : Option Nat) : Option (List Nat) :=
  if fixed.isNone then some [0] else none

def packEvalInputs (batch : List (Point F64)) (domain : Utils.Domain) : PackedEvalInputs :=
  let discrete := packColumn i64ToLeBytes Point.discrete 0 batch []
    (requiredOffsets domain.fixedDiscreteDepth)
  let continuous := packColumn F64.toLeBytes Point.continuous discrete.1.length batch discrete.1
    (requiredOffsets domain.fixedContinuousDims)
  ⟨continuous.1, discrete.2, continuous.2⟩

/-- `params[key] = offsets` -/
def setOffsets (key : String) (offsets : Option (List Nat)) (params : OrdMap String (Json F64)) :
    OrdMap String (Json F64) :=
  offsets.elim params fun offsets => OrdMap.insert key (.array (offsets.map jsonUsize)) params

def addRequiredOffsets (params : OrdMap String (Json F64)) (inputs : PackedEvalInputs) :
    OrdMap String (Json F64) :=
  setOffsets "xs_continuous_offsets" inputs.xsContinuousOffsets
    (setOffsets "xs_discrete_offsets" inputs.xsDiscreteOffsets params)

/-- `add_required_offsets` to the parameters of `eval_batch`. -/
def evalBatchParams (components : List String) (n : Nat) (inputs : PackedEvalInputs) : Json F64 :=
  .object (addRequiredOffsets (OrdMap.collect
    [("nr_samples", jsonUsize n), ("components", .array (components.map .string))]) inputs)

/-- The weights behind the coordinates, for an accumulator of the worker's own. -/
def packWeights (totalWeight : Point F64 → F64) (batch : List (Point F64))
    (inputs : PackedEvalInputs) : PackedEvalInputs :=
  { inputs with
    binary := batch.foldl (fun binary point => binary ++ (totalWeight point).toLeBytes) inputs.binary }

/-- `add_required_offsets` to the parameters of `eval_batch_gammaloop`. -/
def gammaloopParams (requireTrainingValues : Bool) (stratification : Json F64) (n : Nat)
    (inputs : PackedEvalInputs) : Json F64 :=
  .object (addRequiredOffsets (OrdMap.collect
    [("nr_samples", jsonUsize n), ("require_training_values", .bool requireTrainingValues),
      ("stratification", stratification)]) inputs)

end Gammaboard.Sampling
