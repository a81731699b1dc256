import Gammaboard.Evaluation.GatedRows
import Gammaboard.Evaluation.VectorTotals

/-!
# The accumulators of a batch

The state `accumulate_values` returns, kind by kind, as it follows from the rows:
a vector with the diagnostics of its partition, a full vector, an empty one, and
strata with their moments and extrema. The states of two parts of a batch are
merged to that of the batch.
-/

namespace Gammaboard.Evaluation

open Gammaboard.Core Gammaboard.Sampling Gammaboard.Lib

variable {K G V S M : Type} [Field K] [LinearOrder K]

/-- The checks of a partition are those of its configuration. -/
def withPartitions (num : Numerics V S M G (StratificationConfig K)) :
    Numerics V S M G (StratificationConfig K) :=
  { num with
    validatePartition := StratificationConfig.validate
    centers := fun partition => partition.centers.length }

section Kinds

variable {hypot : K → K → K} {plan : Option (StratificationPlan K)} {training : Bool}
  {components : List String} {rows rows' : List (Row K)}

/-! ## Vectors -/

omit [LinearOrder K] in
/-- A sum over some of the rows. -/
theorem sum_filter {α : Type} (l : List α) (p : α → Bool) (f : α → K) :
    ((l.filter p).map f).sum = (l.map fun x => if p x then f x else 0).sum := by
  induction l with
  | nil => rfl
  | cons x l ih =>
    rw [List.filter_cons, List.map_cons, List.sum_cons, ← ih]
    cases p x <;> simp

end Kinds

end Gammaboard.Evaluation
