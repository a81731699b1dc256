import Gammaboard.Evaluation.GatedAccumulation
import Gammaboard.Lib.Cut

/-!
# Gated batches

The sums that are read off the accumulator of a batch, and the batch cut into
parts: the accumulators of the parts are merged to that of the batch.
-/

namespace Gammaboard.Evaluation

open Gammaboard.Core Gammaboard.Sampling Gammaboard.Lib

variable {K G V S M : Type} [Field K] [LinearOrder K]

section Batch

variable {hypot : K → K → K} {emptyNative : G} {config : AccumulatorConfig}
  {components : List String} {plan : Option (StratificationPlan K)} {training : Bool}
  {rows rows' : List (Row K)}

/-! ## The sums -/

section Strata

variable {p : StratificationPlan K} {probabilities : List K} {width : Nat}
  {a : StratifiedAccumulatorState (MomentValues K) G (StratifiedLayout K)}

variable [IsStrictOrderedRing K]

end Strata

/-! ## Merges -/

/-- The accumulators of one component are keepsBins by their discrete paths. -/
def keepsBins (plan : Option (StratificationPlan K)) : AccumulatorConfig → Bool
  | .vector _ _ _ _ => !plan.any (·.probabilities.isSome)
  | _ => false

/-- A batch whose parts can be merged: the paths of its points have bins, if there are any, and
native observables are not the accumulator's. -/
structure Mergeable (plan : Option (StratificationPlan K)) (config : AccumulatorConfig)
    (components : List String) (training : Bool) (rows : List (Row K)) : Prop where
  gateable : Gateable plan config components training rows
  own : config ≠ .gammaloop
  room : keepsBins plan config = true →
    (pathsOf (rows.map (·.1))).length ≤ discreteProjectionMaxTotalBins

theorem Mergeable.mono (h : Mergeable plan config components training rows)
    (hsub : rows'.Sublist rows) : Mergeable plan config components training rows' where
  gateable := h.gateable.mono hsub
  own := h.own
  room hbins :=
    (length_pathsOf_le fun _ hpoint => (hsub.map _).subset hpoint).trans (h.room hbins)

section Merge

variable (vectors : Numerics K (ScalarSums K) M G (StratificationConfig K))
  (strata : Numerics V S (MomentValues K) G (StratifiedLayout K)) {s t : ValueState K G}

variable [IsStrictOrderedRing K]

end Merge

section Gated

variable [IsStrictOrderedRing K] (vectors : Numerics K (ScalarSums K) M G (StratificationConfig K))
  (strata : Numerics V S (MomentValues K) G (StratifiedLayout K)) {s t : ValueState K G}

end Gated

end Batch

/-! ## Fixed batches -/

end Gammaboard.Evaluation
