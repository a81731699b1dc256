import Gammaboard.Evaluation.StratumExtrema
import Gammaboard.Evaluation.Unbiased
import Gammaboard.Evaluation.VectorSplits
import Gammaboard.Lib.Counts

/-!
# The rows of a batch

The loop of `accumulate_values` over the rows of a batch: the state takes the
masked values of every row, the stratum a row was drawn for is counted, and the
feedback keeps the order of the rows.
-/

namespace Gammaboard.Evaluation

open Gammaboard.Core Gammaboard.Sampling Gammaboard.Lib

variable {K G : Type}

/-- A point, the values of the evaluator there and the stratum it was drawn for, which is 0
without a plan. -/
abbrev Row (K : Type) := Point K × List K × Nat

variable [Field K] [LinearOrder K]

section Rows

variable (hypot : K → K → K) (plan : Option (StratificationPlan K))

variable {hypot plan} {config : AccumulatorConfig} {components : List String}
  {rows : List (Row K)} {row : Row K} {state state' : ValueState K G}

/-- The rows fit the plan, and the components of the evaluator are its own. -/
structure RowsFit (plan : Option (StratificationPlan K)) (components : List String)
    (rows : List (Row K)) : Prop where
  width : components.length ≠ 0
  values : ∀ row ∈ rows, row.2.1.length = components.length
  unlabelled : plan = none → ∀ row ∈ rows, row.2.2 = 0
  valid : ∀ p, plan = some p → p.validate = .ok ()
  layout : ∀ p, plan = some p → components = p.components
  labels : ∀ p, plan = some p → ∀ row ∈ rows, row.2.2 < p.partition.centers.length

theorem RowsFit.raw (h : RowsFit plan components rows) {p : StratificationPlan K}
    (hp : plan = some p) : ∀ row ∈ rows, row.2.1.length = p.partition.centerWidth := by
  intro row hrow
  rw [h.values row hrow, h.layout p hp]
  exact (StratificationPlan.valid_of_validate (h.valid p hp)).components

/-- The rows before some others fit as well. -/
theorem RowsFit.mono {rows' : List (Row K)} (h : RowsFit plan components rows)
    (hmem : ∀ row ∈ rows', row ∈ rows) : RowsFit plan components rows' :=
  ⟨h.width, fun row hrow => h.values row (hmem row hrow),
    fun hp row hrow => h.unlabelled hp row (hmem row hrow), h.valid, h.layout,
    fun p hp row hrow => h.labels p hp row (hmem row hrow)⟩

end Rows

end Gammaboard.Evaluation
