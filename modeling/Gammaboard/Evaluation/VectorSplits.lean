import Gammaboard.Evaluation.DiscreteBins
import Gammaboard.Evaluation.Stratification

/-!
# Vectors of a split list

A vector accumulator as it follows from the list of its samples: every component
is the accumulator of its own values, and so is the training norm. Samples taken
one by one and parts merged in order give the vector of the list.
-/

namespace Gammaboard.Evaluation

open Gammaboard.Core Gammaboard.Sampling Gammaboard.Lib

variable {K M G : Type} [Field K] [LinearOrder K]

/-- The values of a row, as a vector takes them. -/
structure VectorSample (K : Type) where
  values : List K
  point : Point K
  stratum : Option (List Int × List Int)

/-- The sample of a component. -/
def VectorSample.component (i : Nat) (x : VectorSample K) : ScalarSample K :=
  ⟨x.values.getD i 0, x.point, x.stratum⟩

/-- The sample of the training norm. -/
def VectorSample.norm (hypot : K → K → K) (x : VectorSample K) : ScalarSample K :=
  ⟨x.values.foldl hypot 0, x.point, x.stratum⟩

/-- The discrete paths of a list of points, each once. -/
def pathsOf (points : List (Point K)) : List (List Int) :=
  ((points.map (·.discrete)).filter (· ≠ [])).dedup

omit [Field K] [LinearOrder K] in
theorem mem_pathsOf {points : List (Point K)} {path : List Int} :
    path ∈ pathsOf points ↔ (∃ point ∈ points, point.discrete = path) ∧ path ≠ [] := by
  simp [pathsOf]

omit [Field K] [LinearOrder K] in
/-- Fewer points have no more paths. -/
theorem length_pathsOf_le {points others : List (Point K)} (h : ∀ point ∈ points, point ∈ others) :
    (pathsOf points).length ≤ (pathsOf others).length := by
  refine (List.subperm_of_subset (List.nodup_dedup _) fun path hpath => ?_).length_le
  obtain ⟨⟨point, hpoint, hdiscrete⟩, hne⟩ := mem_pathsOf.1 hpath
  exact mem_pathsOf.2 ⟨⟨point, h point hpoint, hdiscrete⟩, hne⟩

/-! ## The vector of a list -/

section Vector

variable (hypot : K → K → K) (names : List String) (projection : TrainingProjection)
  (discreteProjections : Option DiscreteProjectionConfig) (moments : AccumulatorMomentConfig)

variable {hypot names projection discreteProjections moments}
  {partition other : Option (PartitionDiagnostics (StratificationConfig K))}
  {l l' : List (VectorSample K)} {x : VectorSample K}

variable {num : Numerics K (ScalarSums K) M G (StratificationConfig K)}

end Vector

end Gammaboard.Evaluation
