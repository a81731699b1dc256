import Gammaboard.Core.Stratification
import Gammaboard.Evaluation.Accumulator
import Gammaboard.Sampling.LatentPayload

/-!
# Stratum moments

`evaluation/accumulator/stratified.rs` over an ordered field: the moments of a
stratum, updated sample by sample and merged in pairs, the state over all strata
and the estimates read off it. `hypot` and `sqrt` are parameters.
-/

namespace Gammaboard.Evaluation

open Gammaboard.Core Gammaboard.Sampling

variable {K : Type}

/-- A sample kept with an extreme contribution, with the stratum requested and the actual one. -/
structure DiagnosticSample (K : Type) where
  point : Point K
  stratum : Option (List Int × List Int)
  deriving DecidableEq, Repr

structure ContributionExtrema (K : Type) where
  positive : Option (K × DiagnosticSample K)
  negative : Option (K × DiagnosticSample K)
  deriving DecidableEq, Repr

/-- The statistics of a stratum; `m2` holds the second central moments row by row. -/
structure MomentValues (K : Type) where
  mean : List K
  m2 : List K
  extrema : List (ContributionExtrema K)
  deriving DecidableEq, Repr

/-- The plan and the configuration of a stratified accumulator. -/
structure StratifiedLayout (K : Type) where
  plan : StratificationPlan K
  config : AccumulatorConfig
  deriving DecidableEq

structure BasicEstimate (K : Type) where
  mean : K
  error : Option K
  deriving DecidableEq, Repr

variable [Field K] [LinearOrder K]

namespace ContributionExtrema

/-- An extreme value is replaced by a larger one only. -/
def improve : Option (K × DiagnosticSample K) → K × DiagnosticSample K →
    Option (K × DiagnosticSample K)
  | none, sample => some sample
  | some previous, sample => if |previous.1| < |sample.1| then some sample else some previous

def observe (e : ContributionExtrema K) (value : K) (point : Point K)
    (stratum : List Int × List Int) : ContributionExtrema K :=
  let sample := (value, ⟨point, some stratum⟩)
  if 0 ≤ value then { e with positive := improve e.positive sample }
  else { e with negative := improve e.negative sample }

def merge (e other : ContributionExtrema K) : ContributionExtrema K :=
  ⟨other.positive.elim e.positive (improve e.positive),
    other.negative.elim e.negative (improve e.negative)⟩

end ContributionExtrema

/-! ## One stratum -/

/-- The moments of `a` samples with those of `b` others. -/
def MomentValues.merge (a b : Nat) (left right : MomentValues K) : MomentValues K :=
  let n := a + b
  let delta := List.zipWith (· - ·) right.mean left.mean
  let width := left.mean.length
  { mean := List.zipWith (fun m d => m + d * b / n) left.mean delta
    m2 := left.m2.mapIdx fun k v =>
      v + (right.m2.getD k 0 + delta.getD (k / width) 0 * delta.getD (k % width) 0 * (a / n) * b)
    extrema := List.zipWith ContributionExtrema.merge left.extrema right.extrema }

namespace StratumMoments

def new (width : Nat) : StratumMoments (MomentValues K) :=
  ⟨0, 0, ⟨List.replicate width 0, List.replicate (width * width) 0,
    List.replicate width ⟨none, none⟩⟩⟩

def push (s : StratumMoments (MomentValues K)) (values : List K) (matched : Bool) :
    Except EngineError (StratumMoments (MomentValues K)) :=
  if values.length ≠ s.moments.mean.length then .error (.eval "invalid stratified contribution")
  else if PartitionDiagnostics.u64Max < s.attempts + 1 then .error (.eval "stratum count overflow")
  else
    let n := s.attempts + 1
    let delta := List.zipWith (· - ·) values s.moments.mean
    let next := List.zipWith (fun m d => m + d / (n : K)) s.moments.mean delta
    let width := next.length
    .ok
      { attempts := n
        matched := s.matched + matched.toNat
        moments :=
          { s.moments with
            mean := next
            m2 := s.moments.m2.mapIdx fun k v =>
              v + delta.getD (k / width) 0 *
                (values.getD (k % width) 0 - next.getD (k % width) 0) } }

/-- The publication rule of an uncertainty. -/
def uncertaintyReady {M : Type} (s : StratumMoments M) : Bool :=
  decide (32 ≤ s.attempts) && decide (2 ≤ s.matched)

end StratumMoments

/-! ## All strata -/

namespace StratifiedLayout

def layoutMatches (layout : StratifiedLayout K) : Bool :=
  match layout.config with
  | .gammaloop => layout.plan.components == ["real", "imag"]
  | config => config.components == some layout.plan.components

/-- Two norms are estimated with a native observable and one with a training norm. -/
def columnCount (layout : StratifiedLayout K) : Nat :=
  match layout.config with
  | .gammaloop => 4
  | .vector _ .norm _ _ => layout.plan.components.length + 1
  | _ => layout.plan.components.length

def validatedWidth (layout : StratifiedLayout K) : Except EngineError Nat := do
  layout.plan.validate
  invalidInput layout.config.validate
  layout.plan.partition.validateAccumulator layout.config
  if layout.plan.probabilities.isNone then
    .error (.invalidInput "stratified accumulator needs frozen probabilities")
  else if !layout.layoutMatches then .error (.invalidInput "stratification component mismatch")
  else .ok layout.columnCount

variable (hypot : K → K → K)

def norm (values : List K) : K := values.foldl hypot 0

/-- The columns of a sample: its values and the norms that are estimated with them. -/
def columns (layout : StratifiedLayout K) (values : List K) : List K :=
  match layout.config with
  | .gammaloop => values ++ [norm hypot values, norm hypot values * norm hypot values]
  | .vector _ .norm _ _ => values ++ [norm hypot values]
  | _ => values

def probability (layout : StratifiedLayout K) (label : Nat) : K :=
  (layout.plan.probabilities.getD []).getD label 0

end StratifiedLayout

/-- The checks and the merge of the moments; the native observables stay as given. -/
def withMoments {V S G : Type} (num : Numerics V S (MomentValues K) G (StratifiedLayout K)) :
    Numerics V S (MomentValues K) G (StratifiedLayout K) :=
  { num with
    momentsOk := fun layout m =>
      match layout.validatedWidth with
      | .ok width =>
        m.mean.length == width && m.m2.length == width * width && m.extrema.length == width
      | .error _ => false
    mergeMoments := MomentValues.merge
    validatePartition := fun layout => layout.validatedWidth.map fun _ => ()
    centers := fun layout => layout.plan.partition.centers.length
    isNative := fun layout => layout.config == .gammaloop }

namespace StratifiedAccumulatorState

variable {G : Type}

def new (emptyNative : G) (layout : StratifiedLayout K) :
    Except EngineError (StratifiedAccumulatorState (MomentValues K) G (StratifiedLayout K)) := do
  let width ← layout.validatedWidth
  return { plan := layout
           strata := List.replicate layout.plan.partition.centers.length (.new width)
           pooled := if layout.config = .gammaloop then some emptyNative else none }

/-- `push_with_diagnostics`. -/
def push (hypot : K → K → K) (a : StratifiedAccumulatorState (MomentValues K) G (StratifiedLayout K))
    (label : Nat) (values : List K) (weight : K) (matched : Bool)
    (diagnostic : Option (Point K × (List Int × List Int))) :
    Except EngineError (StratifiedAccumulatorState (MomentValues K) G (StratifiedLayout K)) :=
  match a.strata[label]? with
  | none => .error (.eval "invalid stratum label, weight or output width")
  | some s =>
    if values.length ≠ a.plan.plan.components.length ∨ weight ≤ 0 then
      .error (.eval "invalid stratum label, weight or output width")
    else do
      let contribution := (a.plan.columns hypot values).map
        (· * (weight * a.plan.probability label))
      let s ← s.push contribution matched
      let extrema :=
        match diagnostic with
        | none => s.moments.extrema
        | some (point, assignment) =>
          List.zipWith (fun e value => e.observe value point assignment) s.moments.extrema
            contribution
      return { a with
        strata := a.strata.set label { s with moments := { s.moments with extrema } } }

def mean (a : StratifiedAccumulatorState (MomentValues K) G (StratifiedLayout K)) :
    Option (List K) :=
  if a.strata.any (·.attempts == 0) then none
  else
    some (a.strata.foldl (fun mean s => List.zipWith (· + ·) mean s.moments.mean)
      (List.replicate (a.strata.head?.elim 0 (·.moments.mean.length)) 0))

def uncertaintyReady (a : StratifiedAccumulatorState (MomentValues K) G (StratifiedLayout K)) :
    Bool :=
  a.strata.all (·.uncertaintyReady)

def covariance (a : StratifiedAccumulatorState (MomentValues K) G (StratifiedLayout K)) :
    Option (List K) :=
  if !a.uncertaintyReady then none
  else
    some (a.strata.foldl (fun covariance s =>
        let divisor : K := s.attempts * (s.attempts - 1 : Nat)
        List.zipWith (fun c v => c + v / divisor) covariance s.moments.m2)
      (List.replicate (a.strata.head?.elim 0 (·.moments.m2.length)) 0))

/-- The loop of `basic_estimates`: every stratum scaled back by its probability and merged. -/
def pool {V S : Type} (num : Numerics V S (MomentValues K) G (StratifiedLayout K)) (width : Nat) :
    List (StratumMoments (MomentValues K) × K) → StratumMoments (MomentValues K) →
      Option (StratumMoments (MomentValues K))
  | [], pooled => some pooled
  | (stratum, p) :: rest, pooled =>
    let group : StratumMoments (MomentValues K) :=
      { attempts := stratum.attempts
        matched := 0
        moments :=
          { mean := stratum.moments.mean.map (· / p)
            m2 := stratum.moments.m2.map (· / p / p)
            extrema := List.replicate width ⟨none, none⟩ } }
    match mergeStratum (withMoments num) pooled group with
    | .error _ => none
    | .ok pooled => pool num width rest pooled

def basicEstimates {V S : Type} (num : Numerics V S (MomentValues K) G (StratifiedLayout K))
    (sqrt : K → K) (a : StratifiedAccumulatorState (MomentValues K) G (StratifiedLayout K)) :
    Option (List (BasicEstimate K)) := do
  let width := a.strata.head?.elim 0 (·.moments.mean.length)
  let probabilities ← a.plan.plan.probabilities
  let pooled ← pool num width (a.strata.zip probabilities) (.new width)
  let n := pooled.attempts
  if n = 0 then none
  else
    some (pooled.moments.mean.mapIdx fun j mean =>
      { mean
        error :=
          if 2 ≤ n then
            some (sqrt (max (pooled.moments.m2.getD (j * width + j) 0) 0 / (n * (n - 1 : Nat))))
          else none })

end StratifiedAccumulatorState

end Gammaboard.Evaluation
