import Gammaboard.Evaluation.ScalarAccumulator

/-!
# Stratified evaluation

`evaluation/stratification.rs`: the plan of a task, the removal of the stratum
prefix before the integrand is evaluated, and the accumulation of the values,
masked where a point was drawn for another stratum than the one its values lie
in, with the vector accumulators of `evaluation/accumulator` they go into.
-/

namespace Gammaboard.Evaluation

open Gammaboard.Core Gammaboard.Sampling

variable {K G : Type}

/-! ## Pooled accumulators -/

variable [Field K] [LinearOrder K]

namespace VectorAccumulatorState

/-- `from_config`. -/
def new (components : List String) (projection : TrainingProjection)
    (discreteProjections : Option DiscreteProjectionConfig) (moments : AccumulatorMomentConfig) :
    VectorAccumulatorState (ScalarSums K) (StratificationConfig K) where
  components := components.map fun name => ⟨name, 0, .new discreteProjections moments⟩
  partition := none
  projection :=
    match projection with
    | .component name => .component name
    | .norm => .norm ⟨"training_projection", 0, .new discreteProjections moments⟩

variable (hypot : K → K → K)

def project (a : VectorAccumulatorState (ScalarSums K) (StratificationConfig K)) (values : List K) :
    Except EngineError K :=
  if values.length ≠ a.components.length then
    .error (.eval ("vector observable value count mismatch: expected " ++
      toString a.components.length ++ ", got " ++ toString values.length))
  else
    match a.projection with
    | .component name =>
      match a.components.findIdx? (·.name == name) with
      | none =>
        .error (.eval ("training projection references unknown component " ++ reprStr name))
      | some index => .ok (values.getD index 0)
    | .norm _ => .ok (values.foldl hypot 0)

/-- The text of an error with the place it came from. -/
def errorAt {α : Type} (place : String) : Except EngineError α → Except EngineError α
  | .error e => .error (.eval (place ++ ": " ++ e.toText))
  | .ok a => .ok a

/-- Every component with a value takes it. -/
def addValues (point : Point K) (stratum : Option (List Int × List Int)) :
    List (NamedScalarAccumulator (ScalarSums K)) → List K →
      Except EngineError (List (NamedScalarAccumulator (ScalarSums K)))
  | c :: cs, v :: vs => do
    let state ← errorAt ("component " ++ reprStr c.name) (c.state.addSample v point stratum)
    let rest ← addValues point stratum cs vs
    return { c with state } :: rest
  | cs, _ => .ok cs

/-- `ingest_vector_with_details`. -/
def ingestVector (a : VectorAccumulatorState (ScalarSums K) (StratificationConfig K))
    (values : List K) (point : Point K) (stratum : Option (List Int × List Int)) :
    Except EngineError (VectorAccumulatorState (ScalarSums K) (StratificationConfig K)) := do
  let projected ← a.project hypot values
  let components ← addValues point stratum a.components values
  match a.projection with
  | .component _ => return { a with components }
  | .norm c => do
    let state ← errorAt "training projection" (c.state.addSample projected point stratum)
    return { a with components, projection := .norm { c with state } }

end VectorAccumulatorState

/-- `push_vector`. -/
def FullVectorAccumulatorState.push (a : FullVectorAccumulatorState K) (values : List K) :
    Except EngineError (FullVectorAccumulatorState K) :=
  if values.length ≠ a.components.length then
    .error (.eval "full-vector component count mismatch")
  else .ok { a with valuesRowMajor := a.valuesRowMajor ++ values }

/-- The accumulator values go into; native observables are of type `G`. -/
inductive ValueState (K G : Type) where
  | stratified (state : StratifiedAccumulatorState (MomentValues K) G (StratifiedLayout K))
  | empty
  | vector (state : VectorAccumulatorState (ScalarSums K) (StratificationConfig K))
  | gammaloop (state : G)
  | fullVector (state : FullVectorAccumulatorState K)

/-- `AccumulatorState::from_config`. -/
def ValueState.fromConfig (emptyNative : G) : AccumulatorConfig → ValueState K G
  | .empty => .empty
  | .vector components projection discreteProjections moments =>
    .vector (.new components projection discreteProjections moments)
  | .gammaloop => .gammaloop emptyNative
  | .fullVector components => .fullVector ⟨components, []⟩

/-! ## The plan of a task -/

/-- `DiscreteSubspace`: the points with the given coordinates on some axes. -/
structure DiscreteSubspace where
  fixedDims : List (Nat × Int)
  deriving DecidableEq, Repr

/-- The subspace below a prefix. -/
def DiscreteSubspace.below (path : List Int) : DiscreteSubspace :=
  ⟨path.zipIdx.map fun e => (e.2, e.1)⟩

/-- `prepare_estimator` of a task that starts its accumulator afresh, for a partition that is
configured. `massBatch` is the sampler's `discrete_mass_batch`. -/
def prepareEstimator (stratified : Bool) (partition : StratificationConfig K)
    (massBatch : List DiscreteSubspace → Except EngineError (List (Option K)))
    (proposalId : String) (config : AccumulatorConfig) (emptyNative : G) :
    Except EngineError (StratificationPlan K × ValueState K G) := do
  partition.validateAccumulator config
  let probabilities ←
    if stratified then do
      let masses ← massBatch (partition.prefixes.map .below)
      match masses.mapM id with
      | none =>
        .error (.invalidInput
          "sampler must provide exact discrete probabilities for stratification")
      | some masses => .ok (some masses)
    else .ok none
  let components ← StratificationConfig.components config
  let plan : StratificationPlan K := ⟨proposalId, partition, probabilities, components⟩
  plan.validate
  if stratified then do
    let state ← StratifiedAccumulatorState.new emptyNative ⟨plan, config⟩
    return (plan, .stratified state)
  else return (plan, .fromConfig emptyNative config)

/-! ## The integrand -/

/-- The label of a point and the point below its prefix. -/
def integrandPoint (plan : StratificationPlan K) (point : Point K) :
    Except EngineError (Point K × Nat) :=
  match plan.partition.prefixes.findIdx? (fun p => p.isPrefixOf point.discrete) with
  | none => .error (.eval "missing or invalid stratum prefix")
  | some label =>
    .ok ({ point with discrete := point.discrete.drop (plan.partition.prefixAt label).length },
      label)

/-- Remove the stratum prefix of every point. -/
def integrandBatch (points : List (Point K)) (plan : StratificationPlan K) :
    Except EngineError (List (Point K) × List Nat) := do
  plan.validate
  let parts ← points.mapM (integrandPoint plan)
  return (parts.map (·.1), parts.map (·.2))

/-! ## Accumulation -/

/-- Labels come with the plan they index. -/
structure EvalBatchOptions (K : Type) where
  requireTrainingValues : Bool
  stratification : Option (StratificationPlan K × List Nat)

/-- What the loop over the rows carries. -/
structure Progress (K G : Type) where
  state : ValueState K G
  attempts : List Nat
  matched : List Nat
  feedback : List K

section Accumulate

variable (hypot : K → K → K)

/-- The requested and the actual stratum of a row. -/
def assignment (plan : Option (StratificationPlan K)) (label : Nat) (raw : List K) :
    Except EngineError (Option (Nat × List Int × List Int)) :=
  match plan with
  | none => .ok none
  | some plan => do
    let actual ← plan.partition.classify hypot raw
    return some (actual, plan.partition.prefixAt label, plan.partition.prefixAt actual)

/-- The weighted projection a sampler is trained with. -/
def trainingValue (config : AccumulatorConfig) (components : List String) (raw : List K)
    (weight : K) : K :=
  let projected :=
    match config with
    | .vector _ (.component name) _ _ => raw.getD (components.idxOf name) 0
    | .vector _ .norm _ _ | .gammaloop => raw.foldl hypot 0
    | .empty | .fullVector _ => raw.getD 0 0
  projected * weight

/-- A row of masked values into the accumulator. -/
def ValueState.ingest (state : ValueState K G) (label : Nat) (gated : List K) (matched : Bool)
    (point : Point K) (stratum : Option (List Int × List Int)) :
    Except EngineError (ValueState K G) :=
  match state with
  | .vector state => (state.ingestVector hypot gated point stratum).map .vector
  | .stratified state =>
    (state.push hypot label gated point.totalWeight matched (stratum.map (point, ·))).map .stratified
  | .fullVector state => (state.push (gated.map (· * point.totalWeight))).map .fullVector
  | .empty => .ok .empty
  | .gammaloop _ =>
    .error (.invalidInput "aggregate observable output cannot be gated after accumulation")

/-- One row of `accumulate_values`. -/
def accumulateRow (plan : Option (StratificationPlan K)) (config : AccumulatorConfig)
    (components : List String) (p : Progress K G) (row : Point K × List K × Nat) :
    Except EngineError (Progress K G) := do
  let (point, raw, label) := row
  let stratum ← assignment hypot plan label raw
  let matched := stratum.all fun s => s.2.1 == s.2.2
  let gated := if matched then raw else raw.map fun _ => 0
  let state ← p.state.ingest hypot label gated matched point (stratum.map (·.2))
  return { state
           attempts := if plan.isSome then p.attempts.modify label (· + 1) else p.attempts
           matched :=
            if stratum.any (·.1 == label) then p.matched.modify label (· + 1) else p.matched
           feedback := p.feedback ++ [trainingValue hypot config components raw point.totalWeight] }

/-- `options.feedback`. -/
def EvalBatchOptions.feedback (options : EvalBatchOptions K) (values : List K) (rows : List (List K)) :
    Except EngineError (Option (Feedback K)) :=
  if !options.requireTrainingValues then .ok none
  else do
    let strata ←
      match options.stratification with
      | none => .ok none
      | some (plan, labels) =>
        if rows.length ≠ labels.length ∨ values.length ≠ labels.length then
          .error (.eval "training feedback/stratum sample count mismatch")
        else do
          let actual ← rows.mapM (plan.partition.classify hypot)
          .ok (some ⟨plan.partition.prefixes, labels, actual⟩)
    let feedback : Feedback K := ⟨values, strata⟩
    feedback.validate fun _ => true
    return some feedback

/-- The rows of `width` values each. -/
def rowsOf (width count : Nat) (values : List K) : List (List K) :=
  (List.range count).map fun i => (values.drop (i * width)).take width

/-- The accumulator the rows go into. -/
def initialState (emptyNative : G) (count : Nat) (components : List String)
    (config : AccumulatorConfig) (options : EvalBatchOptions K) :
    Except EngineError (ValueState K G) :=
  match options.stratification with
  | none => .ok (.fromConfig emptyNative config)
  | some (plan, labels) => do
    plan.validate
    plan.partition.validateAccumulator config
    if labels.length ≠ count ∨ components ≠ plan.components then
      .error (.eval "stratification batch layout mismatch")
    else if plan.probabilities.isSome then
      (StratifiedAccumulatorState.new emptyNative ⟨plan, config⟩).map .stratified
    else return .fromConfig emptyNative config

/-- The diagnostics of a partition belong to a vector. -/
def ValueState.withDiagnostics (state : ValueState K G) (options : EvalBatchOptions K) (count : Nat)
    (attempts matched : List Nat) : ValueState K G :=
  match state, options.stratification with
  | .vector state, some (plan, _) =>
    .vector { state with
      partition := some
        ⟨plan.partition, attempts, matched, if options.requireTrainingValues then count else 0⟩ }
  | state, _ => state

/-- The feedback and the accumulator of a batch. -/
def accumulateValues (emptyNative : G) (points : List (Point K)) (components : List String)
    (values : List K) (config : AccumulatorConfig) (options : EvalBatchOptions K) :
    Except EngineError (Option (Feedback K) × ValueState K G) :=
  let width := components.length
  if width = 0 ∨ values.length ≠ points.length * width then
    .error (.eval "invalid per-sample evaluator values")
  else if options.requireTrainingValues && config.isFullVector && width != 1 then
    .error (.invalidInput "full_vector training feedback requires a scalar output")
  else do
    let state ← initialState emptyNative points.length components config options
    let strata := options.stratification.elim 0 fun s => s.1.partition.centers.length
    let labels := options.stratification.elim (List.replicate points.length 0) (·.2)
    let rows := rowsOf width points.length values
    let done ← (points.zip (rows.zip labels)).foldlM
      (accumulateRow hypot (options.stratification.map (·.1)) config components)
      ⟨state, List.replicate strata 0, List.replicate strata 0, []⟩
    let feedback ← options.feedback hypot done.feedback rows
    return (feedback, done.state.withDiagnostics options points.length done.attempts done.matched)

end Accumulate

end Gammaboard.Evaluation
