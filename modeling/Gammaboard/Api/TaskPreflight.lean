import Gammaboard.Core.Stratification
import Gammaboard.Lib.Results
import Gammaboard.Stores.StageSnapshots
import Gammaboard.Stores.Tasks
import Mathlib.Algebra.Order.Ring.Int
import Mathlib.Logic.Function.Basic

/-!
# The preflight of a task queue

`core/tasks.rs`, as far as the queue of a run reads it, and `TaskPreflightContext` of
`api/runs.rs`: what a task may refer to, and the configurations every task of a
queue will find. A queue is checked as a whole, or the tasks to append are
checked after the recorded ones; the two agree.
-/

namespace Gammaboard.Api

open Gammaboard.Core Gammaboard.Lib Gammaboard.Utils

variable {K E Q T D : Type}

/-! ## Task definitions -/

inductive SourceRefSpec where
  | latest
  | fromName (name : String)
  deriving DecidableEq, Repr

inductive StageSourceSpec (C : Type) where
  | fromStage (config : C) (fromStage : String)
  | latest (value : String)
  | fromName (fromName : String)
  | config (config : C)
  deriving DecidableEq

inductive Estimator where
  | pooled
  | stratified
  deriving DecidableEq, Repr

/-- The complete sampling pipeline, `SamplingConfig` of `core/run_spec.rs`. -/
structure SamplingPipeline (K Q : Type) where
  stratification : Option (StratificationConfig K)
  sampler : Sampling.SamplerConfig
  /-- The parameters of the sampler, the materializer and the transforms. -/
  params : Q
  deriving DecidableEq

inductive PlotAccumulatorKind where
  | scalar
  | vector
  deriving DecidableEq, Repr

def PlotAccumulatorKind.components : PlotAccumulatorKind → List String
  | scalar => ["value"]
  | vector => ["real", "imag"]

def PlotAccumulatorKind.fullConfig (kind : PlotAccumulatorKind) : AccumulatorConfig :=
  .fullVector kind.components

/-- `RunTaskSpec`. What no queue reads of a task (its geometry, stop condition, measurement,
display, transforms, or the children of a controller) is `rest`. -/
inductive RunTaskSpec (K E Q T D : Type) where
  | setAccumulator (accumulator : AccumulatorConfig)
  | sample (estimator : Estimator) (evaluator : Option (StageSourceSpec E))
      (sampler : Option (StageSourceSpec (SamplingPipeline K Q)))
      (accumulator : Option (StageSourceSpec AccumulatorConfig)) (queueTuning : Option T) (rest : D)
  | image (accumulator : PlotAccumulatorKind) (evaluator : Option (StageSourceSpec E)) (rest : D)
  | pdfAdaptationImage (sampler : Option (StageSourceSpec (SamplingPipeline K Q))) (rest : D)
  | pdfAdaptationPlotLine (sampler : Option (StageSourceSpec (SamplingPipeline K Q))) (rest : D)
  | plotLine (accumulator : PlotAccumulatorKind) (evaluator : Option (StageSourceSpec E)) (rest : D)
  | parameterScan (rest : D)
  | hyperparameterTuning (rest : D)
  | integrationCampaign (rest : D)
  deriving DecidableEq

namespace RunTaskSpec

def kindStr : RunTaskSpec K E Q T D → String
  | setAccumulator .. => "set_accumulator"
  | sample .. => "sample"
  | image .. => "image"
  | pdfAdaptationImage .. => "pdf_adaptation_image"
  | pdfAdaptationPlotLine .. => "pdf_adaptation_plot_line"
  | plotLine .. => "plot_line"
  | parameterScan .. => "parameter_scan"
  | hyperparameterTuning .. => "hyperparameter_tuning"
  | integrationCampaign .. => "integration_campaign"

def isController : RunTaskSpec K E Q T D → Bool
  | parameterScan .. | hyperparameterTuning .. | integrationCampaign .. => true
  | _ => false

def runsInControlPlane : RunTaskSpec K E Q T D → Bool
  | setAccumulator .. => true
  | task => task.isController

def runsOnSamplerWorker : RunTaskSpec K E Q T D → Bool
  | sample .. | image .. | pdfAdaptationImage .. | pdfAdaptationPlotLine .. | plotLine .. => true
  | _ => false

/-- A source that is left out is the latest stage; one that carries a configuration of its own
names no stage. -/
def sourceRef {C : Type} : Option (StageSourceSpec C) → Option SourceRefSpec
  | none | some (.latest _) => some .latest
  | some (.fromName name) => some (.fromName name)
  | some (.config _) | some (.fromStage _ _) => none

def sampleSamplerSource : RunTaskSpec K E Q T D → Option SourceRefSpec
  | sample _ _ sampler _ _ _ | pdfAdaptationImage sampler _ | pdfAdaptationPlotLine sampler _ =>
    match sampler with
    | some (.fromStage _ name) => some (.fromName name)
    | source => sourceRef source
  | _ => none

def evaluatorSource : RunTaskSpec K E Q T D → Option SourceRefSpec
  | sample _ evaluator _ _ _ _ | image _ evaluator _ | plotLine _ evaluator _ => sourceRef evaluator
  | _ => none

def evaluatorConfig : RunTaskSpec K E Q T D → Option E
  | sample _ (some (.config config)) _ _ _ _ | image _ (some (.config config)) _
  | plotLine _ (some (.config config)) _ => some config
  | _ => none

def sampleAccumulatorSource : RunTaskSpec K E Q T D → Option SourceRefSpec
  | sample _ _ _ accumulator _ _ => sourceRef accumulator
  | _ => none

def SourceRefSpec.names : Option SourceRefSpec → List String
  | some (.fromName name) => [name]
  | _ => []

def sourceTaskNames (task : RunTaskSpec K E Q T D) : List String :=
  SourceRefSpec.names task.sampleSamplerSource ++ SourceRefSpec.names task.evaluatorSource ++
    SourceRefSpec.names task.sampleAccumulatorSource

def newAccumulatorConfig : RunTaskSpec K E Q T D → Option AccumulatorConfig
  | setAccumulator accumulator => some accumulator
  | sample _ _ _ (some (.config config)) _ _ => some config
  | image accumulator _ _ | plotLine accumulator _ _ => some accumulator.fullConfig
  | _ => none

def accumulatorConfigSource : RunTaskSpec K E Q T D → Option SourceRefSpec
  | task@(pdfAdaptationImage ..) | task@(pdfAdaptationPlotLine ..) => task.sampleSamplerSource
  | task => task.sampleAccumulatorSource

/-- The spec with another queue tuning, `set_sample_queue_tuning` without its check. -/
def withQueueTuning (queueTuning : Option T) : RunTaskSpec K E Q T D → RunTaskSpec K E Q T D
  | sample estimator evaluator sampler accumulator _ rest =>
    sample estimator evaluator sampler accumulator queueTuning rest
  | task => task

end RunTaskSpec

def generatedTaskName (task : RunTaskSpec K E Q T D) (sequenceNr : Int) : String :=
  task.kindStr ++ "-" ++ toString sequenceNr

structure RunTaskInput (K E Q T D : Type) where
  name : Option String
  task : RunTaskSpec K E Q T D
  deriving DecidableEq

/-- The checks the preflight calls: of a task and of a queue tuning on their own, and of an
evaluator, which may ask a library or a process. -/
structure PreflightChecks (K E Q T D : Type) where
  /-- `RunTaskSpec::validate`. -/
  validate : RunTaskSpec K E Q T D → Except String Unit
  /-- `SamplerQueueTuning::validate`. -/
  validateTuning : T → Except String Unit
  resolveDomain : E → Except EngineError Domain
  validateAccumulatorConfig : E → AccumulatorConfig → Except EngineError Unit
  /-- `EvaluatorConfig::kind_str`. -/
  evaluatorKind : E → String
  /-- The `Debug` text of a domain. -/
  debugDomain : Domain → String

variable (checks : PreflightChecks K E Q T D)

def validateName : Option String → Except String Unit
  | none => .ok ()
  | some name =>
    if isBlank name then .error "task name must be non-empty when set"
    else if trim name.toList ≠ name.toList then
      .error "task name cannot have leading or trailing whitespace"
    else .ok ()

def RunTaskInput.validate (input : RunTaskInput K E Q T D) : Except String Unit := do
  validateName input.name
  checks.validate input.task

/-- A task without a name is named after its kind and its place. -/
def RunTaskInput.nameAt (input : RunTaskInput K E Q T D) (sequenceNr : Int) : String :=
  input.name.getD (generatedTaskName input.task sequenceNr)

/-! ## Configurations a task finds -/

def badRequest {α : Type} (context : String) : Except String α → Except ServiceError α
  | .error e => .error (.badRequest (context ++ e))
  | .ok a => .ok a

/-- `From<EngineError>`. -/
def engine {α : Type} : Except EngineError α → Except ServiceError α
  | .error e => .error (.badRequest e.toText)
  | .ok a => .ok a

/-- An option that has to be there. -/
def require {α : Type} (message : String) : Option α → Except ServiceError α
  | none => .error (.badRequest message)
  | some a => .ok a

/-- The configurations the tasks so far have left. -/
structure StageConfigs (K E Q : Type) where
  effectiveAccumulatorByName : String → Option AccumulatorConfig
  effectiveEvaluatorByName : String → Option E
  currentAccumulator : Option AccumulatorConfig
  currentSampling : Option (SamplingPipeline K Q)
  latestHavanaSampling : Option (SamplingPipeline K Q)
  samplingByName : String → Option (SamplingPipeline K Q)
  currentEvaluator : Option E
  runDomain : Domain

namespace StageConfigs

variable (s : StageConfigs K E Q)

def resolveEffectiveEvaluator (task : RunTaskSpec K E Q T D) : Except ServiceError E :=
  match task.evaluatorConfig with
  | some config => .ok config
  | none =>
    match task.evaluatorSource with
    | some (.fromName name) =>
      require ("task references evaluator source task '" ++ name ++
        "' but no effective evaluator is available from it") (s.effectiveEvaluatorByName name)
    | some .latest | none =>
      require "task has no effective evaluator configuration; set one explicitly first"
        s.currentEvaluator

def resolveEffectiveAccumulator (task : RunTaskSpec K E Q T D) :
    Except ServiceError (Option AccumulatorConfig) :=
  match task.newAccumulatorConfig with
  | some config => .ok (some config)
  | none =>
    match task.accumulatorConfigSource with
    | some .latest => do
      let config ← require ("task has no effective accumulator configuration; set one explicitly " ++
        "first or add a prior accumulator-producing task") s.currentAccumulator
      .ok (some config)
    | some (.fromName name) => do
      let config ← require ("task references accumulator source task '" ++ name ++
        "' but no effective accumulator is available from it") (s.effectiveAccumulatorByName name)
      .ok (some config)
    | none => .ok none

/-- The sampling pipeline a sample names, with the partition it inherits from a stage. -/
def namedSampling [DecidableEq K] : Option (StageSourceSpec (SamplingPipeline K Q)) →
    Except ServiceError (Option (SamplingPipeline K Q))
  | some (.config config) => .ok (some config)
  | some (.fromStage config name) => do
    let source ← require "sampler handoff has no source configuration" (s.samplingByName name)
    if config.stratification.isSome ∧ config.stratification ≠ source.stratification then
      .error (.badRequest "changing the Voronoi partition requires retraining")
    else .ok (some { config with stratification := source.stratification })
  | some (.fromName name) => .ok (s.samplingByName name)
  | some (.latest _) | none => .ok s.currentSampling

/-- An inference with a configuration of its own has the partition of the last Havana sampler. -/
def inheritPartition (sampler : Option (StageSourceSpec (SamplingPipeline K Q)))
    (config : SamplingPipeline K Q) : SamplingPipeline K Q :=
  match sampler with
  | some (.config _) =>
    if config.sampler = .havanaInference ∧ config.stratification.isNone then
      { config with stratification := s.latestHavanaSampling.bind (·.stratification) }
    else config
  | _ => config

/-- The pipeline becomes the current one. -/
def recordSampling (name : String) : Option (SamplingPipeline K Q) → StageConfigs K E Q
  | none => s
  | some sampling =>
    { s with
      latestHavanaSampling :=
        if sampling.sampler = .havanaTraining ∨ sampling.sampler = .havanaInference then
          some sampling
        else s.latestHavanaSampling
      samplingByName := Function.update s.samplingByName name (some sampling)
      currentSampling := some sampling }

def recordEvaluator (name : String) : Option E → StageConfigs K E Q
  | none => s
  | some evaluator =>
    { s with
      effectiveEvaluatorByName := Function.update s.effectiveEvaluatorByName name (some evaluator)
      currentEvaluator := some evaluator }

def recordAccumulator (name : String) : Option AccumulatorConfig → StageConfigs K E Q
  | none => s
  | some config =>
    { s with
      effectiveAccumulatorByName :=
        Function.update s.effectiveAccumulatorByName name (some config)
      currentAccumulator := some config }

end StageConfigs

section Sampling

variable [Field K] [LinearOrder K]

def SamplingPipeline.samplingDomain (config : SamplingPipeline K Q) (integrand : Domain) :
    Except EngineError Domain := do
  invalidInput integrand.validate
  match config.stratification with
  | none => .ok integrand
  | some partition =>
    partition.validate
    if config.sampler = .rasterPlane ∨ config.sampler = .rasterLine then
      .error (.invalidInput "raster samplers do not support stratification")
    else do
      partition.validate
      invalidInput (partition.domain.withIntegrand integrand)

/-- The partition of a pipeline fits the accumulator and the domain of the run. -/
def checkPartition (runDomain : Domain) (accumulator : Option AccumulatorConfig) :
    Option (SamplingPipeline K Q) → Except ServiceError Unit
  | none => .ok ()
  | some config =>
    match config.stratification with
    | none => .ok ()
    | some partition => do
      let accumulator ← require "stratification requires an accumulator" accumulator
      engine (partition.validateAccumulator accumulator)
      let _ ← engine (config.samplingDomain runDomain)
      .ok ()

def checkEstimator (estimator : Estimator) (accumulatorSource : Option (StageSourceSpec AccumulatorConfig))
    (accumulator : Option AccumulatorConfig) (sampling : Option (SamplingPipeline K Q)) :
    Except ServiceError Unit :=
  if estimator = .pooled then .ok ()
  else if sampling.all (·.stratification.isNone) then
    .error (.badRequest "stratified estimation requires a sampling partition")
  else
    match accumulatorSource with
    | some (.config _) =>
      if accumulator.any (·.discreteProjections.isSome) then
        .error (.badRequest
          "stratified inference uses per-stratum diagnostics instead of discrete_projections")
      else .ok ()
    | _ =>
      .error (.badRequest "stratified inference requires an explicit fresh accumulator")

/-- `validate_sampling`. -/
def StageConfigs.validateSampling (s : StageConfigs K E Q) (task : RunTaskSpec K E Q T D)
    (name : String) (accumulator : Option AccumulatorConfig) :
    Except ServiceError (StageConfigs K E Q) :=
  match task with
  | .sample estimator _ sampler accumulatorSource _ _ => do
    let named ← s.namedSampling sampler
    let sampling := named.map (s.inheritPartition sampler)
    checkPartition s.runDomain accumulator sampling
    checkEstimator estimator accumulatorSource accumulator sampling
    .ok (s.recordSampling name sampling)
  | _ => .ok s

end Sampling

/-! ## The preflight -/

/-- `TaskPreflightContext`. -/
structure TaskPreflightContext (K E Q : Type) extends StageConfigs K E Q where
  knownNames : List String
  priorSourceableNames : List String
  nextSequence : Int
  validatedEvaluators : List E

variable [Field K] [LinearOrder K] [DecidableEq E]

namespace TaskPreflightContext

def validateSources (c : TaskPreflightContext K E Q) : List String → Except ServiceError Unit
  | [] => .ok ()
  | name :: names =>
    if name ∈ c.priorSourceableNames then c.validateSources names
    else .error (.badRequest ("task source from_name='" ++ name ++
      "' does not reference a prior task in this run"))

/-- `validate_evaluator_domain`, with the evaluators validated so far. -/
def validateEvaluatorDomain (c : TaskPreflightContext K E Q) (evaluator : E) :
    Except ServiceError (List E) :=
  if evaluator ∈ c.validatedEvaluators then .ok c.validatedEvaluators
  else do
    let evaluatorDomain ← engine (checks.resolveDomain evaluator)
    if evaluatorDomain ≠ c.runDomain then
      .error (.badRequest ("task evaluator domain " ++ checks.debugDomain evaluatorDomain ++
        " does not match run domain " ++ checks.debugDomain c.runDomain))
    else .ok (evaluator :: c.validatedEvaluators)

def validateEvaluatorDomains (c : TaskPreflightContext K E Q) :
    Option E → Except ServiceError (List E)
  | none => .ok c.validatedEvaluators
  | some evaluator => c.validateEvaluatorDomain checks evaluator

/-- Only compute tasks consume evaluator stage state. -/
def effectiveEvaluator (s : StageConfigs K E Q) (task : RunTaskSpec K E Q T D) :
    Except ServiceError (Option E) :=
  if task.runsOnSamplerWorker then (s.resolveEffectiveEvaluator task).map some else .ok none

/-- The accumulator of a task against the evaluator that fills it. -/
def validateAccumulator (s : StageConfigs K E Q) (task : RunTaskSpec K E Q T D) (taskName : String)
    (evaluator : Option E) : Option AccumulatorConfig → Except ServiceError Unit
  | none => .ok ()
  | some config =>
    if task.isController then .ok ()
    else if task.runsInControlPlane then
      match s.currentEvaluator with
      | none => .ok ()
      | some evaluator => engine (checks.validateAccumulatorConfig evaluator config)
    else
      match evaluator with
      | none => .error (.badRequest ("task '" ++ taskName ++
          "' defines an accumulator but has no effective evaluator configuration"))
      | some evaluator => engine (checks.validateAccumulatorConfig evaluator config)

def validateTask (c : TaskPreflightContext K E Q) (input : RunTaskInput K E Q T D) :
    Except ServiceError (TaskPreflightContext K E Q) := do
  badRequest "invalid task entry: " (input.validate checks)
  c.validateSources input.task.sourceTaskNames
  let taskName := input.nameAt c.nextSequence
  if taskName ∈ c.knownNames then
    .error (.badRequest ("task name '" ++ taskName ++ "' is duplicated in this run"))
  else do
    let accumulator ← c.resolveEffectiveAccumulator input.task
    let evaluator ← effectiveEvaluator c.toStageConfigs input.task
    let validatedEvaluators ← c.validateEvaluatorDomains checks evaluator
    validateAccumulator checks c.toStageConfigs input.task taskName evaluator accumulator
    let stage ← c.validateSampling input.task taskName accumulator
    .ok {
      toStageConfigs := (stage.recordEvaluator taskName evaluator).recordAccumulator taskName accumulator
      knownNames := taskName :: c.knownNames
      priorSourceableNames := taskName :: c.priorSourceableNames
      nextSequence := c.nextSequence + 1
      validatedEvaluators := validatedEvaluators }

def validateBatch (c : TaskPreflightContext K E Q) :
    List (RunTaskInput K E Q T D) → Except ServiceError (TaskPreflightContext K E Q)
  | [] => .ok c
  | input :: inputs => do
    let c ← c.validateTask checks input
    c.validateBatch inputs

/-! ## Recorded tasks -/

/-- A recorded task that is no controller and sets no accumulator had an evaluator. -/
def recordedEvaluator (s : StageConfigs K E Q) (task : RunTaskSpec K E Q T D) :
    Except ServiceError (Option E) :=
  if task.runsInControlPlane then .ok none else (s.resolveEffectiveEvaluator task).map some

/-- `record_existing_task`. -/
def recordExistingTask (s : StageConfigs K E Q) (name : String) (task : RunTaskSpec K E Q T D) :
    Except ServiceError (StageConfigs K E Q) := do
  let evaluator ← recordedEvaluator s task
  let recorded := s.recordEvaluator name evaluator
  let accumulator ← recorded.resolveEffectiveAccumulator task
  let stage ← recorded.validateSampling task name accumulator
  .ok (stage.recordAccumulator name accumulator)

def recordExistingTasks (s : StageConfigs K E Q) :
    List (String × RunTaskSpec K E Q T D) → Except ServiceError (StageConfigs K E Q)
  | [] => .ok s
  | (name, task) :: tasks => do
    let s ← recordExistingTask s name task
    recordExistingTasks s tasks

end TaskPreflightContext

/-- Nothing is configured but the evaluator of the run. -/
def StageConfigs.initial (evaluator : Option E) (runDomain : Domain) : StageConfigs K E Q where
  effectiveAccumulatorByName := fun _ => none
  effectiveEvaluatorByName := fun _ => none
  currentAccumulator := none
  currentSampling := none
  latestHavanaSampling := none
  samplingByName := fun _ => none
  currentEvaluator := evaluator
  runDomain := runDomain

/-- A row of `run_tasks`, of one run, as the queue's edits see it. -/
structure QueuedTask (K E Q T D : Type) where
  id : Int
  name : String
  sequenceNr : Int
  task : RunTaskSpec K E Q T D
  state : Stores.RunTaskState
  deriving DecidableEq

namespace QueuedTask

/-- `task_definition`. -/
def definition (t : QueuedTask K E Q T D) : RunTaskInput K E Q T D := ⟨some t.name, t.task⟩

/-- `ORDER BY sequence_nr, id`. -/
def before (t u : QueuedTask K E Q T D) : Bool :=
  t.sequenceNr < u.sequenceNr || t.sequenceNr == u.sequenceNr && t.id ≤ u.id

/-- `COALESCE(MAX(sequence_nr), 0) + 1`. -/
def nextSequence (tasks : List (QueuedTask K E Q T D)) : Int :=
  (tasks.map (·.sequenceNr)).max?.getD 0 + 1

end QueuedTask

/-- `TaskPreflightContext::from_existing_tasks`. -/
def TaskPreflightContext.fromExistingTasks (existing : List (QueuedTask K E Q T D))
    (evaluator : Option E) (runDomain : Domain) :
    Except ServiceError (TaskPreflightContext K E Q) := do
  let ordered := existing.mergeSort QueuedTask.before
  let stage ← TaskPreflightContext.recordExistingTasks (StageConfigs.initial evaluator runDomain)
    (ordered.map fun t => (t.name, t.task))
  .ok {
    toStageConfigs := stage
    knownNames := existing.map (·.name)
    priorSourceableNames := existing.map (·.name)
    nextSequence := QueuedTask.nextSequence existing
    validatedEvaluators := [] }

end Gammaboard.Api
