import Gammaboard.Evaluation.InPlace
import Gammaboard.Sampling.Havana

/-!
# The GammaLoop accumulator

`evaluation/accumulator/gammaloop.rs`: native histograms beside a vector
estimate and the statistics of the training projection. The histograms are
merged by GammaLoop itself (`mergeBundle`), on a copy: its merge can fail after
it has changed a histogram. The copy and the training statistics are put in
place before the estimate is merged.
-/

namespace Gammaboard.Evaluation

open Gammaboard.Core Gammaboard.Sampling

variable {F X V M G L : Type}

/-! ## Native histograms -/

/-- What the checks read of a bin, and the rest of it. -/
structure HistogramBinSnapshot (F X : Type) where
  sumWeights : F
  sumWeightsSquared : F
  rest : X
  deriving DecidableEq

structure HistogramSnapshot (F X : Type) where
  sampleCount : Nat
  bins : List (HistogramBinSnapshot F X)
  underflowBin : HistogramBinSnapshot F X
  overflowBin : HistogramBinSnapshot F X
  rest : X
  deriving DecidableEq

/-- `histograms` of an `ObservableSnapshotBundle`, in the order of their names. -/
abbrev ObservableSnapshotBundle (F X : Type) := List (String × HistogramSnapshot F X)

/-- The first bin with a number that is not finite; the underflow and the overflow come last. -/
def checkHistogram (finite : F → Bool) (name : String) (histogram : HistogramSnapshot F X) :
    Except EngineError Unit :=
  match (histogram.bins ++ [histogram.underflowBin, histogram.overflowBin]).findIdx? fun bin =>
      !finite bin.sumWeights || !finite bin.sumWeightsSquared with
  | some index =>
    .error (.eval ("histogram " ++ reprStr name ++ ", bin " ++ toString index
      ++ ": non-finite contribution or second moment"))
  | none => .ok ()

def validateHistogramBundle (finite : F → Bool) :
    ObservableSnapshotBundle F X → Except EngineError Unit
  | [] => .ok ()
  | (name, histogram) :: rest => do
    checkHistogram finite name histogram
    validateHistogramBundle finite rest

/-! ## Diagnostics -/

structure GammaLoopDiagnostics (F : Type) where
  countTotal : Int
  countDoublePrecision : Int
  countQuadPrecision : Int
  countArbPrecision : Int
  countNan : Int
  countNanOrUnstable : Int
  countLoopMomentaEscalated : Int
  totalEvalTimeMs : F
  totalIntegrandEvalTimeMs : F
  totalEvaluatorEvalTimeMs : F
  totalParameterizationTimeMs : F
  totalEventProcessingTimeMs : F
  totalCanonicalSamplingPreparationTimeMs : Option F
  totalCanonicalPhysicalPreparationTimeMs : Option F
  totalGeneratedEvents : Int
  totalAcceptedEvents : Int
  deriving DecidableEq

namespace GammaLoopDiagnostics

variable [Add F]

/-- A preparation time, known as long as every sample has brought one. -/
def mergeTiming (count otherCount : Int) (total incoming : Option F) : Option F :=
  if otherCount ≤ 0 then total
  else if count = 0 then incoming
  else
    match total, incoming with
    | some a, some b => some (a + b)
    | _, _ => none

/-- A counter of 64 bits; nothing checks it. -/
def addCounter (a b : Int) : Int := Int.bmod (a + b) (2 ^ 64)

def mergeInPlace (a b : GammaLoopDiagnostics F) : GammaLoopDiagnostics F where
  countTotal := addCounter a.countTotal b.countTotal
  countDoublePrecision := addCounter a.countDoublePrecision b.countDoublePrecision
  countQuadPrecision := addCounter a.countQuadPrecision b.countQuadPrecision
  countArbPrecision := addCounter a.countArbPrecision b.countArbPrecision
  countNan := addCounter a.countNan b.countNan
  countNanOrUnstable := addCounter a.countNanOrUnstable b.countNanOrUnstable
  countLoopMomentaEscalated := addCounter a.countLoopMomentaEscalated b.countLoopMomentaEscalated
  totalEvalTimeMs := a.totalEvalTimeMs + b.totalEvalTimeMs
  totalIntegrandEvalTimeMs := a.totalIntegrandEvalTimeMs + b.totalIntegrandEvalTimeMs
  totalEvaluatorEvalTimeMs := a.totalEvaluatorEvalTimeMs + b.totalEvaluatorEvalTimeMs
  totalParameterizationTimeMs := a.totalParameterizationTimeMs + b.totalParameterizationTimeMs
  totalEventProcessingTimeMs := a.totalEventProcessingTimeMs + b.totalEventProcessingTimeMs
  totalCanonicalSamplingPreparationTimeMs :=
    mergeTiming a.countTotal b.countTotal a.totalCanonicalSamplingPreparationTimeMs
      b.totalCanonicalSamplingPreparationTimeMs
  totalCanonicalPhysicalPreparationTimeMs :=
    mergeTiming a.countTotal b.countTotal a.totalCanonicalPhysicalPreparationTimeMs
      b.totalCanonicalPhysicalPreparationTimeMs
  totalGeneratedEvents := addCounter a.totalGeneratedEvents b.totalGeneratedEvents
  totalAcceptedEvents := addCounter a.totalAcceptedEvents b.totalAcceptedEvents

end GammaLoopDiagnostics

/-! ## The state -/

/-- `TrainingProjection` of the GammaLoop evaluator. -/
inductive PhaseProjection where
  | real
  | imag
  | abs
  | absSq
  deriving DecidableEq, Repr

structure GammaLoopAccumulatorState (F X L : Type) where
  bundle : ObservableSnapshotBundle F X
  estimate : VectorAccumulatorState (ScalarSums F) L
  trainingProjection : Option PhaseProjection
  trainingNormSqr : Option (ScalarAccumulatorState (ScalarSums F))
  diagnostics : GammaLoopDiagnostics F

/-- GammaLoop's own `merge_in_place`, with the bundle it leaves and the text of its error. -/
abbrev MergeBundle (F X : Type) :=
  ObservableSnapshotBundle F X → ObservableSnapshotBundle F X →
    ObservableSnapshotBundle F X × Option String

namespace GammaLoopAccumulatorState

section State

variable (num : Numerics F (ScalarSums F) M G L)

def sampleCount (a : GammaLoopAccumulatorState F X L) : Int := a.estimate.sampleCount

def validateStratifiedSamples (a : GammaLoopAccumulatorState F X L) (expected : Int) :
    Except EngineError Unit :=
  if a.sampleCount ≠ expected then
    .error (.eval "GammaLoop estimate must count every stratified attempt")
  else if a.bundle.any fun (_, histogram) => asI64 histogram.sampleCount != expected then
    .error (.eval "GammaLoop histograms must count every stratified attempt, including misses")
  else .ok ()

def validateValues (a : GammaLoopAccumulatorState F X L) : Except EngineError Unit := do
  validateHistogramBundle num.finite a.bundle
  a.estimate.validate num
  match a.trainingNormSqr with
  | some state => do
    state.validate num
    if state.count ≠ a.estimate.sampleCount then
      .error (.eval "inconsistent GammaLoop training sample count")
    else .ok ()
  | none => .ok ()

def validateTrainingStatistics (a b : GammaLoopAccumulatorState F X L) : Except EngineError Unit :=
  if a.trainingProjection ≠ b.trainingProjection ∨
      a.trainingNormSqr.isSome ≠ b.trainingNormSqr.isSome then
    .error (.engine "incompatible GammaLoop training statistics")
  else
    match a.trainingNormSqr, b.trainingNormSqr with
    | some left, some right => left.validateMerge num right
    | _, _ => .ok ()

end State

section Merge

variable [Add F] [Zero F] [DecidableEq F] [LT F] [DecidableLT F] [DecidableEq L]

/-- `merge_training_statistics`; the bins of the incoming statistics are not looked at. -/
def mergeTrainingStatistics :
    Option (ScalarAccumulatorState (ScalarSums F)) →
      Option (ScalarAccumulatorState (ScalarSums F)) →
        Option (ScalarAccumulatorState (ScalarSums F))
  | current, none => current
  | some current, some incoming =>
    some ⟨current.count + incoming.count, current.stats.mergePlain incoming.stats⟩
  | none, some incoming => some incoming

/-- No histogram and no sample yet: the first batch brings the schema of the observables. -/
def Fresh (a : GammaLoopAccumulatorState F X L) : Prop :=
  a.bundle.isEmpty = true ∧ a.estimate.sampleCount = 0

instance (a : GammaLoopAccumulatorState F X L) : Decidable a.Fresh :=
  inferInstanceAs (Decidable (_ ∧ _))

variable (num : Numerics F (ScalarSums F) M G L) (mergeBundle : MergeBundle F X)

/-- The merged copy of a bundle. -/
def mergedBundle (left right : ObservableSnapshotBundle F X) :
    Except EngineError (ObservableSnapshotBundle F X) :=
  match mergeBundle left right with
  | (bundle, none) => .ok bundle
  | (_, some e) => .error (.engine ("failed to merge gammaloop accumulator bundle: " ++ e))

/-- The checks before the first field changes, and the merged bundle. -/
def stage (a b : GammaLoopAccumulatorState F X L) :
    Except EngineError (ObservableSnapshotBundle F X) := do
  a.estimate.validateMerge num b.estimate
  a.validateTrainingStatistics num b
  let bundle ← mergedBundle mergeBundle a.bundle b.bundle
  validateHistogramBundle num.finite bundle
  return bundle

def mergeInPlace (a b : GammaLoopAccumulatorState F X L) :
    GammaLoopAccumulatorState F X L × Option EngineError :=
  match a.validateValues num >>= fun _ => b.validateValues num with
  | .error e => (a, some e)
  | .ok () =>
    if a.Fresh then (b, none)
    else
      match a.stage num mergeBundle b with
      | .error e => (a, some e)
      | .ok bundle =>
        let merged := { a with
          bundle, trainingNormSqr := mergeTrainingStatistics a.trainingNormSqr b.trainingNormSqr }
        match a.estimate.mergeInto num b.estimate with
        | (estimate, some e) => ({ merged with estimate }, some e)
        | (estimate, none) =>
          ({ merged with estimate, diagnostics := a.diagnostics.mergeInPlace b.diagnostics }, none)

/-- The steps of an accumulator whose native observables are GammaLoop's. -/
def native : Numerics F (ScalarSums F) M (GammaLoopAccumulatorState F X L) L :=
  { num with
    nativeCount := sampleCount
    validateNative := validateValues num
    validateNativeSamples := validateStratifiedSamples
    mergeNative := mergeInPlace num mergeBundle }

end Merge

end GammaLoopAccumulatorState

end Gammaboard.Evaluation
