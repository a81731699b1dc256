import Gammaboard.Core.RasterGeometry
import Gammaboard.Lib.Writes
import Gammaboard.Sampling.Generation
import Gammaboard.Sampling.RasterOrder

/-!
# Raster samplers

`sampling/sampler_aggregator/raster.rs`: the sampler that draws the points of a
raster once each and records the feedback and the density at the pixel of every
sample. Drawing and recording keep a counter each and compute the order of the
raster from it. The source of the densities is a parameter, with a state of its
own.
-/

namespace Gammaboard.Sampling

open Gammaboard.Core Gammaboard.Lib

/-- A point of a raster: its continuous and its discrete coordinates. -/
abbrev RasterPoint (F : Type) := List F × List Int

structure PdfStrataOutput (F : Type) where
  prefixes : List (List Int)
  pdfValues : List (List (Option F))
  actualStrata : List (Option Nat)

/-- `PdfAdaptationImageOutputState` -/
structure RasterOutput (F : Type) where
  integrandValues : List (Option F)
  pdfValues : List (Option F)
  strata : Option (PdfStrataOutput F)

/-- The sampler whose densities are shown: `pdf_batch` on its state. -/
structure DensitySource (F σ : Type) where
  /-- The state it is restored to. -/
  restored : σ
  pdfBatch : σ → List (List Int × List F) → Except EngineError (List (Option F) × σ)

/-- What a raster sampler is built from. -/
structure RasterSetting (F σ : Type) where
  geometry : RasterGeometry F
  /-- The prefixes of the stratification of the source, if it has one. -/
  prefixes : Option (List (List Int))
  source : DensitySource F σ

/-- `PdfAdaptationRasterSampler` -/
structure PdfRasterSampler (F σ : Type) where
  nextIndex : Nat
  stride : Nat
  ingestedSamples : Nat
  outputState : RasterOutput F
  sourceSampler : σ

/-- `PdfAdaptationRasterSnapshot` -/
structure PdfRasterSnapshot (F : Type) where
  nextIndex : Nat
  stride : Nat
  ingestedSamples : Nat
  outputState : RasterOutput F

/-- The indices of so many samples from a counter on. -/
def canonicalIndices (start count total stride : Nat) : Except RasterError (List Nat) :=
  (List.range count).mapM fun offset => permutedRasterIndex (start + offset) total stride

def liftEngine {α : Type} : Except EngineError α → Except RasterError α
  | .ok a => .ok a
  | .error e => .error (.engine e)

/-- What is recorded of a value: a value that is not finite is left out. -/
def recorded {F : Type} (finite : F → Bool) (value : F) : Option F :=
  if finite value then some value else none

namespace RasterSetting

variable {F σ : Type} [Zero F] [Add F] [LT F] [DecidableLT F] (setting : RasterSetting F σ)
  (finite : F → Bool)

def total : Nat := setting.geometry.nrPoints

/-- `evaluation_discrete` -/
def evaluationDiscrete : List Int :=
  match setting.prefixes with
  | some prefixes => prefixes.headD [] ++ setting.geometry.discrete
  | none => setting.geometry.discrete

/-- `from_params_and_snapshot` -/
def fromParamsAndSnapshot : Except RasterError (PdfRasterSampler F σ) :=
  match coprimeStride setting.total with
  | none => .error .endless
  | some stride => .ok
    { nextIndex := 0
      stride := stride
      ingestedSamples := 0
      outputState :=
        { integrandValues := List.replicate setting.total none
          pdfValues := List.replicate setting.total none
          strata := setting.prefixes.map fun prefixes =>
            { prefixes := prefixes
              pdfValues := List.replicate prefixes.length (List.replicate setting.total none)
              actualStrata := List.replicate setting.total none } }
      sourceSampler := setting.source.restored }

/-- `from_snapshot` -/
def fromSnapshot (snapshot : PdfRasterSnapshot F) : Except RasterError (PdfRasterSampler F σ) :=
  setting.fromParamsAndSnapshot.map fun sampler =>
    { sampler with
      nextIndex := snapshot.nextIndex
      stride := snapshot.stride
      ingestedSamples := snapshot.ingestedSamples
      outputState := snapshot.outputState }

/-- `produce_raster_batch` -/
def produceRasterBatch (sampler : PdfRasterSampler F σ) (requestedSamples : Nat) :
    Except RasterError (List (RasterPoint F) × PdfRasterSampler F σ) :=
  let nrSamples := min requestedSamples (setting.total - sampler.nextIndex)
  if nrSamples = 0 then
    .error (.engine (.engine "pdf adaptation raster sampler cannot produce an empty batch"))
  else do
    let indices ← canonicalIndices sampler.nextIndex nrSamples setting.total sampler.stride
    return (indices.map fun index => (setting.geometry.pointAt index, setting.evaluationDiscrete),
      { sampler with nextIndex := sampler.nextIndex + nrSamples })

/-- `generate`; no points are the end. -/
def generate (sampler : PdfRasterSampler F σ) (maxSamples : Nat) :
    Except RasterError (List (RasterPoint F) × PdfRasterSampler F σ) :=
  if maxSamples = 0 then .error (.engine (.invalidInput "max_samples must be positive"))
  else if sampler.nextIndex = setting.total then .ok ([], sampler)
  else setting.produceRasterBatch sampler maxSamples

/-- `record_pdf_adaptation_values` -/
def recordPdfAdaptationValues (sampler : PdfRasterSampler F σ) (indices : List Nat)
    (values : List F) : Except RasterError (PdfRasterSampler F σ) := do
  let output := sampler.outputState
  let pairs := indices.zip values
  let kept := pairs.filter fun e => finite e.2
  let answer ← liftEngine (setting.source.pdfBatch sampler.sourceSampler
    (kept.map fun e => (setting.geometry.discrete, setting.geometry.pointAt e.1)))
  if answer.1.length ≠ kept.length then
    .error (.engine (.engine ("pdf adaptation raster raster sampler pdf output size mismatch: expected "
      ++ toString kept.length ++ ", got " ++ toString answer.1.length)))
  else
    let cleared := writeAll output.pdfValues
      ((pairs.filter fun e => !finite e.2).map fun e => (e.1, none))
    .ok { sampler with
      outputState := { output with
        integrandValues := writeAll output.integrandValues
          (pairs.map fun e => (e.1, recorded finite e.2))
        pdfValues := writeAll cleared
          ((kept.zip answer.1).map fun e => (e.1.1, e.2.bind (recorded finite))) }
      sourceSampler := answer.2 }

/-- `ingest_pdf_adaptation_values` -/
def ingestPdfAdaptationValues (sampler : PdfRasterSampler F σ) (values : List F) :
    Except RasterError (PdfRasterSampler F σ) :=
  if setting.total < sampler.ingestedSamples + values.length then
    .error (.engine (.engine ("pdf adaptation raster raster sampler ingest overflow: "
      ++ toString sampler.ingestedSamples ++ " + " ++ toString values.length ++ " exceeds "
      ++ toString setting.total)))
  else do
    let indices ← canonicalIndices sampler.ingestedSamples values.length setting.total sampler.stride
    let next ← setting.recordPdfAdaptationValues finite sampler indices values
    return { next with ingestedSamples := sampler.ingestedSamples + values.length }

/-- The densities of one stratum at the points of the feedback. -/
def recordStratum (indices : List Nat) (state : List (List (Option F)) × σ)
    (stratum : List Int × Nat) : Except RasterError (List (List (Option F)) × σ) := do
  let answer ← liftEngine (setting.source.pdfBatch state.2
    (indices.map fun i => (stratum.1 ++ setting.geometry.discrete, setting.geometry.pointAt i)))
  if answer.1.length ≠ indices.length ∨
      answer.1.any (fun p => p.any fun v => !finite v || decide (v < 0)) then
    .error (.engine (.eval "invalid PDF diagnostic density response"))
  else
    .ok (state.1.modify stratum.2 fun row => writeAll row (indices.zip answer.1), answer.2)

/-- The sum of the densities of all strata at a pixel, if all are known. -/
def densityAt (rows : List (List (Option F))) (index : Nat) : Option F :=
  (rows.mapM fun row : List (Option F) => row[index]?.join).map fun values =>
    values.foldl (· + ·) 0

/-- `record_strata` -/
def recordStrata (sampler : PdfRasterSampler F σ) (strata : PdfStrataOutput F)
    (feedback : Feedback F) : Except RasterError (PdfRasterSampler F σ) :=
  match feedback.strata with
  | none => .error (.engine (.eval "PDF diagnostics require actual stratum assignments"))
  | some assignments =>
    if assignments.prefixes ≠ strata.prefixes ∨ assignments.requested.any (· != 0) ∨
        setting.total < sampler.ingestedSamples + feedback.len then
      .error (.engine (.eval "PDF diagnostic feedback layout mismatch"))
    else do
      let indices ← canonicalIndices sampler.ingestedSamples feedback.len setting.total sampler.stride
      let state ← strata.prefixes.zipIdx.foldlM (setting.recordStratum finite indices)
        (strata.pdfValues, sampler.sourceSampler)
      let output := sampler.outputState
      let entries := (indices.zip feedback.unmaskedValues).zip assignments.actual
      return { sampler with
        ingestedSamples := sampler.ingestedSamples + feedback.len
        outputState :=
          { integrandValues := writeAll output.integrandValues
              (entries.map fun e => (e.1.1, some e.1.2))
            pdfValues := writeAll output.pdfValues
              (entries.map fun e => (e.1.1, densityAt state.1 e.1.1))
            strata := some { strata with
              pdfValues := state.1
              actualStrata := writeAll strata.actualStrata
                (entries.map fun e => (e.1.1, some e.2)) } }
        sourceSampler := state.2 }

/-- `feedback` -/
def feedback (sampler : PdfRasterSampler F σ) (feedback : Feedback F) :
    Except RasterError (PdfRasterSampler F σ) :=
  match sampler.outputState.strata with
  | some strata => do
    liftEngine (feedback.validate finite)
    setting.recordStrata finite sampler strata feedback
  | none => setting.ingestPdfAdaptationValues finite sampler feedback.unmaskedValues

end RasterSetting

/-- `snapshot` -/
def PdfRasterSampler.snapshot {F σ : Type} (sampler : PdfRasterSampler F σ) : PdfRasterSnapshot F :=
  ⟨sampler.nextIndex, sampler.stride, sampler.ingestedSamples, sampler.outputState⟩

end Gammaboard.Sampling
