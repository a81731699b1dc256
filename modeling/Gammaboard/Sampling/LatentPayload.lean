import Gammaboard.Sampling.Generation
import Mathlib.Data.List.Range
import Mathlib.Logic.Function.Iterate

/-!
# The payload of a latent batch

`sampling/latent_batch.rs` with its two payloads, the builder samplers fill,
`slice_at`, `validate_nr_samples` and the decoding of a batch into its points.
An indexed batch holds ragged columns; a Havana inference batch holds the
states of the random number generator every `RNG_CHECKPOINT_STRIDE` samples and
is sampled again where it is evaluated. Drawing one point from the grid is a
parameter.
-/

namespace Gammaboard.Sampling

open Gammaboard.Core

/-- `F` are the floats. -/
structure Point (F : Type) where
  continuous : List F
  discrete : List Int
  weightFactors : List (String × F)
  deriving DecidableEq, Repr

def Point.new {F : Type} (continuous : List F) (discrete : List Int) (samplerWeight : F) :
    Point F :=
  ⟨continuous, discrete, [("sampler_weight", samplerWeight)]⟩

/-- `RNG_CHECKPOINT_STRIDE`. -/
def rngCheckpointStride : Nat := 1024

/-- `R` are the states of the random number generator. -/
inductive LatentBatchPayload (F R : Type) where
  | indexedBatch (discreteSignatures : List (List Int)) (discreteMap continuousLayouts : List Nat)
      (continuousValues weights : List F)
  | havanaInference (rngStates : List R) (offset : Nat)
  deriving DecidableEq, Repr

variable {F R α : Type}

/-! ## Building -/

structure IndexedBatchBuilder (F : Type) where
  discreteSignatures : List (List Int)
  discreteIndex : List Int → Option Nat
  emptySignature : Option Nat
  discreteMap : List Nat
  continuousLayouts : List Nat
  continuousValues : List F
  weights : List F

namespace IndexedBatchBuilder

def new : IndexedBatchBuilder F := ⟨[], fun _ => none, none, [], [], [], []⟩

def pushDiscrete (discrete : List Int) (b : IndexedBatchBuilder F) : IndexedBatchBuilder F :=
  let next := b.discreteSignatures.length
  if discrete = [] then
    match b.emptySignature with
    | some index => { b with discreteMap := b.discreteMap ++ [index] }
    | none =>
      { b with
        discreteSignatures := b.discreteSignatures ++ [[]]
        emptySignature := some next
        discreteMap := b.discreteMap ++ [next] }
  else
    match b.discreteIndex discrete with
    | some index => { b with discreteMap := b.discreteMap ++ [index] }
    | none =>
      { b with
        discreteIndex := fun d => if d = discrete then some next else b.discreteIndex d
        discreteSignatures := b.discreteSignatures ++ [discrete]
        discreteMap := b.discreteMap ++ [next] }

def push (discrete : List Int) (continuous : List F) (weight : F) (b : IndexedBatchBuilder F) :
    IndexedBatchBuilder F :=
  let b := b.pushDiscrete discrete
  { b with
    continuousLayouts := b.continuousLayouts ++ [continuous.length]
    continuousValues := b.continuousValues ++ continuous
    weights := b.weights ++ [weight] }

def finish (b : IndexedBatchBuilder F) : LatentBatchPayload F R :=
  .indexedBatch b.discreteSignatures b.discreteMap b.continuousLayouts b.continuousValues b.weights

/-- The first `n` rows of the width, for `chunks_exact`. -/
def rows (width : Nat) : Nat → List α → List (List α)
  | 0, _ => []
  | n + 1, xs => xs.take width :: rows width n (xs.drop width)

/-- `from_homogeneous`: validated arrays of fixed width. -/
def fromHomogeneous (discrete : List Int) (discreteDims : Nat) (continuousValues : List F)
    (continuousDims : Nat) (weights : List F) : LatentBatchPayload F R :=
  let nrSamples := weights.length
  let builder : IndexedBatchBuilder F :=
    { discreteSignatures := []
      discreteIndex := fun _ => none
      emptySignature := none
      discreteMap := []
      continuousLayouts := List.replicate nrSamples continuousDims
      continuousValues
      weights }
  if discreteDims = 0 then
    finish { builder with
      discreteSignatures := [[]]
      discreteMap := List.replicate nrSamples 0 }
  else
    finish ((rows discreteDims (discrete.length / discreteDims) discrete).foldl
      (fun b row => b.pushDiscrete row) builder)

end IndexedBatchBuilder

/-- The generator states of `generate` of the Havana inference sampler: the state before
every `RNG_CHECKPOINT_STRIDE`-th of the samples that are left. -/
def rngStates (sample : R → R × Except String (Point F)) : Nat → Nat → R → List R
  | 0, _, _ => []
  | left + 1, index, rng =>
    let later := rngStates sample left (index + 1) (sample rng).1
    if index % rngCheckpointStride = 0 then rng :: later else later

/-! ## Cutting -/

/-- `xs[start..start + n]`, `none` outside. -/
def range? (xs : List α) (start n : Nat) : Option (List α) :=
  if start + n ≤ xs.length then some ((xs.drop start).take n) else none

/-- An indexed range, a panic outside. -/
def indexRange (xs : List α) (start n : Nat) : Except String (List α) :=
  match range? xs start n with
  | some part => .ok part
  | none => .error "range end index out of range for slice"

/-- The signatures of a piece so far, the places of the old ones among them, and the piece's
own map. -/
structure Remap where
  signatures : List (List Int)
  remap : Nat → Option Nat
  maps : List Nat

def Remap.new : Remap := ⟨[], fun _ => none, []⟩

/-- The loop over the indices of a piece. -/
def Remap.indices (discreteSignatures : List (List Int)) : List Nat → Remap → Except String Remap
  | [], r => .ok r
  | index :: rest, r =>
    match discreteSignatures[index]? with
    | none => .error "generated batch references a missing discrete signature"
    | some signature =>
      match r.remap index with
      | some place => Remap.indices discreteSignatures rest { r with maps := r.maps ++ [place] }
      | none =>
        let place := r.signatures.length
        Remap.indices discreteSignatures rest
          { signatures := r.signatures ++ [signature]
            remap := fun i => if i = index then some place else r.remap i
            maps := r.maps ++ [place] }

namespace LatentBatchPayload

/-- The payload part of `slice_at`. -/
def slice (payload : LatentBatchPayload F R) (start samples coordinateStart : Nat) :
    Except String (LatentBatchPayload F R) :=
  match payload with
  | .havanaInference rngStates offset =>
    let first := (offset + start) / rngCheckpointStride
    let last := (offset + (start + samples) - 1) / rngCheckpointStride
    match range? rngStates first (last + 1 - first) with
    | none => .error "missing RNG checkpoint"
    | some rngStates => .ok (.havanaInference rngStates ((offset + start) % rngCheckpointStride))
  | .indexedBatch discreteSignatures discreteMap continuousLayouts continuousValues weights => do
    let indices ← indexRange discreteMap start samples
    let r ← Remap.indices discreteSignatures indices .new
    let layouts ← indexRange continuousLayouts start samples
    let values ← indexRange continuousValues coordinateStart layouts.sum
    let weights ← indexRange weights start samples
    return .indexedBatch r.signatures r.maps layouts values weights

/-- The coordinate the cursor is at after `nextSample` samples. -/
def coordinateStart (payload : LatentBatchPayload F R) (nextSample : Nat) : Option Nat :=
  match payload with
  | .indexedBatch _ _ continuousLayouts _ _ => (range? continuousLayouts 0 nextSample).map List.sum
  | .havanaInference _ _ => some 0

/-- How far a piece moves the coordinate cursor. -/
def coordinates : LatentBatchPayload F R → Nat
  | .indexedBatch _ _ _ continuousValues _ => continuousValues.length
  | .havanaInference _ _ => 0

end LatentBatchPayload

/-- `validate_nr_samples`. -/
def LatentBatch.validateNrSamples (b : LatentBatch (LatentBatchPayload F R)) : Except String Unit :=
  let nr := b.nrSamples
  if nr = 0 then .error "latent batch nr_samples must be greater than zero"
  else
    match b.payload with
    | .indexedBatch _ discreteMap continuousLayouts continuousValues weights =>
      let nw := weights.length
      let nm := discreteMap.length
      let nl := continuousLayouts.length
      let expected := continuousLayouts.sum
      let actual := continuousValues.length
      if nw ≠ nr then
        .error s!"latent batch nr_samples mismatch: nr_samples={nr}, weights={nw}"
      else if nm ≠ nr ∨ nl ≠ nr then
        .error s!"latent batch indexed shape mismatch: nr_samples={nr}, discrete_map={nm}, continuous_layouts={nl}"
      else if actual ≠ expected then
        .error s!"latent batch continuous payload mismatch: expected={expected}, actual={actual}"
      else .ok ()
    | .havanaInference rngStates offset =>
      if rngCheckpointStride ≤ offset ∨
          rngStates.length ≠ (nr + offset + (rngCheckpointStride - 1)) / rngCheckpointStride then
        .error "invalid RNG checkpoints or sample offset"
      else .ok ()

/-- What the generation buffer asks of a payload. -/
def payloadOps : PayloadOps (LatentBatchPayload F R) where
  validateNrSamples := LatentBatch.validateNrSamples
  coordinateStart := LatentBatchPayload.coordinateStart
  slice := LatentBatchPayload.slice
  coordinates := LatentBatchPayload.coordinates

/-! ## Decoding -/

/-- The first number that is no `usize`. -/
def usizeLimit : Nat := 2 ^ 64

/-- The loop of `decode_indexed_batch`: the samples from `sampleIdx` on, their coordinates from
`continuousOffset` on, and the offset behind the last. No vector reaches `usizeLimit`, so an offset
that overflows is one that is out of range. -/
def decodeFrom (discreteSignatures : List (List Int)) (continuousValues : List F) :
    Nat → Nat → List Nat → List Nat → List F → Except String (List (Point F) × Nat)
  | sampleIdx, continuousOffset, signatureIdx :: map, continuousLen :: layouts, weight :: weights =>
    match discreteSignatures[signatureIdx]? with
    | none =>
      .error s!"indexed latent batch discrete_map[{sampleIdx}] points to missing signature {signatureIdx}"
    | some discrete =>
      match range? continuousValues continuousOffset continuousLen with
      | none =>
        if usizeLimit ≤ continuousOffset + continuousLen then
          .error "indexed latent batch continuous offset overflow"
        else .error s!"indexed latent batch continuous values too short for sample {sampleIdx}"
      | some continuous => do
        let (points, offset) ← decodeFrom discreteSignatures continuousValues (sampleIdx + 1)
          (continuousOffset + continuousLen) map layouts weights
        return (Point.new continuous discrete weight :: points, offset)
  | _, continuousOffset, _, _, _ => .ok ([], continuousOffset)

def decodeIndexedBatch (discreteSignatures : List (List Int))
    (discreteMap continuousLayouts : List Nat) (continuousValues weights : List F) :
    Except String (List (Point F)) :=
  let nm := discreteMap.length
  let nl := continuousLayouts.length
  let nw := weights.length
  let total := continuousValues.length
  if nm ≠ nw ∨ nl ≠ nw then
    .error s!"indexed latent batch shape mismatch: discrete_map={nm}, continuous_layouts={nl}, weights={nw}"
  else
    match decodeFrom discreteSignatures continuousValues 0 0 discreteMap continuousLayouts weights with
    | .error e => .error e
    | .ok (points, consumed) =>
      if consumed ≠ total then
        .error s!"indexed latent batch continuous values have trailing data: consumed={consumed} total={total}"
      else .ok points

/-- The points of the next `n` samples. -/
def drawPoints (sample : R → R × Except String (Point F)) :
    Nat → R → Except String (List (Point F))
  | 0, _ => .ok []
  | n + 1, rng => do
    let (rng, point) := sample rng
    let point ← point
    let points ← drawPoints sample n rng
    return point :: points

/-- The generator after `n` samples. -/
def rngAfter (sample : R → R × Except String (Point F)) (n : Nat) (rng : R) : R :=
  (fun rng => (sample rng).1)^[n] rng

/-- `materialize_batch` of the Havana inference materializer, which decodes both payloads. -/
def materializeBatch (sample : R → R × Except String (Point F))
    (b : LatentBatch (LatentBatchPayload F R)) : Except String (List (Point F)) :=
  match b.payload with
  | .indexedBatch discreteSignatures discreteMap continuousLayouts continuousValues weights =>
    decodeIndexedBatch discreteSignatures discreteMap continuousLayouts continuousValues weights
  | .havanaInference rngStates offset => do
    b.validateNrSamples
    match rngStates with
    | [] => .error "index out of bounds"
    | state :: _ => drawPoints sample b.nrSamples (rngAfter sample offset state)

end Gammaboard.Sampling
