import Gammaboard.Lib.LittleEndian
import Gammaboard.Lib.Results
import Gammaboard.Sampling.Havana
import Gammaboard.Sampling.IndexedCodec
import Gammaboard.Utils.Domain
import Gammaboard.Utils.Json

/-!
# Generations of a process sampler

`decode_generation` of `sampler_aggregator/process.rs`, with `parse_process_offsets` and the
readers of `process_worker.rs`: the reply of a worker says how many samples its binary block
holds and where their rows begin, the block holds their columns. Floats are their bits, and the
capacities of vectors are left out.
-/

namespace Gammaboard.Sampling

open Gammaboard.Core Gammaboard.Lib Gammaboard.Utils
open Gammaboard.Runners (Generation)

/-! ## Words -/

/-- An `f64` by its bits. -/
structure F64 where
  bits : UInt64
  deriving DecidableEq, Repr

namespace F64

def isFinite (x : F64) : Bool := x.bits.toNat / 2 ^ 52 % 2 ^ 11 != 2 ^ 11 - 1

/-- `x <= 0.0` of a finite number: it is zero or its sign is set. -/
def leZero (x : F64) : Bool := x.bits.toNat == 0 || decide (2 ^ 63 ≤ x.bits.toNat)

def toLeBytes (x : F64) : List UInt8 := leBytes 8 x.bits.toNat

def fromLeBytes (bytes : List UInt8) : F64 := ⟨UInt64.ofNat (leNat bytes)⟩

end F64

/-- `i64::to_le_bytes` -/
def i64ToLeBytes (v : Int) : List UInt8 := leBytes 8 (v % 2 ^ 64).toNat

/-- `i64::from_le_bytes` -/
def i64FromLeBytes (bytes : List UInt8) : Int :=
  if leNat bytes < 2 ^ 63 then leNat bytes else leNat bytes - 2 ^ 64

def checkedBinaryEnd (byteOffset count : Nat) : Except String Nat :=
  if usizeLimit ≤ count * 8 then .error "binary element count is too large"
  else if usizeLimit ≤ byteOffset + count * 8 then .error "binary byte offset is too large"
  else .ok (byteOffset + count * 8)

/-- `read_le_f64` and `read_le_i64`: the values and the next byte offset. -/
def readLe {α : Type} (fromLeBytes : List UInt8 → α) (bytes : List UInt8) (byteOffset count : Nat) :
    Except String (List α × Nat) :=
  (checkedBinaryEnd byteOffset count).bind fun stop =>
    if bytes.length < stop then
      .error ("binary block too short: need " ++ toString stop ++ " bytes, have " ++
        toString bytes.length)
    else
      .ok ((chunksExact 8 ((bytes.drop byteOffset).take (stop - byteOffset))).map fromLeBytes, stop)

def readLeF64 (bytes : List UInt8) (byteOffset count : Nat) : Except String (List F64 × Nat) :=
  readLe F64.fromLeBytes bytes byteOffset count

def readLeI64 (bytes : List UInt8) (byteOffset count : Nat) : Except String (List Int × Nat) :=
  readLe i64FromLeBytes bytes byteOffset count

/-! ## Offsets -/

/-- How decoding ends without a generation. -/
inductive DecodeFailure where
  | failed (error : EngineError)
  | panics (message : String)
  deriving DecidableEq, Repr

def refuse {α : Type} (message : String) : Except DecodeFailure α :=
  .error (.failed (.engine message))

-- `N` are the floats of the JSON.
variable {N R : Type}

/-- The length of a column: its last offset, or what the fixed width makes of the samples. -/
def offsetsTotalLen (response : Json N) (field : String) (nrSamples fixedWidth : Nat) :
    Except DecodeFailure Nat :=
  match (response.get? field).bind Json.asArray with
  | some offsets =>
    match offsets.getLast?.bind Json.asU64 with
    | some value => .ok value
    | none =>
      refuse ("process sampler response field '" ++ field ++ "' must be a non-empty integer array")
  | none => .ok (saturatingMul nrSamples fixedWidth)

/-- The loop over the offsets; `previous` is the one before. -/
def parseOffsets (field adapter : String) (valuesLen : Nat) :
    Nat → Nat → List (Json N) → Except DecodeFailure (List Nat)
  | _, _, [] => .ok []
  | index, previous, value :: rest =>
    match value.asU64 with
    | none =>
      refuse ("process " ++ adapter ++ " response field '" ++ field ++ "[" ++ toString index ++
        "]' must be a non-negative integer")
    | some offset =>
      if index = 0 ∧ offset ≠ 0 then
        refuse ("process " ++ adapter ++ " response field '" ++ field ++ "' must start at 0")
      else if offset < previous then
        refuse ("process " ++ adapter ++ " response field '" ++ field ++ "' must be non-decreasing")
      else if valuesLen < offset then
        refuse ("process " ++ adapter ++ " response field '" ++ field ++ "[" ++ toString index ++
          "]' exceeds row-major value length " ++ toString valuesLen)
      else (parseOffsets field adapter valuesLen (index + 1) offset rest).map (offset :: ·)

/-- `index * fixed_width` of every index. -/
def fixedOffsets (fixedWidth : Nat) : List Nat → Except DecodeFailure (List Nat)
  | [] => .ok []
  | index :: rest =>
    if usizeLimit ≤ index * fixedWidth then .error (.panics "attempt to multiply with overflow")
    else (fixedOffsets fixedWidth rest).map (index * fixedWidth :: ·)

def parseProcessOffsets (response : Json N) (field : String)
    (nrSamples fixedWidth valuesLen : Nat) (adapter : String) : Except DecodeFailure (List Nat) :=
  match response.get? field with
  | none =>
    let expectedLen := saturatingMul nrSamples fixedWidth
    if valuesLen ≠ expectedLen then
      refuse ("process " ++ adapter ++ " response missing '" ++ field ++
        "' for ragged output with " ++ toString valuesLen ++
        " values; fixed-width fallback expected " ++ toString expectedLen)
    else fixedOffsets fixedWidth (List.range (nrSamples + 1))
  | some raw =>
    match raw.asArray with
    | none =>
      refuse ("process " ++ adapter ++ " response field '" ++ field ++ "' must be an array")
    | some offsets =>
      if usizeLimit ≤ nrSamples + 1 then .error (.panics "attempt to add with overflow")
      else if offsets.length ≠ nrSamples + 1 then
        refuse ("process " ++ adapter ++ " response field '" ++ field ++
          "' must contain nr_samples + 1 offsets")
      else
        (parseOffsets field adapter valuesLen 0 0 offsets).bind fun parsed =>
          if parsed.getLast? ≠ some valuesLen then
            refuse ("process " ++ adapter ++ " response field '" ++ field ++
              "' must end at row-major value length " ++ toString valuesLen)
          else .ok parsed

/-! ## Generations -/

def decodeSampleCount (maxSamples : Nat) (response : Json N) : Except DecodeFailure Nat :=
  match ((response.get? "nr_samples").bind Json.asU64).filter
      fun n => decide (0 < n ∧ n ≤ maxSamples) with
  | some n => .ok n
  | none => refuse "process draw exceeds max_samples or has invalid sample count"

def decodeTrainingRemaining (nrSamples : Nat) (response : Json N) :
    Except DecodeFailure (Option Nat) :=
  match response.get? "training_remaining" with
  | none => .ok none
  | some .null => .ok none
  | some value =>
    match value.asU64.filter fun n => decide (nrSamples ≤ n) with
    | some n => .ok (some n)
    | none => refuse "invalid process training window"

/-- The columns of a block. -/
structure Columns where
  discrete : List Int
  continuous : List F64
  weights : List F64
  deriving DecidableEq, Repr

/-- The check of the weights, from the given index on. -/
def checkWeights : Nat → List F64 → Except DecodeFailure Unit
  | _, [] => .ok ()
  | index, weight :: weights =>
    if !weight.isFinite || weight.leZero then
      refuse ("process sampler returned non-positive or non-finite value at weights[" ++
        toString index ++ "]")
    else checkWeights (index + 1) weights

/-- An error of a reader is an engine error. -/
def ofReader {α : Type} (read : Except String α) : Except DecodeFailure α :=
  read.mapError fun message => .failed (.engine message)

def readColumns (binary : List UInt8) (discreteLen continuousLen nrSamples : Nat) :
    Except DecodeFailure Columns := do
  let (discrete, next) ← ofReader (readLeI64 binary 0 discreteLen)
  let (continuous, next) ← ofReader (readLeF64 binary next continuousLen)
  let (weights, next) ← ofReader (readLeF64 binary next nrSamples)
  checkWeights 0 weights
  if next ≠ binary.length then refuse "trailing process sample bytes"
  else return ⟨discrete, continuous, weights⟩

/-- `values[offsets[index]..offsets[index + 1]]` -/
def rowSlice {α : Type} (values : List α) (offsets : List Nat) (index : Nat) :
    Except DecodeFailure (List α) :=
  match offsets[index]?, offsets[index + 1]? with
  | some start, some stop =>
    if start ≤ stop ∧ stop ≤ values.length then .ok ((values.drop start).take (stop - start))
    else .error (.panics "range end index out of range for slice")
  | _, _ => .error (.panics "index out of bounds")

/-- The loop over the rows, of which `left` are left from `index` on. -/
def pushRows (columns : Columns) (discreteOffsets continuousOffsets : List Nat) :
    Nat → Nat → IndexedBatchBuilder F64 → Except DecodeFailure (IndexedBatchBuilder F64)
  | 0, _, builder => .ok builder
  | left + 1, index, builder => do
    let discrete ← rowSlice columns.discrete discreteOffsets index
    let continuous ← rowSlice columns.continuous continuousOffsets index
    match columns.weights[index]? with
    | none => .error (.panics "index out of bounds")
    | some weight =>
      pushRows columns discreteOffsets continuousOffsets left (index + 1)
        (builder.push discrete continuous weight)

/-- The payload of the columns: at once where the domain fixes both widths and no offsets are
given, else row by row. -/
def decodePayload (domain : Utils.Domain) (response : Json N)
    (nrSamples discreteLen continuousLen : Nat) (columns : Columns) :
    Except DecodeFailure (LatentBatchPayload F64 R) :=
  let homogeneous := domain.fixedRectangularDims.filter fun _ =>
    (response.get? "xs_discrete_offsets").isNone && (response.get? "xs_continuous_offsets").isNone
  match homogeneous with
  | some dims =>
    .ok (IndexedBatchBuilder.fromHomogeneous columns.discrete dims.2 columns.continuous dims.1
      columns.weights)
  | none => do
    let discreteOffsets ← parseProcessOffsets response "xs_discrete_offsets" nrSamples
      (domain.fixedDiscreteDepth.getD 0) discreteLen "sampler"
    let continuousOffsets ← parseProcessOffsets response "xs_continuous_offsets" nrSamples
      (domain.fixedContinuousDims.getD 0) continuousLen "sampler"
    let builder ← pushRows columns discreteOffsets continuousOffsets nrSamples 0 .new
    return builder.finish

/-- What follows the kind of a batch. -/
def decodeBatch (domain : Utils.Domain) (maxSamples : Nat) (response : Json N)
    (binary : List UInt8) :
    Except DecodeFailure (Generation (LatentBatchPayload F64 R)) := do
  let nrSamples ← decodeSampleCount maxSamples response
  let trainingRemaining ← decodeTrainingRemaining nrSamples response
  let discreteLen ← offsetsTotalLen response "xs_discrete_offsets" nrSamples
    (domain.fixedDiscreteDepth.getD 0)
  let continuousLen ← offsetsTotalLen response "xs_continuous_offsets" nrSamples
    (domain.fixedContinuousDims.getD 0)
  let columns ← readColumns binary discreteLen continuousLen nrSamples
  let payload ← decodePayload domain response nrSamples discreteLen continuousLen columns
  return .batch ⟨nrSamples, payload⟩ trainingRemaining

def decodeGeneration (domain : Utils.Domain) (maxSamples : Nat) (response : Json N)
    (binary : List UInt8) : Except DecodeFailure (Generation (LatentBatchPayload F64 R)) :=
  let kind := (response.get? "kind").bind Json.asStr
  if kind = some "waiting" ∧ binary = [] then .ok .waiting
  else if kind = some "finished" ∧ binary = [] then .ok .finished
  else if kind = some "batch" then decodeBatch domain maxSamples response binary
  else refuse "invalid process generation result"

end Gammaboard.Sampling
