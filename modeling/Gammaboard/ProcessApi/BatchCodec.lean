import Gammaboard.Lib.Ragged
import Gammaboard.ProcessApi.Domain
import Gammaboard.Sampling.ProcessGeneration

/-!
# Batches in the worker SDK

`BatchCodec` of `process_api/python/src/gammaboard_process/batch_codec.py`, as far as it decodes
binary blocks. Coordinates are the integers of `int64` and the bits of `float64`; an exception is
an error with its text.
-/

namespace Gammaboard.ProcessApi

open Gammaboard.Lib
open Gammaboard.Utils (Json DomainJson)
open Gammaboard.Sampling (F64 Columns i64FromLeBytes i64ToLeBytes)

/-- The rows of sample arrays, whether numpy holds them as one array or as a tuple. -/
structure Batch where
  xsDiscrete : List (List Int)
  xsContinuous : List (List F64)
  weights : List F64
  deriving DecidableEq, Repr

/-- 1.0 -/
def one : F64 := ⟨0x3FF0000000000000⟩

/-- A number that is a Python `int`. -/
def asInt : Json F64 → Option Int
  | .number (.posInt n) => some n.toNat
  | .number (.negInt n) => some n.toInt
  | _ => none

def isInt64 (v : Int) : Bool := -2 ^ 63 ≤ v && v < 2 ^ 63

/-- A codec and the widths that its domain fixes. -/
structure BatchCodec where
  domain : Domain
  widths : Option Int × Option Int

namespace BatchCodec

variable {α : Type}

/-- `__init__` -/
def new (domain : Domain) : Except String BatchCodec := do
  domain.validate false
  (domain.fixedWidths.map (BatchCodec.mk domain)).elim (.error "list index out of range") .ok

/-- The codec of a worker that is initialized. -/
def fromDict (json : DomainJson) : Except String BatchCodec := do
  let domain ← Domain.fromDict json
  new domain

/-! ## Decoding -/

/-- `np.arange(n + 1, dtype=np.int64) * width`, which wraps around. -/
def arange (n : Nat) (width : Int) : Except String (List Int) :=
  if 2 ^ 63 ≤ width then .error "Python int too large to convert to C long"
  else .ok ((List.range (n + 1)).map fun (i : Nat) => ((i : Int) * width).bmod (2 ^ 64))

/-- The offsets of a request as `int64`. -/
def asarray (offsets : List Int) : Except String (List Int) :=
  if offsets.all isInt64 then .ok offsets
  else .error "Python int too large to convert to C long"

/-- The checks of given offsets. -/
def givenOffsets (key : String) (n : Nat) (width : Option Int) (items : List (Json F64)) :
    Except String (List Int) :=
  match items.mapM asInt with
  | none => .error ("invalid " ++ key)
  | some offsets =>
    if offsets.length ≠ n + 1 ∨ offsets.any (· < 0) ∨ offsets.head? ≠ some 0 ∨
        (offsets.zip offsets.tail).any (fun pair => pair.2 < pair.1) then
      .error ("invalid " ++ key)
    else
      match width with
      | none => asarray offsets
      | some width =>
        if offsets ≠ (List.range (n + 1)).map (fun (i : Nat) => (i : Int) * width) then
          .error (key ++ " must match fixed width " ++ toString width)
        else asarray offsets

def offsets (params : Json F64) (key : String) (n : Nat) (width : Option Int) :
    Except String (List Int) :=
  match params.get? key with
  | some (.array items) => givenOffsets key n width items
  | none | some .null =>
    match width with
    | none => .error (key ++ " is required for a ragged domain")
    | some width => arange n width
  -- strings and dictionaries have a length, and items that are no integers
  | some (.string _) | some (.object _) => .error ("invalid " ++ key)
  | some (.bool _) => .error "object of type 'bool' has no len()"
  | some (.number (.float _)) => .error "object of type 'float' has no len()"
  | some (.number _) => .error "object of type 'int' has no len()"

/-- `flat.reshape(n, width)` -/
def reshape (flat : List α) (n width : Nat) : Except String (List (List α)) :=
  if flat.length ≠ n * width then
    .error ("cannot reshape array of size " ++ toString flat.length ++ " into shape (" ++
      toString n ++ "," ++ toString width ++ ")")
  else .ok (Ragged.cut flat (Ragged.uniform n width))

def rows (flat : List α) (offsets : List Int) (width : Option Int) :
    Except String (List (List α)) :=
  if offsets.getLast? ≠ some (flat.length : Int) then
    .error "coordinate length does not match offsets"
  else
    match width with
    | some width => reshape flat (offsets.length - 1) width.toNat
    | none => .ok (Ragged.cut flat (offsets.map Int.toNat))

/-- `np.frombuffer` of words of eight bytes; a negative count reads to the end. -/
def frombuffer (fromLeBytes : List UInt8 → α) (binary : List UInt8) (count offset : Int) :
    Except String (List α) :=
  if offset < 0 ∨ binary.length < offset then
    .error ("offset must be non-negative and no greater than buffer length (" ++
      toString binary.length ++ ")")
  else
    let rest := binary.drop offset.toNat
    if count < 0 then
      if rest.length % 8 ≠ 0 then .error "buffer size must be a multiple of element size"
      else .ok ((chunksExact 8 rest).map fromLeBytes)
    else if rest.length < count.toNat * 8 then .error "buffer is smaller than requested size"
    else .ok ((chunksExact 8 (rest.take (count.toNat * 8))).map fromLeBytes)

def sampleCount (params : Json F64) : Except String Nat :=
  match params.get? "nr_samples" with
  | none => .error "'nr_samples'"
  | some value =>
    match asInt value with
    | some n => if n < 0 then .error "invalid sample count" else .ok n.toNat
    | none => .error "invalid sample count"

/-- The weights of a request that is not weighted. -/
def ones (n : Nat) : List F64 := List.replicate n one

/-- The columns of a binary block, between the last offsets. -/
def binaryColumns (binary : List UInt8) (discrete continuous : Int) (n : Nat) (weighted : Bool) :
    Except String Columns := do
  if (binary.length : Int) ≠ (discrete + continuous + (if weighted then (n : Int) else 0)) * 8 then
    .error "invalid evaluator input length"
  else
    let d ← frombuffer i64FromLeBytes binary discrete 0
    let c ← frombuffer F64.fromLeBytes binary continuous (discrete * 8)
    let weights ← (if weighted then
      frombuffer F64.fromLeBytes binary n ((discrete + continuous) * 8) else .ok (ones n))
    return ⟨d, c, weights⟩

/-- `validate` of the coordinates of a domain that is no tree: as arrays. -/
def validateArrays (discreteCardinalities : List Int) (batch : Batch) : Except String Unit :=
  if !batch.xsContinuous.all (·.all F64.isFinite) then .error "continuous inputs must be finite"
  else if batch.xsDiscrete.any fun row =>
      (row.zip discreteCardinalities).any fun (x, n) => x < 0 || n ≤ x then
    .error "discrete coordinate out of bounds"
  else .ok ()

/-- `validate` of the coordinates of a tree: row by row. -/
def validatePoints (domain : Domain) : List (List Int × List F64) → Except String Unit
  | [] => .ok ()
  | (d, c) :: points => do
    if !c.all F64.isFinite then .error "continuous inputs must be finite"
    else
      domain.validatePoint d c.length
      validatePoints domain points

def validateCoordinates (domain : Domain) (batch : Batch) : Except String Unit :=
  match domain with
  | .rectangular discreteCardinalities _ _ => validateArrays discreteCardinalities batch
  | .discrete _ _ _ => validatePoints domain (batch.xsDiscrete.zip batch.xsContinuous)

def validate (codec : BatchCodec) (batch : Batch) : Except String Unit :=
  if batch.weights.any fun w => !w.isFinite || w.leZero then
    .error "sampling weights must be finite and positive"
  else if batch.xsDiscrete.length ≠ batch.weights.length ∨
      batch.xsContinuous.length ≠ batch.weights.length then
    .error "batch sample count mismatch"
  else validateCoordinates codec.domain batch

/-- `decode` of a binary block. -/
def decode (codec : BatchCodec) (params : Json F64) (binary : List UInt8) (weighted : Bool) :
    Except String Batch := do
  let n ← sampleCount params
  let discreteOffsets ← offsets params "xs_discrete_offsets" n codec.widths.1
  let continuousOffsets ← offsets params "xs_continuous_offsets" n codec.widths.2
  let columns ← binaryColumns binary (discreteOffsets.getLast?.getD 0)
    (continuousOffsets.getLast?.getD 0) n weighted
  let xsDiscrete ← rows columns.discrete discreteOffsets codec.widths.1
  let xsContinuous ← rows columns.continuous continuousOffsets codec.widths.2
  let batch : Batch := ⟨xsDiscrete, xsContinuous, columns.weights⟩
  codec.validate batch
  return batch

end BatchCodec

end Gammaboard.ProcessApi
