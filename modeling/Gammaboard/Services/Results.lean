import Gammaboard.Utils.Json
import Mathlib.Algebra.Order.Field.Basic

/-!
# Combined histograms

Histograms of independent children, each with a signed coefficient: values add,
and variances add in quadrature. The histograms are JSON; the first is the
template of what is returned. Numbers are exact, and the square root is a
parameter.
-/

namespace Gammaboard.Services

open Gammaboard.Lib Gammaboard.Utils

variable {K : Type} [Field K] [LinearOrder K]

/-! ## Layouts -/

def layoutKeys : List String :=
  ["kind", "phase", "value_transform", "x_min", "x_max", "discrete_min_bin_id",
    "discrete_ordering"]

def binLayout (bin : Json K) : Json K :=
  .object (OrdMap.collect [("x_min", bin.get "x_min"), ("x_max", bin.get "x_max"),
    ("bin_id", bin.get "bin_id"), ("label", bin.get "label")])

def histogramLayout (histogram : Json K) : Option (Json K) := do
  let object ← histogram.asObject
  let layout := OrdMap.collect (OrdMap.project layoutKeys object)
  let bins ← (← OrdMap.get "bins" object).asArray
  return .object (OrdMap.insert "bins" (.array (bins.map binLayout)) layout)

/-- The first and the last place of a bin on the axis. -/
def histogramBinRange (histogram bin : Json K) (index : Nat) : K × K :=
  match (bin.get? "x_min").bind Json.asF64, (bin.get? "x_max").bind Json.asF64 with
  | some start, some stop => (start, stop)
  | _, _ =>
    let id := (((bin.get? "bin_id").bind Json.asF64).or
      (((histogram.get? "discrete_min_bin_id").bind Json.asF64).map fun minimum =>
        minimum + (index : K))).getD (index : K)
    (id, id + 1)

/-! ## Statistics -/

/-- The mean of a bin for each sample, and the square of its standard error. -/
def binStatistics (sampleCount bin : Json K) : Option (K × K) := do
  let sampleCount ← sampleCount.asF64
  let sum ← (← bin.get? "sum_weights").asF64
  let sumSq ← (← bin.get? "sum_weights_squared").asF64
  if sampleCount ≤ 0 then none
  else
    some (sum / sampleCount,
      if 1 < sampleCount then
        max ((sumSq - sum * sum / sampleCount) / (sampleCount * (sampleCount - 1))) 0
      else 0)

/-- The loop body of `combine_bin`: a coefficient, a sample count and a bin. -/
def addBin (totals : K × K) (input : Option (K × Json K × Json K)) : Option (K × K) := do
  let input ← input
  let statistics ← binStatistics input.2.1 input.2.2
  return (totals.1 + input.1 * statistics.1, totals.2 + input.1 ^ 2 * statistics.2)

/-- The value and the error of a bin, from its coefficient, sample count and statistics in every
child. -/
def combineBin (sqrt : K → K) (inputs : List (Option (K × Json K × Json K))) : Option (K × K) := do
  let totals ← inputs.foldlM addBin (0, 0)
  return (totals.1, sqrt totals.2)

/-- The bins beyond the ends of the axis. -/
inductive Extreme where
  | underflow
  | overflow
deriving DecidableEq, Repr

def Extreme.key : Extreme → String
  | .underflow => "underflow_bin"
  | .overflow => "overflow_bin"

/-- A place where a histogram keeps statistics. -/
inductive Place where
  | bin (index : Nat)
  | extreme (e : Extreme)
deriving DecidableEq, Repr

def binAt (histogram : Json K) : Place → Option (Json K)
  | .bin index => do (← (← histogram.get? "bins").asArray)[index]?
  | .extreme e => histogram.get? e.key

def combineAt (sqrt : K → K) (inputs : List (K × Json K)) (place : Place) : Option (K × K) :=
  combineBin sqrt (inputs.map fun input => do
    return (input.1, ← input.2.get? "sample_count", ← binAt input.2 place))

/-! ## Combination -/

def number (x : K) : Json K := .number (.float x)

/-- An `i64` as JSON. -/
def integer (n : Int) : Json K :=
  .number (if 0 ≤ n then .posInt (UInt64.ofNat n.toNat) else .negInt (Int64.ofInt n))

/-- The sum of `i64` wraps around. -/
def wrappingSum (counts : List Int) : Int :=
  counts.foldl (fun sum count => (sum + count).bmod (2 ^ 64)) 0

def copyKey (source : Json K) (target : OrdMap String (Json K)) (key : String) :
    OrdMap String (Json K) :=
  match source.get? key with
  | some value => OrdMap.insert key value target
  | none => target

/-- A bin of the template with what was combined. -/
def combinedBin (template templateBin : Json K) (index : Nat) (combined : K × K) : Json K :=
  let range := histogramBinRange template templateBin index
  let bin := OrdMap.collect [("start", number range.1), ("stop", number range.2),
    ("value", number combined.1), ("error", number combined.2)]
  .object (["label", "bin_id"].foldl (copyKey templateBin) bin)

/-- What becomes of the underflow or the overflow bin of the template. -/
def combineExtreme (sqrt : K → K) (template : Json K) (inputs : List (K × Json K))
    (combined : OrdMap String (Json K)) (e : Extreme) : Option (OrdMap String (Json K)) :=
  if (template.get? e.key).isNone then some (OrdMap.erase e.key combined)
  else do
    let value ← combineAt sqrt inputs (.extreme e)
    return OrdMap.insert e.key
      (.object (OrdMap.collect [("value", number value.1), ("error", number value.2)])) combined

/-- The bins of the template with what was combined. -/
def combineBins (sqrt : K → K) (template : Json K) (inputs : List (K × Json K))
    (templateBins : List (Json K)) : Option (List (Json K)) :=
  templateBins.zipIdx.mapM fun templateBin =>
    (combineAt sqrt inputs (.bin templateBin.2)).map
      (combinedBin template templateBin.1 templateBin.2)

/-- `combine_histogram`, given the first child. -/
def combineBehind (sqrt : K → K) (template : Json K) (inputs : List (K × Json K)) :
    Option (Json K) := do
  let templateBins ← (← template.get? "bins").asArray
  let layout ← histogramLayout template
  if inputs.any fun input => decide (histogramLayout input.2 ≠ some layout) then none
  else
    let bins ← combineBins sqrt template inputs templateBins
    let combined := OrdMap.insert "bins" (.array bins) (← template.asObject)
    let combined ← combineExtreme sqrt template inputs combined .underflow
    let combined ← combineExtreme sqrt template inputs combined .overflow
    let combined := OrdMap.insert "sample_count"
      (integer (wrappingSum (inputs.filterMap fun input =>
        (input.2.get? "sample_count").bind Json.asI64))) combined
    return .object (OrdMap.erase "statistics" combined)

def combineHistogram (sqrt : K → K) (inputs : List (K × Json K)) : Option (Json K) :=
  inputs.head?.bind fun input => combineBehind sqrt input.2 inputs

end Gammaboard.Services
