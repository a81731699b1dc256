import Gammaboard.Config.Toml
import Gammaboard.Utils.CheckedInt
import Gammaboard.Utils.Text

/-!
# Parameter sources

`core/tasks.rs`: where the values of a scanned parameter come from, what the
validation of a parameter scan asks, and the number of points that are expected
of it. Floats are of any type with the operations of `f64`.
-/

namespace Gammaboard.Core

open Gammaboard.Config Gammaboard.Utils

variable {F D : Type}

structure ParameterLinspaceSpec (F : Type) where
  start : F
  stop : F
  count : Nat

structure ParameterIntegerRangeSpec where
  min : Int64
  max : Int64
  step : Option Int64

inductive ParameterValueSourceSpec (F D : Type) where
  | values (values : List (Toml F D))
  | linspace (spec : ParameterLinspaceSpec F)
  | range (spec : ParameterIntegerRangeSpec)

def ParameterIntegerRangeSpec.values (spec : ParameterIntegerRangeSpec) (label : String) :
    Except String (List (Toml F D)) :=
  if spec.max < spec.min then .error (label ++ ".range.min must be <= max")
  else
    let step := spec.step.getD 1
    if step ≤ 0 then .error (label ++ ".range.step must be > 0")
    else .ok ((integerValues spec.min spec.max step).map .integer)

section Floats

variable [Add F] [Sub F] [Mul F] [Div F] [NatCast F] (isFinite : F → Bool)

def ParameterLinspaceSpec.values (spec : ParameterLinspaceSpec F) (label : String) :
    Except String (List (Toml F D)) :=
  if !isFinite spec.start || !isFinite spec.stop then
    .error (label ++ ".linspace bounds must be finite")
  else if spec.count = 0 then .error (label ++ ".linspace.count must be > 0")
  else if spec.count = 1 then .ok [.float spec.start]
  else
    let denominator : F := ((spec.count - 1 : Nat) : F)
    .ok ((List.range spec.count).map fun index : Nat =>
      .float (spec.start + (index : F) / denominator * (spec.stop - spec.start)))

namespace ParameterValueSourceSpec

/-- `values(label)` -/
def valuesOf (source : ParameterValueSourceSpec F D) (label : String) :
    Except String (List (Toml F D)) :=
  match source with
  | .values own => if own.isEmpty then .error (label ++ ".values must not be empty") else .ok own
  | .linspace spec => spec.values isFinite label
  | .range spec => spec.values label

/-- A source that gives its values gives at least one. -/
theorem valuesOf_ne_nil {source : ParameterValueSourceSpec F D} {label : String}
    {all : List (Toml F D)} (h : source.valuesOf isFinite label = .ok all) : all ≠ [] := by
  cases source with
  | values own =>
    unfold valuesOf at h
    dsimp only at h
    split at h
    · cases h
    · rename_i hempty
      cases h
      simpa using hempty
  | linspace spec =>
    unfold valuesOf ParameterLinspaceSpec.values at h
    dsimp only at h
    split at h
    · cases h
    · split at h
      · cases h
      · rename_i hcount
        split at h
        · cases h
          simp
        · cases h
          simpa using hcount
  | range spec =>
    unfold valuesOf ParameterIntegerRangeSpec.values at h
    dsimp only at h
    split at h
    · cases h
    · rename_i hle
      split at h
      · cases h
      · rename_i hstep
        cases h
        rw [Int64.lt_iff_toInt_lt, not_lt, ← Int64.le_iff_toInt_le] at hle
        rw [Int64.le_iff_toInt_le, not_le, Int64.toInt_zero] at hstep
        have hpos := integerCount_pos hstep hle
        rw [← length_integerValues hstep] at hpos
        rw [ne_eq, List.map_eq_nil_iff]
        exact List.length_pos_iff.1 hpos

end ParameterValueSourceSpec

end Floats

/-- `validate_source_name` -/
def validateSourceName (field fromName : String) : Except String Unit :=
  if isBlank fromName then .error (field ++ ".from_name must be non-empty")
  else if trim fromName.toList ≠ fromName.toList then
    .error (field ++ ".from_name cannot have leading/trailing whitespace")
  else .ok ()

/-! ## Parameter scans -/

/-- `ParameterScanParameterSpec`: a parameter and the source of its values. -/
structure ParameterScanParameter (F D : Type) where
  name : String
  source : ParameterValueSourceSpec F D

section Scan

variable [Add F] [Sub F] [Mul F] [Div F] [NatCast F] (isFinite : F → Bool)

namespace ParameterScanParameter

def values (parameter : ParameterScanParameter F D) : Except String (List (Toml F D)) :=
  parameter.source.valuesOf isFinite ("parameter_scan.parameters." ++ parameter.name)

def validate (parameter : ParameterScanParameter F D) : Except String Unit := do
  validateSourceName "parameter_scan.parameters" parameter.name
  let _ ← parameter.source.valuesOf isFinite ("parameter_scan.parameters." ++ parameter.name)

end ParameterScanParameter

/-- What `validate` of a parameter scan asks of its parameters. -/
def validateParameters (parameters : List (ParameterScanParameter F D)) : Except String Unit :=
  if parameters.isEmpty then .error "parameter_scan.parameters must not be empty"
  else parameters.forM (·.validate isFinite)

/-- `count.checked_mul(n)` of two `usize`. -/
def checkedMulUsize (count n : Nat) : Option Nat :=
  if count * n ≤ usizeMax then some (count * n) else none

def parameterScanGridLen (parameters : List (ParameterScanParameter F D)) : Option Nat :=
  if parameters.isEmpty then none
  else
    parameters.foldlM (fun count parameter =>
      (parameter.values isFinite).toOption.bind fun values => checkedMulUsize count values.length) 1

/-- `value as i64` of a `usize`. -/
def usizeAsI64 (n : Nat) : Int := if n < 2 ^ 63 then n else n - 2 ^ 64

/-- `nr_expected_samples` of a parameter scan. -/
def expectedPoints (parameters : List (ParameterScanParameter F D)) : Option Int :=
  (parameterScanGridLen isFinite parameters).map usizeAsI64

end Scan

end Gammaboard.Core
