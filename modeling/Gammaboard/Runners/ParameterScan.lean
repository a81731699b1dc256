import Gammaboard.Config.Toml
import Gammaboard.Core.Errors

/-!
# The points of a parameter scan

`runners/parameter_grid.rs` and the grid items of `runners/parameter_scan.rs`. `W` are the values a
template is instantiated with.
-/

namespace Gammaboard.Runners

open Gammaboard.Config Gammaboard.Core

variable {W : Type}

/-- The values a child run is instantiated with, by name. -/
abbrev Replacements (W : Type) := List (String × W)

/-! ## Grids -/

structure ParameterGridItem (W : Type) where
  name : String
  values : List W

/-- The bound of a `usize`. -/
def gridSizeMax : Nat := 2 ^ 64 - 1

def cartesianGridLen (items : List (ParameterGridItem W)) : Except StoreError Nat :=
  items.foldlM (fun size item =>
    if size * item.values.length ≤ gridSizeMax then .ok (size * item.values.length)
    else .error (.store "parameter grid size overflow")) 1

/-- One item of `cartesian_grid_point`: the index that is left and the values selected. -/
def selectGridValue (item : ParameterGridItem W) (state : Nat × Replacements W) :
    Except StoreError (Nat × Replacements W) :=
  match item.values[state.1 % item.values.length]? with
  | none => .error (.store ("parameter grid item '" ++ item.name ++ "' has no values"))
  | some value => .ok (state.1 / item.values.length, insertKey item.name value state.2)

/-- `cartesian_grid_point`: the last parameter runs fastest. -/
def cartesianGridPoint (items : List (ParameterGridItem W)) (index : Nat) :
    Except StoreError (Replacements W) := do
  let (index, selected) ← items.reverse.foldlM (fun state item => selectGridValue item state)
    (index, [])
  if index ≠ 0 then .error (.store "parameter grid index exceeds grid size") else .ok selected

/-! ## The parameters of a scan -/

structure ParameterScanParameterSpec (W : Type) where
  name : String
  /-- `ParameterScanParameterSpec::values`. -/
  values : Except String (List W)

def parameterScanGridItems (parameters : List (ParameterScanParameterSpec W)) :
    Except StoreError (List (ParameterGridItem W)) :=
  parameters.mapM fun parameter =>
    match parameter.values with
    | .ok values => .ok ⟨parameter.name, values⟩
    | .error e => .error (.store e)

end Gammaboard.Runners
