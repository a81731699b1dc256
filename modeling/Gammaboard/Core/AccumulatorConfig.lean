import Gammaboard.Utils.Text

/-!
# Accumulator configurations

The accumulator of `core/run_spec.rs` and the discrete projections of
`core/tasks.rs`, with what their validation asks.
-/

namespace Gammaboard.Core

open Gammaboard.Utils

/-! ## Discrete projections -/

inductive DiscreteProjectionNormalization where
  | contribution
  | conditionalMean
  deriving DecidableEq, Repr

/-- The fixed dimensions are in the order of their keys. -/
structure NamedDiscreteProjection where
  name : String
  dims : List Nat
  fixedDims : List (String × Int)
  deriving DecidableEq, Repr

structure DiscreteProjectionConfig where
  normalization : DiscreteProjectionNormalization
  streams : List String
  items : List NamedDiscreteProjection
  deriving DecidableEq, Repr

/-- The first entry that a set of the ones before it has already. -/
def firstRepeated {α : Type} [DecidableEq α] : List α → List α → Option α
  | _, [] => none
  | seen, a :: rest => if a ∈ seen then some a else firstRepeated (a :: seen) rest

namespace NamedDiscreteProjection

def validateFixedDims (item : NamedDiscreteProjection) : List String → Except String Unit
  | [] => .ok ()
  | rawDim :: rest =>
    match parseUsize rawDim.toList with
    | none =>
      .error s!"accumulator.discrete_projections.items '{item.name}' fixed_dims key '{rawDim}' is not a non-negative integer dimension index"
    | some dim =>
      if dim ∈ item.dims then
        .error s!"accumulator.discrete_projections.items '{item.name}' uses dimension {dim} in both dims and fixed_dims"
      else item.validateFixedDims rest

def validate (item : NamedDiscreteProjection) : Except String Unit :=
  if isBlank item.name then
    .error "accumulator.discrete_projections.items.name must be non-empty"
  else if trim item.name.toList ≠ item.name.toList then
    .error
      "accumulator.discrete_projections.items.name cannot have leading/trailing whitespace"
  else if item.dims.isEmpty then
    .error "accumulator.discrete_projections.items.dims must contain at least one dimension"
  else
    match firstRepeated [] item.dims with
    | some dim =>
      .error s!"accumulator.discrete_projections.items '{item.name}' repeats dims entry {dim}"
    | none => item.validateFixedDims (item.fixedDims.map (·.1))

end NamedDiscreteProjection

namespace DiscreteProjectionConfig

def validateStreams : List String → List String → Except String Unit
  | _, [] => .ok ()
  | seen, stream :: rest =>
    if isBlank stream then
      .error "accumulator.discrete_projections.streams must not contain empty names"
    else if trim stream.toList ≠ stream.toList then
      .error
        "accumulator.discrete_projections.streams entries cannot have leading/trailing whitespace"
    else if stream ∈ seen then
      .error s!"accumulator.discrete_projections.streams contains duplicate name '{stream}'"
    else validateStreams (stream :: seen) rest

def validateItems : List String → List NamedDiscreteProjection → Except String Unit
  | _, [] => .ok ()
  | seen, item :: rest => do
    item.validate
    if item.name ∈ seen then
      .error s!"accumulator.discrete_projections.items contains duplicate name '{item.name}'"
    else validateItems (item.name :: seen) rest

def validate (config : DiscreteProjectionConfig) : Except String Unit :=
  if config.items.isEmpty then
    .error "accumulator.discrete_projections.items must contain at least one entry"
  else do
    validateStreams [] config.streams
    validateItems [] config.items

end DiscreteProjectionConfig

/-! ## Accumulators -/

inductive TrainingProjection where
  | component (name : String)
  | norm
  deriving DecidableEq, Repr

inductive AccumulatorMomentConfig where
  | maxOrder2
  | maxOrder4
  deriving DecidableEq, Repr

inductive AccumulatorConfig where
  | empty
  | vector (components : List String) (trainingProjection : TrainingProjection)
      (discreteProjections : Option DiscreteProjectionConfig) (moments : AccumulatorMomentConfig)
  | gammaloop
  | fullVector (components : List String)
  deriving DecidableEq, Repr

namespace AccumulatorConfig

def components : AccumulatorConfig → Option (List String)
  | .vector components _ _ _ | .fullVector components => some components
  | .empty | .gammaloop => none

def discreteProjections : AccumulatorConfig → Option DiscreteProjectionConfig
  | .vector _ _ discreteProjections _ => discreteProjections
  | .empty | .gammaloop | .fullVector _ => none

def isFullVector : AccumulatorConfig → Bool
  | .fullVector _ => true
  | _ => false

def validateNames (names : List String) : Except String Unit :=
  if names.isEmpty then .error "accumulator components must not be empty"
  else if ¬names.Nodup ∨ names.any (fun n => isBlank n || n == "training_projection")
  then
    .error "accumulator component names must be non-empty, unique, and not 'training_projection'"
  else .ok ()

/-- The streams of the discrete projections of a vector. -/
def validateStreams (components : List String) : List String → Except String Unit
  | [] => .ok ()
  | stream :: rest =>
    if stream ≠ "training_projection" ∧ stream ∉ components then
      .error s!"discrete_projections.streams references unknown vector stream '{stream}'"
    else validateStreams components rest

def validateProjection (components : List String) : TrainingProjection → Except String Unit
  | .component name =>
    if name ∈ components then .ok ()
    else .error ("training projection references unknown component " ++ reprStr name)
  | .norm => .ok ()

def validateDiscrete (components : List String) : Option DiscreteProjectionConfig →
    Except String Unit
  | none => .ok ()
  | some config => do
    config.validate
    validateStreams components config.streams

def validate (config : AccumulatorConfig) : Except String Unit := do
  match config.components with
  | some names => validateNames names
  | none => .ok ()
  match config with
  | .vector components trainingProjection discreteProjections _ => do
    validateProjection components trainingProjection
    validateDiscrete components discreteProjections
  | _ => .ok ()

/-- The component a vector is trained with is one of its components. -/
theorem mem_of_validate {names : List String} {name : String}
    {discreteProjections : Option DiscreteProjectionConfig} {moments : AccumulatorMomentConfig}
    (h : (vector names (.component name) discreteProjections moments).validate = .ok ()) :
    name ∈ names := by
  by_contra hname
  unfold validate at h
  simp only [components] at h
  cases hnames : validateNames names with
  | error e =>
    rw [hnames] at h
    cases h
  | ok u =>
    rw [hnames] at h
    simp [validateProjection, bind, Except.bind, hname] at h

end AccumulatorConfig

end Gammaboard.Core
