import Gammaboard.Sampling.UniformMass

/-!
# Masses on a Havana grid

`build_havana_grid` and `branch_domain` of `sampling/havana_grid.rs` and
`grid_discrete_subspace_pdf` of `sampler_aggregator/havana.rs`: the grid built
for a domain has a dense bin for every branch and every value of an axis, and
the mass of a subspace is computed down the grid, with the labels of the domain
beside it. The grids of Symbolica are parameters.
-/

namespace Gammaboard.Sampling

open Gammaboard.Core Gammaboard.Lib

/-- `symbolica::numerical_integration::Grid`; a bin is its `pdf` and its grid. -/
inductive Grid (F C : Type) where
  | continuous (grid : C)
  | discrete (bins : List (F × Option (Grid F C)))
  | uniform (discreteBins : List Nat) (grid : C)

/-- The constructors of the grids. -/
structure SymbolicaGrids (F C : Type) where
  /-- `activate_symbolica_oem_license` -/
  activate : Except String Unit
  /-- `DiscreteGrid::new`, as the bins of the grid. -/
  newDiscrete : List (Option (Grid F C)) → Except String (List (F × Option (Grid F C)))
  /-- `ContinuousGrid::new` with so many dimensions. -/
  newContinuous : Nat → Except String C

/-- A discrete grid starts with the given grids in equally probable bins. -/
def SymbolicaGrids.EqualBins {F C : Type} (grids : SymbolicaGrids F C) : Prop :=
  ∀ subGrids bins, grids.newDiscrete subGrids = .ok bins →
    bins.map (·.2) = subGrids ∧ ∃ pdf, ∀ bin ∈ bins, bin.1 = pdf

/-- `build_err` -/
def buildError {α : Type} : Except String α → Except EngineError α
  | .error message => .error (.build message)
  | .ok a => .ok a

section Build

variable {F C : Type} (grids : SymbolicaGrids F C)

def buildRectangularHavanaGrid (continuousDims : Nat) :
    List Nat → Except EngineError (Grid F C)
  | [] =>
    if continuousDims = 0 then .error (.build "havana sampler requires continuous_dims > 0")
    else (buildError (grids.newContinuous continuousDims)).map .continuous
  | cardinality :: tail =>
    if cardinality = 0 then
      .error (.build "havana sampler requires rectangular discrete cardinalities > 0")
    else do
      let subGrids ← (List.range cardinality).mapM fun _ =>
        (buildRectangularHavanaGrid continuousDims tail).map some
      return .discrete (← buildError (grids.newDiscrete subGrids))

mutual

def buildHavanaGrid : Utils.Domain → Except EngineError (Grid F C)
  | .rectangular _ discreteCardinalities continuousDims => do
    buildError grids.activate
    buildRectangularHavanaGrid grids continuousDims discreteCardinalities
  | .discrete _ _ branches => do
    buildError grids.activate
    if branches.isEmpty then
      .error (.build "havana sampler requires at least one discrete branch")
    else
      let subGrids ← buildBranchGrids branches
      return .discrete (← buildError (grids.newDiscrete subGrids))

def buildBranchGrids : List (Nat × Utils.Domain) → Except EngineError (List (Option (Grid F C)))
  | [] => return []
  | (_, domain) :: branches => do
    let grid ← buildHavanaGrid domain
    return some grid :: (← buildBranchGrids branches)

end

end Build

/-- The domain below an index; there is none where the source panics. -/
def branchDomain : Utils.Domain → Nat → Option Utils.Domain
  | .discrete _ _ branches, index => branches[index]?.map (·.2)
  | .rectangular strataDims discreteCardinalities continuousDims, _ =>
    match discreteCardinalities with
    | [] => none
    | _ :: tail => some (.rectangular (strataDims - 1) tail continuousDims)

inductive MassError where
  /-- An index is out of bounds. -/
  | panic
  | engine (e : EngineError)
  deriving DecidableEq

section Mass

variable {F C : Type} [Zero F] [One F] [Add F] [Mul F] [Div F] [NatCast F] [LT F] [DecidableLT F]
  (finite : F → Bool) (fixedDims : OrdMap Nat Int)

/-- The probability of the bin at an index. -/
def binProbability (bins : List (F × Option (Grid F C))) (index : Nat) : F :=
  let pdfSum := ((bins.map (·.1)).filter fun pdf => finite pdf && decide (0 < pdf)).foldl (· + ·) 0
  if 0 < pdfSum then
    match bins[index]? with
    | some bin => if finite bin.1 && decide (0 < bin.1) then bin.1 / pdfSum else 0
    | none => 0
  else if bins.isEmpty then 0
  else 1 / (bins.length : F)

def negativeIndex (kind : String) (value : Int) : MassError :=
  .engine (.engine ("negative discrete index " ++ toString value ++ " in havana " ++ kind ++ " query"))

/-- The position of the bin for a value. -/
def binPosition (domain : Utils.Domain) (value : Nat) : Option Nat :=
  match domain with
  | .discrete _ _ branches => branches.findIdx? fun branch => branch.1 == value
  | .rectangular _ _ _ => some value

/-- The loop over the axes of a uniform grid; nothing where it returns `0`. -/
def uniformMass : List Nat → Nat → F → Except MassError (Option F)
  | [], _, pdf => .ok (some pdf)
  | nrBins :: discreteBins, dim, pdf =>
    if nrBins = 0 then .ok none
    else
      match OrdMap.get dim fixedDims with
      | none => uniformMass discreteBins (dim + 1) pdf
      | some value =>
        if value < 0 then .error (negativeIndex "uniform discrete_mass" value)
        else if (nrBins : Int) ≤ value then .ok none
        else uniformMass discreteBins (dim + 1) (pdf / (nrBins : F))

mutual

def gridDiscreteSubspacePdf : Grid F C → Utils.Domain → Nat → Except MassError F
  | .continuous _, _, depth => .ok (if anyFixedFrom fixedDims depth then 0 else 1)
  | .discrete bins, domain, depth =>
    match OrdMap.get depth fixedDims with
    | some value =>
      if value < 0 then .error (negativeIndex "discrete_mass" value)
      else
        match binPosition domain value.toNat with
        | none => .ok 0
        | some position =>
          match massOfBin bins position (branchDomain domain position) depth with
          | none => .ok 0
          | some mass => mass.map fun child => binProbability finite bins position * child
    | none => sumOfBins bins domain (binProbability finite bins) 0 depth 0
  | .uniform discreteBins _, _, depth => do
    match ← uniformMass fixedDims discreteBins depth 1 with
    | none => return 0
    | some pdf =>
      return if anyFixedFrom fixedDims (depth + discreteBins.length) then 0 else pdf

/-- The mass below the bin at a position, if there is one. -/
def massOfBin : List (F × Option (Grid F C)) → Nat → Option Utils.Domain → Nat →
    Option (Except MassError F)
  | [], _, _, _ => none
  | (_, subGrid) :: _, 0, domain, depth => some (massBelow subGrid domain depth)
  | _ :: bins, position + 1, domain, depth => massOfBin bins position domain depth

/-- The masses below all bins from an index on, times their probabilities, on top of `pdf`. -/
def sumOfBins : List (F × Option (Grid F C)) → Utils.Domain → (Nat → F) → Nat → Nat → F →
    Except MassError F
  | [], _, _, _, _, pdf => .ok pdf
  | (_, subGrid) :: bins, domain, probability, index, depth, pdf => do
    let child ← massBelow subGrid (branchDomain domain index) depth
    sumOfBins bins domain probability (index + 1) depth (pdf + probability index * child)

def massBelow : Option (Grid F C) → Option Utils.Domain → Nat → Except MassError F
  | some subGrid, some domain, depth => gridDiscreteSubspacePdf subGrid domain (depth + 1)
  | some _, none, _ => .error .panic
  | none, _, depth => .ok (if anyFixedFrom fixedDims (depth + 1) then 0 else 1)

end

end Mass

end Gammaboard.Sampling
