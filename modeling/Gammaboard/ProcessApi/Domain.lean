import Gammaboard.Utils.Domain

/-!
# Domains of the worker SDK

`process_api/python/src/gammaboard_process/domain.py`. The numbers are Python
integers; `ValueError` is an error with its text, and `none` stands for an
`IndexError`.
-/

namespace Gammaboard.ProcessApi

open Gammaboard.Utils (DiscreteAxisRole DomainJson)

inductive Domain where
  | rectangular (discreteCardinalities : List Int) (continuousDims strataDims : Int)
  | discrete (branches : List (Int × Domain)) (axisRole : DiscreteAxisRole)
      (axisLabel : Option String)

namespace Domain

mutual

def validate : Domain → Bool → Except String Unit
  | .rectangular discreteCardinalities continuousDims strataDims, integrandSeen =>
    if (discreteCardinalities ++ [continuousDims, strataDims]).any (· < 0) then
      .error "domain dimensions must be nonnegative integers"
    else if discreteCardinalities.any (· == 0) ||
        decide ((discreteCardinalities.length : Int) < strataDims) then
      .error "invalid rectangular cardinalities or strata_dims"
    else if integrandSeen && strataDims != 0 then
      .error "stratum dimensions must be left-bound"
    else .ok ()
  | .discrete branches axisRole _, integrandSeen =>
    let labels := branches.map (·.1)
    if labels.isEmpty || labels.any (· < 0) then .error "invalid discrete branches"
    else if (labels.zip labels.tail).any (fun pair => pair.2 ≤ pair.1) then
      .error "branch labels must be strictly increasing"
    else
      let stratum := axisRole == .stratum
      if integrandSeen && stratum then .error "stratum dimensions must be left-bound"
      else validateBranches branches (integrandSeen || !stratum)

def validateBranches : List (Int × Domain) → Bool → Except String Unit
  | [], _ => .ok ()
  | (_, domain) :: branches, integrandSeen => do
    domain.validate integrandSeen
    validateBranches branches integrandSeen

end

mutual

/-- `from_dict`: every subtree is validated once it is read. -/
def fromDict : DomainJson → Except String Domain
  | .rectangular strataDims discreteCardinalities continuousDims => do
    let result := rectangular discreteCardinalities continuousDims (strataDims.getD 0)
    result.validate false
    return result
  | .discrete axisLabel axisRole branches => do
    let result := discrete (← branchesFromDict branches) (axisRole.getD .integrand) axisLabel
    result.validate false
    return result

def branchesFromDict : List (Int × DomainJson) → Except String (List (Int × Domain))
  | [] => return []
  | (index, domain) :: branches => do
    let domain ← fromDict domain
    return (index, domain) :: (← branchesFromDict branches)

end

/-- `itertools.product` of ranges: the last one varies fastest. -/
def product : List Int → List (List Int)
  | [] => [[]]
  | n :: ranges =>
    (List.range n.toNat).flatMap fun (i : Nat) => (product ranges).map fun tail => (i : Int) :: tail

mutual

/-- `stratum_prefixes` of a domain that is valid. -/
def prefixes : Domain → List (List Int)
  | .rectangular discreteCardinalities _ strataDims =>
    product (discreteCardinalities.take strataDims.toNat)
  | .discrete _ .integrand _ => [[]]
  | .discrete branches .stratum _ => prefixesOfBranches branches

def prefixesOfBranches : List (Int × Domain) → List (List Int)
  | [] => []
  | (index, domain) :: branches =>
    (domain.prefixes.map fun tail => index :: tail) ++ prefixesOfBranches branches

end

def stratumPrefixes (d : Domain) : Except String (List (List Int)) := do
  d.validate false
  return d.prefixes

/-- The width all of them have. -/
def common (first : Option Int) (widths : List (Option Int)) : Option Int :=
  if widths.all (· == first) then first else none

mutual

def fixedWidths : Domain → Option (Option Int × Option Int)
  | .rectangular discreteCardinalities continuousDims _ =>
    some (some discreteCardinalities.length, some continuousDims)
  | .discrete branches _ _ => do
    match ← widthsOfBranches branches with
    | [] => none
    | (d, c) :: widths =>
      some ((common d (d :: widths.map (·.1))).map (· + 1), common c (c :: widths.map (·.2)))

def widthsOfBranches : List (Int × Domain) → Option (List (Option Int × Option Int))
  | [] => some []
  | (_, domain) :: branches => do
    let width ← domain.fixedWidths
    return width :: (← widthsOfBranches branches)

end

mutual

/-- `validate_point`, of the continuous coordinates only their number. The loop descends the
discrete axes with what is left of the path. -/
def validatePoint : Domain → List Int → Nat → Except String Unit
  | .discrete _ _ _, [], _ => .error "incomplete discrete path"
  | .discrete branches _ _, coordinate :: path, continuous =>
    validateBranchPoint branches coordinate path continuous
  | .rectangular discreteCardinalities continuousDims _, path, continuous =>
    if path.length ≠ discreteCardinalities.length ∨ (continuous : Int) ≠ continuousDims then
      .error "point dimensions do not match domain"
    else if (path.zip discreteCardinalities).any fun (x, n) => x < 0 || n ≤ x then
      .error "discrete coordinate out of bounds"
    else .ok ()

def validateBranchPoint : List (Int × Domain) → Int → List Int → Nat → Except String Unit
  | [], _, _, _ => .error "unknown discrete branch"
  | (index, domain) :: branches, coordinate, path, continuous =>
    if index = coordinate then domain.validatePoint path continuous
    else validateBranchPoint branches coordinate path continuous

end

end Domain

end Gammaboard.ProcessApi
