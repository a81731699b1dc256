import Mathlib.Algebra.Ring.Int.Defs
import Mathlib.Algebra.Ring.Nat
import Mathlib.Tactic.Common

/-!
# Domains

`utils/domain.rs`: the tree of discrete axes and rectangular leaves a point
lies in. The leading axes of a path may be strata; they come before every
integrand axis. `DomainJson` is the JSON form both the host and a worker read,
with any integers for its numbers.
-/

namespace Gammaboard.Utils

inductive DiscreteAxisRole where
  | integrand
  | stratum
  deriving DecidableEq, Repr

inductive DomainJson where
  | discrete (axisLabel : Option String) (axisRole : Option DiscreteAxisRole)
      (branches : List (Int × DomainJson))
  | rectangular (strataDims : Option Int) (discreteCardinalities : List Int)
      (continuousDims : Int)

inductive Domain where
  | discrete (axisLabel : Option String) (axisRole : DiscreteAxisRole)
      (branches : List (Nat × Domain))
  | rectangular (strataDims : Nat) (discreteCardinalities : List Nat) (continuousDims : Nat)

/-- The labels and sizes of the tree fit a signed 64-bit integer. -/
inductive DomainJson.Fits : DomainJson → Prop where
  | discrete {axisLabel : Option String} {axisRole : Option DiscreteAxisRole}
      {branches : List (Int × DomainJson)}
      (hlabels : ∀ b ∈ branches, -2 ^ 63 ≤ b.1 ∧ b.1 < 2 ^ 63) (h : ∀ b ∈ branches, b.2.Fits) :
      Fits (.discrete axisLabel axisRole branches)
  | rectangular {strataDims : Option Int} {discreteCardinalities : List Int} {continuousDims : Int}
      (hstrata : ∀ n ∈ strataDims, -2 ^ 63 ≤ n ∧ n < 2 ^ 63)
      (hcardinalities : ∀ n ∈ discreteCardinalities, -2 ^ 63 ≤ n ∧ n < 2 ^ 63)
      (hcontinuous : -2 ^ 63 ≤ continuousDims ∧ continuousDims < 2 ^ 63) :
      Fits (.rectangular strataDims discreteCardinalities continuousDims)

namespace Domain

mutual

def decEq : (d e : Domain) → Decidable (d = e)
  | .discrete axisLabel axisRole branches, .discrete axisLabel' axisRole' branches' =>
    match decEqBranches branches branches' with
    | isTrue h =>
      if hrest : axisLabel = axisLabel' ∧ axisRole = axisRole' then
        isTrue (by rw [hrest.1, hrest.2, h])
      else isFalse fun heq => by
        injection heq with hlabel hrole
        exact hrest ⟨hlabel, hrole⟩
    | isFalse h => isFalse fun heq => by
      injection heq with _ _ hbranches
      exact h hbranches
  | .rectangular strataDims discreteCardinalities continuousDims,
    .rectangular strataDims' discreteCardinalities' continuousDims' =>
    if h : strataDims = strataDims' ∧ discreteCardinalities = discreteCardinalities' ∧
        continuousDims = continuousDims' then
      isTrue (by rw [h.1, h.2.1, h.2.2])
    else isFalse fun heq => by
      injection heq with h1 h2 h3
      exact h ⟨h1, h2, h3⟩
  | .discrete _ _ _, .rectangular _ _ _ => isFalse nofun
  | .rectangular _ _ _, .discrete _ _ _ => isFalse nofun

def decEqBranches : (b c : List (Nat × Domain)) → Decidable (b = c)
  | [], [] => isTrue rfl
  | [], _ :: _ => isFalse nofun
  | _ :: _, [] => isFalse nofun
  | (index, domain) :: branches, (index', domain') :: branches' =>
    match decEq domain domain', decEqBranches branches branches' with
    | isTrue hd, isTrue hb =>
      if h : index = index' then isTrue (by rw [h, hd, hb])
      else isFalse fun heq => by
        injection heq with hhead _
        exact h (Prod.mk.inj hhead).1
    | isFalse hd, _ => isFalse fun heq => by
      injection heq with hhead _
      exact hd (Prod.mk.inj hhead).2
    | _, isFalse hb => isFalse fun heq => by
      injection heq with _ hrest
      exact hb hrest

end

instance : DecidableEq Domain := decEq

/-! ## Reading -/

def usizeMax : Int := 2 ^ 64 - 1

def i64Max : Nat := 2 ^ 63 - 1

/-- A number of the JSON form as a `usize`. -/
def usizeOfJson (n : Int) : Except String Nat :=
  if 0 ≤ n ∧ n ≤ usizeMax then .ok n.toNat else .error "expected usize"

mutual

/-- The derived `Deserialize`. -/
def ofJson : DomainJson → Except String Domain
  | .discrete axisLabel axisRole branches => do
    return .discrete axisLabel (axisRole.getD .integrand) (← branchesOfJson branches)
  | .rectangular strataDims discreteCardinalities continuousDims => do
    let strataDims ← usizeOfJson (strataDims.getD 0)
    let discreteCardinalities ← discreteCardinalities.mapM usizeOfJson
    let continuousDims ← usizeOfJson continuousDims
    return .rectangular strataDims discreteCardinalities continuousDims

def branchesOfJson : List (Int × DomainJson) → Except String (List (Nat × Domain))
  | [] => return []
  | (index, domain) :: branches => do
    let index ← usizeOfJson index
    let domain ← ofJson domain
    return (index, domain) :: (← branchesOfJson branches)

end

/-! ## Validation -/

/-- Two neighbours of the list that do not increase. -/
def hasDescent (labels : List Nat) : Bool :=
  (labels.zip labels.tail).any fun pair => pair.2 ≤ pair.1

mutual

/-- `visit` of `validate`: `integrandSeen` once an integrand axis lies above. -/
def validateFrom : Domain → Bool → Except String Unit
  | .rectangular strataDims discreteCardinalities _, integrandSeen =>
    if discreteCardinalities.contains 0 || decide (discreteCardinalities.length < strataDims) then
      .error "invalid rectangular cardinalities or strata_dims"
    else if integrandSeen && strataDims != 0 then
      .error "stratum dimensions must be left-bound, before integrand dimensions"
    else .ok ()
  | .discrete _ axisRole branches, integrandSeen =>
    let labels := branches.map (·.1)
    if labels.isEmpty || labels.any (fun index => i64Max < index) || hasDescent labels then
      .error "domain branches must be nonempty with strictly increasing labels"
    else if integrandSeen && axisRole == .stratum then
      .error "stratum dimensions must be left-bound, before integrand dimensions"
    else validateBranches branches (integrandSeen || axisRole != .stratum)

def validateBranches : List (Nat × Domain) → Bool → Except String Unit
  | [], _ => .ok ()
  | (_, domain) :: branches, integrandSeen => do
    domain.validateFrom integrandSeen
    validateBranches branches integrandSeen

end

def validate (d : Domain) : Except String Unit := d.validateFrom false

/-- A domain the host accepts. -/
def accept (json : DomainJson) : Except String Domain := do
  let d ← ofJson json
  d.validate
  return d

/-! ## Strata -/

/-- The paths below the given one over the given sizes, appended to `out`. -/
def product : List Nat → List Int → List (List Int) → List (List Int)
  | [], path, out => out ++ [path]
  | n :: tail, path, out =>
    (List.range n).foldl (fun out (i : Nat) => product tail (path ++ [(i : Int)]) out) out

mutual

/-- `visit` of `stratum_prefixes`. Labels and coordinates fit an `i64`. -/
def prefixesBelow : Domain → List Int → List (List Int) → List (List Int)
  | .discrete _ .stratum branches, path, out => prefixesOfBranches branches path out
  | .discrete _ .integrand _, path, out => out ++ [path]
  | .rectangular strataDims discreteCardinalities _, path, out =>
    product (discreteCardinalities.take strataDims) path out

def prefixesOfBranches : List (Nat × Domain) → List Int → List (List Int) → List (List Int)
  | [], _, out => out
  | (index, domain) :: branches, path, out =>
    prefixesOfBranches branches path (domain.prefixesBelow (path ++ [(index : Int)]) out)

end

def stratumPrefixes (d : Domain) : Except String (List (List Int)) := do
  d.validate
  return d.prefixesBelow [] []

/-! ## The integrand below the strata -/

def continuous (dims : Nat) : Domain := .rectangular 0 [] dims

mutual

/-- `append` of `with_integrand`. -/
def append : Domain → Domain → Except String Domain
  | .discrete axisLabel .stratum branches, integrand => do
    return .discrete axisLabel .stratum (← appendBranches branches integrand)
  | .discrete _ .integrand _, _ =>
    .error "stratification domain must contain only stratum dimensions and zero continuous dimensions"
  | .rectangular strataDims discreteCardinalities continuousDims, integrand =>
    if continuousDims = 0 ∧ strataDims = discreteCardinalities.length then
      match integrand with
      | .rectangular _ tail dims =>
        .ok (.rectangular strataDims (discreteCardinalities ++ tail) dims)
      | .discrete _ _ _ =>
        .ok (discreteCardinalities.foldr
          (fun n result => .discrete none .stratum ((List.range n).map fun i => (i, result)))
          integrand)
    else
      .error "stratification domain must contain only stratum dimensions and zero continuous dimensions"

def appendBranches : List (Nat × Domain) → Domain → Except String (List (Nat × Domain))
  | [], _ => return []
  | (index, domain) :: branches, integrand => do
    let domain ← domain.append integrand
    return (index, domain) :: (← appendBranches branches integrand)

end

def withIntegrand (d integrand : Domain) : Except String Domain := do
  let below ← integrand.stratumPrefixes
  if below ≠ [[]] then
    .error "expected a stratum-only prefix and an unstratified integrand domain"
  else
    let own ← d.stratumPrefixes
    if own.any (·.isEmpty) then
      .error "expected a stratum-only prefix and an unstratified integrand domain"
    else d.append integrand

/-! ## Widths -/

/-- The value all of them have, where there is a first. -/
def common : List (Option Nat) → Option Nat
  | [] => none
  | first :: rest => do
    let width ← first
    if (first :: rest).all (· == some width) then some width else none

mutual

def fixedContinuousDims : Domain → Option Nat
  | .rectangular _ _ continuousDims => some continuousDims
  | .discrete _ _ branches => common (continuousDimsOfBranches branches)

def continuousDimsOfBranches : List (Nat × Domain) → List (Option Nat)
  | [] => []
  | (_, domain) :: branches => domain.fixedContinuousDims :: continuousDimsOfBranches branches

end

mutual

def fixedDiscreteDepth : Domain → Option Nat
  | .rectangular _ discreteCardinalities _ => some discreteCardinalities.length
  | .discrete _ _ branches =>
    if branches.isEmpty then some 1 else (common (depthsOfBranches branches)).map (· + 1)

def depthsOfBranches : List (Nat × Domain) → List (Option Nat)
  | [] => []
  | (_, domain) :: branches => domain.fixedDiscreteDepth :: depthsOfBranches branches

end

/-- The continuous and the discrete width. -/
def fixedRectangularDims (d : Domain) : Option (Nat × Nat) :=
  d.fixedContinuousDims.bind fun continuousDims =>
    d.fixedDiscreteDepth.map fun discreteDims => (continuousDims, discreteDims)

/-! ## Points -/

/-- The bounds of the coordinates of a rectangular leaf, from the given axis on. -/
def checkCoordinates : Nat → List Int → List Nat → Except String Unit
  | axis, branch :: path, cardinality :: cardinalities =>
    if branch < 0 then
      .error ("discrete branch index " ++ toString branch ++ " at axis " ++ toString axis ++
        " is negative and cannot select a domain branch")
    else if (cardinality : Int) ≤ branch then
      .error ("discrete branch index " ++ toString branch ++ " at axis " ++ toString axis ++
        " is outside rectangular cardinality " ++ toString cardinality)
    else checkCoordinates (axis + 1) path cardinalities
  | _, _, _ => .ok ()

/-- `continuous_dims_at_discrete_path` of a rectangular leaf. -/
def rectangularDimsAt (discreteCardinalities : List Nat) (continuousDims : Nat)
    (path : List Int) : Except String Nat :=
  if path.isEmpty then .ok continuousDims
  else if discreteCardinalities.length < path.length then
    .error ("discrete path " ++ toString path ++ " continues beyond rectangular domain depth " ++
      toString discreteCardinalities.length)
  else do
    checkCoordinates 0 path discreteCardinalities
    return continuousDims

mutual

def continuousDimsAtLeafPath : Domain → List Int → Except String Nat
  | .rectangular _ discreteCardinalities continuousDims, path =>
    if path.length ≠ discreteCardinalities.length then
      .error ("discrete path " ++ toString path ++ " must have rectangular domain depth " ++
        toString discreteCardinalities.length ++ ", got " ++ toString path.length)
    else rectangularDimsAt discreteCardinalities continuousDims path
  | .discrete _ _ _, [] =>
    .error "discrete path does not reach a concrete discrete domain branch"
  | .discrete _ _ branches, head :: tail =>
    if head < 0 then
      .error ("discrete branch index " ++ toString head ++
        " is negative and cannot select a domain branch")
    else dimsAtBranch branches head.toNat tail

def dimsAtBranch : List (Nat × Domain) → Nat → List Int → Except String Nat
  | [], index, _ =>
    .error ("discrete branch index " ++ toString index ++ " does not exist in domain")
  | (label, domain) :: branches, index, tail =>
    if label = index then domain.continuousDimsAtLeafPath tail else dimsAtBranch branches index tail

end

/-- `validate_point_parts`, of the continuous coordinates only their number. -/
def validatePointParts (d : Domain) (path : List Int) (continuous : Nat) :
    Except String Unit := do
  let expected ← d.continuousDimsAtLeafPath path
  if continuous ≠ expected then
    .error ("discrete path " ++ toString path ++ " expects " ++ toString expected ++
      " continuous coordinates, got " ++ toString continuous)
  else .ok ()

end Domain

end Gammaboard.Utils
