import Gammaboard.Evaluation.IntegrandBatch
import Gammaboard.Evaluation.Unbiased
import Gammaboard.Lib.OrdMap
import Gammaboard.Lib.Regrouping
import Gammaboard.Lib.Results
import Gammaboard.Sampling.DiscreteMass
import Gammaboard.Utils.DomainTree
import Gammaboard.Utils.IntegrandDomain
import Mathlib.Algebra.BigOperators.Group.Finset.Basic

/-!
# Masses of integrand subspaces

`integrand_mass_queries` of `runners/sampler_aggregator.rs` and its caller: a
subspace of the integrand is asked for below every stratum prefix, all subspaces
in one request, and the answers are summed for each subspace again. The
subspaces are those of the projected bins, so that their dimensions lie on a
path. The sampler is a parameter.
-/

namespace Gammaboard.Runners

open Gammaboard.Core Gammaboard.Evaluation Gammaboard.Lib

inductive MassesError where
  /-- A dimension leaves `usize`. -/
  | overflow
  /-- `chunks_exact` of width zero. -/
  | noPrefix
  | runner (e : EngineError)

/-! ## The subspaces -/

section Collect

variable {S : Type} (item : NamedDiscreteProjection)

/-- The parsed keys of `fixed_dims`, with their values. -/
def parsedDims : List (String × Int) → Except EngineError (List (Nat × Int))
  | [] => return []
  | (rawDim, value) :: rest =>
    match Utils.parseUsize rawDim.toList with
    | none =>
      .error (.engine s!"discrete projection '{item.name}' fixed dimension '{rawDim}' is not a non-negative integer dimension index")
    | some dim => do return (dim, value) :: (← parsedDims rest)

/-- The loop of `discrete_matches_fixed_dims`. -/
def matchesFixedDims (discrete : List Int) : List (String × Int) → Except EngineError Bool
  | [] => return true
  | (rawDim, value) :: rest =>
    match Utils.parseUsize rawDim.toList with
    | none =>
      .error (.engine s!"discrete projection '{item.name}' fixed dimension '{rawDim}' is not a non-negative integer dimension index")
    | some dim =>
      if discrete[dim]? = some value then matchesFixedDims discrete rest else return false

def discreteProjectionKey (discrete : List Int) : Option (List Int) :=
  item.dims.mapM fun dim => discrete[dim]?

/-- The loop over the bins, with the keys seen so far. -/
def subspacesOfBins (projectionName : String) (binLimit : Nat) :
    List (DiscreteProjectionBinState S) → List (List Int) →
      Except EngineError (List (String × List Int × DiscreteSubspace))
  | [], _ => return []
  | bin :: bins, seen => do
    if ← matchesFixedDims item bin.discrete item.fixedDims then
      match discreteProjectionKey item bin.discrete with
      | none => subspacesOfBins projectionName binLimit bins seen
      | some key =>
        if key ∈ seen then subspacesOfBins projectionName binLimit bins seen
        else if binLimit < seen.length + 1 then return []
        else
          let fixedDims ← parsedDims item item.fixedDims
          let subspace : DiscreteSubspace := ⟨OrdMap.collect (fixedDims ++ item.dims.zip key)⟩
          return (projectionName, key, subspace) ::
            (← subspacesOfBins projectionName binLimit bins (key :: seen))
    else subspacesOfBins projectionName binLimit bins seen

end Collect

/-- `collect_discrete_mass_subspaces_from_bins` -/
def collectFromBins {S : Type} (bins : List (DiscreteProjectionBinState S)) (binLimit : Nat)
    (componentName : String) : List NamedDiscreteProjection →
      Except EngineError (List (String × List Int × DiscreteSubspace))
  | [] => return []
  | item :: items => do
    let out ← subspacesOfBins item (item.name ++ "." ++ componentName) binLimit bins []
    return out ++ (← collectFromBins bins binLimit componentName items)

/-- `collect_discrete_mass_subspaces` of the streams of a vector state, with their bins. -/
def collectDiscreteMassSubspaces {S : Type} (config : DiscreteProjectionConfig) (binLimit : Nat) :
    List (String × List (DiscreteProjectionBinState S)) →
      Except EngineError (List (String × List Int × DiscreteSubspace))
  | [] => return []
  | (streamName, bins) :: streams => do
    if config.streams.isEmpty || config.streams.contains streamName then
      let out ← collectFromBins bins binLimit streamName config.items
      return out ++ (← collectDiscreteMassSubspaces config binLimit streams)
    else collectDiscreteMassSubspaces config binLimit streams

/-! ## The queries -/

section Queries

variable {K : Type}

/-- The stratum prefixes of a partition; without one, the empty prefix. -/
def massPrefixes : Option (StratificationConfig K) → List (List Int)
  | some partition => partition.prefixes
  | none => [[]]

/-- The dimensions of a subspace below a prefix. -/
def shiftedDims (s : DiscreteSubspace) (path : List Int) : Except MassesError (List (Nat × Int)) :=
  s.fixedDims.mapM fun e =>
    if e.1 + path.length < 2 ^ 64 then .ok (e.1 + path.length, e.2) else .error .overflow

/-- The query for a subspace below a prefix. -/
def massQuery (s : DiscreteSubspace) (path : List Int) : Except MassesError DiscreteSubspace := do
  let shifted ← shiftedDims s path
  return ⟨OrdMap.collect ((path.zipIdx.map fun e => (e.2, e.1)) ++ shifted)⟩

/-- `integrand_mass_queries` -/
def integrandMassQueries (subspaces : List DiscreteSubspace)
    (partition : Option (StratificationConfig K)) : Except MassesError (Nat × List DiscreteSubspace) := do
  let queries ← subspaces.mapM fun s => (massPrefixes partition).mapM (massQuery s)
  return ((massPrefixes partition).length, queries.flatten)

variable [Zero K] [Add K]

/-- The sum of the answers of a group, where none is missing. -/
def sumAnswers (group : List (Option K)) : Option K :=
  group.foldlM (fun sum value => value.map fun v => sum + v) 0

/-- The masses of the subspaces, in `discrete_mass_diagnostics`. The mapping from the coordinates
of the sampler is known if nothing transforms its points. -/
def discreteMasses (mappingKnown : Bool)
    (massBatch : List DiscreteSubspace → Except EngineError (List (Option K)))
    (partition : Option (StratificationConfig K)) (subspaces : List DiscreteSubspace) :
    Except MassesError (List (Option K)) := do
  let (width, queries) ← integrandMassQueries subspaces partition
  let joint ←
    if mappingKnown then
      match massBatch queries with
      | .error e => .error (.runner e)
      | .ok joint => .ok joint
    else .ok (List.replicate queries.length none)
  if joint.length ≠ queries.length then
    .error (.runner (.engine "discrete mass response length mismatch"))
  else if width = 0 then .error .noPrefix
  else return (chunksExact width joint).map sumAnswers

end Queries

/-! ## Queries and their points -/

section Points

variable {K : Type} {s : DiscreteSubspace} {path : List Int}

/-- The subspace below a prefix. -/
def queryBelow (s : DiscreteSubspace) (path : List Int) : DiscreteSubspace :=
  ⟨(DiscreteSubspace.below path).fixedDims ++ s.fixedDims.map fun e => (e.1 + path.length, e.2)⟩

/-- The dimensions of the subspace below the prefix are `usize`. -/
def DimsFit (s : DiscreteSubspace) (path : List Int) : Prop :=
  ∀ dim ∈ OrdMap.keys s.fixedDims, dim + path.length < 2 ^ 64

theorem keys_below (path : List Int) :
    OrdMap.keys (DiscreteSubspace.below path).fixedDims = List.range path.length := by
  unfold OrdMap.keys DiscreteSubspace.below
  rw [List.map_map, List.range_eq_range', ← List.zipIdx_map_snd]
  rfl

theorem ascending_queryBelow (hs : OrdMap.Ascending s.fixedDims) :
    OrdMap.Ascending (queryBelow s path).fixedDims := by
  have hkeys : OrdMap.keys (queryBelow s path).fixedDims =
      List.range path.length ++ (OrdMap.keys s.fixedDims).map (· + path.length) := by
    rw [← keys_below]
    unfold OrdMap.keys queryBelow
    rw [List.map_append, List.map_map, List.map_map]
    rfl
  unfold OrdMap.Ascending
  rw [hkeys, List.pairwise_append]
  refine ⟨List.pairwise_lt_range, ?_, fun i hi j hj => ?_⟩
  · exact hs.map _ fun a b hab => Nat.add_lt_add_right hab _
  · obtain ⟨dim, -, rfl⟩ := List.mem_map.1 hj
    have hlt := List.mem_range.1 hi
    omega

theorem massQuery_eq (hs : OrdMap.Ascending s.fixedDims) (hfits : DimsFit s path) :
    massQuery s path = .ok (queryBelow s path) := by
  unfold massQuery shiftedDims
  have hshift : (s.fixedDims.mapM fun e =>
      if e.1 + path.length < 2 ^ 64 then
        (Except.ok (e.1 + path.length, e.2) : Except MassesError (Nat × Int))
      else .error .overflow) = .ok (s.fixedDims.map fun e => (e.1 + path.length, e.2)) := by
    refine mapM_eq_ok fun e he => if_pos (hfits e.1 ?_)
    exact List.mem_map_of_mem he
  rw [hshift]
  show Except.ok (DiscreteSubspace.mk (OrdMap.collect (queryBelow s path).fixedDims)) = _
  rw [OrdMap.collect_of_ascending (ascending_queryBelow hs)]

/-- The points below the prefix whose rest lies in the subspace. -/
theorem contains_queryBelow {point : List Int} : (queryBelow s path).contains point = true ↔
    path <+: point ∧ s.contains (point.drop path.length) = true := by
  have hbelow : (queryBelow s path).contains point =
      ((DiscreteSubspace.below path).contains point && s.contains (point.drop path.length)) := by
    unfold DiscreteSubspace.contains queryBelow
    rw [List.all_append, List.all_map]
    congr 1
    refine List.all_congr rfl fun e => ?_
    show (point[e.1 + path.length]? == some e.2) = _
    rw [List.getElem?_drop, Nat.add_comm]
  rw [hbelow, contains_below, Bool.and_eq_true, List.isPrefixOf_iff_prefix]

/-- The queries of all subspaces, in the order of the prefixes for each. -/
theorem integrandMassQueries_eq {partition : Option (StratificationConfig K)}
    {subspaces : List DiscreteSubspace}
    (hs : ∀ s ∈ subspaces, OrdMap.Ascending s.fixedDims)
    (hfits : ∀ s ∈ subspaces, ∀ path ∈ massPrefixes partition, DimsFit s path) :
    integrandMassQueries subspaces partition = .ok ((massPrefixes partition).length,
      subspaces.flatMap fun s => (massPrefixes partition).map (queryBelow s)) := by
  unfold integrandMassQueries
  rw [mapM_eq_ok fun s hmem => mapM_eq_ok fun path hpath =>
    massQuery_eq (hs s hmem) (hfits s hmem path hpath)]
  rfl

end Points

/-! ## Sums of answers -/

section Sums

variable {K : Type} [AddCommMonoid K]

/-- A missing answer leaves the sum out. -/
theorem sumAnswers_missing {group : List (Option K)} (h : none ∈ group) : sumAnswers group = none := by
  have hfold : ∀ sum : K, group.foldlM (fun sum value => value.map fun v => sum + v) sum = none := by
    induction group with
    | nil => cases h
    | cons answer group ih =>
      intro sum
      rw [List.foldlM_cons]
      cases answer with
      | none => rfl
      | some v =>
        have hmem : none ∈ group := (List.mem_cons.1 h).resolve_left nofun
        exact ih hmem (sum + v)
  exact hfold 0

/-- Without a missing answer it is the sum of the masses. -/
theorem sumAnswers_known {queries : List DiscreteSubspace} {group : List (Option K)}
    {mass : DiscreteSubspace → K}
    (h : List.Forall₂ (fun q answer => ∀ v, answer = some v → v = mass q) queries group)
    (hknown : none ∉ group) : sumAnswers group = some (queries.map mass).sum := by
  have hfold : ∀ sum : K, group.foldlM (fun sum value => value.map fun v => sum + v) sum =
      some (sum + (queries.map mass).sum) := by
    induction h with
    | nil =>
      intro sum
      rw [List.map_nil, List.sum_nil, add_zero]
      rfl
    | @cons q answer queries group hq h ih =>
      intro sum
      rw [List.mem_cons, not_or] at hknown
      cases answer with
      | none => exact absurd rfl hknown.1
      | some v =>
        rw [List.foldlM_cons, List.map_cons, List.sum_cons, ← hq v rfl, ← add_assoc]
        exact ih hknown.2 (sum + v)
  unfold sumAnswers
  rw [hfold, zero_add]

end Sums

/-! ## Marginal masses -/

/-- The sampling domain of a partition has its stratum prefixes. -/
def SamplesBelow {K : Type} : Option (StratificationConfig K) → Utils.Domain → Prop
  | some partition, d => d.stratumPrefixes = .ok partition.prefixes
  | none, _ => True

section Marginals

variable {K : Type} {partition : Option (StratificationConfig K)} {d : Utils.Domain}

/-- A partition has prefixes, and every path of its sampling domain continues one of them. -/
structure Continued (prefixes paths : List (List Int)) : Prop where
  nonempty : prefixes ≠ []
  nodup : prefixes.Nodup
  unique : ∀ path ∈ paths, ∃! p, p ∈ prefixes ∧ p <+: path

theorem continued_of_samplesBelow (h : SamplesBelow partition d) :
    Continued (massPrefixes partition) d.completePaths := by
  cases partition with
  | none =>
    refine ⟨List.cons_ne_nil _ _, List.nodup_singleton _, fun path _ => ⟨[], ?_, ?_⟩⟩
    · exact ⟨List.mem_singleton_self _, List.nil_prefix⟩
    · exact fun p hp => List.mem_singleton.1 hp.1
  | some partition =>
    have hprefixes : d.stratumPrefixes = .ok partition.prefixes := h
    refine ⟨Utils.Domain.stratumPrefixes_ne_nil hprefixes,
      (Utils.Domain.stratumPrefixes_pairwise hprefixes).imp fun hlt heq => ?_, fun path hpath => ?_⟩
    · rw [heq] at hlt
      exact hlt.not_isPrefixOf (List.prefix_refl _)
    · have hvalid := (Utils.Domain.stratumPrefixes_ok hprefixes).1
      obtain ⟨n, hn⟩ := Utils.Domain.exists_leaf d hvalid hpath
      exact Utils.Domain.existsUnique_prefix hprefixes (Utils.Domain.validatePointParts_iff.2 hn)

variable [AddCommMonoid K]

open Classical in
/-- The total mass of the paths whose integrand part, below a prefix, lies in the subspace. -/
noncomputable def marginalMass (prefixes paths : List (List Int)) (mass : List Int → K)
    (s : DiscreteSubspace) : K :=
  ∑ path ∈ paths.toFinset with ∃ p ∈ prefixes, ∃ rest, path = p ++ rest ∧ s.contains rest = true,
    mass path

/-- The mass of a subspace of the sampling domain. -/
def jointMass (paths : List (List Int)) (mass : List Int → K) (q : DiscreteSubspace) : K :=
  ∑ path ∈ paths.toFinset with q.contains path = true, mass path

/-- What the sampler answers is the total mass of the paths, or missing. -/
def Additive (massBatch : List DiscreteSubspace → Except EngineError (List (Option K)))
    (paths : List (List Int)) (mass : List Int → K) : Prop :=
  ∀ queries joint, (∀ q ∈ queries, OrdMap.Ascending q.fixedDims) → massBatch queries = .ok joint →
    List.Forall₂ (fun q answer => ∀ v, answer = some v → v = jointMass paths mass q) queries joint

/-- The joint masses below all prefixes sum up to the marginal mass. -/
theorem sum_jointMass {prefixes paths : List (List Int)} (h : Continued prefixes paths)
    (mass : List Int → K) (s : DiscreteSubspace) :
    ((prefixes.map (queryBelow s)).map (jointMass paths mass)).sum =
      marginalMass prefixes paths mass s := by
  classical
  have hsum : ((prefixes.map (queryBelow s)).map (jointMass paths mass)).sum =
      ∑ p ∈ prefixes.toFinset, jointMass paths mass (queryBelow s p) := by
    rw [List.map_map, List.sum_toFinset _ h.nodup]
    rfl
  have hdisjoint : Set.PairwiseDisjoint (prefixes.toFinset : Set (List Int)) fun p =>
      paths.toFinset.filter fun path => (queryBelow s p).contains path = true := by
    intro p hp q hq hne
    refine Finset.disjoint_left.2 fun path hpath hpath' => hne ?_
    obtain ⟨hmem, hcontains⟩ := Finset.mem_filter.1 hpath
    have hcontains' := (Finset.mem_filter.1 hpath').2
    exact (h.unique path (List.mem_toFinset.1 hmem)).unique
      ⟨List.mem_toFinset.1 hp, (contains_queryBelow.1 hcontains).1⟩
      ⟨List.mem_toFinset.1 hq, (contains_queryBelow.1 hcontains').1⟩
  rw [hsum]
  unfold jointMass marginalMass
  rw [← Finset.sum_biUnion hdisjoint]
  refine Finset.sum_congr (Finset.ext fun path => ?_) fun _ _ => rfl
  rw [Finset.mem_biUnion, Finset.mem_filter]
  constructor
  · rintro ⟨p, hp, hpath⟩
    obtain ⟨hmem, hcontains⟩ := Finset.mem_filter.1 hpath
    obtain ⟨⟨rest, rfl⟩, hrest⟩ := contains_queryBelow.1 hcontains
    rw [List.drop_left] at hrest
    exact ⟨hmem, p, List.mem_toFinset.1 hp, rest, rfl, hrest⟩
  · rintro ⟨hmem, p, hp, rest, rfl, hrest⟩
    refine ⟨p, List.mem_toFinset.2 hp, Finset.mem_filter.2 ⟨hmem, contains_queryBelow.2 ⟨?_, ?_⟩⟩⟩
    · exact List.prefix_append p rest
    · rwa [List.drop_left]

/-- The masses of a request are regrouped by subspace: each is the marginal mass, or missing where
one of its answers is. -/
structure Regrouped (partition : Option (StratificationConfig K)) (paths : List (List Int))
    (mass : List Int → K) (subspaces : List DiscreteSubspace) (joint values : List (Option K)) :
    Prop where
  length : values.length = subspaces.length
  known : ∀ i s, subspaces[i]? = some s →
    (∀ k < (massPrefixes partition).length,
      joint[i * (massPrefixes partition).length + k]? ≠ some none) →
        values[i]? = some (some (marginalMass (massPrefixes partition) paths mass s))
  missing : ∀ i < subspaces.length, (∃ k < (massPrefixes partition).length,
    joint[i * (massPrefixes partition).length + k]? = some none) → values[i]? = some none

/-- An answer of a group is missing. -/
theorem none_mem_group {joint : List (Option K)} {width i : Nat} :
    none ∈ (joint.drop (i * width)).take width ↔
      ∃ k < width, joint[i * width + k]? = some none := by
  rw [List.mem_iff_getElem?]
  constructor
  · rintro ⟨k, hk⟩
    rw [List.getElem?_take, List.getElem?_drop] at hk
    split at hk
    · rename_i hlt
      exact ⟨k, hlt, hk⟩
    · cases hk
  · rintro ⟨k, hlt, hk⟩
    refine ⟨k, ?_⟩
    rwa [List.getElem?_take, if_pos hlt, List.getElem?_drop]

/-- The answers of a request, one for every query, are regrouped. -/
theorem discreteMasses_joint {subspaces queries : List DiscreteSubspace} {joint : List (Option K)}
    {massBatch : List DiscreteSubspace → Except EngineError (List (Option K))} {width : Nat}
    (hqueries : integrandMassQueries subspaces partition = .ok (width, queries)) (hwidth : width ≠ 0)
    {known : Bool} (hlength : joint.length = queries.length)
    (hjoint : if known then massBatch queries = .ok joint else
      joint = List.replicate queries.length none) :
    discreteMasses known massBatch partition subspaces =
      .ok ((chunksExact width joint).map sumAnswers) := by
  unfold discreteMasses
  rw [hqueries]
  dsimp only [bind, Except.bind]
  cases known with
  | false =>
    rw [if_neg Bool.false_ne_true] at hjoint ⊢
    rw [← hjoint, if_neg (not_not.2 hlength), if_neg hwidth]
    rfl
  | true =>
    rw [if_pos rfl] at hjoint ⊢
    rw [hjoint]
    dsimp only
    rw [if_neg (not_not.2 hlength), if_neg hwidth]
    rfl

/-- For every list of subspaces, the masses are the marginal masses in its order. Where the mapping
is not known, all are missing. -/
theorem discreteMasses_regrouped (hd : SamplesBelow partition d)
    {massBatch : List DiscreteSubspace → Except EngineError (List (Option K))}
    {mass : List Int → K} (hbatch : Additive massBatch d.completePaths mass)
    {subspaces : List DiscreteSubspace} (hs : ∀ s ∈ subspaces, OrdMap.Ascending s.fixedDims)
    (hfits : ∀ s ∈ subspaces, ∀ path ∈ massPrefixes partition, DimsFit s path) :
    ∃ queries, integrandMassQueries subspaces partition =
        .ok ((massPrefixes partition).length, queries) ∧
      (∀ joint, massBatch queries = .ok joint →
        ∃ values, discreteMasses true massBatch partition subspaces = .ok values ∧
          Regrouped partition d.completePaths mass subspaces joint values) ∧
      ∃ values, discreteMasses false massBatch partition subspaces = .ok values ∧
        values = List.replicate subspaces.length none := by
  have hcontinued := continued_of_samplesBelow hd
  have hqueries := integrandMassQueries_eq hs hfits
  have hwidth : ∀ s : DiscreteSubspace,
      ((massPrefixes partition).map (queryBelow s)).length = (massPrefixes partition).length :=
    fun s => List.length_map _
  have hpos : 0 < (massPrefixes partition).length := List.length_pos_of_ne_nil hcontinued.nonempty
  refine ⟨_, hqueries, fun joint hjoint => ?_, ?_⟩
  · have hanswers := hbatch _ joint (fun q hq => ?_) hjoint
    · have hlength : joint.length = subspaces.length * (massPrefixes partition).length := by
        rw [← hanswers.length_eq, length_flatMap_const hwidth]
      refine ⟨_, discreteMasses_joint hqueries hpos.ne' hanswers.length_eq.symm
        (by rwa [if_pos rfl]), ?_, fun i s hi hknown => ?_, ?_⟩
      · rw [List.length_map, length_chunksExact hpos hlength]
      · have hlt : i < subspaces.length := (List.getElem?_eq_some_iff.1 hi).1
        have hgroup := forall₂_group hwidth hanswers hi
        rw [List.getElem?_map, getElem?_chunksExact hpos hlength hlt, Option.map_some,
          sumAnswers_known hgroup, sum_jointMass hcontinued]
        intro hmem
        obtain ⟨k, hk, hmissing⟩ := none_mem_group.1 hmem
        exact hknown k hk hmissing
      · rintro i hi ⟨k, hk, hmissing⟩
        rw [List.getElem?_map, getElem?_chunksExact hpos hlength hi, Option.map_some,
          sumAnswers_missing (none_mem_group.2 ⟨k, hk, hmissing⟩)]
    · obtain ⟨s, hmem, hq⟩ := List.mem_flatMap.1 hq
      obtain ⟨path, -, rfl⟩ := List.mem_map.1 hq
      exact ascending_queryBelow (hs s hmem)
  · refine ⟨_, discreteMasses_joint hqueries hpos.ne' List.length_replicate
      (by rw [if_neg Bool.false_ne_true]), ?_⟩
    have hlength : (List.replicate (subspaces.flatMap fun s =>
        (massPrefixes partition).map (queryBelow s)).length (none : Option K)).length =
          subspaces.length * (massPrefixes partition).length := by
      rw [List.length_replicate, length_flatMap_const hwidth]
    refine List.eq_replicate_iff.2 ⟨?_, fun value hvalue => ?_⟩
    · rw [List.length_map, length_chunksExact hpos hlength]
    · obtain ⟨group, hgroup, rfl⟩ := List.mem_map.1 hvalue
      obtain ⟨i, hi⟩ := List.mem_iff_getElem?.1 hgroup
      have hlt : i < subspaces.length := by
        rw [← length_chunksExact hpos hlength]
        exact (List.getElem?_eq_some_iff.1 hi).1
      rw [getElem?_chunksExact hpos hlength hlt, Option.some.injEq] at hi
      have hfirst : i * (massPrefixes partition).length + 0 < (subspaces.flatMap fun s =>
          (massPrefixes partition).map (queryBelow s)).length := by
        rw [length_flatMap_const hwidth, Nat.add_zero]
        exact Nat.mul_lt_mul_of_pos_right hlt hpos
      rw [← hi]
      exact sumAnswers_missing (none_mem_group.2 ⟨0, hpos, List.getElem?_replicate_of_lt hfirst⟩)

end Marginals

/-! ## Partitions and samplers -/

/-- The sampling domain that is built for a partition has its prefixes. -/
theorem samplesBelow_withIntegrand {K : Type} {partition : StratificationConfig K}
    {integrand : Utils.Domain} (hpartition : partition.Valid)
    (hstrata : partition.domain.strataOnly = true) (haxis : partition.domain.hasAxis = true)
    (hlen : partition.prefixes.length ≤ 2 ^ 63) (hvalid : integrand.validate = .ok ())
    (hunstratified : integrand.unstratified = true) :
    ∃ d, partition.domain.withIntegrand integrand = .ok d ∧ SamplesBelow (some partition) d := by
  obtain ⟨hdomain, hprefixes⟩ := Utils.Domain.stratumPrefixes_ok hpartition.prefixes
  rw [hprefixes] at hlen
  obtain ⟨d, hd, hcontinues⟩ :=
    Utils.Domain.withIntegrand_continues hdomain hstrata haxis hlen hvalid hunstratified
  refine ⟨d, hd, ?_⟩
  have hvalid' : d.validate = .ok () := hcontinues.valid
  show d.stratumPrefixes = .ok partition.prefixes
  rw [Utils.Domain.stratumPrefixes_eq hvalid', hcontinues.strata, hprefixes]

/-- The uniform sampler answers additively. -/
theorem uniform_additive {d : Utils.Domain} (hvalid : d.validate = .ok ()) :
    ∃ mass, Additive (fun queries => .ok (queries.map fun q =>
      some (Sampling.discreteSubspaceProbability q.fixedDims d 0 : ℚ))) d.completePaths mass := by
  obtain ⟨weight, -, hsum⟩ := Sampling.probability_eq_sum hvalid
  refine ⟨fun path => (weight path)⁻¹, fun queries joint hqueries hjoint => ?_⟩
  obtain rfl := Except.ok.inj hjoint
  refine List.forall₂_map_right_iff.2 (List.forall₂_same.2 fun q hq v hv => ?_)
  rw [← Option.some.inj hv, hsum q (hqueries q hq)]
  rfl

/-! ## Collected subspaces -/

section Collected

variable {S : Type} {item : NamedDiscreteProjection} {discrete : List Int}

/-- What is parsed of matching dimensions lies on the path. -/
theorem parsedDims_at : ∀ {fixedDims : List (String × Int)} {dims : List (Nat × Int)},
    matchesFixedDims item discrete fixedDims = .ok true → parsedDims item fixedDims = .ok dims →
      ∀ e ∈ dims, discrete[e.1]? = some e.2
  | [], dims, _, h => by
    cases h
    exact fun e he => by cases he
  | (rawDim, value) :: rest, dims, hmatches, h => by
    rw [matchesFixedDims] at hmatches
    rw [parsedDims] at h
    cases hparse : Utils.parseUsize rawDim.toList with
    | none =>
      rw [hparse] at h
      cases h
    | some dim =>
      rw [hparse] at h hmatches
      dsimp only at h hmatches
      split at hmatches
      · rename_i hat
        cases hrest : parsedDims item rest with
        | error e =>
          rw [hrest] at h
          cases h
        | ok others =>
          rw [hrest] at h
          cases h
          intro e he
          rcases List.mem_cons.1 he with rfl | he
          · exact hat
          · exact parsedDims_at hmatches hrest e he
      · cases hmatches

/-- The key of a projection is read off the path. -/
theorem projectionKey_at {dims : List Nat} {key : List Int}
    (h : dims.mapM (fun dim => discrete[dim]?) = some key) :
    ∀ e ∈ dims.zip key, discrete[e.1]? = some e.2 := by
  induction dims generalizing key with
  | nil => exact fun e he => by cases he
  | cons dim dims ih =>
    rw [List.mapM_cons] at h
    cases hat : discrete[dim]? with
    | none =>
      rw [hat] at h
      cases h
    | some value =>
      rw [hat] at h
      cases hrest : dims.mapM (fun dim => discrete[dim]?) with
      | none =>
        rw [hrest] at h
        cases h
      | some others =>
        rw [hrest] at h
        cases h
        intro e he
        rcases List.mem_cons.1 he with rfl | he
        · exact hat
        · exact ih hrest e he

/-- A subspace whose dimensions lie on the path of one of the bins. -/
def OnBin (bins : List (DiscreteProjectionBinState S)) (s : DiscreteSubspace) : Prop :=
  OrdMap.Ascending s.fixedDims ∧
    ∃ bin ∈ bins, ∀ dim ∈ OrdMap.keys s.fixedDims, dim < bin.discrete.length

theorem OnBin.mono {bins bins' : List (DiscreteProjectionBinState S)} {s : DiscreteSubspace}
    (h : OnBin bins s) (hsub : ∀ bin ∈ bins, bin ∈ bins') : OnBin bins' s := by
  obtain ⟨hascending, bin, hbin, hdims⟩ := h
  exact ⟨hascending, bin, hsub bin hbin, hdims⟩

theorem subspacesOfBins_dims {projectionName : String} {binLimit : Nat} :
    ∀ {bins : List (DiscreteProjectionBinState S)} {seen : List (List Int)}
      {out : List (String × List Int × DiscreteSubspace)},
      subspacesOfBins item projectionName binLimit bins seen = .ok out →
        ∀ e ∈ out, OnBin bins e.2.2
  | [], seen, out, h => by
    cases h
    exact fun e he => by cases he
  | bin :: bins, seen, out, h => by
    have hmore : ∀ {seen out}, subspacesOfBins item projectionName binLimit bins seen = .ok out →
        ∀ e ∈ out, OnBin (bin :: bins) e.2.2 := fun h e he =>
      (subspacesOfBins_dims h e he).mono fun _ => List.mem_cons_of_mem _
    rw [subspacesOfBins] at h
    cases hmatches : matchesFixedDims item bin.discrete item.fixedDims with
    | error e =>
      rw [hmatches] at h
      cases h
    | ok matching =>
      rw [hmatches] at h
      dsimp only [bind, Except.bind] at h
      cases matching with
      | false => exact hmore h
      | true =>
        rw [if_pos rfl] at h
        cases hkey : discreteProjectionKey item bin.discrete with
        | none =>
          rw [hkey] at h
          exact hmore h
        | some key =>
          rw [hkey] at h
          dsimp only at h
          split at h
          · exact hmore h
          · split at h
            · cases h
              exact fun e he => by cases he
            · cases hparsed : parsedDims item item.fixedDims with
              | error e =>
                rw [hparsed] at h
                cases h
              | ok dims =>
                rw [hparsed] at h
                dsimp only at h
                cases hrest : subspacesOfBins item projectionName binLimit bins (key :: seen) with
                | error e =>
                  rw [hrest] at h
                  cases h
                | ok others =>
                  rw [hrest] at h
                  cases h
                  intro e he
                  rcases List.mem_cons.1 he with rfl | he
                  · refine ⟨OrdMap.ascending_collect, bin, List.mem_cons_self, fun dim hdim => ?_⟩
                    obtain ⟨value, hvalue⟩ := OrdMap.mem_keys.1 (OrdMap.mem_keys_collect.1 hdim)
                    have hat : bin.discrete[dim]? = some value := by
                      rcases List.mem_append.1 hvalue with hvalue | hvalue
                      · exact parsedDims_at hmatches hparsed _ hvalue
                      · exact projectionKey_at hkey _ hvalue
                    exact (List.getElem?_eq_some_iff.1 hat).1
                  · exact hmore hrest e he

theorem collectFromBins_dims {bins : List (DiscreteProjectionBinState S)} {binLimit : Nat}
    {componentName : String} : ∀ {items : List NamedDiscreteProjection}
      {out : List (String × List Int × DiscreteSubspace)},
      collectFromBins bins binLimit componentName items = .ok out → ∀ e ∈ out, OnBin bins e.2.2
  | [], out, h => by
    cases h
    exact fun e he => by cases he
  | item :: items, out, h => by
    rw [collectFromBins] at h
    cases hfirst : subspacesOfBins item (item.name ++ "." ++ componentName) binLimit bins [] with
    | error e =>
      rw [hfirst] at h
      cases h
    | ok first =>
      rw [hfirst] at h
      dsimp only [bind, Except.bind] at h
      cases hrest : collectFromBins bins binLimit componentName items with
      | error e =>
        rw [hrest] at h
        cases h
      | ok others =>
        rw [hrest] at h
        cases h
        intro e he
        rcases List.mem_append.1 he with he | he
        · exact subspacesOfBins_dims hfirst e he
        · exact collectFromBins_dims hrest e he

/-- The dimensions of a collected subspace lie on the path of a bin. -/
theorem collected_dims {config : DiscreteProjectionConfig} {binLimit : Nat} :
    ∀ {streams : List (String × List (DiscreteProjectionBinState S))}
      {out : List (String × List Int × DiscreteSubspace)},
      collectDiscreteMassSubspaces config binLimit streams = .ok out →
        ∀ e ∈ out, ∃ stream ∈ streams, OnBin stream.2 e.2.2
  | [], out, h => by
    cases h
    exact fun e he => by cases he
  | (streamName, bins) :: streams, out, h => by
    have hmore : ∀ {out}, collectDiscreteMassSubspaces config binLimit streams = .ok out →
        ∀ e ∈ out, ∃ stream ∈ (streamName, bins) :: streams, OnBin stream.2 e.2.2 := by
      intro out h e he
      obtain ⟨stream, hstream, hbin⟩ := collected_dims h e he
      exact ⟨stream, List.mem_cons_of_mem _ hstream, hbin⟩
    rw [collectDiscreteMassSubspaces] at h
    split at h
    · cases hfirst : collectFromBins bins binLimit streamName config.items with
      | error e =>
        rw [hfirst] at h
        cases h
      | ok first =>
        rw [hfirst] at h
        dsimp only [bind, Except.bind] at h
        cases hrest : collectDiscreteMassSubspaces config binLimit streams with
        | error e =>
          rw [hrest] at h
          cases h
        | ok others =>
          rw [hrest] at h
          cases h
          intro e he
          rcases List.mem_append.1 he with he | he
          · exact ⟨_, List.mem_cons_self, collectFromBins_dims hfirst e he⟩
          · exact hmore hrest e he
    · exact hmore h

end Collected

/-! ## A partition with prefixes of two lengths -/

/-- A stratum of two axes and one of a single axis. -/
def pairPartition : StratificationConfig ℚ :=
  ⟨pairStrata, [([0, 0, 0], [0]), ([0, 1, 0], [1]), ([3], [2])], none⟩

/-- What `with_integrand` gives for it. -/
def pairDomain : Utils.Domain :=
  match pairStrata.withIntegrand axisIntegrand with
  | .ok d => d
  | .error _ => axisIntegrand

theorem discreteMasses_pair :
    ∃ queries, integrandMassQueries [⟨[(0, 2)]⟩] (some pairPartition) = .ok (3, queries) ∧
      (∀ joint, Except.ok (queries.map fun q =>
          some (jointMass pairDomain.completePaths (fun _ => (1 : ℚ)) q)) =
            (.ok joint : Except EngineError _) →
        ∃ values, discreteMasses true (fun queries => .ok (queries.map fun q =>
          some (jointMass pairDomain.completePaths (fun _ => (1 : ℚ)) q))) (some pairPartition)
            [⟨[(0, 2)]⟩] = .ok values ∧
          Regrouped (some pairPartition) pairDomain.completePaths (fun _ => (1 : ℚ)) [⟨[(0, 2)]⟩]
            joint values) ∧
      ∃ values, discreteMasses false (fun queries => .ok (queries.map fun q =>
          some (jointMass pairDomain.completePaths (fun _ => (1 : ℚ)) q))) (some pairPartition)
            [⟨[(0, 2)]⟩] = .ok values ∧ values = List.replicate 1 none := by
  refine discreteMasses_regrouped (d := pairDomain) (by rfl) (fun queries joint _ hjoint => ?_) ?_ ?_
  · obtain rfl := Except.ok.inj hjoint
    refine List.forall₂_map_right_iff.2 (List.forall₂_same.2 fun q _ v hv => ?_)
    exact (Option.some.inj hv).symm
  · intro s hs
    rw [List.mem_singleton.1 hs]
    exact List.pairwise_singleton _ _
  · intro s hs path hpath dim hdim
    rw [List.mem_singleton.1 hs] at hdim
    obtain rfl := List.mem_singleton.1 hdim
    have hshort : ∀ path ∈ massPrefixes (some pairPartition), path.length ≤ 3 := by decide
    have hle := hshort path hpath
    show 0 + path.length < 2 ^ 64
    omega

end Gammaboard.Runners
