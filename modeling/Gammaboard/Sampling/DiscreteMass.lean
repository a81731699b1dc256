import Gammaboard.Evaluation.Unbiased
import Gammaboard.Sampling.HavanaGridMass
import Gammaboard.Sampling.UniformDraws
import Mathlib.Algebra.Order.Ring.Rat

/-!
# Discrete masses

Over the rationals, the masses of the uniform sampler are a probability measure
on the discrete paths of a domain: the mass of a subspace is the sum of the
inverse weights with which the paths in it are drawn. The masses on the Havana
grid of the domain are the same, where no negative value is refused.
-/

namespace Gammaboard.Sampling

open Gammaboard.Core Gammaboard.Evaluation Gammaboard.Lib

/-! ## Subspaces as queries -/

theorem contains_iff_matches {s : DiscreteSubspace} (h : OrdMap.Ascending s.fixedDims)
    {path : List Int} :
    s.contains path = true ↔ (Utils.Domain.fixedFrom s.fixedDims 0).Matches path := by
  unfold DiscreteSubspace.contains Utils.Domain.fixedFrom
  rw [List.all_eq_true]
  constructor
  · intro hall i v hv
    change OrdMap.get (0 + i) s.fixedDims = some v at hv
    rw [Nat.zero_add] at hv
    exact beq_iff_eq.1 (hall (i, v) (OrdMap.mem_of_get hv))
  · intro hmatches e he
    refine beq_iff_eq.2 (hmatches e.1 e.2 ?_)
    show OrdMap.get (0 + e.1) s.fixedDims = some e.2
    rw [Nat.zero_add]
    exact OrdMap.get_eq_some_of_mem h he

/-- The query of the subspace below a path. -/
theorem fixedFrom_below (path : List Int) :
    Utils.Domain.fixedFrom (DiscreteSubspace.below path).fixedDims 0 = PathQuery.ofPath path := by
  have hget : ∀ (path : List Int) (start i : Nat),
      OrdMap.get (start + i) ((path.zipIdx start).map fun e => (e.2, e.1)) = path[i]? := by
    intro path
    induction path with
    | nil => exact fun start i => rfl
    | cons v path ih =>
      intro start i
      rw [List.zipIdx_cons, List.map_cons, OrdMap.get_cons]
      cases i with
      | zero => exact if_pos rfl
      | succ i =>
        rw [if_neg (show start ≠ start + (i + 1) by omega), List.getElem?_cons_succ, ← ih (start + 1) i]
        congr 1
        omega
  funext i
  exact hget path 0 i

theorem fixedFrom_insert (fixedDims : OrdMap Nat Int) (dim : Nat) (value : Int) :
    Utils.Domain.fixedFrom (OrdMap.insert dim value fixedDims) 0 =
      Function.update (Utils.Domain.fixedFrom fixedDims 0) dim (some value) := by
  funext i
  unfold Utils.Domain.fixedFrom
  rw [OrdMap.get_insert, Nat.zero_add]
  by_cases h : dim = i
  · rw [if_pos h, h, Function.update_self]
  · rw [if_neg h, Function.update_of_ne (Ne.symm h), Nat.zero_add]

/-- The mass of a subspace is the sum of the inverse weights of its paths. -/
theorem probability_eq_sum {d : Utils.Domain} (hvalid : d.validate = .ok ()) :
    ∃ weight : List Int → ℚ,
      (∀ path w, ChoiceTree.Walk d.tree path w ↔ path ∈ d.completePaths ∧ w = weight path) ∧
        ∀ s : DiscreteSubspace, OrdMap.Ascending s.fixedDims →
          discreteSubspaceProbability s.fixedDims d 0 =
            ∑ path ∈ d.completePaths.toFinset with s.contains path, (weight path)⁻¹ := by
  classical
  have hproper : d.tree.Proper := Utils.Domain.proper_tree d hvalid
  obtain ⟨weight, hwalk⟩ := ChoiceTree.Walk.exists_weight (K := ℚ) hproper
  refine ⟨weight, fun path w => ?_, fun s hs => ?_⟩
  · rw [hwalk, Utils.Domain.mem_tree]
  · rw [probability_eq_mass d hvalid 0,
      ChoiceTree.mass_eq_sum hproper (fun path hpath => (hwalk path _).2 ⟨hpath, rfl⟩),
      Utils.Domain.paths_tree]
    exact Finset.sum_congr (Finset.filter_congr fun path _ => (contains_iff_matches hs).symm)
      fun _ _ => rfl

/-! ## The measure -/

/-- The masses of the uniform sampler on a domain, and those on its Havana grid. -/
structure MassMeasure (d : Utils.Domain) : Prop where
  /-- A mass is the sum of the inverse weights with which the paths of the subspace are drawn. -/
  emitted : labelsFit d = true → ∃ weight : List Int → ℚ,
    (∀ path w, Emits d path w ↔ path ∈ d.completePaths ∧ w = weight path) ∧
      ∀ s : DiscreteSubspace, OrdMap.Ascending s.fixedDims →
        discreteSubspaceProbability s.fixedDims d 0 =
          ∑ path ∈ d.completePaths.toFinset with s.contains path, (weight path)⁻¹
  total : ∑ path ∈ d.completePaths.toFinset,
    discreteSubspaceProbability (DiscreteSubspace.below path).fixedDims d 0 = (1 : ℚ)
  /-- Another dimension is fixed, to each of the values it has in the subspace. -/
  refined : ∀ s : DiscreteSubspace, OrdMap.Ascending s.fixedDims →
    ∀ dim ∉ OrdMap.keys s.fixedDims, ∀ values : Finset Int,
      (∀ path ∈ d.completePaths, s.contains path → ∃ v ∈ values, path[dim]? = some v) →
        ∑ v ∈ values, discreteSubspaceProbability (OrdMap.insert dim v s.fixedDims) d 0 =
          (discreteSubspaceProbability s.fixedDims d 0 : ℚ)
  /-- The Havana mass is the same, or a negative value is refused. -/
  havana : ∀ (C : Type) (grids : SymbolicaGrids ℚ C), grids.EqualBins → ∀ grid : Grid ℚ C,
    buildHavanaGrid grids d = .ok grid → ∀ s : DiscreteSubspace,
      Answers s.fixedDims (gridDiscreteSubspacePdf (fun _ => true) s.fixedDims grid d 0)
        (discreteSubspaceProbability s.fixedDims d 0)

theorem massMeasure (d : Utils.Domain) (hvalid : d.validate = .ok ()) : MassMeasure d := by
  have hproper : d.tree.Proper := Utils.Domain.proper_tree d hvalid
  have hmass : ∀ fixedDims : OrdMap Nat Int, discreteSubspaceProbability fixedDims d 0 =
      (d.tree.mass (Utils.Domain.fixedFrom fixedDims 0) : ℚ) := fun fixedDims =>
    probability_eq_mass d hvalid 0
  have hpaths : d.tree.paths = d.completePaths.toFinset := Utils.Domain.paths_tree d
  refine ⟨fun hfit => ?_, ?_, fun s hs dim hdim values hvalues => ?_, fun C grids hgrids grid hgrid s => ?_⟩
  · obtain ⟨weight, hwalk, hsum⟩ := probability_eq_sum hvalid
    exact ⟨weight, fun path w => (emits_iff hvalid hfit).trans (hwalk path w), hsum⟩
  · rw [← ChoiceTree.sum_mass_ofPath (K := ℚ) hproper, hpaths]
    refine Finset.sum_congr rfl fun path _ => ?_
    rw [hmass, fixedFrom_below]
  · have hnone : Utils.Domain.fixedFrom s.fixedDims 0 dim = none := by
      unfold Utils.Domain.fixedFrom
      rw [Nat.zero_add]
      exact OrdMap.get_eq_none.2 hdim
    have hbelow : ∀ path ∈ d.tree.paths, (Utils.Domain.fixedFrom s.fixedDims 0).Matches path →
        ∃ v ∈ values, path[dim]? = some v := by
      intro path hpath hmatches
      rw [hpaths, List.mem_toFinset] at hpath
      exact hvalues path hpath ((contains_iff_matches hs).2 hmatches)
    rw [hmass, ← ChoiceTree.sum_mass_update hproper hnone hbelow]
    refine Finset.sum_congr rfl fun v _ => ?_
    rw [hmass, fixedFrom_insert]
  · rw [hmass]
    exact grid_answers hgrids d hvalid hgrid 0

/-- Two branches of different depths, with labels that leave one out. -/
def raggedDomain : Utils.Domain :=
  .discrete none .integrand [(1, .rectangular 0 [2] 1), (4, .rectangular 0 [] 1)]

theorem massMeasure_ragged : MassMeasure raggedDomain := massMeasure raggedDomain (by rfl)

/-! ## What is left out -/

/-- Grids with the same `pdf` in all bins. -/
def evenGrids : SymbolicaGrids ℚ Unit where
  activate := .ok ()
  newDiscrete subGrids := .ok (subGrids.map fun subGrid => (1, subGrid))
  newContinuous _ := .ok ()

theorem evenGrids_equalBins : evenGrids.EqualBins := by
  intro subGrids bins h
  obtain rfl := Except.ok.inj h
  refine ⟨?_, 1, fun bin hbin => ?_⟩
  · rw [List.map_map]
    exact List.map_id _
  · obtain ⟨subGrid, -, rfl⟩ := List.mem_map.1 hbin
    rfl

/-- An axis whose last value is no `i64`. -/
def wideDomain : Utils.Domain := .rectangular 0 [2 ^ 63 + 1] 1

/-- The grid refuses a negative value where the uniform sampler knows its mass. Values from
`2 ^ 63` on are drawn as negative ones, which have no mass. -/
theorem negative_values_differ :
    (evenGrids.EqualBins ∧ ∃ grid : Grid ℚ Unit, buildHavanaGrid evenGrids raggedDomain = .ok grid ∧
      gridDiscreteSubspacePdf (fun _ => true) [(0, -1)] grid raggedDomain 0 ≠
        .ok (discreteSubspaceProbability [(0, -1)] raggedDomain 0)) ∧
    Emits wideDomain [-2 ^ 63] (2 ^ 63 + 1 : ℚ) ∧
      discreteSubspaceProbability [(0, -2 ^ 63)] wideDomain 0 = (0 : ℚ) := by
  refine ⟨⟨evenGrids_equalBins, _, rfl, ?_⟩, ⟨List Nat, scripted, [2 ^ 63], _, rfl, ?_, ?_⟩, rfl⟩
  · intro h
    cases h
  · decide
  · show (1 : ℚ) * ((2 ^ 63 + 1 : Nat) : ℚ) = 2 ^ 63 + 1
    norm_num

end Gammaboard.Sampling
