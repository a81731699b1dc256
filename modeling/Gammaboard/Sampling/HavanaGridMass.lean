import Gammaboard.Sampling.HavanaMass
import Mathlib.Algebra.Order.Field.Basic

/-!
# Masses on the grid of a domain

On the grid that is built for a valid domain, with equally probable bins, the
mass of a subspace is that of the tree of the domain, or the query is refused
for a fixed value that is negative.
-/

namespace Gammaboard.Sampling

open Gammaboard.Core Gammaboard.Lib

/-- The answer is the mass, or a refusal of a negative value. -/
def Answers {K : Type} (fixedDims : OrdMap Nat Int) (answer : Except MassError K) (mass : K) : Prop :=
  answer = .ok mass ∨
    ∃ e ∈ fixedDims, e.2 < 0 ∧ answer = .error (negativeIndex "discrete_mass" e.2)

section Bins

variable {K C : Type} [Field K] [LinearOrder K] [IsStrictOrderedRing K]
  {fixedDims : OrdMap Nat Int} {bins : List (K × Option (Grid K C))} {depth : Nat}

omit [LinearOrder K] [IsStrictOrderedRing K] in
theorem sum_foldl (l : List K) (a : K) : l.foldl (· + ·) a = a + l.sum := by
  induction l generalizing a with
  | nil => rw [List.foldl_nil, List.sum_nil, add_zero]
  | cons b l ih => rw [List.foldl_cons, ih, List.sum_cons, add_assoc]

/-- The bins are equally probable. -/
theorem binProbability_equal {pdf : K} (h : ∀ bin ∈ bins, bin.1 = pdf) {index : Nat}
    (hindex : index < bins.length) :
    binProbability (fun _ => true) bins index = 1 / (bins.length : K) := by
  have hpos : (0 : K) < bins.length := Nat.cast_pos.2 (by omega)
  have hpdfs : bins.map (·.1) = List.replicate bins.length pdf :=
    List.eq_replicate_iff.2 ⟨List.length_map _, fun x hx => by
      obtain ⟨bin, hbin, rfl⟩ := List.mem_map.1 hx
      exact h bin hbin⟩
  unfold binProbability
  rw [hpdfs]
  by_cases hpdf : 0 < pdf
  · have hfilter : (List.replicate bins.length pdf).filter (fun p => true && decide (0 < p)) =
        List.replicate bins.length pdf :=
      List.filter_eq_self.2 fun p hp => by
        rw [List.eq_of_mem_replicate hp]
        simpa using hpdf
    have hsum : (List.replicate bins.length pdf).foldl (· + ·) 0 = bins.length * pdf := by
      rw [sum_foldl, zero_add, List.sum_replicate, nsmul_eq_mul]
    have hbin : (bins[index]).1 = pdf := h _ (List.getElem_mem hindex)
    rw [hfilter, hsum]
    dsimp only
    rw [if_pos (mul_pos hpos hpdf), List.getElem?_eq_getElem hindex]
    dsimp only
    rw [hbin, if_pos (by simpa using hpdf), div_mul_cancel_right₀ hpdf.ne', one_div]
  · have hfilter : (List.replicate bins.length pdf).filter (fun p => true && decide (0 < p)) = [] :=
      List.filter_eq_nil_iff.2 fun p hp => by
        rw [List.eq_of_mem_replicate hp]
        simpa using hpdf
    rw [hfilter]
    dsimp only [List.foldl_nil]
    rw [if_neg (lt_irrefl 0), if_neg (by rw [List.isEmpty_iff]; rintro rfl; cases hindex)]

omit [IsStrictOrderedRing K] in
theorem massOfBin_eq (position : Nat) (domain : Option Utils.Domain) :
    massOfBin (fun _ => true) fixedDims bins position domain depth =
      bins[position]?.map fun bin => massBelow (fun _ => true) fixedDims bin.2 domain depth := by
  induction bins generalizing position with
  | nil => rfl
  | cons bin bins ih =>
    cases position with
    | zero => rfl
    | succ position => exact ih position

omit [IsStrictOrderedRing K] in
/-- The sum over the bins, when every bin has its mass. -/
theorem sumOfBins_answers {domain : Utils.Domain} {probability : Nat → K} {c : K} {masses : List K}
    {index : Nat} (hc : ∀ i < bins.length, probability (index + i) = c)
    (hlength : masses.length = bins.length)
    (h : ∀ i bin mass, bins[i]? = some bin → masses[i]? = some mass →
      Answers fixedDims (massBelow (fun _ => true) fixedDims bin.2
        (branchDomain domain (index + i)) depth) mass) (pdf : K) :
    Answers fixedDims (sumOfBins (fun _ => true) fixedDims bins domain probability index depth pdf)
      (pdf + c * masses.sum) := by
  induction bins generalizing masses index pdf with
  | nil =>
    rw [List.length_eq_zero_iff.1 hlength, List.sum_nil, mul_zero, add_zero]
    exact .inl rfl
  | cons bin bins ih =>
    obtain ⟨mass, masses, rfl⟩ := List.exists_cons_of_length_eq_add_one hlength
    have hfirst := h 0 bin mass rfl rfl
    rw [sumOfBins]
    rcases hfirst with hmass | ⟨e, he, hneg, herror⟩
    · rw [Nat.add_zero] at hmass
      rw [hmass]
      have hshift : ∀ i, index + (i + 1) = index + 1 + i := fun i => by omega
      have hrest : Answers fixedDims
          (sumOfBins (fun _ => true) fixedDims bins domain probability (index + 1) depth
            (pdf + probability index * mass))
          (pdf + probability index * mass + c * masses.sum) := by
        refine ih (fun i hi => ?_) (Nat.succ.inj hlength) (fun i bin mass hbin hmass => ?_) _
        · rw [← hshift]
          exact hc (i + 1) (Nat.succ_lt_succ hi)
        · rw [← hshift]
          exact h (i + 1) bin mass hbin hmass
      have hprobability : probability index = c := hc 0 (Nat.succ_pos _)
      rw [List.sum_cons, mul_add, ← add_assoc, ← hprobability]
      rwa [← hprobability] at hrest
    · rw [Nat.add_zero] at herror
      rw [herror]
      exact .inr ⟨e, he, hneg, rfl⟩

omit [IsStrictOrderedRing K] in
/-- A fixed value selects the mass of its bin. -/
theorem answers_fixed {domain : Utils.Domain} {value : Int} {q : K}
    (hvalue : OrdMap.get depth fixedDims = some value)
    (h : 0 ≤ value →
      Answers fixedDims
        (match binPosition domain value.toNat with
          | none => .ok 0
          | some position =>
            match bins[position]?.map fun bin => massBelow (fun _ => true) fixedDims bin.2
                (branchDomain domain position) depth with
            | none => .ok 0
            | some mass => mass.map fun child => binProbability (fun _ => true) bins position * child)
        q) :
    Answers fixedDims
      (gridDiscreteSubspacePdf (fun _ => true) fixedDims (.discrete bins) domain depth) q := by
  rw [gridDiscreteSubspacePdf, hvalue]
  dsimp only
  by_cases hneg : value < 0
  · rw [if_pos hneg]
    exact .inr ⟨_, OrdMap.mem_of_get hvalue, hneg, rfl⟩
  · rw [if_neg hneg]
    have hanswers := h (not_lt.1 hneg)
    cases hposition : binPosition domain value.toNat with
    | none =>
      rw [hposition] at hanswers
      exact hanswers
    | some position =>
      rw [hposition] at hanswers
      dsimp only at hanswers ⊢
      rw [massOfBin_eq]
      exact hanswers

omit [LinearOrder K] [IsStrictOrderedRing K] in
/-- The answer below a bin, times its probability. -/
theorem Answers.map {answer : Except MassError K} {mass : K} (h : Answers fixedDims answer mass)
    (c : K) : Answers fixedDims (answer.map fun child => c * child) (c * mass) := by
  rcases h with hmass | ⟨e, he, hneg, herror⟩
  · rw [hmass]
    exact .inl rfl
  · rw [herror]
    exact .inr ⟨e, he, hneg, rfl⟩

end Bins

/-! ## The grid of a domain -/

section Build

variable {K C : Type} {grids : SymbolicaGrids K C}

/-- An axis has a bin for every value, with the grid of the axes below. -/
theorem buildRectangular_cons {n continuousDims : Nat} {cardinalities : List Nat} {grid : Grid K C}
    (hgrids : grids.EqualBins)
    (h : buildRectangularHavanaGrid grids continuousDims (n :: cardinalities) = .ok grid) :
    n ≠ 0 ∧ ∃ bins below pdf, grid = .discrete bins ∧ bins.map (·.2) = List.replicate n (some below) ∧
      buildRectangularHavanaGrid grids continuousDims cardinalities = .ok below ∧
        ∀ bin ∈ bins, bin.1 = pdf := by
  rw [buildRectangularHavanaGrid] at h
  split at h
  · cases h
  · rename_i hn
    refine ⟨hn, ?_⟩
    cases hbelow : buildRectangularHavanaGrid grids continuousDims cardinalities with
    | error e =>
      obtain ⟨m, rfl⟩ := Nat.exists_eq_succ_of_ne_zero hn
      rw [hbelow, List.range_succ_eq_map, List.mapM_cons] at h
      cases h
    | ok below =>
      have hmap : ∀ l : List Nat, l.mapM (fun _ => (Except.ok (some below) :
          Except EngineError (Option (Grid K C)))) = .ok (List.replicate l.length (some below)) := by
        intro l
        induction l with
        | nil => rfl
        | cons i l ih =>
          rw [List.mapM_cons, ih]
          rfl
      rw [hbelow] at h
      have hsub : (List.range n).mapM (fun _ => (Except.ok below : Except EngineError _).map some) =
          .ok (List.replicate n (some below)) := by
        have hrange := hmap (List.range n)
        rwa [List.length_range] at hrange
      rw [hsub] at h
      change Except.bind (buildError (grids.newDiscrete (List.replicate n (some below)))) _ = _ at h
      cases hnew : grids.newDiscrete (List.replicate n (some below)) with
      | error e =>
        rw [hnew] at h
        cases h
      | ok bins =>
        rw [hnew] at h
        obtain ⟨hsubs, pdf, hpdf⟩ := hgrids _ _ hnew
        exact ⟨bins, below, pdf, (Except.ok.inj h).symm, hsubs, rfl, hpdf⟩

/-- The grid of the axes alone. -/
theorem buildRectangular_nil {continuousDims : Nat} {grid : Grid K C}
    (h : buildRectangularHavanaGrid grids continuousDims [] = .ok grid) :
    ∃ continuous, grid = .continuous continuous := by
  rw [buildRectangularHavanaGrid] at h
  split at h
  · cases h
  · cases hnew : grids.newContinuous continuousDims with
    | error e =>
      rw [hnew] at h
      cases h
    | ok continuous =>
      rw [hnew] at h
      exact ⟨continuous, (Except.ok.inj h).symm⟩

theorem buildBranchGrids_ok {branches : List (Nat × Utils.Domain)}
    {subGrids : List (Option (Grid K C))} (h : buildBranchGrids grids branches = .ok subGrids) :
    List.Forall₂ (fun b subGrid => ∃ grid, subGrid = some grid ∧
      buildHavanaGrid grids b.2 = .ok grid) branches subGrids := by
  induction branches generalizing subGrids with
  | nil =>
    cases h
    exact .nil
  | cons b branches ih =>
    rw [buildBranchGrids] at h
    cases hgrid : buildHavanaGrid grids b.2 with
    | error e =>
      rw [hgrid] at h
      cases h
    | ok grid =>
      rw [hgrid] at h
      cases hrest : buildBranchGrids grids branches with
      | error e =>
        rw [hrest] at h
        cases h
      | ok rest =>
        rw [hrest] at h
        cases h
        exact .cons ⟨grid, rfl, hgrid⟩ (ih hrest)

theorem build_rectangular {strataDims continuousDims : Nat} {cardinalities : List Nat}
    {grid : Grid K C}
    (h : buildHavanaGrid grids (.rectangular strataDims cardinalities continuousDims) = .ok grid) :
    buildRectangularHavanaGrid grids continuousDims cardinalities = .ok grid := by
  rw [buildHavanaGrid] at h
  cases hactivate : grids.activate with
  | error e =>
    rw [hactivate] at h
    cases h
  | ok u =>
    rw [hactivate] at h
    exact h

/-- A discrete axis has a bin for every branch, with its grid. -/
theorem build_discrete {axisLabel : Option String} {axisRole : Utils.DiscreteAxisRole}
    {branches : List (Nat × Utils.Domain)} {grid : Grid K C} (hgrids : grids.EqualBins)
    (h : buildHavanaGrid grids (.discrete axisLabel axisRole branches) = .ok grid) :
    ∃ bins pdf, grid = .discrete bins ∧ (∀ bin ∈ bins, bin.1 = pdf) ∧
      List.Forall₂ (fun b subGrid => ∃ below, subGrid = some below ∧
        buildHavanaGrid grids b.2 = .ok below) branches (bins.map (·.2)) := by
  rw [buildHavanaGrid] at h
  cases hactivate : grids.activate with
  | error e =>
    rw [hactivate] at h
    cases h
  | ok u =>
    rw [hactivate] at h
    change (if branches.isEmpty then _ else Except.bind (buildBranchGrids grids branches) _) = _ at h
    split at h
    · cases h
    · cases hsub : buildBranchGrids grids branches with
      | error e =>
        rw [hsub] at h
        cases h
      | ok subGrids =>
        rw [hsub] at h
        change Except.bind (buildError (grids.newDiscrete subGrids)) _ = _ at h
        cases hnew : grids.newDiscrete subGrids with
        | error e =>
          rw [hnew] at h
          cases h
        | ok bins =>
          rw [hnew] at h
          obtain ⟨hsubs, pdf, hpdf⟩ := hgrids _ _ hnew
          refine ⟨bins, pdf, (Except.ok.inj h).symm, hpdf, ?_⟩
          rw [hsubs]
          exact buildBranchGrids_ok hsub

end Build

/-! ## Masses -/

section Masses

variable {K C : Type} [Field K] [LinearOrder K] [IsStrictOrderedRing K]
  {grids : SymbolicaGrids K C} {fixedDims : OrdMap Nat Int}

/-- The grid of a rectangular domain has the masses of its axes. -/
theorem rectangular_answers (hgrids : grids.EqualBins) {cardinalities : List Nat}
    (strataDims continuousDims : Nat) {width : Nat} {grid : Grid K C}
    (h : buildRectangularHavanaGrid grids width cardinalities = .ok grid) (depth : Nat) :
    Answers fixedDims
      (gridDiscreteSubspacePdf (fun _ => true) fixedDims grid
        (.rectangular strataDims cardinalities continuousDims) depth)
      ((Utils.Domain.axesTree cardinalities).mass (Utils.Domain.fixedFrom fixedDims depth)) := by
  induction cardinalities generalizing strataDims grid depth with
  | nil =>
    obtain ⟨continuous, rfl⟩ := buildRectangular_nil h
    rw [gridDiscreteSubspacePdf, Utils.Domain.axesTree, mass_leaf]
    exact .inl rfl
  | cons n cardinalities ih =>
    obtain ⟨hn, bins, below, pdf, rfl, hbins, hbelow, hpdf⟩ := buildRectangular_cons hgrids h
    have hlength : bins.length = n := by
      have hlen := congrArg List.length hbins
      rwa [List.length_map, List.length_replicate] at hlen
    have hsub : ∀ (i : Nat) (hi : i < bins.length), (bins[i]).2 = some below := by
      intro i hi
      have hmem : (bins[i]).2 ∈ bins.map (·.2) := List.mem_map_of_mem (List.getElem_mem hi)
      rw [hbins] at hmem
      exact List.eq_of_mem_replicate hmem
    have hanswer : Answers fixedDims (massBelow (fun _ => true) fixedDims (some below)
        (branchDomain (.rectangular strataDims (n :: cardinalities) continuousDims) 0) depth)
        ((Utils.Domain.axesTree cardinalities).mass (Utils.Domain.fixedFrom fixedDims (depth + 1))) :=
      ih (strataDims - 1) hbelow (depth + 1)
    have hcast : (n : K) ≠ 0 := Nat.cast_ne_zero.2 hn
    cases hvalue : OrdMap.get depth fixedDims with
    | none =>
      rw [gridDiscreteSubspacePdf, hvalue, Utils.Domain.mass_axis_none hn
        (Utils.Domain.fixedFrom_zero.trans hvalue), Utils.Domain.rest_fixedFrom]
      have hsum : Answers fixedDims
          (sumOfBins (fun _ => true) fixedDims bins
            (.rectangular strataDims (n :: cardinalities) continuousDims)
            (binProbability (fun _ => true) bins) 0 depth 0)
          (0 + 1 / (bins.length : K) * (List.replicate n ((Utils.Domain.axesTree cardinalities).mass
            (Utils.Domain.fixedFrom fixedDims (depth + 1)))).sum) := by
        refine sumOfBins_answers (fun i hi => ?_) (by rw [List.length_replicate, hlength])
          (fun i bin mass hbin hmass => ?_) 0
        · rw [Nat.zero_add]
          exact binProbability_equal hpdf hi
        · obtain ⟨hi, rfl⟩ := List.getElem?_eq_some_iff.1 hbin
          rw [List.eq_of_mem_replicate (List.mem_of_getElem? hmass), hsub i hi]
          exact hanswer
      rwa [zero_add, List.sum_replicate, nsmul_eq_mul, hlength, one_div,
        inv_mul_cancel_left₀ hcast] at hsum
    | some value =>
      refine answers_fixed hvalue fun hnonneg => ?_
      dsimp only [binPosition]
      by_cases hlt : value < n
      · have hi : value.toNat < bins.length := by omega
        rw [Utils.Domain.mass_axis_some (Utils.Domain.fixedFrom_zero.trans hvalue) hnonneg hlt,
          Utils.Domain.rest_fixedFrom, ← one_div_mul_eq_div, List.getElem?_eq_getElem hi,
          Option.map_some, hsub _ hi, binProbability_equal hpdf hi, hlength]
        exact hanswer.map _
      · rw [List.getElem?_eq_none (by omega), Option.map_none, Utils.Domain.mass_axis_absent
          (Utils.Domain.fixedFrom_zero.trans hvalue) (.inr (not_lt.1 hlt))]
        exact .inl rfl

mutual

/-- The grid of a valid domain has the masses of its tree. -/
theorem grid_answers (hgrids : grids.EqualBins) : ∀ (d : Utils.Domain) {seen : Bool},
    d.validateFrom seen = .ok () → ∀ {grid : Grid K C}, buildHavanaGrid grids d = .ok grid →
      ∀ depth : Nat, Answers fixedDims
        (gridDiscreteSubspacePdf (fun _ => true) fixedDims grid d depth)
        (d.tree.mass (Utils.Domain.fixedFrom fixedDims depth))
  | .rectangular strataDims cardinalities continuousDims, _, _, grid, h, depth =>
    rectangular_answers hgrids strataDims continuousDims (build_rectangular h) depth
  | .discrete axisLabel axisRole branches, _, hvalid, grid, h, depth => by
    obtain ⟨seen', haxis⟩ := Utils.Domain.validAxis hvalid
    obtain ⟨bins, pdf, rfl, hpdf, hbins⟩ := build_discrete hgrids h
    have hlength : bins.length = branches.length := by
      rw [hbins.length_eq, List.length_map]
    have hbelow : ∀ (i : Nat) (hi : i < bins.length) (hj : i < branches.length),
        Answers fixedDims (massBelow (fun _ => true) fixedDims (bins[i]).2
          (branchDomain (.discrete axisLabel axisRole branches) i) depth)
          ((branches[i]).2.tree.mass (Utils.Domain.fixedFrom fixedDims (depth + 1))) := by
      intro i hi hj
      obtain ⟨below, hsub, hbuild⟩ := (List.forall₂_iff_get.1 hbins).2 i hj
        (by rwa [List.length_map])
      rw [List.get_eq_getElem, List.getElem_map] at hsub
      rw [hsub, branchDomain, List.getElem?_eq_getElem hj]
      exact branches_answer hgrids branches haxis.below _ (List.getElem_mem hj) hbuild (depth + 1)
    have htrees : (Utils.Domain.branchTrees branches).length = branches.length := by
      rw [Utils.Domain.branchTrees_eq, List.length_map]
    cases hvalue : OrdMap.get depth fixedDims with
    | none =>
      rw [gridDiscreteSubspacePdf, hvalue, Utils.Domain.tree, ChoiceTree.mass_ofList_none
        (Utils.Domain.fixedFrom_zero.trans hvalue), Utils.Domain.rest_fixedFrom, htrees,
        Utils.Domain.branchTrees_eq, List.map_map]
      have hsum : Answers fixedDims
          (sumOfBins (fun _ => true) fixedDims bins (.discrete axisLabel axisRole branches)
            (binProbability (fun _ => true) bins) 0 depth 0)
          (0 + 1 / (bins.length : K) * (branches.map fun b =>
            b.2.tree.mass (Utils.Domain.fixedFrom fixedDims (depth + 1))).sum) := by
        refine sumOfBins_answers (fun i hi => ?_) (by rw [List.length_map, hlength])
          (fun i bin mass hbin hmass => ?_) 0
        · rw [Nat.zero_add]
          exact binProbability_equal hpdf hi
        · obtain ⟨hi, rfl⟩ := List.getElem?_eq_some_iff.1 hbin
          obtain ⟨hj, rfl⟩ := List.getElem?_eq_some_iff.1 hmass
          rw [List.length_map] at hj
          rw [List.getElem_map, Nat.zero_add]
          exact hbelow i hi hj
      rw [zero_add, one_div_mul_eq_div, hlength] at hsum
      exact hsum
    | some value =>
      refine answers_fixed hvalue fun hnonneg => ?_
      have hnodup : ((Utils.Domain.branchTrees branches).map (·.1)).Nodup := by
        rw [Utils.Domain.map_fst_branchTrees]
        exact Utils.Domain.nodup_cast haxis.nodup
      rw [Utils.Domain.tree, binPosition]
      cases hfind : branches.findIdx? fun branch => branch.1 == value.toNat with
      | none =>
        have habsent : value ∉ (Utils.Domain.branchTrees branches).map (·.1) := by
          rw [Utils.Domain.map_fst_branchTrees]
          intro hmem
          obtain ⟨label, hlabel, rfl⟩ := List.mem_map.1 hmem
          obtain ⟨b, hb, rfl⟩ := List.mem_map.1 hlabel
          have hno := List.findIdx?_eq_none_iff.1 hfind b hb
          rw [Int.toNat_natCast, beq_self_eq_true] at hno
          cases hno
        rw [ChoiceTree.mass_ofList_absent (Utils.Domain.fixedFrom_zero.trans hvalue) habsent]
        exact .inl rfl
      | some position =>
        obtain ⟨hposition, hlabel, -⟩ := List.findIdx?_eq_some_iff_getElem.1 hfind
        rw [beq_iff_eq] at hlabel
        have hi : position < bins.length := by omega
        have htree : (((branches[position]).1 : Int), (branches[position]).2.tree) ∈
            Utils.Domain.branchTrees branches := by
          rw [Utils.Domain.branchTrees_eq]
          exact List.mem_map_of_mem (f := fun b : Nat × Utils.Domain => ((b.1 : Int), b.2.tree))
            (List.getElem_mem hposition)
        rw [ChoiceTree.mass_ofList_some hnodup htree (by
            rw [Utils.Domain.fixedFrom_zero, hvalue, hlabel, Int.toNat_of_nonneg hnonneg]),
          Utils.Domain.rest_fixedFrom, htrees, ← one_div_mul_eq_div]
        dsimp only
        rw [List.getElem?_eq_getElem hi, Option.map_some, binProbability_equal hpdf hi, hlength]
        exact (hbelow position hi hposition).map _

theorem branches_answer (hgrids : grids.EqualBins) : ∀ (branches : List (Nat × Utils.Domain))
    {seen : Bool}, Utils.Domain.validateBranches branches seen = .ok () →
      ∀ b ∈ branches, ∀ {grid : Grid K C}, buildHavanaGrid grids b.2 = .ok grid → ∀ depth : Nat,
        Answers fixedDims (gridDiscreteSubspacePdf (fun _ => true) fixedDims grid b.2 depth)
          (b.2.tree.mass (Utils.Domain.fixedFrom fixedDims depth))
  | [], _, _, _, hb, _, _, _ => by cases hb
  | (label, domain) :: branches, _, hvalid, b, hb, grid, h, depth => by
    obtain ⟨hdomain, hbranches⟩ := Utils.Domain.validateBranches_cons hvalid
    rcases List.mem_cons.1 hb with rfl | hb
    · exact grid_answers hgrids domain hdomain h depth
    · exact branches_answer hgrids branches hbranches b hb h depth

end

end Masses

end Gammaboard.Sampling
