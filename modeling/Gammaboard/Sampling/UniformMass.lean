import Gammaboard.Sampling.Havana
import Gammaboard.Utils.DomainTree

/-!
# The uniform sampler

`sample_domain_point` and `discrete_subspace_probability` of
`sampler_aggregator/naive_monte_carlo.rs`: a point of a domain is drawn axis by
axis, with the product of the numbers of values for its weight, and the
probability of a subspace is computed down the domain. Both follow the tree of
choices of the domain. The generator is a parameter.
-/

namespace Gammaboard.Sampling

open Gammaboard.Core Gammaboard.Lib

/-- `rand::Rng`, as far as it is used. -/
structure UniformRng (R F : Type) where
  /-- `random_range(0..n)` of a range that is not empty. -/
  randomRange : R → (n : Nat) → 0 < n → Fin n × R
  random : R → F × R

/-- A drawn point, its weight and the generator after it. -/
structure DrawnPoint (R F : Type) where
  weight : F
  discrete : List Int
  continuous : List F
  rng : R

section Sample

variable {R F : Type} (rng : UniformRng R F)

def drawAxes : List Nat → R → List Int × R
  | [], r => ([], r)
  | n :: cardinalities, r =>
    if h : 0 < n then
      let value := rng.randomRange r n h
      let rest := drawAxes cardinalities value.2
      (asI64 value.1 :: rest.1, rest.2)
    else ([], r) -- an empty range is refused before

def drawContinuous : Nat → R → List F × R
  | 0, r => ([], r)
  | n + 1, r =>
    let value := rng.random r
    let rest := drawContinuous n value.2
    (value.1 :: rest.1, rest.2)

variable [One F] [Mul F] [NatCast F] (finite : F → Bool)

/-- The check at the end of `sample_domain_point`. -/
def finiteWeight (drawn : DrawnPoint R F) : Except EngineError (DrawnPoint R F) :=
  if finite drawn.weight then .ok drawn
  else .error (.engine "uniform sampling weight overflow")

mutual

def sampleDomainPoint : Utils.Domain → R → Except EngineError (DrawnPoint R F)
  | .rectangular _ cardinalities continuousDims, r =>
    if cardinalities.contains 0 then
      .error (.engine
        "naive_monte_carlo cannot sample rectangular domains with zero-cardinality discrete axes")
    else
      let discrete := drawAxes rng cardinalities r
      let continuous := drawContinuous rng continuousDims discrete.2
      finiteWeight finite
        { weight := cardinalities.foldl (fun weight (n : Nat) => weight * (n : F)) 1
          discrete := discrete.1
          continuous := continuous.1
          rng := continuous.2 }
  | .discrete _ _ branches, r =>
    if h : 0 < branches.length then do
      let index := rng.randomRange r branches.length h
      let drawn ← sampleBranch branches index.1 index.2
      finiteWeight finite { drawn with weight := (branches.length : F) * drawn.weight }
    else
      .error (.engine "naive_monte_carlo cannot sample a discrete domain with no branches")

/-- The point below the branch at an index, with the label of the branch. -/
def sampleBranch : (branches : List (Nat × Utils.Domain)) → Fin branches.length → R →
    Except EngineError (DrawnPoint R F)
  | [], index, _ => index.elim0
  | (label, domain) :: _, ⟨0, _⟩, r =>
    (sampleDomainPoint domain r).map fun drawn =>
      { drawn with discrete := asI64 label :: drawn.discrete }
  | _ :: branches, ⟨index + 1, h⟩, r =>
    sampleBranch branches ⟨index, Nat.lt_of_succ_lt_succ h⟩ r

end

end Sample

section Probability

variable {F : Type} [Zero F] [One F] [Add F] [Div F] [NatCast F] (fixedDims : OrdMap Nat Int)

/-- A dimension from `depth` on is fixed. -/
def anyFixedFrom (depth : Nat) : Bool := (OrdMap.keys fixedDims).any fun dim => depth ≤ dim

/-- The loop over the axes of a rectangular domain; nothing where it returns `0`. -/
def axesProbability : List Nat → Nat → F → Option F
  | [], _, probability => some probability
  | cardinality :: cardinalities, dim, probability =>
    if cardinality = 0 then none
    else
      match OrdMap.get dim fixedDims with
      | none => axesProbability cardinalities (dim + 1) probability
      | some value =>
        if value < 0 ∨ (cardinality : Int) ≤ value then none
        else axesProbability cardinalities (dim + 1) (probability / (cardinality : F))

mutual

/-- The source returns a `Result` that is always `Ok`. -/
def discreteSubspaceProbability : Utils.Domain → Nat → F
  | .rectangular _ cardinalities _, depth =>
    match axesProbability fixedDims cardinalities depth 1 with
    | none => 0
    | some probability =>
      if anyFixedFrom fixedDims (depth + cardinalities.length) then 0 else probability
  | .discrete _ _ branches, depth =>
    if branches.isEmpty then 0
    else
      match OrdMap.get depth fixedDims with
      | some value =>
        if value < 0 then 0
        else
          match branchProbability branches value.toNat (depth + 1) with
          | none => 0
          | some probability => probability / (branches.length : F)
      | none => sumBranches branches branches.length (depth + 1) 0

/-- The probability below the first branch of an index. -/
def branchProbability : List (Nat × Utils.Domain) → Nat → Nat → Option F
  | [], _, _ => none
  | (label, domain) :: branches, index, depth =>
    if label = index then some (discreteSubspaceProbability domain depth)
    else branchProbability branches index depth

def sumBranches : List (Nat × Utils.Domain) → Nat → Nat → F → F
  | [], _, _, probability => probability
  | (_, domain) :: branches, count, depth, probability =>
    sumBranches branches count depth
      (probability + discreteSubspaceProbability domain depth / (count : F))

end

end Probability

/-! ## Masses -/

section Mass

variable {K : Type} [Field K] [CharZero K] {fixedDims : OrdMap Nat Int}

theorem anyFixedFrom_eq_false {depth : Nat} :
    anyFixedFrom fixedDims depth = false ↔ ∀ i, Utils.Domain.fixedFrom fixedDims depth i = none := by
  unfold anyFixedFrom Utils.Domain.fixedFrom
  rw [List.any_eq_false]
  constructor
  · intro h i
    refine OrdMap.get_eq_none.2 fun hmem => h _ hmem ?_
    exact decide_eq_true (Nat.le_add_right _ _)
  · intro h dim hdim hle
    have hnone := h (dim - depth)
    rw [Nat.add_sub_cancel' (of_decide_eq_true hle)] at hnone
    exact OrdMap.get_eq_none.1 hnone hdim

omit [CharZero K] in
theorem mass_leaf (depth : Nat) :
    ChoiceTree.leaf.mass (Utils.Domain.fixedFrom fixedDims depth) =
      (if anyFixedFrom fixedDims depth then 0 else 1 : K) := by
  rw [ChoiceTree.mass]
  by_cases h : anyFixedFrom fixedDims depth = false
  · rw [if_pos (anyFixedFrom_eq_false.1 h), h]
    rfl
  · rw [if_neg (mt anyFixedFrom_eq_false.2 h), if_pos (Bool.not_eq_false _ ▸ h)]

/-- The loop over the axes goes down their tree. -/
theorem axesProbability_spec {cardinalities : List Nat} (h : ∀ n ∈ cardinalities, n ≠ 0) (dim : Nat)
    (probability : K) :
    (match axesProbability fixedDims cardinalities dim probability with
      | none => 0
      | some p => if anyFixedFrom fixedDims (dim + cardinalities.length) then 0 else p) =
      probability * (Utils.Domain.axesTree cardinalities).mass
        (Utils.Domain.fixedFrom fixedDims dim) := by
  induction cardinalities generalizing dim probability with
  | nil =>
    rw [axesProbability, Utils.Domain.axesTree, mass_leaf]
    dsimp only [List.length_nil, Nat.add_zero]
    split
    · rw [mul_zero]
    · rw [mul_one]
  | cons n cardinalities ih =>
    have hn := h n List.mem_cons_self
    have hrest : ∀ m ∈ cardinalities, m ≠ 0 := fun m hm => h m (List.mem_cons_of_mem _ hm)
    have hlength : dim + (n :: cardinalities).length = dim + 1 + cardinalities.length := by
      rw [List.length_cons]
      omega
    rw [axesProbability, if_neg hn, hlength]
    cases hvalue : OrdMap.get dim fixedDims with
    | none =>
      dsimp only
      rw [ih hrest, Utils.Domain.mass_axis_none hn (Utils.Domain.fixedFrom_zero.trans hvalue),
        Utils.Domain.rest_fixedFrom]
    | some value =>
      dsimp only
      by_cases hout : value < 0 ∨ (n : Int) ≤ value
      · rw [if_pos hout,
          Utils.Domain.mass_axis_absent (Utils.Domain.fixedFrom_zero.trans hvalue) hout, mul_zero]
      · rw [if_neg hout, ih hrest, Utils.Domain.mass_axis_some
          (Utils.Domain.fixedFrom_zero.trans hvalue) (by omega) (by omega),
          Utils.Domain.rest_fixedFrom, div_mul_eq_mul_div, mul_div_assoc]

omit [CharZero K] in
/-- No branch has the index. -/
theorem branchProbability_absent {branches : List (Nat × Utils.Domain)} {index depth : Nat}
    (h : index ∉ branches.map (·.1)) :
    branchProbability fixedDims branches index depth = (none : Option K) := by
  induction branches with
  | nil => rfl
  | cons b branches ih =>
    rw [List.map_cons, List.mem_cons, not_or] at h
    rw [branchProbability, if_neg (Ne.symm h.1), ih h.2]

omit [CharZero K] in
/-- The branch of an index is found. -/
theorem branchProbability_of_mem {branches : List (Nat × Utils.Domain)} {depth : Nat}
    (hnodup : (branches.map (·.1)).Nodup) {b : Nat × Utils.Domain} (hb : b ∈ branches) :
    branchProbability fixedDims branches b.1 depth =
      some (discreteSubspaceProbability fixedDims b.2 depth : K) := by
  induction branches with
  | nil => cases hb
  | cons c branches ih =>
    obtain ⟨hnot, hnodup⟩ := List.nodup_cons.1 hnodup
    rw [branchProbability]
    rcases List.mem_cons.1 hb with rfl | hb
    · exact if_pos rfl
    · have hne : c.1 ≠ b.1 := fun heq => hnot (List.mem_map.2 ⟨b, hb, heq.symm⟩)
      rw [if_neg hne, ih hnodup hb]

omit [CharZero K] in
theorem sumBranches_eq (branches : List (Nat × Utils.Domain)) (count depth : Nat)
    (probability : K) : sumBranches fixedDims branches count depth probability =
      probability +
        (branches.map fun b => discreteSubspaceProbability fixedDims b.2 depth).sum / count := by
  induction branches generalizing probability with
  | nil => rw [sumBranches, List.map_nil, List.sum_nil, zero_div, add_zero]
  | cons b branches ih =>
    rw [sumBranches, ih, List.map_cons, List.sum_cons, add_div, add_assoc]

mutual

/-- The probability of a subspace is the mass of its query. -/
theorem probability_eq_mass : ∀ (d : Utils.Domain) {seen : Bool}, d.validateFrom seen = .ok () →
    ∀ depth : Nat, discreteSubspaceProbability fixedDims d depth =
      (d.tree.mass (Utils.Domain.fixedFrom fixedDims depth) : K)
  | .rectangular _ cardinalities _, _, h, depth => by
    rw [discreteSubspaceProbability, axesProbability_spec (Utils.Domain.axes_nonzero h), one_mul,
      Utils.Domain.tree]
  | .discrete _ _ branches, _, h, depth => by
    obtain ⟨seen', hvalid⟩ := Utils.Domain.validAxis h
    have hbelow : ∀ b ∈ branches, ∀ depth : Nat, discreteSubspaceProbability fixedDims b.2 depth =
        (b.2.tree.mass (Utils.Domain.fixedFrom fixedDims depth) : K) :=
      branches_eq_mass branches hvalid.below
    have hlength : (Utils.Domain.branchTrees branches).length = branches.length := by
      rw [Utils.Domain.branchTrees_eq, List.length_map]
    have hnodup : ((Utils.Domain.branchTrees branches).map (·.1)).Nodup := by
      rw [Utils.Domain.map_fst_branchTrees]
      exact Utils.Domain.nodup_cast hvalid.nodup
    rw [discreteSubspaceProbability, Utils.Domain.tree,
      if_neg (by rw [List.isEmpty_iff]; exact hvalid.nonempty)]
    cases hvalue : OrdMap.get depth fixedDims with
    | none =>
      dsimp only
      rw [sumBranches_eq, zero_add, ChoiceTree.mass_ofList_none
        (Utils.Domain.fixedFrom_zero.trans hvalue), hlength, Utils.Domain.rest_fixedFrom,
        Utils.Domain.branchTrees_eq, List.map_map]
      congr 2
      exact List.map_congr_left fun b hb => hbelow b hb (depth + 1)
    | some value =>
      dsimp only
      by_cases hmem : ∃ b ∈ branches, (b.1 : Int) = value
      · obtain ⟨b, hb, rfl⟩ := hmem
        have htree : ((b.1 : Int), b.2.tree) ∈ Utils.Domain.branchTrees branches := by
          rw [Utils.Domain.branchTrees_eq]
          exact List.mem_map_of_mem (f := fun b : Nat × Utils.Domain => ((b.1 : Int), b.2.tree)) hb
        rw [if_neg (by omega), Int.toNat_natCast, branchProbability_of_mem hvalid.nodup hb,
          ChoiceTree.mass_ofList_some hnodup htree (Utils.Domain.fixedFrom_zero.trans hvalue),
          hlength, Utils.Domain.rest_fixedFrom]
        dsimp only
        rw [hbelow b hb]
      · have habsent : value ∉ (Utils.Domain.branchTrees branches).map (·.1) := by
          rw [Utils.Domain.branchTrees_eq, List.map_map]
          intro hin
          obtain ⟨b, hb, heq⟩ := List.mem_map.1 hin
          exact hmem ⟨b, hb, heq⟩
        rw [ChoiceTree.mass_ofList_absent (Utils.Domain.fixedFrom_zero.trans hvalue) habsent]
        by_cases hneg : value < 0
        · exact if_pos hneg
        · rw [if_neg hneg, branchProbability_absent fun hin => ?_]
          obtain ⟨b, hb, heq⟩ := List.mem_map.1 hin
          exact hmem ⟨b, hb, by omega⟩

theorem branches_eq_mass : ∀ (branches : List (Nat × Utils.Domain)) {seen : Bool},
    Utils.Domain.validateBranches branches seen = .ok () → ∀ b ∈ branches, ∀ depth : Nat,
      discreteSubspaceProbability fixedDims b.2 depth =
        (b.2.tree.mass (Utils.Domain.fixedFrom fixedDims depth) : K)
  | [], _, _, _, hb, _ => by cases hb
  | (label, domain) :: branches, _, h, b, hb, depth => by
    obtain ⟨hdomain, hbranches⟩ := Utils.Domain.validateBranches_cons h
    rcases List.mem_cons.1 hb with rfl | hb
    · exact probability_eq_mass domain hdomain depth
    · exact branches_eq_mass branches hbranches b hb depth

end

end Mass

end Gammaboard.Sampling
