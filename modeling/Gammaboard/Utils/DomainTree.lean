import Gammaboard.Lib.ChoiceTree
import Gammaboard.Lib.OrdMap
import Gammaboard.Utils.StratumPaths

/-!
# The choices of a domain

A discrete path through a domain is a path of its tree of choices: a rectangular
leaf chooses a value on each of its axes, a discrete axis one of its branches.
The tree of a valid domain is proper. Fixed dimensions are a query for its
paths.
-/

namespace Gammaboard.Utils.Domain

open Gammaboard.Lib

/-- The choices on axes of these sizes. -/
def axesTree : List Nat → ChoiceTree Int
  | [] => .leaf
  | n :: cardinalities =>
    .ofList ((List.range n).map fun (i : Nat) => ((i : Int), axesTree cardinalities))

mutual

def tree : Domain → ChoiceTree Int
  | .rectangular _ discreteCardinalities _ => axesTree discreteCardinalities
  | .discrete _ _ branches => .ofList (branchTrees branches)

def branchTrees : List (Nat × Domain) → List (Int × ChoiceTree Int)
  | [] => []
  | (label, domain) :: branches => ((label : Int), domain.tree) :: branchTrees branches

end

theorem branchTrees_eq (branches : List (Nat × Domain)) :
    branchTrees branches = branches.map fun b => ((b.1 : Int), b.2.tree) := by
  induction branches with
  | nil => rfl
  | cons b branches ih => rw [branchTrees, ih, List.map_cons]

theorem map_fst_branchTrees (branches : List (Nat × Domain)) :
    (branchTrees branches).map (·.1) = (branches.map (·.1)).map fun (label : Nat) => (label : Int) := by
  rw [branchTrees_eq, List.map_map, List.map_map]
  rfl

theorem nodup_cast {labels : List Nat} (h : labels.Nodup) :
    (labels.map fun (label : Nat) => (label : Int)).Nodup :=
  h.map fun _ _ heq => Int.ofNat.inj heq

theorem map_fst_axes (n : Nat) (t : ChoiceTree Int) :
    ((List.range n).map fun (i : Nat) => ((i : Int), t)).map (·.1) =
      (List.range n).map fun (i : Nat) => (i : Int) := by
  rw [List.map_map]
  rfl

/-! ## Validity -/

/-- What a valid discrete axis is. -/
structure ValidAxis (branches : List (Nat × Domain)) (seen : Bool) : Prop where
  nonempty : branches ≠ []
  labels : (branches.map (·.1)).Pairwise (· < ·)
  fits : ∀ label ∈ branches.map (·.1), label ≤ i64Max
  below : validateBranches branches seen = .ok ()

theorem validAxis {axisLabel : Option String} {axisRole : DiscreteAxisRole}
    {branches : List (Nat × Domain)} {seen : Bool}
    (h : (Domain.discrete axisLabel axisRole branches).validateFrom seen = .ok ()) :
    ∃ seen', ValidAxis branches seen' := by
  unfold validateFrom at h
  dsimp only at h
  split at h
  · cases h
  · rename_i hlabels
    split at h
    · cases h
    · simp only [Bool.or_eq_true, not_or, Bool.not_eq_true, List.isEmpty_eq_false_iff] at hlabels
      refine ⟨_, fun hnil => hlabels.1.1 (by rw [hnil]; rfl), pairwise_of_hasDescent hlabels.2,
        fun label hlabel => ?_, h⟩
      have hfits := List.any_eq_false.1 hlabels.1.2 label hlabel
      rwa [decide_eq_true_eq, Nat.not_lt] at hfits

theorem ValidAxis.nodup {branches : List (Nat × Domain)} {seen : Bool} (h : ValidAxis branches seen) :
    (branches.map (·.1)).Nodup := h.labels.imp fun hlt => Nat.ne_of_lt hlt

theorem validateBranches_cons {label : Nat} {domain : Domain} {branches : List (Nat × Domain)}
    {seen : Bool} (h : validateBranches ((label, domain) :: branches) seen = .ok ()) :
    domain.validateFrom seen = .ok () ∧ validateBranches branches seen = .ok () := by
  unfold validateBranches at h
  cases hdomain : domain.validateFrom seen with
  | error e =>
    rw [hdomain] at h
    cases h
  | ok u =>
    rw [hdomain] at h
    exact ⟨rfl, h⟩

theorem axes_nonzero {strataDims continuousDims : Nat} {discreteCardinalities : List Nat}
    {seen : Bool}
    (h : (Domain.rectangular strataDims discreteCardinalities continuousDims).validateFrom seen =
      .ok ()) : ∀ n ∈ discreteCardinalities, n ≠ 0 := by
  rw [validateFrom] at h
  split at h
  · cases h
  · rename_i hbad
    rw [Bool.not_eq_true, Bool.or_eq_false_iff, ← Bool.not_eq_true, List.contains_iff_mem] at hbad
    rintro n hn rfl
    exact hbad.1 hn

mutual

/-- The host finds a leaf at a complete path. -/
theorem exists_leaf : ∀ (d : Domain) {seen : Bool} {path : List Int}, d.validateFrom seen = .ok () →
    path ∈ d.completePaths → ∃ n, d.continuousDimsAtLeafPath path = .ok n
  | .rectangular _ discreteCardinalities continuousDims, _, path, _, hpath => by
    rw [completePaths] at hpath
    have hlength : path.length = discreteCardinalities.length := (mem_product.1 hpath).length_eq
    rw [continuousDimsAtLeafPath, if_neg (not_not.2 hlength)]
    exact ⟨continuousDims, (rectangularDimsAt_iff hlength).2 ⟨rfl, hpath⟩⟩
  | .discrete _ _ branches, _, path, h, hpath => by
    obtain ⟨seen', hvalid⟩ := validAxis h
    rw [completePaths] at hpath
    obtain ⟨index, -, tail, rfl, n, hn⟩ :=
      exists_leaf_of_branches branches hvalid.labels hvalid.below hpath
    refine ⟨n, ?_⟩
    rw [continuousDimsAtLeafPath, if_neg (by omega), Int.toNat_natCast]
    exact hn

theorem exists_leaf_of_branches : ∀ (branches : List (Nat × Domain)) {seen : Bool} {path : List Int},
    (branches.map (·.1)).Pairwise (· < ·) → validateBranches branches seen = .ok () →
      path ∈ pathsOfBranches branches → ∃ index ∈ branches.map (·.1), ∃ tail,
        path = ((index : Nat) : Int) :: tail ∧ ∃ n, dimsAtBranch branches index tail = .ok n
  | [], _, _, _, _, hpath => by cases hpath
  | (label, domain) :: branches, _, path, hlabels, h, hpath => by
    obtain ⟨hdomain, hbranches⟩ := validateBranches_cons h
    obtain ⟨hfirst, hrest⟩ := List.pairwise_cons.1 hlabels
    rw [pathsOfBranches, List.mem_append] at hpath
    rcases hpath with hpath | hpath
    · obtain ⟨tail, htail, rfl⟩ := List.mem_map.1 hpath
      obtain ⟨n, hn⟩ := exists_leaf domain hdomain htail
      refine ⟨label, List.mem_cons_self, tail, rfl, n, ?_⟩
      rw [dimsAtBranch, if_pos rfl]
      exact hn
    · obtain ⟨index, hindex, tail, rfl, n, hn⟩ :=
        exists_leaf_of_branches branches hrest hbranches hpath
      refine ⟨index, List.mem_cons_of_mem _ hindex, tail, rfl, n, ?_⟩
      have hlt : label < index := hfirst index hindex
      rw [dimsAtBranch, if_neg (by omega)]
      exact hn

end

/-! ## The tree -/

theorem proper_axesTree {cardinalities : List Nat} (h : ∀ n ∈ cardinalities, n ≠ 0) :
    (axesTree cardinalities).Proper := by
  induction cardinalities with
  | nil => exact trivial
  | cons n cardinalities ih =>
    have hn := h n List.mem_cons_self
    refine ChoiceTree.proper_ofList ?_ ?_ fun b hb => ?_
    · rw [ne_eq, List.map_eq_nil_iff, List.range_eq_nil]
      exact hn
    · rw [map_fst_axes]
      exact nodup_cast List.nodup_range
    · obtain ⟨i, -, rfl⟩ := List.mem_map.1 hb
      exact ih fun m hm => h m (List.mem_cons_of_mem _ hm)

mutual

/-- The tree of a valid domain has a child at every node, and no two of one label. -/
theorem proper_tree : ∀ (d : Domain) {seen : Bool}, d.validateFrom seen = .ok () → d.tree.Proper
  | .rectangular _ discreteCardinalities _, _, h => proper_axesTree (axes_nonzero h)
  | .discrete _ _ branches, _, h => by
    obtain ⟨seen', hvalid⟩ := validAxis h
    rw [tree]
    refine ChoiceTree.proper_ofList ?_ ?_ (proper_branchTrees branches hvalid.below)
    · rw [branchTrees_eq, ne_eq, List.map_eq_nil_iff]
      exact hvalid.nonempty
    · rw [map_fst_branchTrees]
      exact nodup_cast hvalid.nodup

theorem proper_branchTrees : ∀ (branches : List (Nat × Domain)) {seen : Bool},
    validateBranches branches seen = .ok () → ∀ b ∈ branchTrees branches, b.2.Proper
  | [], _, _, _, hb => by cases hb
  | (label, domain) :: branches, _, h, b, hb => by
    obtain ⟨hdomain, hbranches⟩ := validateBranches_cons h
    rcases List.mem_cons.1 hb with rfl | hb
    · exact proper_tree domain hdomain
    · exact proper_branchTrees branches hbranches b hb

end

theorem mem_axesTree {cardinalities : List Nat} {path : List Int} :
    path ∈ (axesTree cardinalities).paths ↔ path ∈ product cardinalities [] [] := by
  induction cardinalities generalizing path with
  | nil =>
    rw [axesTree, ChoiceTree.paths, Finset.mem_singleton, product, List.nil_append,
      List.mem_singleton]
  | cons n cardinalities ih =>
    rw [axesTree, ChoiceTree.mem_paths_ofList, product_cons, List.mem_flatMap]
    constructor
    · rintro ⟨b, hb, tail, htail, rfl⟩
      obtain ⟨i, hi, rfl⟩ := List.mem_map.1 hb
      exact ⟨i, hi, List.mem_map_of_mem (ih.1 htail)⟩
    · rintro ⟨i, hi, hpath⟩
      obtain ⟨tail, htail, rfl⟩ := List.mem_map.1 hpath
      exact ⟨_, List.mem_map_of_mem hi, tail, ih.2 htail, rfl⟩

mutual

/-- The paths of the tree are the discrete paths to the leaves. -/
theorem mem_tree : ∀ (d : Domain) {path : List Int}, path ∈ d.tree.paths ↔ path ∈ d.completePaths
  | .rectangular _ discreteCardinalities _, path => by
    rw [tree, completePaths]
    exact mem_axesTree
  | .discrete _ _ branches, path => by
    rw [tree, completePaths, ChoiceTree.mem_paths_ofList]
    exact mem_branchTrees branches

theorem mem_branchTrees : ∀ (branches : List (Nat × Domain)) {path : List Int},
    (∃ b ∈ branchTrees branches, ∃ tail ∈ b.2.paths, b.1 :: tail = path) ↔
      path ∈ pathsOfBranches branches
  | [], path => by simp [branchTrees, pathsOfBranches]
  | (label, domain) :: branches, path => by
    have ihd : ∀ {path : List Int}, path ∈ domain.tree.paths ↔ path ∈ domain.completePaths :=
      mem_tree domain
    have ihb := @mem_branchTrees branches path
    rw [branchTrees, pathsOfBranches, List.mem_append, ← ihb]
    constructor
    · rintro ⟨b, hb, tail, htail, rfl⟩
      rcases List.mem_cons.1 hb with rfl | hb
      · exact .inl (List.mem_map_of_mem (ihd.1 htail))
      · exact .inr ⟨b, hb, tail, htail, rfl⟩
    · rintro (h | ⟨b, hb, h⟩)
      · obtain ⟨tail, htail, rfl⟩ := List.mem_map.1 h
        exact ⟨_, List.mem_cons_self, tail, ihd.2 htail, rfl⟩
      · exact ⟨b, List.mem_cons_of_mem _ hb, h⟩

end

theorem paths_tree (d : Domain) : d.tree.paths = d.completePaths.toFinset := by
  ext path
  rw [List.mem_toFinset, mem_tree]

/-! ## Fixed dimensions -/

/-- The dimensions from `depth` on. -/
def fixedFrom (fixedDims : OrdMap Nat Int) (depth : Nat) : PathQuery Int :=
  fun i => OrdMap.get (depth + i) fixedDims

variable {fixedDims : OrdMap Nat Int} {depth : Nat}

theorem fixedFrom_zero : fixedFrom fixedDims depth 0 = OrdMap.get depth fixedDims := rfl

theorem rest_fixedFrom : (fixedFrom fixedDims depth).rest = fixedFrom fixedDims (depth + 1) := by
  funext i
  show OrdMap.get (depth + (i + 1)) fixedDims = OrdMap.get (depth + 1 + i) fixedDims
  congr 1
  omega

section Masses

variable {K : Type} [Field K] [CharZero K] {n : Nat} {cardinalities : List Nat}

/-- An axis of which nothing is asked. -/
theorem mass_axis_none (hn : n ≠ 0) {q : PathQuery Int} (h : q 0 = none) :
    (axesTree (n :: cardinalities)).mass q = ((axesTree cardinalities).mass q.rest : K) := by
  have hcast : (n : K) ≠ 0 := Nat.cast_ne_zero.2 hn
  rw [axesTree, ChoiceTree.mass_ofList_none h, List.map_map, List.length_map, List.length_range]
  have hconst : (List.range n).map ((fun b : Int × ChoiceTree Int => (b.2.mass q.rest : K)) ∘
      fun (i : Nat) => ((i : Int), axesTree cardinalities)) =
        List.replicate n ((axesTree cardinalities).mass q.rest) := by
    refine List.eq_replicate_iff.2 ⟨by rw [List.length_map, List.length_range], fun x hx => ?_⟩
    obtain ⟨i, -, rfl⟩ := List.mem_map.1 hx
    rfl
  rw [hconst, List.sum_replicate, nsmul_eq_mul, mul_div_cancel_left₀ _ hcast]

omit [CharZero K] in
/-- One value of an axis is asked for. -/
theorem mass_axis_some {q : PathQuery Int} {value : Int} (h : q 0 = some value) (hnonneg : 0 ≤ value)
    (hlt : value < n) : (axesTree (n :: cardinalities)).mass q =
      ((axesTree cardinalities).mass q.rest / n : K) := by
  have hmem : (((value.toNat : Nat) : Int), axesTree cardinalities) ∈
      (List.range n).map fun (i : Nat) => ((i : Int), axesTree cardinalities) :=
    List.mem_map.2 ⟨value.toNat, List.mem_range.2 (by omega), rfl⟩
  have hnodup : (((List.range n).map fun (i : Nat) =>
      ((i : Int), axesTree cardinalities)).map (·.1)).Nodup := by
    rw [map_fst_axes]
    exact nodup_cast List.nodup_range
  rw [axesTree, ChoiceTree.mass_ofList_some hnodup hmem (by rw [h, Int.toNat_of_nonneg hnonneg]),
    List.length_map, List.length_range]

omit [CharZero K] in
/-- A value outside of an axis is asked for. -/
theorem mass_axis_absent {q : PathQuery Int} {value : Int} (h : q 0 = some value)
    (hout : value < 0 ∨ (n : Int) ≤ value) : (axesTree (n :: cardinalities)).mass q = (0 : K) := by
  refine ChoiceTree.mass_ofList_absent h fun hmem => ?_
  rw [map_fst_axes] at hmem
  obtain ⟨i, hi, heq⟩ := List.mem_map.1 hmem
  have hlt := List.mem_range.1 hi
  omega

end Masses

end Gammaboard.Utils.Domain
