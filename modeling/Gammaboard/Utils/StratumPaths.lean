import Gammaboard.Utils.Domain
import Mathlib.Data.List.Basic
import Mathlib.Data.List.Forall2
import Mathlib.Data.List.Lex
import Mathlib.Data.List.Pairwise
import Mathlib.Tactic.Common

/-!
# Stratum prefixes

No stratum prefix of a valid domain continues another, and they come in the
order of the labels: any two of them first differ where the earlier one has the
smaller label. `completePaths` lists the discrete paths to the leaves.
-/

namespace Gammaboard.Utils.Domain

/-- The paths first differ where the left one has the smaller label. -/
inductive Precedes : List Int → List Int → Prop where
  | head {x y : Int} {r s : List Int} (h : x < y) : Precedes (x :: r) (y :: s)
  | tail {x : Int} {r s : List Int} (h : Precedes r s) : Precedes (x :: r) (x :: s)

namespace Precedes

variable {a b : List Int}

theorem append_left (p : List Int) (h : Precedes a b) : Precedes (p ++ a) (p ++ b) := by
  induction p with
  | nil => exact h
  | cons x p ih => exact .tail ih

theorem lt (h : Precedes a b) : a < b := by
  induction h with
  | head h => exact List.cons_lt_cons_iff.2 (.inl h)
  | tail _ ih => exact List.cons_lt_cons_iff.2 (.inr ⟨rfl, ih⟩)

theorem not_isPrefixOf (h : Precedes a b) : ¬ a <+: b := by
  induction h with
  | head h =>
    intro hp
    have := (List.cons_prefix_cons.1 hp).1
    omega
  | tail _ ih => exact fun hp => ih (List.cons_prefix_cons.1 hp).2

theorem not_isPrefixOf' (h : Precedes a b) : ¬ b <+: a := by
  induction h with
  | head h =>
    intro hp
    have := (List.cons_prefix_cons.1 hp).1
    omega
  | tail _ ih => exact fun hp => ih (List.cons_prefix_cons.1 hp).2

end Precedes

/-! ## Strata -/

theorem foldl_append_eq {α β : Type} (f : α → List β) (l : List α) (out : List β) :
    l.foldl (fun out a => out ++ f a) out = out ++ l.flatMap f := by
  induction l generalizing out with
  | nil => simp
  | cons a l ih => rw [List.foldl_cons, ih, List.flatMap_cons, List.append_assoc]

theorem product_eq (dims : List Nat) (path : List Int) (out : List (List Int)) :
    product dims path out = out ++ (product dims [] []).map (path ++ ·) := by
  induction dims generalizing path out with
  | nil => simp [product]
  | cons n dims ih =>
    have hloop : ∀ (path : List Int) (out : List (List Int)),
        product (n :: dims) path out = out ++ (List.range n).flatMap fun (i : Nat) =>
          (product dims [] []).map fun tail => path ++ (i : Int) :: tail := by
      intro path out
      rw [← foldl_append_eq, product]
      congr
      funext out (i : Nat)
      rw [ih]
      simp
    rw [hloop, hloop]
    simp [List.map_flatMap, Function.comp_def]

theorem product_cons (n : Nat) (dims : List Nat) :
    product (n :: dims) [] [] = (List.range n).flatMap fun (i : Nat) =>
      (product dims [] []).map ((i : Int) :: ·) := by
  rw [← List.nil_append (List.flatMap _ _), ← foldl_append_eq, product]
  congr
  funext out (i : Nat)
  rw [product_eq]
  simp

mutual

theorem prefixesBelow_eq : ∀ (d : Domain) (path : List Int) (out : List (List Int)),
    d.prefixesBelow path out = out ++ (d.prefixesBelow [] []).map (path ++ ·)
  | .rectangular strataDims discreteCardinalities _, path, out => by
    rw [prefixesBelow, prefixesBelow, product_eq]
  | .discrete _ .integrand _, path, out => by
    rw [prefixesBelow, prefixesBelow]
    simp
  | .discrete _ .stratum branches, path, out => by
    rw [prefixesBelow, prefixesBelow, prefixesOfBranches_eq]

theorem prefixesOfBranches_eq : ∀ (branches : List (Nat × Domain)) (path : List Int)
    (out : List (List Int)), prefixesOfBranches branches path out =
      out ++ (prefixesOfBranches branches [] []).map (path ++ ·)
  | [], path, out => by simp [prefixesOfBranches]
  | (index, domain) :: branches, path, out => by
    rw [prefixesOfBranches, prefixesOfBranches_eq branches, prefixesBelow_eq domain,
      prefixesOfBranches, prefixesOfBranches_eq branches [] (domain.prefixesBelow _ _),
      prefixesBelow_eq domain ([] ++ _)]
    simp [Function.comp_def]

end

theorem prefixesOfBranches_cons (index : Nat) (domain : Domain) (branches : List (Nat × Domain)) :
    prefixesOfBranches ((index, domain) :: branches) [] [] =
      (domain.prefixesBelow [] []).map ((index : Int) :: ·) ++ prefixesOfBranches branches [] [] := by
  rw [prefixesOfBranches, prefixesOfBranches_eq, prefixesBelow_eq]
  simp

/-- The paths of a product differ first where the earlier one is smaller. -/
theorem product_pairwise (dims : List Nat) : (product dims [] []).Pairwise Precedes := by
  induction dims with
  | nil => simp [product]
  | cons n dims ih =>
    rw [product_cons]
    refine List.pairwise_flatMap.2 ⟨fun i _ => ?_, ?_⟩
    · exact ih.map _ fun _ _ h => .tail h
    · refine List.pairwise_lt_range.imp fun {i j} hij a ha b hb => ?_
      obtain ⟨r, -, rfl⟩ := List.mem_map.1 ha
      obtain ⟨s, -, rfl⟩ := List.mem_map.1 hb
      exact .head (by omega)

theorem pairwise_of_hasDescent {labels : List Nat} (h : hasDescent labels = false) :
    labels.Pairwise (· < ·) := by
  induction labels with
  | nil => exact .nil
  | cons a labels ih =>
    cases labels with
    | nil => exact List.pairwise_singleton _ _
    | cons b labels =>
      simp only [hasDescent, List.tail_cons, List.zip_cons_cons, List.any_cons,
        Bool.or_eq_false_iff, decide_eq_false_iff_not, Nat.not_le] at h
      have hrest := ih h.2
      refine List.pairwise_cons.2 ⟨fun c hc => ?_, hrest⟩
      obtain rfl | hc := List.mem_cons.1 hc
      · exact h.1
      · exact Nat.lt_trans h.1 ((List.pairwise_cons.1 hrest).1 c hc)

/-- A prefix of the branches starts with one of their labels. -/
theorem mem_prefixesOfBranches {branches : List (Nat × Domain)} {path : List Int}
    (h : path ∈ prefixesOfBranches branches [] []) :
    ∃ index : Nat, index ∈ branches.map (·.1) ∧ ∃ tail, path = (index : Int) :: tail := by
  induction branches with
  | nil => simp [prefixesOfBranches] at h
  | cons branch branches ih =>
    rw [prefixesOfBranches_cons] at h
    obtain h | h := List.mem_append.1 h
    · obtain ⟨tail, -, rfl⟩ := List.mem_map.1 h
      exact ⟨branch.1, List.mem_cons_self, tail, rfl⟩
    · obtain ⟨index, hindex, tail, rfl⟩ := ih h
      exact ⟨index, List.mem_cons_of_mem _ hindex, tail, rfl⟩

mutual

theorem prefixesBelow_pairwise : ∀ (d : Domain) {seen : Bool}, d.validateFrom seen = .ok () →
    (d.prefixesBelow [] []).Pairwise Precedes
  | .rectangular strataDims discreteCardinalities _, _, _ => by
    rw [prefixesBelow]
    exact product_pairwise _
  | .discrete _ .integrand _, _, _ => by
    rw [prefixesBelow]
    exact List.pairwise_singleton _ _
  | .discrete _ .stratum branches, seen, h => by
    unfold validateFrom at h
    dsimp only at h
    split at h
    · cases h
    · rename_i hlabels
      split at h
      · cases h
      · simp only [Bool.or_eq_true, not_or, Bool.not_eq_true] at hlabels
        rw [prefixesBelow]
        exact prefixesOfBranches_pairwise branches (pairwise_of_hasDescent hlabels.2) h

theorem prefixesOfBranches_pairwise : ∀ (branches : List (Nat × Domain)) {seen : Bool},
    (branches.map (·.1)).Pairwise (· < ·) → validateBranches branches seen = .ok () →
      (prefixesOfBranches branches [] []).Pairwise Precedes
  | [], _, _, _ => by
    rw [prefixesOfBranches]
    exact .nil
  | (index, domain) :: branches, seen, hlabels, h => by
    unfold validateBranches at h
    obtain ⟨hfirst, hrest⟩ := List.pairwise_cons.1 hlabels
    cases hdomain : domain.validateFrom seen with
    | error e =>
      rw [hdomain] at h
      cases h
    | ok u =>
      rw [hdomain] at h
      have ihd : (domain.prefixesBelow [] []).Pairwise Precedes :=
        prefixesBelow_pairwise domain hdomain
      have ihb := prefixesOfBranches_pairwise branches hrest h
      rw [prefixesOfBranches_cons]
      refine List.pairwise_append.2 ⟨ihd.map _ fun _ _ h => .tail h, ihb, fun a ha b hb => ?_⟩
      obtain ⟨r, -, rfl⟩ := List.mem_map.1 ha
      obtain ⟨label, hlabel, s, rfl⟩ := mem_prefixesOfBranches hb
      have hlt : index < label := hfirst label hlabel
      exact .head (by omega)

end

/-- The stratum prefixes of a valid domain. -/
theorem stratumPrefixes_pairwise {d : Domain} {prefixes : List (List Int)}
    (h : d.stratumPrefixes = .ok prefixes) : prefixes.Pairwise Precedes := by
  unfold stratumPrefixes validate at h
  cases hd : d.validateFrom false with
  | error e =>
    rw [hd] at h
    cases h
  | ok u =>
    rw [hd] at h
    cases h
    exact prefixesBelow_pairwise d hd

theorem product_nonneg {dims : List Nat} {path : List Int} (h : path ∈ product dims [] []) :
    ∀ v ∈ path, 0 ≤ v := by
  induction dims generalizing path with
  | nil => simp_all [product]
  | cons n dims ih =>
    rw [product_cons, List.mem_flatMap] at h
    obtain ⟨i, -, h⟩ := h
    obtain ⟨tail, htail, rfl⟩ := List.mem_map.1 h
    exact List.forall_mem_cons.2 ⟨by omega, ih htail⟩

mutual

theorem prefixesBelow_nonneg : ∀ (d : Domain) {path : List Int}, path ∈ d.prefixesBelow [] [] →
    ∀ v ∈ path, 0 ≤ v
  | .rectangular _ _ _, path, h => by
    rw [prefixesBelow] at h
    exact product_nonneg h
  | .discrete _ .integrand _, path, h => by
    rw [prefixesBelow] at h
    simp_all
  | .discrete _ .stratum branches, path, h => by
    rw [prefixesBelow] at h
    exact prefixesOfBranches_nonneg branches h

theorem prefixesOfBranches_nonneg : ∀ (branches : List (Nat × Domain)) {path : List Int},
    path ∈ prefixesOfBranches branches [] [] → ∀ v ∈ path, 0 ≤ v
  | [], path, h => by
    rw [prefixesOfBranches] at h
    cases h
  | (index, domain) :: branches, path, h => by
    rw [prefixesOfBranches_cons] at h
    obtain h | h := List.mem_append.1 h
    · obtain ⟨tail, htail, rfl⟩ := List.mem_map.1 h
      exact List.forall_mem_cons.2 ⟨by omega, prefixesBelow_nonneg domain htail⟩
    · exact prefixesOfBranches_nonneg branches h

end

theorem stratumPrefixes_nonneg {d : Domain} {prefixes : List (List Int)}
    (h : d.stratumPrefixes = .ok prefixes) : ∀ path ∈ prefixes, ∀ v ∈ path, 0 ≤ v := by
  unfold stratumPrefixes at h
  cases hd : d.validate with
  | error e =>
    rw [hd] at h
    cases h
  | ok u =>
    rw [hd] at h
    cases h
    exact fun path hpath => prefixesBelow_nonneg d hpath

/-- A domain below which an integrand fits has no empty stratum prefix. -/
theorem withIntegrand_nonempty {d integrand both : Domain} {prefixes : List (List Int)}
    (h : d.withIntegrand integrand = .ok both) (hprefixes : d.stratumPrefixes = .ok prefixes) :
    ∀ path ∈ prefixes, path ≠ [] := by
  unfold withIntegrand at h
  cases hbelow : integrand.stratumPrefixes with
  | error e =>
    rw [hbelow] at h
    cases h
  | ok below =>
    rw [hbelow, hprefixes] at h
    simp only [bind, Except.bind] at h
    split at h
    · cases h
    · split at h
      · cases h
      · rename_i hempty
        intro path hpath hnil
        exact hempty (List.any_eq_true.2 ⟨path, hpath, by rw [hnil]; rfl⟩)

/-! ## Complete paths -/

/-- A label below those of all branches selects none. -/
theorem dimsAtBranch_of_lt {branches : List (Nat × Domain)} {label n : Nat} {tail : List Int}
    (h : ∀ index ∈ branches.map (·.1), label < index) :
    dimsAtBranch branches label tail ≠ .ok n := by
  induction branches with
  | nil => simp [dimsAtBranch]
  | cons branch branches ih =>
    have hlt := h branch.1 List.mem_cons_self
    rw [dimsAtBranch, if_neg (by omega)]
    exact ih fun index hindex => h index (List.mem_cons_of_mem _ hindex)

mutual

/-- The discrete paths that reach a leaf. -/
def completePaths : Domain → List (List Int)
  | .rectangular _ discreteCardinalities _ => product discreteCardinalities [] []
  | .discrete _ _ branches => pathsOfBranches branches

def pathsOfBranches : List (Nat × Domain) → List (List Int)
  | [] => []
  | (index, domain) :: branches =>
    domain.completePaths.map ((index : Int) :: ·) ++ pathsOfBranches branches

end

mutual

/-- Every leaf has no continuous coordinates. -/
def isFinite : Domain → Bool
  | .rectangular _ _ continuousDims => continuousDims == 0
  | .discrete _ _ branches => branchesFinite branches

def branchesFinite : List (Nat × Domain) → Bool
  | [] => true
  | (_, domain) :: branches => domain.isFinite && branchesFinite branches

end

theorem mem_product {dims : List Nat} {path : List Int} :
    path ∈ product dims [] [] ↔
      List.Forall₂ (fun (branch : Int) (n : Nat) => 0 ≤ branch ∧ branch < n) path dims := by
  induction dims generalizing path with
  | nil => simp [product, List.forall₂_nil_right_iff]
  | cons n dims ih =>
    rw [product_cons, List.mem_flatMap]
    constructor
    · rintro ⟨i, hi, hpath⟩
      obtain ⟨tail, htail, rfl⟩ := List.mem_map.1 hpath
      have hlt := List.mem_range.1 hi
      exact .cons ⟨by omega, by omega⟩ (ih.1 htail)
    · intro h
      cases h with
      | @cons branch _ tail _ hbranch htail =>
        refine ⟨branch.toNat, List.mem_range.2 (by omega), List.mem_map.2 ⟨tail, ih.2 htail, ?_⟩⟩
        rw [Int.toNat_of_nonneg hbranch.1]

theorem checkCoordinates_iff (axis : Nat) (path : List Int) (cardinalities : List Nat)
    (hlen : path.length = cardinalities.length) :
    checkCoordinates axis path cardinalities = .ok () ↔
      List.Forall₂ (fun (branch : Int) (n : Nat) => 0 ≤ branch ∧ branch < n) path cardinalities := by
  induction path generalizing axis cardinalities with
  | nil =>
    obtain rfl : cardinalities = [] := List.length_eq_zero_iff.1 hlen.symm
    simp [checkCoordinates]
  | cons branch path ih =>
    cases cardinalities with
    | nil => cases hlen
    | cons n cardinalities =>
      rw [checkCoordinates, List.forall₂_cons]
      split
      · rename_i h
        simp only [reduceCtorEq, false_iff]
        omega
      · split
        · rename_i h
          simp only [reduceCtorEq, false_iff]
          omega
        · rw [ih _ _ (by simpa using hlen)]
          refine (and_iff_right ?_).symm
          omega

theorem rectangularDimsAt_iff {cardinalities : List Nat} {dims n : Nat} {path : List Int}
    (hlen : path.length = cardinalities.length) :
    rectangularDimsAt cardinalities dims path = .ok n ↔
      dims = n ∧ path ∈ product cardinalities [] [] := by
  rw [mem_product, ← checkCoordinates_iff 0 path cardinalities hlen]
  unfold rectangularDimsAt
  cases path with
  | nil => simp [checkCoordinates]
  | cons branch path =>
    rw [if_neg (by simp), if_neg (by omega)]
    cases checkCoordinates 0 (branch :: path) cardinalities with
    | error e => simp [bind, Except.bind]
    | ok u => simp [bind, Except.bind, pure, Except.pure]

mutual

/-- On a finite valid domain these are the paths at which the host finds a leaf. -/
theorem mem_completePaths : ∀ (d : Domain) {seen : Bool} {path : List Int},
    d.validateFrom seen = .ok () → d.isFinite = true →
      (path ∈ d.completePaths ↔ d.continuousDimsAtLeafPath path = .ok 0)
  | .rectangular _ discreteCardinalities continuousDims, _, path, _, hfinite => by
    rw [completePaths, continuousDimsAtLeafPath]
    have hdims : continuousDims = 0 := by simpa [isFinite] using hfinite
    split
    · rename_i hlen
      simp only [reduceCtorEq, iff_false]
      intro hmem
      exact hlen (mem_product.1 hmem).length_eq
    · rename_i hlen
      rw [rectangularDimsAt_iff (not_not.1 hlen)]
      exact (and_iff_right hdims).symm
  | .discrete _ _ branches, seen, path, h, hfinite => by
    unfold validateFrom at h
    dsimp only at h
    split at h
    · cases h
    · rename_i hlabels
      split at h
      · cases h
      · simp only [Bool.or_eq_true, not_or, Bool.not_eq_true] at hlabels
        rw [isFinite] at hfinite
        rw [completePaths]
        cases path with
        | nil =>
          rw [continuousDimsAtLeafPath]
          simp only [reduceCtorEq, iff_false]
          intro hmem
          obtain ⟨index, tail, hpath, -⟩ := (mem_pathsOfBranches branches
            (pairwise_of_hasDescent hlabels.2) h hfinite).1 hmem
          cases hpath
        | cons head tail =>
          rw [continuousDimsAtLeafPath, mem_pathsOfBranches branches
            (pairwise_of_hasDescent hlabels.2) h hfinite]
          split
          · rename_i hneg
            simp only [reduceCtorEq, iff_false]
            rintro ⟨index, tail, hpath, -⟩
            cases hpath
            omega
          · rename_i hneg
            constructor
            · rintro ⟨index, tail, hpath, h⟩
              cases hpath
              exact h
            · intro h
              exact ⟨head.toNat, tail, by rw [Int.toNat_of_nonneg (by omega)], h⟩

theorem mem_pathsOfBranches : ∀ (branches : List (Nat × Domain)) {seen : Bool} {path : List Int},
    (branches.map (·.1)).Pairwise (· < ·) → validateBranches branches seen = .ok () →
      branchesFinite branches = true →
      (path ∈ pathsOfBranches branches ↔
        ∃ index : Nat, ∃ tail, path = (index : Int) :: tail ∧
          dimsAtBranch branches index tail = .ok 0)
  | [], _, path, _, _, _ => by simp [pathsOfBranches, dimsAtBranch]
  | (label, domain) :: branches, seen, path, hlabels, h, hfinite => by
    unfold validateBranches at h
    obtain ⟨hfirst, hrest⟩ := List.pairwise_cons.1 hlabels
    rw [branchesFinite, Bool.and_eq_true] at hfinite
    cases hdomain : domain.validateFrom seen with
    | error e =>
      rw [hdomain] at h
      cases h
    | ok u =>
      rw [hdomain] at h
      have ihb : path ∈ pathsOfBranches branches ↔ _ :=
        mem_pathsOfBranches branches hrest h hfinite.2
      rw [pathsOfBranches, List.mem_append, ihb, List.mem_map]
      constructor
      · rintro (⟨tail, htail, rfl⟩ | ⟨index, tail, rfl, hdims⟩)
        · refine ⟨label, tail, rfl, ?_⟩
          rw [dimsAtBranch, if_pos rfl]
          exact (mem_completePaths domain hdomain hfinite.1).1 htail
        · refine ⟨index, tail, rfl, ?_⟩
          rw [dimsAtBranch, if_neg, hdims]
          rintro rfl
          exact dimsAtBranch_of_lt hfirst hdims
      · rintro ⟨index, tail, rfl, hdims⟩
        rw [dimsAtBranch] at hdims
        split at hdims
        · rename_i hlabel
          exact .inl ⟨tail, (mem_completePaths domain hdomain hfinite.1).2 hdims, by rw [hlabel]⟩
        · exact .inr ⟨index, tail, rfl, hdims⟩

end

end Gammaboard.Utils.Domain
