import Gammaboard.Utils.StratumPaths
import Mathlib.Algebra.BigOperators.Group.List.Lemmas
import Mathlib.Algebra.Order.BigOperators.GroupWithZero.List
import Mathlib.Algebra.Order.Ring.Nat

/-!
# Strata and the integrand below them

Every path to a leaf continues exactly one stratum prefix. Below the leaves of a
tree of strata an integrand domain is appended: rectangular leaves are joined or
turned into discrete axes, and the paths to the leaves become those of the tree
continued by those of the integrand.
-/

namespace Gammaboard.Utils.Domain

/-! ## The prefix of a path -/

mutual

/-- A path to a leaf continues a stratum prefix. -/
theorem exists_prefix : ∀ (d : Domain) {path : List Int} {n : Nat},
    d.continuousDimsAtLeafPath path = .ok n → ∃ p ∈ d.prefixesBelow [] [], p <+: path
  | .rectangular strataDims discreteCardinalities continuousDims, path, n, h => by
    rw [continuousDimsAtLeafPath] at h
    split at h
    · cases h
    · rename_i hlen
      have hmem := ((rectangularDimsAt_iff (not_not.1 hlen)).1 h).2
      rw [prefixesBelow]
      exact ⟨path.take strataDims, mem_product.2 (List.forall₂_take strataDims (mem_product.1 hmem)),
        List.take_prefix _ _⟩
  | .discrete _ .integrand _, path, n, h => by
    rw [prefixesBelow]
    exact ⟨[], by simp, List.nil_prefix⟩
  | .discrete _ .stratum branches, path, n, h => by
    cases path with
    | nil =>
      rw [continuousDimsAtLeafPath] at h
      cases h
    | cons head tail =>
      rw [continuousDimsAtLeafPath] at h
      split at h
      · cases h
      · rename_i hneg
        obtain ⟨p, hp, hprefix⟩ := exists_prefix_of_branches branches h
        rw [Int.toNat_of_nonneg (by omega)] at hprefix
        rw [prefixesBelow]
        exact ⟨p, hp, hprefix⟩

theorem exists_prefix_of_branches : ∀ (branches : List (Nat × Domain)) {index : Nat}
    {tail : List Int} {n : Nat}, dimsAtBranch branches index tail = .ok n →
      ∃ p ∈ prefixesOfBranches branches [] [], p <+: (index : Int) :: tail
  | [], index, tail, n, h => by
    rw [dimsAtBranch] at h
    cases h
  | (label, domain) :: branches, index, tail, n, h => by
    rw [dimsAtBranch] at h
    rw [prefixesOfBranches_cons]
    split at h
    · rename_i hlabel
      obtain ⟨p, hp, hprefix⟩ := exists_prefix domain h
      refine ⟨(label : Int) :: p, List.mem_append_left _ (List.mem_map_of_mem hp), ?_⟩
      rw [hlabel]
      exact List.cons_prefix_cons.2 ⟨rfl, hprefix⟩
    · obtain ⟨p, hp, hprefix⟩ := exists_prefix_of_branches branches h
      exact ⟨p, List.mem_append_right _ hp, hprefix⟩

end

theorem validatePointParts_iff {d : Domain} {path : List Int} {n : Nat} :
    d.validatePointParts path n = .ok () ↔ d.continuousDimsAtLeafPath path = .ok n := by
  unfold validatePointParts
  cases d.continuousDimsAtLeafPath path with
  | error e => simp [bind, Except.bind]
  | ok m =>
    simp only [bind, Except.bind, Except.ok.injEq]
    split
    · rename_i hne
      simpa using fun h : m = n => hne h.symm
    · rename_i heq
      simpa using (not_not.1 heq).symm

theorem stratumPrefixes_eq {d : Domain} (h : d.validate = .ok ()) :
    d.stratumPrefixes = .ok (d.prefixesBelow [] []) := by
  rw [stratumPrefixes, h]
  rfl

theorem stratumPrefixes_ok {d : Domain} {prefixes : List (List Int)}
    (h : d.stratumPrefixes = .ok prefixes) :
    d.validate = .ok () ∧ prefixes = d.prefixesBelow [] [] := by
  unfold stratumPrefixes at h
  cases hd : d.validate with
  | error e =>
    rw [hd] at h
    cases h
  | ok u =>
    rw [hd] at h
    cases h
    exact ⟨rfl, rfl⟩

/-- Two prefixes of one path are the same prefix. -/
theorem eq_of_prefixes {prefixes : List (List Int)} (h : prefixes.Pairwise Precedes)
    {p q path : List Int} (hp : p ∈ prefixes) (hq : q ∈ prefixes) (hpath : p <+: path)
    (hpath' : q <+: path) : p = q := by
  by_contra hne
  have hcases := List.prefix_or_prefix_of_prefix hpath hpath'
  obtain ⟨i, hi, rfl⟩ := List.getElem_of_mem hp
  obtain ⟨j, hj, rfl⟩ := List.getElem_of_mem hq
  have hij : i ≠ j := by
    rintro rfl
    exact hne rfl
  have hpairwise := List.pairwise_iff_getElem.1 h
  obtain hlt | hlt := Nat.lt_or_gt_of_ne hij
  · have hpre := hpairwise i j hi hj hlt
    exact hcases.elim hpre.not_isPrefixOf hpre.not_isPrefixOf'
  · have hpre := hpairwise j i hj hi hlt
    exact hcases.elim hpre.not_isPrefixOf' hpre.not_isPrefixOf

theorem existsUnique_prefix {d : Domain} {prefixes : List (List Int)}
    (h : d.stratumPrefixes = .ok prefixes) {path : List Int} {n : Nat}
    (hpath : d.validatePointParts path n = .ok ()) : ∃! p, p ∈ prefixes ∧ p <+: path := by
  obtain ⟨p, hp, hprefix⟩ := exists_prefix d (validatePointParts_iff.1 hpath)
  rw [← (stratumPrefixes_ok h).2] at hp
  refine ⟨p, ⟨hp, hprefix⟩, ?_⟩
  rintro q ⟨hq, hprefix'⟩
  exact eq_of_prefixes (stratumPrefixes_pairwise h) hq hp hprefix' hprefix

theorem product_nonempty {dims : List Nat} (h : dims.contains 0 = false) :
    product dims [] [] ≠ [] := by
  induction dims with
  | nil => simp [product]
  | cons n dims ih =>
    rw [List.contains_cons, Bool.or_eq_false_iff, beq_eq_false_iff_ne] at h
    rw [product_cons]
    intro hnil
    rw [List.flatMap_eq_nil_iff] at hnil
    exact ih h.2 (List.map_eq_nil_iff.1 (hnil 0 (List.mem_range.2 (Nat.pos_of_ne_zero h.1.symm))))

mutual

/-- A valid domain has a prefix. -/
theorem prefixesBelow_ne_nil : ∀ (d : Domain) {seen : Bool}, d.validateFrom seen = .ok () →
    d.prefixesBelow [] [] ≠ []
  | .rectangular strataDims discreteCardinalities continuousDims, seen, h => by
    rw [validateFrom] at h
    split at h
    · cases h
    · rename_i hbad
      rw [Bool.not_eq_true, Bool.or_eq_false_iff] at hbad
      rw [prefixesBelow]
      refine product_nonempty ?_
      rw [← Bool.not_eq_true, List.contains_iff_mem] at hbad ⊢
      exact fun hmem => hbad.1 (List.mem_of_mem_take hmem)
  | .discrete _ .integrand _, _, _ => by
    rw [prefixesBelow]
    simp
  | .discrete _ .stratum branches, seen, h => by
    unfold validateFrom at h
    dsimp only at h
    split at h
    · cases h
    · rename_i hlabels
      split at h
      · cases h
      · simp only [Bool.or_eq_true, not_or, Bool.not_eq_true, List.isEmpty_eq_false_iff] at hlabels
        rw [prefixesBelow]
        exact prefixesOfBranches_ne_nil branches (fun hnil => hlabels.1.1 (by rw [hnil]; rfl)) h

theorem prefixesOfBranches_ne_nil : ∀ (branches : List (Nat × Domain)) {seen : Bool},
    branches ≠ [] → validateBranches branches seen = .ok () → prefixesOfBranches branches [] [] ≠ []
  | [], _, hne, _ => absurd rfl hne
  | (label, domain) :: branches, seen, _, h => by
    unfold validateBranches at h
    cases hdomain : domain.validateFrom seen with
    | error e =>
      rw [hdomain] at h
      cases h
    | ok u =>
      have ih : domain.prefixesBelow [] [] ≠ [] := prefixesBelow_ne_nil domain hdomain
      rw [prefixesOfBranches_cons]
      exact List.append_ne_nil_of_left_ne_nil (fun hnil => ih (List.map_eq_nil_iff.1 hnil)) _

end

theorem stratumPrefixes_ne_nil {d : Domain} {prefixes : List (List Int)}
    (h : d.stratumPrefixes = .ok prefixes) : prefixes ≠ [] := by
  obtain ⟨hd, rfl⟩ := stratumPrefixes_ok h
  exact prefixesBelow_ne_nil d hd

/-! ## Trees of strata -/

mutual

/-- Every axis is a stratum, and a leaf has no continuous coordinates. -/
def strataOnly : Domain → Bool
  | .rectangular strataDims discreteCardinalities continuousDims =>
    strataDims == discreteCardinalities.length && continuousDims == 0
  | .discrete _ axisRole branches => axisRole == .stratum && branchesStrataOnly branches

def branchesStrataOnly : List (Nat × Domain) → Bool
  | [] => true
  | (_, domain) :: branches => domain.strataOnly && branchesStrataOnly branches

end

mutual

/-- No axis is a stratum. -/
def unstratified : Domain → Bool
  | .rectangular strataDims _ _ => strataDims == 0
  | .discrete _ axisRole branches => axisRole == .integrand && branchesUnstratified branches

def branchesUnstratified : List (Nat × Domain) → Bool
  | [] => true
  | (_, domain) :: branches => domain.unstratified && branchesUnstratified branches

end

/-- The root is an axis. -/
def hasAxis : Domain → Bool
  | .rectangular _ discreteCardinalities _ => !discreteCardinalities.isEmpty
  | .discrete _ _ _ => true

theorem prefixesBelow_of_unstratified {d : Domain} (h : d.unstratified = true) :
    d.prefixesBelow [] [] = [[]] := by
  cases d with
  | rectangular strataDims discreteCardinalities continuousDims =>
    rw [unstratified, beq_iff_eq] at h
    rw [prefixesBelow, h]
    rfl
  | discrete axisLabel axisRole branches =>
    rw [unstratified, Bool.and_eq_true, beq_iff_eq] at h
    rw [h.1, prefixesBelow]
    rfl

theorem product_ne_nil {n : Nat} {dims : List Nat} {path : List Int}
    (h : path ∈ product (n :: dims) [] []) : path ≠ [] := by
  rintro rfl
  cases mem_product.1 h

/-- A tree of strata with an axis has no empty prefix. -/
theorem prefixes_nonempty {d : Domain} (hstrata : d.strataOnly = true) (haxis : d.hasAxis = true) :
    ∀ p ∈ d.prefixesBelow [] [], p ≠ [] := by
  intro p hp
  cases d with
  | rectangular strataDims discreteCardinalities continuousDims =>
    rw [strataOnly, Bool.and_eq_true, beq_iff_eq] at hstrata
    rw [prefixesBelow, hstrata.1, List.take_length] at hp
    cases discreteCardinalities with
    | nil => cases haxis
    | cons n dims => exact product_ne_nil hp
  | discrete axisLabel axisRole branches =>
    rw [strataOnly, Bool.and_eq_true, beq_iff_eq] at hstrata
    rw [hstrata.1, prefixesBelow] at hp
    obtain ⟨index, -, tail, rfl⟩ := mem_prefixesOfBranches hp
    exact List.cons_ne_nil _ _

/-! ## Sizes -/

theorem length_product (dims : List Nat) : (product dims [] []).length = dims.prod := by
  induction dims with
  | nil => simp [product]
  | cons n dims ih =>
    rw [product_cons, List.length_flatMap]
    simp [ih]

/-- A product of nonzero sizes is no smaller than each of them. -/
theorem le_of_product {dims : List Nat} (h : dims.contains 0 = false) {n : Nat} (hn : n ∈ dims) :
    n ≤ (product dims [] []).length := by
  rw [length_product]
  refine Nat.le_of_dvd (List.prod_pos fun m hm => Nat.pos_of_ne_zero ?_) (List.dvd_prod hn)
  rintro rfl
  simp only [List.contains_eq_mem, decide_eq_false_iff_not] at h
  exact h hm

/-! ## Continued prefixes -/

/-- The domain is valid, its stratum prefixes are those of the list, and a path to a leaf
continues one of them by a path of the integrand. -/
structure Continues (prefixes : List (List Int)) (integrand d : Domain) : Prop where
  valid : d.validateFrom false = .ok ()
  strata : d.prefixesBelow [] [] = prefixes
  paths : ∀ (path : List Int) (n : Nat), d.continuousDimsAtLeafPath path = .ok n ↔
    ∃ p ∈ prefixes, ∃ rest, path = p ++ rest ∧ integrand.continuousDimsAtLeafPath rest = .ok n

/-- The same of the branches of an axis. -/
structure BranchesContinue (prefixes : List (List Int)) (integrand : Domain)
    (branches : List (Nat × Domain)) : Prop where
  valid : validateBranches branches false = .ok ()
  strata : prefixesOfBranches branches [] [] = prefixes
  paths : ∀ (index : Nat) (tail : List Int) (n : Nat), dimsAtBranch branches index tail = .ok n ↔
    ∃ p ∈ prefixes, ∃ rest, (index : Int) :: tail = p ++ rest ∧
      integrand.continuousDimsAtLeafPath rest = .ok n

variable {integrand d : Domain} {prefixes : List (List Int)} {branches : List (Nat × Domain)}

theorem BranchesContinue.nil : BranchesContinue [] integrand [] where
  valid := rfl
  strata := rfl
  paths := by simp [dimsAtBranch]

theorem BranchesContinue.cons {own : List (List Int)} (h : BranchesContinue prefixes integrand branches)
    (hd : Continues own integrand d) {label : Nat} (hlabel : ∀ b ∈ branches, label < b.1) :
    BranchesContinue (own.map ((label : Int) :: ·) ++ prefixes) integrand ((label, d) :: branches) where
  valid := by
    rw [validateBranches, hd.valid]
    exact h.valid
  strata := by rw [prefixesOfBranches_cons, hd.strata, h.strata]
  paths := by
    intro index tail n
    rw [dimsAtBranch]
    split
    · rename_i heq
      subst heq
      rw [hd.paths]
      constructor
      · rintro ⟨p, hp, rest, rfl, hrest⟩
        exact ⟨_, List.mem_append_left _ (List.mem_map_of_mem hp), rest, rfl, hrest⟩
      · rintro ⟨p, hp, rest, hpath, hrest⟩
        obtain hp | hp := List.mem_append.1 hp
        · obtain ⟨q, hq, rfl⟩ := List.mem_map.1 hp
          rw [List.cons_append, List.cons.injEq] at hpath
          exact ⟨q, hq, rest, hpath.2, hrest⟩
        · -- the prefixes of the branches start with larger labels
          rw [← h.strata] at hp
          obtain ⟨other, hother, q, rfl⟩ := mem_prefixesOfBranches hp
          obtain ⟨b, hb, rfl⟩ := List.mem_map.1 hother
          have hlt := hlabel b hb
          rw [List.cons_append, List.cons.injEq] at hpath
          omega
    · rename_i hne
      rw [h.paths]
      constructor
      · rintro ⟨p, hp, rest, hpath, hrest⟩
        exact ⟨p, List.mem_append_right _ hp, rest, hpath, hrest⟩
      · rintro ⟨p, hp, rest, hpath, hrest⟩
        obtain hp | hp := List.mem_append.1 hp
        · obtain ⟨q, hq, rfl⟩ := List.mem_map.1 hp
          rw [List.cons_append, List.cons.injEq] at hpath
          exact absurd hpath.1 (by omega)
        · exact ⟨p, hp, rest, hpath, hrest⟩

theorem hasDescent_of_pairwise {labels : List Nat} (h : labels.Pairwise (· < ·)) :
    hasDescent labels = false := by
  induction labels with
  | nil => rfl
  | cons a labels ih =>
    cases labels with
    | nil => rfl
    | cons b labels =>
      obtain ⟨hfirst, hrest⟩ := List.pairwise_cons.1 h
      have hlt := hfirst b List.mem_cons_self
      have hrest' := ih hrest
      unfold hasDescent at hrest' ⊢
      rw [List.tail_cons, List.zip_cons_cons, List.any_cons, decide_eq_false (by omega),
        Bool.false_or]
      exact hrest'

/-- An axis of strata above branches. -/
theorem BranchesContinue.discrete (h : BranchesContinue prefixes integrand branches)
    (hne : branches ≠ []) (hfits : ∀ b ∈ branches, b.1 ≤ i64Max)
    (hlabels : (branches.map (·.1)).Pairwise (· < ·)) (axisLabel : Option String) :
    Continues prefixes integrand (.discrete axisLabel .stratum branches) where
  valid := by
    have hbad : ((branches.map (·.1)).isEmpty ||
        (branches.map (·.1)).any (fun index => i64Max < index) ||
          hasDescent (branches.map (·.1))) = false := by
      rw [hasDescent_of_pairwise hlabels, Bool.or_false, Bool.or_eq_false_iff]
      constructor
      · simpa using hne
      · rw [List.any_eq_false]
        intro index hindex
        obtain ⟨b, hb, rfl⟩ := List.mem_map.1 hindex
        simpa using hfits b hb
    unfold validateFrom
    dsimp only
    rw [hbad]
    exact h.valid
  strata := by
    rw [prefixesBelow]
    exact h.strata
  paths := by
    intro path n
    have hstart : ∀ p ∈ prefixes, ∃ (index : Nat) (q : List Int), p = (index : Int) :: q := by
      intro p hp
      rw [← h.strata] at hp
      obtain ⟨index, -, q, rfl⟩ := mem_prefixesOfBranches hp
      exact ⟨index, q, rfl⟩
    cases path with
    | nil =>
      rw [continuousDimsAtLeafPath]
      simp only [reduceCtorEq, false_iff]
      rintro ⟨p, hp, rest, hpath, -⟩
      obtain ⟨index, q, rfl⟩ := hstart p hp
      cases hpath
    | cons head tail =>
      rw [continuousDimsAtLeafPath]
      split
      · rename_i hneg
        simp only [reduceCtorEq, false_iff]
        rintro ⟨p, hp, rest, hpath, -⟩
        obtain ⟨index, q, rfl⟩ := hstart p hp
        rw [List.cons_append, List.cons.injEq] at hpath
        omega
      · rename_i hneg
        rw [h.paths, Int.toNat_of_nonneg (by omega)]

/-- Equal branches. -/
theorem branchesContinue_const (hd : Continues prefixes integrand d) {labels : List Nat}
    (hlabels : labels.Pairwise (· < ·)) :
    BranchesContinue (labels.flatMap fun (i : Nat) => prefixes.map ((i : Int) :: ·)) integrand
      (labels.map fun i => (i, d)) := by
  induction labels with
  | nil => exact .nil
  | cons label labels ih =>
    obtain ⟨hfirst, hrest⟩ := List.pairwise_cons.1 hlabels
    rw [List.flatMap_cons, List.map_cons]
    refine (ih hrest).cons hd fun b hb => ?_
    obtain ⟨i, hi, rfl⟩ := List.mem_map.1 hb
    exact hfirst i hi

/-! ## The appended integrand -/

theorem continues_self (hvalid : integrand.validate = .ok ())
    (hunstratified : integrand.unstratified = true) : Continues [[]] integrand integrand where
  valid := hvalid
  strata := prefixesBelow_of_unstratified hunstratified
  paths := by simp

/-- A stratum axis for each size, above the integrand. -/
theorem continues_axes (hvalid : integrand.validate = .ok ())
    (hunstratified : integrand.unstratified = true) {dims : List Nat}
    (hpos : dims.contains 0 = false) (hfits : ∀ n ∈ dims, n ≤ 2 ^ 63) :
    Continues (product dims [] []) integrand (dims.foldr
      (fun n result => .discrete none .stratum ((List.range n).map fun i => (i, result)))
      integrand) := by
  induction dims with
  | nil => exact continues_self hvalid hunstratified
  | cons n dims ih =>
    rw [List.contains_cons, Bool.or_eq_false_iff] at hpos
    obtain ⟨hn, hrest⟩ := List.forall_mem_cons.1 hfits
    rw [product_cons, List.foldr_cons]
    have hne : n ≠ 0 := by
      rintro rfl
      simp at hpos
    refine (branchesContinue_const (ih hpos.2 hrest) List.pairwise_lt_range).discrete ?_ ?_ ?_ none
    · simpa using hne
    · intro b hb
      obtain ⟨i, hi, rfl⟩ := List.mem_map.1 hb
      have hlt := List.mem_range.1 hi
      unfold i64Max
      dsimp only
      omega
    · rw [List.map_map]
      exact (List.map_id _).symm ▸ List.pairwise_lt_range

/-- A rectangle below a rectangle of strata. -/
theorem continues_rectangular {dims tail : List Nat} {continuousDims : Nat}
    (hvalid : (rectangular 0 tail continuousDims).validate = .ok ())
    (hpos : dims.contains 0 = false) :
    Continues (product dims [] []) (.rectangular 0 tail continuousDims)
      (.rectangular dims.length (dims ++ tail) continuousDims) where
  valid := by
    have htail : tail.contains 0 = false := by
      rw [validate, validateFrom] at hvalid
      split at hvalid
      · cases hvalid
      · rename_i hbad
        rw [Bool.not_eq_true, Bool.or_eq_false_iff] at hbad
        exact hbad.1
    rw [validateFrom, List.contains_append, hpos, htail]
    simp
  strata := by rw [prefixesBelow, List.take_left]
  paths := by
    intro path n
    have hleaf : ∀ (s : Nat) (sizes : List Nat) (path : List Int),
        (rectangular s sizes continuousDims).continuousDimsAtLeafPath path = .ok n ↔
          continuousDims = n ∧ path ∈ product sizes [] [] := by
      intro s sizes path
      rw [continuousDimsAtLeafPath]
      split
      · rename_i hlen
        simp only [reduceCtorEq, false_iff, not_and]
        exact fun _ hmem => hlen (mem_product.1 hmem).length_eq
      · rename_i hlen
        exact rectangularDimsAt_iff (not_not.1 hlen)
    simp only [hleaf]
    constructor
    · rintro ⟨hdims, hmem⟩
      have hforall := mem_product.1 hmem
      refine ⟨path.take dims.length, mem_product.2 ?_, path.drop dims.length,
        (List.take_append_drop _ _).symm, hdims, mem_product.2 ?_⟩
      · simpa using List.forall₂_take dims.length hforall
      · simpa using List.forall₂_drop dims.length hforall
    · rintro ⟨p, hp, rest, rfl, hdims, hrest⟩
      exact ⟨hdims, mem_product.2 (List.rel_append (mem_product.1 hp) (mem_product.1 hrest))⟩

mutual

/-- An integrand appended below a tree of strata. -/
theorem continues_append (hvalid : integrand.validate = .ok ())
    (hunstratified : integrand.unstratified = true) : ∀ (d : Domain), d.strataOnly = true →
      d.validateFrom false = .ok () → (d.prefixesBelow [] []).length ≤ 2 ^ 63 →
      ∃ both, d.append integrand = .ok both ∧ Continues (d.prefixesBelow [] []) integrand both
  | .rectangular strataDims discreteCardinalities continuousDims, hstrata, h, hlen => by
    rw [strataOnly, Bool.and_eq_true, beq_iff_eq, beq_iff_eq] at hstrata
    obtain ⟨rfl, rfl⟩ := hstrata
    rw [prefixesBelow, List.take_length] at hlen ⊢
    have hpos : discreteCardinalities.contains 0 = false := by
      rw [validateFrom] at h
      split at h
      · cases h
      · rename_i hbad
        rw [Bool.not_eq_true, Bool.or_eq_false_iff] at hbad
        exact hbad.1
    unfold append
    rw [if_pos ⟨rfl, rfl⟩]
    cases integrand with
    | rectangular strataDims tail dims =>
      refine ⟨_, rfl, ?_⟩
      rw [unstratified, beq_iff_eq] at hunstratified
      subst hunstratified
      exact continues_rectangular hvalid hpos
    | discrete axisLabel axisRole branches =>
      exact ⟨_, rfl, continues_axes hvalid hunstratified hpos fun n hn =>
        (le_of_product hpos hn).trans hlen⟩
  | .discrete axisLabel axisRole branches, hstrata, h, hlen => by
    rw [strataOnly, Bool.and_eq_true, beq_iff_eq] at hstrata
    obtain ⟨rfl, hstrata⟩ := hstrata
    unfold validateFrom at h
    dsimp only at h
    split at h
    · cases h
    · rename_i hlabels
      split at h
      · cases h
      · simp only [Bool.or_eq_true, not_or, Bool.not_eq_true, List.isEmpty_eq_false_iff,
          List.any_eq_false, decide_eq_true_eq, Nat.not_lt] at hlabels
        obtain ⟨⟨hne, hfits⟩, hdescent⟩ := hlabels
        have hpairwise := pairwise_of_hasDescent hdescent
        rw [prefixesBelow] at hlen ⊢
        obtain ⟨below, hbelow, hkeys, hcontinue⟩ :=
          continues_appendBranches hvalid hunstratified branches hstrata h hpairwise hlen
        refine ⟨.discrete axisLabel .stratum below, ?_, ?_⟩
        · rw [append, hbelow]
          rfl
        · refine hcontinue.discrete ?_ ?_ ?_ axisLabel
          · rintro rfl
            exact hne hkeys.symm
          · intro b hb
            exact hfits b.1 (hkeys ▸ List.mem_map_of_mem hb)
          · rwa [hkeys]

theorem continues_appendBranches (hvalid : integrand.validate = .ok ())
    (hunstratified : integrand.unstratified = true) : ∀ (branches : List (Nat × Domain)),
      branchesStrataOnly branches = true → validateBranches branches false = .ok () →
      (branches.map (·.1)).Pairwise (· < ·) →
      (prefixesOfBranches branches [] []).length ≤ 2 ^ 63 →
      ∃ below, appendBranches branches integrand = .ok below ∧
        below.map (·.1) = branches.map (·.1) ∧
        BranchesContinue (prefixesOfBranches branches [] []) integrand below
  | [], _, _, _, _ => ⟨[], rfl, rfl, .nil⟩
  | (label, domain) :: branches, hstrata, h, hlabels, hlen => by
    rw [branchesStrataOnly, Bool.and_eq_true] at hstrata
    unfold validateBranches at h
    rw [prefixesOfBranches_cons, List.length_append, List.length_map] at hlen
    rw [prefixesOfBranches_cons]
    obtain ⟨hfirst, hrest⟩ := List.pairwise_cons.1 hlabels
    cases hdomain : domain.validateFrom false with
    | error e =>
      rw [hdomain] at h
      cases h
    | ok u =>
      rw [hdomain] at h
      obtain ⟨d, hd, hcontinue⟩ :=
        continues_append hvalid hunstratified domain hstrata.1 hdomain (by omega)
      obtain ⟨below, hbelow, hkeys, hbranches⟩ :=
        continues_appendBranches hvalid hunstratified branches hstrata.2 h hrest (by omega)
      refine ⟨(label, d) :: below, ?_, ?_, hbranches.cons hcontinue fun b hb => ?_⟩
      · rw [appendBranches, hd, hbelow]
        rfl
      · rw [List.map_cons, List.map_cons, hkeys]
      · exact hfirst b.1 (hkeys ▸ List.mem_map_of_mem hb)

end

/-- `with_integrand` of a tree of strata. The prefixes are a `Vec`, which holds fewer than 2^63
elements. -/
theorem withIntegrand_continues {d : Domain} (hd : d.validate = .ok ()) (hstrata : d.strataOnly = true)
    (haxis : d.hasAxis = true) (hlen : (d.prefixesBelow [] []).length ≤ 2 ^ 63)
    (hvalid : integrand.validate = .ok ()) (hunstratified : integrand.unstratified = true) :
    ∃ both, d.withIntegrand integrand = .ok both ∧
      Continues (d.prefixesBelow [] []) integrand both := by
  obtain ⟨both, happend, hcontinue⟩ := continues_append hvalid hunstratified d hstrata hd hlen
  refine ⟨both, ?_, hcontinue⟩
  have hnonempty : (d.prefixesBelow [] []).any (·.isEmpty) = false := by
    rw [List.any_eq_false]
    intro p hp
    simpa using prefixes_nonempty hstrata haxis p hp
  rw [withIntegrand, stratumPrefixes_eq hvalid, prefixesBelow_of_unstratified hunstratified,
    stratumPrefixes_eq hd]
  simp only [bind, Except.bind, ne_eq, not_true_eq_false, if_false, hnonempty]
  exact happend

end Gammaboard.Utils.Domain
