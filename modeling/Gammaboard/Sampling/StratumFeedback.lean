import Gammaboard.Sampling.Generation
import Gammaboard.Utils.IntegrandDomain

/-!
# Feedback over the strata of a domain

The stratum prefixes of a valid domain are what the metadata of a feedback has to
be, except where the domain has no stratum: its one prefix is empty then, and a
feedback has no strata.
-/

namespace Gammaboard.Sampling

open Gammaboard.Core Gammaboard.Utils

variable {V : Type} {finite : V → Bool} {d : Utils.Domain} {prefixes : List (List Int)}

namespace Feedback

theorem badNeighbours_of_pairwise (h : prefixes.Pairwise Utils.Domain.Precedes) :
    badNeighbours prefixes = false := by
  induction prefixes with
  | nil => rfl
  | cons a prefixes ih =>
    cases prefixes with
    | nil => rfl
    | cons b prefixes =>
      obtain ⟨hab, hrest⟩ := List.pairwise_cons.1 h
      have hpre := hab b List.mem_cons_self
      rw [badNeighbours, ih hrest, Bool.or_false, Bool.or_eq_false_iff, decide_eq_false_iff_not,
        ← Bool.not_eq_true, List.isPrefixOf_iff_prefix]
      exact ⟨not_le.2 hpre.lt, hpre.not_isPrefixOf⟩

/-- Labels of nonempty stratum prefixes. -/
theorem badStrata_of_prefixes (h : d.stratumPrefixes = .ok prefixes)
    (hnonempty : ∀ path ∈ prefixes, path ≠ []) {requested actual : List Nat} {len : Nat}
    (hrequested : requested.length = len) (hactual : actual.length = len)
    (hlabels : ∀ k ∈ requested ++ actual, k < prefixes.length) (hne : prefixes ≠ []) :
    badStrata len ⟨prefixes, requested, actual⟩ = false := by
  have hnonneg := Utils.Domain.stratumPrefixes_nonneg h
  have hany : prefixes.any (fun p => p.isEmpty || p.any (· < 0)) = false := by
    rw [List.any_eq_false]
    intro path hpath
    rw [Bool.or_eq_true, not_or, List.isEmpty_iff, List.any_eq_true]
    refine ⟨hnonempty path hpath, ?_⟩
    rintro ⟨v, hv, hneg⟩
    have := hnonneg path hpath v hv
    simp only [decide_eq_true_eq] at hneg
    omega
  have hbound : (requested ++ actual).any (fun k => decide (prefixes.length ≤ k)) = false := by
    rw [List.any_eq_false]
    intro k hk
    have := hlabels k hk
    simp only [decide_eq_true_eq]
    omega
  have hempty : prefixes.isEmpty = false := List.isEmpty_eq_false_iff.2 hne
  unfold badStrata
  dsimp only
  rw [badNeighbours_of_pairwise (Utils.Domain.stratumPrefixes_pairwise h), hany, hempty, hrequested,
    hactual, hbound]
  simp

end Feedback

/-- A domain with a stratum has no empty prefix: every other one would continue it. -/
theorem nonempty_of_strata (h : prefixes.Pairwise Utils.Domain.Precedes) (hstrata : prefixes ≠ [[]]) :
    ∀ path ∈ prefixes, path ≠ [] := by
  rintro path hpath rfl
  have hall : ∀ p ∈ prefixes, p = [] := fun p hp =>
    Utils.Domain.eq_of_prefixes h hp hpath (List.prefix_refl p) List.nil_prefix
  cases prefixes with
  | nil => cases hpath
  | cons a rest =>
    cases rest with
    | nil => exact hstrata (congrArg (fun p => [p]) (hall a List.mem_cons_self))
    | cons b rest =>
      have hab := (List.pairwise_cons.1 h).1 b List.mem_cons_self
      rw [hall a List.mem_cons_self] at hab
      cases hab

/-- The stratum prefixes of a valid domain increase, none continues another, each path of a valid
point continues exactly one of them, and where the domain has a stratum their labels are accepted in
a feedback. -/
theorem stratumPrefixes_partition (h : d.validate = .ok ()) :
    ∃ prefixes, d.stratumPrefixes = .ok prefixes ∧ prefixes.Pairwise (· < ·) ∧
      prefixes.Pairwise (fun p q => ¬p <+: q ∧ ¬q <+: p) ∧
      (∀ (path : List Int) (n : Nat), d.validatePointParts path n = .ok () →
        ∃! p, p ∈ prefixes ∧ p <+: path) ∧
      (prefixes ≠ [[]] → ∀ (finite : V → Bool) (values : List V) (requested actual : List Nat),
        (∀ v ∈ values, finite v = true) → requested.length = values.length →
        actual.length = values.length → (∀ k ∈ requested ++ actual, k < prefixes.length) →
          Feedback.validate finite ⟨values, some ⟨prefixes, requested, actual⟩⟩ = .ok ()) := by
  have hprefixes := Utils.Domain.stratumPrefixes_eq h
  have hpairwise := Utils.Domain.stratumPrefixes_pairwise hprefixes
  refine ⟨_, hprefixes, hpairwise.imp fun hpq => hpq.lt,
    hpairwise.imp fun hpq => ⟨hpq.not_isPrefixOf, hpq.not_isPrefixOf'⟩,
    fun path n hpath => Utils.Domain.existsUnique_prefix hprefixes hpath, ?_⟩
  intro hstrata finite values requested actual hfinite hrequested hactual hlabels
  have hgood := Feedback.badStrata_of_prefixes hprefixes (nonempty_of_strata hpairwise hstrata)
    hrequested hactual hlabels (Utils.Domain.stratumPrefixes_ne_nil hprefixes)
  unfold Feedback.validate
  rw [if_neg, if_neg]
  · rw [Option.any_some, Bool.not_eq_true]
    exact hgood
  · rw [Bool.not_eq_true, List.any_eq_false]
    intro v hv
    rw [hfinite v hv]
    exact Bool.false_ne_true

/-- Strata of different depth above one of the branches. -/
def raggedStrata : Utils.Domain :=
  .discrete none .stratum [(0, .rectangular 1 [2, 3] 1), (4, .continuous 2)]

theorem stratumPrefixes_partition_ragged :
    ∃ prefixes, raggedStrata.stratumPrefixes = .ok prefixes ∧ prefixes.Pairwise (· < ·) ∧
      prefixes.Pairwise (fun p q => ¬p <+: q ∧ ¬q <+: p) ∧
      (∀ (path : List Int) (n : Nat), raggedStrata.validatePointParts path n = .ok () →
        ∃! p, p ∈ prefixes ∧ p <+: path) ∧
      (prefixes ≠ [[]] → ∀ (finite : Int → Bool) (values : List Int) (requested actual : List Nat),
        (∀ v ∈ values, finite v = true) → requested.length = values.length →
        actual.length = values.length → (∀ k ∈ requested ++ actual, k < prefixes.length) →
          Feedback.validate finite ⟨values, some ⟨prefixes, requested, actual⟩⟩ = .ok ()) :=
  stratumPrefixes_partition (by decide)

example : raggedStrata.stratumPrefixes = .ok [[0, 0], [0, 1], [4]] := by decide

/-- Without a stratum the one prefix is empty, and no feedback has it. -/
theorem unstratified_label_refused :
    ¬∀ (d : Utils.Domain) (prefixes : List (List Int)), d.stratumPrefixes = .ok prefixes →
      ∀ (finite : Int → Bool) (values : List Int) (requested actual : List Nat),
        (∀ v ∈ values, finite v = true) → requested.length = values.length →
        actual.length = values.length → (∀ k ∈ requested ++ actual, k < prefixes.length) →
          Feedback.validate finite ⟨values, some ⟨prefixes, requested, actual⟩⟩ = .ok () := by
  intro h
  have haccepted := h (.continuous 1) [[]] (by decide) (fun _ => true) [3] [0] [0] (by decide) rfl rfl
    (by decide)
  exact absurd haccepted (by decide)

end Gammaboard.Sampling
