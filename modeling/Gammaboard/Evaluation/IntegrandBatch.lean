import Gammaboard.Evaluation.Stratification
import Gammaboard.Utils.IntegrandDomain
import Mathlib.Algebra.Field.Rat
import Mathlib.Algebra.Order.Ring.Unbundled.Rat

/-!
# Points below their strata

An integrand domain appended to a tree of strata, and the batch an evaluator
gets from points of the joined domain: every point without the prefix of its
stratum, whose index is its label.
-/

namespace Gammaboard.Evaluation

open Gammaboard.Core Gammaboard.Sampling Gammaboard.Utils

variable {K : Type}

/-- `validate_point`. -/
def ValidPoint (d : Utils.Domain) (point : Point K) : Prop :=
  d.validatePointParts point.discrete point.continuous.length = .ok ()

/-- What is left of a point of the joined domain, with its label. -/
structure Unprefixed (prefixes : List (List Int)) (integrand : Utils.Domain) (point : Point K)
    (below : Point K × Nat) : Prop where
  label : ∃ p, prefixes[below.2]? = some p ∧
    point = { below.1 with discrete := p ++ below.1.discrete }
  valid : ValidPoint integrand below.1

variable [Field K] [LinearOrder K] {strata integrand both : Utils.Domain} {plan : StratificationPlan K}

/-- The prefix of a point of the joined domain is found and removed. -/
theorem integrandPoint_ok (hplan : plan.validate = .ok ())
    (hdomain : plan.partition.domain = strata)
    (hboth : Utils.Domain.Continues (strata.prefixesBelow [] []) integrand both) {point : Point K}
    (hpoint : ValidPoint both point) :
    ∃ below, integrandPoint plan point = .ok below ∧
      Unprefixed (strata.prefixesBelow [] []) integrand point below := by
  have hvalid := (StratificationPlan.valid_of_validate hplan).partition
  have hprefixes : plan.partition.prefixes = strata.prefixesBelow [] [] := by
    rw [← hdomain]
    exact (Utils.Domain.stratumPrefixes_ok hvalid.prefixes).2
  obtain ⟨p, hp, rest, hpath, hrest⟩ :=
    (hboth.paths _ _).1 (Utils.Domain.validatePointParts_iff.1 hpoint)
  obtain ⟨k, hk, rfl⟩ := List.getElem_of_mem (hprefixes ▸ hp)
  have hk' : k < plan.partition.centers.length := by
    rwa [StratificationConfig.prefixes, List.length_map] at hk
  have hat : plan.partition.prefixAt k = plan.partition.prefixes[k] :=
    (StratificationConfig.Valid.prefixAt_eq hk').2
  have hfind := hvalid.findIdx hk' rest
  rw [hat, ← hpath] at hfind
  refine ⟨({ point with discrete := rest }, k), ?_, ⟨plan.partition.prefixes[k], ?_, ?_⟩, ?_⟩
  · unfold integrandPoint
    rw [hfind]
    dsimp only
    rw [hat, hpath, List.drop_left]
  · rw [← hprefixes]
    exact List.getElem?_eq_getElem hk
  · rw [← hpath]
  · exact Utils.Domain.validatePointParts_iff.2 hrest

theorem integrandPoints_ok (hplan : plan.validate = .ok ())
    (hdomain : plan.partition.domain = strata)
    (hboth : Utils.Domain.Continues (strata.prefixesBelow [] []) integrand both) {points : List (Point K)}
    (hpoints : ∀ point ∈ points, ValidPoint both point) :
    ∃ below, points.mapM (integrandPoint plan) = .ok below ∧
      List.Forall₂ (Unprefixed (strata.prefixesBelow [] []) integrand) points below := by
  induction points with
  | nil => exact ⟨[], rfl, .nil⟩
  | cons point points ih =>
    obtain ⟨hpoint, hrest⟩ := List.forall_mem_cons.1 hpoints
    obtain ⟨first, hfirst, hunprefixed⟩ := integrandPoint_ok hplan hdomain hboth hpoint
    obtain ⟨below, hbelow, hforall⟩ := ih hrest
    refine ⟨first :: below, ?_, .cons hunprefixed hforall⟩
    rw [List.mapM_cons, hfirst, hbelow]
    rfl

/-- Below a tree of strata an integrand domain is appended, the joined domain is valid with the
prefixes of the tree, its points are those of the integrand below a prefix, and a plan over the tree
takes every batch of them apart. The prefixes are a `Vec`, which holds fewer than 2^63 elements. -/
theorem integrand_below_strata (hstrata : strata.strataOnly = true) (haxis : strata.hasAxis = true)
    (hvalid : strata.validate = .ok ()) (hintegrand : integrand.unstratified = true)
    (hintegrandValid : integrand.validate = .ok ()) {prefixes : List (List Int)}
    (hprefixes : strata.stratumPrefixes = .ok prefixes) (hlen : prefixes.length ≤ 2 ^ 63) :
    ∃ both, strata.withIntegrand integrand = .ok both ∧ both.validate = .ok () ∧
      both.stratumPrefixes = .ok prefixes ∧
      (∀ (path : List Int) (n : Nat), both.validatePointParts path n = .ok () ↔
        ∃ p ∈ prefixes, ∃ rest, path = p ++ rest ∧ integrand.validatePointParts rest n = .ok ()) ∧
      ∀ (plan : StratificationPlan K) (points : List (Point K)), plan.validate = .ok () →
        plan.partition.domain = strata → (∀ point ∈ points, ValidPoint both point) →
        ∃ below, integrandBatch points plan = .ok (below.map (·.1), below.map (·.2)) ∧
          List.Forall₂ (Unprefixed prefixes integrand) points below := by
  obtain ⟨-, rfl⟩ := Utils.Domain.stratumPrefixes_ok hprefixes
  obtain ⟨both, hboth, hcontinues⟩ :=
    Utils.Domain.withIntegrand_continues hvalid hstrata haxis hlen hintegrandValid hintegrand
  have hbothValid : both.validate = .ok () := hcontinues.valid
  refine ⟨both, hboth, hbothValid, ?_, fun path n => ?_, fun plan points hplan hdomain hpoints => ?_⟩
  · rw [Utils.Domain.stratumPrefixes_eq hbothValid, hcontinues.strata]
  · simp only [Utils.Domain.validatePointParts_iff]
    exact hcontinues.paths path n
  · obtain ⟨below, hbelow, hforall⟩ := integrandPoints_ok hplan hdomain hcontinues hpoints
    refine ⟨below, ?_, hforall⟩
    unfold integrandBatch
    rw [hplan, hbelow]
    rfl

/-- Strata of depth one and two, one of them a rectangle. -/
def pairStrata : Utils.Domain :=
  .discrete (some "channel") .stratum [(0, .rectangular 2 [2, 1] 0), (3, .rectangular 0 [] 0)]

/-- An integrand with an axis of its own. -/
def axisIntegrand : Utils.Domain := .discrete none .integrand [(1, .continuous 2), (2, .continuous 0)]

theorem integrand_below_strata_pair :
    ∃ both, pairStrata.withIntegrand axisIntegrand = .ok both ∧ both.validate = .ok () ∧
      both.stratumPrefixes = .ok [[0, 0, 0], [0, 1, 0], [3]] ∧
      (∀ (path : List Int) (n : Nat), both.validatePointParts path n = .ok () ↔
        ∃ p ∈ [[0, 0, 0], [0, 1, 0], [3]], ∃ rest, path = p ++ rest ∧
          axisIntegrand.validatePointParts rest n = .ok ()) ∧
      ∀ (plan : StratificationPlan ℚ) (points : List (Point ℚ)), plan.validate = .ok () →
        plan.partition.domain = pairStrata → (∀ point ∈ points, ValidPoint both point) →
        ∃ below, integrandBatch points plan = .ok (below.map (·.1), below.map (·.2)) ∧
          List.Forall₂ (Unprefixed [[0, 0, 0], [0, 1, 0], [3]] axisIntegrand) points below :=
  integrand_below_strata (by decide) (by decide) (by decide) (by decide) (by decide) (by decide)
    (by decide)

end Gammaboard.Evaluation
