import Gammaboard.Core.AccumulatorConfig
import Gammaboard.Core.Errors
import Gammaboard.Utils.StratumPaths
import Mathlib.Algebra.Order.Field.Basic

/-!
# Stratification

`core/stratification.rs`: the partition of the output space both worker roles
share, and the plan frozen for an inference. Numbers are those of an ordered
field, where the source has `f64`; every test for a finite number holds of them,
and `hypot` is a parameter.
-/

namespace Gammaboard.Core

open Gammaboard.Utils

variable {K : Type}

/-- `map_err(EngineError::invalid_input)`. -/
def invalidInput {α : Type} : Except String α → Except EngineError α
  | .error message => .error (.invalidInput message)
  | .ok a => .ok a

/-! ## Partitions -/

/-- `StratificationConfig`, of its one kind `voronoi`. The centers are in the order of their
keys. -/
structure StratificationConfig (K : Type) where
  domain : Domain
  centers : List (List Int × List K)
  scales : Option (List K)
  deriving DecidableEq

namespace StratificationConfig

/-- `prefixes()`: the keys. -/
def prefixes (c : StratificationConfig K) : List (List Int) := c.centers.map (·.1)

def centerWidth (c : StratificationConfig K) : Nat := c.centers.head?.elim 0 (·.2.length)

/-- `prefix(label)`; the source relies on a validated label. -/
def prefixAt (c : StratificationConfig K) (label : Nat) : List Int := c.prefixes.getD label []

/-- What a validated partition is. -/
structure Valid (c : StratificationConfig K) : Prop where
  prefixes : c.domain.stratumPrefixes = .ok c.prefixes
  nonempty : ∀ path ∈ c.prefixes, path ≠ []
  width : c.centerWidth ≠ 0
  widths : ∀ center ∈ c.centers, center.2.length = c.centerWidth

variable {c : StratificationConfig K}

theorem centers_ne_nil (h : c.centerWidth ≠ 0) : c.centers ≠ [] := by
  intro hnil
  rw [centerWidth, hnil] at h
  exact h rfl

namespace Valid

variable {k : Nat}

theorem pairwise (h : c.Valid) : c.prefixes.Pairwise Domain.Precedes :=
  Domain.stratumPrefixes_pairwise h.prefixes

theorem prefixAt_eq (hk : k < c.centers.length) :
    ∃ h : k < c.prefixes.length, c.prefixAt k = c.prefixes[k] := by
  have hk' : k < c.prefixes.length := by rwa [StratificationConfig.prefixes, List.length_map]
  refine ⟨hk', ?_⟩
  rw [prefixAt, List.getD_eq_getElem?_getD, List.getElem?_eq_getElem hk', Option.getD_some]

/-- The prefixes of two strata in their order. -/
theorem precedes (h : c.Valid) {j : Nat} (hj : j < k) (hk : k < c.centers.length) :
    Domain.Precedes (c.prefixAt j) (c.prefixAt k) := by
  obtain ⟨hk', hatk⟩ := prefixAt_eq hk
  obtain ⟨hj', hatj⟩ := prefixAt_eq (hj.trans hk)
  rw [hatj, hatk]
  exact List.pairwise_iff_getElem.1 h.pairwise j k hj' hk' hj

/-- The prefix of another stratum does not lead to a point of a stratum. -/
theorem not_isPrefixOf (h : c.Valid) {j : Nat} (hj : j < c.centers.length)
    (hk : k < c.centers.length) (hne : j ≠ k) (path : List Int) :
    ¬(c.prefixAt j).isPrefixOf (c.prefixAt k ++ path) = true := by
  rw [List.isPrefixOf_iff_prefix]
  intro hprefix
  have hcases := List.prefix_or_prefix_of_prefix hprefix (List.prefix_append (c.prefixAt k) path)
  obtain hlt | hlt := Nat.lt_or_gt_of_ne hne
  · have hpre := h.precedes hlt hk
    exact hcases.elim hpre.not_isPrefixOf hpre.not_isPrefixOf'
  · have hpre := h.precedes hlt hj
    exact hcases.elim hpre.not_isPrefixOf' hpre.not_isPrefixOf

theorem prefixAt_inj (h : c.Valid) {j : Nat} (hj : j < c.centers.length)
    (hk : k < c.centers.length) (heq : c.prefixAt j = c.prefixAt k) : j = k := by
  by_contra hne
  refine h.not_isPrefixOf hj hk hne [] ?_
  rw [heq, List.append_nil]
  exact List.isPrefixOf_iff_prefix.2 (List.prefix_refl _)

/-- The prefix of a stratum is found below a path that continues it. -/
theorem findIdx (h : c.Valid) (hk : k < c.centers.length) (path : List Int) :
    c.prefixes.findIdx? (fun p => p.isPrefixOf (c.prefixAt k ++ path)) = some k := by
  obtain ⟨hk', hat⟩ := prefixAt_eq hk
  rw [List.findIdx?_eq_some_iff_getElem]
  refine ⟨hk', ?_, fun j hj => ?_⟩
  · rw [← hat]
    exact List.isPrefixOf_iff_prefix.2 (List.prefix_append _ _)
  · obtain ⟨hj', hatj⟩ := prefixAt_eq (hj.trans hk)
    rw [← hatj]
    exact h.not_isPrefixOf (hj.trans hk) hk hj.ne path

end Valid

variable [Field K] [LinearOrder K]

def validate (c : StratificationConfig K) : Except EngineError Unit := do
  let prefixes ← invalidInput c.domain.stratumPrefixes
  let _ ← invalidInput (c.domain.withIntegrand (.continuous 0))
  if c.prefixes ≠ prefixes then
    .error (.invalidInput
      "Voronoi centers must exactly cover all complete stratum prefixes in the domain")
  else if c.centerWidth = 0 ∨ c.centers.any (fun center => center.2.length != c.centerWidth) then
    .error (.invalidInput "Voronoi centers must be nonempty finite vectors of equal width")
  else if ¬(c.centers.map (·.2)).Nodup then
    .error (.invalidInput "Voronoi centers must be distinct")
  else if c.scales.any (fun s => s.length != c.centerWidth || s.any (fun v => decide (v ≤ 0))) then
    .error (.invalidInput
      "Voronoi scales must match the output width and be finite and positive")
  else .ok ()

def components : AccumulatorConfig → Except EngineError (List String)
  | .vector components _ _ _ => .ok components
  | .gammaloop => .ok ["real", "imag"]
  | .empty | .fullVector _ =>
    .error (.invalidInput
      "stratification requires a statistical scalar/vector or GammaLoop accumulator")

def validateAccumulator (c : StratificationConfig K) (config : AccumulatorConfig) :
    Except EngineError Unit := do
  c.validate
  let names ← components config
  if names.length ≠ c.centerWidth then
    .error (.invalidInput "Voronoi center width must match the evaluator output components")
  else .ok ()

variable (hypot : K → K → K)

/-- The scaled distance of values from a center. -/
def distance (c : StratificationConfig K) (values center : List K) : K :=
  ((values.zip center).zipIdx).foldl
    (fun norm e => hypot norm ((e.1.1 - e.1.2) / c.scales.elim 1 (·.getD e.2 1))) 0

/-- The loop of `classify`, from center `k` on; no distance before the first center. -/
def nearest (c : StratificationConfig K) (values : List K) :
    List (List Int × List K) → Nat → Nat × Option K → Nat
  | [], _, best => best.1
  | center :: rest, k, best =>
    let distance := c.distance hypot values center.2
    if best.2.all (distance < ·) then c.nearest values rest (k + 1) (k, some distance)
    else c.nearest values rest (k + 1) best

def classify (c : StratificationConfig K) (values : List K) : Except EngineError Nat :=
  if values.length ≠ c.centerWidth then .error (.eval "invalid Voronoi classification values")
  else .ok (c.nearest hypot values c.centers 0 (0, none))

/-- The center chosen is one of those left, or the best so far. -/
theorem nearest_lt {c : StratificationConfig K} {values : List K} :
    ∀ {rest : List (List Int × List K)} {k : Nat} {best : Nat × Option K}, best.1 < k + rest.length →
      c.nearest hypot values rest k best < k + rest.length
  | [], k, best, h => h
  | center :: rest, k, best, h => by
    rw [nearest]
    rw [List.length_cons, Nat.add_comm rest.length, ← Nat.add_assoc] at h ⊢
    split
    · exact nearest_lt (by dsimp only; omega)
    · exact nearest_lt h

/-- Values of the width of the centers are classified, as one of the strata. -/
theorem classify_ok {c : StratificationConfig K} {values : List K}
    (hwidth : c.centerWidth ≠ 0) (hlen : values.length = c.centerWidth) :
    ∃ k < c.centers.length, c.classify hypot values = .ok k := by
  refine ⟨_, ?_, if_neg (not_not.2 hlen)⟩
  have hpos := List.length_pos_iff.2 (centers_ne_nil hwidth)
  have hlt : c.nearest hypot values c.centers 0 (0, none) < 0 + c.centers.length :=
    nearest_lt hypot (by omega)
  omega

theorem valid_of_validate {c : StratificationConfig K} (h : c.validate = .ok ()) : c.Valid := by
  unfold validate at h
  cases hprefixes : c.domain.stratumPrefixes with
  | error e =>
    rw [hprefixes] at h
    cases h
  | ok prefixes =>
    cases hbelow : c.domain.withIntegrand (.continuous 0) with
    | error e =>
      rw [hprefixes, hbelow] at h
      cases h
    | ok d =>
      rw [hprefixes, hbelow] at h
      simp only [invalidInput, bind, Except.bind] at h
      split at h
      · cases h
      · rename_i hkeys
        split at h
        · cases h
        · rename_i hwidth
          rw [not_or, List.any_eq_true, not_exists] at hwidth
          rw [← not_not.1 hkeys] at hprefixes
          refine ⟨hprefixes, Domain.withIntegrand_nonempty hbelow hprefixes, hwidth.1,
            fun center hcenter => ?_⟩
          simpa using not_and.1 (hwidth.2 center) hcenter

end StratificationConfig

/-! ## Plans -/

/-- Without probabilities for masked, pooled training. -/
structure StratificationPlan (K : Type) where
  proposalId : String
  partition : StratificationConfig K
  probabilities : Option (List K)
  components : List String
  deriving DecidableEq

namespace StratificationPlan

variable [Field K] [LinearOrder K]

def validate (plan : StratificationPlan K) : Except EngineError Unit :=
  if plan.proposalId.isEmpty then
    .error (.invalidInput "stratification plan requires a proposal identity")
  else do
    plan.partition.validate
    if plan.components.length ≠ plan.partition.centerWidth then
      .error (.invalidInput "stratification plan component layout mismatch")
    else if plan.probabilities.any (fun p =>
        p.length != plan.partition.centers.length || p.any (fun v => decide (v ≤ 0 ∨ 1 < v)) ||
          decide ((1 : K) / 10 ^ 12 < |p.sum - 1|)) then
      .error (.invalidInput
        "stratum probabilities must be finite, positive, complete and normalized")
    else .ok ()

/-- What a validated plan is. -/
structure Valid (plan : StratificationPlan K) : Prop where
  partition : plan.partition.Valid
  components : plan.components.length = plan.partition.centerWidth
  count : ∀ p, plan.probabilities = some p → p.length = plan.partition.centers.length
  pos : ∀ p, plan.probabilities = some p → ∀ v ∈ p, 0 < v

theorem valid_of_validate {plan : StratificationPlan K} (h : plan.validate = .ok ()) :
    plan.Valid := by
  unfold validate at h
  split at h
  · cases h
  · cases hpartition : plan.partition.validate with
    | error e =>
      rw [hpartition] at h
      cases h
    | ok u =>
      rw [hpartition] at h
      simp only [bind, Except.bind] at h
      split at h
      · cases h
      · rename_i hcomponents
        split at h
        · cases h
        · rename_i hprobabilities
          refine ⟨StratificationConfig.valid_of_validate hpartition, not_not.1 hcomponents, ?_, ?_⟩
          all_goals
            intro p hp
            rw [hp] at hprobabilities
            simp only [Option.any_some, Bool.or_eq_true, not_or, Bool.not_eq_true, bne_eq_false_iff_eq,
              List.any_eq_false, decide_eq_true_eq, not_or, not_le] at hprobabilities
          · exact hprobabilities.1.1
          · exact fun v hv => (hprobabilities.1.2 v hv).1

/-- The plan of pooled training is valid with that of inference. -/
theorem validate_pooled {plan : StratificationPlan K} (h : plan.validate = .ok ()) :
    ({ plan with probabilities := none } : StratificationPlan K).validate = .ok () := by
  have hvalid := valid_of_validate h
  unfold validate at h ⊢
  split at h
  · cases h
  · rename_i hid
    cases hpartition : plan.partition.validate with
    | error e =>
      rw [hpartition] at h
      cases h
    | ok u =>
      rw [if_neg hid]
      simp [bind, Except.bind, hvalid.components]

end StratificationPlan

end Gammaboard.Core
