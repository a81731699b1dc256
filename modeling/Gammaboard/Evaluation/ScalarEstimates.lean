import Gammaboard.Evaluation.ScalarSplits
import Gammaboard.Lib.SampleStatistics

/-!
# Estimates of a scalar

`evaluation/accumulator/scalar.rs`: the mean, the variance, its standard error and
the effective sample size as they are read off the sums, and for the sums of a list
the statistics of its contributions. The extrema of a list are its first samples
with the largest contribution that is not negative and with the smallest negative one.
-/

namespace Gammaboard.Evaluation

open Gammaboard.Core Gammaboard.Sampling Gammaboard.Lib

variable {K : Type} [Field K] [LinearOrder K]

/-! ## Estimates from sums -/

def meanFromSums (sum : K) (count : Int) : K := if count ≤ 0 then 0 else sum / count

def varianceFromSums (sum sumSq : K) (count : Int) : K :=
  if count ≤ 0 then 0
  else
    let mean := sum / count
    let secondMoment := sumSq / count
    if count < 2 then 0
    else max (secondMoment - mean * mean) 0 * count / (count - 1)

def stderrFromSums (sqrt : K → K) (sum sumSq : K) (count : Int) : Option K :=
  if 2 ≤ count then some (sqrt (varianceFromSums sum sumSq count / count)) else none

namespace ScalarAccumulatorState

def mean (a : ScalarAccumulatorState (ScalarSums K)) : K :=
  meanFromSums a.stats.sumWeightedValue a.count

def meanAbs (a : ScalarAccumulatorState (ScalarSums K)) : K := meanFromSums a.stats.sumAbs a.count

def variance (a : ScalarAccumulatorState (ScalarSums K)) : K :=
  varianceFromSums a.stats.sumWeightedValue a.stats.sumSq a.count

def stderr (sqrt : K → K) (a : ScalarAccumulatorState (ScalarSums K)) : Option K :=
  stderrFromSums sqrt a.stats.sumWeightedValue a.stats.sumSq a.count

def ess (sqrt : K → K) (a : ScalarAccumulatorState (ScalarSums K)) : K :=
  if a.count ≤ 0 ∨ a.stats.sumAbs ≤ 0 ∨ a.stats.sumSq ≤ 0 then 0
  else
    let normalized := a.stats.sumAbs / sqrt a.stats.sumSq / sqrt a.count
    max 0 (min (normalized * normalized) 1)

end ScalarAccumulatorState

/-! ## Sums of a list -/

/-- What a sample adds to the sum. -/
def ScalarSample.contribution (x : ScalarSample K) : K := x.value * |x.point.totalWeight|

namespace ScalarSums

theorem sums_ofList (discreteProjections : Option DiscreteProjectionConfig)
    (moments : AccumulatorMomentConfig) (l : List (ScalarSample K)) :
    (ofList discreteProjections moments l).sumWeightedValue =
        Moments.total ScalarSample.contribution l ∧
      (ofList discreteProjections moments l).sumAbs =
        Moments.total (fun x => |x.contribution|) l ∧
      (ofList discreteProjections moments l).sumSq =
        Moments.total (fun x => x.contribution * x.contribution) l := by
  induction l using List.reverseRecOn with
  | nil => exact ⟨rfl, rfl, rfl⟩
  | append_singleton l x ih =>
    obtain ⟨hsum, habs, hsq⟩ := ih
    rw [ofList_concat, accept_eq]
    rw [Moments.total_append, Moments.total_append, Moments.total_append, ← hsum, ← habs, ← hsq]
    simp only [Moments.total_cons, Moments.total_nil, add_zero]
    exact ⟨rfl, rfl, rfl⟩

end ScalarSums

/-! ## Two passes -/

section TwoPasses

open Moments

variable [IsStrictOrderedRing K] {S : Type} {f : S → K} {l : List S}

theorem meanFromSums_total : meanFromSums (Moments.total f l) l.length = Moments.mean f l := by
  unfold meanFromSums Moments.mean
  cases l with
  | nil => simp
  | cons x l =>
    rw [if_neg (by simp), Int.cast_natCast]

/-- The variance from the sums is the one from the deviations. -/
theorem varianceFromSums_total :
    varianceFromSums (Moments.total f l) (Moments.total (fun x => f x * f x) l) l.length =
      unbiased f l := by
  unfold varianceFromSums unbiased
  rcases l with _ | ⟨x, _ | ⟨y, l⟩⟩
  · simp [central]
  · simp
  · generalize hl : x :: y :: l = l'
    have hne : l' ≠ [] := by
      rw [← hl]
      exact List.cons_ne_nil _ _
    have htwo : 2 ≤ l'.length := by
      rw [← hl, List.length_cons, List.length_cons]
      omega
    have hlen := length_ne_zero (K := K) hne
    have hpass : Moments.total (fun x => f x * f x) l' / (l'.length : K) -
        Moments.total f l' / l'.length * (Moments.total f l' / l'.length) =
          central f f l' / l'.length := by
      rw [central_eq]
      unfold Moments.mean
      field_simp
    rw [if_neg (by omega)]
    dsimp only
    rw [if_neg (by omega), Int.cast_natCast, hpass,
      max_eq_left (div_nonneg (central_self_nonneg l') (Nat.cast_nonneg _)), div_mul_cancel₀ _ hlen]

theorem stderrFromSums_total (sqrt : K → K) :
    stderrFromSums sqrt (Moments.total f l) (Moments.total (fun x => f x * f x) l) l.length =
      if 2 ≤ l.length then some (sqrt (unbiased f l / l.length)) else none := by
  unfold stderrFromSums
  rw [varianceFromSums_total, Int.cast_natCast]
  exact if_congr (by omega) rfl rfl

/-- The effective size from the sums. The quotient of the roots squared is the quotient, which
needs no clamp. -/
theorem ess_total (root : SquareRoot K) {a : ScalarAccumulatorState (ScalarSums K)}
    (hcount : a.count = l.length) (habs : a.stats.sumAbs = Moments.total (fun x => |f x|) l)
    (hsq : a.stats.sumSq = Moments.total (fun x => f x * f x) l) :
    a.ess root.sqrt = effective f l := by
  unfold ScalarAccumulatorState.ess
  rw [hcount, habs, hsq]
  by_cases hzero : ∀ x ∈ l, f x = 0
  · have habs0 : Moments.total (fun x => |f x|) l = 0 := total_abs_eq_zero.2 hzero
    rw [if_pos (.inr (.inl habs0.le))]
    unfold effective
    rw [habs0, mul_zero, zero_div]
  · have hne : l ≠ [] := by
      rintro rfl
      exact hzero fun x hx => absurd hx List.not_mem_nil
    have habs0 : 0 < Moments.total (fun x => |f x|) l :=
      lt_of_le_of_ne (total_nonneg fun _ _ => abs_nonneg _) fun h => hzero (total_abs_eq_zero.1 h.symm)
    have hsq0 : 0 < Moments.total (fun x => f x * f x) l :=
      lt_of_le_of_ne (total_nonneg fun _ _ => mul_self_nonneg _) fun h =>
        hzero (total_sq_eq_zero.1 h.symm)
    have hlen : 0 < l.length := List.length_pos_of_ne_nil hne
    have hlenK : (0 : K) < l.length := Nat.cast_pos.2 hlen
    rw [if_neg (not_or.2 ⟨by omega, not_or.2 ⟨not_le.2 habs0, not_le.2 hsq0⟩⟩)]
    dsimp only
    rw [Int.cast_natCast]
    have hroot := root.mul_self hsq0.le
    have hrootLen := root.mul_self hlenK.le
    have hpos := root.pos hsq0
    have hposLen := root.pos hlenK
    have hnormalized :
        Moments.total (fun x => |f x|) l / root.sqrt (Moments.total (fun x => f x * f x) l) /
          root.sqrt (l.length : K) *
        (Moments.total (fun x => |f x|) l / root.sqrt (Moments.total (fun x => f x * f x) l) /
          root.sqrt (l.length : K)) = effective f l := by
      unfold effective
      rw [div_div, div_mul_div_comm, mul_mul_mul_comm, hroot, hrootLen, mul_comm (l.length : K)]
    rw [hnormalized, min_eq_left effective_le_one, max_eq_right effective_nonneg]

end TwoPasses

/-! ## First extrema -/

/-- The first sample with the largest contribution that is not negative. -/
inductive FirstLargest (l : List (ScalarSample K)) : K × Option (DiagnosticSample K) → Prop
  | none (negative : ∀ x ∈ l, x.contribution < 0) : FirstLargest l (0, none)
  | some (before : List (ScalarSample K)) (x : ScalarSample K) (behind : List (ScalarSample K))
      (at_ : l = before ++ x :: behind) (nonneg : 0 ≤ x.contribution)
      (first : ∀ y ∈ before, y.contribution < x.contribution)
      (largest : ∀ y ∈ behind, y.contribution ≤ x.contribution) :
      FirstLargest l (x.contribution, some ⟨x.point, x.stratum⟩)

/-- The first sample with the smallest negative contribution. -/
inductive FirstSmallest (l : List (ScalarSample K)) : K × Option (DiagnosticSample K) → Prop
  | none (nonneg : ∀ x ∈ l, 0 ≤ x.contribution) : FirstSmallest l (0, none)
  | some (before : List (ScalarSample K)) (x : ScalarSample K) (behind : List (ScalarSample K))
      (at_ : l = before ++ x :: behind) (negative : x.contribution < 0)
      (first : ∀ y ∈ before, x.contribution < y.contribution)
      (smallest : ∀ y ∈ behind, x.contribution ≤ y.contribution) :
      FirstSmallest l (x.contribution, some ⟨x.point, x.stratum⟩)

section Extrema

variable {l : List (ScalarSample K)} {x : ScalarSample K} {p : K × Option (DiagnosticSample K)}

theorem FirstLargest.raise (h : FirstLargest l p) (hx : 0 ≤ x.contribution) :
    FirstLargest (l ++ [x]) (ScalarSums.raise p x.contribution ⟨x.point, x.stratum⟩) := by
  unfold ScalarSums.raise
  cases h with
  | none negative =>
    rw [if_pos (.inl rfl)]
    exact .some l x [] rfl hx (fun y hy => (negative y hy).trans_le hx) fun y hy =>
      absurd hy List.not_mem_nil
  | some before y behind hat nonneg first largest =>
    subst hat
    split
    · rename_i hlt
      have hlt := hlt.resolve_left Bool.false_ne_true
      refine .some (before ++ y :: behind) x [] rfl hx (fun z hz => ?_) fun z hz =>
        absurd hz List.not_mem_nil
      rcases List.mem_append.1 hz with hz | hz
      · exact (first z hz).trans hlt
      · rcases List.mem_cons.1 hz with rfl | hz
        · exact hlt
        · exact (largest z hz).trans_lt hlt
    · rename_i hle
      have hle := not_lt.1 (not_or.1 hle).2
      refine .some before y (behind ++ [x]) (by simp) nonneg first fun z hz => ?_
      rcases List.mem_append.1 hz with hz | hz
      · exact largest z hz
      · rw [List.mem_singleton.1 hz]
        exact hle

theorem FirstLargest.skip (h : FirstLargest l p) (hx : x.contribution < 0) :
    FirstLargest (l ++ [x]) p := by
  cases h with
  | none negative =>
    refine .none fun y hy => ?_
    rcases List.mem_append.1 hy with hy | hy
    · exact negative y hy
    · rwa [List.mem_singleton.1 hy]
  | some before y behind hat nonneg first largest =>
    subst hat
    refine .some before y (behind ++ [x]) (by simp) nonneg first fun z hz => ?_
    rcases List.mem_append.1 hz with hz | hz
    · exact largest z hz
    · rw [List.mem_singleton.1 hz]
      exact hx.le.trans nonneg

theorem FirstSmallest.lower (h : FirstSmallest l p) (hx : x.contribution < 0) :
    FirstSmallest (l ++ [x]) (ScalarSums.lower p x.contribution ⟨x.point, x.stratum⟩) := by
  unfold ScalarSums.lower
  cases h with
  | none nonneg =>
    rw [if_pos (.inl rfl)]
    exact .some l x [] rfl hx (fun y hy => hx.trans_le (nonneg y hy)) fun y hy =>
      absurd hy List.not_mem_nil
  | some before y behind hat negative first smallest =>
    subst hat
    split
    · rename_i hlt
      have hlt := hlt.resolve_left Bool.false_ne_true
      refine .some (before ++ y :: behind) x [] rfl hx (fun z hz => ?_) fun z hz =>
        absurd hz List.not_mem_nil
      rcases List.mem_append.1 hz with hz | hz
      · exact hlt.trans (first z hz)
      · rcases List.mem_cons.1 hz with rfl | hz
        · exact hlt
        · exact hlt.trans_le (smallest z hz)
    · rename_i hle
      have hle := not_lt.1 (not_or.1 hle).2
      refine .some before y (behind ++ [x]) (by simp) negative first fun z hz => ?_
      rcases List.mem_append.1 hz with hz | hz
      · exact smallest z hz
      · rw [List.mem_singleton.1 hz]
        exact hle

theorem FirstSmallest.skip (h : FirstSmallest l p) (hx : 0 ≤ x.contribution) :
    FirstSmallest (l ++ [x]) p := by
  cases h with
  | none nonneg =>
    refine .none fun y hy => ?_
    rcases List.mem_append.1 hy with hy | hy
    · exact nonneg y hy
    · rwa [List.mem_singleton.1 hy]
  | some before y behind hat negative first smallest =>
    subst hat
    refine .some before y (behind ++ [x]) (by simp) negative first fun z hz => ?_
    rcases List.mem_append.1 hz with hz | hz
    · exact smallest z hz
    · rw [List.mem_singleton.1 hz]
      exact negative.le.trans hx

theorem extrema_ofList (discreteProjections : Option DiscreteProjectionConfig)
    (moments : AccumulatorMomentConfig) (l : List (ScalarSample K)) :
    FirstLargest l (ScalarSums.ofList discreteProjections moments l).positive ∧
      FirstSmallest l (ScalarSums.ofList discreteProjections moments l).negative := by
  induction l using List.reverseRecOn with
  | nil => exact ⟨.none fun x hx => absurd hx List.not_mem_nil,
      .none fun x hx => absurd hx List.not_mem_nil⟩
  | append_singleton l x ih =>
    obtain ⟨hpositive, hnegative⟩ := ih
    rw [ScalarSums.ofList_concat, ScalarSums.accept_eq]
    show FirstLargest _ (ite (0 ≤ x.contribution) _ _) ∧
      FirstSmallest _ (ite (0 ≤ x.contribution) _ _)
    by_cases hx : 0 ≤ x.contribution
    · rw [if_pos hx, if_pos hx]
      exact ⟨hpositive.raise hx, hnegative.skip hx⟩
    · rw [if_neg hx, if_neg hx]
      exact ⟨hpositive.skip (not_le.1 hx), hnegative.lower (not_le.1 hx)⟩

end Extrema

end Gammaboard.Evaluation
