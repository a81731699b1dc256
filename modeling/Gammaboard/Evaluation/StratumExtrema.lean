import Gammaboard.Evaluation.StratifiedEstimates

/-!
# Extrema of a split list

The extreme contributions of a stratum are those of its samples in their order,
and the first of equal ones is kept. With the moments they are all of a state, so
two states that accumulated one list are equal.
-/

namespace Gammaboard.Evaluation

open Gammaboard.Core Gammaboard.Sampling Gammaboard.Lib

variable {K V S G : Type} [Field K] [LinearOrder K]

namespace ContributionExtrema

end ContributionExtrema

section Extrema

variable (hypot : K → K → K) (layout : StratifiedLayout K) (width : Nat)

/-- The extrema of the samples of a stratum. -/
def extremaOf (l : List (StratifiedSample K G)) : List (ContributionExtrema K) :=
  l.foldl (observed hypot layout) (List.replicate width ⟨none, none⟩)

/-- Every stratum has the extrema of its samples. -/
def Extremes (l : List (StratifiedSample K G))
    (a : StratifiedAccumulatorState (MomentValues K) G (StratifiedLayout K)) : Prop :=
  ∀ k s, a.strata[k]? = some s → s.moments.extrema = extremaOf hypot layout width (ofStratum k l)

variable {hypot layout width} {l l' : List (StratifiedSample K G)} {x : StratifiedSample K G}
  {a b c : StratifiedAccumulatorState (MomentValues K) G (StratifiedLayout K)}

variable (num : Numerics V S (MomentValues K) G (StratifiedLayout K))

variable [IsStrictOrderedRing K] (emptyNative : G)

omit [LinearOrder K] [IsStrictOrderedRing K] in
theorem Summarizes.unique {columns : StratifiedSample K G → List K}
    {matched : StratifiedSample K G → Bool} {s t : StratumMoments (MomentValues K)}
    (hs : Summarizes width columns matched l s) (ht : Summarizes width columns matched l t)
    (hextrema : s.moments.extrema = t.moments.extrema) : s = t := by
  obtain ⟨attempts, count, mean, m2, extrema⟩ := s
  obtain ⟨attempts', count', mean', m2', extrema'⟩ := t
  cases hs.attempts.trans ht.attempts.symm
  cases hs.matched.trans ht.matched.symm
  cases hs.mean.trans ht.mean.symm
  cases hs.m2.trans ht.m2.symm
  cases hextrema
  rfl

omit [IsStrictOrderedRing K] in
/-- States of one list are equal. -/
theorem Holds.unique (ha : Holds hypot layout width l a) (hb : Holds hypot layout width l b)
    (hea : Extremes hypot layout width l a) (heb : Extremes hypot layout width l b)
    (hpooled : a.pooled = b.pooled) : a = b := by
  have hstrata : a.strata = b.strata := by
    refine List.ext_getElem? fun k => ?_
    by_cases hk : k < a.strata.length
    · have hk' : k < b.strata.length := by rw [hb.length, ← ha.length]; exact hk
      have hs := List.getElem?_eq_getElem hk
      have ht := List.getElem?_eq_getElem hk'
      rw [hs, ht, (ha.strata k _ hs).unique (hb.strata k _ ht)
        ((hea k _ hs).trans (heb k _ ht).symm)]
    · rw [List.getElem?_eq_none (not_lt.1 hk), List.getElem?_eq_none]
      rw [hb.length, ← ha.length]
      exact not_lt.1 hk
  obtain ⟨plan, strata, pooled⟩ := a
  obtain ⟨plan', strata', pooled'⟩ := b
  cases ha.plan.trans hb.plan.symm
  cases hstrata
  cases hpooled
  rfl

end Extrema

end Gammaboard.Evaluation
