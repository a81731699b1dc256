import Gammaboard.Evaluation.InPlace
import Gammaboard.Lib.Tally

/-!
# Scalars of a split list

A scalar accumulator as what it says about the list of its samples: their sums
and extrema, and a bin for every discrete path. As long as the bins fit, samples
added one by one and parts merged in order give the accumulator of the list.
-/

namespace Gammaboard.Evaluation

open Gammaboard.Core Gammaboard.Sampling Gammaboard.Lib

variable {K M G L : Type} [Field K] [LinearOrder K]

/-- A value and the point it was found at. -/
structure ScalarSample (K : Type) where
  value : K
  point : Point K
  stratum : Option (List Int × List Int)

namespace ScalarSums

/-! ## Sums and extrema -/

/-- The sums and extrema with a sample. -/
def accept (s : ScalarSums K) (x : ScalarSample K) : ScalarSums K :=
  (s.withSample x.value x.point).updateExtrema (x.value * |x.point.totalWeight|) x.point x.stratum

/-- A new value beside the largest so far. -/
def raise (p : K × Option (DiagnosticSample K)) (w : K) (sample : DiagnosticSample K) :
    K × Option (DiagnosticSample K) :=
  if p.2.isNone ∨ p.1 < w then (w, some sample) else p

def lower (p : K × Option (DiagnosticSample K)) (w : K) (sample : DiagnosticSample K) :
    K × Option (DiagnosticSample K) :=
  if p.2.isNone ∨ w < p.1 then (w, some sample) else p

def positive (s : ScalarSums K) : K × Option (DiagnosticSample K) :=
  (s.maxWeightedPositive, s.maxWeightedPositiveSample)

def negative (s : ScalarSums K) : K × Option (DiagnosticSample K) :=
  (s.maxWeightedNegative, s.maxWeightedNegativeSample)

/-- The extrema are replaced, and nothing else. -/
def withExtrema (s : ScalarSums K) (p n : K × Option (DiagnosticSample K)) : ScalarSums K :=
  { s with
    maxWeightedPositive := p.1
    maxWeightedPositiveSample := p.2
    maxWeightedNegative := n.1
    maxWeightedNegativeSample := n.2 }

theorem updateExtrema_eq (s : ScalarSums K) (w : K) (point : Point K)
    (stratum : Option (List Int × List Int)) :
    s.updateExtrema w point stratum = s.withExtrema
      (if 0 ≤ w then raise s.positive w ⟨point, stratum⟩ else s.positive)
      (if 0 ≤ w then s.negative else lower s.negative w ⟨point, stratum⟩) := by
  obtain ⟨⟩ := s
  unfold updateExtrema withExtrema raise lower positive negative
  by_cases hw : 0 ≤ w
  · have hnot : ¬w < 0 := not_lt.2 hw
    dsimp only
    simp only [hw, hnot, true_and, false_and, if_true, if_false]
    split <;> rfl
  · dsimp only
    simp only [hw, not_le.1 hw, true_and, false_and, if_false]
    split <;> rfl

variable {s t : ScalarSums K} {x : ScalarSample K}

theorem accept_eq : s.accept x = (s.withSample x.value x.point).withExtrema
    (if 0 ≤ x.value * |x.point.totalWeight| then
      raise s.positive (x.value * |x.point.totalWeight|) ⟨x.point, x.stratum⟩ else s.positive)
    (if 0 ≤ x.value * |x.point.totalWeight| then s.negative
      else lower s.negative (x.value * |x.point.totalWeight|) ⟨x.point, x.stratum⟩) :=
  updateExtrema_eq _ _ _ _

@[simp] theorem accept_moments : (s.accept x).moments = s.moments := by
  rw [accept_eq]
  rfl

@[simp] theorem accept_discreteProjections :
    (s.accept x).discreteProjections = s.discreteProjections := by
  rw [accept_eq]
  rfl

@[simp] theorem accept_discreteBins : (s.accept x).discreteBins = s.discreteBins := by
  rw [accept_eq]
  rfl

@[simp] theorem accept_discreteBinsOverflowCount :
    (s.accept x).discreteBinsOverflowCount = s.discreteBinsOverflowCount := by
  rw [accept_eq]
  rfl

/-- Without a sample there is no extremum. -/
structure Extremal (s : ScalarSums K) : Prop where
  positive : s.maxWeightedPositiveSample = none → s.maxWeightedPositive = 0
  negative : s.maxWeightedNegativeSample = none → s.maxWeightedNegative = 0

theorem Extremal.accept (h : s.Extremal) : (s.accept x).Extremal := by
  rw [accept_eq]
  refine ⟨?_, ?_⟩
  · show Prod.snd (ite _ _ _) = none → Prod.fst (ite _ _ _) = 0
    unfold raise
    split
    · split
      · rintro ⟨⟩
      · exact h.positive
    · exact h.positive
  · show Prod.snd (ite _ _ _) = none → Prod.fst (ite _ _ _) = 0
    unfold lower
    split
    · exact h.negative
    · split
      · rintro ⟨⟩
      · exact h.negative

/-- A new maximum of merged extrema. -/
theorem mergePositiveExtrema_raise {p q : K × Option (DiagnosticSample K)} {w : K}
    {sample : DiagnosticSample K} (hq : q.2 = none → q.1 = 0) :
    mergePositiveExtrema p (raise q w sample) = raise (mergePositiveExtrema p q) w sample := by
  unfold raise
  obtain ⟨m, own⟩ := q
  cases own with
  | none =>
    obtain rfl : m = 0 := hq rfl
    simp [mergePositiveExtrema]
  | some own =>
    by_cases hm : m < w
    · by_cases hp : p.2 = none ∨ p.1 < m
      · have hw : p.2 = none ∨ p.1 < w := hp.imp_right fun h => h.trans hm
        simp [mergePositiveExtrema, hm, hp, hw]
      · simp [mergePositiveExtrema, hm, hp]
    · by_cases hp : p.2 = none ∨ p.1 < m
      · simp [mergePositiveExtrema, hm, hp]
      · have hw : ¬(p.2 = none ∨ p.1 < w) := by
          rw [not_or, not_lt] at hp ⊢
          exact ⟨hp.1, (not_lt.1 hm).trans hp.2⟩
        simp [mergePositiveExtrema, hm, hp, hw]

theorem mergeNegativeExtrema_lower {p q : K × Option (DiagnosticSample K)} {w : K}
    {sample : DiagnosticSample K} (hq : q.2 = none → q.1 = 0) :
    mergeNegativeExtrema p (lower q w sample) = lower (mergeNegativeExtrema p q) w sample := by
  unfold lower
  obtain ⟨m, own⟩ := q
  cases own with
  | none =>
    obtain rfl : m = 0 := hq rfl
    simp [mergeNegativeExtrema]
  | some own =>
    by_cases hm : w < m
    · by_cases hp : p.2 = none ∨ m < p.1
      · have hw : p.2 = none ∨ w < p.1 := hp.imp_right fun h => hm.trans h
        simp [mergeNegativeExtrema, hm, hp, hw]
      · simp [mergeNegativeExtrema, hm, hp]
    · by_cases hp : p.2 = none ∨ m < p.1
      · simp [mergeNegativeExtrema, hm, hp]
      · have hw : ¬(p.2 = none ∨ w < p.1) := by
          rw [not_or, not_lt] at hp ⊢
          exact ⟨hp.1, hp.2.trans (not_lt.1 hm)⟩
        simp [mergeNegativeExtrema, hm, hp, hw]

/-- A sample of the second part is one of the merged state. -/
theorem mergePlain_accept (hmoments : s.moments = t.moments) (ht : t.Extremal) :
    s.mergePlain (t.accept x) = (s.mergePlain t).accept x := by
  rw [accept_eq, accept_eq]
  obtain ⟨⟩ := s
  obtain ⟨⟩ := t
  cases hmoments
  unfold mergePlain withExtrema withSample positive negative
  dsimp only
  rw [mk.injEq]
  refine ⟨rfl, rfl, (add_assoc _ _ _).symm, (add_assoc _ _ _).symm, (add_assoc _ _ _).symm,
    (add_assoc _ _ _).symm, (add_assoc _ _ _).symm, ?_, ?_, ?_, ?_, rfl, rfl⟩
  · split
    · exact congrArg Prod.fst (mergePositiveExtrema_raise ht.positive)
    · rfl
  · split
    · rfl
    · exact congrArg Prod.fst (mergeNegativeExtrema_lower ht.negative)
  · split
    · exact congrArg Prod.snd (mergePositiveExtrema_raise ht.positive)
    · rfl
  · split
    · rfl
    · exact congrArg Prod.snd (mergeNegativeExtrema_lower ht.negative)

/-- The statistics of a list, without its bins. -/
def ofList (discreteProjections : Option DiscreteProjectionConfig)
    (moments : AccumulatorMomentConfig) (l : List (ScalarSample K)) : ScalarSums K :=
  l.foldl accept (.new discreteProjections moments)

section OfList

variable {discreteProjections : Option DiscreteProjectionConfig}
  {moments : AccumulatorMomentConfig} {l l' : List (ScalarSample K)}

theorem ofList_concat : ofList discreteProjections moments (l ++ [x]) =
    (ofList discreteProjections moments l).accept x := by
  unfold ofList
  rw [List.foldl_append]
  rfl

/-- What a sample does not change. -/
theorem foldl_accept_kept (s : ScalarSums K) (l : List (ScalarSample K)) :
    (l.foldl accept s).discreteProjections = s.discreteProjections ∧
      (l.foldl accept s).moments = s.moments ∧ (l.foldl accept s).discreteBins = s.discreteBins ∧
      (l.foldl accept s).discreteBinsOverflowCount = s.discreteBinsOverflowCount := by
  induction l generalizing s with
  | nil => exact ⟨rfl, rfl, rfl, rfl⟩
  | cons x l ih =>
    obtain ⟨hprojections, hmoments, hbins, hoverflow⟩ := ih (s.accept x)
    exact ⟨hprojections.trans accept_discreteProjections, hmoments.trans accept_moments,
      hbins.trans accept_discreteBins, hoverflow.trans accept_discreteBinsOverflowCount⟩

theorem extremal_ofList : (ofList discreteProjections moments l).Extremal := by
  induction l using List.reverseRecOn with
  | nil => exact ⟨fun _ => rfl, fun _ => rfl⟩
  | append_singleton l x ih =>
    rw [ofList_concat]
    exact ih.accept

/-- The statistics of a list merged are its samples accepted. -/
theorem mergePlain_ofList (hmoments : s.moments = moments) :
    s.mergePlain (ofList discreteProjections moments l) = l.foldl accept s := by
  induction l using List.reverseRecOn with
  | nil =>
    obtain ⟨⟩ := s
    simp [mergePlain, ofList, new, mergePositiveExtrema, mergeNegativeExtrema]
  | append_singleton l x ih =>
    have hkept : (ofList discreteProjections moments l).moments = moments :=
      (foldl_accept_kept _ _).2.1
    rw [ofList_concat, mergePlain_accept (hmoments.trans hkept.symm) extremal_ofList, ih,
      List.foldl_append]
    rfl

end OfList

end ScalarSums

end Gammaboard.Evaluation
