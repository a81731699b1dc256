import Gammaboard.Evaluation.VectorSplits

/-!
# Totals of a vector

The count and the weighted sum of every component of a vector that has taken the
samples of a list. They do not depend on the bins, of which there may be more than
are kept.
-/

namespace Gammaboard.Evaluation

open Gammaboard.Core Gammaboard.Sampling Gammaboard.Lib

variable {K : Type} [Field K] [LinearOrder K]

/-! ## A component -/

/-- What a scalar has counted and summed; no bin has counted more. -/
structure ScalarAccumulatorState.Totals (n : Nat) (total : K)
    (a : ScalarAccumulatorState (ScalarSums K)) : Prop where
  count : a.count = n
  sum : a.stats.sumWeightedValue = total
  bins : ∀ e ∈ a.stats.discreteBins, e.2.state.count ≤ n

namespace ScalarAccumulatorState

variable {a : ScalarAccumulatorState (ScalarSums K)} {total : K} {n : Nat} (value : K)
  (point : Point K) (stratum : Option (List Int × List Int))

@[simp] theorem updateExtrema_bins (s : ScalarSums K) (weighted : K) :
    (s.updateExtrema weighted point stratum).discreteBins = s.discreteBins := by
  unfold ScalarSums.updateExtrema
  split
  · rfl
  · split <;> rfl

/-- A bin is one there was, or it has counted the sample. -/
theorem upsertDiscreteBin_totals {s : ScalarSums K}
    (hbins : ∀ e ∈ s.discreteBins, e.2.state.count ≤ n) (hn : (n : Int) < i64Max) :
    ∃ t, s.upsertDiscreteBin value point stratum = .ok t ∧
      t.sumWeightedValue = s.sumWeightedValue ∧
        ∀ e ∈ t.discreteBins, e.2.state.count ≤ (n + 1 : Nat) := by
  have hold : ∀ e ∈ s.discreteBins, e.2.state.count ≤ (n + 1 : Nat) := by
    intro e he
    have := hbins e he
    omega
  unfold ScalarSums.upsertDiscreteBin
  dsimp only
  cases hget : OrdMap.get (discreteBinKey point.discrete) s.discreteBins with
  | none =>
    dsimp only
    split
    · exact ⟨_, rfl, rfl, hold⟩
    · rw [addPlainSample_ok (show (0 : Int) < i64Max by decide)]
      refine ⟨_, rfl, rfl, fun e he => ?_⟩
      rcases OrdMap.mem_of_mem_insert he with rfl | he
      · show (0 : Int) + 1 ≤ _
        omega
      · exact hold e he
  | some bin =>
    have hbin : bin.state.count ≤ n := hbins _ (OrdMap.mem_of_get hget)
    dsimp only
    rw [addPlainSample_ok (show bin.state.count < i64Max by omega)]
    refine ⟨_, rfl, rfl, fun e he => ?_⟩
    rcases OrdMap.mem_of_mem_insert he with rfl | he
    · show bin.state.count + 1 ≤ _
      omega
    · exact hold e he

/-- A sample is counted and its weighted value added. -/
theorem Totals.addSample (h : a.Totals n total) (hn : (n : Int) < i64Max) :
    ∃ b, a.addSample value point stratum = .ok b ∧
      b.Totals (n + 1) (total + value * |point.totalWeight|) := by
  have hsums : a.sumsWithSample value point = .ok (a.stats.withSample value point) := by
    unfold sumsWithSample
    rw [if_neg (by rw [h.count]; omega)]
  have hvalue : (a.stats.withSample value point).sumWeightedValue =
      total + value * |point.totalWeight| := congrArg (· + value * |point.totalWeight|) h.sum
  have hbins : ∀ e ∈ (a.stats.withSample value point).discreteBins, e.2.state.count ≤ n := h.bins
  unfold ScalarAccumulatorState.addSample
  rw [hsums]
  by_cases hpath : point.discrete = []
  · simp only [bind, Except.bind, if_pos hpath, pure, Except.pure]
    refine ⟨_, rfl, by simp [acceptSample, h.count], by simpa [acceptSample] using hvalue,
      fun e he => ?_⟩
    have := hbins e (by simpa [acceptSample] using he)
    omega
  · obtain ⟨t, ht, hsum, htbins⟩ := upsertDiscreteBin_totals value point stratum hbins hn
    simp only [bind, Except.bind, if_neg hpath, ht, pure, Except.pure]
    exact ⟨_, rfl, by simp [acceptSample, h.count], by simp [acceptSample, hsum, hvalue],
      fun e he => htbins e (by simpa [acceptSample] using he)⟩

end ScalarAccumulatorState

/-! ## All components -/

/-- The sums of the weighted values of every component. -/
def totalsOf (width : Nat) (l : List (VectorSample K)) : List K :=
  (List.range width).map fun j =>
    (l.map fun x => x.values.getD j 0 * |x.point.totalWeight|).sum

theorem totalsOf_concat {width : Nat} {l : List (VectorSample K)} {x : VectorSample K}
    (hvalues : x.values.length = width) :
    List.zipWith (fun total value => total + value * |x.point.totalWeight|) (totalsOf width l)
        x.values = totalsOf width (l ++ [x]) := by
  unfold totalsOf
  refine List.ext_getElem (by simp [hvalues]) fun j hj hj' => ?_
  have hx : j < x.values.length := by simpa [hvalues] using hj'
  simp [hx]

/-- What a vector has counted and summed of the samples of a list. -/
structure VectorAccumulatorState.Totals (names : List String) (projection : TrainingProjection)
    (l : List (VectorSample K))
    (a : VectorAccumulatorState (ScalarSums K) (StratificationConfig K)) : Prop where
  layout : a.components.map (·.name) = names
  spec : a.projectionSpec = projection
  partition : a.partition = none
  components : List.Forall₂ (fun c total => c.state.Totals l.length total) a.components
    (totalsOf names.length l)
  norm : ∀ c, a.projection = .norm c → ∃ total, c.state.Totals l.length total

namespace VectorAccumulatorState

variable {hypot : K → K → K} {names : List String} {projection : TrainingProjection}
  {l : List (VectorSample K)} {x : VectorSample K}
  {a : VectorAccumulatorState (ScalarSums K) (StratificationConfig K)}

/-- Every component takes its value. -/
theorem addValues_totals {n : Nat} (hn : (n : Int) < i64Max) (point : Point K)
    (stratum : Option (List Int × List Int)) :
    ∀ {cs : List (NamedScalarAccumulator (ScalarSums K))} {totals values : List K},
      List.Forall₂ (fun c total => c.state.Totals n total) cs totals → values.length = cs.length →
      ∃ cs', addValues point stratum cs values = .ok cs' ∧ cs'.map (·.name) = cs.map (·.name) ∧
        List.Forall₂ (fun c total => c.state.Totals (n + 1) total) cs'
          (List.zipWith (fun total value => total + value * |point.totalWeight|) totals values)
  | [], [], [], .nil, _ => by
    refine ⟨[], ?_, rfl, .nil⟩
    unfold addValues
    rfl
  | c :: cs, total :: totals, value :: values, .cons hc hcs, hlen => by
    obtain ⟨state, hstate, htotals⟩ := hc.addSample value point stratum hn
    obtain ⟨cs', hcs', hnames, hrest⟩ := addValues_totals hn point stratum hcs (by simpa using hlen)
    refine ⟨{ c with state } :: cs', ?_, by simp [hnames], .cons htotals hrest⟩
    unfold addValues
    rw [hstate, hcs']
    rfl

variable (hypot) in
/-- A vector takes a row of its width. -/
theorem Totals.ingest {discreteProjections : Option DiscreteProjectionConfig}
    {moments : AccumulatorMomentConfig} (h : a.Totals names projection l)
    (hconfig : (AccumulatorConfig.vector names projection discreteProjections moments).validate =
      .ok ())
    (hvalues : x.values.length = names.length) (hcount : (l.length : Int) < i64Max) :
    ∃ b, a.ingestVector hypot x.values x.point x.stratum = .ok b ∧
      b.Totals names projection (l ++ [x]) := by
  have hlen : a.components.length = names.length := by rw [← h.layout, List.length_map]
  obtain ⟨cs, hcs, hnames, hall⟩ := addValues_totals hcount x.point x.stratum h.components (hvalues.trans hlen.symm)
  rw [totalsOf_concat hvalues] at hall
  have hcomponents : List.Forall₂ (fun c total => c.state.Totals (l ++ [x]).length total) cs
      (totalsOf names.length (l ++ [x])) := by
    rwa [List.length_append]
  unfold ingestVector project
  rw [if_neg (by rw [hvalues, hlen, not_not]), hcs]
  obtain ⟨components, partition, own⟩ := a
  cases own with
  | component name =>
    have hname : name ∈ components.map (·.name) := by
      have hspec : projection = .component name := h.spec.symm
      rw [hspec] at hconfig
      rw [show components.map (·.name) = names from h.layout]
      exact AccumulatorConfig.mem_of_validate hconfig
    dsimp only
    cases hindex : components.findIdx? (·.name == name) with
    | none =>
      obtain ⟨c, hc, hcname⟩ := List.mem_map.1 hname
      have hnot := List.findIdx?_eq_none_iff.1 hindex c hc
      simp [hcname] at hnot
    | some index =>
      exact ⟨_, rfl, hnames.trans h.layout, h.spec, h.partition, hcomponents, by rintro c ⟨⟩⟩
  | norm c =>
    obtain ⟨total, htotal⟩ := h.norm c rfl
    obtain ⟨state, hstate, hnorm⟩ := htotal.addSample (x.values.foldl hypot 0) x.point x.stratum
      hcount
    simp only [bind, Except.bind, hstate, errorAt]
    refine ⟨_, rfl, hnames.trans h.layout, h.spec, h.partition, hcomponents, ?_⟩
    rintro c' ⟨⟩
    exact ⟨_, by rwa [List.length_append]⟩

end VectorAccumulatorState

end Gammaboard.Evaluation
