import Gammaboard.Evaluation.ScalarEstimates
import Gammaboard.Evaluation.ScalarInPlace
import Gammaboard.Lib.Accumulation

/-!
# Trees of scalar merges

Scalar accumulators built from the parts of a list and merged in any order of
brackets. Whatever the parts, the counts, the sums and the extrema are those of the
list, and so are the estimates read off them; only the bins depend on the parts,
and no bin ever keeps a merge from being accepted.
-/

namespace Gammaboard.Evaluation

open Gammaboard.Core Gammaboard.Sampling Gammaboard.Lib

variable {K M G L : Type} [Field K] [LinearOrder K]

/-- The statistics without those of the bins. -/
def ScalarSums.withoutBins (s : ScalarSums K) : ScalarSums K :=
  { s with discreteBins := [], discreteBinsOverflowCount := 0 }

/-- A bin of at most so many samples: a plain accumulator without bins of its own. -/
structure PlainBin (n : Nat) (bin : DiscreteProjectionBinState (ScalarSums K)) : Prop where
  discreteProjections : bin.state.stats.discreteProjections = none
  moments : bin.state.stats.moments = .maxOrder2
  bins : bin.state.stats.discreteBins = []
  nonneg : 0 ≤ bin.state.count
  bounded : bin.state.count ≤ n

theorem PlainBin.mono {m n : Nat} {bin : DiscreteProjectionBinState (ScalarSums K)}
    (h : PlainBin m bin) (hle : m ≤ n) : PlainBin n bin :=
  { h with bounded := h.bounded.trans (Int.ofNat_le.2 hle) }

theorem PlainBin.validate {n : Nat} {bin : DiscreteProjectionBinState (ScalarSums K)}
    (h : PlainBin n bin) :
    bin.state.stats.validate (fun _ => true) bin.state.count = .ok () := by
  refine ScalarSums.validate_ok_iff.2
    ⟨ScalarSums.checkSums_ok_iff.2 fun _ _ => ⟨rfl, rfl, rfl⟩, h.nonneg, ?_⟩
  rw [h.bins]
  exact fun e he => absurd he List.not_mem_nil

theorem PlainBin.merge {m n : Nat} {bin other : DiscreteProjectionBinState (ScalarSums K)}
    (h : PlainBin m bin) (ho : PlainBin n other) : PlainBin (m + n) (bin.mergeInPlace other) where
  discreteProjections := h.discreteProjections
  moments := h.moments
  bins := h.bins
  nonneg := Int.add_nonneg h.nonneg ho.nonneg
  bounded := by
    rw [Nat.cast_add]
    exact Int.add_le_add h.bounded ho.bounded

section Accumulated

variable (discreteProjections : Option DiscreteProjectionConfig) (moments : AccumulatorMomentConfig)

/-- What an accumulator of the samples of a list is, however they were added and merged. -/
structure Accumulated (l : List (ScalarSample K)) (a : ScalarAccumulatorState (ScalarSums K)) :
    Prop where
  count : a.count = l.length
  bounded : a.count ≤ i64Max
  stats : a.stats.withoutBins = ScalarSums.ofList discreteProjections moments l
  ascending : OrdMap.Ascending a.stats.discreteBins
  bins : ∀ e ∈ a.stats.discreteBins, PlainBin l.length e.2

variable {discreteProjections moments} {l l' : List (ScalarSample K)}
  {a b c : ScalarAccumulatorState (ScalarSums K)} {x : ScalarSample K}

theorem accumulated_new : Accumulated discreteProjections moments [] (K := K)
    ⟨0, .new discreteProjections moments⟩ where
  count := rfl
  bounded := show (0 : Int) ≤ i64Max by decide
  stats := rfl
  ascending := List.Pairwise.nil
  bins := fun e he => absurd he List.not_mem_nil

/-! ## Samples -/

/-- The sample goes into a bin of its own and the others stay. -/
theorem upsertDiscreteBin_bins {s s' : ScalarSums K} {n : Nat}
    (hascending : OrdMap.Ascending s.discreteBins) (hbins : ∀ e ∈ s.discreteBins, PlainBin n e.2)
    (h : s.upsertDiscreteBin x.value x.point x.stratum = .ok s') :
    s'.withoutBins = s.withoutBins ∧ OrdMap.Ascending s'.discreteBins ∧
      ∀ e ∈ s'.discreteBins, PlainBin (n + 1) e.2 := by
  have hkept : ∀ e ∈ s.discreteBins, PlainBin (n + 1) e.2 :=
    fun e he => (hbins e he).mono (Nat.le_succ n)
  -- the bin that takes the sample stays plain
  have hadd : ∀ {discrete : List Int} {state state' : ScalarAccumulatorState (ScalarSums K)},
      PlainBin n ⟨discrete, state⟩ →
        state.addPlainSample x.value x.point x.stratum = .ok state' →
          PlainBin (n + 1) ⟨discrete, state'⟩ := by
    intro discrete state state' hplain hstate
    unfold ScalarAccumulatorState.addPlainSample ScalarAccumulatorState.sumsWithSample at hstate
    split at hstate
    · cases hstate
    · rw [← Except.ok.inj hstate]
      have haccept := ScalarSums.accept_discreteBins (s := state.stats) (x := x)
      refine ⟨ScalarSums.accept_discreteProjections.trans hplain.discreteProjections,
        ScalarSums.accept_moments.trans hplain.moments, haccept.trans hplain.bins, ?_, ?_⟩
      · exact Int.add_nonneg hplain.nonneg Int.one_nonneg
      · have := hplain.bounded
        show state.count + 1 ≤ _
        push_cast
        dsimp only at this
        omega
  unfold ScalarSums.upsertDiscreteBin at h
  dsimp only at h
  cases hget : OrdMap.get (discreteBinKey x.point.discrete) s.discreteBins with
  | none =>
    rw [hget] at h
    dsimp only at h
    split at h
    · rw [← Except.ok.inj h]
      exact ⟨rfl, hascending, hkept⟩
    · rw [ScalarAccumulatorState.addPlainSample_ok (show (0 : Int) < i64Max by decide)] at h
      rw [← Except.ok.inj h]
      refine ⟨rfl, hascending.insert, fun e he => ?_⟩
      rcases OrdMap.mem_of_mem_insert he with rfl | he
      · exact hadd ⟨rfl, rfl, rfl, le_rfl, Int.natCast_nonneg n⟩
          (ScalarAccumulatorState.addPlainSample_ok (show (0 : Int) < i64Max by decide))
      · exact hkept e he
  | some bin =>
    rw [hget] at h
    dsimp only at h
    cases hstate : bin.state.addPlainSample x.value x.point x.stratum with
    | error e =>
      rw [hstate] at h
      cases h
    | ok state =>
      rw [hstate] at h
      rw [← Except.ok.inj h]
      refine ⟨rfl, hascending.insert, fun e he => ?_⟩
      rcases OrdMap.mem_of_mem_insert he with rfl | he
      · exact hadd (hbins _ (OrdMap.mem_of_get hget)) hstate
      · exact hkept e he

theorem ScalarSums.withoutBins_updateExtrema (s : ScalarSums K) (w : K) (point : Point K)
    (stratum : Option (List Int × List Int)) :
    (s.updateExtrema w point stratum).withoutBins = s.withoutBins.updateExtrema w point stratum := by
  rw [updateExtrema_eq, updateExtrema_eq]
  rfl

theorem ScalarSums.updateExtrema_discreteBins (s : ScalarSums K) (w : K) (point : Point K)
    (stratum : Option (List Int × List Int)) :
    (s.updateExtrema w point stratum).discreteBins = s.discreteBins := by
  rw [updateExtrema_eq]
  rfl

theorem Accumulated.ingest (h : Accumulated discreteProjections moments l a)
    (hok : a.ingest x = .ok c) : Accumulated discreteProjections moments (l ++ [x]) c := by
  unfold ScalarAccumulatorState.ingest ScalarAccumulatorState.addSample
    ScalarAccumulatorState.sumsWithSample at hok
  split at hok
  · cases hok
  · rename_i hcount
    dsimp only [bind, Except.bind] at hok
    -- whether or not the sample has a bin, the rest is accepted on top of the bins
    obtain ⟨stats, rfl, hstats, hascending, hbins⟩ : ∃ stats : ScalarSums K,
        c = a.acceptSample stats x.value x.point x.stratum ∧
          stats.withoutBins = (a.stats.withSample x.value x.point).withoutBins ∧
          OrdMap.Ascending stats.discreteBins ∧
          ∀ e ∈ stats.discreteBins, PlainBin (l.length + 1) e.2 := by
      by_cases hpath : x.point.discrete = []
      · rw [if_pos hpath] at hok
        exact ⟨_, (Except.ok.inj hok).symm, rfl, h.ascending,
          fun e he => (h.bins e he).mono (Nat.le_succ _)⟩
      · rw [if_neg hpath] at hok
        cases hupsert : (a.stats.withSample x.value x.point).upsertDiscreteBin x.value x.point
            x.stratum with
        | error e =>
          rw [hupsert] at hok
          cases hok
        | ok stats =>
          rw [hupsert] at hok
          exact ⟨stats, (Except.ok.inj hok).symm,
            upsertDiscreteBin_bins (s := a.stats.withSample x.value x.point) h.ascending h.bins
              hupsert⟩
    refine ⟨?_, not_lt.1 hcount, ?_, ?_, fun e he => ?_⟩
    · show a.count + 1 = _
      rw [h.count, List.length_append, List.length_singleton, Nat.cast_add, Nat.cast_one]
    · show (stats.updateExtrema _ _ _).withoutBins = _
      rw [ScalarSums.withoutBins_updateExtrema, hstats, ScalarSums.ofList_concat, ← h.stats]
      rfl
    · show OrdMap.Ascending (stats.updateExtrema _ _ _).discreteBins
      rw [ScalarSums.updateExtrema_discreteBins]
      exact hascending
    · have he : e ∈ (stats.updateExtrema _ _ _).discreteBins := he
      rw [ScalarSums.updateExtrema_discreteBins] at he
      rw [List.length_append]
      exact hbins e he

/-- A sample is refused for the number of samples only. -/
theorem Accumulated.ingest_ok (h : Accumulated discreteProjections moments l a)
    (hcount : a.count < i64Max) : ∃ c, a.ingest x = .ok c := by
  unfold ScalarAccumulatorState.ingest ScalarAccumulatorState.addSample
    ScalarAccumulatorState.sumsWithSample
  rw [if_neg (by omega)]
  dsimp only [bind, Except.bind]
  by_cases hpath : x.point.discrete = []
  · rw [if_pos hpath]
    exact ⟨_, rfl⟩
  · have hbins : ∀ e ∈ (a.stats.withSample x.value x.point).discreteBins,
        e.2.state.count < i64Max := by
      intro e he
      have hle := (h.bins e he).bounded
      have hlength := h.count
      omega
    obtain ⟨discreteBins, overflow, hupsert⟩ := ScalarSums.upsertDiscreteBin_ok hbins
    rw [if_neg hpath, hupsert]
    exact ⟨_, rfl⟩

/-! ## Merges -/

variable {num : Numerics K (ScalarSums K) M G L}

theorem Accumulated.validate (h : Accumulated discreteProjections moments l a) :
    a.stats.validate (fun _ => true) a.count = .ok () :=
  ScalarSums.validate_ok_iff.2 ⟨ScalarSums.checkSums_ok_iff.2 fun _ _ => ⟨rfl, rfl, rfl⟩,
    h.count.symm ▸ Int.natCast_nonneg _, fun e he => (h.bins e he).validate⟩

theorem Accumulated.config (h : Accumulated discreteProjections moments l a) :
    a.stats.discreteProjections = discreteProjections ∧ a.stats.moments = moments := by
  have hkept := ScalarSums.foldl_accept_kept (ScalarSums.new discreteProjections moments) l
  have hprojections : a.stats.withoutBins.discreteProjections = discreteProjections := by
    rw [h.stats]
    exact hkept.1
  have hmoments : a.stats.withoutBins.moments = moments := by
    rw [h.stats]
    exact hkept.2.1
  exact ⟨hprojections, hmoments⟩

/-- Two accumulators are refused for the number of their samples only. -/
theorem Accumulated.validateMerge (h : Accumulated discreteProjections moments l a)
    (h' : Accumulated discreteProjections moments l' b) :
    a.validateMerge (withScalars (fun _ => true) num) b =
      if i64Max < a.count + b.count then .error (.eval "sample count overflow") else .ok () := by
  have hconfig : ScalarSums.sameConfig a.stats b.stats = true := by
    unfold ScalarSums.sameConfig
    rw [h.config.1, h.config.2, h'.config.1, h'.config.2]
    simp
  have hbins : ∀ count : a.count + b.count ≤ i64Max,
      validateMergeBins (fun _ => true) a.stats.discreteBins b.stats.discreteBins = .ok () := by
    intro hcount
    refine validateMergeBins_ok_iff.2 fun e he current hcurrent => ?_
    have hown := h.bins _ (OrdMap.mem_of_get hcurrent)
    have hother := h'.bins e he
    refine ScalarSums.validateMerge_ok_iff.2 ⟨⟨hown.discreteProjections.trans
      hother.discreteProjections.symm, hown.moments.trans hother.moments.symm⟩, hown.validate,
      hother.validate, ScalarSums.checkSumsWith_ok_iff.2 fun _ _ => ⟨rfl, rfl, rfl⟩, ?_, ?_⟩
    · have := hown.bounded
      have := hother.bounded
      rw [h.count, h'.count] at hcount
      dsimp only at *
      omega
    · rw [hother.bins]
      rfl
  unfold ScalarAccumulatorState.validateMerge
  rw [if_neg (by simpa [withScalars] using hconfig), validate_withScalars.2 h.validate,
    validate_withScalars.2 h'.validate]
  have hsums : (withScalars (fun _ => true) num).checkSumsWith a.stats b.stats = .ok () := by
    show ScalarSums.checkSumsWith (fun _ => true) a.stats b.stats = .ok ()
    exact ScalarSums.checkSumsWith_ok_iff.2 fun _ _ => ⟨rfl, rfl, rfl⟩
  dsimp only [bind, Except.bind]
  rw [hsums]
  dsimp only
  split
  · rfl
  · rename_i hcount
    exact hbins (not_lt.1 hcount)

theorem Accumulated.merge (h : Accumulated discreteProjections moments l a)
    (h' : Accumulated discreteProjections moments l' b) (hcount : a.count + b.count ≤ i64Max) :
    Accumulated discreteProjections moments (l ++ l')
      (a.mergePlain (withScalars (fun _ => true) num) b) where
  count := by
    show a.count + b.count = _
    rw [h.count, h'.count, List.length_append, Nat.cast_add]
  bounded := hcount
  stats := by
    have hmerge : (a.stats.merge b.stats).withoutBins =
        a.stats.withoutBins.mergePlain b.stats.withoutBins := rfl
    have hmoments : a.stats.withoutBins.moments = moments := h.config.2
    show (a.stats.merge b.stats).withoutBins = _
    rw [hmerge, h'.stats, ScalarSums.mergePlain_ofList hmoments, h.stats]
    unfold ScalarSums.ofList
    rw [List.foldl_append]
  ascending := by
    show OrdMap.Ascending (b.stats.discreteBins.foldl mergeBin a.stats.discreteBins)
    rw [mergeBin_eq]
    exact Tally.ascending_merge h.ascending
  bins := by
    intro e he
    rw [List.length_append]
    rcases mem_foldl_mergeBin h'.ascending.nodup he with he | he | ⟨other, current, hmem, hget, heq⟩
    · exact (h.bins e he).mono (Nat.le_add_right _ _)
    · exact (h'.bins e he).mono (Nat.le_add_left _ _)
    · rw [heq]
      exact (h.bins _ (OrdMap.mem_of_get hget)).merge (h'.bins _ hmem)

end Accumulated

/-! ## Trees -/

section Trees

variable (num : Numerics K (ScalarSums K) M G L)
  (discreteProjections : Option DiscreteProjectionConfig) (moments : AccumulatorMomentConfig)

/-- A tree of samples and merges run in place, over numbers that are all finite. -/
def runScalars (tree : Accumulation (ScalarSample K)) :
    Except EngineError (ScalarAccumulatorState (ScalarSums K)) :=
  tree.run (.ok ⟨0, .new discreteProjections moments⟩) (fun a x => taken (a.addSampleInto .all x))
    fun a b => taken (a.mergeInto (withScalars (fun _ => true) num) b)

variable {num discreteProjections moments} {l l' : List (ScalarSample K)}
  {a b : ScalarAccumulatorState (ScalarSums K)} {x : ScalarSample K}

theorem Accumulated.taken_addSampleInto (h : Accumulated discreteProjections moments l a) :
    taken (a.addSampleInto .all x) = a.ingest x := by
  rw [addSampleInto_all h.ascending, taken_replaced]

theorem Accumulated.taken_mergeInto (h : Accumulated discreteProjections moments l a)
    (h' : Accumulated discreteProjections moments l' b) :
    taken (a.mergeInto (withScalars (fun _ => true) num) b) =
      if i64Max < a.count + b.count then .error (.eval "sample count overflow")
      else .ok (a.mergePlain (withScalars (fun _ => true) num) b) := by
  unfold ScalarAccumulatorState.mergeInto
  rw [h.validateMerge h']
  by_cases hcount : i64Max < a.count + b.count
  · rw [if_pos hcount, if_pos hcount]
    rfl
  · rw [if_neg hcount, if_neg hcount]
    rfl

theorem keeps_accumulated : Accumulation.Keeps
    (.ok ⟨0, .new discreteProjections moments⟩)
    (fun a (x : ScalarSample K) => taken (a.addSampleInto .all x))
    (fun a b => taken (a.mergeInto (withScalars (fun _ => true) num) b))
    (Accumulated discreteProjections moments) where
  init := by
    intro a h
    obtain rfl := Except.ok.inj h
    exact accumulated_new
  push := by
    intro l a x c h hok
    rw [h.taken_addSampleInto] at hok
    exact h.ingest hok
  merge := by
    intro l a l' b c h h' hok
    rw [h.taken_mergeInto h'] at hok
    split at hok
    · cases hok
    · rename_i hcount
      rw [← Except.ok.inj hok]
      exact h.merge h' (not_lt.1 hcount)

theorem succeeds_accumulated : Accumulation.Succeeds
    (.ok ⟨0, .new discreteProjections moments⟩)
    (fun a (x : ScalarSample K) => taken (a.addSampleInto .all x))
    (fun a b => taken (a.mergeInto (withScalars (fun _ => true) num) b))
    (Accumulated discreteProjections moments) fun l => (l.length : Int) ≤ i64Max where
  left := by
    intro l l' h
    rw [List.length_append] at h
    omega
  right := by
    intro l l' h
    rw [List.length_append] at h
    omega
  init := fun _ => ⟨_, rfl⟩
  push := by
    intro l a x h hcount
    rw [h.taken_addSampleInto]
    rw [List.length_append, List.length_singleton] at hcount
    have hlength := h.count
    exact h.ingest_ok (by omega)
  merge := by
    intro l a l' b h h' hcount
    rw [List.length_append] at hcount
    have hleft := h.count
    have hright := h'.count
    rw [h.taken_mergeInto h', if_neg (by omega)]
    exact ⟨_, rfl⟩

/-- A tree is run exactly when its samples can be counted. -/
theorem runScalars_iff (num : Numerics K (ScalarSums K) M G L)
    (discreteProjections : Option DiscreteProjectionConfig) (moments : AccumulatorMomentConfig)
    (tree : Accumulation (ScalarSample K)) :
    (∃ a, runScalars num discreteProjections moments tree = .ok a) ↔
      (tree.samples.length : Int) ≤ i64Max := by
  constructor
  · rintro ⟨a, ha⟩
    have hrun : Accumulated discreteProjections moments tree.samples a := keeps_accumulated.run ha
    exact hrun.count ▸ hrun.bounded
  · exact succeeds_accumulated.run keeps_accumulated

variable [IsStrictOrderedRing K]

/-- What the estimates of an accumulator are for the samples of a list. -/
structure Estimates (root : SquareRoot K) (l : List (ScalarSample K))
    (a : ScalarAccumulatorState (ScalarSums K)) : Prop where
  mean : a.mean = Moments.mean ScalarSample.contribution l
  variance : a.variance = Moments.unbiased ScalarSample.contribution l
  stderr : a.stderr root.sqrt =
    if 2 ≤ l.length then
      some (root.sqrt (Moments.unbiased ScalarSample.contribution l / l.length))
    else none
  ess : a.ess root.sqrt = Moments.effective ScalarSample.contribution l
  ess_nonneg : 0 ≤ a.ess root.sqrt
  ess_le_one : a.ess root.sqrt ≤ 1

theorem Accumulated.estimates (root : SquareRoot K)
    (h : Accumulated discreteProjections moments l a) : Estimates root l a := by
  obtain ⟨hsum, habs, hsq⟩ := ScalarSums.sums_ofList discreteProjections moments l
  rw [← h.stats] at hsum habs hsq
  have hess : a.ess root.sqrt = Moments.effective ScalarSample.contribution l :=
    ess_total root h.count habs hsq
  refine ⟨?_, ?_, ?_, hess, hess ▸ Moments.effective_nonneg, hess ▸ Moments.effective_le_one⟩
  · unfold ScalarAccumulatorState.mean
    rw [h.count, show a.stats.sumWeightedValue = _ from hsum]
    exact meanFromSums_total
  · unfold ScalarAccumulatorState.variance
    rw [h.count, show a.stats.sumWeightedValue = _ from hsum, show a.stats.sumSq = _ from hsq]
    exact varianceFromSums_total
  · unfold ScalarAccumulatorState.stderr
    rw [h.count, show a.stats.sumWeightedValue = _ from hsum, show a.stats.sumSq = _ from hsq]
    exact stderrFromSums_total root.sqrt

/-- The same count, sums and extrema. -/
structure SameStatistics (a b : ScalarAccumulatorState (ScalarSums K)) : Prop where
  count : a.count = b.count
  sums : a.stats.sums = b.stats.sums
  positive : a.stats.positive = b.stats.positive
  negative : a.stats.negative = b.stats.negative

omit [IsStrictOrderedRing K] in
theorem Accumulated.same (h : Accumulated discreteProjections moments l a)
    (h' : Accumulated discreteProjections moments l b) : SameStatistics a b := by
  have hstats : a.stats.withoutBins = b.stats.withoutBins := h.stats.trans h'.stats.symm
  have hsums : a.stats.withoutBins.sums = b.stats.withoutBins.sums := by rw [hstats]
  have hpositive : a.stats.withoutBins.positive = b.stats.withoutBins.positive := by rw [hstats]
  have hnegative : a.stats.withoutBins.negative = b.stats.withoutBins.negative := by rw [hstats]
  exact ⟨h.count.trans h'.count.symm, hsums, hpositive, hnegative⟩

/-- Parts of a list of samples merged in any order of brackets: the run succeeds with the one that
adds the samples one by one, and has its count, its sums and its extrema, which are the first
samples with the extreme contributions; the estimates are the statistics of the contributions. A
sample or a merge that is rejected leaves the accumulator as it was. -/
theorem scalar_accumulations (num : Numerics K (ScalarSums K) M G L)
    (discreteProjections : Option DiscreteProjectionConfig) (moments : AccumulatorMomentConfig)
    (root : SquareRoot K) (tree : Accumulation (ScalarSample K)) :
    (match runScalars num discreteProjections moments (.ofList tree.samples) with
      | .ok whole => ∃ merged, runScalars num discreteProjections moments tree = .ok merged ∧
          SameStatistics merged whole ∧ FirstLargest tree.samples merged.stats.positive ∧
          FirstSmallest tree.samples merged.stats.negative ∧
          Estimates root tree.samples merged
      | .error _ => ∃ e, runScalars num discreteProjections moments tree = .error e) ∧
    (∀ (fin : Finiteness K) (a : ScalarAccumulatorState (ScalarSums K)) (x : ScalarSample K) c e,
      a.addSampleInto fin x = (c, some e) → c = a) ∧
    ∀ (fin : Finiteness K) (a b c : ScalarAccumulatorState (ScalarSums K)) e,
      a.mergeInto (withScalars fin.finite num) b = (c, some e) → c = a := by
  refine ⟨?_, fun fin a x c e h => addSampleInto_error h,
    fun fin a b c e h => ScalarAccumulatorState.mergeInto_error h⟩
  have hwhole := runScalars_iff num discreteProjections moments (.ofList tree.samples)
  rw [Accumulation.samples_ofList, ← runScalars_iff num discreteProjections moments tree] at hwhole
  cases hrun : runScalars num discreteProjections moments (.ofList tree.samples) with
  | ok whole =>
    obtain ⟨merged, hmerged⟩ := hwhole.1 ⟨whole, hrun⟩
    have hown : Accumulated discreteProjections moments tree.samples merged :=
      keeps_accumulated.run hmerged
    have hdirect : Accumulated discreteProjections moments tree.samples whole := by
      have := keeps_accumulated.run hrun
      rwa [Accumulation.samples_ofList] at this
    obtain ⟨hlargest, hsmallest⟩ := extrema_ofList discreteProjections moments tree.samples
    rw [← hown.stats] at hlargest hsmallest
    exact ⟨merged, hmerged, hown.same hdirect, hlargest, hsmallest, hown.estimates root⟩
  | error e =>
    cases hmerged : runScalars num discreteProjections moments tree with
    | error e' => exact ⟨e', rfl⟩
    | ok merged =>
      obtain ⟨whole, hok⟩ := hwhole.2 ⟨merged, hmerged⟩
      rw [hrun] at hok
      cases hok

end Trees

/-- Real scalars; there is nothing else to merge. -/
noncomputable def realNumerics : Numerics ℝ (ScalarSums ℝ) Unit Unit Unit where
  finite := fun _ => true
  sameConfig := ScalarSums.sameConfig
  checkSums := ScalarSums.checkSums fun _ => true
  checkSumsWith := ScalarSums.checkSumsWith fun _ => true
  checkBins := fun s => validateBins (fun _ => true) s.discreteBins
  checkBinsWith := fun s t => validateMergeBins (fun _ => true) s.discreteBins t.discreteBins
  mergeStats := ScalarSums.merge
  momentsOk := fun _ _ => true
  mergeMoments := fun _ _ m _ => m
  nativeCount := fun _ => 0
  validateNative := fun _ => .ok ()
  validateNativeSamples := fun _ _ => .ok ()
  mergeNative := fun _ _ => ((), none)
  validatePartition := fun _ => .ok ()
  centers := fun _ => 0
  isNative := fun _ => false

/-- Two samples of opposite signs in two parts, with an empty one between them. -/
def signedParts : Accumulation (ScalarSample ℝ) :=
  .merge (.merge (.ofList [⟨1, ⟨[], [0], []⟩, none⟩]) .new) (.ofList [⟨-3, ⟨[], [1], []⟩, none⟩])

theorem scalar_accumulations_signed : ∃ merged,
    runScalars realNumerics none .maxOrder4 signedParts = .ok merged ∧
      FirstSmallest signedParts.samples merged.stats.negative ∧
      Estimates .real signedParts.samples merged := by
  obtain ⟨hparts, -⟩ := scalar_accumulations realNumerics none .maxOrder4 .real signedParts
  obtain ⟨whole, hwhole⟩ := (runScalars_iff realNumerics none .maxOrder4
    (.ofList signedParts.samples)).2 (show (2 : Int) ≤ i64Max by decide)
  rw [hwhole] at hparts
  obtain ⟨merged, hmerged, -, -, hsmallest, hestimates⟩ := hparts
  exact ⟨merged, hmerged, hsmallest, hestimates⟩

end Gammaboard.Evaluation
