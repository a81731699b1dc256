import Gammaboard.Evaluation.StratifiedEstimates
import Gammaboard.Evaluation.Stratification
import Gammaboard.Sampling.StratumFeedback
import Mathlib.Tactic.NormNum
import Mathlib.Tactic.Positivity

/-!
# Stratified estimation is unbiased

A proposal `q` draws a stratum and a path of a finite integrand domain, with
weight `1 / q`. The masses of the prefixes are the probabilities of the plan; a
point is evaluated without its prefix, and its values count in the stratum they
lie in. The contributions, each taken with its probability under the proposal,
add up to the sum of the values over all paths.
-/

namespace Gammaboard.Evaluation

open Gammaboard.Core Gammaboard.Sampling Gammaboard.Lib Gammaboard.Utils

variable {K G : Type} [Field K]

/-! ## Sums over strata and paths -/

theorem sum_comm {α β : Type} (l : List α) (m : List β) (g : α → β → K) :
    (l.map fun a => (m.map (g a)).sum).sum = (m.map fun b => (l.map (g · b)).sum).sum := by
  induction l with
  | nil => simp
  | cons a l ih => simp [ih, List.sum_map_add]

/-- A sum over the strata with one term. -/
theorem sum_range_single {n c : Nat} (h : c < n) (v : K) :
    ((List.range n).map fun k => if c = k then v else 0).sum = v := by
  induction n with
  | zero => omega
  | succ n ih =>
    rw [List.range_succ, List.map_append, List.sum_append]
    by_cases hc : c = n
    · have hzero : ∀ k ∈ List.range n, (if c = k then v else 0) = 0 := by
        intro k hk
        have := List.mem_range.1 hk
        exact if_neg (by omega)
      rw [List.map_congr_left hzero]
      simp [hc]
    · rw [ih (by omega)]
      simp [hc]

/-! ## The masses of a proposal -/

section Masses

variable (partition : StratificationConfig K) (paths : List (List Int)) (q : Nat → List Int → K)

/-- The point of a stratum and a path lies in the subspace. -/
def DiscreteSubspace.contains (s : DiscreteSubspace) (path : List Int) : Bool :=
  s.fixedDims.all fun e => path[e.1]? == some e.2

/-- The probability that the proposal draws a point of the subspace. -/
def proposalMass (s : DiscreteSubspace) : K :=
  ((List.range partition.centers.length).map fun k =>
    (paths.map fun x => if s.contains (partition.prefixAt k ++ x) then q k x else 0).sum).sum

/-- The probability of a stratum. -/
def stratumMass (k : Nat) : K := (paths.map (q k)).sum

omit [Field K] in
theorem contains_below {path point : List Int} :
    (DiscreteSubspace.below path).contains point = path.isPrefixOf point := by
  have hall : ∀ (path : List Int) (start : Nat) (point : List Int),
      ((path.zipIdx start).map fun e => (e.2, e.1)).all (fun e => point[e.1]? == some e.2) =
        path.isPrefixOf (point.drop start) := by
    intro path
    induction path with
    | nil => simp
    | cons v path ih =>
      intro start point
      rw [List.zipIdx_cons, List.map_cons, List.all_cons, ih]
      cases hdrop : point.drop start with
      | nil =>
        have hlen := List.drop_eq_nil_iff.1 hdrop
        rw [List.getElem?_eq_none hlen]
        rfl
      | cons w rest =>
        have hhead : point[start]? = some w := by
          rw [← List.head?_drop, hdrop]
          rfl
        have htail : point.drop (start + 1) = rest := by
          rw [← List.tail_drop, hdrop]
          rfl
        rw [hhead, htail, List.isPrefixOf]
        congr 1
        simp [eq_comm]
  simpa [DiscreteSubspace.below, DiscreteSubspace.contains] using hall path 0 point

/-- The mass of a stratum prefix is that of the stratum. -/
theorem proposalMass_below (hvalid : partition.Valid) {k : Nat}
    (hk : k < partition.centers.length) :
    proposalMass partition paths q (.below (partition.prefixAt k)) = stratumMass paths q k := by
  have hterm : ∀ j ∈ List.range partition.centers.length,
      (paths.map fun x => if (DiscreteSubspace.below (partition.prefixAt k)).contains
          (partition.prefixAt j ++ x) then q j x else 0).sum =
        if k = j then stratumMass paths q k else 0 := by
    intro j hj
    have hj := List.mem_range.1 hj
    by_cases hkj : k = j
    · subst hkj
      rw [if_pos rfl, stratumMass]
      congr 1
      refine List.map_congr_left fun x _ => ?_
      rw [contains_below, if_pos (List.isPrefixOf_iff_prefix.2 (List.prefix_append _ _))]
    · rw [if_neg hkj]
      refine List.sum_eq_zero fun v hv => ?_
      obtain ⟨x, -, rfl⟩ := List.mem_map.1 hv
      rw [contains_below, if_neg]
      exact hvalid.not_isPrefixOf hk hj hkj x
  rw [proposalMass, List.map_congr_left hterm, sum_range_single hk]

end Masses

/-! ## The plan -/

/-- A proposal of a valid partition over the paths of an integrand, the configuration of the
accumulator and the identity of the plan. -/
structure Proposal (partition : StratificationConfig K) (paths : List (List Int))
    (q : Nat → List Int → K) [LinearOrder K] : Prop where
  pos : ∀ k < partition.centers.length, ∀ x ∈ paths, 0 < q k x
  total : ((List.range partition.centers.length).map (stratumMass paths q)).sum = 1

section Plan

variable [LinearOrder K] {partition : StratificationConfig K} {paths : List (List Int)}
  {q : Nat → List Int → K} {config : AccumulatorConfig} {proposalId : String}

/-- The sampler answers every query with the mass under the proposal. -/
def exactMasses (partition : StratificationConfig K) (paths : List (List Int))
    (q : Nat → List Int → K) (queries : List DiscreteSubspace) :
    Except EngineError (List (Option K)) :=
  .ok (queries.map fun s => some (proposalMass partition paths q s))

/-- The plan of a stratified task. -/
def planOf (partition : StratificationConfig K) (paths : List (List Int)) (q : Nat → List Int → K)
    (proposalId : String) (components : List String) : StratificationPlan K :=
  ⟨proposalId, partition,
    some ((List.range partition.centers.length).map (stratumMass paths q)), components⟩

omit [LinearOrder K] in
theorem masses_below (hvalid : partition.Valid) :
    (partition.prefixes.map .below).map (proposalMass partition paths q) =
      (List.range partition.centers.length).map (stratumMass paths q) := by
  refine List.ext_getElem (by simp [StratificationConfig.prefixes]) fun k hk hk' => ?_
  have h : k < partition.centers.length := by simpa using hk'
  obtain ⟨hlen, hat⟩ := StratificationConfig.Valid.prefixAt_eq h
  rw [List.getElem_map, List.getElem_map, List.getElem_map, List.getElem_range, ← hat,
    proposalMass_below partition paths q hvalid h]

variable [IsStrictOrderedRing K]

theorem stratumMass_pos (hq : Proposal partition paths q) (hpaths : paths ≠ []) {k : Nat}
    (hk : k < partition.centers.length) : 0 < stratumMass paths q k := by
  refine List.sum_pos _ (fun v hv => ?_) (by simpa using hpaths)
  obtain ⟨x, hx, rfl⟩ := List.mem_map.1 hv
  exact hq.pos k hk x hx

theorem paths_ne_nil (hq : Proposal partition paths q) : paths ≠ [] := by
  rintro rfl
  have hzero : stratumMass [] q = fun _ => (0 : K) := rfl
  have htotal := hq.total
  rw [hzero] at htotal
  simp at htotal

theorem stratumMass_le (hq : Proposal partition paths q) {k : Nat}
    (hk : k < partition.centers.length) : stratumMass paths q k ≤ 1 := by
  rw [← hq.total]
  refine List.single_le_sum (fun v hv => ?_) _ (List.mem_map_of_mem (List.mem_range.2 hk))
  obtain ⟨j, hj, rfl⟩ := List.mem_map.1 hv
  exact (stratumMass_pos hq (paths_ne_nil hq) (List.mem_range.1 hj)).le

/-- The masses of a proposal are the probabilities of a valid plan. -/
theorem planOf_validate (hq : Proposal partition paths q) (hid : proposalId.isEmpty = false)
    {components : List String} (hpartition : partition.validate = .ok ())
    (hcomponents : components.length = partition.centerWidth) :
    (planOf partition paths q proposalId components).validate = .ok () := by
  have hwidth : (planOf partition paths q proposalId components).components.length =
      (planOf partition paths q proposalId components).partition.centerWidth := hcomponents
  have hpart : (planOf partition paths q proposalId components).partition.validate = .ok () :=
    hpartition
  unfold StratificationPlan.validate
  rw [if_neg (by simp [planOf, hid]), hpart]
  simp only [bind, Except.bind]
  rw [if_neg (not_not.2 hwidth), if_neg]
  simp only [planOf, Option.any_some, List.length_map, List.length_range, bne_self_eq_false,
    Bool.false_or, hq.total, sub_self, abs_zero, Bool.or_eq_true, decide_eq_true_eq,
    List.any_eq_true, not_or, not_exists, not_and]
  refine ⟨fun v hv => ?_, not_lt.2 (by positivity)⟩
  obtain ⟨k, hk, rfl⟩ := List.mem_map.1 hv
  have hk := List.mem_range.1 hk
  have hpos := stratumMass_pos hq (paths_ne_nil hq) hk
  have hle := stratumMass_le hq hk
  exact ⟨not_le.2 hpos, not_lt.2 hle⟩

omit [IsStrictOrderedRing K] in
theorem validateAccumulator_ok (h : partition.validateAccumulator config = .ok ()) :
    partition.validate = .ok () ∧ ∃ components, StratificationConfig.components config = .ok components ∧
      components.length = partition.centerWidth := by
  unfold StratificationConfig.validateAccumulator at h
  obtain ⟨⟨⟩, hpartition, h⟩ := bind_eq_ok h
  obtain ⟨components, hcomponents, h⟩ := bind_eq_ok h
  split at h
  · cases h
  · rename_i hlen
    exact ⟨hpartition, components, hcomponents, not_not.1 hlen⟩

/-- A configuration with components matches the layout of the plan. -/
theorem validatedWidth_plan (hq : Proposal partition paths q) (hid : proposalId.isEmpty = false)
    (hpartition : partition.validateAccumulator config = .ok ()) (hconfig : config.validate = .ok ())
    {components : List String} (hcomponents : StratificationConfig.components config = .ok components) :
    ∃ width, (StratifiedLayout.mk (planOf partition paths q proposalId components)
      config).validatedWidth = .ok width := by
  obtain ⟨hvalid, names, hnames, hlen⟩ := validateAccumulator_ok hpartition
  rw [hcomponents] at hnames
  cases hnames
  refine ⟨(StratifiedLayout.mk (planOf partition paths q proposalId components) config).columnCount,
    ?_⟩
  unfold StratifiedLayout.validatedWidth
  dsimp only
  rw [planOf_validate hq hid hvalid hlen, hconfig]
  have hpart : (planOf partition paths q proposalId components).partition.validateAccumulator config =
      .ok () := hpartition
  have hmatches : (StratifiedLayout.mk (planOf partition paths q proposalId components)
      config).layoutMatches = true := by
    cases config with
    | empty => cases hcomponents
    | fullVector => cases hcomponents
    | vector names projection moments =>
      cases hcomponents
      simp [StratifiedLayout.layoutMatches, AccumulatorConfig.components, planOf]
    | gammaloop =>
      cases hcomponents
      rfl
  rw [hpart]
  simp only [invalidInput, bind, Except.bind]
  rw [if_neg (by simp [planOf]), if_neg (by simp [hmatches])]

theorem mapM_some {α : Type} (l : List α) : (l.map some).mapM id = some l := by
  induction l with
  | nil => rfl
  | cons a l ih => simp [ih]

/-- `prepare_estimator` takes the masses of the proposal over as the probabilities of the plan. -/
theorem prepareEstimator_stratified (hq : Proposal partition paths q)
    (hid : proposalId.isEmpty = false)
    (hpartition : partition.validateAccumulator config = .ok ()) (hconfig : config.validate = .ok ())
    {components : List String} (hcomponents : StratificationConfig.components config = .ok components)
    (emptyNative : G) :
    ∃ state, StratifiedAccumulatorState.new emptyNative
        ⟨planOf partition paths q proposalId components, config⟩ = .ok state ∧
      prepareEstimator true partition (exactMasses partition paths q) proposalId config emptyNative =
        .ok (planOf partition paths q proposalId components, .stratified state) := by
  obtain ⟨hvalid, names, hnames, hlen⟩ := validateAccumulator_ok hpartition
  rw [hcomponents] at hnames
  cases hnames
  obtain ⟨width, hwidth⟩ := validatedWidth_plan hq hid hpartition hconfig hcomponents
  refine ⟨_, by rw [StratifiedAccumulatorState.new, hwidth]; rfl, ?_⟩
  have hmasses : (partition.prefixes.map .below).map
      (fun s => some (proposalMass partition paths q s)) =
        ((List.range partition.centers.length).map (stratumMass paths q)).map some := by
    rw [← masses_below (StratificationConfig.valid_of_validate hvalid), List.map_map, List.map_map,
      List.map_map]
    rfl
  unfold prepareEstimator
  rw [hpartition]
  simp only [exactMasses, if_true, hmasses, mapM_some, hcomponents, bind, Except.bind]
  rw [show StratificationPlan.mk proposalId partition _ components =
    planOf partition paths q proposalId components from rfl, planOf_validate hq hid hvalid hlen]
  simp only [StratifiedAccumulatorState.new, hwidth, bind, Except.bind]
  rfl

end Plan

/-! ## One point -/

section Point

variable [LinearOrder K] (hypot : K → K → K) (emptyNative : G) (f : List Int → List K)
  (training : Bool) (config : AccumulatorConfig) (plan : StratificationPlan K)

/-- A batch of one point: its prefix removed and the values of the integrand accumulated. -/
def evaluatePoint (point : Point K) : Except EngineError (Option (Feedback K) × ValueState K G) := do
  let (batch, labels) ← integrandBatch [point] plan
  accumulateValues hypot emptyNative batch plan.components (batch.flatMap fun p => f p.discrete)
    config ⟨training, some (plan, labels)⟩

/-- What the point has contributed to a stratum, of an accumulator with this point alone. -/
def ValueState.stratum (k : Nat) : ValueState K G → Option (StratumMoments (MomentValues K))
  | .stratified a => a.strata[k]?
  | _ => none

/-- The weighted values of a pooled accumulator. -/
def ValueState.pooled : ValueState K G → List K
  | .vector a => a.components.map (·.state.stats.sumWeightedValue)
  | _ => []

variable {hypot emptyNative f training config plan}

/-- The stratum the values lie in. -/
def actualStratum (hypot : K → K → K) (plan : StratificationPlan K) (raw : List K) : Nat :=
  plan.partition.nearest hypot raw plan.partition.centers 0 (0, none)

theorem assignment_ok {raw : List K} (hraw : raw.length = plan.partition.centerWidth) (label : Nat) :
    assignment hypot (some plan) label raw =
      .ok (some (actualStratum hypot plan raw, plan.partition.prefixAt label,
        plan.partition.prefixAt (actualStratum hypot plan raw))) := by
  have hclassify : plan.partition.classify hypot raw = .ok (actualStratum hypot plan raw) :=
    if_neg (not_not.2 hraw)
  unfold assignment
  dsimp only
  rw [hclassify]
  rfl

/-- The values as they are accumulated. -/
def gatedValues (hypot : K → K → K) (plan : StratificationPlan K) (label : Nat) (raw : List K) :
    List K :=
  if plan.partition.prefixAt label == plan.partition.prefixAt (actualStratum hypot plan raw) then raw
  else raw.map fun _ => 0

/-- A row is accumulated as its masked values are taken. -/
theorem accumulateRow_ok {components : List String} {point : Point K} {raw : List K} {label : Nat}
    (hraw : raw.length = plan.partition.centerWidth) {p : Progress K G} {state : ValueState K G}
    (h : p.state.ingest hypot label (gatedValues hypot plan label raw)
      (plan.partition.prefixAt label == plan.partition.prefixAt (actualStratum hypot plan raw)) point
      (some (plan.partition.prefixAt label, plan.partition.prefixAt (actualStratum hypot plan raw))) =
        .ok state) :
    ∃ p', accumulateRow hypot (some plan) config components p (point, raw, label) = .ok p' ∧
      p'.state = state ∧
      p'.feedback = p.feedback ++ [trainingValue hypot config components raw point.totalWeight] := by
  unfold accumulateRow
  dsimp only
  rw [assignment_ok hraw]
  unfold gatedValues at h
  simp only [bind, Except.bind, Option.all_some, Option.map_some, h]
  exact ⟨_, rfl, rfl, rfl⟩

/-- The prefix of its stratum is removed from a point. -/
theorem integrandBatch_single (hplan : plan.validate = .ok ()) {k : Nat}
    (hk : k < plan.partition.centers.length) {point : Point K} {x : List Int}
    (hpoint : point.discrete = plan.partition.prefixAt k ++ x) :
    integrandBatch [point] plan = .ok ([{ point with discrete := x }], [k]) := by
  have hfind := (StratificationPlan.valid_of_validate hplan).partition.findIdx hk x
  have hone : integrandPoint plan point = .ok ({ point with discrete := x }, k) := by
    unfold integrandPoint
    rw [hpoint, hfind]
    dsimp only
    rw [List.drop_left]
  unfold integrandBatch
  rw [hplan, List.mapM_cons, List.mapM_nil, hone]
  rfl

omit [Field K] [LinearOrder K] in
/-- The strata in the feedback of a valid plan are in order. -/
theorem badStrata_single (hvalid : plan.partition.Valid) {k actual : Nat}
    (hk : k < plan.partition.centers.length) (hactual : actual < plan.partition.centers.length) :
    Feedback.badStrata 1 ⟨plan.partition.prefixes, [k], [actual]⟩ = false := by
  have hlen : plan.partition.prefixes.length = plan.partition.centers.length := List.length_map _
  refine Feedback.badStrata_of_prefixes hvalid.prefixes hvalid.nonempty rfl rfl ?_ fun hnil => ?_
  · intro j hj
    rw [hlen]
    rcases List.mem_cons.1 hj with rfl | hj
    · exact hk
    · rwa [List.mem_singleton.1 hj]
  · rw [hnil] at hlen
    rw [← hlen] at hk
    exact Nat.not_lt_zero k hk

omit [Field K] [LinearOrder K] in
@[simp] theorem withDiagnostics_stratum (state : ValueState K G) (options : EvalBatchOptions K)
    (count : Nat) (attempts matched : List Nat) (k : Nat) :
    (state.withDiagnostics options count attempts matched).stratum k = state.stratum k := by
  unfold ValueState.withDiagnostics
  split <;> rfl

omit [Field K] [LinearOrder K] in
@[simp] theorem withDiagnostics_pooled (state : ValueState K G) (options : EvalBatchOptions K)
    (count : Nat) (attempts matched : List Nat) :
    (state.withDiagnostics options count attempts matched).pooled = state.pooled := by
  unfold ValueState.withDiagnostics
  split <;> rfl

/-- The feedback of one row is accepted. -/
theorem feedback_single (hvalid : plan.partition.Valid) {k : Nat}
    (hk : k < plan.partition.centers.length) {raw : List K}
    (hraw : raw.length = plan.partition.centerWidth) (value : K) :
    ∃ feedback, EvalBatchOptions.feedback hypot ⟨training, some (plan, [k])⟩ [value] [raw] =
      .ok feedback := by
  obtain ⟨actual, hactual, hclassify⟩ := StratificationConfig.classify_ok hypot hvalid.width hraw
  unfold EvalBatchOptions.feedback
  cases training with
  | false => exact ⟨none, rfl⟩
  | true =>
    have hstrata := badStrata_single hvalid hk hactual
    have hvalidate : (⟨[value], some ⟨plan.partition.prefixes, [k], [actual]⟩⟩ : Feedback K).validate
        (fun _ => true) = .ok () := by
      unfold Feedback.validate
      rw [if_neg (by simp), if_neg]
      simpa [Feedback.len] using hstrata
    simp only [Bool.not_true, Bool.false_eq_true, if_false, List.length_singleton, ne_eq,
      not_true_eq_false, or_self, List.mapM_cons, List.mapM_nil, hclassify, bind, Except.bind, pure,
      Except.pure, hvalidate]
    exact ⟨_, rfl⟩

/-- One point and its values. -/
theorem accumulateValues_single (hplan : plan.Valid)
    (hcomponents : StratificationConfig.components config = .ok plan.components) {k : Nat}
    (hk : k < plan.partition.centers.length) {point : Point K} {raw : List K}
    (hraw : raw.length = plan.partition.centerWidth) {start state : ValueState K G}
    (hstart : initialState emptyNative 1 plan.components config ⟨training, some (plan, [k])⟩ =
      .ok start)
    (hingest : start.ingest hypot k (gatedValues hypot plan k raw)
      (plan.partition.prefixAt k == plan.partition.prefixAt (actualStratum hypot plan raw)) point
      (some (plan.partition.prefixAt k, plan.partition.prefixAt (actualStratum hypot plan raw))) =
        .ok state) :
    ∃ feedback done, accumulateValues hypot emptyNative [point] plan.components raw config
        ⟨training, some (plan, [k])⟩ = .ok (feedback, done) ∧
      (∀ j, done.stratum j = state.stratum j) ∧ done.pooled = state.pooled := by
  have hlen : raw.length = plan.components.length := hraw.trans hplan.components.symm
  have hrows : rowsOf plan.components.length 1 raw = [raw] := by
    simp [rowsOf, ← hlen]
  have hscalar : config.isFullVector = false := by
    cases config <;> first | rfl | cases hcomponents
  let strata := List.replicate plan.partition.centers.length 0
  obtain ⟨p, hp, hpstate, hpfeedback⟩ : ∃ p, accumulateRow hypot (some plan) config plan.components
      ⟨start, strata, strata, []⟩ (point, raw, k) = .ok p ∧ _ := accumulateRow_ok hraw hingest
  obtain ⟨feedback, hfeedback⟩ : ∃ feedback, EvalBatchOptions.feedback hypot
      ⟨training, some (plan, [k])⟩
      [trainingValue hypot config plan.components raw point.totalWeight] [raw] = .ok feedback :=
    feedback_single hplan.partition hk hraw _
  unfold accumulateValues
  dsimp only
  have hone : [point].length = 1 := rfl
  rw [if_neg, hscalar, Bool.and_false, Bool.false_and, if_neg Bool.false_ne_true, hone, hstart]
  · simp only [Option.elim_some, hrows, List.zip_cons_cons, List.zip_nil_left,
      Option.map_some, List.foldlM_cons, List.foldlM_nil, bind, Except.bind, pure, Except.pure]
    rw [hp]
    dsimp only
    rw [hpfeedback, List.nil_append, hfeedback]
    refine ⟨feedback, _, rfl, fun j => ?_, ?_⟩
    · rw [withDiagnostics_stratum, hpstate]
    · rw [withDiagnostics_pooled, hpstate]
  · rw [not_or, not_not, hlen, List.length_singleton, Nat.one_mul]
    refine ⟨?_, rfl⟩
    rw [hplan.components]
    exact hplan.partition.width

theorem actualStratum_lt (hvalid : plan.partition.Valid) {raw : List K}
    (hraw : raw.length = plan.partition.centerWidth) :
    actualStratum hypot plan raw < plan.partition.centers.length := by
  obtain ⟨actual, hactual, hclassify⟩ := StratificationConfig.classify_ok hypot hvalid.width hraw
  have heq : plan.partition.classify hypot raw = .ok (actualStratum hypot plan raw) :=
    if_neg (not_not.2 hraw)
  rw [hclassify] at heq
  cases heq
  exact hactual

/-- The prefixes agree exactly where the strata do. -/
theorem matched_eq (hvalid : plan.partition.Valid) {k : Nat} (hk : k < plan.partition.centers.length)
    {raw : List K} (hraw : raw.length = plan.partition.centerWidth) :
    (plan.partition.prefixAt k == plan.partition.prefixAt (actualStratum hypot plan raw)) =
      decide (actualStratum hypot plan raw = k) := by
  rw [Bool.eq_iff_iff, beq_iff_eq, decide_eq_true_eq]
  exact ⟨fun h => (hvalid.prefixAt_inj hk (actualStratum_lt hvalid hraw) h).symm, fun h => by rw [h]⟩

/-- The values a point contributes with: those of the integrand where the point was drawn for
their stratum. -/
theorem gatedValues_getD (hvalid : plan.partition.Valid) {k : Nat}
    (hk : k < plan.partition.centers.length) {raw : List K}
    (hraw : raw.length = plan.partition.centerWidth) (j : Nat) :
    (gatedValues hypot plan k raw).getD j 0 =
      if actualStratum hypot plan raw = k then raw.getD j 0 else 0 := by
  unfold gatedValues
  rw [matched_eq hvalid hk hraw]
  by_cases h : actualStratum hypot plan raw = k
  · rw [if_pos (decide_eq_true h), if_pos h]
  · rw [if_neg (by simpa using h), if_neg h, List.getD_eq_getElem?_getD, List.getElem?_map]
    cases raw[j]? <;> rfl

theorem length_gatedValues {k : Nat} {raw : List K} :
    (gatedValues hypot plan k raw).length = raw.length := by
  unfold gatedValues
  split
  · rfl
  · exact List.length_map _

/-- The point of a stratum as it is pushed. -/
def pointSample (hypot : K → K → K) (plan : StratificationPlan K) (k : Nat) (point : Point K)
    (raw : List K) : StratifiedSample K G where
  label := k
  values := gatedValues hypot plan k raw
  weight := point.totalWeight
  matched :=
    plan.partition.prefixAt k == plan.partition.prefixAt (actualStratum hypot plan raw)
  diagnostic := some (point, plan.partition.prefixAt k,
    plan.partition.prefixAt (actualStratum hypot plan raw))
  native := none

/-- A plan with probabilities that fits the configuration of the accumulator. -/
structure Ready (plan : StratificationPlan K) (config : AccumulatorConfig) (width : Nat) : Prop where
  width : (StratifiedLayout.mk plan config).validatedWidth = .ok width
  validate : plan.validate = .ok ()
  partition : plan.partition.validateAccumulator config = .ok ()
  components : StratificationConfig.components config = .ok plan.components

variable [IsStrictOrderedRing K]

/-- A point of a stratified task is pushed into its stratum. -/
theorem evaluatePoint_stratified {width : Nat}
    (hready : Ready plan config width) {k : Nat}
    (hk : k < plan.partition.centers.length) {point : Point K} {x : List Int}
    (hpoint : point.discrete = plan.partition.prefixAt k ++ x)
    (hraw : (f x).length = plan.partition.centerWidth) (hweight : 0 < point.totalWeight) :
    ∃ feedback done, evaluatePoint hypot emptyNative f training config plan point =
        .ok (feedback, done) ∧
      ∃ a : StratifiedAccumulatorState (MomentValues K) G (StratifiedLayout K),
        Holds hypot ⟨plan, config⟩ width
          [pointSample hypot plan k { point with discrete := x } (f x)] a ∧
        ∀ j, done.stratum j = a.strata[j]? := by
  have hlayout := validLayout hready.width
  obtain ⟨p, hp⟩ := hlayout.probabilities
  have hnew : ∃ a, StratifiedAccumulatorState.new emptyNative ⟨plan, config⟩ = .ok a := by
    rw [StratifiedAccumulatorState.new, hready.width]
    exact ⟨_, rfl⟩
  obtain ⟨a, ha⟩ := hnew
  have hempty : Holds hypot ⟨plan, config⟩ width [] a := holds_new hready.width ha
  let sample : StratifiedSample K G := pointSample hypot plan k { point with discrete := x } (f x)
  obtain ⟨a', ha'⟩ := ingest_ok (x := sample) hlayout hempty hk hweight
    (length_gatedValues.trans (hraw.trans hlayout.plan.components.symm)) (Nat.succ_le_succ (Nat.zero_le _))
  have hholds := holds_ingest hlayout hempty ha'
  unfold ingest at ha'
  obtain ⟨b, hb, hb'⟩ := bind_eq_ok ha'
  cases hb'
  have hprobabilities : plan.probabilities = some p := hp
  have hstart : initialState emptyNative 1 plan.components config ⟨training, some (plan, [k])⟩ =
      .ok (.stratified a) := by
    unfold initialState
    simp only [hready.validate, hready.partition, bind, Except.bind, ha]
    simp [Except.map, hprobabilities]
  have hingest : (ValueState.stratified a).ingest hypot k (gatedValues hypot plan k (f x))
      (plan.partition.prefixAt k == plan.partition.prefixAt (actualStratum hypot plan (f x)))
      { point with discrete := x }
      (some (plan.partition.prefixAt k, plan.partition.prefixAt (actualStratum hypot plan (f x)))) =
        .ok (.stratified b) := congrArg (Except.map ValueState.stratified) hb
  obtain ⟨feedback, done, hdone, hstratum, -⟩ :=
    accumulateValues_single hlayout.plan hready.components hk hraw hstart hingest
  refine ⟨feedback, done, ?_, _, hholds, fun j => hstratum j⟩
  unfold evaluatePoint
  rw [integrandBatch_single hready.validate hk hpoint]
  simpa only [bind, Except.bind, List.flatMap_cons, List.flatMap_nil, List.append_nil] using hdone

/-- What an evaluation has contributed to a stratum. -/
def contributed (k : Nat) :
    Except EngineError (Option (Feedback K) × ValueState K G) → List K
  | .ok (_, state) => (state.stratum k).elim [] (·.moments.mean)
  | .error _ => []

/-- The samples of a stratum that lay in it. -/
def countedIn (k : Nat) : Except EngineError (Option (Feedback K) × ValueState K G) → Nat
  | .ok (_, state) => (state.stratum k).elim 0 (·.matched)
  | .error _ => 0

/-- The pooled weighted values of an evaluation. -/
def pooledValues : Except EngineError (Option (Feedback K) × ValueState K G) → List K
  | .ok (_, state) => state.pooled
  | .error _ => []

omit [LinearOrder K] [IsStrictOrderedRing K] in
/-- The first columns are the components. -/
theorem columns_getElem? (layout : StratifiedLayout K) {values : List K} {j : Nat}
    (h : j < values.length) : (layout.columns hypot values)[j]? = values[j]? := by
  unfold StratifiedLayout.columns
  split
  · exact List.getElem?_append_left h
  · exact List.getElem?_append_left h
  · rfl

theorem evaluatePoint_stratum {width : Nat}
    (hready : Ready plan config width) {k : Nat}
    (hk : k < plan.partition.centers.length) {point : Point K} {x : List Int}
    (hpoint : point.discrete = plan.partition.prefixAt k ++ x)
    (hraw : (f x).length = plan.partition.centerWidth) (hweight : 0 < point.totalWeight) :
    ∃ (feedback : Option (Feedback K)) (done : ValueState K G) (s : _),
      evaluatePoint hypot emptyNative f training config plan point = .ok (feedback, done) ∧
      done.stratum k = some s ∧
      Summarizes width (contribution hypot ⟨plan, config⟩) (·.matched)
        [(pointSample hypot plan k { point with discrete := x } (f x) : StratifiedSample K G)] s ∧
      ∀ j s, j ≠ k → done.stratum j = some s → s.attempts = 0 := by
  obtain ⟨feedback, done, hdone, a, ha, hstratum⟩ : ∃ feedback done,
      evaluatePoint hypot emptyNative f training config plan point = .ok (feedback, done) ∧ _ :=
    evaluatePoint_stratified hready hk hpoint hraw hweight
  obtain ⟨s, hs⟩ : ∃ s, a.strata[k]? = some s :=
    ⟨_, List.getElem?_eq_getElem (ha.length ▸ hk)⟩
  have hsummary := ha.strata k _ hs
  have hone : ofStratum k [(pointSample hypot plan k { point with discrete := x } (f x) :
      StratifiedSample K G)] = [pointSample hypot plan k { point with discrete := x } (f x)] := by
    simp [ofStratum, pointSample]
  rw [hone] at hsummary
  refine ⟨feedback, done, _, hdone, (hstratum k).trans hs, hsummary, fun j s hj hjs => ?_⟩
  rw [hstratum j] at hjs
  rw [(ha.strata j s hjs).attempts, ofStratum_singleton_ne (by exact hj.symm)]
  rfl

/-- The contribution of a point to its stratum, component by component. -/
theorem contributed_getD {width : Nat} (hready : Ready plan config width) {k : Nat}
    (hk : k < plan.partition.centers.length) {point : Point K} {x : List Int}
    (hpoint : point.discrete = plan.partition.prefixAt k ++ x)
    (hraw : (f x).length = plan.partition.centerWidth) (hweight : 0 < point.totalWeight) {j : Nat}
    (hj : j < plan.components.length) :
    (contributed k (evaluatePoint hypot emptyNative f training config plan point)).getD j 0 =
      (if actualStratum hypot plan (f x) = k then (f x).getD j 0 else 0) *
        (point.totalWeight * (StratifiedLayout.mk plan config).probability k) := by
  obtain ⟨feedback, done, s, hdone, hs, hsummary, -⟩ : ∃ feedback done s,
      evaluatePoint hypot emptyNative f training config plan point = .ok (feedback, done) ∧ _ :=
    evaluatePoint_stratum hready hk hpoint hraw hweight
  have hlayout := validLayout hready.width
  have hgated : (gatedValues hypot plan k (f x)).length = plan.components.length :=
    length_gatedValues.trans (hraw.trans hlayout.plan.components.symm)
  have hcolumn : ((StratifiedLayout.mk plan config).columns hypot (gatedValues hypot plan k (f x)))[j]? =
      (gatedValues hypot plan k (f x))[j]? := columns_getElem? _ (hgated ▸ hj)
  have hlt : j < width := by
    rw [← hlayout.columns hypot _ hgated]
    refine Nat.lt_of_not_le fun hle => ?_
    rw [List.getElem?_eq_none hle, eq_comm, List.getElem?_eq_none_iff] at hcolumn
    omega
  rw [hdone]
  show ((done.stratum k).elim [] (·.moments.mean)).getD j 0 = _
  rw [hs, Option.elim_some, hsummary.mean, means_getD _ hlt, ← gatedValues_getD hlayout.plan.partition
    hk hraw j]
  simp only [Moments.mean, Moments.total_cons, Moments.total_nil, List.length_singleton]
  rw [add_zero, Nat.cast_one, div_one]
  unfold contribution
  dsimp only [pointSample]
  rw [List.getD_eq_getElem?_getD, List.getD_eq_getElem?_getD, List.getElem?_map, hcolumn,
    List.getElem?_eq_getElem (hgated ▸ hj)]
  rfl

/-- A point counts in its stratum exactly if its values lie there. -/
theorem countedIn_eq {width : Nat} (hready : Ready plan config width) {k : Nat}
    (hk : k < plan.partition.centers.length) {point : Point K} {x : List Int}
    (hpoint : point.discrete = plan.partition.prefixAt k ++ x)
    (hraw : (f x).length = plan.partition.centerWidth) (hweight : 0 < point.totalWeight) :
    countedIn k (evaluatePoint hypot emptyNative f training config plan point) =
      if actualStratum hypot plan (f x) = k then 1 else 0 := by
  obtain ⟨feedback, done, s, hdone, hs, hsummary, -⟩ : ∃ feedback done s,
      evaluatePoint hypot emptyNative f training config plan point = .ok (feedback, done) ∧ _ :=
    evaluatePoint_stratum hready hk hpoint hraw hweight
  rw [hdone]
  show (done.stratum k).elim 0 (·.matched) = _
  rw [hs, Option.elim_some, hsummary.matched]
  dsimp only [pointSample]
  rw [matched_eq (validLayout hready.width).plan.partition hk hraw]
  by_cases h : actualStratum hypot plan (f x) = k <;> simp [h]

end Point

/-! ## Pooled -/

section Pooled

variable [LinearOrder K] [IsStrictOrderedRing K] {hypot : K → K → K} {emptyNative : G} {f : List Int → List K}
  {training : Bool} {plan : StratificationPlan K}

theorem addSample_new (discreteProjections : Option DiscreteProjectionConfig)
    (moments : AccumulatorMomentConfig) (value : K) (point : Point K)
    (stratum : Option (List Int × List Int)) :
    ∃ state, (⟨0, .new discreteProjections moments⟩ :
          ScalarAccumulatorState (ScalarSums K)).addSample value point stratum = .ok state ∧
        state.stats.sumWeightedValue = value * |point.totalWeight| := by
  unfold ScalarAccumulatorState.addSample ScalarAccumulatorState.sumsWithSample
  rw [if_neg (show ¬i64Max < 0 + 1 by decide)]
  simp only [bind, Except.bind]
  split
  · exact ⟨_, rfl, by simp [ScalarAccumulatorState.acceptSample, ScalarSums.withSample, ScalarSums.new]⟩
  · obtain ⟨discreteBins, overflow, hbins⟩ := @ScalarSums.upsertDiscreteBin_ok K _ _ value point stratum
      ((ScalarSums.new discreteProjections moments).withSample value point)
      (by intro e he; cases he)
    rw [hbins]
    exact ⟨_, rfl, by simp [ScalarAccumulatorState.acceptSample, ScalarSums.withSample, ScalarSums.new]⟩

/-- The sums of fresh components are the weighted values. -/
theorem addValues_new (discreteProjections : Option DiscreteProjectionConfig)
    (moments : AccumulatorMomentConfig) (point : Point K)
    (stratum : Option (List Int × List Int)) (names : List String) (values : List K)
    (hlen : values.length = names.length) :
    ∃ components, VectorAccumulatorState.addValues point stratum
        (names.map fun name => ⟨name, 0, .new discreteProjections moments⟩) values = .ok components ∧
      components.map (·.state.stats.sumWeightedValue) = values.map (· * |point.totalWeight|) := by
  induction names generalizing values with
  | nil =>
    obtain rfl := List.length_eq_zero_iff.1 hlen
    exact ⟨[], rfl, rfl⟩
  | cons name names ih =>
    cases values with
    | nil => cases hlen
    | cons v values =>
      obtain ⟨components, hcomponents, hsums⟩ := ih values (by simpa using hlen)
      obtain ⟨state, hstate, hsum⟩ := addSample_new discreteProjections moments v point stratum
      refine ⟨⟨name, state⟩ :: components, ?_, by simp [hsums, hsum]⟩
      rw [List.map_cons, VectorAccumulatorState.addValues, hstate, hcomponents]
      rfl

/-- A fresh vector takes the values of its components. -/
theorem ingestVector_new {names : List String} {projection : TrainingProjection}
    {discreteProjections : Option DiscreteProjectionConfig} {moments : AccumulatorMomentConfig}
    (hconfig : (AccumulatorConfig.vector names projection discreteProjections moments).validate =
      .ok ())
    {values : List K} (hlen : values.length = names.length) (point : Point K)
    (stratum : Option (List Int × List Int)) :
    ∃ state, (VectorAccumulatorState.new names projection discreteProjections moments).ingestVector
        hypot values point stratum = .ok state ∧
      state.components.map (·.state.stats.sumWeightedValue) = values.map (· * |point.totalWeight|) := by
  obtain ⟨components, hcomponents, hsums⟩ := addValues_new discreteProjections moments point stratum names values hlen
  have hproject : ∃ projected, (VectorAccumulatorState.new names projection discreteProjections
      moments).project hypot values = .ok projected := by
    unfold VectorAccumulatorState.project
    rw [if_neg (by simp [VectorAccumulatorState.new, hlen])]
    cases projection with
    | norm => exact ⟨_, rfl⟩
    | component name =>
      have hname : name ∈ names := AccumulatorConfig.mem_of_validate hconfig
      dsimp only [VectorAccumulatorState.new]
      cases hindex : (names.map fun name => (⟨name, 0, .new discreteProjections moments⟩ :
          NamedScalarAccumulator (ScalarSums K))).findIdx? (·.name == name) with
      | none =>
        rw [List.findIdx?_eq_none_iff] at hindex
        have := hindex _ (List.mem_map_of_mem hname)
        simp at this
      | some index => exact ⟨_, rfl⟩
  obtain ⟨projected, hprojected⟩ := hproject
  unfold VectorAccumulatorState.ingestVector
  rw [hprojected]
  have hadd : VectorAccumulatorState.addValues point stratum
      (VectorAccumulatorState.new names projection discreteProjections moments).components values = .ok components :=
    hcomponents
  simp only [bind, Except.bind, hadd]
  cases projection with
  | component name => exact ⟨_, rfl, hsums⟩
  | norm =>
    obtain ⟨state, hstate, -⟩ := addSample_new discreteProjections moments projected point stratum
    simp only [VectorAccumulatorState.new, hstate, VectorAccumulatorState.errorAt]
    exact ⟨_, rfl, hsums⟩

/-- A point of a task without probabilities is pooled. -/
theorem evaluatePoint_pooled {projection : TrainingProjection}
    {discreteProjections : Option DiscreteProjectionConfig} {moments : AccumulatorMomentConfig}
    (hplan : plan.validate = .ok ()) (hprobabilities : plan.probabilities = none)
    (hpartition : plan.partition.validateAccumulator
      (.vector plan.components projection discreteProjections moments) = .ok ())
    (hconfig : (AccumulatorConfig.vector plan.components projection discreteProjections moments).validate = .ok ())
    {k : Nat} (hk : k < plan.partition.centers.length) {point : Point K} {x : List Int}
    (hpoint : point.discrete = plan.partition.prefixAt k ++ x)
    (hraw : (f x).length = plan.partition.centerWidth) :
    pooledValues (evaluatePoint hypot emptyNative f training
        (.vector plan.components projection discreteProjections moments) plan point) =
      (gatedValues hypot plan k (f x)).map (· * |point.totalWeight|) := by
  have hvalid := StratificationPlan.valid_of_validate hplan
  have hstart : initialState emptyNative 1 plan.components (.vector plan.components projection discreteProjections moments)
      ⟨training, some (plan, [k])⟩ = .ok (.vector (.new plan.components projection discreteProjections moments)) := by
    unfold initialState
    simp only [hplan, hpartition, bind, Except.bind]
    simp [hprobabilities, ValueState.fromConfig, pure, Except.pure]
  have hgated : (gatedValues hypot plan k (f x)).length = plan.components.length :=
    length_gatedValues.trans (hraw.trans hvalid.components.symm)
  let point' : Point K := { point with discrete := x }
  let stratum := (plan.partition.prefixAt k, plan.partition.prefixAt (actualStratum hypot plan (f x)))
  obtain ⟨state, hstate, hsums⟩ : ∃ state, (VectorAccumulatorState.new plan.components projection
      discreteProjections moments).ingestVector hypot (gatedValues hypot plan k (f x)) point' (some stratum) = .ok state ∧ _ :=
    ingestVector_new hconfig hgated point' (some stratum)
  have hingest : (ValueState.vector (.new plan.components projection discreteProjections moments)).ingest hypot k
      (gatedValues hypot plan k (f x))
      (plan.partition.prefixAt k == plan.partition.prefixAt (actualStratum hypot plan (f x)))
      { point with discrete := x }
      (some (plan.partition.prefixAt k, plan.partition.prefixAt (actualStratum hypot plan (f x)))) =
        .ok (.vector (G := G) state) := congrArg (Except.map ValueState.vector) hstate
  obtain ⟨feedback, done, hdone, -, hpooled⟩ := accumulateValues_single hvalid rfl hk hraw hstart
    hingest
  unfold evaluatePoint
  rw [integrandBatch_single hplan hk hpoint]
  simp only [bind, Except.bind, List.flatMap_cons, List.flatMap_nil, List.append_nil]
  rw [hdone]
  exact hpooled.trans hsums

end Pooled

/-! ## The estimator -/

section Estimator

variable [LinearOrder K] [IsStrictOrderedRing K] {partition : StratificationConfig K}
  {paths : List (List Int)} {q : Nat → List Int → K} {config : AccumulatorConfig}
  {proposalId : String}

omit [LinearOrder K] [IsStrictOrderedRing K] in
theorem probability_planOf (components : List String) {k : Nat} (hk : k < partition.centers.length) :
    (StratifiedLayout.mk (planOf partition paths q proposalId components) config).probability k =
      stratumMass paths q k := by
  simp [StratifiedLayout.probability, planOf, List.getD_eq_getElem?_getD, hk]

omit [LinearOrder K] [IsStrictOrderedRing K] in
/-- A sum over strata and paths of the values of each path in its stratum. -/
theorem sum_strata {n : Nat} {v : List Int → K} {c : List Int → Nat} {g : Nat → List Int → K}
    (hc : ∀ x ∈ paths, c x < n)
    (hg : ∀ k < n, ∀ x ∈ paths, g k x = if c x = k then v x else 0) :
    ((List.range n).map fun k => (paths.map (g k)).sum).sum = (paths.map v).sum := by
  rw [sum_comm]
  congr 1
  refine List.map_congr_left fun x hx => ?_
  have hterm : ∀ k ∈ List.range n, g k x = if c x = k then v x else 0 :=
    fun k hk => hg k (List.mem_range.1 hk) x hx
  rw [List.map_congr_left hterm, sum_range_single (hc x hx)]

/-- The plan of a stratified task has the masses of the proposal as its probabilities. The
contributions of all points, taken with their probability within their stratum, add up to the sum
of the values over the paths, each path counting in exactly one stratum; so do the pooled
contributions with their probability. The mean of a state is the sum of the averages of the
strata. -/
theorem stratified_unbiased {V S : Type} (hypot : K → K → K) (emptyNative : G) (training : Bool)
    (num : Numerics V S (MomentValues K) G (StratifiedLayout K)) {integrand : Utils.Domain}
    {f : List Int → List K} {point : Nat → List Int → Point K}
    (hpartition : partition.validateAccumulator config = .ok ()) (hconfig : config.validate = .ok ())
    (hid : proposalId.isEmpty = false)
    (hf : ∀ x ∈ integrand.completePaths, (f x).length = partition.centerWidth)
    (hq : Proposal partition integrand.completePaths q)
    (hpoint : ∀ k < partition.centers.length, ∀ x ∈ integrand.completePaths,
      (point k x).discrete = partition.prefixAt k ++ x ∧ (point k x).totalWeight = 1 / q k x) :
    ∃ plan state width,
      prepareEstimator true partition (exactMasses partition integrand.completePaths q) proposalId
        config emptyNative = .ok (plan, state) ∧
      plan.partition = partition ∧ plan.components.length = partition.centerWidth ∧
      plan.probabilities = some ((List.range partition.centers.length).map
        (stratumMass integrand.completePaths q)) ∧
      (StratifiedLayout.mk plan config).validatedWidth = .ok width ∧
      (∀ j < plan.components.length,
        ((List.range partition.centers.length).map fun k => (integrand.completePaths.map fun x =>
          q k x / stratumMass integrand.completePaths q k * (contributed k
            (evaluatePoint hypot emptyNative f training config plan (point k x))).getD j 0).sum).sum =
          (integrand.completePaths.map fun x => (f x).getD j 0).sum) ∧
      (∀ x ∈ integrand.completePaths, ∃ stratum < partition.centers.length,
        ∀ k < partition.centers.length,
          countedIn k (evaluatePoint hypot emptyNative f training config plan (point k x)) =
            if stratum = k then 1 else 0) ∧
      (∀ projection discreteProjections moments,
          config = .vector plan.components projection discreteProjections moments →
        ∀ j < plan.components.length,
          ((List.range partition.centers.length).map fun k => (integrand.completePaths.map fun x =>
            q k x * (pooledValues (evaluatePoint hypot emptyNative f training config
              { plan with probabilities := none } (point k x))).getD j 0).sum).sum =
            (integrand.completePaths.map fun x => (f x).getD j 0).sum) ∧
      ∀ (l : List (StratifiedSample K G)) a,
        accumulate num hypot emptyNative ⟨plan, config⟩ (.ofList l) = .ok a →
        (∀ k < partition.centers.length, ofStratum k l ≠ []) →
          a.mean = some ((List.range width).map fun i =>
            ((List.range partition.centers.length).map fun k => Moments.mean
              (fun x => (contribution hypot ⟨plan, config⟩ x).getD i 0) (ofStratum k l)).sum) := by
  obtain ⟨hvalidate, components, hcomponents, hlen⟩ := validateAccumulator_ok hpartition
  have hvalid := StratificationConfig.valid_of_validate hvalidate
  obtain ⟨state, -, hprepare⟩ :=
    prepareEstimator_stratified hq hid hpartition hconfig hcomponents emptyNative
  obtain ⟨width, hwidth⟩ := validatedWidth_plan hq hid hpartition hconfig hcomponents
  let plan := planOf partition integrand.completePaths q proposalId components
  have hready : Ready plan config width :=
    ⟨hwidth, planOf_validate hq hid hvalidate hlen, hpartition, hcomponents⟩
  have hweight : ∀ k < partition.centers.length, ∀ x ∈ integrand.completePaths,
      0 < (point k x).totalWeight := by
    intro k hk x hx
    rw [(hpoint k hk x hx).2]
    exact one_div_pos.2 (hq.pos k hk x hx)
  have hactual : ∀ x ∈ integrand.completePaths,
      actualStratum hypot plan (f x) < partition.centers.length :=
    fun x hx => actualStratum_lt hvalid (hf x hx)
  refine ⟨plan, _, width, hprepare, rfl, hlen, rfl, hwidth, fun j hj => ?_, fun x hx => ?_,
    fun projection discreteProjections moments hvector j hj => ?_, fun l a ha hcover => ?_⟩
  · refine sum_strata hactual fun k hk x hx => ?_
    have hcontributed : (contributed k (evaluatePoint hypot emptyNative f training config plan
        (point k x))).getD j 0 = _ :=
      contributed_getD hready hk (hpoint k hk x hx).1 (hf x hx) (hweight k hk x hx) hj
    have hmass : stratumMass integrand.completePaths q k ≠ 0 :=
      (stratumMass_pos hq (paths_ne_nil hq) hk).ne'
    have hpos : q k x ≠ 0 := (hq.pos k hk x hx).ne'
    rw [hcontributed, (hpoint k hk x hx).2, probability_planOf components hk]
    field_simp
  · exact ⟨actualStratum hypot plan (f x), hactual x hx, fun k hk =>
      countedIn_eq hready hk (hpoint k hk x hx).1 (hf x hx) (hweight k hk x hx)⟩
  · refine sum_strata hactual fun k hk x hx => ?_
    subst hvector
    have hpooled : pooledValues (evaluatePoint hypot emptyNative f training
        (.vector plan.components projection discreteProjections moments) { plan with probabilities := none }
        (point k x)) = _ :=
      evaluatePoint_pooled (StratificationPlan.validate_pooled hready.validate) rfl hpartition hconfig
        hk (hpoint k hk x hx).1 (hf x hx)
    have hgated : (gatedValues hypot plan k (f x)).getD j 0 = _ :=
      gatedValues_getD hvalid hk (hf x hx) j
    have hpos : 0 < q k x := hq.pos k hk x hx
    have hpos' : q k x ≠ 0 := hpos.ne'
    have hmap : ∀ (values : List K) (w : K), (values.map (· * w)).getD j 0 = values.getD j 0 * w := by
      intro values w
      rw [List.getD_eq_getElem?_getD, List.getD_eq_getElem?_getD, List.getElem?_map]
      cases values[j]? <;> simp
    rw [hpooled, hmap, (hpoint k hk x hx).2, abs_of_pos (one_div_pos.2 hpos)]
    have hsame : gatedValues hypot { plan with probabilities := none } k (f x) =
        gatedValues hypot plan k (f x) := rfl
    rw [hsame, hgated]
    field_simp
  · have hholds : Holds hypot ⟨plan, config⟩ width (Accumulation.ofList l).samples a :=
      (accumulate_keeps num emptyNative hwidth).run ha
    rw [Accumulation.samples_ofList] at hholds
    rw [hholds.mean (validLayout hwidth)]
    unfold stratifiedMean
    dsimp only
    rw [if_neg]
    · simp only [List.map_map, Function.comp_def]
      rfl
    · rw [List.any_map, List.any_eq_true]
      rintro ⟨k, hk, hempty⟩
      exact hcover k (List.mem_range.1 hk) (List.isEmpty_iff.1 hempty)

end Estimator

/-! ## Two strata and two paths -/

def pairIntegrand : Utils.Domain := .rectangular 0 [2] 0

def pairValues (x : List Int) : List ℚ := if x = [0] then [3] else [-1]

/-- The strata and paths are equally likely. -/
def pairPoint (k : Nat) (x : List Int) : Point ℚ :=
  .new [] (pairLayout.plan.partition.prefixAt k ++ x) 4

theorem pairPartition_ok :
    pairLayout.plan.partition.validateAccumulator pairLayout.config = .ok () := by decide +kernel

theorem pairConfig_ok : pairLayout.config.validate = .ok () := by
  simp [pairLayout, AccumulatorConfig.validate, AccumulatorConfig.components,
    AccumulatorConfig.validateNames, AccumulatorConfig.validateProjection,
    AccumulatorConfig.validateDiscrete, isBlank, isWhiteSpace,
    bind, Except.bind]

theorem stratified_unbiased_pair :
    ∃ plan state, prepareEstimator true pairLayout.plan.partition
        (exactMasses pairLayout.plan.partition pairIntegrand.completePaths fun _ _ => 1 / 4) "proposal"
        pairLayout.config () = .ok (plan, state) ∧
      ((List.range 2).map fun k => (pairIntegrand.completePaths.map fun x =>
        1 / 4 / stratumMass pairIntegrand.completePaths (fun _ _ => 1 / 4) k *
          (contributed k (evaluatePoint max () pairValues false pairLayout.config plan
            (pairPoint k x))).getD 0 0).sum).sum = 2 := by
  obtain ⟨plan, state, width, hprepare, -, hcomponents, -, -, hstratified, -⟩ :=
    @stratified_unbiased ℚ Unit _ _ _ pairLayout.plan.partition (fun _ _ => 1 / 4) pairLayout.config
      "proposal" Unit Unit max () false unitNumerics pairIntegrand pairValues pairPoint
      pairPartition_ok pairConfig_ok (by decide) (by decide +kernel)
      ⟨fun k _ x _ => by norm_num, by decide +kernel⟩ (by decide +kernel)
  refine ⟨plan, state, hprepare, ?_⟩
  have hsum := hstratified 0 (by rw [hcomponents]; decide +kernel)
  have htotal : (pairIntegrand.completePaths.map fun x => (pairValues x).getD 0 0).sum = 2 := by
    decide +kernel
  rw [htotal] at hsum
  exact hsum

end Gammaboard.Evaluation
