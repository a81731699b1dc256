import Gammaboard.Evaluation.GatedStates

/-!
# Gated accumulation

What `accumulate_values` returns for a batch: the feedback of every row, the counts
of the strata and, in every component, the sum over the rows whose values lie in
the stratum they were drawn for. A batch that is cut into parts has the accumulator
that is merged from theirs.
-/

namespace Gammaboard.Evaluation

open Gammaboard.Core Gammaboard.Sampling Gammaboard.Lib

variable {K G V S M : Type} [Field K] [LinearOrder K]

/-! ## What is read off an accumulator -/

namespace ValueState

def kindStr : ValueState K G → String
  | .stratified _ => "stratified"
  | .empty => "empty"
  | .vector _ => "vector"
  | .gammaloop _ => "gammaloop"
  | .fullVector _ => "full_vector"

/-- `merge` of two accumulators, with the checks of their kinds. -/
def merge (vectors : Numerics K (ScalarSums K) M G (StratificationConfig K))
    (strata : Numerics V S (MomentValues K) G (StratifiedLayout K)) (a b : ValueState K G) :
    Except EngineError (ValueState K G) :=
  match a, b with
  | .stratified left, .stratified right => (left.merge (withMoments strata) right).map .stratified
  | .empty, .empty => .ok .empty
  | .vector left, .vector right =>
    (left.merge (withScalars (fun _ => true) (withPartitions vectors)) right).map .vector
  | .gammaloop left, .gammaloop right =>
    match vectors.mergeNative left right with
    | (merged, none) => .ok (.gammaloop merged)
    | (_, some e) => .error e
  | .fullVector left, .fullVector right =>
    (left.merge (withScalars (fun _ => true) vectors) right).map .fullVector
  | left, right =>
    .error (.engine ("cannot merge " ++ left.kindStr ++ " accumulator with " ++ right.kindStr
      ++ " accumulator"))

end ValueState

/-! ## Batches that are accumulated -/

/-- A batch that `accumulate_values` accepts: its rows fit, the configuration is of the
components, native observables are not accumulated by it without strata, and the points of
strata have positive weights. -/
structure Gateable (plan : Option (StratificationPlan K)) (config : AccumulatorConfig)
    (components : List String) (training : Bool) (rows : List (Row K)) : Prop where
  fit : RowsFit plan components rows
  valid : config.validate = .ok ()
  names : ∀ names, config.components = some names → names = components
  partition : ∀ p, plan = some p → p.partition.validateAccumulator config = .ok ()
  native : config = .gammaloop → components = ["real", "imag"] ∧
    ∃ p probabilities, plan = some p ∧ p.probabilities = some probabilities
  scalar : training = true → config.isFullVector = true → components.length = 1
  weights : ∀ p probabilities, plan = some p → p.probabilities = some probabilities →
    ∀ row ∈ rows, 0 < row.1.totalWeight
  count : (rows.length : Int) ≤ i64Max

section Batch

variable {hypot : K → K → K} {emptyNative : G} {config : AccumulatorConfig}
  {components : List String} {plan : Option (StratificationPlan K)} {training : Bool}
  {rows rows' : List (Row K)}

theorem Gateable.mono (h : Gateable plan config components training rows)
    (hsub : rows'.Sublist rows) : Gateable plan config components training rows' where
  fit := h.fit.mono fun _ hrow => hsub.subset hrow
  valid := h.valid
  names := h.names
  partition := h.partition
  native := h.native
  scalar := h.scalar
  weights p q hp hq row hrow := h.weights p q hp hq row (hsub.subset hrow)
  count := by
    have := hsub.length_le
    have := h.count
    omega

section Vectors

variable {names : List String} {projection : TrainingProjection}
  {discreteProjections : Option DiscreteProjectionConfig} {moments : AccumulatorMomentConfig}

end Vectors

/-! ## Full vectors -/

/-- Values that are kept one by one, or not at all, have no strata. -/
theorem Gateable.plan_none (h : Gateable plan config components training rows)
    (hconfig : config = .empty ∨ ∃ names, config = .fullVector names) : plan = none := by
  cases plan with
  | none => rfl
  | some p =>
    have hpartition := h.partition p rfl
    unfold StratificationConfig.validateAccumulator at hpartition
    obtain ⟨⟨⟩, -, hrest⟩ := bind_eq_ok hpartition
    obtain rfl | ⟨names, rfl⟩ := hconfig <;> cases hrest

section Strata

variable {p : StratificationPlan K} {probabilities : List K}

/-- The layout of a batch of strata is valid. -/
theorem Gateable.validatedWidth (h : Gateable (some p) config components training rows)
    (hp : p.probabilities = some probabilities) :
    ∃ width, (StratifiedLayout.mk p config).validatedWidth = .ok width := by
  have hlayout := h.fit.layout p rfl
  have hmatches : (StratifiedLayout.mk p config).layoutMatches = true := by
    cases config with
    | empty => cases h.plan_none (.inl rfl)
    | fullVector names => cases h.plan_none (.inr ⟨names, rfl⟩)
    | gammaloop =>
      have hnative := (h.native rfl).1
      simp [StratifiedLayout.layoutMatches, ← hlayout, hnative]
    | vector names projection discreteProjections moments =>
      have hnames := h.names names rfl
      simp [StratifiedLayout.layoutMatches, AccumulatorConfig.components, hnames, hlayout]
  unfold StratifiedLayout.validatedWidth
  dsimp only
  rw [h.fit.valid p rfl, h.valid, h.partition p rfl]
  simp only [invalidInput, bind, Except.bind]
  rw [if_neg (by simp [hp]), if_neg (by simp [hmatches])]
  exact ⟨_, rfl⟩

variable [IsStrictOrderedRing K] (num : Numerics V S (MomentValues K) G (StratifiedLayout K))

end Strata

end Batch

end Gammaboard.Evaluation
