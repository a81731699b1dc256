import Gammaboard.Evaluation.StratumMoments
import Gammaboard.Lib.OrdMap
import Mathlib.Data.String.Basic

/-!
# Scalar accumulators

`evaluation/accumulator/scalar.rs` and `discrete_bins.rs`: the sums and the
extrema of one stream of samples, and the same for the samples of every discrete
path in a bin of its own. Samples are added over an ordered field, where every
test for a finite number holds; states are checked and merged over any numbers.
-/

namespace Gammaboard.Sampling

/-- `Point::total_weight`. -/
def Point.totalWeight {K : Type} [Field K] (point : Point K) : K :=
  (point.weightFactors.map (·.2)).prod

end Gammaboard.Sampling

namespace Gammaboard.Evaluation

open Gammaboard.Core Gammaboard.Sampling Gammaboard.Lib

variable {F K : Type}

/-- `DEFAULT_DISCRETE_PROJECTION_MAX_TOTAL_BINS`. -/
def discreteProjectionMaxTotalBins : Nat := 4096

structure DiscreteProjectionBinState (S : Type) where
  discrete : List Int
  state : ScalarAccumulatorState S

/-- The statistics of a `ScalarAccumulatorState` besides its count. The bins are in the order of
their keys. -/
structure ScalarSums (F : Type) where
  discreteProjections : Option DiscreteProjectionConfig
  moments : AccumulatorMomentConfig
  sumWeightedValue : F
  sumAbs : F
  sumSq : F
  sumCu : F
  sumFour : F
  maxWeightedPositive : F
  maxWeightedNegative : F
  maxWeightedPositiveSample : Option (DiagnosticSample F)
  maxWeightedNegativeSample : Option (DiagnosticSample F)
  discreteBins : List (String × DiscreteProjectionBinState (ScalarSums F))
  discreteBinsOverflowCount : Nat

/-- `from_config`. -/
def ScalarSums.new [Zero F] (discreteProjections : Option DiscreteProjectionConfig)
    (moments : AccumulatorMomentConfig) : ScalarSums F :=
  ⟨discreteProjections, moments, 0, 0, 0, 0, 0, 0, 0, none, none, [], 0⟩

/-- `plain`. -/
def ScalarSums.plain [Zero F] : ScalarSums F := .new none .maxOrder2

/-- `discrete_bin_key`. -/
def discreteBinKey (discrete : List Int) : String := ",".intercalate (discrete.map toString)

/-! ## Samples -/

section Samples

variable [Field K] [LinearOrder K]

/-- `update_extrema`. -/
def ScalarSums.updateExtrema (s : ScalarSums K) (weighted : K) (point : Point K)
    (stratum : Option (List Int × List Int)) : ScalarSums K :=
  if 0 ≤ weighted ∧ (s.maxWeightedPositiveSample.isNone ∨ s.maxWeightedPositive < weighted) then
    { s with maxWeightedPositive := weighted, maxWeightedPositiveSample := some ⟨point, stratum⟩ }
  else if weighted < 0 ∧
      (s.maxWeightedNegativeSample.isNone ∨ weighted < s.maxWeightedNegative) then
    { s with maxWeightedNegative := weighted, maxWeightedNegativeSample := some ⟨point, stratum⟩ }
  else s

/-- The sums with a sample. -/
def ScalarSums.withSample (s : ScalarSums K) (value : K) (point : Point K) : ScalarSums K :=
  let weighted := value * |point.totalWeight|
  let square := weighted * weighted
  let (cube, fourth) :=
    match s.moments with
    | .maxOrder4 => (square * weighted, square * square)
    | .maxOrder2 => (0, 0)
  { s with
    sumWeightedValue := s.sumWeightedValue + weighted
    sumAbs := s.sumAbs + |weighted|
    sumSq := s.sumSq + square
    sumCu := s.sumCu + cube
    sumFour := s.sumFour + fourth }

namespace ScalarAccumulatorState

/-- `sums_with_sample`. -/
def sumsWithSample (a : ScalarAccumulatorState (ScalarSums K)) (value : K) (point : Point K) :
    Except EngineError (ScalarSums K) :=
  if i64Max < a.count + 1 then .error (.eval "sample count overflow")
  else .ok (a.stats.withSample value point)

/-- `accept_sample`. -/
def acceptSample (a : ScalarAccumulatorState (ScalarSums K)) (sums : ScalarSums K) (value : K)
    (point : Point K) (stratum : Option (List Int × List Int)) :
    ScalarAccumulatorState (ScalarSums K) :=
  ⟨a.count + 1, sums.updateExtrema (value * |point.totalWeight|) point stratum⟩

/-- `add_plain_sample`. -/
def addPlainSample (a : ScalarAccumulatorState (ScalarSums K)) (value : K) (point : Point K)
    (stratum : Option (List Int × List Int)) :
    Except EngineError (ScalarAccumulatorState (ScalarSums K)) := do
  let sums ← a.sumsWithSample value point
  return a.acceptSample sums value point stratum

end ScalarAccumulatorState

/-- `upsert_scalar_discrete_bin`. -/
def ScalarSums.upsertDiscreteBin (s : ScalarSums K) (value : K) (point : Point K)
    (stratum : Option (List Int × List Int)) : Except EngineError (ScalarSums K) :=
  let key := discreteBinKey point.discrete
  match OrdMap.get key s.discreteBins with
  | none =>
    if discreteProjectionMaxTotalBins ≤ s.discreteBins.length then
      .ok { s with discreteBinsOverflowCount := s.discreteBinsOverflowCount + 1 }
    else do
      let state ← (⟨0, .plain⟩ : ScalarAccumulatorState (ScalarSums K)).addPlainSample value point
        stratum
      return { s with discreteBins := OrdMap.insert key ⟨point.discrete, state⟩ s.discreteBins }
  | some bin => do
    let state ← bin.state.addPlainSample value point stratum
    return { s with discreteBins := OrdMap.insert key { bin with state } s.discreteBins }

/-- `add_sample_with_details`. -/
def ScalarAccumulatorState.addSample (a : ScalarAccumulatorState (ScalarSums K)) (value : K)
    (point : Point K) (stratum : Option (List Int × List Int)) :
    Except EngineError (ScalarAccumulatorState (ScalarSums K)) := do
  let sums ← a.sumsWithSample value point
  let sums ← if point.discrete = [] then .ok sums else sums.upsertDiscreteBin value point stratum
  return a.acceptSample sums value point stratum

variable {a : ScalarAccumulatorState (ScalarSums K)} {value : K} {point : Point K}
  {stratum : Option (List Int × List Int)}

@[simp] theorem ScalarSums.updateExtrema_sum (s : ScalarSums K) (weighted : K) :
    (s.updateExtrema weighted point stratum).sumWeightedValue = s.sumWeightedValue := by
  unfold ScalarSums.updateExtrema
  split
  · rfl
  · split <;> rfl

theorem ScalarAccumulatorState.addPlainSample_ok (h : a.count < i64Max) :
    a.addPlainSample value point stratum =
      .ok (a.acceptSample (a.stats.withSample value point) value point stratum) := by
  unfold addPlainSample sumsWithSample
  rw [if_neg (by omega)]
  rfl

/-- A bin counts no more samples than there are, so it takes one more with them. -/
theorem ScalarSums.upsertDiscreteBin_ok {s : ScalarSums K}
    (h : ∀ e ∈ s.discreteBins, e.2.state.count < i64Max) :
    ∃ discreteBins overflow, s.upsertDiscreteBin value point stratum =
      .ok { s with discreteBins, discreteBinsOverflowCount := overflow } := by
  unfold upsertDiscreteBin
  dsimp only
  cases hget : OrdMap.get (discreteBinKey point.discrete) s.discreteBins with
  | none =>
    dsimp only
    split
    · exact ⟨_, _, rfl⟩
    · rw [ScalarAccumulatorState.addPlainSample_ok (show (0 : Int) < i64Max by decide)]
      exact ⟨_, _, rfl⟩
  | some bin =>
    dsimp only
    rw [ScalarAccumulatorState.addPlainSample_ok (h _ (OrdMap.mem_of_get hget))]
    exact ⟨_, _, rfl⟩

end Samples

/-! ## Checks -/

section Checks

variable [Add F] [Zero F] (finite : F → Bool)

/-- `checked_sums`, of the sums that have the names. -/
def checkedSums : List String → List F → List F → Except EngineError (List F)
  | name :: names, left :: lefts, right :: rights =>
    if !finite left || !finite right || !finite (left + right) then
      .error (.eval s!"non-finite {name} or accumulated sum")
    else (checkedSums names lefts rights).map ((left + right) :: ·)
  | _, _, _ => .ok []

def sumNames : List String :=
  ["weighted contribution", "absolute contribution", "second moment", "third moment",
    "fourth moment"]

def ScalarSums.sums (s : ScalarSums F) : List F :=
  [s.sumWeightedValue, s.sumAbs, s.sumSq, s.sumCu, s.sumFour]

def ScalarSums.checkSums (s : ScalarSums F) : Except EngineError Unit :=
  (checkedSums finite sumNames [0, 0, 0, 0, 0] s.sums).map fun _ => ()

def ScalarSums.checkSumsWith (s t : ScalarSums F) : Except EngineError Unit :=
  (checkedSums finite sumNames s.sums t.sums).map fun _ => ()

def ScalarSums.sameConfig (s t : ScalarSums F) : Bool :=
  s.discreteProjections == t.discreteProjections && s.moments == t.moments

mutual

/-- `validate`, of the state of a bin. -/
def ScalarSums.validate (count : Int) : ScalarSums F → Except EngineError Unit
  | ⟨_, _, weighted, abs, sq, cu, four, _, _, _, _, discreteBins, _⟩ => do
    let _ ← checkedSums finite sumNames [0, 0, 0, 0, 0] [weighted, abs, sq, cu, four]
    if count < 0 then .error (.eval "negative accumulator sample count")
    else validateBins discreteBins

def validateBins : List (String × DiscreteProjectionBinState (ScalarSums F)) →
    Except EngineError Unit
  | [] => .ok ()
  | (_, ⟨_, ⟨count, stats⟩⟩) :: rest => do
    ScalarSums.validate count stats
    validateBins rest

end

mutual

/-- `validate_merge`, of the states of a bin. -/
def ScalarSums.validateMerge (count otherCount : Int) (s : ScalarSums F) :
    ScalarSums F → Except EngineError Unit
  | ⟨discreteProjections, moments, weighted, abs, sq, cu, four, p, n, ps, ns, discreteBins, o⟩ =>
    if s.discreteProjections ≠ discreteProjections ∨ s.moments ≠ moments then
      .error (.engine "incompatible scalar accumulator configuration")
    else do
      s.validate finite count
      ScalarSums.validate finite otherCount
        ⟨discreteProjections, moments, weighted, abs, sq, cu, four, p, n, ps, ns, discreteBins, o⟩
      let _ ← checkedSums finite sumNames s.sums [weighted, abs, sq, cu, four]
      if i64Max < count + otherCount then .error (.eval "sample count overflow")
      else validateMergeBins s.discreteBins discreteBins

/-- The bins with a key in both states. -/
def validateMergeBins (bins : List (String × DiscreteProjectionBinState (ScalarSums F))) :
    List (String × DiscreteProjectionBinState (ScalarSums F)) → Except EngineError Unit
  | [] => .ok ()
  | (key, ⟨_, ⟨count, stats⟩⟩) :: rest => do
    match OrdMap.get key bins with
    | some current => ScalarSums.validateMerge current.state.count count current.state.stats stats
    | none => .ok ()
    validateMergeBins bins rest

end

end Checks

/-! ## Merges -/

section Merges

variable [Add F] [Zero F] [DecidableEq F] [LT F] [DecidableLT F]

/-- `merge_positive_extrema`. -/
def mergePositiveExtrema (target candidate : F × Option (DiagnosticSample F)) :
    F × Option (DiagnosticSample F) :=
  if candidate.2.isNone ∧ candidate.1 = 0 then target
  else if target.2.isNone ∨ target.1 < candidate.1 then candidate
  else target

/-- `merge_negative_extrema`. -/
def mergeNegativeExtrema (target candidate : F × Option (DiagnosticSample F)) :
    F × Option (DiagnosticSample F) :=
  if candidate.2.isNone ∧ candidate.1 = 0 then target
  else if target.2.isNone ∨ candidate.1 < target.1 then candidate
  else target

namespace ScalarSums

/-- `merge_plain`; the bins of the other state are not looked at. -/
def mergePlain (s t : ScalarSums F) : ScalarSums F :=
  let positive := mergePositiveExtrema (s.maxWeightedPositive, s.maxWeightedPositiveSample)
    (t.maxWeightedPositive, t.maxWeightedPositiveSample)
  let negative := mergeNegativeExtrema (s.maxWeightedNegative, s.maxWeightedNegativeSample)
    (t.maxWeightedNegative, t.maxWeightedNegativeSample)
  { s with
    sumWeightedValue := s.sumWeightedValue + t.sumWeightedValue
    sumAbs := s.sumAbs + t.sumAbs
    sumSq := s.sumSq + t.sumSq
    sumCu := s.sumCu + t.sumCu
    sumFour := s.sumFour + t.sumFour
    maxWeightedPositive := positive.1
    maxWeightedPositiveSample := positive.2
    maxWeightedNegative := negative.1
    maxWeightedNegativeSample := negative.2 }

end ScalarSums

namespace DiscreteProjectionBinState

/-- `merge_in_place`. -/
def mergeInPlace (bin other : DiscreteProjectionBinState (ScalarSums F)) :
    DiscreteProjectionBinState (ScalarSums F) :=
  { bin with
    state := ⟨bin.state.count + other.state.count, bin.state.stats.mergePlain other.state.stats⟩ }

end DiscreteProjectionBinState

/-- One bin of the other state. -/
def mergeBin (bins : List (String × DiscreteProjectionBinState (ScalarSums F)))
    (entry : String × DiscreteProjectionBinState (ScalarSums F)) :
    List (String × DiscreteProjectionBinState (ScalarSums F)) :=
  match OrdMap.get entry.1 bins with
  | some current => OrdMap.insert entry.1 (current.mergeInPlace entry.2) bins
  | none => OrdMap.insert entry.1 entry.2 bins

/-- The statistics of `merge` after its checks. -/
def ScalarSums.merge (s t : ScalarSums F) : ScalarSums F :=
  { s.mergePlain t with
    discreteBins := t.discreteBins.foldl mergeBin s.discreteBins
    discreteBinsOverflowCount := s.discreteBinsOverflowCount + t.discreteBinsOverflowCount }

/-- The checks and the merge of the scalar statistics; the others stay as given. -/
def withScalars {M G L : Type} (finite : F → Bool) (num : Numerics F (ScalarSums F) M G L) :
    Numerics F (ScalarSums F) M G L :=
  { num with
    finite
    sameConfig := ScalarSums.sameConfig
    checkSums := ScalarSums.checkSums finite
    checkSumsWith := ScalarSums.checkSumsWith finite
    checkBins := fun s => validateBins finite s.discreteBins
    checkBinsWith := fun s t => validateMergeBins finite s.discreteBins t.discreteBins
    mergeStats := ScalarSums.merge }

end Merges

end Gammaboard.Evaluation
