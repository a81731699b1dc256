import Gammaboard.Evaluation.GammaLoopAccumulator

/-!
# Merges change all or nothing

An accumulator that refuses another stays as it is, and one that accepts has
counted the samples of both. The GammaLoop accumulator has put its histograms
in place before the partitions of its estimate are compared.
-/

namespace Gammaboard.Evaluation

open Gammaboard.Core Gammaboard.Lib

variable {F X V S M G L : Type}

/-! ## Merges as they run -/

section InPlace

variable [DecidableEq L] (num : Numerics V S M G L)

/-- The merged copy is put in place at the end. -/
def StratifiedAccumulatorState.mergeInto (a b : StratifiedAccumulatorState M G L) :
    StratifiedAccumulatorState M G L × Option EngineError :=
  replaced a (a.merge num b)

/-- The rows are added when all of them have been looked at. -/
def FullVectorAccumulatorState.mergeInto (a b : FullVectorAccumulatorState V) :
    FullVectorAccumulatorState V × Option EngineError :=
  replaced a (a.merge num b)

/-- `merge`, field by field. -/
def AccumulatorState.mergeInto (a b : AccumulatorState V S M G L) :
    AccumulatorState V S M G L × Option EngineError :=
  match a, b with
  | .stratified left, .stratified right => (left.mergeInto num right).map .stratified id
  | .empty, .empty => (.empty, none)
  | .vector left, .vector right => (left.mergeInto num right).map .vector id
  | .gammaloop left, .gammaloop right => (num.mergeNative left right).map .gammaloop id
  | .fullVector left, .fullVector right => (left.mergeInto num right).map .fullVector id
  | left, right =>
    (left, some (.engine ("cannot merge " ++ left.kindStr ++ " accumulator with " ++ right.kindStr
      ++ " accumulator")))

variable {num}

omit [DecidableEq L] in
theorem map_replaced {α : Type} {wrap : α → AccumulatorState V S M G L} {state : α}
    {r : Except EngineError α} :
    (replaced state r).map wrap id = AccumulatorState.replace wrap (wrap state) r := by
  cases r <;> rfl

/-- Field by field, every kind is left as the whole merge leaves it. -/
theorem AccumulatorState.mergeInto_eq {a b : AccumulatorState V S M G L} :
    a.mergeInto num b = a.merge num b := by
  cases a with
  | stratified left =>
    cases b with
    | stratified right => exact map_replaced
    | empty | vector | gammaloop | fullVector => rfl
  | empty => cases b <;> rfl
  | vector left =>
    cases b with
    | vector right =>
      show (left.mergeInto num right).map AccumulatorState.vector id = _
      rw [VectorAccumulatorState.mergeInto_eq]
      exact map_replaced
    | stratified | empty | gammaloop | fullVector => rfl
  | gammaloop left => cases b <;> rfl
  | fullVector left =>
    cases b with
    | fullVector right => exact map_replaced
    | stratified | empty | vector | gammaloop => rfl

end InPlace

/-! ## Strata -/

namespace StratifiedAccumulatorState

variable {num : Numerics V S M G L} {a b c : StratifiedAccumulatorState M G L}

theorem mergeStratum_counts {a b c : StratumMoments M} (h : mergeStratum num a b = .ok c)
    (ha : a.matched ≤ a.attempts) (hb : b.matched ≤ b.attempts) :
    c.attempts = a.attempts + b.attempts ∧ c.matched = a.matched + b.matched := by
  refine ⟨mergeStratum_attempts num h, ?_⟩
  unfold mergeStratum at h
  split at h
  · rename_i hempty
    cases h
    omega
  · split at h
    · rename_i hempty
      cases h
      omega
    · split at h
      · cases h
      · cases h
        rfl

theorem mergeStrata_counts : ∀ {as bs cs : List (StratumMoments M)},
    mergeStrata num as bs = .ok cs → as.length = bs.length →
    (∀ s ∈ as, s.matched ≤ s.attempts) → (∀ s ∈ bs, s.matched ≤ s.attempts) →
      cs.map (·.attempts) = List.zipWith (· + ·) (as.map (·.attempts)) (bs.map (·.attempts)) ∧
        cs.map (·.matched) = List.zipWith (· + ·) (as.map (·.matched)) (bs.map (·.matched))
  | [], [], cs, h, _, _, _ => by
    cases h
    exact ⟨rfl, rfl⟩
  | a :: as, b :: bs, cs, h, hlen, has, hbs => by
    unfold mergeStrata at h
    obtain ⟨s, hs, h⟩ := bind_eq_ok h
    obtain ⟨rest, hrest, h⟩ := bind_eq_ok h
    rw [List.forall_mem_cons] at has hbs
    obtain ⟨hattempts, hmatched⟩ := mergeStratum_counts hs has.1 hbs.1
    obtain ⟨ihattempts, ihmatched⟩ := mergeStrata_counts hrest (by simpa using hlen) has.2 hbs.2
    cases h
    simp only [List.map_cons, List.zipWith_cons_cons, hattempts, hmatched, ihattempts, ihmatched,
      and_self]

theorem validate_matched (h : a.validate num = .ok ()) : ∀ s ∈ a.strata, s.matched ≤ s.attempts := by
  unfold validate at h
  obtain ⟨-, -, h⟩ := bind_eq_ok h
  split at h
  · cases h
  · split at h
    · cases h
    · rename_i hstrata
      intro s hs
      simp only [Bool.not_eq_true, List.any_eq_false, Bool.or_eq_true, decide_eq_true_eq,
        not_or, not_lt] at hstrata
      exact (hstrata s hs).2

/-- A merged stratified state is valid and has the counts of both, stratum by stratum. -/
theorem merge_counts [DecidableEq L] (h : a.merge num b = .ok c) :
    c.validate num = .ok () ∧
      c.strata.map (·.attempts) =
        List.zipWith (· + ·) (a.strata.map (·.attempts)) (b.strata.map (·.attempts)) ∧
      c.strata.map (·.matched) =
        List.zipWith (· + ·) (a.strata.map (·.matched)) (b.strata.map (·.matched)) := by
  unfold merge at h
  obtain ⟨⟨⟩, ha, h⟩ := bind_eq_ok h
  obtain ⟨⟨⟩, hb, h⟩ := bind_eq_ok h
  split at h
  · cases h
  · rename_i hplan
    obtain ⟨strata, hstrata, h⟩ := bind_eq_ok h
    obtain ⟨pooled, -, h⟩ := bind_eq_ok h
    obtain ⟨⟨⟩, hvalid, h⟩ := bind_eq_ok h
    cases h
    refine ⟨hvalid, mergeStrata_counts hstrata ?_ (validate_matched ha) (validate_matched hb)⟩
    rw [validate_length num ha, validate_length num hb, not_not.1 hplan]

end StratifiedAccumulatorState

/-! ## GammaLoop -/

namespace GammaLoopAccumulatorState

variable [Add F] [Zero F] [DecidableEq F] [LT F] [DecidableLT F] [DecidableEq L]
  {num : Numerics F (ScalarSums F) M G L} {mergeBundle : MergeBundle F X}
  {a b c : GammaLoopAccumulatorState F X L} {bundle : ObservableSnapshotBundle F X}

omit [Add F] [Zero F] [DecidableEq F] [LT F] [DecidableLT F] in
theorem stage_ok_iff : a.stage num mergeBundle b = .ok bundle ↔
    a.estimate.validateMerge num b.estimate = .ok () ∧ a.validateTrainingStatistics num b = .ok () ∧
      mergeBundle a.bundle b.bundle = (bundle, none) ∧
      validateHistogramBundle num.finite bundle = .ok () := by
  unfold stage
  constructor
  · intro h
    obtain ⟨⟨⟩, hestimate, h⟩ := bind_eq_ok h
    obtain ⟨⟨⟩, htraining, h⟩ := bind_eq_ok h
    obtain ⟨staged, hstaged, h⟩ := bind_eq_ok h
    obtain ⟨⟨⟩, hvalid, h⟩ := bind_eq_ok h
    cases h
    unfold mergedBundle at hstaged
    split at hstaged
    · rename_i merged hmerged
      cases hstaged
      exact ⟨hestimate, htraining, hmerged, hvalid⟩
    · cases hstaged
  · rintro ⟨hestimate, htraining, hmerged, hvalid⟩
    unfold mergedBundle
    rw [hestimate, htraining, hmerged]
    simp only [bind, Except.bind, hvalid]
    rfl

/-- The merge fails after the histograms or the training statistics have been put in place: one
side has counted no sample, and diagnostics of another partition. -/
structure LateFailure (num : Numerics F (ScalarSums F) M G L) (mergeBundle : MergeBundle F X)
    (a b : GammaLoopAccumulatorState F X L) : Prop where
  valid : a.validateValues num = .ok () ∧ b.validateValues num = .ok ()
  old : ¬a.Fresh
  estimate : a.estimate.validateMerge num b.estimate = .ok ()
  training : a.validateTrainingStatistics num b = .ok ()
  changed : ∃ bundle, mergeBundle a.bundle b.bundle = (bundle, none) ∧
    validateHistogramBundle num.finite bundle = .ok () ∧
    (bundle ≠ a.bundle ∨
      mergeTrainingStatistics a.trainingNormSqr b.trainingNormSqr ≠ a.trainingNormSqr)
  partitions : a.estimate.PartitionsDiffer b.estimate

/-- A refused merge has left the state as it was, unless it failed late. -/
theorem mergeInPlace_unchanged_iff :
    (∀ c e, a.mergeInPlace num mergeBundle b = (c, some e) → c = a) ↔
      ¬LateFailure num mergeBundle a b := by
  unfold mergeInPlace
  cases hvalid : a.validateValues num >>= fun _ => b.validateValues num with
  | error e =>
    refine iff_of_true (fun c e' h => (Prod.mk.inj h).1.symm) fun hlate => ?_
    rw [bind_unit_ok_iff.2 hlate.valid] at hvalid
    cases hvalid
  | ok u =>
    dsimp only
    by_cases hfresh : a.Fresh
    · rw [if_pos hfresh]
      exact iff_of_true (fun c e h => by cases h) fun hlate => hlate.old hfresh
    · rw [if_neg hfresh]
      cases hstage : a.stage num mergeBundle b with
      | error e =>
        refine iff_of_true (fun c e' h => (Prod.mk.inj h).1.symm) fun hlate => ?_
        obtain ⟨bundle, hmerged, hbundle, -⟩ := hlate.changed
        rw [stage_ok_iff.2 ⟨hlate.estimate, hlate.training, hmerged, hbundle⟩] at hstage
        cases hstage
      | ok bundle =>
        obtain ⟨hestimate, htraining, hmerged, hbundle⟩ := stage_ok_iff.1 hstage
        have hlate : LateFailure num mergeBundle a b ↔
            (bundle ≠ a.bundle ∨
              mergeTrainingStatistics a.trainingNormSqr b.trainingNormSqr ≠ a.trainingNormSqr) ∧
            ∃ e, a.estimate.merge num b.estimate = .error e := by
          rw [VectorAccumulatorState.merge_error_iff hestimate]
          constructor
          · intro h
            obtain ⟨bundle', hmerged', -, hchanged⟩ := h.changed
            rw [hmerged] at hmerged'
            cases hmerged'
            exact ⟨hchanged, h.partitions⟩
          · rintro ⟨hchanged, hpartitions⟩
            exact ⟨bind_unit_ok_iff.1 hvalid, hfresh, hestimate, htraining,
              ⟨bundle, hmerged, hbundle, hchanged⟩, hpartitions⟩
        rw [hlate, VectorAccumulatorState.mergeInto_eq]
        dsimp only
        cases a.estimate.merge num b.estimate with
        | ok merged => simp [replaced]
        | error e =>
          -- what was put in place is all that can differ
          obtain ⟨own, estimate, projection, training, diagnostics⟩ := a
          simp [replaced]

/-- An accepted merge has counted the samples of both. -/
theorem mergeInPlace_sampleCount (h : a.mergeInPlace num mergeBundle b = (c, none)) :
    c.sampleCount = a.sampleCount + b.sampleCount := by
  unfold mergeInPlace at h
  split at h
  · cases h
  · split at h
    · rename_i hfresh
      cases h
      unfold sampleCount
      rw [hfresh.2]
      omega
    · split at h
      · cases h
      · rw [VectorAccumulatorState.mergeInto_eq] at h
        dsimp only at h
        cases hmerge : a.estimate.merge num b.estimate with
        | error e =>
          rw [hmerge] at h
          cases h
        | ok merged =>
          rw [hmerge] at h
          cases h
          exact VectorAccumulatorState.merge_sampleCount num hmerge

end GammaLoopAccumulatorState

/-! ## All or nothing -/

namespace AccumulatorState

section

variable [DecidableEq L]

/-- An error leaves the state as it was; without one the samples of both are counted, and merged
strata are valid and have the counts of both. -/
structure AllOrNothing (num : Numerics V S M G L) (a b : AccumulatorState V S M G L) : Prop where
  refused : ∀ c e, a.mergeInto num b = (c, some e) → c = a
  counted : ∀ c, a.mergeInto num b = (c, none) →
    c.sampleCount num = a.sampleCount num + b.sampleCount num
  stratified : ∀ left right c, a = .stratified left → b = .stratified right →
    a.mergeInto num b = (c, none) → ∃ merged, c = .stratified merged ∧
      merged.validate num = .ok () ∧
      merged.strata.map (·.attempts) =
        List.zipWith (· + ·) (left.strata.map (·.attempts)) (right.strata.map (·.attempts)) ∧
      merged.strata.map (·.matched) =
        List.zipWith (· + ·) (left.strata.map (·.matched)) (right.strata.map (·.matched))

omit [DecidableEq L] in
theorem replace_eq_some {α : Type} {wrap : α → AccumulatorState V S M G L}
    {state c : AccumulatorState V S M G L} {r : Except EngineError α} {e : EngineError}
    (h : replace wrap state r = (c, some e)) : c = state := by
  cases r with
  | ok merged => simp [replace] at h
  | error e => exact (Prod.mk.inj h).1.symm

variable {num : Numerics V S M G L} {a b : AccumulatorState V S M G L}

theorem merge_gammaloop {left right : G} :
    (.gammaloop left : AccumulatorState V S M G L).merge num (.gammaloop right) =
      (num.mergeNative left right).map .gammaloop id := rfl

/-- Native observables are all that can be left half merged. -/
theorem allOrNothing_iff_native
    (hcount : ∀ left right merged, num.mergeNative left right = (merged, none) →
      num.nativeCount merged = num.nativeCount left + num.nativeCount right) :
    a.AllOrNothing num b ↔ ∀ left right, a = .gammaloop left → b = .gammaloop right →
      ∀ c e, num.mergeNative left right = (c, some e) → c = left := by
  constructor
  · rintro h left right rfl rfl c e hmerge
    have hrefused := h.refused (.gammaloop c) e
    rw [mergeInto_eq] at hrefused
    rw [merge_gammaloop, hmerge] at hrefused
    exact AccumulatorState.gammaloop.inj (hrefused rfl)
  · intro hnative
    refine ⟨fun c e h => ?_, fun c h => ?_, ?_⟩
    · rw [mergeInto_eq] at h
      cases a with
      | gammaloop left =>
        cases b with
        | gammaloop right =>
          rw [merge_gammaloop] at h
          have hleft := hnative left right rfl rfl (num.mergeNative left right).1 e
          rw [← hleft (Prod.ext rfl (Prod.mk.inj h).2), ← (Prod.mk.inj h).1]
        | stratified | empty | vector | fullVector => exact (Prod.mk.inj h).1.symm
      | stratified left =>
        cases b with
        | stratified right => exact replace_eq_some h
        | empty | vector | gammaloop | fullVector => exact (Prod.mk.inj h).1.symm
      | empty =>
        cases b with
        | empty => cases h
        | stratified | vector | gammaloop | fullVector => exact (Prod.mk.inj h).1.symm
      | vector left =>
        cases b with
        | vector right => exact replace_eq_some h
        | stratified | empty | gammaloop | fullVector => exact (Prod.mk.inj h).1.symm
      | fullVector left =>
        cases b with
        | fullVector right => exact replace_eq_some h
        | stratified | empty | vector | gammaloop => exact (Prod.mk.inj h).1.symm
    · rw [mergeInto_eq] at h
      cases hone : a.onePerInput with
      | true => exact (merge_counts num h hone).2.2
      | false =>
        cases a with
        | stratified | vector | fullVector => cases hone
        | empty =>
          cases b with
          | empty =>
            cases h
            rfl
          | stratified | vector | gammaloop | fullVector => cases h
        | gammaloop left =>
          cases b with
          | gammaloop right =>
            rw [merge_gammaloop] at h
            rw [← (Prod.mk.inj h).1]
            exact hcount left right _ (Prod.ext rfl (Prod.mk.inj h).2)
          | stratified | empty | vector | fullVector => cases h
    · rintro left right c rfl rfl h
      rw [mergeInto_eq] at h
      obtain ⟨merged, hmerge, rfl⟩ := replace_eq_none h
      exact ⟨merged, rfl, StratifiedAccumulatorState.merge_counts hmerge⟩

end

/-- A merge changes all or nothing, but for GammaLoop accumulators whose estimates bring
different partitions. -/
theorem allOrNothing_iff [Add F] [Zero F] [DecidableEq F] [LT F] [DecidableLT F] [DecidableEq L]
    (num : Numerics F (ScalarSums F) M G L) (mergeBundle : MergeBundle F X)
    (a b : AccumulatorState F (ScalarSums F) M (GammaLoopAccumulatorState F X L) L) :
    a.AllOrNothing (GammaLoopAccumulatorState.native num mergeBundle) b ↔
      ¬∃ left right, a = .gammaloop left ∧ b = .gammaloop right ∧
        GammaLoopAccumulatorState.LateFailure num mergeBundle left right := by
  rw [allOrNothing_iff_native fun left right merged h =>
    GammaLoopAccumulatorState.mergeInPlace_sampleCount h]
  constructor
  · rintro h ⟨left, right, rfl, rfl, hlate⟩
    exact GammaLoopAccumulatorState.mergeInPlace_unchanged_iff.1 (h left right rfl rfl) hlate
  · rintro h left right rfl rfl
    exact GammaLoopAccumulatorState.mergeInPlace_unchanged_iff.2
      fun hlate => h ⟨left, right, rfl, rfl, hlate⟩

end AccumulatorState

/-! ## An empty batch of another partition -/

/-- Histograms of one layout, added bin by bin. -/
def addBundles : MergeBundle ℚ Unit := fun left right =>
  let addBin (a b : HistogramBinSnapshot ℚ Unit) : HistogramBinSnapshot ℚ Unit :=
    ⟨a.sumWeights + b.sumWeights, a.sumWeightsSquared + b.sumWeightsSquared, ()⟩
  if left.map (·.1) = right.map (·.1) then
    (List.zipWith (fun (name, a) (_, b) =>
      (name, ⟨a.sampleCount + b.sampleCount, List.zipWith addBin a.bins b.bins,
        addBin a.underflowBin b.underflowBin, addBin a.overflowBin b.overflowBin, ()⟩)) left right,
      none)
  else (left, some "different histograms")

def oneStratum : StratificationConfig ℚ := ⟨.rectangular 1 [1] 0, [([0], [1])], none⟩

/-- So many samples of value one, with their diagnostics. -/
def countedPhases (count : Nat) (partition : PartitionDiagnostics (StratificationConfig ℚ)) :
    GammaLoopAccumulatorState ℚ Unit (StratificationConfig ℚ) where
  bundle :=
    let empty : HistogramBinSnapshot ℚ Unit := ⟨0, 0, ()⟩
    [("pt", ⟨count, [⟨count, count, ()⟩], empty, empty, ()⟩)]
  estimate :=
    let state : ScalarAccumulatorState (ScalarSums ℚ) :=
      ⟨count, { ScalarSums.plain with sumWeightedValue := count, sumAbs := count, sumSq := count }⟩
    ⟨[⟨"real", state⟩, ⟨"imag", ⟨count, .plain⟩⟩], some partition, .norm ⟨"norm", state⟩⟩
  trainingProjection := none
  trainingNormSqr := none
  diagnostics := ⟨count, count, 0, 0, 0, 0, 0, 0, 0, 0, 0, 0, none, none, 0, 0⟩

/-- An empty batch has left diagnostics of its partition; the histograms of a batch of another one
are added before it is refused. -/
theorem half_merged :
    ¬∀ a b : AccumulatorState ℚ (ScalarSums ℚ) Unit
        (GammaLoopAccumulatorState ℚ Unit (StratificationConfig ℚ)) (StratificationConfig ℚ),
      a.AllOrNothing (GammaLoopAccumulatorState.native partitionScalars addBundles) b := by
  intro h
  let left := countedPhases 0 noAttempts
  let right := countedPhases 1 ⟨oneStratum, [1], [1], 0⟩
  have hunchanged := (AccumulatorState.allOrNothing_iff_native fun left right merged h =>
    GammaLoopAccumulatorState.mergeInPlace_sampleCount h).1
      (h (.gammaloop left) (.gammaloop right)) left right rfl rfl
  have hlate : GammaLoopAccumulatorState.LateFailure partitionScalars addBundles left right := by
    refine ⟨⟨?_, ?_⟩, ?_, ?_, rfl, ⟨_, rfl, rfl, .inl ?_⟩, ⟨_, _, rfl, rfl, ?_⟩⟩
    · decide +kernel
    · decide +kernel
    · decide +kernel
    · decide +kernel
    · show (addBundles left.bundle right.bundle).1 ≠ left.bundle
      decide +kernel
    · show twoStrata ≠ oneStratum
      decide +kernel
  exact GammaLoopAccumulatorState.mergeInPlace_unchanged_iff.1 hunchanged hlate

end Gammaboard.Evaluation
