import Gammaboard.Core.AccumulatorConfig
import Gammaboard.Lib.Results
import Gammaboard.Sampling.Generation
import Mathlib.Algebra.Order.Ring.Int
import Mathlib.Data.Nat.ModEq
import Mathlib.Tactic.Common

/-!
# Accumulators

`evaluation/accumulator`: what the aggregator merges the evaluators' results
into. The sample counts, the layouts and the order of the checks are those of
the source. The floating-point statistics (sums, extrema, bins, moments, native
histograms) are values of type parameters, and `Numerics` says how they are
checked and merged. `AccumulatorOps` is what the aggregator needs to know of an
accumulator.
-/

namespace Gammaboard.Evaluation

open Gammaboard.Core Gammaboard.Lib Gammaboard.Sampling

variable {V S M G L : Type}

def i64Max : Int := 9223372036854775807

/-- The checks and merges of the statistics: of a scalar (`S`), of a stratum's moments (`M`),
of a native observable (`G`) and of a partition with its configuration (`L`). -/
structure Numerics (V S M G L : Type) where
  finite : V → Bool
  sameConfig : S → S → Bool
  checkSums : S → Except EngineError Unit
  checkSumsWith : S → S → Except EngineError Unit
  checkBins : S → Except EngineError Unit
  checkBinsWith : S → S → Except EngineError Unit
  mergeStats : S → S → S
  momentsOk : L → M → Bool
  mergeMoments : Nat → Nat → M → M → M
  nativeCount : G → Int
  validateNative : G → Except EngineError Unit
  validateNativeSamples : G → Int → Except EngineError Unit
  mergeNative : G → G → G × Option EngineError
  validatePartition : L → Except EngineError Unit
  centers : L → Nat
  isNative : L → Bool

/-! ## Scalars -/

structure ScalarAccumulatorState (S : Type) where
  count : Int
  stats : S
  deriving DecidableEq, Repr

namespace ScalarAccumulatorState

variable (num : Numerics V S M G L)

def validate (a : ScalarAccumulatorState S) : Except EngineError Unit := do
  num.checkSums a.stats
  if a.count < 0 then .error (.eval "negative accumulator sample count")
  else num.checkBins a.stats

def validateMerge (a b : ScalarAccumulatorState S) : Except EngineError Unit :=
  if !num.sameConfig a.stats b.stats then
    .error (.engine "incompatible scalar accumulator configuration")
  else do
    a.validate num
    b.validate num
    num.checkSumsWith a.stats b.stats
    if i64Max < a.count + b.count then .error (.eval "sample count overflow")
    else num.checkBinsWith a.stats b.stats

/-- The merge itself, after its checks. -/
def mergePlain (a b : ScalarAccumulatorState S) : ScalarAccumulatorState S :=
  ⟨a.count + b.count, num.mergeStats a.stats b.stats⟩

variable {num}

/-- Two counts that passed the check can be added. -/
theorem validateMerge_count {a b : ScalarAccumulatorState S} (h : a.validateMerge num b = .ok ()) :
    a.count + b.count ≤ i64Max := by
  unfold validateMerge at h
  split at h
  · cases h
  · obtain ⟨-, -, h⟩ := bind_eq_ok h
    obtain ⟨-, -, h⟩ := bind_eq_ok h
    obtain ⟨-, -, h⟩ := bind_eq_ok h
    split at h
    · cases h
    · rename_i hcount
      exact not_lt.1 hcount

end ScalarAccumulatorState

/-! ## Vectors -/

structure NamedScalarAccumulator (S : Type) where
  name : String
  state : ScalarAccumulatorState S
  deriving DecidableEq, Repr

inductive ProjectionState (S : Type) where
  | component (name : String)
  | norm (state : NamedScalarAccumulator S)
  deriving DecidableEq, Repr

structure PartitionDiagnostics (L : Type) where
  partition : L
  attempts : List Nat
  matched : List Nat
  feedbackSamples : Nat
  deriving DecidableEq, Repr

namespace PartitionDiagnostics

def u64Max : Nat := 18446744073709551615

def validate (num : Numerics V S M G L) (p : PartitionDiagnostics L) (samples : Int) :
    Except EngineError Unit := do
  num.validatePartition p.partition
  let n := num.centers p.partition
  if p.attempts.length ≠ n ∨ p.matched.length ≠ n ∨ (List.zip p.matched p.attempts).any (fun (m, n) => decide (n < m))
      ∨ u64Max < p.attempts.sum ∨ (p.attempts.sum : Int) ≠ samples
      ∨ p.attempts.sum < p.feedbackSamples then
    .error (.eval "invalid partition diagnostic counts")
  else .ok ()

/-- Add counts pairwise; the ones without a partner stay. -/
def addCounts : List Nat → List Nat → Except EngineError (List Nat)
  | a :: as, b :: bs =>
    if u64Max < a + b then .error (.eval "partition count overflow")
    else (addCounts as bs).map ((a + b) :: ·)
  | as, [] => .ok as
  | [], _ => .ok []

def merge [DecidableEq L] (p q : PartitionDiagnostics L) :
    Except EngineError (PartitionDiagnostics L) :=
  if p.partition ≠ q.partition then
    .error (.eval "partition diagnostics cannot merge different partitions")
  else do
    let attempts ← addCounts p.attempts q.attempts
    let matched ← addCounts p.matched q.matched
    if u64Max < p.feedbackSamples + q.feedbackSamples then .error (.eval "feedback count overflow")
    else .ok ⟨p.partition, attempts, matched, p.feedbackSamples + q.feedbackSamples⟩

end PartitionDiagnostics

structure VectorAccumulatorState (S L : Type) where
  components : List (NamedScalarAccumulator S)
  partition : Option (PartitionDiagnostics L)
  projection : ProjectionState S
  deriving DecidableEq, Repr

namespace VectorAccumulatorState

/-- `projection()`: the statistics of the training projection; `none` where the source relies
on a validated component name. -/
def projected (a : VectorAccumulatorState S L) : Option (NamedScalarAccumulator S) :=
  match a.projection with
  | .component name => a.components.find? (·.name == name)
  | .norm state => some state

def sampleCount (a : VectorAccumulatorState S L) : Int := a.projected.elim 0 (·.state.count)

/-- The part of `projection_spec` two states must share. -/
def sameProjection (a b : VectorAccumulatorState S L) : Bool :=
  match a.projection, b.projection with
  | .component m, .component n => m == n
  | .norm _, .norm _ => true
  | _, _ => false

/-- `projection_spec`. -/
def projectionSpec (a : VectorAccumulatorState S L) : TrainingProjection :=
  match a.projection with
  | .component name => .component name
  | .norm _ => .norm

/-- The configuration of the component names and the projection is valid. -/
def checkNames (a : VectorAccumulatorState S L) : Except String Unit :=
  (AccumulatorConfig.vector (a.components.map (·.name)) a.projectionSpec none .maxOrder2).validate

variable (num : Numerics V S M G L)

/-- Every component is valid and has counted as many samples as the projection. -/
def checkComponents (count : Int) : List (NamedScalarAccumulator S) → Except EngineError Unit
  | [] => .ok ()
  | c :: rest => do
    c.state.validate num
    if c.state.count ≠ count then .error (.eval "vector components have inconsistent sample counts")
    else checkComponents count rest

def validate (a : VectorAccumulatorState S L) : Except EngineError Unit := do
  match a.partition with
  | some p => p.validate num a.sampleCount
  | none => .ok ()
  match a.checkNames with
  | .error e => .error (.eval e)
  | .ok () =>
    match a.projected with
    | none => .ok ()
    | some p => do
      p.state.validate num
      checkComponents num p.state.count a.components

def validateMergeAll : List (NamedScalarAccumulator S) → List (NamedScalarAccumulator S) →
    Except EngineError Unit
  | a :: as, b :: bs => do
    a.state.validateMerge num b.state
    validateMergeAll as bs
  | _, _ => .ok ()

def validateMerge [DecidableEq L] (a b : VectorAccumulatorState S L) : Except EngineError Unit :=
  if 0 < a.sampleCount ∧ 0 < b.sampleCount ∧
      a.partition.map (·.partition) ≠ b.partition.map (·.partition) then
    .error (.eval "cannot mix different sampling partitions; start a fresh accumulator")
  else do
    a.validate num
    b.validate num
    if !sameProjection a b || a.components.map (·.name) != b.components.map (·.name) then
      .error (.engine "incompatible vector accumulator layout or projection")
    else do
      validateMergeAll num a.components b.components
      match a.projected, b.projected with
      | some p, some q => p.state.validateMerge num q.state
      | _, _ => .ok ()

def mergePartition [DecidableEq L] : Option (PartitionDiagnostics L) → Option (PartitionDiagnostics L) →
    Except EngineError (Option (PartitionDiagnostics L))
  | left, none => .ok left
  | some left, some right => (left.merge right).map some
  | none, some right => .ok (some right)

def mergeNamed (a b : NamedScalarAccumulator S) : NamedScalarAccumulator S :=
  ⟨a.name, a.state.mergePlain num b.state⟩

/-- Every check has passed before the first component changes. -/
def merge [DecidableEq L] (a b : VectorAccumulatorState S L) :
    Except EngineError (VectorAccumulatorState S L) := do
  a.validateMerge num b
  let partition ← mergePartition a.partition b.partition
  return { components := List.zipWith (mergeNamed num) a.components b.components
           partition
           projection :=
            match a.projection, b.projection with
            | .norm p, .norm q => .norm (mergeNamed num p q)
            | p, _ => p }

theorem projected_zipWith {name : String} :
    ∀ {as bs : List (NamedScalarAccumulator S)}, as.map (·.name) = bs.map (·.name) →
      (((List.zipWith (mergeNamed num) as bs).find? (·.name == name)).elim 0 (·.state.count) : Int) =
        (as.find? (·.name == name)).elim 0 (·.state.count) +
          (bs.find? (·.name == name)).elim 0 (·.state.count)
  | [], [], _ => rfl
  | a :: as, b :: bs, h => by
    obtain ⟨hname, hrest⟩ := List.cons.inj h
    by_cases hn : a.name = name
    · have hb : b.name = name := hname.symm.trans hn
      simp [mergeNamed, ScalarAccumulatorState.mergePlain, hn, hb]
    · have hb : b.name ≠ name := fun hb => hn (hname.trans hb)
      have ih : ((List.zipWith (mergeNamed num) as bs).find? (·.name == name)).elim
          (0 : Int) (·.state.count) = _ := projected_zipWith hrest
      simpa [mergeNamed, hn, hb] using ih

/-- What `validate_merge` has checked when it accepts. -/
theorem validateMerge_ok [DecidableEq L] {a b : VectorAccumulatorState S L}
    (h : a.validateMerge num b = .ok ()) :
    sameProjection a b = true ∧ a.components.map (·.name) = b.components.map (·.name) := by
  unfold validateMerge at h
  split at h
  · cases h
  · obtain ⟨-, -, h⟩ := bind_eq_ok h
    obtain ⟨-, -, h⟩ := bind_eq_ok h
    split at h
    · cases h
    · rename_i hlayout
      simp only [Bool.or_eq_true, Bool.not_eq_eq_eq_not, Bool.not_true, bne_iff_ne, ne_eq, not_or,
        Bool.not_eq_false, not_not] at hlayout
      exact hlayout

/-- A merged vector has counted the samples of both. -/
theorem merge_sampleCount [DecidableEq L] {a b c : VectorAccumulatorState S L}
    (h : a.merge num b = .ok c) :
    c.sampleCount = a.sampleCount + b.sampleCount := by
  unfold merge at h
  obtain ⟨⟨⟩, hvalid, h⟩ := bind_eq_ok h
  obtain ⟨partition, -, h⟩ := bind_eq_ok h
  obtain ⟨hsame, hnames⟩ := validateMerge_ok num hvalid
  cases h
  unfold sampleCount projected
  cases ha : a.projection with
  | component m =>
    cases hb : b.projection with
    | component n =>
      simp only [sameProjection, ha, hb, beq_iff_eq] at hsame
      subst hsame
      exact projected_zipWith num hnames
    | norm q => simp [sameProjection, ha, hb] at hsame
  | norm p =>
    cases hb : b.projection with
    | component n => simp [sameProjection, ha, hb] at hsame
    | norm q => rfl

end VectorAccumulatorState

/-! ## Full vectors -/

structure FullVectorAccumulatorState (V : Type) where
  components : List String
  valuesRowMajor : List V
  deriving DecidableEq, Repr

namespace FullVectorAccumulatorState

def sampleCount (a : FullVectorAccumulatorState V) : Int :=
  if a.components.isEmpty then 0 else (a.valuesRowMajor.length / a.components.length : Nat)

variable (num : Numerics V S M G L)

def validate (a : FullVectorAccumulatorState V) : Except EngineError Unit :=
  let width := a.components.length
  if width = 0 ∨ a.valuesRowMajor.length % width ≠ 0 then
    .error (.eval "invalid full-vector row layout")
  else
    match a.valuesRowMajor.findIdx? (fun v => !num.finite v) with
    | some index =>
      .error (.eval ("sample " ++ toString (index / width) ++ ", component "
        ++ reprStr (a.components.getD (index % width) "") ++ ": non-finite contribution"))
    | none => .ok ()

def merge (a b : FullVectorAccumulatorState V) :
    Except EngineError (FullVectorAccumulatorState V) :=
  let width := a.components.length
  if a.components ≠ b.components ∨ width = 0 ∨ a.valuesRowMajor.length % width ≠ 0
      ∨ b.valuesRowMajor.length % width ≠ 0
      ∨ (a.valuesRowMajor ++ b.valuesRowMajor).any (fun v => !num.finite v) then
    .error (.engine "incompatible or malformed full-vector accumulator")
  else .ok { a with valuesRowMajor := a.valuesRowMajor ++ b.valuesRowMajor }

theorem merge_sampleCount {a b c : FullVectorAccumulatorState V} (h : a.merge num b = .ok c) :
    c.sampleCount = a.sampleCount + b.sampleCount := by
  simp only [merge] at h
  split at h
  · cases h
  · rename_i hok
    simp only [ne_eq, not_or, not_not] at hok
    obtain ⟨hcomponents, hwidth, ha, hb, -⟩ := hok
    cases h
    have hne : a.components.isEmpty = false := by
      simpa [List.isEmpty_iff_length_eq_zero] using hwidth
    simp only [sampleCount, ← hcomponents, hne, List.length_append]
    rw [Nat.add_div_of_dvd_right (Nat.dvd_of_mod_eq_zero ha)]
    simp

end FullVectorAccumulatorState

/-! ## Strata -/

structure StratumMoments (M : Type) where
  attempts : Nat
  matched : Nat
  moments : M
  deriving DecidableEq, Repr

/-- The plan and the configuration are one value of `L`. -/
structure StratifiedAccumulatorState (M G L : Type) where
  plan : L
  strata : List (StratumMoments M)
  pooled : Option G
  deriving DecidableEq, Repr

namespace StratifiedAccumulatorState

variable (num : Numerics V S M G L)

def sampleCount (a : StratifiedAccumulatorState M G L) : Int :=
  (a.strata.map fun s => (s.attempts : Int)).sum

/-- `StratumMoments::merge`: an empty side leaves the other as it is. -/
def mergeStratum (a b : StratumMoments M) : Except EngineError (StratumMoments M) :=
  if b.attempts = 0 then .ok a
  else if a.attempts = 0 then .ok b
  else if PartitionDiagnostics.u64Max < a.attempts + b.attempts then
    .error (.eval "stratum count overflow")
  else
    .ok ⟨a.attempts + b.attempts, a.matched + b.matched,
      num.mergeMoments a.attempts b.attempts a.moments b.moments⟩

def mergeStrata : List (StratumMoments M) → List (StratumMoments M) →
    Except EngineError (List (StratumMoments M))
  | a :: as, b :: bs => do
    let s ← mergeStratum num a b
    let rest ← mergeStrata as bs
    return s :: rest
  | as, _ => .ok as

def validate (a : StratifiedAccumulatorState M G L) : Except EngineError Unit := do
  num.validatePartition a.plan
  if a.strata.length ≠ num.centers a.plan then .error (.eval "incomplete stratum state")
  else if a.strata.any (fun s => !num.momentsOk a.plan s.moments || decide (s.attempts < s.matched))
  then .error (.eval "invalid stratum moments")
  else if i64Max < a.sampleCount then .error (.eval "stratum count overflow")
  else
    match a.pooled, num.isNative a.plan with
    | some pooled, true => do
      num.validateNative pooled
      num.validateNativeSamples pooled a.sampleCount
    | none, false => .ok ()
    | _, _ => .error (.eval "incompatible pooled observable state")

def mergePooled : Option G → Option G → Except EngineError (Option G)
  | some left, some right =>
    match num.mergeNative left right with
    | (merged, none) => .ok (some merged)
    | (_, some e) => .error e
  | left, _ => .ok left

/-- The merged copy replaces the state only once it has been validated. -/
def merge [DecidableEq L] (a b : StratifiedAccumulatorState M G L) :
    Except EngineError (StratifiedAccumulatorState M G L) := do
  a.validate num
  b.validate num
  if a.plan ≠ b.plan then .error (.eval "incompatible stratification plans")
  else
    let strata ← mergeStrata num a.strata b.strata
    let pooled ← mergePooled num a.pooled b.pooled
    let merged := { a with strata, pooled }
    merged.validate num
    return merged

theorem mergeStratum_attempts {a b c : StratumMoments M} (h : mergeStratum num a b = .ok c) :
    c.attempts = a.attempts + b.attempts := by
  unfold mergeStratum at h
  split at h
  · rename_i hb
    cases h
    omega
  · split at h
    · rename_i ha
      cases h
      omega
    · split at h
      · cases h
      · cases h
        rfl

theorem mergeStrata_attempts :
    ∀ {as bs cs : List (StratumMoments M)}, mergeStrata num as bs = .ok cs →
      as.length = bs.length →
      (cs.map fun s => (s.attempts : Int)).sum =
        (as.map fun s => (s.attempts : Int)).sum + (bs.map fun s => (s.attempts : Int)).sum
  | [], [], cs, h, _ => by cases h; rfl
  | a :: as, b :: bs, cs, h, hlen => by
    unfold mergeStrata at h
    obtain ⟨s, hs, h⟩ := bind_eq_ok h
    obtain ⟨rest, hrest, h⟩ := bind_eq_ok h
    have ih := mergeStrata_attempts hrest (by simpa using hlen)
    have hattempts := mergeStratum_attempts num hs
    cases h
    simp only [List.map_cons, List.sum_cons, hattempts, ih, Nat.cast_add]
    omega

theorem validate_length {a : StratifiedAccumulatorState M G L} (h : a.validate num = .ok ()) :
    a.strata.length = num.centers a.plan := by
  unfold validate at h
  obtain ⟨-, -, h⟩ := bind_eq_ok h
  split at h
  · cases h
  · rename_i hlen
    exact not_not.1 hlen

/-- A merged stratified state has counted the attempts of both. -/
theorem merge_sampleCount [DecidableEq L] {a b c : StratifiedAccumulatorState M G L}
    (h : a.merge num b = .ok c) : c.sampleCount = a.sampleCount + b.sampleCount := by
  unfold merge at h
  obtain ⟨⟨⟩, ha, h⟩ := bind_eq_ok h
  obtain ⟨⟨⟩, hb, h⟩ := bind_eq_ok h
  split at h
  · cases h
  · rename_i hplan
    obtain ⟨strata, hstrata, h⟩ := bind_eq_ok h
    obtain ⟨pooled, -, h⟩ := bind_eq_ok h
    obtain ⟨-, -, h⟩ := bind_eq_ok h
    cases h
    refine mergeStrata_attempts num hstrata ?_
    rw [validate_length num ha, validate_length num hb, not_not.1 hplan]

end StratifiedAccumulatorState

/-! ## The accumulator of a task -/

inductive AccumulatorState (V S M G L : Type) where
  | stratified (state : StratifiedAccumulatorState M G L)
  | empty
  | vector (state : VectorAccumulatorState S L)
  | gammaloop (state : G)
  | fullVector (state : FullVectorAccumulatorState V)
  deriving DecidableEq, Repr

namespace AccumulatorState

def kindStr : AccumulatorState V S M G L → String
  | .stratified _ => "stratified"
  | .empty => "empty"
  | .vector _ => "vector"
  | .gammaloop _ => "gammaloop"
  | .fullVector _ => "full_vector"

/-- One sample is counted for each input; an observable adapter may report an integration of
its own. -/
def onePerInput : AccumulatorState V S M G L → Bool
  | .stratified _ | .vector _ | .fullVector _ => true
  | .empty | .gammaloop _ => false

variable (num : Numerics V S M G L)

def sampleCount : AccumulatorState V S M G L → Int
  | .stratified state => state.sampleCount
  | .empty => 0
  | .vector state => state.sampleCount
  | .gammaloop state => num.nativeCount state
  | .fullVector state => state.sampleCount

def validateValues : AccumulatorState V S M G L → Except EngineError Unit
  | .stratified state => state.validate num
  | .empty => .ok ()
  | .vector state => state.validate num
  | .gammaloop state => num.validateNative state
  | .fullVector state => state.validate num

/-- Replace the state by a merged one, or keep it beside the error. -/
def replace {α : Type} (wrap : α → AccumulatorState V S M G L) (state : AccumulatorState V S M G L) :
    Except EngineError α → AccumulatorState V S M G L × Option EngineError
  | .ok merged => (wrap merged, none)
  | .error e => (state, some e)

/-- `merge`, with the state it leaves also when it fails. -/
def merge [DecidableEq L] (a b : AccumulatorState V S M G L) :
    AccumulatorState V S M G L × Option EngineError :=
  match a, b with
  | .stratified left, .stratified right => replace .stratified a (left.merge num right)
  | .empty, .empty => (.empty, none)
  | .vector left, .vector right => replace .vector a (left.merge num right)
  | .gammaloop left, .gammaloop right =>
    let (merged, e) := num.mergeNative left right
    (.gammaloop merged, e)
  | .fullVector left, .fullVector right => replace .fullVector a (left.merge num right)
  | left, right =>
    (left, some (.engine ("cannot merge " ++ left.kindStr ++ " accumulator with " ++ right.kindStr
      ++ " accumulator")))

theorem replace_eq_none {α : Type} {wrap : α → AccumulatorState V S M G L}
    {state c : AccumulatorState V S M G L} {r : Except EngineError α}
    (h : replace wrap state r = (c, none)) : ∃ merged, r = .ok merged ∧ c = wrap merged := by
  cases r with
  | ok merged =>
    simp only [replace, Prod.mk.injEq, and_true] at h
    exact ⟨merged, rfl, h.symm⟩
  | error e => simp [replace] at h

/-- A successful merge keeps the kind and adds the counts. -/
theorem merge_counts [DecidableEq L] {a b c : AccumulatorState V S M G L}
    (h : a.merge num b = (c, none)) (ha : a.onePerInput = true) :
    b.onePerInput = true ∧ c.onePerInput = true ∧
      c.sampleCount num = a.sampleCount num + b.sampleCount num := by
  cases a with
  | empty | gammaloop => cases ha
  | stratified left =>
    cases b with
    | stratified right =>
      obtain ⟨merged, hm, rfl⟩ := replace_eq_none h
      exact ⟨rfl, rfl, left.merge_sampleCount num hm⟩
    | empty | vector | gammaloop | fullVector => simp [merge] at h
  | vector left =>
    cases b with
    | vector right =>
      obtain ⟨merged, hm, rfl⟩ := replace_eq_none h
      exact ⟨rfl, rfl, left.merge_sampleCount num hm⟩
    | stratified | empty | gammaloop | fullVector => simp [merge] at h
  | fullVector left =>
    cases b with
    | fullVector right =>
      obtain ⟨merged, hm, rfl⟩ := replace_eq_none h
      exact ⟨rfl, rfl, left.merge_sampleCount num hm⟩
    | stratified | empty | vector | gammaloop => simp [merge] at h

end AccumulatorState

/-! ## What the aggregator uses -/

/-- An accumulator type with its operations: a successful merge into an accumulator that
counts one sample for each input adds the counts. -/
structure AccumulatorOps (A : Type) where
  merge : A → A → A × Option EngineError
  validateValues : A → Except EngineError Unit
  sampleCount : A → Int
  onePerInput : A → Bool
  merge_counts : ∀ {a b c}, merge a b = (c, none) → onePerInput a = true →
    onePerInput b = true ∧ onePerInput c = true ∧ sampleCount c = sampleCount a + sampleCount b

/-- The accumulators of the source. -/
def AccumulatorState.ops [DecidableEq L] (num : Numerics V S M G L) :
    AccumulatorOps (AccumulatorState V S M G L) where
  merge := AccumulatorState.merge num
  validateValues := AccumulatorState.validateValues num
  sampleCount := AccumulatorState.sampleCount num
  onePerInput := AccumulatorState.onePerInput
  merge_counts := AccumulatorState.merge_counts num

namespace AccumulatorOps

variable {A : Type} (ops : AccumulatorOps A)

/-- Merge results in order; `none` once one is refused. -/
def mergeAll : A → List A → Option A
  | acc, [] => some acc
  | acc, b :: bs =>
    match ops.merge acc b with
    | (acc, none) => mergeAll acc bs
    | (_, some _) => none

theorem mergeAll_append (acc : A) (as bs : List A) :
    ops.mergeAll acc (as ++ bs) = (ops.mergeAll acc as).bind fun acc => ops.mergeAll acc bs := by
  induction as generalizing acc with
  | nil => rfl
  | cons a as ih =>
    simp only [List.cons_append, mergeAll]
    split
    · exact ih _
    · rfl

/-- The samples counted by a run of merges. -/
theorem mergeAll_counts {acc acc' : A} {bs : List A} (h : ops.mergeAll acc bs = some acc')
    (ha : ops.onePerInput acc = true) :
    (∀ b ∈ bs, ops.onePerInput b = true) ∧
      ops.sampleCount acc' = ops.sampleCount acc + (bs.map ops.sampleCount).sum := by
  induction bs generalizing acc with
  | nil =>
    cases h
    simp
  | cons b bs ih =>
    simp only [mergeAll] at h
    split at h
    · rename_i next hm
      obtain ⟨hb, hnext, hcount⟩ := ops.merge_counts hm ha
      obtain ⟨hbs, hsum⟩ := ih h hnext
      refine ⟨fun x hx => ?_, ?_⟩
      · rcases List.mem_cons.1 hx with rfl | hx
        · exact hb
        · exact hbs x hx
      · simp only [List.map_cons, List.sum_cons]
        omega
    · cases h

end AccumulatorOps

/-! ## Batch results -/

/-- Evaluator output for one batch. -/
structure BatchResult (V A : Type) where
  /-- Weighted training projection; absent when feedback was not requested. -/
  feedback : Option (Feedback V)
  accumulator : A
  deriving DecidableEq, Repr

/-- `validate_values`. -/
def BatchResult.validateValues {A : Type} (finite : V → Bool) (ops : AccumulatorOps A)
    (r : BatchResult V A) : Except EngineError Unit :=
  match r.feedback with
  | some feedback => feedback.validate finite >>= fun _ => ops.validateValues r.accumulator
  | none => ops.validateValues r.accumulator

/-- `validate_for_batch`: what an evaluator checks before it submits. -/
def BatchResult.validateForBatch {A : Type} (finite : V → Bool) (ops : AccumulatorOps A)
    (nrSamples : Nat) (requireTrainingValues : Bool) (r : BatchResult V A) :
    Except EngineError Unit := do
  r.validateValues finite ops
  if r.feedback.isSome != requireTrainingValues then
    .error (.eval "feedback presence does not match the batch request")
  else if r.feedback.any (fun values => values.len != nrSamples) then
    .error (.eval "training feedback length does not match batch sample count")
  else if ops.onePerInput r.accumulator && ops.sampleCount r.accumulator != nrSamples then
    .error (.eval ("accumulator counted " ++ toString (ops.sampleCount r.accumulator)
      ++ " samples, expected " ++ toString nrSamples))
  else .ok ()

/-- A result that counts one sample for each input has counted the batch. -/
theorem BatchResult.sampleCount_of_valid {A : Type} {finite : V → Bool} {ops : AccumulatorOps A}
    {nrSamples : Nat} {requires : Bool} {r : BatchResult V A}
    (h : r.validateForBatch finite ops nrSamples requires = .ok ())
    (ha : ops.onePerInput r.accumulator = true) :
    ops.sampleCount r.accumulator = nrSamples := by
  unfold validateForBatch at h
  obtain ⟨-, -, h⟩ := bind_eq_ok h
  split at h
  · cases h
  · split at h
    · cases h
    · split at h
      · cases h
      · rename_i hcount
        simpa [ha] using hcount

end Gammaboard.Evaluation
