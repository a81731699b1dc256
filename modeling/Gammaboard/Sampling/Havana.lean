import Gammaboard.Runners.SamplerAggregator
import Gammaboard.Sampling.LatentPayload

/-!
# The Havana training sampler

`HavanaSampler` of `sampler_aggregator/havana.rs`: draws come from the grid and wait in a queue
for their feedback; a full window of feedback updates the grid. The Symbolica grid and the
generator are parameters, floats any type with the operations used.
-/

namespace Gammaboard.Sampling

open Gammaboard.Core Gammaboard.Runners

def usizeMax : Nat := 2 ^ 64 - 1

def saturatingAdd (a b : Nat) : Nat := min (a + b) usizeMax

def saturatingMul (a b : Nat) : Nat := min (a * b) usizeMax

/-- `index as i64` -/
def asI64 (n : Nat) : Int := Int.bmod n (2 ^ 64)

/-! ## Domains -/

inductive DiscreteAxisRole where
  | integrand
  | stratum
  deriving DecidableEq

/-- A branch is its index and its domain. -/
inductive Domain where
  | discrete (axisLabel : Option String) (axisRole : DiscreteAxisRole)
      (branches : List (Nat × Domain))
  | rectangular (strataDims : Nat) (discreteCardinalities : List Nat) (continuousDims : Nat)

mutual

def Domain.decEq : (a b : Domain) → Decidable (a = b)
  | .discrete label role branches, .discrete label' role' branches' =>
    match decEq label label', decEq role role', branchesDecEq branches branches' with
    | isTrue h, isTrue h', isTrue h'' => isTrue (h ▸ h' ▸ h'' ▸ rfl)
    | isFalse h, _, _ => isFalse fun e => h (Domain.discrete.inj e).1
    | _, isFalse h, _ => isFalse fun e => h (Domain.discrete.inj e).2.1
    | _, _, isFalse h => isFalse fun e => h (Domain.discrete.inj e).2.2
  | .rectangular strata cardinalities dims, .rectangular strata' cardinalities' dims' =>
    decidable_of_iff (strata = strata' ∧ cardinalities = cardinalities' ∧ dims = dims')
      (by rw [Domain.rectangular.injEq])
  | .discrete _ _ _, .rectangular _ _ _ => isFalse fun e => by cases e
  | .rectangular _ _ _, .discrete _ _ _ => isFalse fun e => by cases e

def branchesDecEq : (a b : List (Nat × Domain)) → Decidable (a = b)
  | [], [] => isTrue rfl
  | (i, d) :: a, (j, e) :: b =>
    match decEq i j, Domain.decEq d e, branchesDecEq a b with
    | isTrue h, isTrue h', isTrue h'' => isTrue (h ▸ h' ▸ h'' ▸ rfl)
    | isFalse h, _, _ => isFalse fun e => h (Prod.mk.inj (List.cons.inj e).1).1
    | _, isFalse h, _ => isFalse fun e => h (Prod.mk.inj (List.cons.inj e).1).2
    | _, _, isFalse h => isFalse fun e => h (List.cons.inj e).2
  | [], _ :: _ => isFalse fun e => by cases e
  | _ :: _, [] => isFalse fun e => by cases e

end

instance : DecidableEq Domain := Domain.decEq

/-- Grid positions to the labels of the branches, or back. -/
def mapDiscretePath (toLabels : Bool) : Domain → List Int → Except EngineError (List Int)
  | .discrete _ _ _, [] => .error (.invalidInput "incomplete discrete path")
  | .discrete _ _ branches, head :: tail =>
    let index :=
      if toLabels then (if 0 ≤ head then some head.toNat else none)
      else branches.findIdx? (fun branch => asI64 branch.1 == head)
    match index.bind (fun i => branches[i]?.map fun branch => (i, branch)) with
    | none => .error (.invalidInput "unknown discrete branch")
    | some (i, branch) =>
      (mapDiscretePath toLabels branch.2 tail).map
        ((if toLabels then asI64 branch.1 else asI64 i) :: ·)
  | .rectangular _ cardinalities _, path =>
    if path.length ≠ cardinalities.length ∨
        (path.zip cardinalities).any (fun v => decide (v.1 < 0 ∨ (v.2 : Int) ≤ v.1)) then
      .error (.invalidInput "invalid rectangular discrete path")
    else .ok path

/-! ## Grid samples -/

/-- `symbolica::numerical_integration::Sample` -/
inductive GridSample (F : Type) where
  | continuous (weight : F) (xs : List F)
  | discrete (weight : F) (index : Nat) (sub : Option (GridSample F))
  | uniform (weight : F) (indices : List Nat) (xs : List F)

variable {F G R J : Type}

def GridSample.getWeight : GridSample F → F
  | continuous weight _ => weight
  | discrete weight _ _ => weight
  | uniform weight _ _ => weight

def discreteIndex (index : Nat) : Except EngineError Int :=
  if index < 2 ^ 63 then .ok index
  else .error (.engine s!"discrete index {index} does not fit in i64")

def discreteIndices : List Nat → Except EngineError (List Int)
  | [] => .ok []
  | index :: indices => do
    let head ← discreteIndex index
    let tail ← discreteIndices indices
    .ok (head :: tail)

/-- The discrete path and the coordinates of a sample. -/
def GridSample.path : GridSample F → Except EngineError (List Int × List F)
  | .continuous _ xs => .ok ([], xs)
  | .discrete _ index none => do
    let _ ← discreteIndex index
    .error (.engine "havana sampler expected nested continuous samples")
  | .discrete _ index (some sample) => do
    let head ← discreteIndex index
    let (tail, xs) ← sample.path
    .ok (head :: tail, xs)
  | .uniform _ indices xs => do
    let path ← discreteIndices indices
    .ok (path, xs)

/-- `sample_components` -/
def sampleComponents (sample : GridSample F) : Except EngineError (List Int × List F × F) := do
  let (discrete, xs) ← sample.path
  .ok (discrete, xs, sample.getWeight)

/-! ## Parameters -/

/-- The operations of `f64` the sampler uses. -/
structure FloatOps (F : Type) where
  isFinite : F → Bool
  lt : F → F → Bool
  le : F → F → Bool
  zero : F
  ofNat : Nat → F
  add : F → F → F
  sub : F → F → F
  mul : F → F → F
  div : F → F → F
  pow : F → F → F

structure HavanaSamplerParams (F : Type) where
  seed : UInt64
  bins : UInt64
  samplesForUpdate : UInt64
  initialTrainingRate : F
  finalTrainingRate : F

def validateHavanaSamplerParams (f : FloatOps F) (parsed : HavanaSamplerParams F) :
    Except EngineError Unit :=
  if parsed.bins = 0 then .error (.build "havana sampler requires bins > 0")
  else if parsed.samplesForUpdate = 0 then
    .error (.build "havana sampler requires samples_for_update > 0")
  else if !f.isFinite parsed.initialTrainingRate || f.lt parsed.initialTrainingRate f.zero then
    .error (.build "havana sampler requires initial_training_rate >= 0")
  else if !f.isFinite parsed.finalTrainingRate || f.lt parsed.finalTrainingRate f.zero then
    .error (.build "havana sampler requires final_training_rate >= 0")
  else .ok ()

/-- What the sampler sees: a value counts where the requested stratum was hit. -/
def Feedback.values (zero : F) (feedback : Feedback F) : List F :=
  match feedback.strata with
  | none => feedback.unmaskedValues
  | some strata =>
    ((feedback.unmaskedValues.zip strata.requested).zip strata.actual).map fun row =>
      if row.1.2 = row.2 then row.1.1 else zero

/-! ## The sampler -/

@[ext]
structure HavanaSampler (F G R : Type) where
  domain : Domain
  batchesProduced : Nat
  samplesProduced : Nat
  batchesIngested : Nat
  samplesIngested : Nat
  samplesForUpdate : Nat
  stopTrainingAfterNSamples : Nat
  initialTrainingRate : F
  finalTrainingRate : F
  grid : G
  rng : R
  pendingTrainingSamples : List (List (GridSample F))

structure HavanaSamplerSnapshot (F G R : Type) where
  domain : Domain
  batchesProduced : Nat
  samplesProduced : Nat
  batchesIngested : Nat
  samplesIngested : Nat
  stopTrainingAfterNSamples : Nat
  grid : G
  rng : R
  pendingTrainingSamples : List (List (GridSample F))

/-- What the sampler takes from elsewhere: floats, the generator, the Symbolica grid, the Symbolica
licence check and the JSON form of a snapshot. -/
structure HavanaKit (F G R J : Type) where
  float : FloatOps F
  newRng : UInt64 → R
  buildHavanaGrid : Domain → HavanaSamplerParams F → Except EngineError G
  validateGridDomain : G → Domain → Except EngineError Unit
  sample : G → R → GridSample F × R
  addTrainingSample : G → GridSample F → F → Except String G
  update : G → F → F → G
  toValue : HavanaSamplerSnapshot F G R → Except String J
  fromValue : J → Except String (HavanaSamplerSnapshot F G R)
  /-- Training samples change what is sampled only with the next update. -/
  sample_addTrainingSample : ∀ {g g' : G} {s : GridSample F} {x : F},
    addTrainingSample g s x = .ok g' → ∀ r, sample g' r = sample g r
  /-- What is read from JSON is what was written. -/
  fromValue_toValue : ∀ {s s' : HavanaSamplerSnapshot F G R} {j : J},
    toValue s = .ok j → fromValue j = .ok s' → s' = s

namespace HavanaSampler

def new (domain : Domain) (grid : G) (rng : R)
    (samplesForUpdate stopTrainingAfterNSamples : Nat)
    (initialTrainingRate finalTrainingRate : F) : HavanaSampler F G R :=
  { domain
    batchesProduced := 0
    samplesProduced := 0
    batchesIngested := 0
    samplesIngested := 0
    samplesForUpdate
    stopTrainingAfterNSamples
    initialTrainingRate
    finalTrainingRate
    grid
    rng
    pendingTrainingSamples := [] }

def pendingTrainingSampleCount (s : HavanaSampler F G R) : Nat :=
  (s.pendingTrainingSamples.map List.length).sum

def remainingTrainingSamplesToProduce (s : HavanaSampler F G R) : Nat :=
  s.stopTrainingAfterNSamples - saturatingAdd s.samplesIngested s.pendingTrainingSampleCount

def trainingWindowSamplesRemaining (s : HavanaSampler F G R) : Nat :=
  let remainingTraining := s.remainingTrainingSamplesToProduce
  if remainingTraining = 0 then 0
  else
    let inflightOrIngested := saturatingAdd s.samplesIngested s.pendingTrainingSampleCount
    let completedWindows := s.samplesIngested / s.samplesForUpdate
    let currentWindowEnd := saturatingMul (saturatingAdd completedWindows 1) s.samplesForUpdate
    let remainingInWindow := currentWindowEnd - inflightOrIngested
    min remainingTraining remainingInWindow

def remainingTrainingSamples (s : HavanaSampler F G R) : Nat :=
  s.stopTrainingAfterNSamples - s.samplesIngested

def currentTrainingRate (f : FloatOps F) (s : HavanaSampler F G R) : F :=
  let progress := f.div (f.ofNat (min s.samplesIngested s.stopTrainingAfterNSamples))
    (f.ofNat s.stopTrainingAfterNSamples)
  if f.le s.initialTrainingRate f.zero || f.le s.finalTrainingRate f.zero then
    f.add s.initialTrainingRate
      (f.mul (f.sub s.finalTrainingRate s.initialTrainingRate) progress)
  else
    f.mul s.initialTrainingRate (f.pow (f.div s.finalTrainingRate s.initialTrainingRate) progress)

def toSnapshot (s : HavanaSampler F G R) : HavanaSamplerSnapshot F G R :=
  { domain := s.domain
    batchesProduced := s.batchesProduced
    samplesProduced := s.samplesProduced
    batchesIngested := s.batchesIngested
    samplesIngested := s.samplesIngested
    stopTrainingAfterNSamples := s.stopTrainingAfterNSamples
    grid := s.grid
    rng := s.rng
    pendingTrainingSamples := s.pendingTrainingSamples }

variable (kit : HavanaKit F G R J)

def snapshot (s : HavanaSampler F G R) : Except EngineError J :=
  match kit.toValue s.toSnapshot with
  | .ok raw => .ok raw
  | .error err => .error (.engine s!"failed to serialize havana snapshot: {err}")

/-- `licence` is the answer of `activate_symbolica_oem_license`. -/
def fromSnapshot (licence : Except String Unit) (params : HavanaSamplerParams F)
    (snapshot : HavanaSamplerSnapshot F G R) (domain : Domain) :
    Except EngineError (HavanaSampler F G R) :=
  match licence with
  | .error err => .error (.build err)
  | .ok () => do
    validateHavanaSamplerParams kit.float params
    if snapshot.domain ≠ domain then
      .error (.build "Havana snapshot domain does not match the requested layout")
    else do
      kit.validateGridDomain snapshot.grid domain
      .ok
        { domain
          batchesProduced := snapshot.batchesProduced
          samplesProduced := snapshot.samplesProduced
          batchesIngested := snapshot.batchesIngested
          samplesIngested := snapshot.samplesIngested
          samplesForUpdate := params.samplesForUpdate.toNat
          stopTrainingAfterNSamples := snapshot.stopTrainingAfterNSamples
          initialTrainingRate := params.initialTrainingRate
          finalTrainingRate := params.finalTrainingRate
          grid := snapshot.grid
          rng := snapshot.rng
          pendingTrainingSamples := snapshot.pendingTrainingSamples }

def fromParamsAndDomain (params : HavanaSamplerParams F) (domain : Domain)
    (stopTrainingAfterNSamples : UInt64) : Except EngineError (HavanaSampler F G R) := do
  validateHavanaSamplerParams kit.float params
  if stopTrainingAfterNSamples = 0 then
    .error (.build "havana sampler requires sample task nr_samples > 0")
  else do
    let grid ← kit.buildHavanaGrid domain params
    .ok (new domain grid (kit.newRng params.seed) params.samplesForUpdate.toNat
      stopTrainingAfterNSamples.toNat params.initialTrainingRate params.finalTrainingRate)

/-- The loop of `generate`: the samples, the generator and the rows of the batch. -/
def drawSamples (domain : Domain) (grid : G) :
    Nat → R → IndexedBatchBuilder F → Except EngineError
      (List (GridSample F) × R × IndexedBatchBuilder F)
  | 0, rng, builder => .ok ([], rng, builder)
  | n + 1, rng, builder => do
    let drawn := kit.sample grid rng
    let (discrete, continuous, weight) ← sampleComponents drawn.1
    let discrete ← mapDiscretePath true domain discrete
    let (samples, rng, builder) ←
      drawSamples domain grid n drawn.2 (builder.push discrete continuous weight)
    .ok (drawn.1 :: samples, rng, builder)

def generate (maxSamples : Nat) (s : HavanaSampler F G R) :
    Except EngineError (HavanaSampler F G R × Generation (LatentBatchPayload F R)) :=
  if maxSamples = 0 then .error (.invalidInput "max_samples must be positive")
  else if s.stopTrainingAfterNSamples ≤ s.samplesProduced then .ok (s, .finished)
  else
    let remaining := s.trainingWindowSamplesRemaining
    if remaining = 0 then .ok (s, .waiting)
    else do
      let nrSamples := min remaining maxSamples
      let (samples, rng, builder) ←
        drawSamples kit s.domain s.grid nrSamples s.rng IndexedBatchBuilder.new
      .ok
        ({ s with
            rng
            pendingTrainingSamples := s.pendingTrainingSamples ++ [samples]
            batchesProduced := s.batchesProduced + 1
            samplesProduced := s.samplesProduced + nrSamples },
          .batch ⟨nrSamples, builder.finish⟩ (some remaining))

/-- The evaluator returns the weighted value, so it is divided by the weight of the sample. -/
def addTrainingSamples : G → List (F × GridSample F) → Except EngineError G
  | grid, [] => .ok grid
  | grid, (eval, sample) :: rest =>
    match kit.addTrainingSample grid sample (kit.float.div eval sample.getWeight) with
    | .error err => .error (.engine err)
    | .ok grid => addTrainingSamples grid rest

/-- `for _ in 0..n { grid.update(rate, rate) }` -/
def updates (rate : F) : Nat → G → G
  | 0, grid => grid
  | n + 1, grid => updates rate n (kit.update grid rate rate)

/-- How often the feedback that brings the ingested samples from `before` to `after` updates. -/
def updateCount (samplesForUpdate trainLen before after : Nat) : Nat :=
  if 0 < trainLen then after / samplesForUpdate - before / samplesForUpdate else 0

def feedback (feedback : Feedback F) (s : HavanaSampler F G R) :
    Except EngineError (HavanaSampler F G R) :=
  let trainingValues := feedback.values kit.float.zero
  match s.pendingTrainingSamples with
  | [] =>
    .error (.engine s!"havana sampler received {trainingValues.length} training weights with no pending training batch")
  | samples :: pending =>
    if trainingValues.length ≠ samples.length then
      .error (.engine s!"training/sample size mismatch in Havana sampler: weights={trainingValues.length}, samples={samples.length}")
    else do
      let trainLen := min s.remainingTrainingSamples trainingValues.length
      let grid ← addTrainingSamples kit s.grid ((trainingValues.zip samples).take trainLen)
      let after := { s with
        grid
        pendingTrainingSamples := pending
        batchesIngested := s.batchesIngested + 1
        samplesIngested := saturatingAdd s.samplesIngested trainLen }
      .ok { after with
        grid := updates kit (after.currentTrainingRate kit.float)
          (updateCount s.samplesForUpdate trainLen s.samplesIngested after.samplesIngested) grid }

end HavanaSampler

/-! ## A training session -/

/-- The sampler with the assembly of its feedback. An error fails the task, and the session. -/
structure HavanaSession (F G R : Type) where
  sampler : HavanaSampler F G R
  buffer : GenerationBuffer F (LatentBatchPayload F R)
  failed : Option EngineError

/-- A request for a draw, a fragment of evaluator feedback, a save and a restore. -/
inductive SessionEvent (F : Type) where
  | generate (maxSamples : Nat)
  | fragment (values : Feedback F)
  | restore (licence : Except String Unit)

namespace HavanaSession

def start (sampler : HavanaSampler F G R) : HavanaSession F G R := ⟨sampler, .empty, none⟩

variable (kit : HavanaKit F G R J) (params : HavanaSamplerParams F) (domain : Domain)

/-- One event of a session that has not failed. A new draw is recorded for its feedback, the
sampler gets the feedback of a draw once all its fragments are in. -/
def advance (s : HavanaSession F G R) : SessionEvent F → Except EngineError (HavanaSession F G R)
  | .generate maxSamples => do
    let (sampler, generation) ← s.sampler.generate kit maxSamples
    match generation with
    | .waiting => .ok { s with sampler }
    | .finished => .ok { s with sampler }
    | .batch batch _ => .ok { s with sampler, buffer := s.buffer.recordDraw batch.nrSamples }
  | .fragment values => do
    let (buffer, assembled) ← s.buffer.acceptFeedback kit.float.isFinite values
    match assembled with
    | none => .ok { s with buffer }
    | some feedback => do
      let sampler ← s.sampler.feedback kit feedback
      .ok { s with sampler, buffer }
  | .restore licence => do
    let raw ← s.sampler.snapshot kit
    match kit.fromValue raw with
    | .error err =>
      .error (.build s!"failed to decode havana sampler snapshot: {err}")
    | .ok snapshot => do
      let sampler ← HavanaSampler.fromSnapshot kit licence params snapshot domain
      .ok { s with sampler, buffer := s.buffer.restored }

def step (s : HavanaSession F G R) (e : SessionEvent F) : HavanaSession F G R :=
  match s.failed with
  | some _ => s
  | none =>
    match s.advance kit params domain e with
    | .ok s => s
    | .error err => { s with failed := some err }

end HavanaSession

end Gammaboard.Sampling
