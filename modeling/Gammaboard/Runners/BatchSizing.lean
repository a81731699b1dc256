import Gammaboard.Runners.Queue
import Gammaboard.Utils.RollingMetric
import Mathlib.Data.List.Induction

/-!
# Sizes of batches

How `runners/queue.rs`, `runners/sampler_aggregator.rs` and the node runner set
the batch size of a queue over the tasks of a run: a new queue starts from the
largest batch of the run, from what the checkpoint of another task carries over
or from its own checkpoint, and is tuned by the task and by the evaluation times.
A clamp whose bounds are the wrong way round is a panic.
-/

namespace Gammaboard.Runners.BatchSizing

open Gammaboard.Utils

/-- `assert!(min <= max)` of `clamp` has failed. -/
inductive Panic where
  | clamp (min max : Nat)
  deriving DecidableEq, Repr

/-- `usize::clamp` -/
def clampUsize (n low high : Nat) : Except Panic Nat :=
  if low ≤ high then .ok (clampSize low high n) else .error (.clamp low high)

theorem clampUsize_ok {n low high : Nat} (h : low ≤ high) :
    ∃ m, clampUsize n low high = .ok m ∧ low ≤ m ∧ m ≤ high := by
  refine ⟨clampSize low high n, if_pos h, ?_⟩
  unfold clampSize
  omega

/-- The fields of the configuration that the sizes depend on. -/
structure SamplerQueueConfig (F : Type) where
  targetBatchEvalMs : F
  maxBatchSize : Nat
  maxGenerationSize : Nat
  fixedBatchSize : Option Nat

structure SamplerQueueTuning (F : Type) where
  fixedBatchSize : Option Nat
  targetBatchEvalMs : Option F
  maxBatchSize : Option Nat
  maxGenerationSize : Option Nat
  deriving BEq

namespace SamplerQueueConfig

variable {F : Type}

def applyTuning (config : SamplerQueueConfig F) (tuning : SamplerQueueTuning F) :
    SamplerQueueConfig F :=
  { targetBatchEvalMs := tuning.targetBatchEvalMs.getD config.targetBatchEvalMs
    maxBatchSize := tuning.maxBatchSize.getD config.maxBatchSize
    maxGenerationSize := tuning.maxGenerationSize.getD config.maxGenerationSize
    fixedBatchSize := tuning.fixedBatchSize.or config.fixedBatchSize }

/-- `effective_queue_config_for_tuning` -/
def tuned (base : SamplerQueueConfig F) : Option (SamplerQueueTuning F) → SamplerQueueConfig F
  | some tuning => base.applyTuning tuning
  | none => base

def effectiveMaxBatchSize (config : SamplerQueueConfig F) : Nat :=
  max config.maxBatchSize minBatchSize

end SamplerQueueConfig

/-- What a queue keeps of the sizes. -/
structure SamplerQueue (F : Type) where
  config : SamplerQueueConfig F
  batchSizeCurrent : Nat
  batchSizeTuneCooldownRemaining : Nat
  evalMsPerSample : RollingMetric F

def defaultBatchSizeCooldownTicks : Nat := 3

namespace SamplerQueue

variable {F : Type} [Add F] [Sub F] [Mul F] [Div F] [LT F] [LE F] [DecidableLT F] [DecidableLE F]
  [NatCast F] [OfScientific F] (ops : FloatOps F)

/-- `SamplerQueue::new`, of the batch size of the checkpoint. -/
def new (config : SamplerQueueConfig F) (checkpoint : Nat) : Except Panic (SamplerQueue F) := do
  let size ← clampUsize (config.fixedBatchSize.getD checkpoint) minBatchSize
    config.effectiveMaxBatchSize
  return ⟨config, size, 0, .empty⟩

def applyConfig (queue : SamplerQueue F) (config : SamplerQueueConfig F) :
    Except Panic (SamplerQueue F) := do
  let size ← clampUsize (config.fixedBatchSize.getD queue.batchSizeCurrent) minBatchSize
    config.effectiveMaxBatchSize
  return { queue with
    config := config
    batchSizeCurrent := size
    batchSizeTuneCooldownRemaining := 0 }

def tuneBatchSize (queue : SamplerQueue F) : Except Panic (SamplerQueue F) :=
  match queue.config.fixedBatchSize with
  | some size => do
    let size ← clampUsize size minBatchSize queue.config.effectiveMaxBatchSize
    return { queue with batchSizeCurrent := size }
  | none =>
    match queue.evalMsPerSample.mean with
    | none => .ok queue
    | some evalMsPerSample =>
      if 0 < queue.batchSizeTuneCooldownRemaining then
        .ok { queue with
          batchSizeTuneCooldownRemaining := queue.batchSizeTuneCooldownRemaining - 1 }
      else if queue.config.targetBatchEvalMs ≤ 0.0 ∨
          ops.isFinite queue.config.targetBatchEvalMs = false then .ok queue
      else
        let currentEvalBatchMs := evalMsPerSample * (queue.batchSizeCurrent : F)
        if currentEvalBatchMs ≤ 0.0 ∨ ops.isFinite currentEvalBatchMs = false then .ok queue
        else
          let ratio := queue.config.targetBatchEvalMs / currentEvalBatchMs
          if ops.isFinite ratio = false ∨ ratio ≤ 0.0 then .ok queue
          else if (1.0 : F) - 0.15 ≤ ratio ∧ ratio ≤ (1.0 : F) + 0.15 then .ok queue
          else do
            let next ← clampUsize (ops.roundUsize ((queue.batchSizeCurrent : F) * ratio))
              minBatchSize queue.config.effectiveMaxBatchSize
            if next = queue.batchSizeCurrent then return queue
            else return { queue with
              batchSizeCurrent := next
              batchSizeTuneCooldownRemaining := defaultBatchSizeCooldownTicks }

def observeCompletedEvalBatch (queue : SamplerQueue F) (batchSize : Nat) (totalEvalTimeMs : F) :
    Except Panic (SamplerQueue F) :=
  if batchSize = 0 ∨ ops.isFinite totalEvalTimeMs = false ∨ totalEvalTimeMs ≤ 0.0 then .ok queue
  else
    tuneBatchSize ops { queue with
      evalMsPerSample := queue.evalMsPerSample.observeBatch ops totalEvalTimeMs batchSize }

/-- The size stays between the least one and the largest one of the configuration. -/
structure InBounds (queue : SamplerQueue F) : Prop where
  low : minBatchSize ≤ queue.batchSizeCurrent
  high : queue.batchSizeCurrent ≤ queue.config.effectiveMaxBatchSize

end SamplerQueue

/-! ## The worker of a run -/

section Worker

variable {F : Type} [Add F] [Sub F] [Mul F] [Div F] [LT F] [LE F] [DecidableLT F] [DecidableLE F]
  [NatCast F] [OfScientific F] (ops : FloatOps F)

/-- `reduced_carryover_batch_size`, of the batch size of another task's checkpoint. -/
def reducedCarryoverBatchSize (batchSizeCurrent maxBatchSize : Nat) : Except Panic Nat :=
  clampUsize (ops.roundUsize ((batchSizeCurrent : F) * 0.25)) minBatchSize maxBatchSize

/-- The sampler aggregator runner of a task. -/
structure Worker (F : Type) where
  tuning : Option (SamplerQueueTuning F)
  queue : SamplerQueue F

/-- The queue of a task without a checkpoint of its own. -/
def freshQueue (base : SamplerQueueConfig F) (tuning : Option (SamplerQueueTuning F))
    (initialBatchSize : Nat) : Except Panic (SamplerQueue F) := do
  let config := base.tuned tuning
  let size ← clampUsize initialBatchSize minBatchSize (max config.maxBatchSize minBatchSize)
  SamplerQueue.new config size

inductive Event (F : Type) where
  /-- A task is started, and the run has no checkpoint. -/
  | start (tuning : Option (SamplerQueueTuning F))
  /-- A task is started, and the checkpoint is of another task. -/
  | carryOver (tuning : Option (SamplerQueueTuning F)) (batchSizeCurrent : Nat)
  /-- A task is started from its own checkpoint. -/
  | restore (tuning : Option (SamplerQueueTuning F)) (batchSizeCurrent : Nat)
  /-- `refresh_live_queue_tuning` -/
  | refresh (tuning : Option (SamplerQueueTuning F))
  | observe (batchSize : Nat) (totalEvalTimeMs : F)

/-- What happens to the worker of a run with the queue configuration `base`. -/
def step [BEq F] (base : SamplerQueueConfig F) (worker : Option (Worker F)) :
    Event F → Except Panic (Option (Worker F))
  | .start tuning => do
    let queue ← freshQueue base tuning base.maxBatchSize
    return some ⟨tuning, queue⟩
  | .carryOver tuning batchSizeCurrent => do
    let hint ← reducedCarryoverBatchSize ops batchSizeCurrent base.maxBatchSize
    let queue ← freshQueue base tuning hint
    return some ⟨tuning, queue⟩
  | .restore tuning batchSizeCurrent => do
    let queue ← SamplerQueue.new (base.tuned tuning) batchSizeCurrent
    return some ⟨tuning, queue⟩
  | .refresh tuning =>
    match worker with
    | none => .ok none
    | some w =>
      if tuning == w.tuning then .ok (some w)
      else do
        let queue ← w.queue.applyConfig (base.tuned tuning)
        return some ⟨tuning, queue⟩
  | .observe batchSize totalEvalTimeMs =>
    match worker with
    | none => .ok none
    | some w => do
      let queue ← w.queue.observeCompletedEvalBatch ops batchSize totalEvalTimeMs
      return some { w with queue := queue }

/-- The worker after the events, from none. -/
def run [BEq F] (base : SamplerQueueConfig F) (events : List (Event F)) :
    Except Panic (Option (Worker F)) :=
  events.foldlM (step ops base) none

/-- No step of the run panics, and the batch size is in its bounds after every one of them. -/
def StaysInBounds [BEq F] (base : SamplerQueueConfig F) (events : List (Event F)) : Prop :=
  ∀ before after, events = before ++ after →
    ∃ worker, run ops base before = .ok worker ∧ ∀ w ∈ worker, w.queue.InBounds

end Worker

/-! ## The bounds -/

theorem minBatchSize_le_effective {F : Type} (config : SamplerQueueConfig F) :
    minBatchSize ≤ config.effectiveMaxBatchSize := le_max_right _ _

theorem SamplerQueue.new_inBounds {F : Type} [OfScientific F] (config : SamplerQueueConfig F)
    (checkpoint : Nat) :
    ∃ queue, new config checkpoint = .ok queue ∧ queue.InBounds := by
  obtain ⟨size, hclamp, hlow, hhigh⟩ :=
    clampUsize_ok (n := config.fixedBatchSize.getD checkpoint) (minBatchSize_le_effective config)
  unfold new
  rw [hclamp]
  exact ⟨_, rfl, hlow, hhigh⟩

theorem SamplerQueue.applyConfig_inBounds {F : Type} (queue : SamplerQueue F)
    (config : SamplerQueueConfig F) :
    ∃ next, queue.applyConfig config = .ok next ∧ next.InBounds := by
  obtain ⟨size, hclamp, hlow, hhigh⟩ :=
    clampUsize_ok (n := config.fixedBatchSize.getD queue.batchSizeCurrent)
      (minBatchSize_le_effective config)
  unfold applyConfig
  rw [hclamp]
  exact ⟨_, rfl, hlow, hhigh⟩

theorem freshQueue_inBounds {F : Type} [OfScientific F] (base : SamplerQueueConfig F)
    (tuning : Option (SamplerQueueTuning F)) (initialBatchSize : Nat) :
    ∃ queue, freshQueue base tuning initialBatchSize = .ok queue ∧ queue.InBounds := by
  obtain ⟨size, hclamp, -⟩ :=
    clampUsize_ok (n := initialBatchSize) (le_max_right (base.tuned tuning).maxBatchSize minBatchSize)
  unfold freshQueue
  dsimp only
  rw [hclamp]
  exact SamplerQueue.new_inBounds (base.tuned tuning) size

section Bounds

variable {F : Type} [Add F] [Sub F] [Mul F] [Div F] [LT F] [LE F] [DecidableLT F] [DecidableLE F]
  [NatCast F] [OfScientific F] {ops : FloatOps F}

namespace SamplerQueue

omit [LT F] [DecidableLT F] in
variable (ops) in
theorem tuneBatchSize_inBounds {queue : SamplerQueue F} (h : queue.InBounds) :
    ∃ next, queue.tuneBatchSize ops = .ok next ∧ next.InBounds := by
  have hbounds := minBatchSize_le_effective queue.config
  unfold tuneBatchSize
  split
  · rename_i size _
    obtain ⟨next, hclamp, hlow, hhigh⟩ := clampUsize_ok (n := size) hbounds
    rw [hclamp]
    exact ⟨_, rfl, hlow, hhigh⟩
  · split
    · exact ⟨queue, rfl, h⟩
    · dsimp only
      split
      · exact ⟨_, rfl, h.low, h.high⟩
      split
      · exact ⟨queue, rfl, h⟩
      split
      · exact ⟨queue, rfl, h⟩
      split
      · exact ⟨queue, rfl, h⟩
      split
      · exact ⟨queue, rfl, h⟩
      · rename_i evalMs _ _ _ _ _ _
        obtain ⟨next, hclamp, hlow, hhigh⟩ := clampUsize_ok
          (n := ops.roundUsize ((queue.batchSizeCurrent : F) *
            (queue.config.targetBatchEvalMs / (evalMs * (queue.batchSizeCurrent : F))))) hbounds
        rw [hclamp]
        by_cases hsame : next = queue.batchSizeCurrent
        · exact ⟨queue, if_pos hsame, h⟩
        · exact ⟨_, if_neg hsame, hlow, hhigh⟩

variable (ops) in
theorem observe_inBounds {queue : SamplerQueue F} (h : queue.InBounds) (batchSize : Nat)
    (totalEvalTimeMs : F) :
    ∃ next, queue.observeCompletedEvalBatch ops batchSize totalEvalTimeMs = .ok next ∧
      next.InBounds := by
  unfold observeCompletedEvalBatch
  split
  · exact ⟨queue, rfl, h⟩
  · exact tuneBatchSize_inBounds ops ⟨h.low, h.high⟩

end SamplerQueue

variable [BEq F] {base : SamplerQueueConfig F} {worker : Option (Worker F)} {event : Event F}
  {events : List (Event F)}

/-- A task starts with a batch size that is carried over. -/
def Event.carriesOver : Event F → Bool
  | .carryOver _ _ => true
  | _ => false

variable (ops) in
/-- One step keeps the bounds, unless it carries a batch size over to a run whose largest batch is
below the least one. -/
theorem step_inBounds (h : ∀ w ∈ worker, w.queue.InBounds)
    (hevent : event.carriesOver → minBatchSize ≤ base.maxBatchSize) :
    ∃ next, step ops base worker event = .ok next ∧ ∀ w ∈ next, w.queue.InBounds := by
  have hsome : ∀ (queue : SamplerQueue F) (tuning : Option (SamplerQueueTuning F)),
      queue.InBounds → ∀ w ∈ some (Worker.mk tuning queue), w.queue.InBounds := by
    rintro queue tuning hqueue w ⟨⟩
    exact hqueue
  cases event with
  | start tuning =>
    obtain ⟨queue, hfresh, hqueue⟩ := freshQueue_inBounds base tuning base.maxBatchSize
    unfold step
    dsimp only
    rw [hfresh]
    exact ⟨_, rfl, hsome queue tuning hqueue⟩
  | carryOver tuning batchSizeCurrent =>
    obtain ⟨hint, hclamp, -⟩ := clampUsize_ok
      (n := ops.roundUsize ((batchSizeCurrent : F) * 0.25)) (hevent rfl)
    obtain ⟨queue, hfresh, hqueue⟩ := freshQueue_inBounds base tuning hint
    unfold step reducedCarryoverBatchSize
    dsimp only
    rw [hclamp]
    show ∃ next, Except.bind (freshQueue base tuning hint) _ = _ ∧ _
    rw [hfresh]
    exact ⟨_, rfl, hsome queue tuning hqueue⟩
  | restore tuning batchSizeCurrent =>
    obtain ⟨queue, hnew, hqueue⟩ := SamplerQueue.new_inBounds (base.tuned tuning) batchSizeCurrent
    unfold step
    dsimp only
    rw [hnew]
    exact ⟨_, rfl, hsome queue tuning hqueue⟩
  | refresh tuning =>
    cases worker with
    | none => exact ⟨none, rfl, h⟩
    | some w =>
      unfold step
      dsimp only
      split
      · exact ⟨some w, rfl, h⟩
      · obtain ⟨queue, happly, hqueue⟩ := w.queue.applyConfig_inBounds (base.tuned tuning)
        rw [happly]
        exact ⟨_, rfl, hsome queue tuning hqueue⟩
  | observe batchSize totalEvalTimeMs =>
    cases worker with
    | none => exact ⟨none, rfl, h⟩
    | some w =>
      obtain ⟨queue, hobserve, hqueue⟩ :=
        SamplerQueue.observe_inBounds ops (h w rfl) batchSize totalEvalTimeMs
      unfold step
      dsimp only
      rw [hobserve]
      exact ⟨_, rfl, hsome queue w.tuning hqueue⟩

/-- Carrying a batch size over to such a run is a panic. -/
theorem step_carryOver_panics (hcarry : event.carriesOver)
    (hsmall : base.maxBatchSize < minBatchSize) :
    step ops base worker event = .error (.clamp minBatchSize base.maxBatchSize) := by
  cases event with
  | carryOver tuning batchSizeCurrent =>
    unfold step reducedCarryoverBatchSize clampUsize
    dsimp only
    rw [if_neg (by omega)]
    rfl
  | start tuning => cases hcarry
  | restore tuning batchSizeCurrent => cases hcarry
  | refresh tuning => cases hcarry
  | observe batchSize totalEvalTimeMs => cases hcarry

theorem run_concat : run ops base (events ++ [event]) =
    (run ops base events).bind fun worker => step ops base worker event := by
  unfold run
  rw [List.foldlM_append]
  cases events.foldlM (step ops base) none with
  | error e => rfl
  | ok worker =>
    show (step ops base worker event).bind _ = step ops base worker event
    cases step ops base worker event with
    | error e => rfl
    | ok next => rfl

theorem run_inBounds (hevents : ∀ e ∈ events, e.carriesOver → minBatchSize ≤ base.maxBatchSize) :
    ∃ worker, run ops base events = .ok worker ∧ ∀ w ∈ worker, w.queue.InBounds := by
  induction events using List.reverseRecOn with
  | nil => exact ⟨none, rfl, fun w h => by cases h⟩
  | append_singleton events event ih =>
    obtain ⟨worker, hrun, hworker⟩ := ih fun e he => hevents e (List.mem_append_left _ he)
    obtain ⟨next, hstep, hnext⟩ :=
      step_inBounds ops hworker (hevents event (List.mem_append_right _ (by simp)))
    refine ⟨next, ?_, hnext⟩
    rw [run_concat, hrun]
    exact hstep

/-- A run stays in its bounds exactly when it carries no batch size over, or its largest batch is
not below the least one. -/
theorem stays_in_bounds_iff : StaysInBounds ops base events ↔
    ∀ event ∈ events, event.carriesOver → minBatchSize ≤ base.maxBatchSize := by
  constructor
  · intro h event hmem hcarry
    by_contra hsmall
    obtain ⟨before, after, rfl⟩ := List.append_of_mem hmem
    obtain ⟨worker, hrun, -⟩ := h before (event :: after) rfl
    obtain ⟨next, hnext, -⟩ := h (before ++ [event]) after (by simp)
    rw [run_concat, hrun] at hnext
    change step ops base worker event = _ at hnext
    rw [step_carryOver_panics hcarry (by omega)] at hnext
    cases hnext
  · rintro h before after rfl
    exact run_inBounds fun e he => h e (List.mem_append_left _ he)

end Bounds

/-- The second task of a run with batches of at most eight points. -/
theorem small_batches_panic :
    ∃ events : List (Event Rat), ∀ ops : FloatOps Rat,
      ¬ StaysInBounds ops ⟨100, 8, 262144, none⟩ events := by
  refine ⟨[.start none, .carryOver none 16], fun ops h => ?_⟩
  obtain ⟨worker, hrun, -⟩ := h [.start none, .carryOver none 16] [] rfl
  cases hrun

end Gammaboard.Runners.BatchSizing
