import Gammaboard.Core.BatchIds
import Gammaboard.Core.Checkpoint
import Gammaboard.Stores.WorkQueue

/-!
# The sampler queue

`runners/queue.rs`: the queue between the sampler and the `batches` table. It
inserts bundles of batches by concurrent background tasks, prefetches completed
batches in id order and deletes consumed ones. A background task is the record
of its arguments and of what has become of it so far; the events of the system
run it. A function that awaits a task still running returns `none`.
`allocated` records every batch that has been given an id, and `handed` every
batch that a tick or a drain has returned; nothing reads them.
-/

namespace Gammaboard.Runners

open Gammaboard.Core Gammaboard.Stores Gammaboard.Sampling

def minBatchSize : Nat := 16
def completedCleanupBatchLimit : Nat := 2048

structure SamplerQueueConfig where
  maxBatchSize : Nat
  maxGenerationSize : Nat
  fixedBatchSize : Option Nat
  maxBatchesPerTick : Nat
  maxInsertBundleSize : Nat
  maxConcurrentInsertTasks : Nat
  completedBatchFetchLimit : Nat
  deriving DecidableEq, Repr

/-- `usize::clamp`. -/
def clampSize (low high n : Nat) : Nat := max low (min high n)

def SamplerQueueConfig.effectiveMaxBatchSize (config : SamplerQueueConfig) : Nat :=
  max config.maxBatchSize minBatchSize

/-- The batch size under a configuration: the fixed one or the current one, clamped. -/
def SamplerQueueConfig.batchSize (config : SamplerQueueConfig) (current : Nat) : Nat :=
  clampSize minBatchSize config.effectiveMaxBatchSize (config.fixedBatchSize.getD current)

/-- The most ids the insert pump draws: full bundles for every task slot. -/
def SamplerQueueConfig.idsPerPump (config : SamplerQueueConfig) : Nat :=
  max config.maxConcurrentInsertTasks 1 * max config.maxInsertBundleSize 1

/-- The most ids one step draws: a prefetch may reserve one more. -/
def SamplerQueueConfig.idsPerStep (config : SamplerQueueConfig) : Nat := config.idsPerPump + 1

/-- Keeps a finite training window divisible across workers. -/
structure TrainingBatchSizing where
  previousRemaining : Option Nat
  evaluators : Nat
  cap : Option Nat
  deriving DecidableEq, Repr

namespace TrainingBatchSizing

def initial : TrainingBatchSizing := ⟨none, 0, none⟩

def batchSize (s : TrainingBatchSizing) (target : Nat) (remaining : Option Nat) (evaluators : Nat) :
    TrainingBatchSizing × Nat :=
  match remaining with
  | some remaining =>
    if 0 < remaining ∧ 0 < evaluators then
      let newWindow := s.previousRemaining.all (· < remaining) || s.evaluators != evaluators
      let cap :=
        if newWindow then some (max ((remaining + (evaluators * 4 - 1)) / (evaluators * 4)) minBatchSize)
        else s.cap
      (⟨some remaining, evaluators, cap⟩, min target (cap.getD target))
    else ({ s with previousRemaining := none, cap := none }, target)
  | none => ({ s with previousRemaining := none, cap := none }, target)

end TrainingBatchSizing

/-! ## Ids -/

/-- The id generator of the process, with the clock readings of the current step. -/
structure IdSource where
  generator : BatchIdGenerator
  clock : Nat → UInt64
  used : Nat

/-- `next_batch_ids`. -/
def IdSource.nextBatchIds (src : IdSource) (count : Nat) : IdSource × List Int :=
  let (generator, ids) :=
    src.generator.nextIds ((List.range count).map fun i => src.clock (src.used + i))
  ({ src with generator, used := src.used + count }, ids)

@[simp] theorem IdSource.length_nextBatchIds (src : IdSource) (count : Nat) :
    (src.nextBatchIds count).2.length = count := by
  simp [nextBatchIds]

/-! ## Background tasks -/

variable {In Res : Type}

/-- An insert bundle on its way to the table. -/
structure PendingInsertTask (In : Type) where
  requiresTrainingValues : Bool
  batches : List (NewBatch In)
  /-- The transaction has committed. -/
  committed : Bool
  /-- What the handle of the finished task gives. -/
  outcome : Option (Except StoreError Unit)

namespace PendingInsertTask

def firstBatchId (t : PendingInsertTask In) : Int := (t.batches.head?.map (·.id)).getD 0

def batchCount (t : PendingInsertTask In) : Nat := t.batches.length

def isFinished (t : PendingInsertTask In) : Bool := t.outcome.isSome

/-- The error of a task that has failed. -/
def failure (t : PendingInsertTask In) : Option StoreError :=
  match t.outcome with
  | some (.error e) => some e
  | _ => none

/-- The batches of the bundle. -/
def produced (t : PendingInsertTask In) : List Produced :=
  t.batches.map fun b => ⟨b.id, b.batchSize, t.requiresTrainingValues⟩

end PendingInsertTask

structure PendingProcessedFetch (Res : Type) where
  afterBatchId : Option Int
  beforeBatchId : Int
  limit : Nat
  outcome : Option (Except StoreError (List (CompletedBatch Res)))

/-- What the prefetch reads: completed batches after the cursor and below its bound. -/
def PendingProcessedFetch.read (runId taskId : Int) (rows : List (BatchRow In Res))
    (f : PendingProcessedFetch Res) : List (CompletedBatch Res) :=
  (fetchCompletedBatches runId taskId f.limit f.afterBatchId rows).takeWhile fun b =>
    decide (b.batchId < f.beforeBatchId)

structure PendingCompletedCleanup where
  upToBatchId : Int
  outcome : Option (Except StoreError Unit)

/-- `consume_insert_task`: the transaction may have committed before the connection failed, so
a database error asks for a new activation. -/
def uncertainInsert : StoreError → StoreError
  | .database m => .retryActivation ("uncertain sampler insert: " ++ (StoreError.database m).toText)
  | e => e

/-! ## The queue -/

structure SamplerQueue (P C Res : Type) where
  runId : Int
  taskId : Int
  config : SamplerQueueConfig
  checkpoint : SamplerQueueCheckpoint
  pendingInsert : List (EvaluationBatch P C × Bool)
  readyProcessed : List (CompletedBatch Res)
  pendingInsertTasks : List (PendingInsertTask (EvaluationBatch P C))
  insertError : Option StoreError
  pendingProcessedFetch : Option (PendingProcessedFetch Res)
  pendingCompletedCleanup : Option PendingCompletedCleanup
  cachedActiveEvaluatorCount : Option Nat
  trainingBatchSizing : TrainingBatchSizing
  allocated : List Produced
  handed : List Int

namespace SamplerQueue

variable {P C : Type}

/-- `SamplerQueue::new`; the last two arguments are what the run has produced and handed. -/
def new (runId taskId : Int) (config : SamplerQueueConfig) (checkpoint : SamplerQueueCheckpoint)
    (allocated : List Produced) (handed : List Int) : SamplerQueue P C Res where
  runId
  taskId
  config
  checkpoint :=
    { checkpoint with batchSizeCurrent := config.batchSize checkpoint.batchSizeCurrent }
  pendingInsert := []
  readyProcessed := []
  pendingInsertTasks := []
  insertError := none
  pendingProcessedFetch := none
  pendingCompletedCleanup := none
  cachedActiveEvaluatorCount := none
  trainingBatchSizing := .initial
  allocated
  handed

def applyConfig (config : SamplerQueueConfig) (q : SamplerQueue P C Res) : SamplerQueue P C Res :=
  { q with
    config
    checkpoint :=
      { q.checkpoint with batchSizeCurrent := config.batchSize q.checkpoint.batchSizeCurrent } }

/-- The tuned batch size after evaluation times have been observed. -/
def tuned (batchSize : Nat) (q : SamplerQueue P C Res) : SamplerQueue P C Res :=
  { q with
    checkpoint := { q.checkpoint with batchSizeCurrent := q.config.batchSize batchSize } }

def lastCompletedBatchId (q : SamplerQueue P C Res) : Option Int := q.checkpoint.lastCompletedBatchId

def localUnpersistedBatches (q : SamplerQueue P C Res) : Nat :=
  q.pendingInsert.length + (q.pendingInsertTasks.map (·.batchCount)).sum

def queueCountsWithLocalBuffer (q : SamplerQueue P C Res) (c : BatchQueueCounts) :
    BatchQueueCounts :=
  { c with pending := c.pending + q.localUnpersistedBatches }

def productionBatchSize (q : SamplerQueue P C Res) (trainingRemaining : Option Nat) :
    SamplerQueue P C Res × Nat :=
  let (sizing, size) := q.trainingBatchSizing.batchSize q.checkpoint.batchSizeCurrent
    trainingRemaining (q.cachedActiveEvaluatorCount.getD 0)
  ({ q with trainingBatchSizing := sizing }, size)

/-! ### Inserts -/

/-- The next bundle: batches of one kind from the front of the buffer. -/
def nextBundle (q : SamplerQueue P C Res) : List (EvaluationBatch P C × Bool) :=
  match q.pendingInsert with
  | [] => []
  | first :: _ =>
    (q.pendingInsert.take (max q.config.maxInsertBundleSize 1)).takeWhile (·.2 == first.2)

/-- Give the ids of a bundle to its batches. -/
def withIds (ids : List Int) (bundle : List (EvaluationBatch P C × Bool)) :
    List (NewBatch (EvaluationBatch P C)) :=
  List.zipWith (fun id b => ⟨id, b.1.samples.nrSamples, b.1⟩) ids bundle

/-- The task that inserts the next bundle under these ids. -/
def insertTask (ids : List Int) (q : SamplerQueue P C Res) :
    PendingInsertTask (EvaluationBatch P C) where
  requiresTrainingValues := q.nextBundle.head?.any (·.2)
  batches := withIds ids q.nextBundle
  committed := false
  outcome := none

/-- One turn of the loop of `ensure_insert_pump`. -/
def startInsert (src : IdSource) (q : SamplerQueue P C Res) : IdSource × SamplerQueue P C Res :=
  let (src, ids) := src.nextBatchIds q.nextBundle.length
  (src,
    { q with
      pendingInsert := q.pendingInsert.drop q.nextBundle.length
      pendingInsertTasks := q.pendingInsertTasks ++ [q.insertTask ids]
      checkpoint := { q.checkpoint with lastProducedBatchId := ids.getLast? }
      allocated := q.allocated ++ (q.insertTask ids).produced })

/-- Start inserts while there are batches and free task slots. -/
def pump : Nat → IdSource → SamplerQueue P C Res → IdSource × SamplerQueue P C Res
  | 0, src, q => (src, q)
  | slots + 1, src, q =>
    if q.pendingInsert.isEmpty then (src, q)
    else
      let (src, q) := q.startInsert src
      pump slots src q

/-- `ensure_insert_pump`. -/
def ensureInsertPump (src : IdSource) (q : SamplerQueue P C Res) : IdSource × SamplerQueue P C Res :=
  pump (max q.config.maxConcurrentInsertTasks 1 - q.pendingInsertTasks.length) src q

/-- Put generated batches at the end of the buffer. -/
def buffer (batches : List (EvaluationBatch P C)) (requiresFeedback : Bool)
    (q : SamplerQueue P C Res) : SamplerQueue P C Res :=
  { q with
    trainingBatchSizing := { q.trainingBatchSizing with
      previousRemaining := q.trainingBatchSizing.previousRemaining.map
        (· - (batches.map (·.samples.nrSamples)).sum) }
    pendingInsert := q.pendingInsert ++ batches.map fun b => (b, requiresFeedback) }

/-- `ingest`: buffer generated batches and start inserting them. -/
def ingest (batches : List (EvaluationBatch P C)) (requiresFeedback : Bool) (src : IdSource)
    (q : SamplerQueue P C Res) : IdSource × SamplerQueue P C Res :=
  (q.buffer batches requiresFeedback).ensureInsertPump src

/-- All background writes have finished. -/
def writesSettled (q : SamplerQueue P C Res) : Bool :=
  q.pendingInsertTasks.all (·.isFinished)
    && q.pendingCompletedCleanup.all (·.outcome.isSome)

/-- After a failed insert: wait for every write and give up the other tasks. -/
def fenced (e : StoreError) (q : SamplerQueue P C Res) : SamplerQueue P C Res :=
  { q with
    insertError := some e, pendingInsertTasks := [], pendingProcessedFetch := none
    pendingCompletedCleanup := none }

/-- `drain_finished_insert`; `notify` is how the wake-up after the last insert ends. -/
def drainFinishedInsert (notify : Except StoreError Unit) (q : SamplerQueue P C Res) :
    Option (SamplerQueue P C Res × Except StoreError Unit) :=
  match q.insertError with
  | some e => some (q, .error e)
  | none =>
    match q.pendingInsertTasks.findSome? (·.failure) with
    | some e =>
      if q.writesSettled then some (q.fenced (uncertainInsert e), .error (uncertainInsert e))
      else none
    | none =>
      let running := q.pendingInsertTasks.filter (!·.isFinished)
      some ({ q with pendingInsertTasks := running },
        -- broadcast once after the whole refill, not for each bundle
        if q.pendingInsertTasks.any (·.isFinished) && q.pendingInsert.isEmpty && running.isEmpty
        then notify else .ok ())

/-- One turn of the loop of `flush`; true when everything has been inserted. A turn in which
nothing has finished is the wait for the first task. -/
def flushTurn (notify : Except StoreError Unit) (src : IdSource) (q : SamplerQueue P C Res) :
    Option (IdSource × SamplerQueue P C Res × Except StoreError Bool) :=
  match q.drainFinishedInsert notify with
  | none => none
  | some (q, .error e) => some (src, q, .error e)
  | some (q, .ok ()) =>
    if q.pendingInsertTasks.isEmpty && q.pendingInsert.isEmpty then some (src, q, .ok true)
    else
      let (src, q) := q.ensureInsertPump src
      some (src, q, .ok q.pendingInsertTasks.isEmpty)

/-! ### Completed batches -/

/-- `ensure_processed_prefetch`: read completed batches after the cursor and below every
outstanding insert; without one, below a boundary reserved for the inserts to come. -/
def ensureProcessedPrefetch (src : IdSource) (q : SamplerQueue P C Res) :
    IdSource × SamplerQueue P C Res :=
  if !q.readyProcessed.isEmpty || q.pendingProcessedFetch.isSome then (src, q)
  else
    let (src, before) :=
      match (q.pendingInsertTasks.map (·.firstBatchId)).min? with
      | some first => (src, first)
      | none =>
        let (src, ids) := src.nextBatchIds 1
        (src, ids.headD 0)
    (src,
      { q with
        pendingProcessedFetch := some
          { afterBatchId := q.checkpoint.lastCompletedBatchId, beforeBatchId := before
            limit := max q.config.completedBatchFetchLimit 1, outcome := none } })

/-- `drain_finished_processed_fetch`. -/
def drainFinishedProcessedFetch (q : SamplerQueue P C Res) :
    SamplerQueue P C Res × Except StoreError Unit :=
  match q.pendingProcessedFetch with
  | none => (q, .ok ())
  | some fetch =>
    match fetch.outcome with
    | none => (q, .ok ())
    | some (.error e) => ({ q with pendingProcessedFetch := none }, .error e)
    | some (.ok completed) =>
      ({ q with
          pendingProcessedFetch := none, readyProcessed := q.readyProcessed ++ completed }, .ok ())

def takeReadyProcessed (q : SamplerQueue P C Res) : SamplerQueue P C Res × List (CompletedBatch Res) :=
  ({ q with readyProcessed := [] }, q.readyProcessed)

/-- What `get_processed` and `get_processed_ready` share. -/
def settleProcessed (notify : Except StoreError Unit) (src : IdSource) (q : SamplerQueue P C Res) :
    Option (IdSource × SamplerQueue P C Res × Except StoreError Unit) :=
  match q.drainFinishedInsert notify with
  | none => none
  | some (q, .error e) => some (src, q, .error e)
  | some (q, .ok ()) =>
    let (src, q) := q.ensureInsertPump src
    let (q, fetched) := q.drainFinishedProcessedFetch
    some (src, q, fetched)

def getProcessed (notify : Except StoreError Unit) (src : IdSource) (q : SamplerQueue P C Res) :
    Option (IdSource × SamplerQueue P C Res × Except StoreError (List (CompletedBatch Res))) :=
  match q.settleProcessed notify src with
  | none => none
  | some (src, q, .error e) => some (src, q, .error e)
  | some (src, q, .ok ()) =>
    let (src, q) := q.ensureProcessedPrefetch src
    let (q, completed) := q.takeReadyProcessed
    some (src, q, .ok completed)

def getProcessedReady (notify : Except StoreError Unit) (src : IdSource)
    (q : SamplerQueue P C Res) :
    Option (IdSource × SamplerQueue P C Res × Except StoreError (List (CompletedBatch Res))) :=
  match q.settleProcessed notify src with
  | none => none
  | some (src, q, .error e) => some (src, q, .error e)
  | some (src, q, .ok ()) =>
    let (q, completed) := q.takeReadyProcessed
    some (src, q, .ok completed)

/-! ### Cleanup -/

/-- `ensure_completed_cleanup_if_due`. -/
def ensureCompletedCleanup (due : Bool) (q : SamplerQueue P C Res) : SamplerQueue P C Res :=
  match q.pendingCompletedCleanup, q.checkpoint.lastCompletedBatchId, due with
  | none, some upTo, true => { q with pendingCompletedCleanup := some ⟨upTo, none⟩ }
  | _, _, _ => q

/-- `drain_finished_completed_cleanup`. -/
def drainFinishedCompletedCleanup (q : SamplerQueue P C Res) :
    SamplerQueue P C Res × Except StoreError Unit :=
  match q.pendingCompletedCleanup with
  | some ⟨_, some result⟩ => ({ q with pendingCompletedCleanup := none }, result)
  | _ => (q, .ok ())

/-- `finish_background_maintenance`: abort the prefetch and join the cleanup. -/
def finishBackgroundMaintenance (q : SamplerQueue P C Res) :
    Option (SamplerQueue P C Res × Except StoreError Unit) :=
  match q.pendingCompletedCleanup with
  | some ⟨_, none⟩ => none
  | some ⟨_, some result⟩ =>
    some ({ q with pendingProcessedFetch := none, pendingCompletedCleanup := none }, result)
  | none => some ({ q with pendingProcessedFetch := none }, .ok ())

/-- The completion cursor after these batches. -/
def moveCursor (processed : List (CompletedBatch Res)) (q : SamplerQueue P C Res) :
    SamplerQueue P C Res :=
  match processed.getLast? with
  | none => q
  | some last =>
    { q with checkpoint := { q.checkpoint with lastCompletedBatchId := some last.batchId } }

/-- `mark_processed`. -/
def markProcessed (processed : List (CompletedBatch Res)) (cleanupDue : Bool)
    (q : SamplerQueue P C Res) : SamplerQueue P C Res :=
  (q.moveCursor processed).ensureCompletedCleanup cleanupDue

/-- The part of `tick` before its own queries: the batches to ingest, with finished cleanups
collected and a new one started. -/
def tickProcessed (notify : Except StoreError Unit) (cleanupDue : Bool) (src : IdSource)
    (q : SamplerQueue P C Res) :
    Option (IdSource × SamplerQueue P C Res × Except StoreError (List (CompletedBatch Res))) :=
  match q.getProcessed notify src with
  | none => none
  | some (src, q, .error e) => some (src, q, .error e)
  | some (src, q, .ok completed) =>
    match q.drainFinishedCompletedCleanup with
    | (q, .error e) => some (src, q, .error e)
    | (q, .ok ()) => some (src, q.ensureCompletedCleanup cleanupDue, .ok completed)

/-- Record the batches that have been handed to the aggregator. -/
def recordHanded (completed : List (CompletedBatch Res)) (q : SamplerQueue P C Res) :
    SamplerQueue P C Res :=
  { q with handed := q.handed ++ completed.map (·.batchId) }

/-! ### What the pump does -/

/-- The samples of batches. -/
def sizes (batches : List (EvaluationBatch P C × Bool)) : Int :=
  (batches.map fun b => (b.1.samples.nrSamples : Int)).sum

/-- The samples waiting for an insert task. -/
def bufferedSamples (q : SamplerQueue P C Res) : Int := sizes q.pendingInsert

/-- The queue has started the tasks `added` for batches of the front of its buffer. -/
structure Pumped (q q' : SamplerQueue P C Res)
    (added : List (PendingInsertTask (EvaluationBatch P C))) : Prop where
  eq : q' =
    { q with
      pendingInsert := q'.pendingInsert
      pendingInsertTasks := q.pendingInsertTasks ++ added
      checkpoint := { q.checkpoint with
        lastProducedBatchId :=
          ((added.flatMap (·.produced)).getLast?.map (·.id)).or q.checkpoint.lastProducedBatchId }
      allocated := q.allocated ++ added.flatMap (·.produced) }
  started : ∀ t ∈ added, t.batches ≠ [] ∧ t.committed = false ∧ t.outcome = none
  samples : q.bufferedSamples = samples (added.flatMap (·.produced)) + q'.bufferedSamples
  emptied : q.pendingInsert = [] → added = [] ∧ q'.pendingInsert = []

theorem nextBundle_prefix (q : SamplerQueue P C Res) : q.nextBundle <+: q.pendingInsert := by
  unfold nextBundle
  split
  · exact List.nil_prefix
  · exact (List.takeWhile_prefix _).trans (List.take_prefix _ _)

theorem nextBundle_ne_nil {q : SamplerQueue P C Res} (h : q.pendingInsert ≠ []) :
    q.nextBundle ≠ [] := by
  unfold nextBundle
  split
  · contradiction
  · rename_i first rest heq
    obtain ⟨n, hn⟩ : ∃ n, max q.config.maxInsertBundleSize 1 = n + 1 :=
      ⟨max q.config.maxInsertBundleSize 1 - 1, by omega⟩
    simp [heq, hn]

theorem map_id_withIds {ids : List Int} {bundle : List (EvaluationBatch P C × Bool)}
    (h : ids.length = bundle.length) : (withIds ids bundle).map (·.id) = ids := by
  induction ids generalizing bundle with
  | nil => rfl
  | cons id ids ih =>
    cases bundle with
    | nil => cases h
    | cons b bundle =>
      have hrest : ids.length = bundle.length := by simpa using h
      simpa [withIds] using ih hrest

theorem map_size_withIds {ids : List Int} {bundle : List (EvaluationBatch P C × Bool)}
    (h : ids.length = bundle.length) :
    (withIds ids bundle).map (·.batchSize) = bundle.map (·.1.samples.nrSamples) := by
  induction ids generalizing bundle with
  | nil =>
    cases bundle with
    | nil => rfl
    | cons b bundle => cases h
  | cons id ids ih =>
    cases bundle with
    | nil => cases h
    | cons b bundle =>
      have hrest : ids.length = bundle.length := by simpa using h
      simpa [withIds] using ih hrest

theorem startInsert_pumped (src : IdSource) {q : SamplerQueue P C Res} (h : q.pendingInsert ≠ []) :
    Pumped q (q.startInsert src).2 [q.insertTask (src.nextBatchIds q.nextBundle.length).2] := by
  have hlen : (src.nextBatchIds q.nextBundle.length).2.length = q.nextBundle.length := by simp
  generalize hsrc : src.nextBatchIds q.nextBundle.length = next at hlen
  have hids : (q.insertTask next.2).produced.map (·.id) = next.2 := by
    rw [PendingInsertTask.produced, List.map_map]
    exact map_id_withIds hlen
  have hne : next.2 ≠ [] := by
    rw [← List.length_pos_iff, hlen, List.length_pos_iff]
    exact nextBundle_ne_nil h
  constructor
  case eq =>
    simp only [startInsert, hsrc, List.flatMap_singleton, ← List.getLast?_map, hids]
    rw [List.getLast?_eq_some_getLast hne, Option.some_or]
  case started =>
    intro t ht
    rw [List.mem_singleton.1 ht]
    refine ⟨fun hnil => hne ?_, rfl, rfl⟩
    rw [← hids, PendingInsertTask.produced, hnil]
    rfl
  case samples =>
    obtain ⟨rest, hrest⟩ := q.nextBundle_prefix
    have hdrop : q.pendingInsert.drop q.nextBundle.length = rest := by
      rw [← hrest]
      simp
    have hsizes := map_size_withIds hlen
    have hbundle : Core.samples (q.insertTask next.2).produced = sizes q.nextBundle := by
      have h := congrArg (fun l => (l.map fun n : Nat => (n : Int)).sum) hsizes
      simpa [Core.samples, PendingInsertTask.produced, insertTask, sizes, List.map_map,
        Function.comp_def] using h
    simp only [bufferedSamples, startInsert, hsrc, List.flatMap_singleton, hdrop, hbundle]
    conv_lhs => rw [← hrest]
    simp [sizes]
  case emptied => exact fun hnil => absurd hnil h

theorem Pumped.refl (q : SamplerQueue P C Res) : Pumped q q [] where
  eq := by simp
  started := by simp
  samples := by simp
  emptied := fun h => ⟨rfl, h⟩

theorem Pumped.trans {q q' q'' : SamplerQueue P C Res}
    {added added' : List (PendingInsertTask (EvaluationBatch P C))} (h : Pumped q q' added)
    (h' : Pumped q' q'' added') : Pumped q q'' (added ++ added') where
  eq := by
    rw [h'.eq, h.eq]
    simp only [List.append_assoc, List.flatMap_append, List.getLast?_append, Option.map_or,
      Option.or_assoc]
  started := by
    intro t ht
    rcases List.mem_append.1 ht with ht | ht
    · exact h.started t ht
    · exact h'.started t ht
  samples := by
    have := h.samples
    have := h'.samples
    simp only [List.flatMap_append, samples_append]
    omega
  emptied := by
    intro hnil
    obtain ⟨rfl, hnil'⟩ := h.emptied hnil
    obtain ⟨rfl, hnil''⟩ := h'.emptied hnil'
    exact ⟨rfl, hnil''⟩

theorem pump_pumped (slots : Nat) (src : IdSource) (q : SamplerQueue P C Res) :
    ∃ added, Pumped q (pump slots src q).2 added ∧
      (0 < slots → q.pendingInsert ≠ [] → added ≠ []) := by
  induction slots generalizing src q with
  | zero => exact ⟨[], .refl q, by simp⟩
  | succ slots ih =>
    unfold pump
    split
    · rename_i hempty
      exact ⟨[], .refl q, fun _ h => absurd (List.isEmpty_iff.1 hempty) h⟩
    · rename_i hempty
      have hne : q.pendingInsert ≠ [] := fun h => hempty (by simp [h])
      have hstart := startInsert_pumped src hne
      obtain ⟨added, hpumped, -⟩ := ih (q.startInsert src).1 (q.startInsert src).2
      exact ⟨_, hstart.trans hpumped, fun _ _ => by simp⟩

/-- `ensure_insert_pump`; with no task running it starts one if there is anything to insert. -/
theorem ensureInsertPump_pumped (src : IdSource) (q : SamplerQueue P C Res) :
    ∃ added, Pumped q (q.ensureInsertPump src).2 added ∧
      (q.pendingInsertTasks = [] → q.pendingInsert ≠ [] → added ≠ []) := by
  obtain ⟨added, hpumped, hstarted⟩ :=
    pump_pumped (max q.config.maxConcurrentInsertTasks 1 - q.pendingInsertTasks.length) src q
  refine ⟨added, hpumped, fun htasks => hstarted ?_⟩
  rw [htasks]
  simp

end SamplerQueue

end Gammaboard.Runners
