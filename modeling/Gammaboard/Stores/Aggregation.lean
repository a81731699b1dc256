import Gammaboard.Lib.Commit
import Gammaboard.Stores.Recovery
import Gammaboard.Stores.Tasks

/-!
# The aggregation columns of a run

`stores/pg_store.rs` and `stores/queries/aggregation.rs`: the row of `runs`, the
output snapshots, the progress of the tasks and the saved checkpoint of one run,
and the transactions a sampler aggregator writes them with. Samples are written
as absolute values, completed batches as an increment. `restore` is the part of
`stores/recovery.rs` that rolls these columns back.
-/

namespace Gammaboard.Stores

open Gammaboard.Core Gammaboard.Evaluation Gammaboard.Lib

variable {V P A M In Res J : Type}

/-- The columns of `runs` that an aggregation reads or writes. -/
structure RunRow (J : Type) where
  currentObservable : Option J
  /-- Nullable in the schema. -/
  batchesCompleted : Option Int
  nrProducedSamples : Int
  nrCompletedSamples : Int
  deriving DecidableEq, Repr

/-- A row of `persisted_observable_snapshots`. -/
structure OutputSnapshot (J : Type) where
  id : Int
  taskId : Int
  persistedObservable : J
  deriving DecidableEq, Repr

/-- The checkpoint as it is stored: the store fills in what the runner leaves open. -/
structure StoredCheckpoint (V P A M : Type) extends SamplerAggregatorCheckpoint V P A M where
  outputSnapshotId : Option Int
  batchesCompleted : Int

/-- The tables of one run. -/
structure RunTables (V P A M In Res J : Type) where
  run : RunRow J
  tasks : List RunTask
  snapshots : List (OutputSnapshot J)
  /-- The sequence behind the snapshot ids. -/
  lastSnapshotId : Int
  rows : List (BatchRow In Res)
  checkpoint : Option (StoredCheckpoint V P A M)

/-- The arguments of `save_aggregation`. -/
structure SaveCall (J : Type) where
  taskId : Int
  currentAccumulator : J
  persistedObservable : Option J
  deltaBatchesCompleted : Int
  deriving DecidableEq, Repr

/-- The range of an `INT` column. -/
def fitsInt (n : Int) : Bool := decide (-2 ^ 31 ≤ n) && decide (n < 2 ^ 31)

/-- The cumulative counters of a run. -/
structure RunCounters where
  batchesCompleted : Int
  nrProducedSamples : Int
  nrCompletedSamples : Int
  deriving DecidableEq, Repr

namespace RunRow

/-- `COALESCE(batches_completed, 0)`. -/
def batches (r : RunRow J) : Int := r.batchesCompleted.getD 0

def counters (r : RunRow J) : RunCounters :=
  ⟨r.batches, r.nrProducedSamples, r.nrCompletedSamples⟩

/-- `update_run_current_accumulator`; `none` when the sum does not fit the column. -/
def updateCurrentAccumulator (currentAccumulator : J) (delta : Int) (r : RunRow J) :
    Option (RunRow J) :=
  if fitsInt (r.batches + delta) then
    some { r with
      currentObservable := some currentAccumulator
      batchesCompleted := some (r.batches + delta) }
  else none

end RunRow

namespace RunTables

/-- `insert_task_output_snapshot`. -/
def insertTaskOutputSnapshot (taskId : Int) (persistedObservable : J)
    (t : RunTables V P A M In Res J) : RunTables V P A M In Res J :=
  { t with
    snapshots := t.snapshots ++ [⟨t.lastSnapshotId + 1, taskId, persistedObservable⟩]
    lastSnapshotId := t.lastSnapshotId + 1 }

/-- The statements of `save_aggregation`. -/
def applySave (call : SaveCall J) (t : RunTables V P A M In Res J) :
    Option (RunTables V P A M In Res J) :=
  let t := match call.persistedObservable with
    | none => t
    | some persistedObservable => t.insertTaskOutputSnapshot call.taskId persistedObservable
  (t.run.updateCurrentAccumulator call.currentAccumulator call.deltaBatchesCompleted).map
    fun run => { t with run }

/-- The error of an increment that leaves the column's range. -/
def outOfRange : StoreError := .database "integer out of range"

/-- `save_aggregation`: a negative increment is not sent. -/
def saveAggregation (call : SaveCall J) (fate : Fate StoreError) (t : RunTables V P A M In Res J) :
    RunTables V P A M In Res J × Except StoreError Unit :=
  if call.deltaBatchesCompleted < 0 then (t, .ok ())
  else fate.settle outOfRange (applySave call) t

/-- `update_run_task_progress`. -/
def saveTaskProgress (taskId produced completed : Int) (fate : Fate StoreError)
    (t : RunTables V P A M In Res J) : RunTables V P A M In Res J × Except StoreError Unit :=
  fate.settle outOfRange
    (fun t => some { t with tasks := updateRunTaskProgress taskId produced completed t.tasks }) t

/-- `update_run_sample_progress`. -/
def saveRunSampleProgress (produced completed : Int) (fate : Fate StoreError)
    (t : RunTables V P A M In Res J) : RunTables V P A M In Res J × Except StoreError Unit :=
  fate.settle outOfRange
    (fun t => some
      { t with run := { t.run with nrProducedSamples := produced, nrCompletedSamples := completed } })
    t

/-- The id of the last output snapshot of a task. -/
def outputSnapshotId (taskId : Int) (t : RunTables V P A M In Res J) : Option Int :=
  ((t.snapshots.filter fun s => s.taskId == taskId).map (·.id)).max?

/-- `upsert_run_sampler_checkpoint`. -/
def upsertRunSamplerCheckpoint (c : SamplerAggregatorCheckpoint V P A M)
    (t : RunTables V P A M In Res J) : RunTables V P A M In Res J :=
  { t with
    checkpoint := some
      { c with
        outputSnapshotId := t.outputSnapshotId c.taskId
        batchesCompleted := t.run.batches } }

/-- The samples the tasks of the run have produced and completed. -/
def taskSamples (runId : Int) (column : RunTask → Int) (tasks : List RunTask) : Int :=
  ((tasks.filter fun t => t.runId == runId).map column).sum

/-- `restore_sampler_checkpoint` from the saved checkpoint: the row lock and the comparison with
the checkpoint the runner was built from make it one step. -/
def restore (runId : Int) (toJson : A → Except EngineError J) (c : StoredCheckpoint V P A M)
    (t : RunTables V P A M In Res J) : Except StoreError (RunTables V P A M In Res J) :=
  match toJson c.observableState with
  | .error e => .error (.store e.toText)
  | .ok observable =>
    match restoreSamplerCheckpoint runId c.toSamplerAggregatorCheckpoint t.rows with
    | .error e => .error e
    | .ok rows =>
      if t.tasks.any fun task =>
          task.id == c.taskId && task.runId == runId && task.state == .active then
        let tasks := t.tasks.map fun task =>
          if task.id = c.taskId ∧ task.runId = runId ∧ task.state = .active then
            { task with
              nrProducedSamples := c.producedSamples
              nrCompletedSamples := c.completedSamples }
          else task
        .ok
          { t with
            rows
            tasks
            snapshots := t.snapshots.filter fun s =>
              !(s.taskId == c.taskId && decide (c.outputSnapshotId.getD 0 < s.id))
            run :=
              { currentObservable := some observable
                batchesCompleted := some c.batchesCompleted
                nrProducedSamples := taskSamples runId (·.nrProducedSamples) tasks
                nrCompletedSamples := taskSamples runId (·.nrCompletedSamples) tasks } }
      else .error (.store "checkpoint task is no longer active")

/-! ## What a save changes -/

theorem applySave_eq_none {call : SaveCall J} {t : RunTables V P A M In Res J} :
    t.applySave call = none ↔ fitsInt (t.run.batches + call.deltaBatchesCompleted) = false := by
  have hrun : (t.run.updateCurrentAccumulator call.currentAccumulator
      call.deltaBatchesCompleted) = none ↔
      fitsInt (t.run.batches + call.deltaBatchesCompleted) = false := by
    unfold RunRow.updateCurrentAccumulator
    split <;> simp_all
  unfold applySave
  cases call.persistedObservable with
  | none => rw [Option.map_eq_none_iff, hrun]
  | some observable => exact Option.map_eq_none_iff.trans hrun

/-- `a` counts `x` batches more than `b`; nothing else that a restore or a reader of the counters
looks at differs. -/
structure Ahead (x : Int) (a b : RunTables V P A M In Res J) : Prop where
  batches : a.run.batches = b.run.batches + x
  produced : a.run.nrProducedSamples = b.run.nrProducedSamples
  completed : a.run.nrCompletedSamples = b.run.nrCompletedSamples
  tasks : a.tasks = b.tasks
  rows : a.rows = b.rows
  checkpoint : a.checkpoint = b.checkpoint

theorem Ahead.refl (a : RunTables V P A M In Res J) : Ahead 0 a a :=
  ⟨(Int.add_zero _).symm, rfl, rfl, rfl, rfl, rfl⟩

variable {a b c : RunTables V P A M In Res J} {x y : Int} {call : SaveCall J}

theorem Ahead.trans (h : Ahead x a b) (h' : Ahead y b c) : Ahead (x + y) a c where
  batches := by rw [h.batches, h'.batches]; omega
  produced := h.produced.trans h'.produced
  completed := h.completed.trans h'.completed
  tasks := h.tasks.trans h'.tasks
  rows := h.rows.trans h'.rows
  checkpoint := h.checkpoint.trans h'.checkpoint

/-- A committed save puts the tables ahead by its increment. -/
theorem ahead_of_applySave (h : a.applySave call = some b) :
    Ahead call.deltaBatchesCompleted b a := by
  have hfits : fitsInt (a.run.batches + call.deltaBatchesCompleted) = true := by
    by_contra hn
    rw [applySave_eq_none.2 (Bool.eq_false_iff.2 hn)] at h
    cases h
  unfold applySave RunRow.updateCurrentAccumulator at h
  cases hobs : call.persistedObservable with
  | none =>
    simp only [hobs, hfits, if_true, Option.map_some, Option.some.injEq] at h
    rw [← h]
    exact ⟨rfl, rfl, rfl, rfl, rfl, rfl⟩
  | some observable =>
    simp only [hobs] at h
    rw [if_pos (show fitsInt ((a.insertTaskOutputSnapshot call.taskId observable).run.batches
      + call.deltaBatchesCompleted) = true from hfits)] at h
    simp only [Option.map_some, Option.some.injEq] at h
    rw [← h]
    exact ⟨rfl, rfl, rfl, rfl, rfl, rfl⟩

/-- The batches a failed save has counted. -/
def countedBy (call : SaveCall J) (t : RunTables V P A M In Res J) : Fate StoreError → Int
  | .lost _ =>
    if 0 ≤ call.deltaBatchesCompleted ∧ fitsInt (t.run.batches + call.deltaBatchesCompleted) then
      call.deltaBatchesCompleted
    else 0
  | .refused _ | .acknowledged => 0

theorem countedBy_nonneg (fate : Fate StoreError) : 0 ≤ a.countedBy call fate := by
  cases fate with
  | refused e => exact le_rfl
  | acknowledged => exact le_rfl
  | lost e =>
    simp only [countedBy]
    split
    · rename_i h
      exact h.1
    · exact le_rfl

theorem ahead_of_saveAggregation {fate : Fate StoreError} (h : fate.Fails) :
    Ahead (a.countedBy call fate) (a.saveAggregation call fate).1 a := by
  unfold saveAggregation
  by_cases hneg : call.deltaBatchesCompleted < 0
  · rw [if_pos hneg]
    cases fate with
    | refused e => exact .refl a
    | acknowledged => exact h.elim
    | lost e =>
      rw [countedBy, if_neg (fun hc => absurd hc.1 (not_le.2 hneg))]
      exact .refl a
  · rw [if_neg hneg]
    cases fate with
    | refused e => exact .refl a
    | acknowledged => exact h.elim
    | lost e =>
      rw [Fate.settle_lost, countedBy]
      cases hsave : a.applySave call with
      | none =>
        rw [applySave_eq_none] at hsave
        rw [if_neg (fun hc => by simp [hsave] at hc)]
        exact .refl a
      | some t =>
        have hfits : fitsInt (a.run.batches + call.deltaBatchesCompleted) = true := by
          by_contra hn
          rw [applySave_eq_none.2 (Bool.eq_false_iff.2 hn)] at hsave
          cases hsave
        rw [if_pos ⟨not_lt.1 hneg, hfits⟩]
        exact ahead_of_applySave hsave

/-- The reply to a failed save does not tell whether it was committed. -/
theorem saveAggregation_withheld {fate : Fate StoreError} (h : fate.Fails)
    (a b : RunTables V P A M In Res J) :
    b.saveAggregation call fate.withheld = (b, (a.saveAggregation call fate).2) := by
  unfold saveAggregation
  by_cases hneg : call.deltaBatchesCompleted < 0
  · rw [if_pos hneg, if_pos hneg]
  · rw [if_neg hneg, if_neg hneg]
    exact Fate.settle_withheld h a b

/-- An acknowledged save keeps one table as far ahead of the other as it was. -/
theorem Ahead.saveAggregation (h : Ahead x a b)
    (ha : (a.saveAggregation call .acknowledged).2 = .ok ())
    (hb : (b.saveAggregation call .acknowledged).2 = .ok ()) :
    Ahead x (a.saveAggregation call .acknowledged).1 (b.saveAggregation call .acknowledged).1 := by
  unfold RunTables.saveAggregation at *
  by_cases hneg : call.deltaBatchesCompleted < 0
  · rw [if_pos hneg, if_pos hneg]
    exact h
  · rw [if_neg hneg] at ha hb
    rw [if_neg hneg, if_neg hneg]
    obtain ⟨a', ha'⟩ := Option.isSome_iff_exists.1 (Fate.settle_acknowledged_ok.1 ha)
    obtain ⟨b', hb'⟩ := Option.isSome_iff_exists.1 (Fate.settle_acknowledged_ok.1 hb)
    rw [Fate.settle_acknowledged_of_some ha', Fate.settle_acknowledged_of_some hb']
    have h₁ := ahead_of_applySave ha'
    have h₂ := ahead_of_applySave hb'
    refine ⟨?_, ?_, ?_, ?_, ?_, ?_⟩
    · show a'.run.batches = b'.run.batches + x
      rw [h₁.batches, h₂.batches, h.batches]
      omega
    · exact h₁.produced.trans (h.produced.trans h₂.produced.symm)
    · exact h₁.completed.trans (h.completed.trans h₂.completed.symm)
    · exact h₁.tasks.trans (h.tasks.trans h₂.tasks.symm)
    · exact h₁.rows.trans (h.rows.trans h₂.rows.symm)
    · exact h₁.checkpoint.trans (h.checkpoint.trans h₂.checkpoint.symm)

theorem Ahead.counters (h : Ahead x a b) : a.run.counters = b.run.counters ↔ x = 0 := by
  have hb := h.batches
  unfold RunRow.counters
  rw [h.produced, h.completed]
  simp only [RunCounters.mk.injEq, and_true]
  omega

end RunTables

end Gammaboard.Stores
