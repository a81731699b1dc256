import Gammaboard.Lib.Run
import Gammaboard.Runners.SamplerRuns
import Gammaboard.Stores.Aggregation

/-!
# Saving the aggregation

`flush_aggregation` and its neighbours of `runners/sampler_aggregator.rs`: the
runner counts the batches it has merged since the last save, a save sends the
count as an increment in a background task, and the count is lowered when the
reply arrives. A save that commits without a reply leaves the count as it was,
so that the retry sends the same batches again.
-/

namespace Gammaboard.Runners

open Gammaboard.Core Gammaboard.Stores Gammaboard.Sampling Gammaboard.Evaluation Gammaboard.Lib

variable {V P A M C J : Type}

/-! ## The runner -/

/-- A Rust `usize as i32`. -/
def asI32 (n : Nat) : Int := Int.bmod n (2 ^ 32)

def i32Min : Int := -2 ^ 31
def i32Max : Int := 2 ^ 31 - 1

/-- `i32::saturating_add`. -/
def saturatingAdd (a b : Int) : Int := max i32Min (min i32Max (a + b))

/-- `i32::saturating_sub`. -/
def saturatingSub (a b : Int) : Int := max i32Min (min i32Max (a - b))

structure PendingAggregationFlushTask (J : Type) where
  call : SaveCall J
  clearedInitialRoundTrip : Bool
  /-- The reply, once the task has finished. -/
  outcome : Option (Except StoreError Unit)

/-- The columns of `SamplerAggregatorRunner` around the aggregation. -/
structure AggregationRunner (V P A M C J : Type) extends SamplerAggregatorRunner V P A M C where
  runNrProducedSamples : Int
  runNrCompletedSamples : Int
  initialRoundTripSnapshotPending : Bool
  pendingPersistedCompletedBatches : Int
  pendingAggregationFlush : Option (PendingAggregationFlushTask J)

/-- What the accumulator and the sampler write out. -/
structure OutputOps (A M J : Type) where
  toJson : A → Except EngineError J
  toPersistentJson : A → Except EngineError J
  stratified : A → Bool
  persistedOutput : M → M × Except EngineError (Option J)

namespace AggregationRunner

/-- The runner with what its other columns have become. -/
def withBase (r : AggregationRunner V P A M C J) (base : SamplerAggregatorRunner V P A M C) :
    AggregationRunner V P A M C J :=
  { r with toSamplerAggregatorRunner := base }

/-- `process_completed_batches`, with the counts it leaves for the next save. -/
def processCompletedBatches (kit : Kit V P A M C)
    (completed : List (CompletedBatch (BatchResult V A))) (tuned : Nat) (cleanupDue : Bool)
    (r : AggregationRunner V P A M C J) :
    AggregationRunner V P A M C J × Except RunnerError CompletedIngestStats :=
  let wasWaitingInitialRoundTrip :=
    r.runtimeState.accumulatorCheckpointState = .waitingForInitialRoundTrip
  match r.toSamplerAggregatorRunner.processCompletedBatches kit completed tuned cleanupDue with
  | (base, .error e) => (r.withBase base, .error e)
  | (base, .ok stats) =>
    if completed.isEmpty then (r.withBase base, .ok stats)
    else
      ({ r.withBase base with
          runNrCompletedSamples := r.runNrCompletedSamples + stats.completedSamplesDelta
          pendingPersistedCompletedBatches :=
            saturatingAdd r.pendingPersistedCompletedBatches (asI32 completed.length)
          initialRoundTripSnapshotPending :=
            r.initialRoundTripSnapshotPending ||
              (decide (0 < stats.completedSamplesDelta) && decide wasWaitingInitialRoundTrip) },
        .ok stats)

/-- `produce`. -/
def produce (kit : Kit V P A M C) (counts : BatchQueueCounts) (replies : ProduceReplies)
    (src : IdSource) (r : AggregationRunner V P A M C J) : AggregationRunner V P A M C J :=
  let base := (r.toSamplerAggregatorRunner.produce kit counts replies src).2.1
  { r.withBase base with
    runNrProducedSamples :=
      r.runNrProducedSamples + (base.nrProducedSamples - r.nrProducedSamples) }

/-- `consume_aggregation_flush_task` once the task has finished with `reply`. -/
def consumeAggregationFlushTask (task : PendingAggregationFlushTask J)
    (reply : Except StoreError Unit) (r : AggregationRunner V P A M C J) :
    AggregationRunner V P A M C J × Except RunnerError Unit :=
  match reply with
  | .ok () =>
    ({ r with
        initialRoundTripSnapshotPending :=
          r.initialRoundTripSnapshotPending && !task.clearedInitialRoundTrip
        pendingPersistedCompletedBatches :=
          saturatingSub r.pendingPersistedCompletedBatches task.call.deltaBatchesCompleted },
      .ok ())
  | .error e => (r, .error (.store e))

/-- Take the pending flush if it has finished; `none` is one that has not. -/
def takeFinishedFlush (r : AggregationRunner V P A M C J) :
    Option (AggregationRunner V P A M C J × Except RunnerError Unit) :=
  match r.pendingAggregationFlush with
  | none => some (r, .ok ())
  | some task =>
    task.outcome.map fun reply =>
      { r with pendingAggregationFlush := none }.consumeAggregationFlushTask task reply

/-- The save `flush_aggregation` prepares: the accumulator, and the snapshot if one is due. -/
def prepareFlush (ops : OutputOps A M J) (force : Bool) (r : AggregationRunner V P A M C J) :
    AggregationRunner V P A M C J × Except RunnerError (PendingAggregationFlushTask J) :=
  let persistSnapshot := force || r.initialRoundTripSnapshotPending
    || decide (0 < r.pendingPersistedCompletedBatches)
  let task (currentAccumulator : J) (snapshot : Option J) : PendingAggregationFlushTask J :=
    ⟨⟨r.task.id, currentAccumulator, snapshot, r.pendingPersistedCompletedBatches⟩,
      persistSnapshot, none⟩
  match ops.toJson r.observableState with
  | .error e => (r, .error (.engine e))
  | .ok currentAccumulator =>
    if !persistSnapshot then (r, .ok (task currentAccumulator none))
    else if ops.stratified r.observableState then
      (r, match ops.toPersistentJson r.observableState with
        | .error e => .error (.engine e)
        | .ok snapshot => .ok (task currentAccumulator (some snapshot)))
    else
      -- the accumulator is written out even when the sampler has an output of its own
      let (sampler, output) := ops.persistedOutput r.sampler
      (r.withBase { r.toSamplerAggregatorRunner with sampler },
        match output with
        | .error e => .error (.engine e)
        | .ok output =>
          match ops.toPersistentJson r.observableState with
          | .error e => .error (.engine e)
          | .ok snapshot => .ok (task currentAccumulator (some (output.getD snapshot))))

/-- `flush_aggregation(false)`; `due` says that the interval since the last one has passed. -/
def flushAggregation (ops : OutputOps A M J) (due : Bool) (r : AggregationRunner V P A M C J) :
    AggregationRunner V P A M C J × Except RunnerError Unit :=
  match r.takeFinishedFlush with
  | none => (r, .ok ())
  | some (r, .error e) => (r, .error e)
  | some (r, .ok ()) =>
    if !(r.initialRoundTripSnapshotPending || due) then (r, .ok ())
    else
      match r.prepareFlush ops false with
      | (r, .error e) => (r, .error e)
      | (r, .ok task) => ({ r with pendingAggregationFlush := some task }, .ok ())

end AggregationRunner

/-! ## The runner and the tables -/

structure AggregationSystem (V P A M C J : Type) where
  tables : RunTables V P A M (EvaluationBatch P C) (BatchResult V A) J
  runner : AggregationRunner V P A M C J

/-- What does not change. -/
structure AggregationSetting (V P A M C J : Type) where
  kit : Kit V P A M C
  ops : OutputOps A M J
  runId : Int
  config : SamplerQueueConfig

inductive AggregationEvent (V A : Type) where
  /-- `process_completed_batches`. -/
  | ingest (completed : List (CompletedBatch (BatchResult V A))) (tuned : Nat) (cleanupDue : Bool)
  | produce (counts : BatchQueueCounts) (replies : ProduceReplies) (src : IdSource)
  /-- `flush_aggregation(false)`. -/
  | flush (due : Bool)
  /-- The background task sends its save. -/
  | saveRuns (fate : Fate StoreError)
  /-- `flush_aggregation(true)`. -/
  | forceFlush (fate : Fate StoreError)
  /-- `flush_progress_sync`. -/
  | publishProgress (task run : Fate StoreError)
  /-- The end of `persist_sampler_checkpoint`. -/
  | saveCheckpoint (fate : Fate StoreError)
  /-- The runner is lost and built anew from the saved checkpoint. -/
  | restart

namespace AggregationEvent

/-- The fate of the aggregation save an event can send. -/
def saveFate : AggregationEvent V A → Option (Fate StoreError)
  | .saveRuns fate | .forceFlush fate => some fate
  | _ => none

/-- The same event, had its aggregation save not reached the database. -/
def withheld : AggregationEvent V A → AggregationEvent V A
  | .saveRuns fate => .saveRuns fate.withheld
  | .forceFlush fate => .forceFlush fate.withheld
  | e => e

/-- What a runner does until a save of it is acknowledged. -/
def BeforeReply : AggregationEvent V A → Prop
  | .saveRuns fate | .forceFlush fate => fate.Fails
  | .saveCheckpoint _ | .restart => False
  | .ingest .. | .produce .. | .flush _ | .publishProgress .. => True

instance : ∀ e : AggregationEvent V A, Decidable e.BeforeReply
  | .saveRuns fate | .forceFlush fate => inferInstanceAs (Decidable fate.Fails)
  | .saveCheckpoint _ | .restart => .isFalse id
  | .ingest .. | .produce .. | .flush _ | .publishProgress .. => .isTrue trivial

end AggregationEvent

namespace AggregationSystem

variable (set : AggregationSetting V P A M C J)

/-- The runner after a restart; the samples of the run are read back from the tables. -/
def resumed (c : SamplerAggregatorCheckpoint V P A M) (run : RunRow J)
    (task : SampleTask V) : AggregationRunner V P A M C J where
  toSamplerAggregatorRunner := .resume set.runId task set.config c
  runNrProducedSamples := max run.nrProducedSamples c.producedSamples
  runNrCompletedSamples := max run.nrCompletedSamples c.completedSamples
  initialRoundTripSnapshotPending := false
  pendingPersistedCompletedBatches := 0
  pendingAggregationFlush := none

/-- The tables after a restart. -/
def restoredTables (s : AggregationSystem V P A M C J) :
    Except StoreError (RunTables V P A M (EvaluationBatch P C) (BatchResult V A) J) :=
  match s.tables.checkpoint with
  | none => .error (.store "run has no checkpoint")
  | some c => s.tables.restore set.runId set.ops.toJson c

/-- The save that an event sends, and its fate. -/
def sends (s : AggregationSystem V P A M C J) :
    AggregationEvent V A → Option (SaveCall J × Fate StoreError)
  | .saveRuns fate =>
    match s.runner.pendingAggregationFlush with
    | some ⟨call, _, none⟩ => some (call, fate)
    | _ => none
  | .forceFlush fate =>
    match s.runner.takeFinishedFlush with
    | some (r, .ok ()) =>
      match r.prepareFlush set.ops true with
      | (_, .ok task) => some (task.call, fate)
      | (_, .error _) => none
    | _ => none
  | _ => none

def step (s : AggregationSystem V P A M C J) : AggregationEvent V A → AggregationSystem V P A M C J
  | .ingest completed tuned cleanupDue =>
    { s with runner := (s.runner.processCompletedBatches set.kit completed tuned cleanupDue).1 }
  | .produce counts replies src => { s with runner := s.runner.produce set.kit counts replies src }
  | .flush due => { s with runner := (s.runner.flushAggregation set.ops due).1 }
  | .saveRuns fate =>
    match s.runner.pendingAggregationFlush with
    | some ⟨call, cleared, none⟩ =>
      let (tables, reply) := s.tables.saveAggregation call fate
      { tables
        runner := { s.runner with pendingAggregationFlush := some ⟨call, cleared, some reply⟩ } }
    | _ => s
  | .forceFlush fate =>
    match s.runner.takeFinishedFlush with
    | none => s
    | some (r, .error _) => { s with runner := r }
    | some (r, .ok ()) =>
      match r.prepareFlush set.ops true with
      | (r, .error _) => { s with runner := r }
      | (r, .ok task) =>
        let (tables, reply) := s.tables.saveAggregation task.call fate
        { tables, runner := (r.consumeAggregationFlushTask task reply).1 }
  | .publishProgress task run =>
    let r := s.runner
    match s.tables.saveTaskProgress r.task.id r.nrProducedSamples r.nrCompletedSamples task with
    | (tables, .error _) => { s with tables }
    | (tables, .ok ()) =>
      { s with
        tables := (tables.saveRunSampleProgress r.runNrProducedSamples r.runNrCompletedSamples run).1 }
  | .saveCheckpoint fate =>
    match s.runner.toSamplerAggregatorRunner.checkpoint set.kit with
    | (base, .error _) => { s with runner := s.runner.withBase base }
    | (base, .ok c) =>
      { tables :=
          (fate.settle RunTables.outOfRange (fun t => some (t.upsertRunSamplerCheckpoint c)) s.tables).1
        runner := s.runner.withBase base }
  | .restart =>
    match s.tables.checkpoint, s.restoredTables set with
    | some c, .ok tables =>
      { tables, runner := resumed set c.toSamplerAggregatorCheckpoint tables.run s.runner.task }
    | _, _ => s

/-! ## Counted once -/

/-- The event is a save that the tables acknowledge. -/
def Acknowledged (s : AggregationSystem V P A M C J) (e : AggregationEvent V A) : Prop :=
  ∃ call, s.sends set e = some (call, .acknowledged) ∧
    (s.tables.saveAggregation call .acknowledged).2 = .ok ()

/-- The retry is acknowledged and leaves the counters of a single save, the one that is sent when
none of the failed attempts has reached the database. A restart instead of the retry leaves the
counters that it leaves then. -/
structure CountsOnce (s : AggregationSystem V P A M C J) (es : List (AggregationEvent V A))
    (retry : AggregationEvent V A) : Prop where
  acknowledged : Acknowledged set (run (step set) s es) retry
  retried : (step set (run (step set) s es) retry).tables.run.counters =
    (step set (run (step set) s (es.map (·.withheld))) retry).tables.run.counters
  resumed : ((run (step set) s es).restoredTables set).map (·.run.counters) =
    ((run (step set) s (es.map (·.withheld))).restoredTables set).map (·.run.counters)

/-- A save whose reply is lost after its commit carries no batches. -/
def LosesNoBatches (s : AggregationSystem V P A M C J) (e : AggregationEvent V A) : Prop :=
  ∀ call error, s.sends set e = some (call, .lost error) →
    fitsInt (s.tables.run.batches + call.deltaBatchesCompleted) →
      call.deltaBatchesCompleted ≤ 0

variable {set}

/-- The batches the failed save of an event has counted. -/
def counted (set : AggregationSetting V P A M C J) (s : AggregationSystem V P A M C J)
    (e : AggregationEvent V A) : Int :=
  match s.sends set e with
  | some (call, fate) => s.tables.countedBy call fate
  | none => 0

theorem counted_nonneg (s : AggregationSystem V P A M C J) (e : AggregationEvent V A) :
    0 ≤ counted set s e := by
  unfold counted
  split
  · exact RunTables.countedBy_nonneg _
  · exact le_rfl

theorem losesNoBatches_iff {s : AggregationSystem V P A M C J} {e : AggregationEvent V A} :
    LosesNoBatches set s e ↔ counted set s e = 0 := by
  unfold counted LosesNoBatches
  constructor
  · intro h
    cases hs : s.sends set e with
    | none => rfl
    | some sent =>
      obtain ⟨call, fate⟩ := sent
      cases fate with
      | refused error => rfl
      | acknowledged => rfl
      | lost error =>
        show (if _ then _ else _) = _
        split
        · rename_i hc
          have hle := h call error hs hc.2
          omega
        · rfl
  · rintro h call error hs hfits
    rw [hs] at h
    by_cases hneg : 0 ≤ call.deltaBatchesCompleted
    · simp only [RunTables.countedBy, if_pos (And.intro hneg hfits)] at h
      omega
    · omega

instance (s : AggregationSystem V P A M C J) (e : AggregationEvent V A) :
    Decidable (LosesNoBatches set s e) :=
  decidable_of_iff _ losesNoBatches_iff.symm

/-- `s` has the runner of `t`, and its tables are `x` batches ahead. -/
structure Ahead (x : Int) (s t : AggregationSystem V P A M C J) : Prop where
  runner : s.runner = t.runner
  tables : s.tables.Ahead x t.tables

variable {x : Int} {s t : AggregationSystem V P A M C J} {e : AggregationEvent V A}

theorem Ahead.sends_eq (h : Ahead x s t) : t.sends set e = s.sends set e := by
  cases e <;> simp only [sends, h.runner]

/-- Until a save is acknowledged, an event does the same to the runner whether or not its save has
reached the database, and the tables get ahead by what that save has counted. -/
theorem Ahead.step (h : Ahead x s t) (he : e.BeforeReply) :
    Ahead (x + counted set s e) (step set s e) (step set t e.withheld) := by
  obtain ⟨tables, r⟩ := s
  obtain ⟨tables', r'⟩ := t
  obtain rfl : r = r' := h.runner
  have htables : tables.Ahead x tables' := h.tables
  have hkept : Ahead (x + 0) ⟨tables, r⟩ ⟨tables', r⟩ := (Int.add_zero x).symm ▸ h
  cases e with
  | ingest completed tuned cleanupDue => exact ⟨rfl, hkept.tables⟩
  | produce counts replies src => exact ⟨rfl, hkept.tables⟩
  | flush due => exact ⟨rfl, hkept.tables⟩
  | saveCheckpoint fate => exact he.elim
  | restart => exact he.elim
  | saveRuns fate =>
    simp only [AggregationSystem.step, AggregationEvent.withheld, counted, sends]
    cases hflush : r.pendingAggregationFlush with
    | none => exact hkept
    | some task =>
      obtain ⟨call, cleared, outcome⟩ := task
      cases outcome with
      | some reply => exact hkept
      | none =>
        simp only [RunTables.saveAggregation_withheld (show fate.Fails from he) tables tables']
        exact ⟨rfl, Int.add_comm .. ▸ (RunTables.ahead_of_saveAggregation he).trans htables⟩
  | forceFlush fate =>
    simp only [AggregationSystem.step, AggregationEvent.withheld, counted, sends]
    cases hflush : r.takeFinishedFlush with
    | none => exact hkept
    | some taken =>
      obtain ⟨r₁, reply⟩ := taken
      cases reply with
      | error e => exact ⟨rfl, hkept.tables⟩
      | ok _ =>
        cases hprep : r₁.prepareFlush set.ops true with
        | mk r₂ prepared =>
          cases prepared with
          | error e =>
            simp only [hprep]
            exact ⟨rfl, hkept.tables⟩
          | ok task =>
            simp only [hprep, RunTables.saveAggregation_withheld (show fate.Fails from he) tables
              tables']
            exact ⟨rfl, Int.add_comm .. ▸ (RunTables.ahead_of_saveAggregation he).trans htables⟩
  | publishProgress task run =>
    simp only [AggregationSystem.step, AggregationEvent.withheld, counted, sends]
    refine ⟨?_, ?_⟩
    · cases task <;> cases run <;> rfl
    · have hb := htables.batches
      cases task <;> cases run <;>
        exact ⟨by simpa [RunTables.saveTaskProgress, RunTables.saveRunSampleProgress,
            Fate.settle, RunRow.batches] using hb,
          by first | rfl | exact htables.produced,
          by first | rfl | exact htables.completed,
          by first | exact htables.tasks | exact congrArg (updateRunTaskProgress _ _ _) htables.tasks,
          htables.rows, htables.checkpoint⟩

/-- Over a run the tables get ahead by something, and by nothing exactly when no save has lost
batches. -/
theorem Ahead.run (set : AggregationSetting V P A M C J) {es : List (AggregationEvent V A)}
    (h : Ahead x s t)
    (hes : ∀ e ∈ es, e.BeforeReply) :
    ∃ y, x ≤ y ∧ (y = x ↔ Along (AggregationSystem.step set) (LosesNoBatches set) s es) ∧
      Ahead y (run (AggregationSystem.step set) s es)
        (run (AggregationSystem.step set) t (es.map (·.withheld))) := by
  induction es generalizing x s t with
  | nil => exact ⟨x, le_rfl, by simp [Along], h⟩
  | cons e es ih =>
    have hstep : Ahead (x + counted set s e) (AggregationSystem.step set s e)
        (AggregationSystem.step set t e.withheld) :=
      h.step (hes e List.mem_cons_self)
    obtain ⟨y, hle, hiff, hrun⟩ := ih hstep fun e' he' => hes e' (List.mem_cons_of_mem _ he')
    have hpos : 0 ≤ counted set s e := counted_nonneg s e
    refine ⟨y, by omega, ?_, hrun⟩
    rw [Along, ← hiff, losesNoBatches_iff]
    omega

/-- An acknowledged save keeps the distance. -/
theorem Ahead.acknowledge (h : Ahead x s t) (hs : Acknowledged set s e)
    (ht : Acknowledged set t e) :
    (AggregationSystem.step set s e).tables.Ahead x (AggregationSystem.step set t e).tables := by
  obtain ⟨call, hsend, hok⟩ := hs
  obtain ⟨call', hsend', hok'⟩ := ht
  obtain ⟨tables, r⟩ := s
  obtain ⟨tables', r'⟩ := t
  obtain rfl : r = r' := h.runner
  cases e with
  | saveRuns fate =>
    simp only [sends] at hsend hsend'
    simp only [AggregationSystem.step]
    split at hsend
    · rename_i call₁ cleared hflush
      simp only [hflush, Option.some.injEq, Prod.mk.injEq] at hsend hsend' ⊢
      obtain ⟨rfl, rfl⟩ := hsend
      obtain ⟨rfl, -⟩ := hsend'
      exact h.tables.saveAggregation hok hok'
    · cases hsend
  | forceFlush fate =>
    simp only [sends] at hsend hsend'
    simp only [AggregationSystem.step]
    split at hsend
    · rename_i r₁ hflush
      cases hprep : r₁.prepareFlush set.ops true with
      | mk r₂ prepared =>
        cases prepared with
        | error e => simp [hprep] at hsend
        | ok task =>
          simp only [hflush, hprep, Option.some.injEq, Prod.mk.injEq] at hsend hsend' ⊢
          obtain ⟨rfl, rfl⟩ := hsend
          obtain ⟨rfl, -⟩ := hsend'
          exact h.tables.saveAggregation hok hok'
    · cases hsend
  | _ => cases hsend

/-- A restore sees only what the two tables share. -/
theorem Ahead.restore (h : Ahead x s t) :
    (s.restoredTables set).map (·.run.counters) = (t.restoredTables set).map (·.run.counters) := by
  unfold restoredTables
  rw [h.tables.checkpoint]
  cases t.tables.checkpoint with
  | none => rfl
  | some c =>
    simp only [RunTables.restore, h.tables.rows, h.tables.tasks]
    cases set.ops.toJson c.observableState with
    | error e => rfl
    | ok observable =>
      cases restoreSamplerCheckpoint set.runId c.toSamplerAggregatorCheckpoint t.tables.rows with
      | error e => rfl
      | ok rows =>
        simp only
        split <;> rfl

end AggregationSystem

open AggregationSystem

variable {set : AggregationSetting V P A M C J}

/-- **A save counts once, or its lost batches again.** Saves fail, with or without a commit, until
one is acknowledged. The counters are those of a single save exactly when no save that was
committed without a reply carried batches. -/
theorem countsOnce_iff (s : AggregationSystem V P A M C J) (es : List (AggregationEvent V A))
    (retry : AggregationEvent V A) (hes : ∀ e ∈ es, e.BeforeReply)
    (hsingle : Acknowledged set (run (step set) s (es.map (·.withheld))) retry) :
    CountsOnce set s es retry ↔ Along (step set) (LosesNoBatches set) s es := by
  have hstart : AggregationSystem.Ahead 0 s s := ⟨rfl, .refl _⟩
  obtain ⟨y, hle, hiff, hahead⟩ := hstart.run set hes
  rw [← hiff]
  constructor
  · intro h
    exact (hahead.acknowledge h.acknowledged hsingle).counters.1 h.retried
  · rintro rfl
    have hack : Acknowledged set (run (step set) s es) retry := by
      obtain ⟨call, hsend, hok⟩ := hsingle
      refine ⟨call, hahead.sends_eq ▸ hsend, ?_⟩
      have hbatches := hahead.tables.batches
      rw [Int.add_zero] at hbatches
      unfold RunTables.saveAggregation at hok ⊢
      split
      · rfl
      · rename_i hneg
        rw [if_neg hneg, Fate.settle_acknowledged_ok] at hok
        rw [Fate.settle_acknowledged_ok]
        rw [Option.isSome_iff_ne_none, Ne, RunTables.applySave_eq_none] at hok ⊢
        rwa [hbatches]
    exact ⟨hack, (hahead.acknowledge hack hsingle).counters.2 rfl, hahead.restore⟩

/-! ### One lost reply -/

namespace Small

def aggregation : AggregationSetting Int Unit Accumulator Nat Unit Nat where
  kit := (setting 3 16).kit
  ops := ⟨fun _ => .ok 0, fun _ => .ok 1, fun _ => false, fun drawn => (drawn, .ok none)⟩
  runId := 1
  config := (setting 3 16).config

/-- One batch saved, nothing pending. -/
def savedOnce : AggregationSystem Int Unit Accumulator Nat Unit Nat where
  tables := ⟨⟨some 0, some 1, 32, 16⟩, [⟨1, 1, 0, .samplerWorker, .active, none, 32, 16⟩], [], 0, [], none⟩
  runner :=
    { toSamplerAggregatorRunner :=
        .start 1 (setting 3 16).task (setting 3 16).config 16 0 (vector "x" [])
      runNrProducedSamples := 32
      runNrCompletedSamples := 16
      initialRoundTripSnapshotPending := false
      pendingPersistedCompletedBatches := 0
      pendingAggregationFlush := none }

def ingestOne : AggregationEvent Int Accumulator :=
  .ingest [⟨2, 1, false, 16, ⟨none, vector "x" (List.replicate 16 1)⟩⟩] 16 false

def replyLost : AggregationEvent Int Accumulator :=
  .forceFlush (.lost (.database "connection reset"))

end Small

open Small in
/-- A reply that is lost before a batch is pending does no harm. -/
theorem countsOnce_nothingPending :
    CountsOnce aggregation savedOnce [replyLost, ingestOne] (.forceFlush .acknowledged) :=
  (countsOnce_iff savedOnce [replyLost, ingestOne] (.forceFlush .acknowledged) (by decide)
    ⟨⟨1, 0, some 1, 1⟩, by decide +kernel, by decide +kernel⟩).2 (by decide +kernel)

open Small in
/-- The batch of a save that was committed without a reply is counted again by the retry. -/
theorem not_countsOnce_lostReply :
    (∀ e ∈ [ingestOne, replyLost], e.BeforeReply) ∧
    Acknowledged aggregation
      (run (step aggregation) savedOnce ([ingestOne, replyLost].map (·.withheld)))
      (.forceFlush .acknowledged) ∧
    ¬ CountsOnce aggregation savedOnce [ingestOne, replyLost] (.forceFlush .acknowledged) := by
  refine ⟨by decide, ⟨⟨1, 0, some 1, 1⟩, by decide +kernel, by decide +kernel⟩, fun h => ?_⟩
  exact absurd h.retried (by decide +kernel)

end Gammaboard.Runners
