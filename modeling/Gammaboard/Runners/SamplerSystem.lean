import Gammaboard.Lib.Run
import Gammaboard.Runners.SamplerAggregator

/-!
# The sampler task of a run, on several nodes

The processes of one sampler task and what they share: nodes that build,
activate, tick, stop and lose a sampler aggregator, evaluators that work on the
table, and the background statements of a runner. Every event is one statement
of the database or the code between two awaits; a call that fails says so in
its event. `accepted` records the result each batch was completed with,
`activated`, `writes` and `keeper` who has written what; nothing reads them.
-/

namespace Gammaboard.Runners

open Gammaboard.Core Gammaboard.Stores Gammaboard.Sampling Gammaboard.Evaluation

variable {V P A M C : Type}

/-! ## State -/

/-- The tables a sampler task uses: the rows of its batches and the checkpoint of its run. -/
structure Database (V P A M C : Type) where
  rows : List (BatchRow (EvaluationBatch P C) (BatchResult V A))
  checkpoint : Option (SamplerAggregatorCheckpoint V P A M)
  accepted : Int → Option (BatchResult V A)

/-- Why a runner saves its last checkpoint: `complete_task` or `stop`. -/
inductive Closing where
  | complete
  | stop
  deriving DecidableEq, Repr

inductive ClosingStage where
  | flushing
  | draining
  | saving
  deriving DecidableEq, Repr

/-- Where a live runner is. -/
inductive SamplerPhase (V A : Type) where
  /-- Built, the slot not yet acquired. -/
  | built
  /-- Between ticks. -/
  | idle
  /-- In a tick, with the batches `get_processed` has returned. -/
  | polled (taken : List (CompletedBatch (BatchResult V A)))
  /-- In a tick, after `queue.tick`. -/
  | counted (taken : List (CompletedBatch (BatchResult V A))) (counts : BatchQueueCounts)
  /-- A tick has failed for good; the node will stop the runner. -/
  | erred
  | closing (why : Closing) (stage : ClosingStage)
  /-- The task is completed, or the runner stopped. -/
  | ended

/-- A runner in a process of a node. -/
structure LiveRunner (V P A M C : Type) where
  runner : SamplerAggregatorRunner V P A M C
  phase : SamplerPhase V A

/-- A node: its process, its row of `nodes`, and its runner. -/
structure SamplerNode (V P A M C : Type) where
  generator : BatchIdGenerator
  leased : Bool
  active : Bool
  live : Option (LiveRunner V P A M C)

/-- A write of a running sampler aggregator. -/
inductive RunWrite where
  | checkpoint
  | progress
  | insert
  deriving DecidableEq, Repr

structure SamplerSystem (V P A M C : Type) where
  db : Database V P A M C
  nodes : List (SamplerNode V P A M C)
  /-- The node that last acquired the slot. -/
  activated : Option Nat
  /-- The writes of runners since then. -/
  writes : List (Nat × RunWrite)
  /-- The node that last saved or restored the checkpoint. -/
  keeper : Option Nat

/-- What does not change over the run. -/
structure Setting (V P A M C : Type) where
  kit : Kit V P A M C
  runId : Int
  task : SampleTask V
  config : SamplerQueueConfig
  initialBatchSize : Nat
  startSampler : M
  startState : A

/-! ## Events -/

/-- How an activation goes: it fails before the database changes, after it, or succeeds. -/
inductive BuildOutcome where
  | fails
  | failsAfter
  | runs
  deriving DecidableEq, Repr

inductive SaveOutcome where
  | fails
  | savedThenFails
  | saved
  deriving DecidableEq, Repr

inductive NodeEvent where
  | reboot (entropy : UInt16)
  | expireLease
  | renewLease
  | build (outcome : BuildOutcome)
  | activate (lost : Bool)
  | tune (config : SamplerQueueConfig)
  | poll (clock : Nat → UInt64) (notify : Except StoreError Unit) (cleanupDue : Bool)
  | count (error : Option StoreError)
  | work (clock : Nat → UInt64) (replies : TickReplies)
  | stop
  | flush (clock : Nat → UInt64) (notify : Except StoreError Unit)
  | drain (clock : Nat → UInt64) (notify : Except StoreError Unit) (tuned : Nat)
      (cleanupDue : Bool) (published : Except RunnerError Unit)
  | save (outcome : SaveOutcome)
  | insertCommits (task : Nat) (createdAt : Nat)
  | insertReturns (task : Nat) (error : Option StoreError)
  | fetchRuns (error : Option StoreError)
  | cleanupRuns (room : Nat) (error : Option StoreError)
  | leave (released : Bool)

/-- The start of an activation. -/
def NodeEvent.builds : NodeEvent → Bool
  | .build _ => true
  | _ => false

/-- The clock of the process while an event that may draw ids runs. -/
def NodeEvent.clock : NodeEvent → Option (Nat → UInt64)
  | .poll clock _ _ | .work clock _ | .flush clock _ | .drain clock _ _ _ _ => some clock
  | _ => none

inductive SamplerEvent (V A : Type) where
  | claim (v : NodesView) (locked : List Int) (uuid token : String)
  | releaseWorker (uuid : String)
  | releaseUntracked (uuid : String) (trackedTokens : List String)
  | reclaim (v : NodesView)
  | submit (batchId : Int) (uuid token : String) (result : BatchResult V A)
  | failBatch (batchId : Int) (uuid token lastError : String) (maxBatchRetries : Nat)
  | node (n : Nat) (e : NodeEvent)

/-! ## Evaluators -/

namespace Database

/-- The table after an evaluator's statement, with the results of the completed rows. -/
def withRows (rows : List (BatchRow (EvaluationBatch P C) (BatchResult V A)))
    (db : Database V P A M C) : Database V P A M C :=
  { db with
    rows
    accepted := fun id =>
      match rows.find? fun r => r.id == id && r.status == .completed with
      | some r => r.result
      | none => db.accepted id }

/-- An evaluator submits a result after it has passed `validate_for_batch`. -/
def submit (kit : Kit V P A M C) (batchId : Int) (uuid token : String) (result : BatchResult V A)
    (db : Database V P A M C) : Database V P A M C :=
  match ownedRow batchId uuid token db.rows with
  | none => db
  | some r =>
    match result.validateForBatch kit.sampler.finite kit.accumulator r.batchSize
        r.requiresTrainingValues with
    | .error _ => db
    | .ok () => db.withRows (submitBatchResults batchId uuid token result db.rows).2

end Database

/-! ## One node -/

/-- What an event of a live runner leaves. -/
structure LiveStep (V P A M C : Type) where
  db : Database V P A M C
  generator : BatchIdGenerator
  live : LiveRunner V P A M C
  write : Option RunWrite

variable (set : Setting V P A M C)

/-- A tick that fails with a database error is repeated; any other failure ends the runner. -/
def afterTickError : RunnerError → SamplerPhase V A
  | .store e => if e.isDatabaseError then .idle else .erred
  | .engine _ => .erred

/-- A failed completion is stopped once more; a failed stop is the end. -/
def afterCloseError : Closing → SamplerPhase V A
  | .complete => .erred
  | .stop => .ended

/-- `build_sampler_runner`: restore the saved checkpoint, or start and save the first one. -/
def buildRunner (outcome : BuildOutcome) (db : Database V P A M C) :
    Database V P A M C × Option (SamplerAggregatorRunner V P A M C) :=
  if outcome = .fails then (db, none)
  else
    match db.checkpoint with
    | some c =>
      match restoreSamplerCheckpoint set.runId c db.rows with
      | .error _ => (db, none)
      | .ok rows =>
        ({ db with rows },
          if outcome = .runs then some (.resume set.runId set.task set.config c) else none)
    | none =>
      let r : SamplerAggregatorRunner V P A M C :=
        .start set.runId set.task set.config set.initialBatchSize set.startSampler set.startState
      match r.checkpoint set.kit with
      | (_, .error _) => (db, none)
      | (r, .ok c) =>
        ({ db with checkpoint := some c }, if outcome = .runs then some r else none)

section

variable (db : Database V P A M C) (g : BatchIdGenerator) (l : LiveRunner V P A M C)

/-- Nothing happens. -/
def LiveRunner.unchanged : LiveStep V P A M C := ⟨db, g, l, none⟩

/-- Set the queue and the phase. -/
def LiveRunner.goto (g : BatchIdGenerator) (queue : SamplerQueue P C (BatchResult V A))
    (phase : SamplerPhase V A) : LiveStep V P A M C :=
  ⟨db, g, { runner := { l.runner with queue }, phase }, none⟩

/-- The start of a tick. -/
def pollStep (clock : Nat → UInt64) (notify : Except StoreError Unit) (cleanupDue : Bool) :
    LiveStep V P A M C :=
  match l.phase with
  | .idle =>
    match l.runner.queue.tickProcessed notify cleanupDue ⟨g, clock, 0⟩ with
    | none => l.unchanged db g
    | some (src, q, .error e) => l.goto db src.generator q (afterTickError (.store e))
    | some (src, q, .ok taken) => l.goto db src.generator q (.polled taken)
  | _ => l.unchanged db g

/-- The queries of `queue.tick`: the batches are handed over when they succeed, and left to the
next tick when they fail. -/
def countStep (error : Option StoreError) : LiveStep V P A M C :=
  match l.phase with
  | .polled taken =>
    match error with
    | some e => l.goto db g l.runner.queue (afterTickError (.store e))
    | none =>
      let counts := l.runner.queue.queueCountsWithLocalBuffer
        (getBatchQueueCounts set.runId set.task.id l.runner.queue.lastCompletedBatchId db.rows)
      l.goto db g (l.runner.queue.recordHanded taken) (.counted taken counts)
  | _ => l.unchanged db g

/-- The rest of a tick. -/
def workStep (clock : Nat → UInt64) (replies : TickReplies) : LiveStep V P A M C :=
  match l.phase with
  | .counted taken counts =>
    let (src, runner, result) := l.runner.work set.kit taken counts replies ⟨g, clock, 0⟩
    let phase :=
      match result with
      | .ok true => .closing .complete .flushing
      | .ok false => .idle
      | .error e => afterTickError e
    ⟨db, src.generator, ⟨runner, phase⟩, if replies.published matches .ok _ then some .progress else none⟩
  | _ => l.unchanged db g

/-- `stop` between ticks or after a failed one. -/
def stopStep : LiveStep V P A M C :=
  match l.phase with
  | .idle | .erred => l.goto db g l.runner.queue (.closing .stop .flushing)
  | _ => l.unchanged db g

def flushStep (clock : Nat → UInt64) (notify : Except StoreError Unit) : LiveStep V P A M C :=
  match l.phase with
  | .closing why .flushing =>
    match l.runner.queue.flushTurn notify ⟨g, clock, 0⟩ with
    | none => l.unchanged db g
    | some (src, q, .error _) => l.goto db src.generator q (afterCloseError why)
    | some (src, q, .ok true) => l.goto db src.generator q (.closing why .draining)
    | some (src, q, .ok false) => l.goto db src.generator q (.closing why .flushing)
  | _ => l.unchanged db g

/-- One turn of `drain_local_work_on_stop`, and after the last one the final publications. -/
def drainStep (clock : Nat → UInt64) (notify : Except StoreError Unit) (tuned : Nat)
    (cleanupDue : Bool) (published : Except RunnerError Unit) : LiveStep V P A M C :=
  match l.phase with
  | .closing why .draining =>
    match l.runner.queue.getProcessedReady notify ⟨g, clock, 0⟩ with
    | none => l.unchanged db g
    | some (src, q, .error _) => l.goto db src.generator q (afterCloseError why)
    | some (src, q, .ok []) =>
      match q.finishBackgroundMaintenance with
      | none => l.unchanged db g
      | some (q, .error _) => l.goto db src.generator q (afterCloseError why)
      | some (q, .ok ()) =>
        l.goto db src.generator q
          (if published matches .ok _ then .closing why .saving else afterCloseError why)
    | some (src, q, .ok taken) =>
      let runner := { l.runner with queue := q.recordHanded taken }
      match runner.processCompletedBatches set.kit taken tuned cleanupDue with
      | (runner, .error _) => ⟨db, src.generator, ⟨runner, afterCloseError why⟩, none⟩
      | (runner, .ok _) => ⟨db, src.generator, ⟨runner, .closing why .draining⟩, none⟩
  | _ => l.unchanged db g

/-- The save, and the cleanup that follows it. -/
def saveStep (outcome : SaveOutcome) : LiveStep V P A M C :=
  match l.phase with
  | .closing why .saving =>
    match l.runner.checkpoint set.kit with
    | (runner, .error _) => ⟨db, g, ⟨runner, afterCloseError why⟩, none⟩
    | (runner, .ok c) =>
      if outcome = .fails then ⟨db, g, ⟨runner, afterCloseError why⟩, none⟩
      else
        ⟨{ db with checkpoint := some c }, g,
          ⟨{ runner with queue := runner.queue.ensureCompletedCleanup true },
            if outcome = .saved then .ended else afterCloseError why⟩,
          some .checkpoint⟩
  | _ => l.unchanged db g

/-- The transaction of an insert task commits, or is refused. -/
def insertCommitsStep (i createdAt : Nat) : LiveStep V P A M C :=
  match l.runner.queue.pendingInsertTasks[i]? with
  | none => l.unchanged db g
  | some t =>
    if t.committed || t.isFinished then l.unchanged db g
    else
      match insertBatches set.runId set.task.id t.requiresTrainingValues createdAt t.batches
          db.rows with
      | (.ok (), rows) =>
        { l.goto { db with rows } g
            { l.runner.queue with
              pendingInsertTasks :=
                l.runner.queue.pendingInsertTasks.set i { t with committed := true } } l.phase with
          write := some .insert }
      | (.error e, _) =>
        l.goto db g
          { l.runner.queue with
            pendingInsertTasks :=
              l.runner.queue.pendingInsertTasks.set i { t with outcome := some (.error e) } } l.phase

/-- An insert task finishes. The reply of a committed one may be lost; an uncommitted one can
only fail. -/
def insertReturnsStep (i : Nat) (error : Option StoreError) : LiveStep V P A M C :=
  match l.runner.queue.pendingInsertTasks[i]? with
  | none => l.unchanged db g
  | some t =>
    if t.isFinished || (!t.committed && error.isNone) then l.unchanged db g
    else
      l.goto db g
        { l.runner.queue with
          pendingInsertTasks := l.runner.queue.pendingInsertTasks.set i
            { t with outcome := some (error.elim (.ok ()) .error) } } l.phase

/-- The prefetch runs its query. -/
def fetchRunsStep (error : Option StoreError) : LiveStep V P A M C :=
  match l.runner.queue.pendingProcessedFetch with
  | none => l.unchanged db g
  | some fetch =>
    if fetch.outcome.isSome then l.unchanged db g
    else
      let completed := fetch.read set.runId set.task.id db.rows
      l.goto db g
        { l.runner.queue with
          pendingProcessedFetch := some
            { fetch with outcome := some (error.elim (.ok completed) .error) } } l.phase

/-- The cleanup runs its statement; `room` is what the rows of other tasks leave of its limit. -/
def cleanupRunsStep (room : Nat) (error : Option StoreError) : LiveStep V P A M C :=
  match l.runner.queue.pendingCompletedCleanup with
  | none => l.unchanged db g
  | some cleanup =>
    if cleanup.outcome.isSome then l.unchanged db g
    else
      l.goto
        { db with
          rows := cleanupConsumedCompletedBatches set.runId cleanup.upToBatchId
            (min room completedCleanupBatchLimit) (db.checkpoint.map (·.cursors)) db.rows } g
        { l.runner.queue with
          pendingCompletedCleanup := some
            { cleanup with outcome := some (error.elim (.ok ()) .error) } } l.phase

def tuneStep (config : SamplerQueueConfig) : LiveStep V P A M C :=
  match l.phase with
  | .idle => l.goto db g (l.runner.queue.applyConfig config) .idle
  | _ => l.unchanged db g

/-- The events a runner takes part in. -/
def liveStep : NodeEvent → LiveStep V P A M C
  | .tune config => tuneStep db g l config
  | .poll clock notify cleanupDue => pollStep db g l clock notify cleanupDue
  | .count error => countStep set db g l error
  | .work clock replies => workStep set db g l clock replies
  | .stop => stopStep db g l
  | .flush clock notify => flushStep db g l clock notify
  | .drain clock notify tuned cleanupDue published =>
    drainStep set db g l clock notify tuned cleanupDue published
  | .save outcome => saveStep set db g l outcome
  | .insertCommits i createdAt => insertCommitsStep set db g l i createdAt
  | .insertReturns i error => insertReturnsStep db g l i error
  | .fetchRuns error => fetchRunsStep set db g l error
  | .cleanupRuns room error => cleanupRunsStep set db g l room error
  | _ => l.unchanged db g

end

/-! ## The system -/

namespace SamplerSystem

/-- Fresh processes, an empty table, no checkpoint. -/
def init (entropies : List UInt16) : SamplerSystem V P A M C where
  db := ⟨[], none, fun _ => none⟩
  nodes := entropies.map fun e => ⟨.new e, true, false, none⟩
  activated := none
  writes := []
  keeper := none

/-- The runner of a node. -/
def liveAt (s : SamplerSystem V P A M C) (n : Nat) : Option (LiveRunner V P A M C) :=
  s.nodes[n]?.bind (·.live)

/-- `clear_expired_assignments`. -/
def clearExpired (nodes : List (SamplerNode V P A M C)) : List (SamplerNode V P A M C) :=
  nodes.map fun node => { node with active := node.active && node.leased }

/-- `set_current_assignment`: the slot of a run is unique and needs a live lease. A node that
does not get it drops its runner. -/
def activate (n : Nat) (lost : Bool) (node : SamplerNode V P A M C) (l : LiveRunner V P A M C)
    (s : SamplerSystem V P A M C) : SamplerSystem V P A M C :=
  let nodes := clearExpired s.nodes
  if lost || !node.leased || (nodes.eraseIdx n).any (·.active) then
    { s with nodes := nodes.set n { node with active := node.active && node.leased, live := none } }
  else
    { s with
      nodes := nodes.set n { node with active := true, live := some { l with phase := .idle } }
      activated := some n, writes := [] }

/-- An event of one node. -/
def nodeStep (n : Nat) (e : NodeEvent) (s : SamplerSystem V P A M C) : SamplerSystem V P A M C :=
  match s.nodes[n]? with
  | none => s
  | some node =>
    match e, node.live with
    | .expireLease, _ => { s with nodes := s.nodes.set n { node with leased := false } }
    | .renewLease, _ => { s with nodes := s.nodes.set n { node with leased := true } }
    | .reboot entropy, none => { s with nodes := s.nodes.set n { node with generator := .new entropy } }
    | .build outcome, none =>
      let (db, runner) := buildRunner set outcome s.db
      { s with
        db, nodes := s.nodes.set n { node with live := runner.map fun r => ⟨r, .built⟩ }
        keeper := if runner.isSome then some n else s.keeper }
    | .activate lost, some l =>
      match l.phase with
      | .built => s.activate n lost node l
      | _ => s
    | .leave released, some _ =>
      { s with nodes := s.nodes.set n { node with active := node.active && !released, live := none } }
    | e, some l =>
      let after := liveStep set s.db node.generator l e
      { s with
        db := after.db
        nodes := s.nodes.set n { node with generator := after.generator, live := some after.live }
        writes := s.writes ++ (after.write.map fun w => (n, w)).toList
        keeper := if after.write = some .checkpoint then some n else s.keeper }
    | _, none => s

def step (s : SamplerSystem V P A M C) : SamplerEvent V A → SamplerSystem V P A M C
  | .claim v locked uuid token =>
    { s with db := s.db.withRows (claimBatch v locked.contains set.runId uuid token s.db.rows).2 }
  | .releaseWorker uuid =>
    { s with db := s.db.withRows (releaseClaimedBatchesForWorker set.runId uuid s.db.rows) }
  | .releaseUntracked uuid trackedTokens =>
    { s with db := s.db.withRows (releaseUntrackedClaims set.runId uuid trackedTokens s.db.rows) }
  | .reclaim v => { s with db := s.db.withRows (reclaimAbandonedBatches v set.runId s.db.rows) }
  | .submit batchId uuid token result =>
    { s with db := s.db.submit set.kit batchId uuid token result }
  | .failBatch batchId uuid token lastError maxBatchRetries =>
    { s with
      db := s.db.withRows (failBatch batchId uuid token lastError maxBatchRetries s.db.rows).2 }
  | .node n e => s.nodeStep set n e

/-! ## Conditions on a step -/

/-- A runner is built only when no other process of the run still has one. A process has its
runner until the last statement it has sent has ended. -/
def Exclusive (s : SamplerSystem V P A M C) : SamplerEvent V A → Prop
  | .node n e =>
    e.builds = true → ∀ m, m < s.nodes.length → m ≠ n → (s.liveAt m).isNone = true
  | _ => True

instance (s : SamplerSystem V P A M C) : ∀ e : SamplerEvent V A, Decidable (Exclusive s e)
  | .node n e => inferInstanceAs (Decidable (e.builds = true →
      ∀ m, m < s.nodes.length → m ≠ n → (s.liveAt m).isNone = true))
  | .claim .. | .releaseWorker .. | .releaseUntracked .. | .reclaim .. | .submit ..
  | .failBatch .. => .isTrue trivial

/-- The next ids of the process ascend from every id given to this queue, and do not fall below
the boundary reserved for a running prefetch. -/
def NextIdsAscend (generator : BatchIdGenerator) (q : SamplerQueue P C (BatchResult V A))
    (clock : Nat → UInt64) : Prop :=
  let ids := (IdSource.nextBatchIds ⟨generator, clock, 0⟩ q.config.idsPerStep).2
  (q.checkpoint.produced :: ids).Pairwise (· < ·) ∧
    ∀ fetch ∈ q.pendingProcessedFetch, ∀ id ∈ ids, fetch.beforeBatchId ≤ id

instance (generator : BatchIdGenerator) (q : SamplerQueue P C (BatchResult V A))
    (clock : Nat → UInt64) : Decidable (NextIdsAscend generator q clock) :=
  inferInstanceAs (Decidable (_ ∧ _))

/-- The ids a step may give ascend. -/
def IdsAscend (s : SamplerSystem V P A M C) : SamplerEvent V A → Prop
  | .node n e =>
    ∀ node ∈ s.nodes[n]?, ∀ l ∈ node.live, ∀ clock ∈ e.clock,
      NextIdsAscend node.generator l.runner.queue clock
  | _ => True

instance (s : SamplerSystem V P A M C) : ∀ e : SamplerEvent V A, Decidable (IdsAscend s e)
  | .node n e => inferInstanceAs (Decidable (∀ node ∈ s.nodes[n]?, ∀ l ∈ node.live,
      ∀ clock ∈ e.clock, NextIdsAscend node.generator l.runner.queue clock))
  | .claim .. | .releaseWorker .. | .releaseUntracked .. | .reclaim .. | .submit ..
  | .failBatch .. => .isTrue trivial

end SamplerSystem

/-! ### Ingestion that fails -/

/-- The training values of the batch are refused before anything changes. -/
def TrainingRefused (kit : Kit V P A M C) (r : SamplerAggregatorRunner V P A M C)
    (b : CompletedBatch (BatchResult V A)) : Prop :=
  ∀ values, b.result.feedback = some values → values.len = b.batchSize →
    ∃ e, r.runtimeState.generation.acceptFeedback kit.sampler.finite values = .error e

/-- The accumulator of the batch is refused and the merge leaves its target as it was. -/
def AccumulatorRefused (kit : Kit V P A M C) (r : SamplerAggregatorRunner V P A M C)
    (b : CompletedBatch (BatchResult V A)) : Prop :=
  ∃ e, kit.accumulator.merge r.observableState b.result.accumulator = (r.observableState, some e)

/-- No failure of the ingestion comes after a change: the group is of another task, or all of it
is ingested, or its first batch is refused at a check that precedes every change. -/
def CleanIngest (kit : Kit V P A M C) (r : SamplerAggregatorRunner V P A M C)
    (completed : List (CompletedBatch (BatchResult V A))) : Prop :=
  (r.ingestAll kit completed).2 = none ∨ (∃ b ∈ completed, b.taskId ≠ r.task.id) ∨
    ∃ b rest, completed = b :: rest ∧
      if b.requiresTrainingValues then TrainingRefused kit r b else AccumulatorRefused kit r b

/-- The group of batches an event hands to `process_completed_batches`. -/
def LiveRunner.ingests (l : LiveRunner V P A M C) :
    NodeEvent → Option (List (CompletedBatch (BatchResult V A)))
  | .work _ _ =>
    match l.phase with
    | .counted taken _ => some taken
    | _ => none
  | .drain _ _ _ _ _ =>
    match l.phase, l.runner.queue.pendingProcessedFetch.bind (·.outcome) with
    | .closing _ .draining, some (.ok taken) => some taken
    | _, _ => none
  | _ => none

/-- Every group an event ingests is ingested cleanly. -/
def SamplerSystem.IngestsCleanly (s : SamplerSystem V P A M C) : SamplerEvent V A → Prop
  | .node n e =>
    ∀ l ∈ s.liveAt n, ∀ taken ∈ l.ingests e, CleanIngest set.kit l.runner taken
  | _ => True

end Gammaboard.Runners
