import Gammaboard.Runners.AggregatorSteps
import Gammaboard.Runners.QueueTable
import Gammaboard.Runners.SamplerSystem

/-!
# What every step of a live sampler keeps

`LiveInv` adds to the invariant of the queue what the phase of the runner has in
hand and what its counters are. `LiveSafe` is the invariant of one live runner
with the tables; there is one lemma for each event of the runner.
-/

namespace Gammaboard.Runners

open Gammaboard.Core Gammaboard.Stores Gammaboard.Lib Gammaboard.Sampling Gammaboard.Evaluation

variable {V P A M C : Type}

/-! ## Invariants -/

section

variable (rows : List (BatchRow (EvaluationBatch P C) (BatchResult V A)))
  (q : SamplerQueue P C (BatchResult V A))

/-- The batches a tick has taken from the queue are the first ahead of the cursor. -/
structure Taken (taken : List (CompletedBatch (BatchResult V A))) : Prop where
  error : q.insertError = none
  front : Front rows q.ahead taken
  fetch : taken ≠ [] → q.pendingProcessedFetch = none

/-- What the counters of a tick say: with nothing pending, claimed or failed, every batch ahead
of the cursor was a completed row; a failed batch is one of them and stays there. -/
structure Counted (taken : List (CompletedBatch (BatchResult V A))) (counts : BatchQueueCounts) :
    Prop where
  pending : 0 ≤ counts.pending
  claimed : 0 ≤ counts.claimed
  completed : (taken.length : Int) ≤ counts.completed
  drained : counts.pending = 0 → counts.claimed = 0 → counts.failed = 0 →
    q.Flushed ∧ (q.ahead.length : Int) = counts.completed
  stuck : counts.failed ≠ 0 → ∃ p ∈ q.ahead, p ∉ taken.map (·.produced)

/-- What the phase has in hand. -/
def PhaseInv : SamplerPhase V A → Prop
  | .built => q.Flushed
  | .polled taken => Taken rows q taken
  | .counted taken counts => Taken rows q taken ∧ Counted q taken counts
  | .closing _ .draining | .closing _ .saving => q.Flushed
  | _ => True

/-- The batches handed over are those the cursor has passed and, until they are consumed, those
in hand. -/
def HandedInv : SamplerPhase V A → Prop
  | .built | .idle | .polled _ => q.handed = q.passed.map (·.id)
  | .counted taken _ => q.handed = q.passed.map (·.id) ++ taken.map (·.batchId)
  | .erred | .closing _ _ | .ended =>
    ∃ extra, q.handed = q.passed.map (·.id) ++ extra ∧ extra <+: q.ahead.map (·.id) ∧
      (extra ≠ [] → q.pendingProcessedFetch = none)

end

/-- What a completed row's result has passed before it was submitted. -/
def Setting.accepts (set : Setting V P A M C)
    (r : BatchRow (EvaluationBatch P C) (BatchResult V A)) (x : BatchResult V A) : Prop :=
  x.validateForBatch set.kit.sampler.finite set.kit.accumulator r.batchSize
    r.requiresTrainingValues = .ok ()

/-- What holds of a runner between its calls: its queue keeps its invariant, and its counters
are the samples of the batches it has produced and of those the cursor has passed. -/
structure RunnerInv (set : Setting V P A M C)
    (rows : List (BatchRow (EvaluationBatch P C) (BatchResult V A)))
    (c : SamplerAggregatorCheckpoint V P A M) (r : SamplerAggregatorRunner V P A M C) : Prop where
  queue : QueueInv rows c r.queue
  runId : r.queue.runId = set.runId
  taskId : r.queue.taskId = set.task.id
  task : r.task = set.task
  produced : r.nrProducedSamples = samples r.queue.allocated + r.queue.bufferedSamples
  total : r.runtimeState.producedSamplesTotal = r.nrProducedSamples
  completed : r.nrCompletedSamples = samples r.queue.passed

structure LiveInv (set : Setting V P A M C)
    (rows : List (BatchRow (EvaluationBatch P C) (BatchResult V A)))
    (c : SamplerAggregatorCheckpoint V P A M) (l : LiveRunner V P A M C) : Prop
    extends RunnerInv set rows c l.runner where
  phase : PhaseInv rows l.runner.queue l.phase
  handed : HandedInv l.runner.queue l.phase

/-- The tables and the saved checkpoint. -/
structure TablesSafe (set : Setting V P A M C) (db : Database V P A M C)
    (c : SamplerAggregatorCheckpoint V P A M) : Prop where
  table : TableInv set.runId set.task.id set.accepts db.rows
  checkpoint : db.checkpoint = some c
  task : c.taskId = set.task.id
  saved : SavedInv db.rows c

structure LiveSafe (set : Setting V P A M C) (db : Database V P A M C)
    (c : SamplerAggregatorCheckpoint V P A M) (l : LiveRunner V P A M C) : Prop
    extends TablesSafe set db c where
  live : LiveInv set db.rows c l

/-! ## Frames -/

/-- The ids given between two states of a queue ascend from the production boundary and do not
fall below the boundary reserved for a running prefetch. -/
def IdsAbove (q q' : SamplerQueue P C (BatchResult V A)) : Prop :=
  let new := (q'.allocated.drop q.allocated.length).map (·.id)
  (q.checkpoint.produced :: new).Pairwise (· < ·) ∧
    ∀ fetch ∈ q.pendingProcessedFetch, ∀ id ∈ new, fetch.beforeBatchId ≤ id

/-- The fresh ids of a step. -/
theorem IdsAbove.fresh {q q' : SamplerQueue P C (BatchResult V A)}
    (h : IdsAbove q q') :
    ∀ new, q'.allocated = q.allocated ++ new → FreshIds q new := by
  intro new hnew
  obtain ⟨hpair, hreserved⟩ := h
  have hdrop : q'.allocated.drop q.allocated.length = new := by simp [hnew]
  rw [hdrop] at hpair hreserved
  exact ⟨hpair, fun f hf p hp => hreserved f hf p.id (List.mem_map_of_mem hp)⟩

/-- Nothing has moved that a phase depends on. -/
structure SameFront (q q' : SamplerQueue P C (BatchResult V A)) : Prop where
  ahead : q'.ahead = q.ahead
  passed : q'.passed = q.passed
  handed : q'.handed = q.handed
  insertError : q'.insertError = q.insertError
  pendingInsert : q'.pendingInsert = q.pendingInsert
  tasks : q.pendingInsertTasks = [] → q'.pendingInsertTasks = []
  fetch : q.pendingProcessedFetch = none → q'.pendingProcessedFetch = none

variable {rows rows' : List (BatchRow (EvaluationBatch P C) (BatchResult V A))}
  {q q' : SamplerQueue P C (BatchResult V A)} {c : SamplerAggregatorCheckpoint V P A M}

theorem SameFront.flushed (h : SameFront q q') (hq : q.Flushed) : q'.Flushed :=
  ⟨h.pendingInsert.trans hq.buffer, h.tasks hq.tasks, h.insertError.trans hq.error⟩

theorem SameFront.refl (q : SamplerQueue P C (BatchResult V A)) : SameFront q q :=
  ⟨rfl, rfl, rfl, rfl, rfl, id, id⟩

theorem PhaseInv.moved {phase : SamplerPhase V A} (h : PhaseInv rows q phase)
    (hq : SameFront q q') (hfront : ∀ taken, Front rows q.ahead taken → Front rows' q.ahead taken) :
    PhaseInv rows' q' phase := by
  have htaken : ∀ taken, Taken rows q taken → Taken rows' q' taken := fun taken ht =>
    ⟨hq.insertError.trans ht.error, hq.ahead ▸ hfront taken ht.front,
      fun hne => hq.fetch (ht.fetch hne)⟩
  cases phase with
  | built => exact hq.flushed h
  | polled taken => exact htaken taken h
  | counted taken counts =>
    refine ⟨htaken taken h.1, { h.2 with
      drained := fun hp hcl hf => ?_
      stuck := hq.ahead ▸ h.2.stuck }⟩
    obtain ⟨hflushed, hlen⟩ := h.2.drained hp hcl hf
    exact ⟨hq.flushed hflushed, hq.ahead ▸ hlen⟩
  | closing why stage =>
    cases stage with
    | flushing => trivial
    | draining => exact hq.flushed h
    | saving => exact hq.flushed h
  | idle | erred | ended => trivial

theorem HandedInv.moved {phase : SamplerPhase V A} (h : HandedInv q phase)
    (hq : SameFront q q') : HandedInv q' phase := by
  cases phase with
  | built | idle | polled _ | counted _ _ =>
    simp only [HandedInv, hq.handed, hq.passed]
    exact h
  | erred | closing _ _ | ended =>
    obtain ⟨extra, heq, hprefix, hfetch⟩ := h
    exact ⟨extra, by rw [hq.handed, hq.passed, heq], hq.ahead ▸ hprefix,
      fun hne => hq.fetch (hfetch hne)⟩

/-- A phase with nothing in hand. -/
theorem HandedInv.bare (h : q.handed = q.passed.map (·.id)) :
    HandedInv q (.idle : SamplerPhase V A) ∧ HandedInv q (.erred : SamplerPhase V A) ∧
      (∀ why stage, HandedInv q (.closing why stage : SamplerPhase V A)) ∧
      HandedInv q (.ended : SamplerPhase V A) := by
  have hextra : ∃ extra, q.handed = q.passed.map (·.id) ++ extra ∧
      extra <+: q.ahead.map (·.id) ∧ (extra ≠ [] → q.pendingProcessedFetch = none) :=
    ⟨[], by simp [h], List.nil_prefix, fun hne => absurd rfl hne⟩
  exact ⟨h, hextra, fun _ _ => hextra, hextra⟩

/-- What is in hand stays there while more ids are given. -/
theorem HandedInv.extend {why : Closing} {stage : ClosingStage}
    (h : HandedInv q (.closing why stage : SamplerPhase V A)) (hhanded : q'.handed = q.handed)
    (hpassed : q'.passed = q.passed) (hahead : q.ahead <+: q'.ahead)
    (hfetch : q.pendingProcessedFetch = none → q'.pendingProcessedFetch = none) :
    ∀ stage', HandedInv q' (.closing why stage' : SamplerPhase V A) := by
  intro stage'
  obtain ⟨extra, heq, hprefix, hnone⟩ := h
  exact ⟨extra, by rw [hhanded, hpassed, heq], hprefix.trans (hahead.map _),
    fun hne => hfetch (hnone hne)⟩

/-- A failed tick with nothing in hand. -/
theorem HandedInv.afterTickError (rows : List (BatchRow (EvaluationBatch P C) (BatchResult V A)))
    (h : q.handed = q.passed.map (·.id)) (e : RunnerError) :
    PhaseInv rows q (afterTickError e) ∧ HandedInv q (afterTickError e : SamplerPhase V A) := by
  obtain ⟨hidle, herred, -, -⟩ := HandedInv.bare h
  unfold Runners.afterTickError
  split
  · split
    · exact ⟨trivial, hidle⟩
    · exact ⟨trivial, herred⟩
  · exact ⟨trivial, herred⟩

/-- A failed close keeps what it had in hand. -/
theorem HandedInv.afterCloseError
    (rows : List (BatchRow (EvaluationBatch P C) (BatchResult V A))) {why : Closing} {stage : ClosingStage}
    (h : HandedInv q (.closing why stage : SamplerPhase V A)) :
    PhaseInv rows q (afterCloseError why) ∧ HandedInv q (afterCloseError why : SamplerPhase V A) := by
  cases why
  · exact ⟨trivial, h⟩
  · exact ⟨trivial, h⟩

/-- The boundary of the production follows the ids given. -/
theorem FreshIds.transport {new : List Produced} (hf : FreshIds q new) (h : QueueInv rows c q)
    (h' : QueueInv rows c q') (hgiven : q'.allocated = q.allocated)
    (hfetch : q'.pendingProcessedFetch = q.pendingProcessedFetch) : FreshIds q' new := by
  have hproduced : q'.checkpoint.produced = q.checkpoint.produced := by
    simp only [SamplerQueueCheckpoint.produced, h.last, h'.last, hgiven]
  exact ⟨hproduced ▸ hf.ascend, hfetch ▸ hf.reserved⟩

/-! ## The calls of a runner -/

section

variable {set : Setting V P A M C} {r r' : SamplerAggregatorRunner V P A M C}

theorem sizeOf_eq_samples (completed : List (CompletedBatch (BatchResult V A))) :
    SamplerAggregatorRunner.sizeOf completed = samples (completed.map (·.produced)) := by
  simp [SamplerAggregatorRunner.sizeOf, samples, CompletedBatch.produced, Function.comp_def]

/-- What `process_completed_batches` leaves: on success the cursor has passed the batches, on
failure it rests. -/
structure ProcessedInv (taken : List (CompletedBatch (BatchResult V A)))
    (q q' : SamplerQueue P C (BatchResult V A))
    (result : Except RunnerError CompletedIngestStats) : Prop where
  allocated : q'.allocated = q.allocated
  handed : q'.handed = q.handed
  fetch : q'.pendingProcessedFetch = q.pendingProcessedFetch
  insertError : q'.insertError = q.insertError
  flushed : q.Flushed → q'.Flushed
  buffer : q'.pendingInsert = q.pendingInsert
  tasks : q'.pendingInsertTasks = q.pendingInsertTasks
  ok : ∀ stats, result = .ok stats → q'.passed = q.passed ++ taken.map (·.produced) ∧
    q.ahead = taken.map (·.produced) ++ q'.ahead ∧ stats.completedBatches = taken.length
  error : ∀ e, result = .error e → q'.passed = q.passed ∧ q'.ahead = q.ahead ∧
    (afterTickError e : SamplerPhase V A) = .erred

theorem RunnerInv.ingesting (h : RunnerInv set rows c r) (hq : Retuned r.queue q)
    (hk : SamplerAggregatorRunner.Ingesting { r with queue := q } r') :
    RunnerInv set rows c r' where
  queue := hk.queue ▸ h.queue.retuned hq
  runId := by rw [hk.queue, hq.kept.2.2.2.2.2.2.2.2.1]; exact h.runId
  taskId := by rw [hk.queue, hq.kept.2.2.2.2.2.2.2.2.2]; exact h.taskId
  task := hk.task.trans h.task
  produced := by
    obtain ⟨size, cached, sizing, rfl⟩ := hq
    rw [hk.nrProducedSamples, hk.queue]
    exact h.produced
  total := by rw [hk.producedSamplesTotal, hk.nrProducedSamples]; exact h.total
  completed := by
    rw [hk.nrCompletedSamples, hk.queue, hq.kept.2.1]
    exact h.completed

theorem RunnerInv.processed (h : RunnerInv set rows c r) (hrows : Ascends BatchRow.id rows)
    {taken : List (CompletedBatch (BatchResult V A))} (ht : Taken rows r.queue taken) (tuned : Nat)
    (due : Bool) {result : Except RunnerError CompletedIngestStats}
    (hp : r.processCompletedBatches set.kit taken tuned due = (r', result)) :
    RunnerInv set rows c r' ∧ ProcessedInv taken r.queue r'.queue result := by
  have hcases := SamplerAggregatorRunner.processed set.kit taken tuned due r
  have htuned := retuned_tuned tuned r.queue
  rw [hp] at hcases
  cases hcases with
  | nothing hnil =>
    subst hnil
    exact ⟨h, ⟨rfl, rfl, rfl, rfl, id, rfl, rfl, (fun stats hs => by cases hs; simp),
      fun e he => by cases he⟩⟩
  | otherTask b hb htask message =>
    exact ⟨h, ⟨rfl, rfl, rfl, rfl, id, rfl, rfl, (fun stats hs => by cases hs),
      fun e he => by cases he; exact ⟨rfl, rfl, rfl⟩⟩⟩
  | refused htask _ e hall =>
    have hkeeps := SamplerAggregatorRunner.ingestAll_ingesting set.kit taken
      { r with queue := r.queue.tuned tuned }
    rw [hall] at hkeeps
    refine ⟨h.ingesting htuned hkeeps, ?_⟩
    rw [hkeeps.queue]
    exact ⟨rfl, rfl, rfl, rfl, fun hf => ⟨hf.buffer, hf.tasks, hf.error⟩, rfl, rfl,
      (fun stats hs => by cases hs), fun e he => by cases he; exact ⟨rfl, rfl, rfl⟩⟩
  | whole hne htask r₁ hall =>
    have hkeeps := SamplerAggregatorRunner.ingestAll_ingesting set.kit taken
      { r with queue := r.queue.tuned tuned }
    rw [hall] at hkeeps
    have h₁ := h.ingesting htuned hkeeps
    have hqueue : r₁.queue = r.queue.tuned tuned := hkeeps.queue
    have hinv₁ : QueueInv rows c (r.queue.tuned tuned) := h.queue.retuned htuned
    obtain ⟨hinv, hpassed, hahead⟩ := hinv₁.markProcessed hrows ht.error ht.front ht.fetch due
    have hmarked := SamplerQueue.markProcessed_marked taken due (r.queue.tuned tuned)
    simp only [SamplerAggregatorRunner.finishIngest, hqueue]
    constructor
    · refine
        { queue := hinv
          runId := hmarked.runId.trans h.runId
          taskId := hmarked.taskId.trans h.taskId
          task := h₁.task, produced := ?produced, total := h₁.total, completed := ?completed }
      case produced =>
        simp only [SamplerQueue.bufferedSamples, hmarked.allocated, hmarked.pendingInsert]
        rw [h₁.produced, hqueue]
        rfl
      case completed =>
        simp only [hpassed, samples_append, sizeOf_eq_samples]
        rw [h₁.completed, hqueue]
    · refine ⟨hmarked.allocated, hmarked.handed, hmarked.fetch, hmarked.insertError, fun hf => ?_,
        hmarked.pendingInsert, hmarked.pendingInsertTasks, fun stats hs => ?_,
        fun e he => by cases he⟩
      · exact ⟨hmarked.pendingInsert.trans hf.buffer, hmarked.pendingInsertTasks.trans hf.tasks,
          hmarked.insertError.trans hf.error⟩
      · cases hs
        exact ⟨hpassed, hahead, rfl⟩

/-- What production leaves: the cursor rests. -/
structure ProducedInv (q q' : SamplerQueue P C (BatchResult V A)) : Prop where
  passed : q'.passed = q.passed
  ahead : q.ahead <+: q'.ahead
  handed : q'.handed = q.handed

theorem RunnerInv.produces (h : RunnerInv set rows c r)
    {src src' : IdSource} {result : Except RunnerError (Nat × Bool)}
    (hp : SamplerAggregatorRunner.Produces src r (src', r', result))
    (hfresh : ∀ new, r'.queue.allocated = r.queue.allocated ++ new → FreshIds r.queue new) :
    RunnerInv set rows c r' ∧ ProducedInv r.queue r'.queue := by
  cases hp with
  | nothing _ _ hq hk =>
    obtain ⟨hahead, hpassed, -, -, hgiven, hhanded, hbuffer, -, hrun, htask⟩ := hq.kept
    refine ⟨?_, ⟨hpassed, hahead ▸ List.prefix_rfl, hhanded⟩⟩
    exact
      { queue := h.queue.retuned hq
        runId := hrun.trans h.runId
        taskId := htask.trans h.taskId
        task := hk.task.trans h.task
        produced := by
          rw [hk.nrProducedSamples, add_zero, h.produced, hgiven]
          simp only [SamplerQueue.bufferedSamples, hbuffer]
        total := by rw [hk.producedSamplesTotal, hk.nrProducedSamples, h.total]
        completed := by rw [hk.nrCompletedSamples, h.completed, hpassed] }
  | sent _ _ q hq batches requiresFeedback hsent hk wants =>
    have hqueue : r'.queue = (q.ingest batches requiresFeedback src).2 := by rw [hsent]
    obtain ⟨hahead, hpassed, herror, hfetch, hgiven, hhanded, hbuffer, -, hrun, htask⟩ := hq.kept
    have hrefilled := q.ingest_refilled batches requiresFeedback src
    have hinv := h.queue.retuned hq
    have hfresh' : ∀ new, (q.ingest batches requiresFeedback src).2.allocated
        = q.allocated ++ new → FreshIds q new := by
      intro new hnew
      rw [← hqueue, hgiven] at hnew
      have hf := hfresh new hnew
      obtain ⟨size, cached, sizing, rfl⟩ := hq
      exact { hf with }
    obtain ⟨hpassed', hahead', hsum⟩ := hinv.grown _ hrefilled.cursor hrefilled.grown hfresh'
    rw [hqueue]
    refine ⟨?_, ⟨hpassed'.trans hpassed, hahead ▸ hahead', hrefilled.handed.trans hhanded⟩⟩
    exact
      { queue := hqueue ▸ hinv.ingest hfresh'
        runId := by rw [hqueue, hrefilled.runId, hrun]; exact h.runId
        taskId := by rw [hqueue, hrefilled.taskId, htask]; exact h.taskId
        task := hk.task.trans h.task
        produced := by
          have hbuffered : q.bufferedSamples = r.queue.bufferedSamples := by
            simp only [SamplerQueue.bufferedSamples, hbuffer]
          rw [hk.nrProducedSamples, h.produced, hqueue, hsum, hgiven, hbuffered]
        total := by rw [hk.producedSamplesTotal, hk.nrProducedSamples, h.total]
        completed := by rw [hk.nrCompletedSamples, h.completed, hqueue, hpassed', hpassed] }

end

/-! ## The steps of a live runner -/

section

variable {set : Setting V P A M C} {db : Database V P A M C} {l : LiveRunner V P A M C}
  {g g' : BatchIdGenerator}

/-- A step that changes only the queue, and leaves its cursor. -/
theorem LiveSafe.goto (h : LiveSafe set db c l) {phase : SamplerPhase V A}
    (hq : QueueInv db.rows c q') (hrun : q'.runId = l.runner.queue.runId)
    (htask : q'.taskId = l.runner.queue.taskId)
    (hsum : samples q'.allocated + q'.bufferedSamples =
      samples l.runner.queue.allocated + l.runner.queue.bufferedSamples)
    (hpassed : q'.passed = l.runner.queue.passed) (hphase : PhaseInv db.rows q' phase)
    (hhanded : HandedInv q' phase) : LiveSafe set db c (l.goto db g q' phase).live :=
  { h.toTablesSafe with
    live :=
      { queue := hq
        runId := hrun.trans h.live.runId
        taskId := htask.trans h.live.taskId
        task := h.live.task
        produced := h.live.produced.trans hsum.symm
        total := h.live.total
        completed := h.live.completed.trans (congrArg samples hpassed.symm)
        phase := hphase
        handed := hhanded } }

/-- The same for a step within one phase that moves nothing. -/
theorem LiveSafe.gotoSame (h : LiveSafe set db c l) (hq : QueueInv db.rows c q')
    (hrun : q'.runId = l.runner.queue.runId) (htask : q'.taskId = l.runner.queue.taskId)
    (hgiven : q'.allocated = l.runner.queue.allocated) (hf : SameFront l.runner.queue q') :
    LiveSafe set db c (l.goto db g q' l.phase).live := by
  refine h.goto hq hrun htask ?_ hf.passed (h.live.phase.moved hf fun _ => id)
    (h.live.handed.moved hf)
  simp only [hgiven, SamplerQueue.bufferedSamples, hf.pendingInsert]

theorem LiveSafe.tuneStep (h : LiveSafe set db c l) (config : SamplerQueueConfig) :
    LiveSafe set (tuneStep db g l config).db c (tuneStep db g l config).live := by
  unfold Runners.tuneStep
  split
  · rename_i hidle
    have hinv : QueueInv db.rows c (l.runner.queue.applyConfig config) := { h.live.queue with }
    have hstep := h.gotoSame (g := g) hinv rfl rfl rfl ⟨rfl, rfl, rfl, rfl, rfl, id, id⟩
    rw [hidle] at hstep
    exact hstep
  · exact h

theorem LiveSafe.stopStep (h : LiveSafe set db c l) :
    LiveSafe set (stopStep db g l).db c (stopStep db g l).live := by
  have hhanded := h.live.handed
  unfold Runners.stopStep
  split
  · rename_i hphase
    rw [hphase] at hhanded
    exact h.goto h.live.queue rfl rfl rfl rfl trivial ((HandedInv.bare hhanded).2.2.1 _ _)
  · rename_i hphase
    rw [hphase] at hhanded
    exact h.goto h.live.queue rfl rfl rfl rfl trivial hhanded
  · exact h

/-- The start of a tick. -/
theorem LiveSafe.pollStep (h : LiveSafe set db c l) (clock : Nat → UInt64)
    (notify : Except StoreError Unit) (due : Bool)
    (hids : IdsAbove l.runner.queue (pollStep db g l clock notify due).live.runner.queue) :
    LiveSafe set (pollStep db g l clock notify due).db c (pollStep db g l clock notify due).live := by
  unfold Runners.pollStep at hids ⊢
  split at hids
  · rename_i hidle
    have hbare := h.live.handed
    rw [hidle] at hbare
    split at hids
    · exact h
    · rename_i src q' e ht
      have hcol := h.live.queue.tickProcessed ht hids.fresh
      obtain ⟨hpassed, -, hsum⟩ := h.live.queue.grown 0 hcol.moved.cursor
        (by simpa using hcol.moved.grown) hids.fresh
      have hhanded : q'.handed = q'.passed.map (·.id) := by
        rw [hcol.moved.handed, hpassed]
        exact hbare
      obtain ⟨hphase, hhanded⟩ := HandedInv.afterTickError db.rows hhanded (.store e)
      exact h.goto hcol.inv hcol.moved.runId hcol.moved.taskId (hsum.trans (add_zero _)) hpassed hphase
        hhanded
    · rename_i src q' taken ht
      have hcol := h.live.queue.tickProcessed ht hids.fresh
      obtain ⟨hpassed, -, hsum⟩ := h.live.queue.grown 0 hcol.moved.cursor
        (by simpa using hcol.moved.grown) hids.fresh
      obtain ⟨herror, hfront, hfetch⟩ := hcol.front taken rfl
      refine h.goto hcol.inv hcol.moved.runId hcol.moved.taskId (hsum.trans (add_zero _)) hpassed
        ⟨herror, hfront, hfetch⟩ ?_
      show q'.handed = q'.passed.map (·.id)
      rw [hcol.moved.handed, hpassed]
      exact hbare
  · exact h

/-- Every batch ahead is a row once nothing is outstanding. -/
theorem QueueInv.ahead_eq_rows (h : QueueInv rows c q) (hrows : Ascends BatchRow.id rows)
    (hq : q.Flushed) :
    q.ahead = (frontier BatchRow.id q.checkpoint.completed rows).map (·.produced) := by
  have hsorted : Ascends Produced.id
      ((frontier BatchRow.id q.checkpoint.completed rows).map (·.produced)) :=
    List.pairwise_map.2 hrows.frontier
  refine h.ascend.frontier.eq_of_mem_iff hsorted fun p => ?_
  constructor
  · intro hp
    rcases h.cover hq.error p hp with ⟨r, hr, rfl⟩ | ⟨t, ht, -⟩
    · exact List.mem_map_of_mem (mem_frontier.2 ⟨hr, (mem_frontier.1 hp).2⟩)
    · exact absurd ht (by simp [hq.tasks])
  · intro hp
    obtain ⟨r, hr, rfl⟩ := List.mem_map.1 hp
    obtain ⟨hrow, hlt⟩ := mem_frontier.1 hr
    exact mem_frontier.2 ⟨h.known r hrow, hlt⟩

/-- Nothing is buffered or on its way when no local batch is counted. -/
theorem QueueInv.flushed_of_local (h : QueueInv rows c q) (herror : q.insertError = none)
    (hlocal : q.localUnpersistedBatches = 0) : q.Flushed := by
  unfold SamplerQueue.localUnpersistedBatches at hlocal
  refine ⟨List.length_eq_zero_iff.1 (by omega), ?_, herror⟩
  cases htasks : q.pendingInsertTasks with
  | nil => rfl
  | cons t tasks =>
    have hne := (h.tasks t (by simp [htasks])).nonempty
    have hpos := List.length_pos_iff.2 hne
    simp only [htasks, List.map_cons, List.sum_cons, PendingInsertTask.batchCount] at hlocal
    omega

/-- The counters of a tick. -/
theorem Taken.counted {taken : List (CompletedBatch (BatchResult V A))} (ht : Taken rows q taken)
    (h : QueueInv rows c q) (htable : TableInv set.runId set.task.id set.accepts rows) :
    Counted q taken (q.queueCountsWithLocalBuffer
      (getBatchQueueCounts set.runId set.task.id q.lastCompletedBatchId rows)) := by
  have hall : (rows.filter fun r => r.runId == set.runId && r.taskId == set.task.id) = rows := by
    refine List.filter_eq_self.2 fun r hr => ?_
    obtain ⟨hrun, htask⟩ := htable.run r hr
    simp [hrun, htask]
  have hcursor : q.lastCompletedBatchId.getD 0 = q.checkpoint.completed := rfl
  simp only [SamplerQueue.queueCountsWithLocalBuffer, getBatchQueueCounts, hall, hcursor]
  constructor
  case pending => exact Int.add_nonneg (Int.natCast_nonneg _) (Int.natCast_nonneg _)
  case claimed => exact Int.natCast_nonneg _
  case completed =>
    have hnodup : (taken.map (·.batchId)).Nodup := by
      have hids : taken.map (·.batchId) = (taken.map (·.produced)).map (·.id) := by
        rw [List.map_map]
        rfl
      rw [hids]
      exact (h.ascend.frontier.sublist ht.front.isPrefix.sublist).nodup_map
    have hsub : taken.map (·.batchId) ⊆ (rows.filter fun r =>
        r.status == .completed && decide (q.checkpoint.completed < r.id)).map (·.id) := by
      intro id hid
      obtain ⟨b, hb, rfl⟩ := List.mem_map.1 hid
      obtain ⟨r, hr, hstatus, hrow⟩ := ht.front.fromRows b hb
      have hbr : b.batchId = r.id := congrArg Produced.id (produced_of_toCompleted hrow)
      have hahead : b.produced ∈ q.ahead := ht.front.isPrefix.subset (List.mem_map_of_mem hb)
      have hlt : q.checkpoint.completed < r.id := hbr ▸ (mem_frontier.1 hahead).2
      rw [hbr]
      exact List.mem_map_of_mem (List.mem_filter.2 ⟨hr, by simp [hstatus, hlt]⟩)
    have hle := hnodup.length_le_of_subset hsub
    simp only [List.length_map, ← List.countP_eq_length_filter] at hle
    exact Int.ofNat_le.2 hle
  case drained =>
    intro hpending hclaimed hfailed
    dsimp only at hpending hclaimed hfailed
    have hflushed : q.Flushed := h.flushed_of_local ht.error (by omega)
    refine ⟨hflushed, ?_⟩
    have hdone : ∀ r ∈ rows, r.status = .completed := by
      intro r hr
      have hp := List.countP_eq_zero.1 (by omega : rows.countP (·.status == .pending) = 0) r hr
      have hc := List.countP_eq_zero.1 (by omega : rows.countP (·.status == .claimed) = 0) r hr
      have hf := List.countP_eq_zero.1 (by omega : rows.countP (·.status == .failed) = 0) r hr
      cases hs : r.status with
      | completed => rfl
      | pending => simp [hs] at hp
      | claimed => simp [hs] at hc
      | failed => simp [hs] at hf
    rw [h.ahead_eq_rows htable.ascend hflushed, List.length_map, Lib.frontier,
      ← List.countP_eq_length_filter, Nat.cast_inj]
    exact List.countP_congr fun r hr => by simp [hdone r hr]
  case stuck =>
    intro hfailed
    dsimp only at hfailed
    have hpos : 0 < rows.countP (·.status == .failed) := by omega
    obtain ⟨r, hr, hstatus⟩ := List.countP_pos_iff.1 hpos
    have hrfailed : r.status = .failed := by simpa using hstatus
    have hlt : q.checkpoint.completed < r.id := by
      by_contra hle
      have hcompleted := h.below r hr (not_lt.1 hle)
      rw [hrfailed] at hcompleted
      cases hcompleted
    refine ⟨r.produced, mem_frontier.2 ⟨h.known r hr, hlt⟩, fun hmem => ?_⟩
    obtain ⟨b, hb, hbr⟩ := List.mem_map.1 hmem
    obtain ⟨r', hr', hcompleted, hrow⟩ := ht.front.fromRows b hb
    have hid : r'.id = r.id :=
      congrArg Produced.id ((produced_of_toCompleted hrow).symm.trans hbr)
    rw [htable.ascend.eq_of_key hr' hr hid, hrfailed] at hcompleted
    cases hcompleted

/-- The queries of `queue.tick`. -/
theorem LiveSafe.countStep (h : LiveSafe set db c l) (error : Option StoreError) :
    LiveSafe set (countStep set db g l error).db c (countStep set db g l error).live := by
  have hphase := h.live.phase
  have hbare := h.live.handed
  unfold Runners.countStep
  split
  · rename_i taken hpolled
    rw [hpolled] at hphase hbare
    split
    · rename_i e
      obtain ⟨hphase', hhanded⟩ := HandedInv.afterTickError db.rows hbare (.store e)
      exact h.goto h.live.queue rfl rfl rfl rfl hphase' hhanded
    · have hcounted := Taken.counted hphase h.live.queue h.table
      have htaken : Taken db.rows (l.runner.queue.recordHanded taken) taken :=
        ⟨hphase.error, hphase.front, hphase.fetch⟩
      refine h.goto { h.live.queue with } rfl rfl rfl rfl ⟨htaken, ?_⟩ ?_
      · refine { hcounted with drained := fun hp hcl hf => ?_ }
        obtain ⟨hflushed, hlen⟩ := hcounted.drained hp hcl hf
        exact ⟨⟨hflushed.buffer, hflushed.tasks, hflushed.error⟩, hlen⟩
      · show l.runner.queue.handed ++ _ = _
        rw [show l.runner.queue.handed = _ from hbare]
        rfl
  · exact h

/-- A step that ends with this runner in this phase. -/
theorem LiveSafe.withRunner (h : LiveSafe set db c l) {r : SamplerAggregatorRunner V P A M C}
    {phase : SamplerPhase V A} (hr : RunnerInv set db.rows c r) (hphase : PhaseInv db.rows r.queue phase)
    (hhanded : HandedInv r.queue phase) : LiveSafe set db c ⟨r, phase⟩ :=
  { h.toTablesSafe with live := { hr with phase := hphase, handed := hhanded } }

/-- Batches in hand are the first ahead, and no prefetch has asked for more. -/
theorem Taken.inHand {taken : List (CompletedBatch (BatchResult V A))} (ht : Taken rows q taken)
    (hhanded : q.handed = q.passed.map (·.id) ++ taken.map (·.batchId)) :
    ∃ extra, q.handed = q.passed.map (·.id) ++ extra ∧ extra <+: q.ahead.map (·.id) ∧
      (extra ≠ [] → q.pendingProcessedFetch = none) := by
  have hids : taken.map (·.batchId) = (taken.map (·.produced)).map (·.id) := by
    rw [List.map_map]
    rfl
  refine ⟨taken.map (·.batchId), hhanded, hids ▸ ht.front.isPrefix.map _, fun hne => ht.fetch ?_⟩
  rintro rfl
  exact hne rfl

/-- A group that is refused stays in hand. -/
theorem ProcessedInv.inHand {taken : List (CompletedBatch (BatchResult V A))} {e : RunnerError}
    (h : ProcessedInv taken q q' (.error e)) (ht : Taken rows q taken)
    (hhanded : q.handed = q.passed.map (·.id) ++ taken.map (·.batchId)) :
    ∃ extra, q'.handed = q'.passed.map (·.id) ++ extra ∧ extra <+: q'.ahead.map (·.id) ∧
      (extra ≠ [] → q'.pendingProcessedFetch = none) := by
  obtain ⟨hpassed, hahead, -⟩ := h.error e rfl
  rw [h.handed, hpassed, hahead, h.fetch]
  exact ht.inHand hhanded

/-- A group that is ingested has been passed. -/
theorem ProcessedInv.handed_ok {taken : List (CompletedBatch (BatchResult V A))}
    {stats : CompletedIngestStats} (h : ProcessedInv taken q q' (.ok stats))
    (hhanded : q.handed = q.passed.map (·.id) ++ taken.map (·.batchId)) :
    q'.handed = q'.passed.map (·.id) := by
  obtain ⟨hpassed, -, -⟩ := h.ok stats rfl
  rw [h.handed, hpassed, hhanded, List.map_append, List.map_map]
  rfl

/-- The rest of a tick. -/
theorem LiveSafe.workStep (h : LiveSafe set db c l) (clock : Nat → UInt64) (replies : TickReplies)
    (hids : IdsAbove l.runner.queue
      (workStep set db g l clock replies).live.runner.queue) :
    LiveSafe set (workStep set db g l clock replies).db c
      (workStep set db g l clock replies).live := by
  have hphase := h.live.phase
  have hhanded := h.live.handed
  unfold Runners.workStep at hids ⊢
  split at hids
  · rename_i taken counts hcounted
    rw [hcounted] at hphase hhanded
    obtain ⟨htaken, -⟩ := hphase
    have hcases := SamplerAggregatorRunner.work_cases set.kit taken counts replies ⟨g, clock, 0⟩
      l.runner
    generalize l.runner.work set.kit taken counts replies ⟨g, clock, 0⟩ = out at hcases hids
    obtain ⟨src, r', result⟩ := out
    rcases hcases with ⟨r₁, e, hp, hout⟩ | ⟨r₁, stats, src₂, r₂, sent, result, hp, hsent, hout, -⟩
    · cases hout
      obtain ⟨hr, hprocessed⟩ := h.live.toRunnerInv.processed h.table.ascend htaken _ _ hp
      obtain ⟨-, -, herred⟩ := hprocessed.error e rfl
      refine h.withRunner hr ?_ ?_
      · show PhaseInv _ _ (afterTickError e)
        rw [herred]
        trivial
      · show HandedInv _ (afterTickError e)
        rw [herred]
        exact hprocessed.inHand htaken hhanded
    · cases hout
      obtain ⟨hr₁, hprocessed⟩ := h.live.toRunnerInv.processed h.table.ascend htaken _ _ hp
      have hfresh : ∀ new, r'.queue.allocated = r₁.queue.allocated ++ new →
          FreshIds r₁.queue new := fun new hnew =>
        (hids.fresh new (hprocessed.allocated ▸ hnew)).transport h.live.queue hr₁.queue
          hprocessed.allocated hprocessed.fetch
      obtain ⟨hr, hproduced⟩ := hr₁.produces hsent hfresh
      have hhanded : r'.queue.handed = r'.queue.passed.map (·.id) := by
        rw [hproduced.handed, hproduced.passed]
        exact hprocessed.handed_ok hhanded
      obtain ⟨hidle, -, hclosing, -⟩ := HandedInv.bare hhanded
      cases result with
      | error e =>
        obtain ⟨hphase, hhanded⟩ := HandedInv.afterTickError db.rows hhanded e
        exact h.withRunner hr hphase hhanded
      | ok done =>
        cases done
        · exact h.withRunner hr trivial hidle
        · exact h.withRunner hr trivial (hclosing _ _)
  · exact h

/-- One turn of `flush`. -/
theorem LiveSafe.flushStep (h : LiveSafe set db c l) (clock : Nat → UInt64)
    (notify : Except StoreError Unit)
    (hids : IdsAbove l.runner.queue (flushStep db g l clock notify).live.runner.queue) :
    LiveSafe set (flushStep db g l clock notify).db c (flushStep db g l clock notify).live := by
  have hhanded := h.live.handed
  unfold Runners.flushStep at hids ⊢
  split at hids
  · rename_i why hclosing
    rw [hclosing] at hhanded
    generalize hturn : l.runner.queue.flushTurn notify ⟨g, clock, 0⟩ = turn at hids
    match turn with
    | none => exact h
    | some (src, q', result) =>
      have hgiven : ∀ new, q'.allocated = l.runner.queue.allocated ++ new →
          FreshIds l.runner.queue new := by
        rcases result with e | (_ | _) <;> exact hids.fresh
      obtain ⟨hinv, hmoved, hnone, hdone⟩ := h.live.queue.flushTurn hturn hgiven
      obtain ⟨hpassed, hahead, hsum⟩ := h.live.queue.grown 0 hmoved.cursor
        (by simpa using hmoved.grown) hgiven
      have hkeep := hhanded.extend hmoved.handed hpassed hahead hnone
      rcases result with e | (_ | _)
      · obtain ⟨hphase, hafter⟩ := (hkeep .flushing).afterCloseError db.rows
        exact h.goto hinv hmoved.runId hmoved.taskId (hsum.trans (add_zero _)) hpassed hphase hafter
      · exact h.goto hinv hmoved.runId hmoved.taskId (hsum.trans (add_zero _)) hpassed trivial
          (hkeep .flushing)
      · exact h.goto hinv hmoved.runId hmoved.taskId (hsum.trans (add_zero _)) hpassed (hdone rfl)
          (hkeep .draining)
  · exact h

/-- One turn of the drain, and the maintenance after it. -/
theorem LiveSafe.drainStep (h : LiveSafe set db c l) (clock : Nat → UInt64)
    (notify : Except StoreError Unit) (tuned : Nat) (due : Bool) (published : Except RunnerError Unit)
    (hids : IdsAbove l.runner.queue
      (drainStep set db g l clock notify tuned due published).live.runner.queue) :
    LiveSafe set (drainStep set db g l clock notify tuned due published).db c
      (drainStep set db g l clock notify tuned due published).live := by
  have hhanded := h.live.handed
  have hflushed := h.live.phase
  unfold Runners.drainStep at hids ⊢
  split at hids
  · rename_i why hclosing
    rw [hclosing] at hhanded hflushed
    generalize hready : l.runner.queue.getProcessedReady notify ⟨g, clock, 0⟩ = ready at hids
    match ready with
    | none => exact h
    | some (src, q₁, .error e) =>
      obtain ⟨hcol, hnone, -⟩ := h.live.queue.getProcessedReady hready hids.fresh
      obtain ⟨hpassed, hahead, hsum⟩ := h.live.queue.grown 0 hcol.moved.cursor
        (by simpa using hcol.moved.grown) hids.fresh
      have hkeep := hhanded.extend hcol.moved.handed hpassed hahead hnone
      obtain ⟨hphase, hafter⟩ := (hkeep .draining).afterCloseError db.rows
      exact h.goto hcol.inv hcol.moved.runId hcol.moved.taskId (hsum.trans (add_zero _)) hpassed hphase
        hafter
    | some (src, q₁, .ok []) =>
      dsimp only at hids ⊢
      generalize hmaintenance : q₁.finishBackgroundMaintenance = maintenance at hids
      match maintenance with
      | none => exact h
      | some (q₂, result) =>
        have hkept := SamplerQueue.finishBackgroundMaintenance_kept hmaintenance
        have hfresh : ∀ new, q₁.allocated = l.runner.queue.allocated ++ new →
            FreshIds l.runner.queue new := by
          intro new hnew
          cases result with
          | error e => exact hids.fresh new (hkept.allocated.trans hnew)
          | ok u => exact hids.fresh new (hkept.allocated.trans hnew)
        obtain ⟨hcol, hnone, -⟩ := h.live.queue.getProcessedReady hready hfresh
        obtain ⟨hpassed, hahead, hsum⟩ := h.live.queue.grown 0 hcol.moved.cursor
          (by simpa using hcol.moved.grown) hfresh
        obtain ⟨hinv, hdone⟩ := hcol.inv.finishBackgroundMaintenance hmaintenance
        have hq₂ : q₂.Flushed := hdone (hflushed.getProcessedReady hready)
        have hkeep := hhanded.extend (hkept.handed.trans hcol.moved.handed)
          (hkept.passed.trans hpassed) (hkept.ahead ▸ hahead)
          fun hn => hkept.fetch_none (hnone hn)
        have hsum₂ : samples q₂.allocated + q₂.bufferedSamples =
            samples l.runner.queue.allocated + l.runner.queue.bufferedSamples := by
          have hbuffered : q₂.bufferedSamples = q₁.bufferedSamples := by
            simp only [SamplerQueue.bufferedSamples, hkept.pendingInsert]
          rw [hkept.allocated, hbuffered]
          simpa using hsum
        have hstep : ∀ phase, PhaseInv db.rows q₂ phase → HandedInv q₂ phase →
            LiveSafe set db c (l.goto db src.generator q₂ phase).live := fun phase hp hh =>
          h.goto hinv (hkept.runId.trans hcol.moved.runId) (hkept.taskId.trans hcol.moved.taskId)
            hsum₂ (hkept.passed.trans hpassed) hp hh
        obtain ⟨hphase, hafter⟩ := (hkeep .draining).afterCloseError db.rows
        cases result with
        | error e => exact hstep _ hphase hafter
        | ok u =>
          cases published with
          | error e => exact hstep _ hphase hafter
          | ok u => exact hstep _ hq₂ (hkeep .saving)
    | some (src, q₁, .ok (b :: rest)) =>
      dsimp only at hids ⊢
      generalize hprocess : SamplerAggregatorRunner.processCompletedBatches set.kit (b :: rest) tuned
        due { l.runner with queue := q₁.recordHanded (b :: rest) } = processed at hids
      obtain ⟨r', result⟩ := processed
      have hgiven : r'.queue.allocated = q₁.allocated := by
        have := SamplerAggregatorRunner.processCompletedBatches_allocated set.kit (b :: rest) tuned
          due { l.runner with queue := q₁.recordHanded (b :: rest) }
        rwa [hprocess] at this
      have hfresh : ∀ new, q₁.allocated = l.runner.queue.allocated ++ new →
          FreshIds l.runner.queue new := by
        intro new hnew
        cases result with
        | error e => exact hids.fresh new (hgiven.trans hnew)
        | ok u => exact hids.fresh new (hgiven.trans hnew)
      obtain ⟨hcol, -, hfetched⟩ := h.live.queue.getProcessedReady hready hfresh
      obtain ⟨hpassed, -, hsum⟩ := h.live.queue.grown 0 hcol.moved.cursor
        (by simpa using hcol.moved.grown) hfresh
      obtain ⟨herror, hfront, hfetch⟩ := hcol.front _ rfl
      have htaken : Taken db.rows (q₁.recordHanded (b :: rest)) (b :: rest) :=
        ⟨herror, hfront, hfetch⟩
      -- a prefetch was running, so nothing was in hand
      have hinHand : (q₁.recordHanded (b :: rest)).handed =
          (q₁.recordHanded (b :: rest)).passed.map (·.id) ++ (b :: rest).map (·.batchId) := by
        obtain ⟨extra, heq, -, hnone⟩ := hhanded
        have hextra : extra = [] := by
          by_contra hne
          have hsome := hfetched _ rfl (by simp)
          rw [SamplerQueue.fetched, hnone hne] at hsome
          cases hsome
        show q₁.handed ++ _ = q₁.passed.map _ ++ _
        rw [hcol.moved.handed, heq, hextra, hpassed, List.append_nil]
      have hr : RunnerInv set db.rows c { l.runner with queue := q₁.recordHanded (b :: rest) } :=
        { queue := { hcol.inv with }
          runId := hcol.moved.runId.trans h.live.runId
          taskId := hcol.moved.taskId.trans h.live.taskId
          task := h.live.task
          produced := h.live.produced.trans (hsum.trans (add_zero _)).symm
          total := h.live.total
          completed := h.live.completed.trans (congrArg samples hpassed.symm) }
      obtain ⟨hr', hprocessed⟩ := hr.processed h.table.ascend htaken tuned due hprocess
      cases result with
      | error e =>
        have hafter := hprocessed.inHand htaken hinHand
        cases why
        · exact h.withRunner hr' trivial hafter
        · exact h.withRunner hr' trivial hafter
      | ok stats =>
        have hq₁ := hflushed.getProcessedReady hready
        have hdone := hprocessed.flushed ⟨hq₁.buffer, hq₁.tasks, hq₁.error⟩
        exact h.withRunner hr' hdone ((HandedInv.bare (hprocessed.handed_ok hinHand)).2.2.1 _ _)
  · exact h

/-- The checkpoint of a runner that has inserted everything. -/
theorem RunnerInv.save {r r' : SamplerAggregatorRunner V P A M C} (h : RunnerInv set rows c r)
    (hq : r.queue.Flushed)
    (hhanded : ∃ extra, r.queue.handed = r.queue.passed.map (·.id) ++ extra ∧
      extra <+: r.queue.ahead.map (·.id) ∧ (extra ≠ [] → r.queue.pendingProcessedFetch = none))
    {c' : SamplerAggregatorCheckpoint V P A M} (hs : r.checkpoint set.kit = (r', .ok c')) :
    RunnerInv set rows c' r' ∧ SavedInv rows c' ∧ c'.taskId = set.task.id ∧ r'.queue = r.queue := by
  obtain ⟨⟨sampler, rfl⟩, hsaves⟩ := SamplerAggregatorRunner.checkpoint_ok set.kit hs
  obtain ⟨extra, heq, hextra, -⟩ := hhanded
  have hkept : c'.handed = r.queue.passed.map (·.id) := by
    have hpassed : ∀ id ∈ r.queue.passed.map (·.id), id ≤ r.queue.checkpoint.completed := by
      intro id hid
      obtain ⟨p, hp, rfl⟩ := List.mem_map.1 hid
      exact (mem_settled.1 hp).2
    have hahead : ∀ id ∈ extra, ¬ id ≤ r.queue.checkpoint.completed := by
      intro id hid
      obtain ⟨p, hp, rfl⟩ := List.mem_map.1 (hextra.subset hid)
      exact not_le.2 (mem_frontier.1 hp).2
    rw [hsaves.handed, heq, List.filter_append,
      List.filter_eq_self.2 fun id hid => decide_eq_true (hpassed id hid),
      List.filter_eq_nil_iff.2 fun id hid => by simpa using hahead id hid, List.append_nil]
  have hproduced : c'.producedSamples = samples r.queue.allocated := by
    have hbuffer : r.queue.bufferedSamples = 0 := by
      simp [SamplerQueue.bufferedSamples, SamplerQueue.sizes, hq.buffer]
    rw [SamplerAggregatorCheckpoint.producedSamples, hsaves.runtimeState, h.total, h.produced,
      hbuffer, add_zero]
  obtain ⟨hinv, hsaved⟩ := h.queue.save hq hsaves.allocated hsaves.queue hproduced
    (hsaves.completedSamples.trans h.completed) hkept
  refine ⟨{ h with queue := hinv }, hsaved, ?_, rfl⟩
  rw [hsaves.taskId, h.task]

/-- The save, and the cleanup that follows it. -/
theorem LiveSafe.saveStep (h : LiveSafe set db c l) (outcome : SaveOutcome) :
    ∃ c', LiveSafe set (saveStep set db g l outcome).db c' (saveStep set db g l outcome).live := by
  have hflushed := h.live.phase
  have hhanded := h.live.handed
  unfold Runners.saveStep
  split
  · rename_i why hclosing
    rw [hclosing] at hflushed hhanded
    obtain ⟨hphase, hafter⟩ := hhanded.afterCloseError db.rows
    split
    · rename_i r' e hs
      obtain ⟨sampler, rfl⟩ := SamplerAggregatorRunner.checkpoint_error set.kit hs
      exact ⟨c, h.withRunner { h.live.toRunnerInv with } hphase hafter⟩
    · rename_i r' c' hs
      obtain ⟨hr, hsaved, htask, hqueue⟩ := h.live.toRunnerInv.save hflushed hhanded hs
      split
      · obtain ⟨⟨sampler, rfl⟩, -⟩ := SamplerAggregatorRunner.checkpoint_ok set.kit hs
        exact ⟨c, h.withRunner { h.live.toRunnerInv with } hphase hafter⟩
      · have hclean : RunnerInv set db.rows c'
            { r' with queue := r'.queue.ensureCompletedCleanup true } := by
          obtain ⟨hkept, -, -⟩ := r'.queue.ensureCompletedCleanup_kept true
          refine
            { queue := hr.queue.ensureCompletedCleanup true
              runId := hkept.runId.trans hr.runId
              taskId := hkept.taskId.trans hr.taskId
              task := hr.task, produced := ?_, total := hr.total
              completed := hr.completed.trans (congrArg samples hkept.passed.symm) }
          simp only [hkept.allocated, SamplerQueue.bufferedSamples, hkept.pendingInsert]
          exact hr.produced
        have hmoved : SameFront l.runner.queue (r'.queue.ensureCompletedCleanup true) := by
          obtain ⟨hkept, herror, htasks⟩ := r'.queue.ensureCompletedCleanup_kept true
          rw [hqueue] at hkept herror htasks ⊢
          exact ⟨hkept.ahead, hkept.passed, hkept.handed, herror, hkept.pendingInsert,
            fun hnil => htasks.trans hnil, hkept.fetch_none⟩
        refine ⟨c', { table := h.table, checkpoint := rfl, task := htask, saved := hsaved
                      live := { hclean with phase := ?_, handed := ?_ } }⟩
        · cases why <;> cases outcome <;> trivial
        · have hended : HandedInv (r'.queue.ensureCompletedCleanup true)
              (.ended : SamplerPhase V A) := HandedInv.moved hhanded hmoved
          cases why <;> cases outcome <;> exact hended
  · exact ⟨c, h⟩

/-! ### Background statements -/

/-- The transaction of an insert task. -/
theorem LiveSafe.insertCommitsStep (h : LiveSafe set db c l) (i createdAt : Nat) :
    LiveSafe set (insertCommitsStep set db g l i createdAt).db c
      (insertCommitsStep set db g l i createdAt).live := by
  unfold Runners.insertCommitsStep
  split
  · exact h
  · rename_i t ht
    split
    · exact h
    · rename_i hrunning
      have hcommitted : t.committed = false := by
        cases hc : t.committed with
        | false => rfl
        | true => simp [hc] at hrunning
      have hset : ∀ t', SameFront l.runner.queue { l.runner.queue with
          pendingInsertTasks := l.runner.queue.pendingInsertTasks.set i t' } := fun t' =>
        ⟨rfl, rfl, rfl, rfl, rfl, fun hnil => by simp [hnil], id⟩
      split
      · rename_i rows hi
        have hrows : ∀ taken, Front db.rows l.runner.queue.ahead taken →
            Front rows l.runner.queue.ahead taken := by
          intro taken hf
          refine ⟨hf.isPrefix, fun b hb => ?_⟩
          obtain ⟨r, hr, hrow⟩ := hf.fromRows b hb
          obtain ⟨rfl, -, -⟩ := insertBatches_ok hi
          exact ⟨r, mem_foldr_insertRow.2 (.inr hr), hrow⟩
        exact
          { table := h.table.insertCommits hi
            checkpoint := h.checkpoint, task := h.task
            saved := h.saved.insertCommits h.live.queue ht hi
            live :=
              { h.live with
                queue := h.live.queue.insertCommits ht hcommitted hi
                phase := h.live.phase.moved (hset _) hrows
                handed := h.live.handed.moved (hset _) } }
      · rename_i e rows hi
        exact h.gotoSame (h.live.queue.insertReturns ht fun he => by cases he) rfl rfl rfl (hset _)

/-- An insert task finishes. -/
theorem LiveSafe.insertReturnsStep (h : LiveSafe set db c l) (i : Nat) (error : Option StoreError) :
    LiveSafe set (insertReturnsStep db g l i error).db c
      (insertReturnsStep db g l i error).live := by
  unfold Runners.insertReturnsStep
  split
  · exact h
  · rename_i t ht
    split
    · exact h
    · rename_i hopen
      refine h.gotoSame (h.live.queue.insertReturns ht fun hr => ?_) rfl rfl rfl
        ⟨rfl, rfl, rfl, rfl, rfl, fun hnil => by simp [hnil], id⟩
      cases error with
      | some e => cases hr
      | none =>
        cases hc : t.committed with
        | true => rfl
        | false => exact absurd (by simp [hc]) hopen

/-- The query of the prefetch. -/
theorem LiveSafe.fetchRunsStep (h : LiveSafe set db c l) (error : Option StoreError) :
    LiveSafe set (fetchRunsStep set db g l error).db c (fetchRunsStep set db g l error).live := by
  unfold Runners.fetchRunsStep
  split
  · exact h
  · rename_i f hf
    split
    · exact h
    · exact h.gotoSame (h.live.queue.fetchRuns h.table hf error) rfl rfl rfl
        ⟨rfl, rfl, rfl, rfl, rfl, id, fun hnone => by rw [hf] at hnone; cases hnone⟩

/-- The statement of the cleanup. -/
theorem LiveSafe.cleanupRunsStep (h : LiveSafe set db c l) (room : Nat) (error : Option StoreError) :
    LiveSafe set (cleanupRunsStep set db g l room error).db c
      (cleanupRunsStep set db g l room error).live := by
  unfold Runners.cleanupRunsStep
  split
  · exact h
  · rename_i k hk
    split
    · exact h
    · have hle := h.live.queue.cleanup k hk
      have hsaved : db.checkpoint.map (·.cursors) = some c.cursors := by rw [h.checkpoint]; rfl
      have hfront : SameFront l.runner.queue { l.runner.queue with
          pendingCompletedCleanup := some { k with
            outcome := some (error.elim (.ok ()) .error) } } :=
        ⟨rfl, rfl, rfl, rfl, rfl, id, id⟩
      exact
        { table := h.table.cleanup _ _ _
          checkpoint := h.checkpoint, task := h.task
          saved := hsaved ▸ h.saved.cleanup _ _ _
          live :=
            { h.live with
              queue := h.live.queue.cleanupRuns hk _ _ _ _
              phase := h.live.phase.moved hfront fun taken hf => hf.undisturbed
                ((undisturbed_cleanup _ _ _ _ _).mono fun r _ hlt => .inl (hle.trans_lt hlt))
              handed := h.live.handed.moved hfront } }

/-- Every event of a live runner keeps its invariant while the ids it gives ascend. -/
theorem LiveSafe.liveStep (h : LiveSafe set db c l) (e : NodeEvent)
    (hids : IdsAbove l.runner.queue (liveStep set db g l e).live.runner.queue) :
    ∃ c', LiveSafe set (liveStep set db g l e).db c' (liveStep set db g l e).live := by
  cases e with
  | tune config => exact ⟨c, h.tuneStep config⟩
  | poll clock notify due => exact ⟨c, h.pollStep clock notify due hids⟩
  | count error => exact ⟨c, h.countStep error⟩
  | work clock replies => exact ⟨c, h.workStep clock replies hids⟩
  | stop => exact ⟨c, h.stopStep⟩
  | flush clock notify => exact ⟨c, h.flushStep clock notify hids⟩
  | drain clock notify tuned due published =>
    exact ⟨c, h.drainStep clock notify tuned due published hids⟩
  | save outcome => exact h.saveStep outcome
  | insertCommits i createdAt => exact ⟨c, h.insertCommitsStep i createdAt⟩
  | insertReturns i error => exact ⟨c, h.insertReturnsStep i error⟩
  | fetchRuns error => exact ⟨c, h.fetchRunsStep error⟩
  | cleanupRuns room error => exact ⟨c, h.cleanupRunsStep room error⟩
  | reboot _ | expireLease | renewLease | build _ | activate _ | leave _ => exact ⟨c, h⟩

end

end Gammaboard.Runners
