import Gammaboard.Runners.QueueInvariant
import Gammaboard.Runners.SamplerAggregator

/-!
# What the calls of the aggregator change

One lemma for each call: what the ingestion of a group of completed batches,
the production of new ones and a save leave of the counters and of the queue.
-/

namespace Gammaboard.Runners

open Gammaboard.Core Gammaboard.Stores Gammaboard.Lib Gammaboard.Sampling Gammaboard.Evaluation

variable {V P A M C Res : Type}

/-! ## Settings of the queue -/

/-- The queues differ at most in the tuned sizes and the evaluator count. -/
def Retuned (q q' : SamplerQueue P C Res) : Prop :=
  ∃ size cached sizing, q' = { q with
    checkpoint := { q.checkpoint with batchSizeCurrent := size }
    cachedActiveEvaluatorCount := cached
    trainingBatchSizing := sizing }

theorem Retuned.refl (q : SamplerQueue P C Res) : Retuned q q :=
  ⟨q.checkpoint.batchSizeCurrent, q.cachedActiveEvaluatorCount, q.trainingBatchSizing, rfl⟩

theorem Retuned.trans {q q' q'' : SamplerQueue P C Res} (h : Retuned q q') (h' : Retuned q' q'') :
    Retuned q q'' := by
  obtain ⟨size, cached, sizing, rfl⟩ := h
  obtain ⟨size', cached', sizing', rfl⟩ := h'
  exact ⟨size', cached', sizing', rfl⟩

theorem QueueInv.retuned {rows : List (BatchRow (EvaluationBatch P C) Res)}
    {c : SamplerAggregatorCheckpoint V P A M} {q q' : SamplerQueue P C Res} (h : QueueInv rows c q)
    (hr : Retuned q q') : QueueInv rows c q' := by
  obtain ⟨size, cached, sizing, rfl⟩ := hr
  exact { h with }

theorem Retuned.kept {q q' : SamplerQueue P C Res} (h : Retuned q q') :
    q'.ahead = q.ahead ∧ q'.passed = q.passed ∧ q'.insertError = q.insertError ∧
      q'.pendingProcessedFetch = q.pendingProcessedFetch ∧ q'.allocated = q.allocated ∧
      q'.handed = q.handed ∧ q'.pendingInsert = q.pendingInsert ∧
      q'.pendingInsertTasks = q.pendingInsertTasks ∧ q'.runId = q.runId ∧ q'.taskId = q.taskId := by
  obtain ⟨size, cached, sizing, rfl⟩ := h
  exact ⟨rfl, rfl, rfl, rfl, rfl, rfl, rfl, rfl, rfl, rfl⟩

theorem Retuned.config {q q' : SamplerQueue P C Res} (h : Retuned q q') : q'.config = q.config := by
  obtain ⟨size, cached, sizing, rfl⟩ := h
  rfl

theorem retuned_tuned (size : Nat) (q : SamplerQueue P C Res) : Retuned q (q.tuned size) :=
  ⟨_, q.cachedActiveEvaluatorCount, q.trainingBatchSizing, rfl⟩

theorem retuned_productionBatchSize (remaining : Option Nat) (q : SamplerQueue P C Res) :
    Retuned q (q.productionBatchSize remaining).1 :=
  ⟨q.checkpoint.batchSizeCurrent, q.cachedActiveEvaluatorCount, _, rfl⟩

namespace SamplerAggregatorRunner

variable (kit : Kit V P A M C) {r r' : SamplerAggregatorRunner V P A M C}

/-! ## Ingestion -/

/-- What the ingestion of batches leaves alone. -/
structure Ingesting (r r' : SamplerAggregatorRunner V P A M C) : Prop where
  task : r'.task = r.task
  queue : r'.queue = r.queue
  nrProducedSamples : r'.nrProducedSamples = r.nrProducedSamples
  nrCompletedSamples : r'.nrCompletedSamples = r.nrCompletedSamples
  producedSamplesTotal : r'.runtimeState.producedSamplesTotal = r.runtimeState.producedSamplesTotal
  pending : r'.runtimeState.generation.pending = r.runtimeState.generation.pending
  campaignManaged : r'.campaignManaged = r.campaignManaged

theorem Ingesting.refl (r : SamplerAggregatorRunner V P A M C) : Ingesting r r :=
  ⟨rfl, rfl, rfl, rfl, rfl, rfl, rfl⟩

theorem Ingesting.trans {r'' : SamplerAggregatorRunner V P A M C} (h : Ingesting r r')
    (h' : Ingesting r' r'') : Ingesting r r'' :=
  ⟨h'.task.trans h.task, h'.queue.trans h.queue, h'.nrProducedSamples.trans h.nrProducedSamples,
    h'.nrCompletedSamples.trans h.nrCompletedSamples,
    h'.producedSamplesTotal.trans h.producedSamplesTotal, h'.pending.trans h.pending,
    h'.campaignManaged.trans h.campaignManaged⟩

theorem ingestTraining_ingesting (b : CompletedBatch (BatchResult V A))
    (r : SamplerAggregatorRunner V P A M C) : Ingesting r (ingestTraining kit b r).1 := by
  unfold ingestTraining
  split
  · exact .refl r
  · split
    · exact .refl r
    · split
      · exact .refl r
      · rename_i haccepted
        have hpending := GenerationBuffer.acceptFeedback_pending haccepted
        split
        · exact ⟨rfl, rfl, rfl, rfl, rfl, hpending, rfl⟩
        · dsimp only
          split <;> exact ⟨rfl, rfl, rfl, rfl, rfl, hpending, rfl⟩

theorem ingestAccumulator_ingesting (b : CompletedBatch (BatchResult V A))
    (r : SamplerAggregatorRunner V P A M C) : Ingesting r (ingestAccumulator kit b r).1 := by
  unfold ingestAccumulator
  split <;> exact ⟨rfl, rfl, rfl, rfl, rfl, rfl, rfl⟩

theorem ingestBatch_ingesting (b : CompletedBatch (BatchResult V A))
    (r : SamplerAggregatorRunner V P A M C) : Ingesting r (ingestBatch kit b r).1 := by
  have htraining := ingestTraining_ingesting kit b r
  unfold ingestBatch
  split
  · split
    · rename_i heq
      exact heq ▸ htraining
    · rename_i heq
      rw [heq] at htraining
      exact htraining.trans (ingestAccumulator_ingesting kit b _)
  · exact ingestAccumulator_ingesting kit b r

theorem ingestAll_ingesting (completed : List (CompletedBatch (BatchResult V A)))
    (r : SamplerAggregatorRunner V P A M C) : Ingesting r (ingestAll kit completed r).1 := by
  induction completed generalizing r with
  | nil => exact .refl r
  | cons b rest ih =>
    have hbatch := ingestBatch_ingesting kit b r
    unfold ingestAll
    split
    · rename_i heq
      exact heq ▸ hbatch
    · rename_i heq
      rw [heq] at hbatch
      exact hbatch.trans (ih _)

/-- How `process_completed_batches` ends: with nothing to do, refused at the first check, in the
middle of the loop, or with the whole group. -/
inductive Processed (kit : Kit V P A M C) (completed : List (CompletedBatch (BatchResult V A)))
    (tuned : Nat) (due : Bool) (r : SamplerAggregatorRunner V P A M C) :
    SamplerAggregatorRunner V P A M C × Except RunnerError CompletedIngestStats → Prop where
  | nothing (h : completed = []) : Processed kit completed tuned due r (r, .ok ⟨0, 0⟩)
  | otherTask (b : CompletedBatch (BatchResult V A)) (hb : b ∈ completed)
      (htask : b.taskId ≠ r.task.id) (message : String) :
      Processed kit completed tuned due r (r, .error (.store (.store message)))
  | refused (htask : ∀ b ∈ completed, b.taskId = r.task.id)
      (r₁ : SamplerAggregatorRunner V P A M C) (e : EngineError)
      (h : ingestAll kit completed { r with queue := r.queue.tuned tuned } = (r₁, some e)) :
      Processed kit completed tuned due r (r₁, .error (.engine e))
  | whole (hne : completed ≠ []) (htask : ∀ b ∈ completed, b.taskId = r.task.id)
      (r₁ : SamplerAggregatorRunner V P A M C)
      (h : ingestAll kit completed { r with queue := r.queue.tuned tuned } = (r₁, none)) :
      Processed kit completed tuned due r
        (r₁.finishIngest completed due, .ok ⟨completed.length, sizeOf completed⟩)

theorem processed (completed : List (CompletedBatch (BatchResult V A))) (tuned : Nat) (due : Bool)
    (r : SamplerAggregatorRunner V P A M C) :
    Processed kit completed tuned due r (processCompletedBatches kit completed tuned due r) := by
  unfold processCompletedBatches
  split
  · rename_i hempty
    exact .nothing (List.isEmpty_iff.1 hempty)
  · rename_i hempty
    split
    · rename_i b hb
      have htask := List.find?_some hb
      exact .otherTask b (List.mem_of_find?_eq_some hb) (by simpa using htask) _
    · rename_i hnone
      have htask : ∀ b ∈ completed, b.taskId = r.task.id := by
        intro b hb
        simpa using List.find?_eq_none.1 hnone b hb
      cases hall : ingestAll kit completed { r with queue := r.queue.tuned tuned } with
      | mk r₁ refused =>
        cases refused with
        | some e => exact .refused htask r₁ e hall
        | none => exact .whole (fun hnil => hempty (by simp [hnil])) htask r₁ hall

/-- Ingestion gives no ids. -/
theorem processCompletedBatches_allocated (completed : List (CompletedBatch (BatchResult V A)))
    (tuned : Nat) (due : Bool) (r : SamplerAggregatorRunner V P A M C) :
    (processCompletedBatches kit completed tuned due r).1.queue.allocated = r.queue.allocated := by
  have hcases := processed kit completed tuned due r
  have hkeeps := ingestAll_ingesting kit completed { r with queue := r.queue.tuned tuned }
  generalize processCompletedBatches kit completed tuned due r = out at hcases
  cases hcases with
  | nothing h => rfl
  | otherTask b hb htask message => rfl
  | refused htask r₁ e hall =>
    rw [hall] at hkeeps
    show r₁.queue.allocated = _
    rw [hkeeps.queue]
    rfl
  | whole hne htask r₁ hall =>
    rw [hall] at hkeeps
    show (r₁.queue.markProcessed completed due).allocated = _
    rw [(SamplerQueue.markProcessed_marked completed due r₁.queue).allocated, hkeeps.queue]
    rfl

/-- Nor does it change the settings. -/
theorem processCompletedBatches_config (completed : List (CompletedBatch (BatchResult V A)))
    (tuned : Nat) (due : Bool) (r : SamplerAggregatorRunner V P A M C) :
    (processCompletedBatches kit completed tuned due r).1.queue.config = r.queue.config := by
  have hcases := processed kit completed tuned due r
  have hkeeps := ingestAll_ingesting kit completed { r with queue := r.queue.tuned tuned }
  generalize processCompletedBatches kit completed tuned due r = out at hcases
  cases hcases with
  | nothing h => rfl
  | otherTask b hb htask message => rfl
  | refused htask r₁ e hall =>
    rw [hall] at hkeeps
    show r₁.queue.config = _
    rw [hkeeps.queue]
    rfl
  | whole hne htask r₁ hall =>
    rw [hall] at hkeeps
    show (r₁.queue.markProcessed completed due).config = _
    rw [(SamplerQueue.markProcessed_marked completed due r₁.queue).config, hkeeps.queue]
    rfl

/-! ## Production -/

/-- What the production of this many samples leaves of the runner. -/
structure Producing (r r' : SamplerAggregatorRunner V P A M C) (sent : Int) : Prop where
  task : r'.task = r.task
  observableState : r'.observableState = r.observableState
  nrCompletedSamples : r'.nrCompletedSamples = r.nrCompletedSamples
  merged : r'.merged = r.merged
  fed : r'.fed = r.fed
  nrProducedSamples : r'.nrProducedSamples = r.nrProducedSamples + sent
  producedSamplesTotal :
    r'.runtimeState.producedSamplesTotal = r.runtimeState.producedSamplesTotal + sent

theorem Producing.trans {r'' : SamplerAggregatorRunner V P A M C} {sent : Int}
    (h : Producing r r' 0) (h' : Producing r' r'' sent) : Producing r r'' sent where
  task := h'.task.trans h.task
  observableState := h'.observableState.trans h.observableState
  nrCompletedSamples := h'.nrCompletedSamples.trans h.nrCompletedSamples
  merged := h'.merged.trans h.merged
  fed := h'.fed.trans h.fed
  nrProducedSamples := by rw [h'.nrProducedSamples, h.nrProducedSamples, add_zero]
  producedSamplesTotal := by rw [h'.producedSamplesTotal, h.producedSamplesTotal, add_zero]

/-- How production ends: with the queue's settings changed at most, or with batches sent. -/
inductive Produces (src : IdSource) (r : SamplerAggregatorRunner V P A M C) :
    IdSource × SamplerAggregatorRunner V P A M C × Except RunnerError (Nat × Bool) → Prop where
  | nothing (r' : SamplerAggregatorRunner V P A M C) (result : Except RunnerError (Nat × Bool))
      (hq : Retuned r.queue r'.queue) (h : Producing r r' 0) : Produces src r (src, r', result)
  | sent (src' : IdSource) (r' : SamplerAggregatorRunner V P A M C)
      (q : SamplerQueue P C (BatchResult V A)) (hq : Retuned r.queue q)
      (batches : List (EvaluationBatch P C)) (requiresFeedback : Bool)
      (hqueue : q.ingest batches requiresFeedback src = (src', r'.queue))
      (h : Producing r r' (batches.map fun b => (b.samples.nrSamples : Int)).sum) (wants : Bool) :
      Produces src r (src', r', .ok (batches.length, wants))

theorem Produces.after {src : IdSource}
    {out : IdSource × SamplerAggregatorRunner V P A M C × Except RunnerError (Nat × Bool)}
    (hq : Retuned r.queue r'.queue) (h : Producing r r' 0) (h' : Produces src r' out) :
    Produces src r out := by
  cases h' with
  | nothing r'' result hq' h' => exact .nothing r'' result (hq.trans hq') (h.trans h')
  | sent src' r'' q hq' batches requiresFeedback hqueue h' wants =>
    exact .sent src' r'' q (hq.trans hq') batches requiresFeedback hqueue (h.trans h') wants

theorem enqueueGenerated_produces (slots chunkSize : Nat) (src : IdSource)
    (r : SamplerAggregatorRunner V P A M C) (wants : Bool) :
    Produces src r ((enqueueGenerated kit slots chunkSize src r).1,
      (enqueueGenerated kit slots chunkSize src r).2.1,
      (enqueueGenerated kit slots chunkSize src r).2.2.map fun count => (count, wants)) := by
  unfold enqueueGenerated
  split
  · exact .nothing _ _ (.refl _) ⟨rfl, rfl, rfl, rfl, rfl, (add_zero _).symm, (add_zero _).symm⟩
  · rename_i generation batches htake
    have hlen : batches.length = (batches.map fun b =>
        (⟨b, kit.sampler.request r.observableState⟩ : EvaluationBatch P C)).length := by simp
    simp only [Except.map]
    rw [hlen]
    refine .sent _ _ r.queue (.refl _) _ r.runtimeState.generation.requiresFeedback rfl ?_ wants
    refine ⟨rfl, rfl, rfl, rfl, rfl, ?_, ?_⟩ <;> simp [Function.comp_def]

/-- A change of the settings, the sampler or the draws, before anything is sent. -/
theorem Producing.zero (ht : r'.task = r.task) (ho : r'.observableState = r.observableState)
    (hc : r'.nrCompletedSamples = r.nrCompletedSamples) (hm : r'.merged = r.merged)
    (hf : r'.fed = r.fed) (hp : r'.nrProducedSamples = r.nrProducedSamples)
    (ht' : r'.runtimeState.producedSamplesTotal = r.runtimeState.producedSamplesTotal) :
    Producing r r' 0 :=
  ⟨ht, ho, hc, hm, hf, by rw [hp, add_zero], by rw [ht', add_zero]⟩

theorem enqueueSlots_produces (src : IdSource) (r : SamplerAggregatorRunner V P A M C) :
    Produces src r (enqueueSlots kit src r) := by
  unfold enqueueSlots
  dsimp only
  split
  · refine .after ?_ ?_ (enqueueGenerated_produces kit _ _ _ _ true)
    · exact .refl _
    · exact .zero rfl rfl rfl rfl rfl rfl rfl
  · refine .after ?_ ?_ (enqueueGenerated_produces kit _ _ _ _ true)
    · exact retuned_productionBatchSize _ r.queue
    · exact .zero rfl rfl rfl rfl rfl rfl rfl

theorem generateDraw_producing (maxSamples : Nat) (r : SamplerAggregatorRunner V P A M C) :
    Producing r (generateDraw kit maxSamples r).1 0 ∧
      (generateDraw kit maxSamples r).1.queue = r.queue := by
  unfold generateDraw
  split
  · exact ⟨.zero rfl rfl rfl rfl rfl rfl rfl, rfl⟩
  · exact ⟨.zero rfl rfl rfl rfl rfl rfl rfl, rfl⟩
  · exact ⟨.zero rfl rfl rfl rfl rfl rfl rfl, rfl⟩
  · dsimp only
    split
    · exact ⟨.zero rfl rfl rfl rfl rfl rfl rfl, rfl⟩
    · split <;> exact ⟨.zero rfl rfl rfl rfl rfl rfl rfl, rfl⟩

theorem prepareDraw_producing (counts : BatchQueueCounts) (replies : ProduceReplies)
    (r : SamplerAggregatorRunner V P A M C) :
    Producing r (prepareDraw kit counts replies r).1 0 ∧
      Retuned r.queue (prepareDraw kit counts replies r).1.queue := by
  have hsame : Producing r r 0 := .zero rfl rfl rfl rfl rfl rfl rfl
  unfold prepareDraw
  split
  · exact ⟨hsame, .refl _⟩
  split
  · exact ⟨hsame, .refl _⟩
  split
  · exact ⟨hsame, .refl _⟩
  split
  · exact ⟨hsame, .refl _⟩
  split
  · exact ⟨hsame, .refl _⟩
  split
  · exact ⟨hsame, .refl _⟩
  rename_i evaluators _
  have hcached : Retuned r.queue { r.queue with cachedActiveEvaluatorCount := some evaluators } :=
    ⟨_, _, _, rfl⟩
  dsimp only
  split
  · exact ⟨.zero rfl rfl rfl rfl rfl rfl rfl, hcached⟩
  split
  · exact ⟨.zero rfl rfl rfl rfl rfl rfl rfl, hcached⟩
  split
  · exact ⟨.zero rfl rfl rfl rfl rfl rfl rfl, hcached⟩
  · constructor
    · refine .trans ?_ (generateDraw_producing kit _ _).1
      exact .zero rfl rfl rfl rfl rfl rfl rfl
    · rw [(generateDraw_producing kit _ _).2]
      exact hcached

theorem produce_produces (counts : BatchQueueCounts) (replies : ProduceReplies) (src : IdSource)
    (r : SamplerAggregatorRunner V P A M C) :
    Produces src r (produce kit counts replies src r) := by
  have hwaiting : Producing r { r with waitingForCampaignBudget := false } 0 :=
    .zero rfl rfl rfl rfl rfl rfl rfl
  unfold produce
  dsimp only
  split
  · exact .nothing _ _ (.refl _) hwaiting
  split
  · refine .after ?_ ?_ (enqueueSlots_produces kit src _)
    · exact .refl _
    · exact hwaiting
  · split
    · rename_i r₁ result heq
      have hprepared := prepareDraw_producing kit counts replies
        { r with waitingForCampaignBudget := false }
      rw [heq] at hprepared
      exact .nothing _ _ hprepared.2 (hwaiting.trans hprepared.1)
    · rename_i r₁ heq
      have hprepared := prepareDraw_producing kit counts replies
        { r with waitingForCampaignBudget := false }
      rw [heq] at hprepared
      exact .after hprepared.2 (hwaiting.trans hprepared.1) (enqueueSlots_produces kit src r₁)

/-- How the rest of a tick ends: refused while it ingests, or after it has produced. The task
is done when the last check says so. -/
theorem work_cases (taken : List (CompletedBatch (BatchResult V A))) (counts : BatchQueueCounts)
    (replies : TickReplies) (src : IdSource) (r : SamplerAggregatorRunner V P A M C) :
    (∃ r₁ e, processCompletedBatches kit taken replies.tuned replies.cleanupDue r = (r₁, .error e) ∧
      work kit taken counts replies src r = (src, r₁, .error e)) ∨
    ∃ r₁ stats src₂ r₂ sent result,
      processCompletedBatches kit taken replies.tuned replies.cleanupDue r = (r₁, .ok stats) ∧
      Produces src r₁ (src₂, r₂, sent) ∧
      work kit taken counts replies src r = (src₂, r₂, result) ∧
      (result = .ok true → ∃ producedBatches wants, sent = .ok (producedBatches, wants) ∧
        checkTickTerminalState kit
          { counts with completed := counts.completed - stats.completedBatches }
          stats.completedBatches producedBatches wants r₂ = .ok true) := by
  unfold work
  split
  · rename_i r₁ e hp
    exact .inl ⟨r₁, e, hp, rfl⟩
  · rename_i r₁ stats hp
    have hproduces := produce_produces kit
      { counts with completed := counts.completed - stats.completedBatches } replies.produce src r₁
    dsimp only
    generalize produce kit { counts with completed := counts.completed - stats.completedBatches }
      replies.produce src r₁ = out at hproduces
    obtain ⟨src₂, r₂, sent⟩ := out
    refine .inr ⟨r₁, stats, src₂, r₂, sent, ?_⟩
    cases sent with
    | error e => exact ⟨.error e, hp, hproduces, rfl, fun hr => by cases hr⟩
    | ok produced =>
      cases replies.published with
      | error e => exact ⟨.error e, hp, hproduces, rfl, fun hr => by cases hr⟩
      | ok u => exact ⟨_, hp, hproduces, rfl, fun hr => ⟨_, _, rfl, hr⟩⟩

/-! ## Checkpoints -/

/-- The checkpoint holds the state of the runner. -/
structure Saves (r : SamplerAggregatorRunner V P A M C) (c : SamplerAggregatorCheckpoint V P A M) :
    Prop where
  completedSamples : c.completedSamples = r.nrCompletedSamples
  taskId : c.taskId = r.task.id
  observableState : c.observableState = r.observableState
  runtimeState : c.runtimeState = r.runtimeState
  queue : c.queue = r.queue.checkpoint
  allocated : c.allocated = r.queue.allocated
  handed : c.handed = r.queue.handed.filter fun id => decide (id ≤ r.queue.checkpoint.completed)
  merged : c.merged = r.merged
  fed : c.fed = r.fed

/-- A save keeps the runner and writes down its state. -/
theorem checkpoint_ok {c : SamplerAggregatorCheckpoint V P A M}
    (h : r.checkpoint kit = (r', .ok c)) : (∃ sampler, r' = { r with sampler }) ∧ Saves r c := by
  unfold checkpoint at h
  split at h
  · cases h
  · cases h
    exact ⟨⟨_, rfl⟩, ⟨rfl, rfl, rfl, rfl, rfl, rfl, rfl, rfl, rfl⟩⟩

theorem checkpoint_error {e : RunnerError} (h : r.checkpoint kit = (r', .error e)) :
    ∃ sampler, r' = { r with sampler } := by
  unfold checkpoint at h
  split at h
  · cases h
    exact ⟨_, rfl⟩
  · cases h

end SamplerAggregatorRunner

end Gammaboard.Runners
