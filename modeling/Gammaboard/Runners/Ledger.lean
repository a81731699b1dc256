import Gammaboard.Runners.SamplerRuns

/-!
# What the accumulator holds

`Ledger` says what a runner or a checkpoint has merged: batches in ascending
order up to its completion cursor, whose results make its accumulator and whose
sizes make its sample counter. Every step keeps it as long as no ingestion fails
after it has changed something; neither the ids nor other runners matter.
-/

namespace Gammaboard.Runners

open Gammaboard.Core Gammaboard.Stores Gammaboard.Lib Gammaboard.Sampling Gammaboard.Evaluation

variable {V P A M C : Type} {set : Setting V P A M C}

/-! ## Ledgers -/

/-- The result has passed the checks of the evaluator. -/
def Setting.Valid (set : Setting V P A M C) (b : CompletedBatch (BatchResult V A)) : Prop :=
  b.result.validateForBatch set.kit.sampler.finite set.kit.accumulator b.batchSize
    b.requiresTrainingValues = .ok ()

/-- Batches that may be merged next: in ascending order, above the cursor. -/
structure NextBatches (set : Setting V P A M C) (cursor : Int)
    (group : List (CompletedBatch (BatchResult V A))) : Prop where
  ascend : Ascends CompletedBatch.batchId group
  above : ∀ b ∈ group, cursor < b.batchId
  valid : ∀ b ∈ group, set.Valid b

theorem NextBatches.nil (set : Setting V P A M C) (cursor : Int) : NextBatches set cursor [] :=
  ⟨.nil, by simp, by simp⟩

/-- The ids of the batches that carry feedback. -/
def trainingIds (group : List (CompletedBatch (BatchResult V A))) : List Int :=
  (group.filter (·.requiresTrainingValues)).map (·.batchId)

/-- The accumulator holds exactly the results of `merged`, which lie at or below the cursor, and
the counter is the sum of their sizes. -/
structure Ledger (set : Setting V P A M C) (merged : List (CompletedBatch (BatchResult V A)))
    (fed : List Int) (state : A) (completedSamples cursor : Int) : Prop where
  ascend : Ascends CompletedBatch.batchId merged
  below : ∀ b ∈ merged, b.batchId ≤ cursor
  valid : ∀ b ∈ merged, set.Valid b
  fed : fed = trainingIds merged
  state : set.kit.accumulator.mergeAll set.startState (merged.map (·.result.accumulator)) = some state
  samples : completedSamples = SamplerAggregatorRunner.sizeOf merged

/-- Ascending batches end with the largest id. -/
theorem le_lastBatch {group : List (CompletedBatch (BatchResult V A))}
    (h : Ascends CompletedBatch.batchId group) {last b : CompletedBatch (BatchResult V A)}
    (hlast : group.getLast? = some last) (hb : b ∈ group) : b.batchId ≤ last.batchId := by
  obtain ⟨init, rfl⟩ := List.getLast?_eq_some_iff.1 hlast
  rcases List.mem_append.1 hb with hb | hb
  · exact ((List.pairwise_append.1 h).2.2 b hb last (by simp)).le
  · rw [List.mem_singleton.1 hb]

theorem Ledger.extend {merged group : List (CompletedBatch (BatchResult V A))} {fed : List Int}
    {state state' : A} {completedSamples cursor : Int}
    (h : Ledger set merged fed state completedSamples cursor) (hg : NextBatches set cursor group)
    (hstate : set.kit.accumulator.mergeAll state (group.map (·.result.accumulator)) = some state')
    {last : CompletedBatch (BatchResult V A)} (hlast : group.getLast? = some last) :
    Ledger set (merged ++ group) (fed ++ trainingIds group) state'
      (completedSamples + SamplerAggregatorRunner.sizeOf group) last.batchId where
  ascend := h.ascend.append hg.ascend fun x hx y hy => (h.below x hx).trans_lt (hg.above y hy)
  below := by
    intro b hb
    rcases List.mem_append.1 hb with hb | hb
    · exact (h.below b hb).trans (hg.above last (List.mem_of_getLast? hlast)).le
    · exact le_lastBatch hg.ascend hlast hb
  valid := by
    intro b hb
    rcases List.mem_append.1 hb with hb | hb
    · exact h.valid b hb
    · exact hg.valid b hb
  fed := by simp [h.fed, trainingIds]
  state := by
    rw [List.map_append, AccumulatorOps.mergeAll_append, h.state]
    exact hstate
  samples := by simp [h.samples, SamplerAggregatorRunner.sizeOf]

/-- For an accumulator that counts one sample for each input, the samples gained are the samples
completed. -/
theorem Ledger.gained {merged : List (CompletedBatch (BatchResult V A))} {fed : List Int} {state : A}
    {completedSamples cursor : Int} (h : Ledger set merged fed state completedSamples cursor)
    (hstart : set.kit.accumulator.onePerInput set.startState = true) :
    set.kit.accumulator.sampleCount state - set.kit.accumulator.sampleCount set.startState =
      completedSamples := by
  obtain ⟨hone, hcount⟩ := set.kit.accumulator.mergeAll_counts h.state hstart
  have hsizes : (merged.map (·.result.accumulator)).map set.kit.accumulator.sampleCount =
      merged.map fun b => (b.batchSize : Int) := by
    rw [List.map_map]
    refine List.map_congr_left fun b hb => ?_
    exact BatchResult.sampleCount_of_valid (h.valid b hb)
      (hone _ (List.mem_map_of_mem hb))
  rw [hcount, hsizes, h.samples, SamplerAggregatorRunner.sizeOf]
  omega

/-! ## Ingestion -/

namespace SamplerAggregatorRunner

variable (kit : Kit V P A M C)

/-- Ingestion does not look at the queue. -/
theorem ingestBatch_queue (b : CompletedBatch (BatchResult V A)) (r : SamplerAggregatorRunner V P A M C)
    (q : SamplerQueue P C (BatchResult V A)) :
    ingestBatch kit b { r with queue := q } =
      ({ (ingestBatch kit b r).1 with queue := q }, (ingestBatch kit b r).2) := by
  have haccumulator : ∀ r : SamplerAggregatorRunner V P A M C,
      ingestAccumulator kit b { r with queue := q } =
        ({ (ingestAccumulator kit b r).1 with queue := q }, (ingestAccumulator kit b r).2) := by
    intro r
    simp only [ingestAccumulator]
    split <;> rfl
  have htraining : ingestTraining kit b { r with queue := q } =
      ({ (ingestTraining kit b r).1 with queue := q }, (ingestTraining kit b r).2) := by
    simp only [ingestTraining]
    split
    · rfl
    · split
      · rfl
      · split
        · rfl
        · split
          · rfl
          · split <;> rfl
  unfold ingestBatch
  split
  · rw [htraining]
    cases hout : ingestTraining kit b r with
    | mk r₁ refused =>
      cases refused with
      | some e => rfl
      | none => exact haccumulator r₁
  · exact haccumulator r

theorem ingestAll_queue (completed : List (CompletedBatch (BatchResult V A)))
    (r : SamplerAggregatorRunner V P A M C) (q : SamplerQueue P C (BatchResult V A)) :
    ingestAll kit completed { r with queue := q } =
      ({ (ingestAll kit completed r).1 with queue := q }, (ingestAll kit completed r).2) := by
  induction completed generalizing r with
  | nil => rfl
  | cons b rest ih =>
    unfold ingestAll
    rw [ingestBatch_queue]
    cases hout : ingestBatch kit b r with
    | mk r₁ refused =>
      cases refused with
      | some e => rfl
      | none => exact ih r₁

/-- What the records hold after batches have been ingested. -/
structure Recorded (r r' : SamplerAggregatorRunner V P A M C)
    (group : List (CompletedBatch (BatchResult V A))) : Prop where
  merged : r'.merged = r.merged ++ group
  fed : r'.fed = r.fed ++ trainingIds group
  state : kit.accumulator.mergeAll r.observableState (group.map (·.result.accumulator)) =
    some r'.observableState

variable {kit}

theorem ingestTraining_ok {b : CompletedBatch (BatchResult V A)}
    {r r' : SamplerAggregatorRunner V P A M C} (h : ingestTraining kit b r = (r', none)) :
    r'.merged = r.merged ∧ r'.observableState = r.observableState ∧
      r'.fed = r.fed ++ [b.batchId] := by
  unfold ingestTraining at h
  split at h
  · cases h
  · split at h
    · cases h
    · split at h
      · cases h
      · dsimp only at h
        split at h
        · cases h
          exact ⟨rfl, rfl, rfl⟩
        · split at h
          · cases h
          · cases h
            exact ⟨rfl, rfl, rfl⟩

theorem ingestAccumulator_ok {b : CompletedBatch (BatchResult V A)}
    {r r' : SamplerAggregatorRunner V P A M C} (h : ingestAccumulator kit b r = (r', none)) :
    r'.merged = r.merged ++ [b] ∧ r'.fed = r.fed ∧
      kit.accumulator.merge r.observableState b.result.accumulator = (r'.observableState, none) := by
  unfold ingestAccumulator at h
  split at h
  · cases h
  · rename_i state hmerge
    cases h
    exact ⟨rfl, rfl, hmerge⟩

theorem ingestBatch_ok {b : CompletedBatch (BatchResult V A)}
    {r r' : SamplerAggregatorRunner V P A M C} (h : ingestBatch kit b r = (r', none)) :
    Recorded kit r r' [b] := by
  unfold ingestBatch at h
  split at h
  · rename_i htraining
    split at h
    · cases h
    · rename_i r₁ hout
      obtain ⟨hmerged, hstate, hfed⟩ := ingestTraining_ok hout
      obtain ⟨hmerged', hfed', hmerge⟩ := ingestAccumulator_ok h
      refine ⟨hmerged'.trans (by rw [hmerged]), ?_, ?_⟩
      · rw [hfed', hfed]
        simp [trainingIds, htraining]
      · rw [hstate] at hmerge
        simp [AccumulatorOps.mergeAll, hmerge]
  · rename_i htraining
    obtain ⟨hmerged, hfed, hmerge⟩ := ingestAccumulator_ok h
    refine ⟨hmerged, ?_, ?_⟩
    · rw [hfed]
      simp [trainingIds, htraining]
    · simp [AccumulatorOps.mergeAll, hmerge]

theorem Recorded.trans {r r' r'' : SamplerAggregatorRunner V P A M C}
    {group group' : List (CompletedBatch (BatchResult V A))} (h : Recorded kit r r' group)
    (h' : Recorded kit r' r'' group') : Recorded kit r r'' (group ++ group') where
  merged := by rw [h'.merged, h.merged, List.append_assoc]
  fed := by rw [h'.fed, h.fed]; simp [trainingIds]
  state := by
    rw [List.map_append, AccumulatorOps.mergeAll_append, h.state]
    exact h'.state

theorem ingestAll_ok {completed : List (CompletedBatch (BatchResult V A))}
    {r r' : SamplerAggregatorRunner V P A M C} (h : ingestAll kit completed r = (r', none)) :
    Recorded kit r r' completed := by
  induction completed generalizing r with
  | nil =>
    cases h
    exact ⟨by simp, by simp [trainingIds], rfl⟩
  | cons b rest ih =>
    unfold ingestAll at h
    split at h
    · cases h
    · rename_i r₁ hout
      exact (ingestBatch_ok hout).trans (ih h)

/-- A batch that is refused at the first check changes nothing. -/
theorem ingestAll_refused {b : CompletedBatch (BatchResult V A)}
    (rest : List (CompletedBatch (BatchResult V A))) {r : SamplerAggregatorRunner V P A M C}
    (h : if b.requiresTrainingValues then TrainingRefused kit r b else AccumulatorRefused kit r b) :
    ∃ e, ingestAll kit (b :: rest) r = (r, some e) := by
  have hbatch : ∃ e, ingestBatch kit b r = (r, some e) := by
    unfold ingestBatch
    split at h
    · rename_i hrequires
      have htraining : ∃ e, ingestTraining kit b r = (r, some e) := by
        unfold ingestTraining
        cases hfeedback : b.result.feedback with
        | none => exact ⟨_, rfl⟩
        | some values =>
          by_cases hlen : values.len = b.batchSize
          · obtain ⟨e, he⟩ := h values hfeedback hlen
            exact ⟨e, by simp [hlen, he]⟩
          · exact ⟨_, if_pos hlen⟩
      obtain ⟨e, he⟩ := htraining
      exact ⟨e, by rw [if_pos hrequires, he]⟩
    · rename_i hrequires
      obtain ⟨e, he⟩ := h
      exact ⟨e, by rw [if_neg hrequires, ingestAccumulator, he]⟩
  obtain ⟨e, he⟩ := hbatch
  exact ⟨e, by rw [ingestAll, he]⟩

end SamplerAggregatorRunner

theorem CleanIngest.withQueue {kit : Kit V P A M C} {r : SamplerAggregatorRunner V P A M C}
    {completed : List (CompletedBatch (BatchResult V A))} (h : CleanIngest kit r completed)
    (q : SamplerQueue P C (BatchResult V A)) : CleanIngest kit { r with queue := q } completed := by
  rcases h with hok | htask | hfirst
  · refine .inl ?_
    rw [SamplerAggregatorRunner.ingestAll_queue]
    exact hok
  · exact .inr (.inl htask)
  · exact .inr (.inr hfirst)

/-! ## The queue -/

/-- The prefetch is that of the cursor, and what it has come back with may be merged next. -/
structure Lined (set : Setting V P A M C) (q : SamplerQueue P C (BatchResult V A)) : Prop where
  ready : q.readyProcessed = []
  fetch : ∀ f ∈ q.pendingProcessedFetch,
    f.afterBatchId = q.checkpoint.lastCompletedBatchId ∧
      ∀ completed, f.outcome = some (.ok completed) → NextBatches set q.checkpoint.completed completed

/-- The cursor rests and at most the prefetch is given up. -/
structure SameLine (q q' : SamplerQueue P C (BatchResult V A)) : Prop where
  cursor : q'.checkpoint.lastCompletedBatchId = q.checkpoint.lastCompletedBatchId
  ready : q'.readyProcessed = q.readyProcessed
  fetch : ∀ f ∈ q'.pendingProcessedFetch, f ∈ q.pendingProcessedFetch

section

variable {q q' q'' : SamplerQueue P C (BatchResult V A)}

theorem SameLine.refl (q : SamplerQueue P C (BatchResult V A)) : SameLine q q :=
  ⟨rfl, rfl, fun _ hf => hf⟩

theorem SameLine.trans (h : SameLine q q') (h' : SameLine q' q'') : SameLine q q'' :=
  ⟨h'.cursor.trans h.cursor, h'.ready.trans h.ready, fun f hf => h.fetch f (h'.fetch f hf)⟩

theorem SameLine.completed (h : SameLine q q') :
    q'.checkpoint.completed = q.checkpoint.completed := by
  simp only [SamplerQueueCheckpoint.completed, h.cursor]

theorem SameLine.fetch_none (h : SameLine q q') (hq : q.pendingProcessedFetch = none) :
    q'.pendingProcessedFetch = none := by
  cases hq' : q'.pendingProcessedFetch with
  | none => rfl
  | some f =>
    have hf := h.fetch f hq'
    rw [hq] at hf
    cases hf

theorem Lined.same (h : Lined set q) (hs : SameLine q q') : Lined set q' where
  ready := hs.ready.trans h.ready
  fetch := by
    intro f hf
    rw [hs.cursor, hs.completed]
    exact h.fetch f (hs.fetch f hf)

theorem Retuned.sameLine (h : Retuned q q') : SameLine q q' := by
  obtain ⟨size, cached, sizing, rfl⟩ := h
  exact ⟨rfl, rfl, fun _ hf => hf⟩

theorem sameLine_ensureInsertPump (src : IdSource) (q : SamplerQueue P C (BatchResult V A)) :
    SameLine q (q.ensureInsertPump src).2 := by
  obtain ⟨added, hpumped, -⟩ := q.ensureInsertPump_pumped src
  refine ⟨?_, ?_, ?_⟩ <;> rw [hpumped.eq]
  exact fun _ hf => hf

theorem sameLine_ingest (batches : List (EvaluationBatch P C)) (requiresFeedback : Bool)
    (src : IdSource) (q : SamplerQueue P C (BatchResult V A)) :
    SameLine q (q.ingest batches requiresFeedback src).2 :=
  (⟨rfl, rfl, fun _ hf => hf⟩ : SameLine q (q.buffer batches requiresFeedback)).trans
    (sameLine_ensureInsertPump src _)

theorem sameLine_drainFinishedInsert {notify result : Except StoreError Unit}
    (h : q.drainFinishedInsert notify = some (q', result)) : SameLine q q' := by
  unfold SamplerQueue.drainFinishedInsert at h
  split at h
  · cases h
    exact .refl _
  · split at h
    · split at h
      · cases h
        exact ⟨rfl, rfl, by simp [SamplerQueue.fenced]⟩
      · cases h
    · cases h
      exact ⟨rfl, rfl, fun _ hf => hf⟩

theorem sameLine_ensureCompletedCleanup (due : Bool) (q : SamplerQueue P C (BatchResult V A)) :
    SameLine q (q.ensureCompletedCleanup due) := by
  unfold SamplerQueue.ensureCompletedCleanup
  split <;> exact ⟨rfl, rfl, fun _ hf => hf⟩

theorem sameLine_drainFinishedCompletedCleanup (q : SamplerQueue P C (BatchResult V A)) :
    SameLine q q.drainFinishedCompletedCleanup.1 := by
  unfold SamplerQueue.drainFinishedCompletedCleanup
  split <;> exact ⟨rfl, rfl, fun _ hf => hf⟩

theorem sameLine_finishBackgroundMaintenance {result : Except StoreError Unit}
    (h : q.finishBackgroundMaintenance = some (q', result)) : SameLine q q' := by
  unfold SamplerQueue.finishBackgroundMaintenance at h
  split at h
  · cases h
  · cases h
    exact ⟨rfl, rfl, by simp⟩
  · cases h
    exact ⟨rfl, rfl, by simp⟩

/-- What `settle_processed` leaves: the batches a prefetch has come back with are ready. -/
structure Settled (set : Setting V P A M C) (q q' : SamplerQueue P C (BatchResult V A)) : Prop where
  cursor : q'.checkpoint.lastCompletedBatchId = q.checkpoint.lastCompletedBatchId
  fetch : ∀ f ∈ q'.pendingProcessedFetch, f ∈ q.pendingProcessedFetch
  next : NextBatches set q.checkpoint.completed q'.readyProcessed
  fetched : q'.readyProcessed ≠ [] → q'.pendingProcessedFetch = none ∧
    q.fetched = some (.ok q'.readyProcessed)

theorem SameLine.settled (h : SameLine q q') (hq : Lined set q) : Settled set q q' := by
  have hready : q'.readyProcessed = [] := h.ready.trans hq.ready
  refine ⟨h.cursor, h.fetch, ?_, fun hne => absurd hready hne⟩
  rw [hready]
  exact .nil set _

theorem SameLine.drainFinishedProcessedFetch (h : SameLine q q') (hq : Lined set q) :
    Settled set q q'.drainFinishedProcessedFetch.1 ∧
      ∀ e, q'.drainFinishedProcessedFetch.2 = .error e →
        q'.drainFinishedProcessedFetch.1.readyProcessed = [] := by
  have hlined := hq.same h
  unfold SamplerQueue.drainFinishedProcessedFetch
  cases hf : q'.pendingProcessedFetch with
  | none => exact ⟨h.settled hq, fun e he => by cases he⟩
  | some f =>
    dsimp only
    cases hout : f.outcome with
    | none => exact ⟨h.settled hq, fun e he => by cases he⟩
    | some outcome =>
      cases outcome with
      | error e =>
        have hdropped : SameLine q { q' with pendingProcessedFetch := none } :=
          h.trans ⟨rfl, rfl, by simp⟩
        exact ⟨hdropped.settled hq, fun _ _ => hlined.ready⟩
      | ok completed =>
        refine ⟨⟨h.cursor, by simp, ?_, fun _ => ⟨rfl, ?_⟩⟩, fun e he => by cases he⟩
        · rw [← h.completed]
          show NextBatches set _ (q'.readyProcessed ++ completed)
          rw [hlined.ready]
          exact (hlined.fetch f hf).2 completed hout
        · show q.fetched = some (.ok (q'.readyProcessed ++ completed))
          rw [hlined.ready, SamplerQueue.fetched, show q.pendingProcessedFetch = some f from
            h.fetch f hf]
          exact hout

theorem Lined.settleProcessed (h : Lined set q) {notify result : Except StoreError Unit}
    {src src' : IdSource} (hs : q.settleProcessed notify src = some (src', q', result)) :
    Settled set q q' ∧ (∀ e, result = .error e → q'.readyProcessed = []) := by
  unfold SamplerQueue.settleProcessed at hs
  split at hs
  · cases hs
  · rename_i hdrain
    cases hs
    have hsame := sameLine_drainFinishedInsert hdrain
    exact ⟨hsame.settled h, fun _ _ => hsame.ready.trans h.ready⟩
  · rename_i q₁ hdrain
    have hsame := (sameLine_drainFinishedInsert hdrain).trans (sameLine_ensureInsertPump src q₁)
    cases hs
    exact hsame.drainFinishedProcessedFetch h

/-- What a tick or a drain takes from the queue may be merged next, and no prefetch runs on. -/
structure TakenNext (set : Setting V P A M C) (q : SamplerQueue P C (BatchResult V A))
    (taken : List (CompletedBatch (BatchResult V A))) : Prop where
  next : NextBatches set q.checkpoint.completed taken
  fetch : taken ≠ [] → q.pendingProcessedFetch = none

theorem TakenNext.same {taken : List (CompletedBatch (BatchResult V A))} (h : TakenNext set q taken)
    (hs : SameLine q q') : TakenNext set q' taken :=
  ⟨hs.completed ▸ h.next, fun hne => hs.fetch_none (h.fetch hne)⟩

theorem Lined.getProcessedReady (h : Lined set q) {notify : Except StoreError Unit}
    {src src' : IdSource} {result : Except StoreError (List (CompletedBatch (BatchResult V A)))}
    (hg : q.getProcessedReady notify src = some (src', q', result)) :
    Lined set q' ∧ q'.checkpoint.lastCompletedBatchId = q.checkpoint.lastCompletedBatchId ∧
      ∀ taken, result = .ok taken → TakenNext set q' taken ∧
        (taken ≠ [] → q.fetched = some (.ok taken)) := by
  unfold SamplerQueue.getProcessedReady at hg
  split at hg
  · cases hg
  · rename_i hsettle
    cases hg
    obtain ⟨hsettled, herror⟩ := h.settleProcessed hsettle
    have hready := herror _ rfl
    exact ⟨h.same ⟨hsettled.cursor, hready.trans h.ready.symm, hsettled.fetch⟩, hsettled.cursor,
      fun taken ht => by cases ht⟩
  · rename_i q₁ hsettle
    cases hg
    obtain ⟨hsettled, -⟩ := h.settleProcessed hsettle
    have hcompleted : q₁.checkpoint.completed = q.checkpoint.completed := by
      simp only [SamplerQueueCheckpoint.completed, hsettled.cursor]
    refine ⟨h.same ⟨hsettled.cursor, h.ready.symm, hsettled.fetch⟩, hsettled.cursor, ?_⟩
    intro taken ht
    cases ht
    exact ⟨⟨hcompleted ▸ hsettled.next, fun hne => (hsettled.fetched hne).1⟩,
      fun hne => (hsettled.fetched hne).2⟩

theorem Lined.getProcessed (h : Lined set q) {notify : Except StoreError Unit} {src src' : IdSource}
    {result : Except StoreError (List (CompletedBatch (BatchResult V A)))}
    (hg : q.getProcessed notify src = some (src', q', result)) :
    Lined set q' ∧ q'.checkpoint.lastCompletedBatchId = q.checkpoint.lastCompletedBatchId ∧
      ∀ taken, result = .ok taken → TakenNext set q' taken := by
  unfold SamplerQueue.getProcessed at hg
  split at hg
  · cases hg
  · rename_i hsettle
    cases hg
    obtain ⟨hsettled, herror⟩ := h.settleProcessed hsettle
    have hready := herror _ rfl
    exact ⟨h.same ⟨hsettled.cursor, hready.trans h.ready.symm, hsettled.fetch⟩, hsettled.cursor,
      fun taken ht => by cases ht⟩
  · rename_i src₁ q₁ hsettle
    obtain ⟨hsettled, -⟩ := h.settleProcessed hsettle
    have hcompleted : q₁.checkpoint.completed = q.checkpoint.completed := by
      simp only [SamplerQueueCheckpoint.completed, hsettled.cursor]
    have hlined : Lined set { q₁ with readyProcessed := [] } :=
      h.same ⟨hsettled.cursor, h.ready.symm, hsettled.fetch⟩
    have hprefetch : Lined set { (q₁.ensureProcessedPrefetch src₁).2 with readyProcessed := [] } ∧
        (q₁.ensureProcessedPrefetch src₁).2.checkpoint = q₁.checkpoint ∧
        (q₁.ensureProcessedPrefetch src₁).2.readyProcessed = q₁.readyProcessed ∧
        (q₁.readyProcessed ≠ [] → (q₁.ensureProcessedPrefetch src₁).2.pendingProcessedFetch =
          q₁.pendingProcessedFetch) := by
      unfold SamplerQueue.ensureProcessedPrefetch
      split
      · exact ⟨hlined, rfl, rfl, fun _ => rfl⟩
      · rename_i hstart
        have hready : q₁.readyProcessed = [] := by
          simp only [Bool.or_eq_true, Bool.not_eq_true', not_or, Bool.not_eq_false,
            List.isEmpty_iff] at hstart
          exact hstart.1
        refine ⟨⟨rfl, fun f hf => ?_⟩, rfl, rfl, fun hne => absurd hready hne⟩
        cases hf
        exact ⟨rfl, fun completed hout => by cases hout⟩
    obtain ⟨hlined', hcheckpoint, hready, hfetch⟩ := hprefetch
    cases hg
    refine ⟨hlined', (congrArg _ hcheckpoint).trans hsettled.cursor, ?_⟩
    intro taken ht
    cases ht
    constructor
    · show NextBatches set (q₁.ensureProcessedPrefetch src₁).2.checkpoint.completed
        (q₁.ensureProcessedPrefetch src₁).2.readyProcessed
      rw [hcheckpoint, hready, hcompleted]
      exact hsettled.next
    · intro hne
      have hne' : q₁.readyProcessed ≠ [] := hready ▸ hne
      exact (hfetch hne').trans (hsettled.fetched hne').1

theorem Lined.tickProcessed (h : Lined set q) {notify : Except StoreError Unit} {due : Bool}
    {src src' : IdSource} {result : Except StoreError (List (CompletedBatch (BatchResult V A)))}
    (ht : q.tickProcessed notify due src = some (src', q', result)) :
    Lined set q' ∧ q'.checkpoint.lastCompletedBatchId = q.checkpoint.lastCompletedBatchId ∧
      ∀ taken, result = .ok taken → TakenNext set q' taken := by
  unfold SamplerQueue.tickProcessed at ht
  split at ht
  · cases ht
  · rename_i hget
    cases ht
    exact h.getProcessed hget
  · rename_i q₁ completed hget
    obtain ⟨hlined, hcursor, htaken⟩ := h.getProcessed hget
    have hcleaned := sameLine_drainFinishedCompletedCleanup q₁
    split at ht
    · rename_i heq
      cases ht
      rw [heq] at hcleaned
      exact ⟨hlined.same hcleaned, hcleaned.cursor.trans hcursor, fun taken ht => by cases ht⟩
    · rename_i q₂ heq
      cases ht
      rw [heq] at hcleaned
      have hsame := hcleaned.trans (sameLine_ensureCompletedCleanup due q₂)
      refine ⟨hlined.same hsame, hsame.cursor.trans hcursor, ?_⟩
      intro taken htaken'
      cases htaken'
      exact (htaken _ rfl).same hsame

theorem sameLine_flushTurn {notify : Except StoreError Unit} {src src' : IdSource}
    {result : Except StoreError Bool} (ht : q.flushTurn notify src = some (src', q', result)) :
    SameLine q q' := by
  unfold SamplerQueue.flushTurn at ht
  split at ht
  · cases ht
  · rename_i hdrain
    cases ht
    exact sameLine_drainFinishedInsert hdrain
  · rename_i q₁ hdrain
    have hdrained := sameLine_drainFinishedInsert hdrain
    split at ht
    · cases ht
      exact hdrained
    · cases ht
      exact hdrained.trans (sameLine_ensureInsertPump src q₁)

/-- What the query of a prefetch finds may be merged next. -/
theorem nextBatches_read {rows : List (BatchRow (EvaluationBatch P C) (BatchResult V A))}
    (htable : TableInv set.runId set.task.id set.accepts rows)
    (f : PendingProcessedFetch (BatchResult V A)) :
    NextBatches set (f.afterBatchId.getD 0) (f.read set.runId set.task.id rows) := by
  unfold PendingProcessedFetch.read
  rw [fetchCompletedBatches_eq htable]
  generalize hdone : ((frontier BatchRow.id (f.afterBatchId.getD 0) rows).take f.limit).takeWhile
    (·.status == .completed) = done
  have hsub : done.Sublist (frontier BatchRow.id (f.afterBatchId.getD 0) rows) := by
    rw [← hdone]
    exact (List.takeWhile_prefix _).sublist.trans (List.take_sublist _ _)
  have hrows : ∀ r ∈ done, r ∈ rows ∧ f.afterBatchId.getD 0 < r.id ∧ r.status = .completed := by
    intro r hr
    obtain ⟨hmem, hlt⟩ := mem_frontier.1 (hsub.subset hr)
    refine ⟨hmem, hlt, ?_⟩
    rw [← hdone] at hr
    simpa using List.mem_takeWhile_imp hr
  have hproduced := filterMap_toCompleted htable fun r hr => ⟨(hrows r hr).1, (hrows r hr).2.2⟩
  have hread := (List.takeWhile_prefix (l := done.filterMap (·.toCompleted))
    fun b : CompletedBatch (BatchResult V A) => decide (b.batchId < f.beforeBatchId)).sublist
  have hrow : ∀ b ∈ (done.filterMap (·.toCompleted)).takeWhile
      (fun b => decide (b.batchId < f.beforeBatchId)), ∃ r ∈ done, r.toCompleted = some b :=
    fun b hb => List.mem_filterMap.1 (hread.subset hb)
  constructor
  case ascend =>
    have hascend : Ascends Produced.id (done.map (·.produced)) :=
      List.pairwise_map.2 (htable.ascend.frontier.sublist hsub)
    rw [← hproduced] at hascend
    exact (List.pairwise_map.1 hascend).sublist hread
  case above =>
    intro b hb
    obtain ⟨r, hr, hcompleted⟩ := hrow b hb
    have hid : b.batchId = r.id := congrArg Produced.id (produced_of_toCompleted hcompleted)
    rw [hid]
    exact (hrows r hr).2.1
  case valid =>
    intro b hb
    obtain ⟨r, hr, hcompleted⟩ := hrow b hb
    obtain ⟨x, hx, hvalid⟩ := htable.result r (hrows r hr).1 (hrows r hr).2.2
    simp only [BatchRow.toCompleted, hx, Option.map_some, Option.some.injEq] at hcompleted
    rw [← hcompleted]
    exact hvalid

end

end Gammaboard.Runners
