import Gammaboard.Runners.ExactlyOnce
import Gammaboard.Sampling.OutstandingFeedback

/-!
# The feedback a sampler is owed

`Owes` is what the generation contract counts: the draws whose feedback a
sampler has asked for and not received. `FeedbackInv` says where that feedback
is: every sample of it is still to be cut, waits in a batch that has not been
merged, or is part of an incomplete draw. Every step of a run keeps it as long as
no tick fails in the engine and groups are ingested cleanly.
-/

namespace Gammaboard.Runners

open Gammaboard.Core Gammaboard.Stores Gammaboard.Lib Gammaboard.Sampling Gammaboard.Evaluation

variable {V P A M C : Type}

/-! ## The generation contract -/

/-- The states of a sampler in use, with the sizes of the draws whose feedback is outstanding. -/
inductive Owes (ops : SamplerOps V P A M C) (start : M) : M → List Nat → Prop where
  | starts : Owes ops start start []
  | draws {m m' : M} {owed : List Nat} {limit : Nat} {batch : LatentBatch P}
      {trainingRemaining : Option Nat} (h : Owes ops start m owed) (hlimit : 0 < limit)
      (hdraw : ops.generate m limit = (m', .ok (.batch batch trainingRemaining))) :
      Owes ops start m' (if trainingRemaining.isSome then owed ++ [batch.nrSamples] else owed)
  | waits {m m' : M} {owed : List Nat} {limit : Nat} (h : Owes ops start m owed)
      (hlimit : 0 < limit) (hdraw : ops.generate m limit = (m', .ok .waiting)) :
      Owes ops start m' owed
  | finishes {m m' : M} {owed : List Nat} {limit : Nat} (h : Owes ops start m owed)
      (hlimit : 0 < limit) (hdraw : ops.generate m limit = (m', .ok .finished)) :
      Owes ops start m' owed
  | receives {m m' : M} {size : Nat} {owed : List Nat} {values : Feedback V}
      (h : Owes ops start m (size :: owed)) (hlen : values.len = size)
      (hfeedback : ops.feedback m values = (m', none)) : Owes ops start m' owed
  | saves {m m' : M} {owed : List Nat} {saved : Except EngineError M} (h : Owes ops start m owed)
      (hsnapshot : ops.snapshot m = (m', saved)) : Owes ops start m' owed
  | restores {m m' saved : M} {owed : List Nat} (h : Owes ops start m owed)
      (hsnapshot : ops.snapshot m = (m', .ok saved)) : Owes ops start saved owed

/-- `Waiting` is a dependency on feedback: a sampler answers it only while a draw's feedback is
outstanding. -/
def WaitsForFeedback (ops : SamplerOps V P A M C) (start : M) : Prop :=
  ∀ m owed limit, Owes ops start m owed → 0 < limit →
    (ops.generate m limit).2 = .ok .waiting → owed ≠ []

/-! ## Pieces -/

/-- A batch with an id, as a piece. -/
def pieceOf (p : Produced) : Nat × Bool := (p.batchSize, p.requiresTrainingValues)

namespace SamplerQueue

variable {Res : Type}

/-- Every batch the queue has been handed, in order: those with an id, then the buffer. -/
def pieces (q : SamplerQueue P C Res) : List (Nat × Bool) :=
  q.allocated.map pieceOf ++ q.pendingInsert.map fun b => (b.1.samples.nrSamples, b.2)

variable {q q' : SamplerQueue P C Res}

theorem nextBundle_flag (q : SamplerQueue P C Res) :
    ∀ b ∈ q.nextBundle, b.2 = q.nextBundle.head?.any (·.2) := by
  unfold nextBundle
  split
  · simp
  · rename_i first rest heq
    obtain ⟨n, hn⟩ : ∃ n, max q.config.maxInsertBundleSize 1 = n + 1 :=
      ⟨max q.config.maxInsertBundleSize 1 - 1, by omega⟩
    intro b hb
    have hflag := List.mem_takeWhile_imp hb
    rw [heq, hn] at hb ⊢
    simpa using hflag

theorem pieces_insertTask {ids : List Int} (h : ids.length = q.nextBundle.length) :
    (q.insertTask ids).produced.map pieceOf =
      q.nextBundle.map fun b => (b.1.samples.nrSamples, b.2) := by
  have hsizes := map_size_withIds h
  have hflags : q.nextBundle.map (fun b => (b.1.samples.nrSamples, b.2)) =
      (q.nextBundle.map (·.1.samples.nrSamples)).map fun n =>
        (n, q.nextBundle.head?.any (·.2)) := by
    rw [List.map_map]
    refine List.map_congr_left fun b hb => ?_
    rw [Function.comp_apply, ← q.nextBundle_flag b hb]
  rw [hflags, ← hsizes, PendingInsertTask.produced, List.map_map, List.map_map]
  rfl

theorem startInsert_pieces (src : IdSource) (q : SamplerQueue P C Res) :
    (q.startInsert src).2.pieces = q.pieces := by
  have hlen : (src.nextBatchIds q.nextBundle.length).2.length = q.nextBundle.length := by simp
  obtain ⟨rest, hrest⟩ := q.nextBundle_prefix
  have hdrop : q.pendingInsert.drop q.nextBundle.length = rest := by
    rw [← hrest]
    simp
  unfold pieces
  simp only [startInsert, List.map_append, pieces_insertTask hlen, hdrop, List.append_assoc]
  conv_rhs => rw [← hrest, List.map_append]

theorem pump_pieces (slots : Nat) (src : IdSource) (q : SamplerQueue P C Res) :
    (pump slots src q).2.pieces = q.pieces := by
  induction slots generalizing src q with
  | zero => rfl
  | succ slots ih =>
    unfold pump
    split
    · rfl
    · exact (ih _ _).trans (startInsert_pieces src q)

/-- Batches move from the buffer to the table at most. -/
structure SamePieces (q q' : SamplerQueue P C Res) : Prop where
  pieces : q'.pieces = q.pieces
  config : q'.config = q.config

theorem SamePieces.refl (q : SamplerQueue P C Res) : SamePieces q q := ⟨rfl, rfl⟩

theorem SamePieces.trans {q'' : SamplerQueue P C Res} (h : SamePieces q q')
    (h' : SamePieces q' q'') : SamePieces q q'' :=
  ⟨h'.pieces.trans h.pieces, h'.config.trans h.config⟩

theorem samePieces_ensureInsertPump (src : IdSource) (q : SamplerQueue P C Res) :
    SamePieces q (q.ensureInsertPump src).2 := by
  obtain ⟨added, hpumped, -⟩ := q.ensureInsertPump_pumped src
  refine ⟨pump_pieces _ src q, ?_⟩
  rw [hpumped.eq]

/-- Batches handed over come last. -/
theorem ingest_pieces (batches : List (EvaluationBatch P C)) (requiresFeedback : Bool)
    (src : IdSource) (q : SamplerQueue P C Res) :
    (q.ingest batches requiresFeedback src).2.pieces =
        q.pieces ++ batches.map (fun b => (b.samples.nrSamples, requiresFeedback)) ∧
      (q.ingest batches requiresFeedback src).2.config = q.config := by
  obtain ⟨hpieces, hconfig⟩ := samePieces_ensureInsertPump src (q.buffer batches requiresFeedback)
  refine ⟨hpieces.trans ?_, hconfig⟩
  simp [pieces, buffer, Function.comp_def]

theorem samePieces_drainFinishedInsert {notify result : Except StoreError Unit}
    (h : q.drainFinishedInsert notify = some (q', result)) : SamePieces q q' := by
  unfold drainFinishedInsert at h
  split at h
  · cases h
    exact .refl _
  · split at h
    · split at h
      · cases h
        exact ⟨rfl, rfl⟩
      · cases h
    · cases h
      exact ⟨rfl, rfl⟩

theorem samePieces_drainFinishedProcessedFetch (q : SamplerQueue P C Res) :
    SamePieces q q.drainFinishedProcessedFetch.1 := by
  unfold drainFinishedProcessedFetch
  split
  · exact .refl _
  · split <;> exact ⟨rfl, rfl⟩

theorem samePieces_settleProcessed {notify result : Except StoreError Unit} {src src' : IdSource}
    (h : q.settleProcessed notify src = some (src', q', result)) : SamePieces q q' := by
  unfold settleProcessed at h
  split at h
  · cases h
  · rename_i hdrain
    cases h
    exact samePieces_drainFinishedInsert hdrain
  · rename_i q₁ hdrain
    have hpumped := (samePieces_drainFinishedInsert hdrain).trans
      (samePieces_ensureInsertPump src q₁)
    cases h
    exact hpumped.trans (samePieces_drainFinishedProcessedFetch _)

theorem samePieces_getProcessedReady {notify : Except StoreError Unit} {src src' : IdSource}
    {result : Except StoreError (List (CompletedBatch Res))}
    (h : q.getProcessedReady notify src = some (src', q', result)) : SamePieces q q' := by
  unfold getProcessedReady at h
  split at h
  · cases h
  · rename_i hsettle
    cases h
    exact samePieces_settleProcessed hsettle
  · rename_i hsettle
    have hsettled := samePieces_settleProcessed hsettle
    cases h
    exact ⟨hsettled.pieces, hsettled.config⟩

theorem samePieces_getProcessed {notify : Except StoreError Unit} {src src' : IdSource}
    {result : Except StoreError (List (CompletedBatch Res))}
    (h : q.getProcessed notify src = some (src', q', result)) : SamePieces q q' := by
  unfold getProcessed at h
  split at h
  · cases h
  · rename_i hsettle
    cases h
    exact samePieces_settleProcessed hsettle
  · rename_i src₁ q₁ hsettle
    have hsettled := samePieces_settleProcessed hsettle
    have hprefetch : SamePieces q₁ (q₁.ensureProcessedPrefetch src₁).2 := by
      unfold ensureProcessedPrefetch
      split <;> exact ⟨rfl, rfl⟩
    have hall := hsettled.trans hprefetch
    cases h
    exact ⟨hall.pieces, hall.config⟩

theorem samePieces_ensureCompletedCleanup (due : Bool) (q : SamplerQueue P C Res) :
    SamePieces q (q.ensureCompletedCleanup due) := by
  unfold ensureCompletedCleanup
  split <;> exact ⟨rfl, rfl⟩

theorem samePieces_tickProcessed {notify : Except StoreError Unit} {due : Bool}
    {src src' : IdSource} {result : Except StoreError (List (CompletedBatch Res))}
    (h : q.tickProcessed notify due src = some (src', q', result)) : SamePieces q q' := by
  unfold tickProcessed at h
  split at h
  · cases h
  · rename_i hget
    cases h
    exact samePieces_getProcessed hget
  · rename_i q₁ completed hget
    have hcleaned : SamePieces q₁ q₁.drainFinishedCompletedCleanup.1 := by
      unfold drainFinishedCompletedCleanup
      split <;> exact ⟨rfl, rfl⟩
    have hbefore := (samePieces_getProcessed hget).trans hcleaned
    split at h
    · rename_i heq
      cases h
      rw [heq] at hbefore
      exact hbefore
    · rename_i q₂ heq
      cases h
      rw [heq] at hbefore
      exact hbefore.trans (samePieces_ensureCompletedCleanup due q₂)

theorem samePieces_flushTurn {notify : Except StoreError Unit} {src src' : IdSource}
    {result : Except StoreError Bool} (h : q.flushTurn notify src = some (src', q', result)) :
    SamePieces q q' := by
  unfold flushTurn at h
  split at h
  · cases h
  · rename_i hdrain
    cases h
    exact samePieces_drainFinishedInsert hdrain
  · rename_i q₁ hdrain
    have hdrained := samePieces_drainFinishedInsert hdrain
    split at h
    · cases h
      exact hdrained
    · cases h
      exact hdrained.trans (samePieces_ensureInsertPump src q₁)

theorem samePieces_finishBackgroundMaintenance {result : Except StoreError Unit}
    (h : q.finishBackgroundMaintenance = some (q', result)) : SamePieces q q' := by
  unfold finishBackgroundMaintenance at h
  split at h
  · cases h
  · cases h
    exact ⟨rfl, rfl⟩
  · cases h
    exact ⟨rfl, rfl⟩

theorem samePieces_markProcessed (completed : List (CompletedBatch Res)) (due : Bool)
    (q : SamplerQueue P C Res) : SamePieces q (q.markProcessed completed due) := by
  have hmarked := q.markProcessed_marked completed due
  refine ⟨?_, hmarked.config⟩
  unfold pieces
  rw [hmarked.allocated, hmarked.pendingInsert]

theorem samePieces_retuned {q q' : SamplerQueue P C (BatchResult V A)} (h : Retuned q q') :
    SamePieces q q' := by
  obtain ⟨size, cached, sizing, rfl⟩ := h
  exact ⟨rfl, rfl⟩

end SamplerQueue

/-! ## The invariant -/

/-- Every sample whose feedback is missing is still to be cut or in a batch not merged yet. -/
structure FeedbackInv (set : Setting V P A M C) (m : M) (g : GenerationBuffer V P)
    (pieces merged : List (Nat × Bool)) : Prop where
  owes : Owes set.kit.sampler set.startSampler m g.owed
  unfinished : g.Unfinished
  balance : feedbackSamples pieces + g.uncutFeedback =
    feedbackSamples merged + g.missingFeedback

/-- The first batch is out until something has been merged. -/
structure RoundTripInv (state : AccumulatorCheckpointState) (pieces merged : List (Nat × Bool)) :
    Prop where
  positive : ∀ x ∈ pieces, 0 < x.1
  waiting : state = .waitingForInitialRoundTrip → pieces ≠ []
  unready : state ≠ .ready → ∀ x ∈ merged, x.1 = 0

/-- The configuration lets the aggregator draw and send. -/
structure SamplerQueueConfig.Sends (config : SamplerQueueConfig) : Prop where
  slots : 0 < config.maxBatchesPerTick
  draws : 0 < config.maxGenerationSize

/-- What has been merged, as pieces. -/
def mergedPieces (merged : List (CompletedBatch (BatchResult V A))) : List (Nat × Bool) :=
  merged.map fun b => pieceOf b.produced

structure RunnerFeedback (set : Setting V P A M C) (r : SamplerAggregatorRunner V P A M C) :
    Prop where
  feedback : FeedbackInv set r.sampler r.runtimeState.generation r.queue.pieces
    (mergedPieces r.merged)
  roundTrip : RoundTripInv r.runtimeState.accumulatorCheckpointState r.queue.pieces
    (mergedPieces r.merged)
  sends : r.queue.config.Sends

structure CheckpointFeedback (set : Setting V P A M C) (c : SamplerAggregatorCheckpoint V P A M) :
    Prop where
  feedback : FeedbackInv set c.samplerSnapshot c.runtimeState.generation
    (c.allocated.map pieceOf) (mergedPieces c.merged)
  roundTrip : RoundTripInv c.runtimeState.accumulatorCheckpointState
    (c.allocated.map pieceOf) (mergedPieces c.merged)

section

variable {set : Setting V P A M C} {r r' : SamplerAggregatorRunner V P A M C}
  {q : SamplerQueue P C (BatchResult V A)}

theorem RunnerFeedback.withQueue (h : RunnerFeedback set r) (hq : r.queue.SamePieces q) :
    RunnerFeedback set { r with queue := q } where
  feedback := by
    show FeedbackInv set r.sampler r.runtimeState.generation q.pieces (mergedPieces r.merged)
    rw [hq.pieces]
    exact h.feedback
  roundTrip := by
    show RoundTripInv r.runtimeState.accumulatorCheckpointState q.pieces (mergedPieces r.merged)
    rw [hq.pieces]
    exact h.roundTrip
  sends := hq.config ▸ h.sends

/-! ### Ingestion -/

/-- A batch is at most its group. -/
theorem le_sizeOf {taken : List (CompletedBatch (BatchResult V A))}
    {b : CompletedBatch (BatchResult V A)} (hb : b ∈ taken) :
    (b.batchSize : Int) ≤ SamplerAggregatorRunner.sizeOf taken := by
  have hcons : ∀ first (rest : List (CompletedBatch (BatchResult V A))),
      SamplerAggregatorRunner.sizeOf (first :: rest) =
        first.batchSize + SamplerAggregatorRunner.sizeOf rest := fun _ _ => rfl
  have hnonneg : ∀ group : List (CompletedBatch (BatchResult V A)),
      0 ≤ SamplerAggregatorRunner.sizeOf group := by
    intro group
    induction group with
    | nil => exact le_rfl
    | cons first rest ih =>
      rw [hcons]
      omega
  induction taken with
  | nil => cases hb
  | cons first rest ih =>
    rw [hcons]
    have hrest := hnonneg rest
    rcases List.mem_cons.1 hb with rfl | hb
    · omega
    · have hle := ih hb
      omega

/-- The values of a batch come back and reach the sampler with the last of their draw. -/
theorem FeedbackInv.ingestTraining {pieces : List (Nat × Bool)}
    {b : CompletedBatch (BatchResult V A)} (hb : b.requiresTrainingValues = true)
    (h : FeedbackInv set r.sampler r.runtimeState.generation pieces (mergedPieces r.merged))
    (hi : r.ingestTraining set.kit b = (r', none)) :
    FeedbackInv set r'.sampler r'.runtimeState.generation pieces (mergedPieces (r.merged ++ [b])) ∧
      r'.runtimeState.accumulatorCheckpointState = r.runtimeState.accumulatorCheckpointState := by
  unfold SamplerAggregatorRunner.ingestTraining at hi
  split at hi
  · cases hi
  · rename_i values _
    split at hi
    · cases hi
    · rename_i hlen
      split at hi
      · cases hi
      · rename_i generation assembled haccept
        obtain ⟨hunfinished, hpending, -, hmissing, howed⟩ :=
          GenerationBuffer.acceptFeedback_missing h.unfinished haccept
        have huncut := GenerationBuffer.uncutFeedback_congr hpending
        have hmerged : feedbackSamples (mergedPieces (r.merged ++ [b])) =
            feedbackSamples (mergedPieces r.merged) + b.batchSize := by
          simp [mergedPieces, feedbackSamples, pieceOf, CompletedBatch.produced, hb]
        have hbalance : feedbackSamples pieces + generation.uncutFeedback =
            feedbackSamples (mergedPieces (r.merged ++ [b])) + generation.missingFeedback := by
          have hbefore := h.balance
          omega
        dsimp only at hi
        split at hi
        · cases hi
          have howes := h.owes
          rw [← howed] at howes
          exact ⟨⟨howes, hunfinished, hbalance⟩, rfl⟩
        · rename_i all
          split at hi
          · cases hi
          · rename_i sampler hfeedback
            cases hi
            have howes := h.owes
            rw [← howed] at howes
            exact ⟨⟨.receives howes rfl hfeedback, hunfinished, hbalance⟩, rfl⟩

theorem FeedbackInv.ingestBatch {pieces : List (Nat × Bool)}
    {b : CompletedBatch (BatchResult V A)}
    (h : FeedbackInv set r.sampler r.runtimeState.generation pieces (mergedPieces r.merged))
    (hi : r.ingestBatch set.kit b = (r', none)) :
    FeedbackInv set r'.sampler r'.runtimeState.generation pieces (mergedPieces r'.merged) ∧
      r'.runtimeState.accumulatorCheckpointState = r.runtimeState.accumulatorCheckpointState := by
  have haccumulator : ∀ {r r' : SamplerAggregatorRunner V P A M C},
      r.ingestAccumulator set.kit b = (r', none) → r'.merged = r.merged ++ [b] ∧
        r'.sampler = r.sampler ∧ r'.runtimeState = r.runtimeState := by
    intro r r' hi
    unfold SamplerAggregatorRunner.ingestAccumulator at hi
    split at hi
    · cases hi
    · cases hi
      exact ⟨rfl, rfl, rfl⟩
  unfold SamplerAggregatorRunner.ingestBatch at hi
  split at hi
  · rename_i hrequires
    split at hi
    · cases hi
    · rename_i r₁ htraining
      obtain ⟨hfed, hstate⟩ := h.ingestTraining hrequires htraining
      obtain ⟨hmerged₁, -, -⟩ := SamplerAggregatorRunner.ingestTraining_ok htraining
      obtain ⟨hmerged, hsampler, hruntime⟩ := haccumulator hi
      rw [hmerged, hsampler, hruntime, hmerged₁]
      exact ⟨hfed, hstate⟩
  · rename_i hrequires
    obtain ⟨hmerged, hsampler, hruntime⟩ := haccumulator hi
    rw [hmerged, hsampler, hruntime]
    refine ⟨⟨h.owes, h.unfinished, ?_⟩, rfl⟩
    have hsame : feedbackSamples (mergedPieces (r.merged ++ [b])) =
        feedbackSamples (mergedPieces r.merged) := by
      simp [mergedPieces, feedbackSamples, pieceOf, CompletedBatch.produced, hrequires]
    rw [hsame]
    exact h.balance

theorem FeedbackInv.ingestAll {pieces : List (Nat × Bool)}
    {completed : List (CompletedBatch (BatchResult V A))}
    (h : FeedbackInv set r.sampler r.runtimeState.generation pieces (mergedPieces r.merged))
    (hi : r.ingestAll set.kit completed = (r', none)) :
    FeedbackInv set r'.sampler r'.runtimeState.generation pieces (mergedPieces r'.merged) ∧
      r'.runtimeState.accumulatorCheckpointState = r.runtimeState.accumulatorCheckpointState := by
  induction completed generalizing r with
  | nil =>
    cases hi
    exact ⟨h, rfl⟩
  | cons b rest ih =>
    unfold SamplerAggregatorRunner.ingestAll at hi
    split at hi
    · cases hi
    · rename_i r₁ hbatch
      obtain ⟨h₁, hstate₁⟩ := h.ingestBatch hbatch
      obtain ⟨h₂, hstate₂⟩ := ih h₁ hi
      exact ⟨h₂, hstate₂.trans hstate₁⟩

/-- A group that is ingested cleanly. -/
theorem RunnerFeedback.processed (h : RunnerFeedback set r)
    {taken : List (CompletedBatch (BatchResult V A))} (hclean : CleanIngest set.kit r taken)
    (tuned : Nat) (due : Bool) :
    RunnerFeedback set (r.processCompletedBatches set.kit taken tuned due).1 := by
  have hcases := SamplerAggregatorRunner.processed set.kit taken tuned due r
  have hretuned : RunnerFeedback set { r with queue := r.queue.tuned tuned } :=
    h.withQueue (SamplerQueue.samePieces_retuned (retuned_tuned tuned r.queue))
  have hclean' := hclean.withQueue (r.queue.tuned tuned)
  generalize r.processCompletedBatches set.kit taken tuned due = out at hcases
  cases hcases with
  | nothing _ => exact h
  | otherTask _ _ _ _ => exact h
  | refused htask r₁ e hall =>
    rcases hclean' with hok | ⟨b, hb, hother⟩ | ⟨b, rest, rfl, hfirst⟩
    · rw [hall] at hok
      cases hok
    · exact absurd (htask b hb) hother
    · obtain ⟨e', he'⟩ := SamplerAggregatorRunner.ingestAll_refused rest hfirst
      rw [he'] at hall
      cases hall
      exact hretuned
  | whole hne htask r₁ hall =>
    obtain ⟨hfeedback, hstate⟩ := hretuned.feedback.ingestAll hall
    have hrecorded := SamplerAggregatorRunner.ingestAll_ok hall
    have hkeeps := SamplerAggregatorRunner.ingestAll_ingesting set.kit taken
      { r with queue := r.queue.tuned tuned }
    rw [hall] at hkeeps
    have hqueue : r₁.queue = r.queue.tuned tuned := hkeeps.queue
    have hmarked := SamplerQueue.samePieces_markProcessed taken due (r.queue.tuned tuned)
    have htotal := hretuned.roundTrip
    constructor
    · show FeedbackInv set r₁.sampler r₁.runtimeState.generation
        (r₁.queue.markProcessed taken due).pieces (mergedPieces r₁.merged)
      rw [hqueue, hmarked.pieces]
      exact hfeedback
    · show RoundTripInv (if 0 < SamplerAggregatorRunner.sizeOf taken then .ready
          else r₁.runtimeState.accumulatorCheckpointState)
        (r₁.queue.markProcessed taken due).pieces (mergedPieces r₁.merged)
      rw [hqueue, hmarked.pieces, hstate, hrecorded.merged]
      refine ⟨htotal.positive, fun hwaiting => ?_, fun hunready => ?_⟩
      · split at hwaiting
        · cases hwaiting
        · exact htotal.waiting hwaiting
      · split at hunready
        · exact absurd rfl hunready
        · rename_i hnone
          intro x hx
          rw [mergedPieces, List.map_append] at hx
          rcases List.mem_append.1 hx with hx | hx
          · exact htotal.unready hunready x hx
          · obtain ⟨b, hb, rfl⟩ := List.mem_map.1 hx
            have hle := le_sizeOf hb
            show b.batchSize = 0
            omega
    · show (r₁.queue.markProcessed taken due).config.Sends
      rw [hqueue, hmarked.config]
      exact hretuned.sends

/-! ### Production -/

namespace SamplerAggregatorRunner

variable {kit : Kit V P A M C}

/-- Nothing has changed but what the aggregator remembers of the fleet and the campaign. -/
structure Asked (r r' : SamplerAggregatorRunner V P A M C) : Prop where
  sampler : r'.sampler = r.sampler
  runtimeState : r'.runtimeState = r.runtimeState
  merged : r'.merged = r.merged
  queue : r.queue.SamePieces r'.queue

/-- How the request for a draw ends. -/
inductive Drew (kit : Kit V P A M C) (limit : Nat) (r : SamplerAggregatorRunner V P A M C) :
    SamplerAggregatorRunner V P A M C × Option (Except RunnerError (Nat × Bool)) → Prop where
  | fails (r' : SamplerAggregatorRunner V P A M C) (e : EngineError) :
      Drew kit limit r (r', some (.error (.engine e)))
  | waits (sampler : M) (h : kit.sampler.generate r.sampler limit = (sampler, .ok .waiting)) :
      Drew kit limit r ({ r with sampler }, some (.ok (0, false)))
  | finishes (sampler : M) (h : kit.sampler.generate r.sampler limit = (sampler, .ok .finished)) :
      Drew kit limit r
        ({ r with
            sampler
            runtimeState := { r.runtimeState with
              generation := { r.runtimeState.generation with finished := true } } },
          some (.ok (0, false)))
  | draws (sampler : M) (batch : LatentBatch P) (trainingRemaining : Option Nat)
      (generation : GenerationBuffer V P)
      (h : kit.sampler.generate r.sampler limit = (sampler, .ok (.batch batch trainingRemaining)))
      (hsize : 0 < batch.nrSamples)
      (hbuffer : r.runtimeState.generation.bufferDraw kit.sampler.payload batch trainingRemaining =
        .ok generation) :
      Drew kit limit r
        ({ r with
            sampler
            runtimeState := { r.runtimeState with
              generation :=
                if trainingRemaining.isSome then generation.recordDraw batch.nrSamples
                else generation } },
          none)

theorem generateDraw_drew (limit : Nat) (r : SamplerAggregatorRunner V P A M C) :
    Drew kit limit r (generateDraw kit limit r) := by
  unfold generateDraw
  split
  · exact .fails _ _
  · exact .waits _ ‹_›
  · exact .finishes _ ‹_›
  · rename_i sampler batch trainingRemaining hgenerate
    dsimp only
    split
    · exact .fails _ _
    · rename_i hbad
      split
      · exact .fails _ _
      · rename_i generation hbuffer
        exact .draws sampler batch trainingRemaining generation hgenerate
          (Nat.pos_of_ne_zero fun hzero => hbad (.inl hzero)) hbuffer

/-- How the start of `produce` ends. -/
inductive Prepared (kit : Kit V P A M C) (counts : BatchQueueCounts)
    (r : SamplerAggregatorRunner V P A M C) :
    SamplerAggregatorRunner V P A M C × Option (Except RunnerError (Nat × Bool)) → Prop where
  | fails (r' : SamplerAggregatorRunner V P A M C) (e : RunnerError) (h : Asked r r') :
      Prepared kit counts r (r', some (.error e))
  | finished (h : r.runtimeState.generation.finished = true) :
      Prepared kit counts r (r, some (.ok (0, false)))
  | spent (h : r.activeSampleRemainingBudget = .ok (some 0)) :
      Prepared kit counts r (r, some (.ok (0, false)))
  | reached (status : StopConditionStatus) (h : r.stopConditionStatus kit = .ok status)
      (hreached : status.reached = true) : Prepared kit counts r (r, some (.ok (0, false)))
  | supplied (r' : SamplerAggregatorRunner V P A M C) (h : Asked r r')
      (henough : r'.queue.cachedActiveEvaluatorCount = some 0 ∨ 0 < counts.pending) :
      Prepared kit counts r (r', some (.ok (0, true)))
  | unfunded (r' : SamplerAggregatorRunner V P A M C) (h : Asked r r')
      (hwaiting : r'.waitingForCampaignBudget = true) :
      Prepared kit counts r (r', some (.ok (0, true)))
  | asks (r' : SamplerAggregatorRunner V P A M C) (h : Asked r r') (limit : Nat)
      (hlimit : r.queue.config.Sends → 0 < limit)
      (out : SamplerAggregatorRunner V P A M C × Option (Except RunnerError (Nat × Bool)))
      (hdrew : Drew kit limit r' out) : Prepared kit counts r out

theorem prepareDraw_prepared (counts : BatchQueueCounts) (replies : ProduceReplies)
    (r : SamplerAggregatorRunner V P A M C) :
    Prepared kit counts r (prepareDraw kit counts replies r) := by
  have hsame : Asked r r := ⟨rfl, rfl, rfl, .refl _⟩
  unfold prepareDraw
  split
  · exact .finished ‹_›
  split
  · exact .fails r _ hsame
  rename_i budget hbudget
  split
  · rename_i hspent
    exact .spent (hspent ▸ hbudget)
  rename_i hleft
  split
  · exact .fails r _ hsame
  rename_i status hstatus
  split
  · exact .reached status hstatus ‹_›
  split
  · exact .fails r _ hsame
  rename_i evaluators _
  dsimp only
  split
  · rename_i henough
    refine .supplied _ ⟨rfl, rfl, rfl, rfl, rfl⟩ ?_
    rcases Nat.eq_zero_or_pos evaluators with rfl | hpos
    · exact .inl rfl
    · refine .inr ?_
      have hpending := not_and.1 henough hpos
      omega
  split
  · exact .fails _ _ ⟨rfl, rfl, rfl, rfl, rfl⟩
  rename_i allowance _
  split
  · exact .unfunded _ ⟨rfl, rfl, rfl, rfl, rfl⟩ rfl
  · rename_i hfunded
    refine .asks _ ?_ _ (fun hsends => ?_) _ (generateDraw_drew _ _)
    · exact ⟨rfl, rfl, rfl, rfl, rfl⟩
    have hmax := hsends.draws
    refine lt_min hmax (lt_min ?_ ?_)
    · cases budget with
      | none => exact hmax
      | some n => exact Nat.pos_of_ne_zero fun hzero => hleft (congrArg some hzero)
    · cases allowance with
      | none => exact hmax
      | some a =>
        refine Nat.pos_of_ne_zero fun hzero => hfunded ?_
        exact congrArg some hzero

/-- What sending pieces of the buffered draw leaves. -/
structure Sent (kit : Kit V P A M C) (r r' : SamplerAggregatorRunner V P A M C)
    (batches : List (LatentBatch P)) : Prop where
  sampler : r'.sampler = r.sampler
  merged : r'.merged = r.merged
  taken : ∃ slots chunkSize, (r.queue.config.Sends → 0 < slots) ∧
    r.runtimeState.generation.takeBatches kit.sampler.payload slots chunkSize =
      (r'.runtimeState.generation, .ok batches)
  pieces : r'.queue.pieces = r.queue.pieces ++
    batches.map fun b => (b.nrSamples, r.runtimeState.generation.requiresFeedback)
  config : r'.queue.config = r.queue.config
  state : r'.runtimeState.accumulatorCheckpointState = r.runtimeState.accumulatorCheckpointState ∨
    r'.runtimeState.accumulatorCheckpointState = .waitingForInitialRoundTrip ∧
      r.runtimeState.accumulatorCheckpointState = .needsInitialRoundTrip

theorem enqueueGenerated_sent {slots chunkSize : Nat} {src src' : IdSource} {count : Nat}
    {r r' : SamplerAggregatorRunner V P A M C}
    (h : enqueueGenerated kit slots chunkSize src r = (src', r', .ok count))
    (hslots : r.queue.config.Sends → 0 < slots) :
    ∃ batches, count = batches.length ∧ Sent kit r r' batches := by
  unfold enqueueGenerated at h
  dsimp only at h
  split at h
  · cases h
  · rename_i generation batches htake
    obtain ⟨hpieces, hconfig⟩ := SamplerQueue.ingest_pieces
      (batches.map fun b => (⟨b, kit.sampler.request r.observableState⟩ : EvaluationBatch P C))
      r.runtimeState.generation.requiresFeedback src r.queue
    cases h
    refine ⟨batches, rfl, rfl, rfl, ⟨slots, chunkSize, hslots, htake⟩, ?_, hconfig, .inl rfl⟩
    refine hpieces.trans (congrArg _ ?_)
    rw [List.map_map]
    rfl

/-- Sending fails in the engine, or sends pieces of the draw. -/
theorem enqueueSlots_sent {src src' : IdSource} {r r' : SamplerAggregatorRunner V P A M C}
    {result : Except RunnerError (Nat × Bool)} (h : enqueueSlots kit src r = (src', r', result)) :
    (∃ e, result = .error (.engine e)) ∨
      ∃ batches, result = .ok (batches.length, true) ∧ Sent kit r r' batches := by
  have hgenerated : ∀ (slots chunkSize : Nat) (r : SamplerAggregatorRunner V P A M C),
      (∃ e, (enqueueGenerated kit slots chunkSize src r).2.2 = .error (.engine e)) ∨
        ∃ count, (enqueueGenerated kit slots chunkSize src r).2.2 = .ok count := by
    intro slots chunkSize r
    unfold enqueueGenerated
    dsimp only
    split
    · exact .inl ⟨_, rfl⟩
    · exact .inr ⟨_, rfl⟩
  unfold enqueueSlots at h
  dsimp only at h
  split at h
  · rename_i hneeds
    rcases hgenerated 1 minBatchSize { r with
        runtimeState := { r.runtimeState with
          accumulatorCheckpointState := .waitingForInitialRoundTrip } } with ⟨e, he⟩ | ⟨count, hc⟩
    · cases h
      exact .inl ⟨e, by rw [he]; rfl⟩
    · cases h
      obtain ⟨batches, rfl, hsent⟩ := enqueueGenerated_sent (Prod.ext rfl (Prod.ext rfl hc))
        fun _ => Nat.one_pos
      refine .inr ⟨batches, by rw [hc]; rfl, ?_⟩
      obtain ⟨slots, chunkSize, -, htake⟩ := hsent.taken
      exact ⟨hsent.sampler, hsent.merged, hsent.taken, hsent.pieces, hsent.config,
        .inr ⟨hsent.state.elim id (·.1), hneeds⟩⟩
  · rcases hgenerated r.queue.config.maxBatchesPerTick
      (r.queue.productionBatchSize r.runtimeState.generation.trainingRemaining).2
      { r with
        queue := (r.queue.productionBatchSize r.runtimeState.generation.trainingRemaining).1 } with
      ⟨e, he⟩ | ⟨count, hc⟩
    · cases h
      exact .inl ⟨e, by rw [he]; rfl⟩
    · cases h
      obtain ⟨batches, rfl, hsent⟩ := enqueueGenerated_sent (Prod.ext rfl (Prod.ext rfl hc))
        fun hsends => hsends.slots
      exact .inr ⟨batches, by rw [hc]; rfl, hsent.sampler, hsent.merged, hsent.taken,
        hsent.pieces, hsent.config, hsent.state⟩

end SamplerAggregatorRunner

theorem RunnerFeedback.asked (h : RunnerFeedback set r) (ha : r.Asked r') :
    RunnerFeedback set r' := by
  refine ⟨?_, ?_, ha.queue.config ▸ h.sends⟩
  · rw [ha.sampler, ha.runtimeState, ha.merged, ha.queue.pieces]
    exact h.feedback
  · rw [ha.runtimeState, ha.merged, ha.queue.pieces]
    exact h.roundTrip

/-- A draw that is buffered keeps the invariant, and can be cut. -/
theorem RunnerFeedback.drew (h : RunnerFeedback set r) {limit : Nat} (hlimit : 0 < limit)
    {out : SamplerAggregatorRunner V P A M C × Option (Except RunnerError (Nat × Bool))}
    (hd : r.Drew set.kit limit out) (hfine : ∀ e, out.2 ≠ some (.error (.engine e))) :
    RunnerFeedback set out.1 ∧
      (out.2 = none → out.1.runtimeState.generation.hasPending = true) := by
  cases hd with
  | fails r' e => exact absurd rfl (hfine e)
  | waits sampler hgenerate =>
    refine ⟨⟨⟨.waits h.feedback.owes hlimit hgenerate, ?_, ?_⟩, h.roundTrip, h.sends⟩,
      fun hnone => by cases hnone⟩
    · exact h.feedback.unfinished
    · exact h.feedback.balance
  | finishes sampler hgenerate =>
    refine ⟨⟨⟨.finishes h.feedback.owes hlimit hgenerate, ?_, ?_⟩, h.roundTrip, h.sends⟩,
      fun hnone => by cases hnone⟩
    · exact ⟨h.feedback.unfinished.draw, h.feedback.unfinished.groups⟩
    · exact h.feedback.balance
  | draws sampler batch trainingRemaining generation hgenerate hsize hbuffer =>
    obtain ⟨hunfinished, hpending, -, howed, hbalance⟩ :=
      GenerationBuffer.bufferDraw_unfinished h.feedback.unfinished hsize hbuffer
    have howes := Owes.draws h.feedback.owes hlimit hgenerate
    rw [← howed] at howes
    refine ⟨⟨⟨howes, hunfinished, ?_⟩, h.roundTrip, h.sends⟩, fun _ => hpending⟩
    have hbefore := h.feedback.balance
    dsimp only
    omega

theorem RunnerFeedback.sent (h : RunnerFeedback set r) {batches : List (LatentBatch P)}
    (hs : r.Sent set.kit r' batches) (hpending : r.runtimeState.generation.hasPending = true) :
    RunnerFeedback set r' ∧ batches ≠ [] := by
  obtain ⟨slots, chunkSize, hslots, htake⟩ := hs.taken
  have htaken := GenerationBuffer.takeBatches_taken h.feedback.unfinished htake
  have hbatches := htaken.nonempty hpending (hslots h.sends)
  refine ⟨⟨⟨?_, htaken.unfinished, ?_⟩, ⟨?_, fun _ => ?_, fun hunready => ?_⟩, ?_⟩, hbatches⟩
  · rw [hs.sampler, GenerationBuffer.owed, htaken.groups]
    exact h.feedback.owes
  · have hbefore := h.feedback.balance
    have huncut := htaken.uncut
    rw [hs.pieces, hs.merged, feedbackSamples_append, GenerationBuffer.missingFeedback,
      htaken.groups]
    rw [GenerationBuffer.missingFeedback] at hbefore
    omega
  · rw [hs.pieces]
    intro x hx
    rcases List.mem_append.1 hx with hx | hx
    · exact h.roundTrip.positive x hx
    · obtain ⟨b, hb, rfl⟩ := List.mem_map.1 hx
      exact htaken.positive b hb
  · rw [hs.pieces]
    simp [hbatches]
  · rw [hs.merged]
    refine h.roundTrip.unready fun hready => hunready ?_
    rcases hs.state with hsame | ⟨-, hneeds⟩
    · rw [hsame, hready]
    · rw [hneeds] at hready
      cases hready
  · exact hs.config ▸ h.sends

/-- Production that does not fail in the engine. -/
theorem RunnerFeedback.produces (h : RunnerFeedback set r) {counts : BatchQueueCounts}
    {replies : ProduceReplies} {src src' : IdSource} {result : Except RunnerError (Nat × Bool)}
    (hp : r.produce set.kit counts replies src = (src', r', result))
    (hfine : ∀ e, result ≠ .error (.engine e)) : RunnerFeedback set r' := by
  have hstart : RunnerFeedback set { r with waitingForCampaignBudget := false } :=
    ⟨h.feedback, h.roundTrip, h.sends⟩
  have hslots : ∀ {r₁ : SamplerAggregatorRunner V P A M C}, RunnerFeedback set r₁ →
      r₁.runtimeState.generation.hasPending = true →
      r₁.enqueueSlots set.kit src = (src', r', result) → RunnerFeedback set r' := by
    intro r₁ h₁ hpending hsend
    rcases SamplerAggregatorRunner.enqueueSlots_sent hsend with ⟨e, he⟩ | ⟨batches, -, hs⟩
    · exact absurd he (hfine e)
    · exact (h₁.sent hs hpending).1
  unfold SamplerAggregatorRunner.produce at hp
  dsimp only at hp
  split at hp
  · cases hp
    exact hstart
  split at hp
  · exact hslots hstart ‹_› hp
  · have hprepared : SamplerAggregatorRunner.Prepared set.kit counts
      { r with waitingForCampaignBudget := false } _ :=
      SamplerAggregatorRunner.prepareDraw_prepared counts replies _
    generalize SamplerAggregatorRunner.prepareDraw set.kit counts replies
      { r with waitingForCampaignBudget := false } = out at hprepared hp
    have hkept : (∀ e, out.2 ≠ some (.error (.engine e))) → RunnerFeedback set out.1 ∧
        (out.2 = none → out.1.runtimeState.generation.hasPending = true) := by
      intro hout
      cases hprepared with
      | fails _ _ ha => exact ⟨hstart.asked ha, fun hnone => by cases hnone⟩
      | finished _ | spent _ | reached _ _ _ => exact ⟨hstart, fun hnone => by cases hnone⟩
      | supplied _ ha _ | unfunded _ ha _ => exact ⟨hstart.asked ha, fun hnone => by cases hnone⟩
      | asks _ ha limit hlimit out hdrew =>
        exact (hstart.asked ha).drew (hlimit hstart.sends) hdrew hout
    obtain ⟨r₁, prepared⟩ := out
    cases prepared with
    | some prepared =>
      cases hp
      exact (hkept fun e he => hfine e (Option.some.inj he)).1
    | none =>
      obtain ⟨h₁, hpending⟩ := hkept fun e he => by cases he
      exact hslots h₁ (hpending rfl) hp

end

end Gammaboard.Runners
