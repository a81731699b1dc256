import Gammaboard.Runners.SamplerRuns

/-!
# The sample budget

`committed` counts the samples a runner has produced and those its generation
buffer still holds. Only a fresh draw adds to them, and a draw is bounded by
what the task's limit and the campaign's allowance leave. Ids, ingestion and
other runners do not matter.
-/

namespace Gammaboard.Runners

open Gammaboard.Core Gammaboard.Stores Gammaboard.Lib Gammaboard.Sampling Gammaboard.Evaluation

variable {V P A M C : Type}

/-- The samples the task may produce. -/
def SampleTask.maxSamples (t : SampleTask V) : Option Int :=
  t.stopCondition.elim t.nrExpectedSamples (·.maxSamples)

/-- The samples produced and those still in the generation buffer. -/
def SamplerAggregatorRunner.committed (r : SamplerAggregatorRunner V P A M C) : Int :=
  r.nrProducedSamples + r.runtimeState.generation.pendingSamples

/-! ## Production -/

/-- What a step may do to the samples committed: they stay, or a draw has been made within the
task's limit and, unless the run is known to belong to no campaign, within the allowance of the
reply. -/
structure Spends (r r' : SamplerAggregatorRunner V P A M C)
    (allowance : Except StoreError (Option Int)) : Prop where
  task : r'.task = r.task
  total : r'.runtimeState.producedSamplesTotal - r'.nrProducedSamples =
    r.runtimeState.producedSamplesTotal - r.nrProducedSamples
  managed : r'.campaignManaged = r.campaignManaged ∨
    ∃ granted, allowance = .ok granted ∧ r'.campaignManaged = some granted.isSome
  produced : r.nrProducedSamples ≤ r'.nrProducedSamples
  drawn : r'.committed ≤ r.committed ∨
    (∀ target, r.task.maxSamples = some target → r'.committed ≤ target) ∧
      (r.campaignManaged = some false ∨
        ∃ granted, allowance = .ok granted ∧ ∀ a, granted = some a → r'.committed ≤ a)

/-- Nothing is drawn. -/
structure Rests (r r' : SamplerAggregatorRunner V P A M C) : Prop where
  task : r'.task = r.task
  total : r'.runtimeState.producedSamplesTotal - r'.nrProducedSamples =
    r.runtimeState.producedSamplesTotal - r.nrProducedSamples
  managed : r'.campaignManaged = r.campaignManaged
  produced : r.nrProducedSamples ≤ r'.nrProducedSamples
  committed : r'.committed ≤ r.committed

/-- A change of the queue, the sampler or the records: nothing is drawn and nothing sent. -/
structure Still (r r' : SamplerAggregatorRunner V P A M C) : Prop where
  task : r'.task = r.task
  nrProducedSamples : r'.nrProducedSamples = r.nrProducedSamples
  total : r'.runtimeState.producedSamplesTotal = r.runtimeState.producedSamplesTotal
  pending : r'.runtimeState.generation.pending = r.runtimeState.generation.pending
  managed : r'.campaignManaged = r.campaignManaged

variable {r r' r'' : SamplerAggregatorRunner V P A M C} {reply : Except StoreError (Option Int)}

theorem Still.refl (r : SamplerAggregatorRunner V P A M C) : Still r r := ⟨rfl, rfl, rfl, rfl, rfl⟩

theorem Still.trans (h : Still r r') (h' : Still r' r'') : Still r r'' :=
  ⟨h'.task.trans h.task, h'.nrProducedSamples.trans h.nrProducedSamples, h'.total.trans h.total,
    h'.pending.trans h.pending, h'.managed.trans h.managed⟩

theorem Still.rests (h : Still r r') : Rests r r' := by
  refine ⟨h.task, by rw [h.nrProducedSamples, h.total], h.managed, h.nrProducedSamples.ge,
    le_of_eq ?_⟩
  simp only [SamplerAggregatorRunner.committed, GenerationBuffer.pendingSamples,
    h.nrProducedSamples, h.pending]

theorem Rests.spends (h : Rests r r') : Spends r r' reply :=
  ⟨h.task, h.total, .inl h.managed, h.produced, .inl h.committed⟩

theorem Still.spends (h : Still r r') : Spends r r' reply := h.rests.spends

theorem Rests.trans (h : Rests r r') (h' : Rests r' r'') : Rests r r'' :=
  ⟨h'.task.trans h.task, h'.total.trans h.total, h'.managed.trans h.managed,
    h.produced.trans h'.produced, h'.committed.trans h.committed⟩

theorem Rests.then_spends (h : Rests r r') (h' : Spends r' r'' reply) :
    Spends r r'' reply where
  task := h'.task.trans h.task
  total := h'.total.trans h.total
  managed := by
    rw [← h.managed]
    exact h'.managed
  produced := h.produced.trans h'.produced
  drawn := by
    rcases h'.drawn with hless | hwithin
    · exact .inl (hless.trans h.committed)
    · rw [← h.task, ← h.managed]
      exact .inr hwithin

theorem Spends.then_rests (h : Spends r r' reply) (h' : Rests r' r'') :
    Spends r r'' reply where
  task := h'.task.trans h.task
  total := h'.total.trans h.total
  managed := by
    rw [h'.managed]
    exact h.managed
  produced := h.produced.trans h'.produced
  drawn := by
    rcases h.drawn with hless | ⟨htarget, hallowance⟩
    · exact .inl (h'.committed.trans hless)
    · refine .inr ⟨fun target ht => h'.committed.trans (htarget target ht), ?_⟩
      rcases hallowance with hfree | ⟨granted, hreply, hle⟩
      · exact .inl hfree
      · exact .inr ⟨granted, hreply, fun a ha => h'.committed.trans (hle a ha)⟩

namespace SamplerAggregatorRunner

variable (kit : Kit V P A M C)

/-- What is sent leaves the buffer. -/
theorem enqueueGenerated_rests (slots chunkSize : Nat) (src : IdSource)
    (r : SamplerAggregatorRunner V P A M C) :
    Rests r (enqueueGenerated kit slots chunkSize src r).2.1 := by
  obtain ⟨hsent, hless⟩ := GenerationBuffer.takeBatches_samples kit.sampler.payload slots chunkSize
    r.runtimeState.generation
  unfold enqueueGenerated
  cases htake : r.runtimeState.generation.takeBatches kit.sampler.payload slots chunkSize with
  | mk generation result =>
    rw [htake] at hsent hless
    cases result with
    | error e =>
      refine ⟨rfl, rfl, rfl, le_rfl, ?_⟩
      show r.nrProducedSamples + (generation.pendingSamples : Int) ≤
        r.nrProducedSamples + (r.runtimeState.generation.pendingSamples : Int)
      dsimp only at hless
      omega
    | ok batches =>
      have hsum : (batches.map fun b => (b.nrSamples : Int)).sum =
          (((batches.map (·.nrSamples)).sum : Nat) : Int) := by
        clear hsent hless htake
        induction batches with
        | nil => rfl
        | cons b rest ih => simp only [List.map_cons, List.sum_cons, ih, Nat.cast_add]
      have hsamples := hsent batches rfl
      refine ⟨rfl, ?_, rfl, ?_, ?_⟩
      · dsimp only
        omega
      · dsimp only
        omega
      · show r.nrProducedSamples + (batches.map fun b => (b.nrSamples : Int)).sum +
            (generation.pendingSamples : Int) ≤
          r.nrProducedSamples + (r.runtimeState.generation.pendingSamples : Int)
        dsimp only at hsamples
        omega

theorem enqueueSlots_rests (src : IdSource) (r : SamplerAggregatorRunner V P A M C) :
    Rests r (enqueueSlots kit src r).2.1 := by
  unfold enqueueSlots
  dsimp only
  split
  · refine .trans (Still.rests ?_) (enqueueGenerated_rests kit _ _ _ _)
    exact ⟨rfl, rfl, rfl, rfl, rfl⟩
  · refine .trans (Still.rests ?_) (enqueueGenerated_rests kit _ _ _ _)
    exact ⟨rfl, rfl, rfl, rfl, rfl⟩

/-- A draw from an empty buffer commits at most `maxSamples` more. -/
structure Draws (r r' : SamplerAggregatorRunner V P A M C) (maxSamples : Nat) : Prop where
  task : r'.task = r.task
  total : r'.runtimeState.producedSamplesTotal - r'.nrProducedSamples =
    r.runtimeState.producedSamplesTotal - r.nrProducedSamples
  managed : r'.campaignManaged = r.campaignManaged
  produced : r'.nrProducedSamples = r.nrProducedSamples
  committed : r'.committed ≤ r.nrProducedSamples + maxSamples

theorem generateDraw_draws (maxSamples : Nat) {r : SamplerAggregatorRunner V P A M C}
    (hnone : r.runtimeState.generation.pending = none) :
    Draws r (generateDraw kit maxSamples r).1 maxSamples := by
  have hsame : ∀ {r' : SamplerAggregatorRunner V P A M C}, r'.task = r.task →
      r'.nrProducedSamples = r.nrProducedSamples →
      r'.runtimeState.producedSamplesTotal = r.runtimeState.producedSamplesTotal →
      r'.runtimeState.generation.pending = none → r'.campaignManaged = r.campaignManaged →
      Draws r r' maxSamples := by
    intro r' ht hp htotal hpending hm
    refine ⟨ht, by rw [hp, htotal], hm, hp, ?_⟩
    simp [committed, GenerationBuffer.pendingSamples, hp, hpending]
  unfold generateDraw
  split
  · exact hsame rfl rfl rfl hnone rfl
  · exact hsame rfl rfl rfl hnone rfl
  · exact hsame rfl rfl rfl hnone rfl
  · rename_i sampler batch trainingRemaining _
    dsimp only
    split
    · exact hsame rfl rfl rfl hnone rfl
    · rename_i hsize
      split
      · exact hsame rfl rfl rfl hnone rfl
      · rename_i generation hbuffer
        have hpending : generation.pendingSamples = batch.nrSamples := by
          unfold GenerationBuffer.bufferDraw at hbuffer
          split at hbuffer
          · cases hbuffer
          · split at hbuffer
            · cases hbuffer
            · cases hbuffer
              simp [GenerationBuffer.pendingSamples]
        have hrecorded : (if trainingRemaining.isSome = true then
            generation.recordDraw batch.nrSamples else generation).pendingSamples =
              batch.nrSamples := by
          split
          · exact hpending
          · exact hpending
        refine ⟨rfl, rfl, rfl, rfl, ?_⟩
        simp only [committed, hrecorded]
        omega

/-- The part of the budget a draw may use lies within every limit. -/
theorem prepareDraw_spends (counts : BatchQueueCounts) (replies : ProduceReplies)
    {r : SamplerAggregatorRunner V P A M C} (hnone : r.runtimeState.generation.pending = none) :
    Spends r (prepareDraw kit counts replies r).1 replies.allowance := by
  have hrests : Still r r := .refl r
  unfold prepareDraw
  split
  · exact hrests.spends
  split
  · exact hrests.spends
  rename_i budget hbudget
  split
  · exact hrests.spends
  split
  · exact hrests.spends
  split
  · exact hrests.spends
  split
  · exact hrests.spends
  rename_i evaluators _
  dsimp only
  split
  · refine Still.spends ?_
    exact ⟨rfl, rfl, rfl, rfl, rfl⟩
  split
  · refine Still.spends ?_
    exact ⟨rfl, rfl, rfl, rfl, rfl⟩
  rename_i granted hgranted
  -- a run that belongs to no campaign is not asked again
  have hreply : r.campaignManaged = some false ∧ granted = none ∨
      replies.allowance = .ok granted := by
    split at hgranted
    · rename_i hfree
      cases hgranted
      exact .inl ⟨hfree, rfl⟩
    · exact .inr hgranted
  have hmanaged : some granted.isSome = r.campaignManaged ∨
      ∃ granted', replies.allowance = .ok granted' ∧
        some granted.isSome = some granted'.isSome := by
    rcases hreply with ⟨hfree, rfl⟩ | hreply
    · exact .inl hfree.symm
    · exact .inr ⟨granted, hreply, rfl⟩
  split
  · refine ⟨rfl, rfl, hmanaged, le_rfl, .inl (le_of_eq ?_)⟩
    rfl
  · rename_i hremaining
    generalize hmax : min (r.queue.config.maxGenerationSize : Nat) _ = maxSamples
    have hdraws := generateDraw_draws kit maxSamples (r := { r with
      queue := { r.queue with cachedActiveEvaluatorCount := some evaluators }
      campaignManaged := some granted.isSome }) hnone
    refine ⟨hdraws.task, hdraws.total, ?_, hdraws.produced.ge, .inr ⟨fun target htarget => ?_, ?_⟩⟩
    · rw [hdraws.managed]
      exact hmanaged
    · have hcommitted := hdraws.committed
      dsimp only at hcommitted
      unfold activeSampleRemainingBudget at hbudget
      unfold SampleTask.maxSamples at htarget
      simp only [htarget] at hbudget
      split at hbudget
      · cases hbudget
      · cases hbudget
        have hle : maxSamples ≤ (target - r.nrProducedSamples -
            (r.runtimeState.generation.pendingSamples : Int)).toNat := by
          rw [← hmax, Option.getD_some]
          omega
        omega
    · rcases hreply with ⟨hfree, -⟩ | hreply
      · exact .inl hfree
      · refine .inr ⟨granted, hreply, fun a ha => ?_⟩
        subst ha
        have hcommitted := hdraws.committed
        dsimp only at hcommitted
        simp only [Option.map_some, Option.some.injEq] at hremaining
        have hle : maxSamples ≤ (a - r.nrProducedSamples).toNat := by
          rw [← hmax, Option.map_some, Option.getD_some]
          omega
        omega

/-- `produce` draws within the budget. -/
theorem produce_spends (counts : BatchQueueCounts) (replies : ProduceReplies) (src : IdSource)
    (r : SamplerAggregatorRunner V P A M C) :
    Spends r (produce kit counts replies src r).2.1 replies.allowance := by
  have hwaiting : Rests r { r with waitingForCampaignBudget := false } :=
    Still.rests ⟨rfl, rfl, rfl, rfl, rfl⟩
  unfold produce
  dsimp only
  split
  · exact hwaiting.spends
  split
  · exact (hwaiting.trans (enqueueSlots_rests kit src _)).spends
  · rename_i hpending
    have hnone : r.runtimeState.generation.pending = none := by
      simpa [GenerationBuffer.hasPending] using hpending
    have hprepared := prepareDraw_spends kit counts replies
      (r := { r with waitingForCampaignBudget := false }) hnone
    split
    · rename_i heq
      rw [heq] at hprepared
      exact hwaiting.then_spends hprepared
    · rename_i r₁ heq
      rw [heq] at hprepared
      exact hwaiting.then_spends (hprepared.then_rests (enqueueSlots_rests kit src r₁))

/-- Ingestion draws nothing. -/
theorem processCompletedBatches_still (completed : List (CompletedBatch (BatchResult V A)))
    (tuned : Nat) (due : Bool) (r : SamplerAggregatorRunner V P A M C) :
    Still r (processCompletedBatches kit completed tuned due r).1 := by
  have hcases := processed kit completed tuned due r
  have hkeeps := ingestAll_ingesting kit completed { r with queue := r.queue.tuned tuned }
  generalize processCompletedBatches kit completed tuned due r = out at hcases
  have hall : Still r (ingestAll kit completed { r with queue := r.queue.tuned tuned }).1 :=
    ⟨hkeeps.task, hkeeps.nrProducedSamples, hkeeps.producedSamplesTotal, hkeeps.pending,
      hkeeps.campaignManaged⟩
  cases hcases with
  | nothing h => exact .refl r
  | otherTask b hb htask message => exact .refl r
  | refused htask r₁ e heq =>
    rw [heq] at hall
    exact hall
  | whole hne htask r₁ heq =>
    rw [heq] at hall
    refine hall.trans ?_
    exact ⟨rfl, rfl, rfl, rfl, rfl⟩

/-- The rest of a tick draws within the budget. -/
theorem work_spends (taken : List (CompletedBatch (BatchResult V A))) (counts : BatchQueueCounts)
    (replies : TickReplies) (src : IdSource) (r : SamplerAggregatorRunner V P A M C) :
    Spends r (work kit taken counts replies src r).2.1 replies.produce.allowance := by
  have hprocessed := (processCompletedBatches_still kit taken replies.tuned replies.cleanupDue r).rests
  unfold work
  split
  · rename_i heq
    rw [heq] at hprocessed
    exact hprocessed.spends
  · rename_i r₁ stats heq
    rw [heq] at hprocessed
    have hproduced := produce_spends kit
      { counts with completed := counts.completed - stats.completedBatches } replies.produce src r₁
    dsimp only
    split
    · rename_i hproduce
      rw [hproduce] at hproduced
      exact hprocessed.then_spends hproduced
    · rename_i hproduce
      rw [hproduce] at hproduced
      split <;> exact hprocessed.then_spends hproduced

end SamplerAggregatorRunner

/-! ## Events -/

section

variable {set : Setting V P A M C} {db : Database V P A M C} {g : BatchIdGenerator}
  {l : LiveRunner V P A M C}

theorem pollStep_still (clock : Nat → UInt64) (notify : Except StoreError Unit) (due : Bool) :
    Still l.runner (pollStep db g l clock notify due).live.runner := by
  unfold pollStep
  split
  · split <;> exact ⟨rfl, rfl, rfl, rfl, rfl⟩
  · exact .refl _

theorem drainStep_still (clock : Nat → UInt64) (notify : Except StoreError Unit) (tuned : Nat)
    (due : Bool) (published : Except RunnerError Unit) :
    Still l.runner (drainStep set db g l clock notify tuned due published).live.runner := by
  unfold drainStep
  split
  · split
    · exact .refl _
    · exact ⟨rfl, rfl, rfl, rfl, rfl⟩
    · split <;> exact ⟨rfl, rfl, rfl, rfl, rfl⟩
    · rename_i q₁ taken _ _
      have hhanded : Still l.runner { l.runner with queue := q₁.recordHanded taken } :=
        ⟨rfl, rfl, rfl, rfl, rfl⟩
      have hprocessed := hhanded.trans
        (SamplerAggregatorRunner.processCompletedBatches_still set.kit taken tuned due _)
      dsimp only
      split
      · rename_i heq
        rw [heq] at hprocessed
        exact hprocessed
      · rename_i heq
        rw [heq] at hprocessed
        exact hprocessed
  · exact .refl _

theorem saveStep_still (outcome : SaveOutcome) :
    Still l.runner (saveStep set db g l outcome).live.runner := by
  unfold saveStep
  split
  · split
    · rename_i hs
      obtain ⟨sampler, rfl⟩ := SamplerAggregatorRunner.checkpoint_error set.kit hs
      exact ⟨rfl, rfl, rfl, rfl, rfl⟩
    · rename_i hs
      obtain ⟨⟨sampler, rfl⟩, -⟩ := SamplerAggregatorRunner.checkpoint_ok set.kit hs
      split <;> exact ⟨rfl, rfl, rfl, rfl, rfl⟩
  · exact .refl _

/-- Of all events only the end of a tick draws. -/
theorem liveStep_spends (e : NodeEvent) :
    Still l.runner (liveStep set db g l e).live.runner ∨
      ∃ clock replies taken counts, e = .work clock replies ∧ l.phase = .counted taken counts ∧
        Spends l.runner (liveStep set db g l e).live.runner replies.produce.allowance := by
  cases e with
  | work clock replies =>
    cases hphase : l.phase with
    | counted taken counts =>
      refine .inr ⟨clock, replies, taken, counts, rfl, rfl, ?_⟩
      simp only [liveStep, workStep, hphase]
      exact SamplerAggregatorRunner.work_spends set.kit taken counts replies _ l.runner
    | built | idle | polled _ | erred | closing _ _ | ended =>
      refine .inl ?_
      simp only [liveStep, workStep, hphase]
      exact .refl _
  | poll clock notify due => exact .inl (pollStep_still clock notify due)
  | drain clock notify tuned due published =>
    exact .inl (drainStep_still clock notify tuned due published)
  | save outcome => exact .inl (saveStep_still outcome)
  | count error =>
    refine .inl ?_
    simp only [liveStep]
    unfold countStep
    split
    · split <;> exact ⟨rfl, rfl, rfl, rfl, rfl⟩
    · exact .refl _
  | flush clock notify =>
    refine .inl ?_
    simp only [liveStep]
    unfold flushStep
    split
    · split <;> exact ⟨rfl, rfl, rfl, rfl, rfl⟩
    · exact .refl _
  | insertCommits i createdAt =>
    refine .inl ?_
    simp only [liveStep]
    unfold insertCommitsStep
    split
    · exact .refl _
    · split
      · exact .refl _
      · split <;> exact ⟨rfl, rfl, rfl, rfl, rfl⟩
  | insertReturns i error =>
    refine .inl ?_
    simp only [liveStep]
    unfold insertReturnsStep
    split
    · exact .refl _
    · split <;> exact ⟨rfl, rfl, rfl, rfl, rfl⟩
  | fetchRuns error =>
    refine .inl ?_
    simp only [liveStep]
    unfold fetchRunsStep
    split
    · exact .refl _
    · split <;> exact ⟨rfl, rfl, rfl, rfl, rfl⟩
  | cleanupRuns room error =>
    refine .inl ?_
    simp only [liveStep]
    unfold cleanupRunsStep
    split
    · exact .refl _
    · split <;> exact ⟨rfl, rfl, rfl, rfl, rfl⟩
  | tune config =>
    refine .inl ?_
    simp only [liveStep]
    unfold tuneStep
    split <;> exact ⟨rfl, rfl, rfl, rfl, rfl⟩
  | stop =>
    refine .inl ?_
    simp only [liveStep]
    unfold stopStep
    split <;> exact ⟨rfl, rfl, rfl, rfl, rfl⟩
  | reboot _ | expireLease | renewLease | build _ | activate _ | leave _ => exact .inl (.refl _)

end

/-! ## Runs -/

/-- The samples committed lie within `limit`, and a child of a campaign has not been taken for an
ordinary run. -/
structure Within (set : Setting V P A M C) (limit : Int) (child : Bool)
    (r : SamplerAggregatorRunner V P A M C) : Prop where
  task : r.task = set.task
  total : r.runtimeState.producedSamplesTotal - r.nrProducedSamples = 0
  produced : 0 ≤ r.nrProducedSamples
  committed : r.committed ≤ limit
  managed : child = true → r.campaignManaged ≠ some false

/-- The allowance query of an event, and its answer. -/
def SamplerEvent.allowance : SamplerEvent V A → Option (Except StoreError (Option Int))
  | .node _ (.work _ replies) => some replies.produce.allowance
  | _ => none

/-- The draws of an event lie within `limit`: it is the limit of the task, or for a child of a
campaign no allowance exceeds it. -/
def Limited (set : Setting V P A M C) (limit : Int) (child : Bool) (e : SamplerEvent V A) : Prop :=
  match child with
  | true => ∀ granted, e.allowance = some (.ok granted) → ∃ a, granted = some a ∧ a ≤ limit
  | false => set.task.maxSamples = some limit

section

variable {set : Setting V P A M C} {limit : Int} {child : Bool}

theorem Within.rests (h : Within set limit child r) (hr : Rests r r') : Within set limit child r' where
  task := hr.task.trans h.task
  total := hr.total.trans h.total
  produced := h.produced.trans hr.produced
  committed := hr.committed.trans h.committed
  managed := by
    rw [hr.managed]
    exact h.managed

theorem Within.spends {n : Nat} {clock : Nat → UInt64} {replies : TickReplies}
    (h : Within set limit child r) (hs : Spends r r' replies.produce.allowance)
    (hl : Limited set limit child (.node n (.work clock replies) : SamplerEvent V A)) :
    Within set limit child r' := by
  refine ⟨hs.task.trans h.task, hs.total.trans h.total, h.produced.trans hs.produced, ?_,
    fun hchild => ?_⟩
  · rcases hs.drawn with hless | ⟨htarget, hallowance⟩
    · exact hless.trans h.committed
    · cases child with
      | false => exact htarget limit (by rw [h.task]; exact hl)
      | true =>
        rcases hallowance with hfree | ⟨granted, hreply, hle⟩
        · exact absurd hfree (h.managed rfl)
        · obtain ⟨a, rfl, ha⟩ := hl granted (congrArg some hreply)
          exact (hle a rfl).trans ha
  · subst hchild
    rcases hs.managed with hsame | ⟨granted, hreply, hmanaged⟩
    · rw [hsame]
      exact h.managed rfl
    · obtain ⟨a, rfl, -⟩ := hl granted (congrArg some hreply)
      rw [hmanaged]
      simp

/-- A saved checkpoint within `limit`. -/
structure SavedWithin (limit : Int) (c : SamplerAggregatorCheckpoint V P A M) : Prop where
  produced : 0 ≤ c.producedSamples
  committed : c.committed ≤ limit

/-- A checkpoint has committed what its runner has. -/
theorem Within.saves {c : SamplerAggregatorCheckpoint V P A M} (h : Within set limit child r)
    (hs : SamplerAggregatorRunner.Saves r c) : SavedWithin limit c := by
  have hcommitted := h.committed
  have htotal := h.total
  have hproduced := h.produced
  unfold SamplerAggregatorRunner.committed at hcommitted
  constructor
  · unfold SamplerAggregatorCheckpoint.producedSamples
    rw [hs.runtimeState]
    omega
  · unfold SamplerAggregatorCheckpoint.committed SamplerAggregatorCheckpoint.producedSamples
    rw [hs.runtimeState]
    omega

theorem Within.start (hlimit : 0 ≤ limit) : Within set limit child
    (.start set.runId set.task set.config set.initialBatchSize set.startSampler set.startState) :=
  ⟨rfl, rfl, le_rfl, hlimit, fun _ => by simp [SamplerAggregatorRunner.start]⟩

theorem Within.resume {c : SamplerAggregatorCheckpoint V P A M} (hc : SavedWithin limit c) :
    Within set limit child (.resume set.runId set.task set.config c) := by
  refine ⟨rfl, ?_, hc.produced, ?_, fun _ => by simp [SamplerAggregatorRunner.resume]⟩
  · show c.runtimeState.producedSamplesTotal - c.producedSamples = 0
    exact sub_self _
  · have hpending : c.runtimeState.generation.restored.pendingSamples =
        c.runtimeState.generation.pendingSamples := by
      unfold GenerationBuffer.pendingSamples GenerationBuffer.restored
      cases c.runtimeState.generation.pending <;> rfl
    show c.producedSamples + (c.runtimeState.generation.restored.pendingSamples : Int) ≤ limit
    rw [hpending]
    exact hc.committed

namespace SamplerSystem

variable {s : SamplerSystem V P A M C}

/-- Every runner and the saved checkpoint are within the limit. -/
structure AllWithin (set : Setting V P A M C) (limit : Int) (child : Bool)
    (s : SamplerSystem V P A M C) : Prop where
  live : ∀ n l, s.liveAt n = some l → Within set limit child l.runner
  saved : ∀ c ∈ s.db.checkpoint, SavedWithin limit c

theorem AllWithin.build (h : AllWithin set limit child s) (hlimit : 0 ≤ limit)
    (outcome : BuildOutcome) :
    (∀ r ∈ (buildRunner set outcome s.db).2, Within set limit child r) ∧
      ∀ c ∈ (buildRunner set outcome s.db).1.checkpoint, SavedWithin limit c := by
  unfold buildRunner
  split
  · exact ⟨by simp, h.saved⟩
  · cases hc : s.db.checkpoint with
    | some c =>
      have hsaved := h.saved c hc
      dsimp only
      cases restoreSamplerCheckpoint set.runId c s.db.rows with
      | error e => exact ⟨by simp, h.saved⟩
      | ok rows =>
        refine ⟨fun r hr => ?_, fun c' hc' => ?_⟩
        · dsimp only at hr
          split at hr
          · cases hr
            exact .resume hsaved
          · cases hr
        · exact h.saved c' (hc ▸ hc')
    | none =>
      have hstart : Within set limit child (.start set.runId set.task set.config
          set.initialBatchSize set.startSampler set.startState) := .start hlimit
      dsimp only
      split
      · exact ⟨by simp, h.saved⟩
      · rename_i r c hs
        obtain ⟨⟨sampler, rfl⟩, hsaves⟩ := SamplerAggregatorRunner.checkpoint_ok set.kit hs
        refine ⟨fun r' hr' => ?_, fun c' hc' => ?_⟩
        · dsimp only at hr'
          split at hr'
          · cases hr'
            exact { hstart with }
          · cases hr'
        · cases hc'
          exact hstart.saves hsaves

theorem AllWithin.nodeStep (h : AllWithin set limit child s) (hlimit : 0 ≤ limit) (n : Nat)
    (e : NodeEvent) (hl : Limited set limit child (.node n e : SamplerEvent V A)) :
    AllWithin set limit child (s.nodeStep set n e) := by
  have hothers : ∀ {s' : SamplerSystem V P A M C}, (∀ m, m ≠ n → s'.liveAt m = s.liveAt m) →
      (∀ l, s'.liveAt n = some l → Within set limit child l.runner) →
      ∀ m l, s'.liveAt m = some l → Within set limit child l.runner := by
    intro s' hothers hn m l hlive
    by_cases hm : m = n
    · exact hn l (hm ▸ hlive)
    · exact h.live m l ((hothers m hm).symm.trans hlive)
  cases nodeMove n e s with
  | rests hdb hlive _ _ _ => exact ⟨fun m l hm => h.live m l ((hlive m).symm.trans hm), hdb ▸ h.saved⟩
  | drops hdb hnone hrest _ _ _ =>
    refine ⟨hothers hrest fun l hlive => ?_, hdb ▸ h.saved⟩
    rw [hnone] at hlive
    cases hlive
  | builds outcome _ _ hdb hlive hrest _ _ _ =>
    obtain ⟨hrunner, hsaved⟩ := h.build hlimit outcome
    refine ⟨hothers hrest fun l hl' => ?_, hdb ▸ hsaved⟩
    rw [hlive] at hl'
    obtain ⟨r, hr, rfl⟩ := Option.map_eq_some_iff.1 hl'
    exact hrunner r hr
  | activates l hlive _ hdb hlive' hrest _ _ _ =>
    refine ⟨hothers hrest fun l' hl' => ?_, hdb ▸ h.saved⟩
    rw [hlive'] at hl'
    cases hl'
    exact h.live n l hlive
  | steps node hn l hnode hdb hlive hrest _ _ _ =>
    have hbefore := h.live n l (by simp [liveAt, hn, hnode])
    have htables : TablesKept s.db (liveStep set s.db node.generator l e).db l.runner :=
      liveStep_tables e
    refine ⟨hothers hrest fun l' hl' => ?_, fun c hc => ?_⟩
    · rw [hlive] at hl'
      cases hl'
      have hspends : Still l.runner (liveStep set s.db node.generator l e).live.runner ∨ _ :=
        liveStep_spends e
      rcases hspends with hstill | ⟨clock, replies, _, _, rfl, -, hspends⟩
      · exact hbefore.rests hstill.rests
      · exact hbefore.spends hspends hl
    · rw [hdb] at hc
      rcases htables.checkpoint with hsame | ⟨c', hc', hsaves⟩
      · exact h.saved c (hsame ▸ hc)
      · rw [hc'] at hc
        cases hc
        exact hbefore.saves hsaves

/-- Evaluators touch neither runners nor the checkpoint. -/
theorem step_evaluator (set : Setting V P A M C) (s : SamplerSystem V P A M C)
    {e : SamplerEvent V A} (he : ∀ n e', e ≠ .node n e') :
    (∀ n, (s.step set e).liveAt n = s.liveAt n) ∧
      (s.step set e).db.checkpoint = s.db.checkpoint := by
  cases e with
  | node n e => exact absurd rfl (he n e)
  | submit batchId uuid token result =>
    refine ⟨fun _ => rfl, ?_⟩
    show (s.db.submit set.kit batchId uuid token result).checkpoint = _
    unfold Database.submit
    split
    · rfl
    · split <;> rfl
  | claim _ _ _ _ | releaseWorker _ | releaseUntracked _ _ | reclaim _ | failBatch _ _ _ _ _ =>
    exact ⟨fun _ => rfl, rfl⟩

theorem AllWithin.step (h : AllWithin set limit child s) (hlimit : 0 ≤ limit)
    (e : SamplerEvent V A) (hl : Limited set limit child e) :
    AllWithin set limit child (s.step set e) := by
  have hevaluator : (∀ n e', e ≠ .node n e') → AllWithin set limit child (s.step set e) := by
    intro he
    obtain ⟨hlive, hcheckpoint⟩ := step_evaluator set s he
    exact ⟨fun n l hn => h.live n l ((hlive n).symm.trans hn), hcheckpoint ▸ h.saved⟩
  cases e with
  | node n e => exact h.nodeStep hlimit n e hl
  | claim _ _ _ _ | releaseWorker _ | releaseUntracked _ _ | reclaim _ | submit _ _ _ _
  | failBatch _ _ _ _ _ => exact hevaluator fun m e' he => by cases he

theorem allWithin_init (entropies : List UInt16) :
    AllWithin set limit child (init entropies) := by
  refine ⟨fun n l hl => ?_, by simp [init]⟩
  rw [liveAt_init] at hl
  cases hl

theorem allWithin_run (hlimit : 0 ≤ limit) {entropies : List UInt16}
    {events : List (SamplerEvent V A)} (hl : ∀ e ∈ events, Limited set limit child e) :
    AllWithin set limit child (run (step set) (init entropies) events) := by
  have hstep : ∀ s e, AllWithin set limit child s → Limited set limit child e →
      AllWithin set limit child (step set s e) :=
    fun _ e hs hok => hs.step hlimit e hok
  exact run_invariant hstep (allWithin_init entropies) (along_of_forall _ hl)

end SamplerSystem

end

/-- The allowances granted by the answers of these events. -/
def allowances (events : List (SamplerEvent V A)) : List Int :=
  events.filterMap fun e =>
    match e.allowance with
    | some (.ok granted) => granted
    | _ => none

/-- The largest allowance granted so far. -/
def largestAllowance (events : List (SamplerEvent V A)) : Int :=
  (0 :: allowances events).max (List.cons_ne_nil _ _)

/-- The run is the child of a campaign: every answer names its allowance. -/
def CampaignChild (events : List (SamplerEvent V A)) : Prop :=
  ∀ e ∈ events, e.allowance ≠ some (.ok none)

/-- The samples committed keep to the limit of the task, and those of a campaign's child to the
largest allowance it has been granted. -/
structure WithinBudget (set : Setting V P A M C) (events : List (SamplerEvent V A))
    (committed : Int) : Prop where
  target : ∀ target, set.task.maxSamples = some target → 0 ≤ target → committed ≤ target
  allowance : CampaignChild events → committed ≤ largestAllowance events

namespace SamplerSystem

/-- **Sample budget.** In every run, whatever the sampler, the settings, the allowances and the
restores, every runner and the saved checkpoint keep to the budget. -/
theorem withinBudget (set : Setting V P A M C) (entropies : List UInt16)
    (events : List (SamplerEvent V A)) :
    (∀ n l, (run (step set) (init entropies) events).liveAt n = some l →
        WithinBudget set events l.runner.committed) ∧
      ∀ c ∈ (run (step set) (init entropies) events).db.checkpoint,
        WithinBudget set events c.committed := by
  have htarget : ∀ target, set.task.maxSamples = some target → 0 ≤ target →
      AllWithin set target false (run (step set) (init entropies) events) :=
    fun target ht hle => allWithin_run hle fun _ _ => ht
  have hallowance : CampaignChild events →
      AllWithin set (largestAllowance events) true (run (step set) (init entropies) events) := by
    intro hchild
    refine allWithin_run (List.le_max_of_mem List.mem_cons_self) fun e he granted hanswer => ?_
    cases granted with
    | none => exact absurd hanswer (hchild e he)
    | some a =>
      have hgranted : a ∈ allowances events := List.mem_filterMap.2 ⟨e, he, by rw [hanswer]⟩
      exact ⟨a, rfl, List.le_max_of_mem (List.mem_cons_of_mem _ hgranted)⟩
  constructor
  · exact fun n l hl => ⟨fun target ht hle => ((htarget target ht hle).live n l hl).committed,
      fun hchild => ((hallowance hchild).live n l hl).committed⟩
  · exact fun c hc => ⟨fun target ht hle => ((htarget target ht hle).saved c hc).committed,
      fun hchild => ((hallowance hchild).saved c hc).committed⟩

end SamplerSystem

end Gammaboard.Runners
