import Gammaboard.Runners.Completion
import Gammaboard.Runners.FeedbackBalance

/-!
# Ticks that cannot make progress

A tick fails with "cannot make further progress" when it finds no work and
produces none. For a sampler that waits only for feedback this never happens in
a run whose runners are built alone, whose ids ascend, whose groups are ingested
cleanly and whose task has not failed: whatever the counters of a tick say, some
batch is open, the stop condition is reached, or the sampler draws.
-/

namespace Gammaboard.Runners

open Gammaboard.Core Gammaboard.Stores Gammaboard.Lib Gammaboard.Sampling Gammaboard.Evaluation

variable {V P A M C : Type}

/-! ## The check -/

namespace SamplerAggregatorRunner

variable (kit : Kit V P A M C)

/-- The condition under which `check_tick_terminal_state` fails for want of progress. -/
def cannotProgress (counts : BatchQueueCounts) (completedBatches producedBatches : Nat)
    (samplerWantsToProduce : Bool) (r : SamplerAggregatorRunner V P A M C) : Bool :=
  match stopConditionStatus kit r with
  | .error _ => false
  | .ok status =>
    !r.runtimeState.generation.finished && !r.waitingForCampaignBudget &&
      noProgressIsTerminal status.reached (counts.openCount + producedBatches).toNat counts.failed
        completedBatches producedBatches samplerWantsToProduce r.queue.cachedActiveEvaluatorCount

/-- The rest of a tick ends with that failure. -/
def stuck (taken : List (CompletedBatch (BatchResult V A))) (counts : BatchQueueCounts)
    (replies : TickReplies) (src : IdSource) (r : SamplerAggregatorRunner V P A M C) : Bool :=
  match processCompletedBatches kit taken replies.tuned replies.cleanupDue r with
  | (_, .error _) => false
  | (r, .ok stats) =>
    let counts := { counts with completed := counts.completed - stats.completedBatches }
    match produce kit counts replies.produce src r with
    | (_, _, .error _) => false
    | (_, r, .ok (producedBatches, samplerWantsToProduce)) =>
      (replies.published matches .ok _) &&
        cannotProgress kit counts stats.completedBatches producedBatches samplerWantsToProduce r

/-- The text of that failure. -/
def noProgressText (status : StopConditionStatus) (r : SamplerAggregatorRunner V P A M C) :
    String :=
  r.context ++ " cannot make further progress: stop condition not reached (min_samples_reached="
    ++ toString status.minSamplesReached ++ ", max_samples_reached="
    ++ toString status.maxSamplesReached ++ ", absolute_error_reached="
    ++ toString status.absoluteErrorReached ++ ", relative_error_reached="
    ++ toString status.relativeErrorReached ++ ") and sampler produced no new batches"

variable {kit}

/-- A stuck tick is one that ends with this text. -/
theorem work_stuck {taken : List (CompletedBatch (BatchResult V A))} {counts : BatchQueueCounts}
    {replies : TickReplies} {src : IdSource} {r : SamplerAggregatorRunner V P A M C}
    (h : stuck kit taken counts replies src r = true) :
    ∃ status, (work kit taken counts replies src r).2.2 =
      .error (.engine (.engine (noProgressText status
        (work kit taken counts replies src r).2.1))) := by
  unfold stuck at h
  split at h
  · cases h
  · rename_i r₁ stats hprocess
    dsimp only at h
    split at h
    · cases h
    · rename_i src₂ r₂ producedBatches wants hproduce
      unfold work
      rw [hprocess]
      dsimp only
      rw [hproduce]
      rw [Bool.and_eq_true] at h
      obtain ⟨hpublished, hcannot⟩ := h
      cases hreply : replies.published with
      | error e => simp [hreply] at hpublished
      | ok u =>
        unfold cannotProgress at hcannot
        split at hcannot
        · cases hcannot
        · rename_i status hstatus
          refine ⟨status, ?_⟩
          simp only [checkTickTerminalState, hstatus, hcannot, if_true]
          rfl

end SamplerAggregatorRunner

namespace SamplerSystem

/-- The tick that node `n` ends now fails for want of progress. -/
def stuckAt (set : Setting V P A M C) (s : SamplerSystem V P A M C) (n : Nat)
    (clock : Nat → UInt64) (replies : TickReplies) : Bool :=
  s.nodes[n]?.any fun node => node.live.any fun l =>
    match l.phase with
    | .counted taken counts => l.runner.stuck set.kit taken counts replies ⟨node.generator, clock, 0⟩
    | _ => false

/-- A tick ends in an engine error, which fails the task. -/
def tickFails (set : Setting V P A M C) (s : SamplerSystem V P A M C) : SamplerEvent V A → Bool
  | .node n (.work clock replies) =>
    (tickEnd set s n clock replies).any fun out => (out.2.2 matches .error (.engine _))
  | _ => false

/-- The configuration a live runner is tuned with. -/
def tuning : SamplerEvent V A → Option SamplerQueueConfig
  | .node _ (.tune config) => some config
  | _ => none

/-- The conditions of a run that never gets stuck. -/
def Working (set : Setting V P A M C) (s : SamplerSystem V P A M C) (e : SamplerEvent V A) : Prop :=
  Regular set s e ∧ tickFails set s e = false ∧ ∀ config ∈ tuning e, config.Sends

end SamplerSystem

instance (config : SamplerQueueConfig) : Decidable config.Sends :=
  decidable_of_iff (0 < config.maxBatchesPerTick ∧ 0 < config.maxGenerationSize)
    ⟨fun h => ⟨h.1, h.2⟩, fun h => ⟨h.slots, h.draws⟩⟩

/-! ## Steps of a live runner -/

section

variable {set : Setting V P A M C} {db : Database V P A M C} {g : BatchIdGenerator}
  {l : LiveRunner V P A M C}

/-- What a step must leave. -/
structure FeedbackKept (set : Setting V P A M C) (db : Database V P A M C)
    (r : SamplerAggregatorRunner V P A M C) : Prop where
  saved : ∀ c ∈ db.checkpoint, CheckpointFeedback set c
  live : RunnerFeedback set r

variable {q : SamplerQueue P C (BatchResult V A)} {phase : SamplerPhase V A}

theorem FeedbackKept.goto (h : FeedbackKept set db l.runner) (hq : l.runner.queue.SamePieces q) :
    FeedbackKept set (l.goto db g q phase).db (l.goto db g q phase).live.runner :=
  ⟨h.saved, h.live.withQueue hq⟩

theorem FeedbackKept.pollStep (h : FeedbackKept set db l.runner) (clock : Nat → UInt64)
    (notify : Except StoreError Unit) (due : Bool) :
    FeedbackKept set (pollStep db g l clock notify due).db
      (pollStep db g l clock notify due).live.runner := by
  unfold Runners.pollStep
  split
  · split
    · exact h
    · exact h.goto (SamplerQueue.samePieces_tickProcessed ‹_›)
    · exact h.goto (SamplerQueue.samePieces_tickProcessed ‹_›)
  · exact h

theorem FeedbackKept.workStep (h : FeedbackKept set db l.runner) (clock : Nat → UInt64)
    (replies : TickReplies)
    (hclean : ∀ taken ∈ l.ingests (.work clock replies), CleanIngest set.kit l.runner taken)
    (hunfailed : ∀ taken counts, l.phase = .counted taken counts → ∀ e,
      (l.runner.work set.kit taken counts replies ⟨g, clock, 0⟩).2.2 ≠ .error (.engine e)) :
    FeedbackKept set (workStep set db g l clock replies).db
      (workStep set db g l clock replies).live.runner := by
  unfold Runners.workStep
  split
  · rename_i taken counts hcounted
    refine ⟨h.saved, ?_⟩
    have hfine := hunfailed taken counts hcounted
    have hprocessed := h.live.processed
      (hclean taken (by simp [LiveRunner.ingests, hcounted])) replies.tuned replies.cleanupDue
    show RunnerFeedback set (l.runner.work set.kit taken counts replies ⟨g, clock, 0⟩).2.1
    unfold SamplerAggregatorRunner.work at hfine ⊢
    split at hfine
    · rename_i heq
      rw [heq] at hprocessed
      exact hprocessed
    · rename_i r₁ stats heq
      rw [heq] at hprocessed
      dsimp only at hfine ⊢
      split at hfine
      · rename_i hproduce
        exact hprocessed.produces hproduce fun e he => hfine e (by cases he; rfl)
      · rename_i hproduce
        have hproduced := hprocessed.produces hproduce fun e he => by cases he
        split <;> exact hproduced
  · exact h

theorem FeedbackKept.flushStep (h : FeedbackKept set db l.runner) (clock : Nat → UInt64)
    (notify : Except StoreError Unit) :
    FeedbackKept set (flushStep db g l clock notify).db
      (flushStep db g l clock notify).live.runner := by
  unfold Runners.flushStep
  split
  · split
    · exact h
    all_goals exact h.goto (SamplerQueue.samePieces_flushTurn ‹_›)
  · exact h

theorem FeedbackKept.drainStep (h : FeedbackKept set db l.runner) (hl : Lined set l.runner.queue)
    (clock : Nat → UInt64) (notify : Except StoreError Unit) (tuned : Nat) (due : Bool)
    (published : Except RunnerError Unit)
    (hclean : ∀ taken ∈ l.ingests (.drain clock notify tuned due published),
      CleanIngest set.kit l.runner taken) :
    FeedbackKept set (drainStep set db g l clock notify tuned due published).db
      (drainStep set db g l clock notify tuned due published).live.runner := by
  unfold Runners.drainStep
  split
  · rename_i why hclosing
    split
    · exact h
    · exact h.goto (SamplerQueue.samePieces_getProcessedReady ‹_›)
    · rename_i hready
      have hsame := SamplerQueue.samePieces_getProcessedReady hready
      split
      · exact h
      · exact h.goto (hsame.trans (SamplerQueue.samePieces_finishBackgroundMaintenance ‹_›))
      · exact h.goto (hsame.trans (SamplerQueue.samePieces_finishBackgroundMaintenance ‹_›))
    · rename_i q₁ taken hne hready
      have hsame := SamplerQueue.samePieces_getProcessedReady hready
      obtain ⟨-, -, htaken⟩ := hl.getProcessedReady hready
      have hgroup : l.ingests (.drain clock notify tuned due published) = some taken := by
        have hsome := (htaken taken rfl).2 fun hnil => hne hnil
        unfold SamplerQueue.fetched at hsome
        simp [LiveRunner.ingests, hclosing, hsome]
      have hr : RunnerFeedback set { l.runner with queue := q₁.recordHanded taken } :=
        h.live.withQueue ⟨hsame.pieces, hsame.config⟩
      have hprocessed := hr.processed ((hclean taken hgroup).withQueue _) tuned due
      dsimp only
      split
      all_goals
        rename_i heq
        rw [heq] at hprocessed
        exact ⟨h.saved, hprocessed⟩
  · exact h

/-- A save writes down the books of a runner that has inserted everything. -/
theorem RunnerFeedback.saves {r : SamplerAggregatorRunner V P A M C} (h : RunnerFeedback set r)
    (hq : r.queue.Flushed) {r' : SamplerAggregatorRunner V P A M C}
    {c : SamplerAggregatorCheckpoint V P A M} (hs : r.checkpoint set.kit = (r', .ok c)) :
    RunnerFeedback set r' ∧ CheckpointFeedback set c := by
  unfold SamplerAggregatorRunner.checkpoint at hs
  split at hs
  · cases hs
  · rename_i sampler saved hsnapshot
    have hpieces : r.queue.pieces = r.queue.allocated.map pieceOf := by
      simp [SamplerQueue.pieces, hq.buffer]
    cases hs
    have hkept := h.feedback
    refine ⟨⟨⟨.saves hkept.owes hsnapshot, hkept.unfinished, hkept.balance⟩, h.roundTrip, h.sends⟩,
      ⟨.restores hkept.owes hsnapshot, hkept.unfinished, ?_⟩, ?_⟩
    · rw [← hpieces]
      exact hkept.balance
    · rw [← hpieces]
      exact h.roundTrip

theorem FeedbackKept.saveStep (h : FeedbackKept set db l.runner)
    (hphase : PhaseInv db.rows l.runner.queue l.phase) (outcome : SaveOutcome) :
    FeedbackKept set (saveStep set db g l outcome).db
      (saveStep set db g l outcome).live.runner := by
  unfold Runners.saveStep
  split
  · rename_i why hclosing
    rw [hclosing] at hphase
    split
    · rename_i r' e hs
      refine ⟨h.saved, ?_⟩
      unfold SamplerAggregatorRunner.checkpoint at hs
      split at hs
      · rename_i hsnapshot
        cases hs
        have hkept := h.live.feedback
        exact ⟨⟨.saves hkept.owes hsnapshot, hkept.unfinished, hkept.balance⟩, h.live.roundTrip,
          h.live.sends⟩
      · cases hs
    · rename_i r' c hs
      obtain ⟨hlive, hsaved⟩ := h.live.saves hphase hs
      split
      · exact ⟨h.saved, hlive⟩
      · refine ⟨fun c' hc' => ?_, ?_⟩
        · cases hc'
          exact hsaved
        · exact hlive.withQueue (SamplerQueue.samePieces_ensureCompletedCleanup true _)
  · exact h

/-- Every event of a live runner keeps the invariant. -/
theorem FeedbackKept.liveStep (h : FeedbackKept set db l.runner) (hl : Lined set l.runner.queue)
    (hphase : PhaseInv db.rows l.runner.queue l.phase) (e : NodeEvent)
    (hclean : ∀ taken ∈ l.ingests e, CleanIngest set.kit l.runner taken)
    (hunfailed : ∀ clock replies, e = .work clock replies → ∀ taken counts,
      l.phase = .counted taken counts → ∀ e,
        (l.runner.work set.kit taken counts replies ⟨g, clock, 0⟩).2.2 ≠ .error (.engine e))
    (htune : ∀ config, e = .tune config → config.Sends) :
    FeedbackKept set (liveStep set db g l e).db (liveStep set db g l e).live.runner := by
  have hrefl : l.runner.queue.SamePieces l.runner.queue := .refl _
  cases e with
  | poll clock notify due => exact h.pollStep clock notify due
  | work clock replies => exact h.workStep clock replies hclean (hunfailed clock replies rfl)
  | flush clock notify => exact h.flushStep clock notify
  | drain clock notify tuned due published =>
    exact h.drainStep hl clock notify tuned due published hclean
  | save outcome => exact h.saveStep hphase outcome
  | tune config =>
    simp only [Runners.liveStep]
    unfold tuneStep
    split
    · exact ⟨h.saved, h.live.feedback, h.live.roundTrip, htune config rfl⟩
    · exact h
  | count error =>
    simp only [Runners.liveStep]
    unfold countStep
    split
    · split
      · exact h.goto hrefl
      · exact h.goto ⟨rfl, rfl⟩
    · exact h
  | stop =>
    simp only [Runners.liveStep]
    unfold stopStep
    split
    · exact h.goto hrefl
    · exact h.goto hrefl
    · exact h
  | insertCommits i createdAt =>
    simp only [Runners.liveStep]
    unfold insertCommitsStep
    split
    · exact h
    · split
      · exact h
      · split
        · exact ⟨h.saved, h.live.withQueue ⟨rfl, rfl⟩⟩
        · exact h.goto ⟨rfl, rfl⟩
  | insertReturns i error =>
    simp only [Runners.liveStep]
    unfold insertReturnsStep
    split
    · exact h
    · split
      · exact h
      · exact h.goto ⟨rfl, rfl⟩
  | fetchRuns error =>
    simp only [Runners.liveStep]
    unfold fetchRunsStep
    split
    · exact h
    · split
      · exact h
      · exact h.goto ⟨rfl, rfl⟩
  | cleanupRuns room error =>
    simp only [Runners.liveStep]
    unfold cleanupRunsStep
    split
    · exact h
    · split
      · exact h
      · exact ⟨h.saved, h.live.withQueue ⟨rfl, rfl⟩⟩
  | reboot _ | expireLease | renewLease | build _ | activate _ | leave _ => exact h

end

/-! ## The end of a tick -/

namespace SamplerAggregatorRunner

/-- What a failing check has seen. -/
structure CannotProgress (kit : Kit V P A M C) (counts : BatchQueueCounts)
    (completedBatches producedBatches : Nat) (wants : Bool)
    (r : SamplerAggregatorRunner V P A M C) : Prop where
  unreached : ∃ status, r.stopConditionStatus kit = .ok status ∧ status.reached = false
  unfinished : r.runtimeState.generation.finished = false
  funded : r.waitingForCampaignBudget = false
  open_zero : (counts.openCount + producedBatches).toNat = 0
  failed : counts.failed = 0
  completed : completedBatches = 0
  produced : producedBatches = 0
  fleet : wants = true → r.queue.cachedActiveEvaluatorCount ≠ some 0

theorem cannotProgress_true {kit : Kit V P A M C} {counts : BatchQueueCounts}
    {completedBatches producedBatches : Nat} {wants : Bool}
    {r : SamplerAggregatorRunner V P A M C}
    (h : cannotProgress kit counts completedBatches producedBatches wants r = true) :
    CannotProgress kit counts completedBatches producedBatches wants r := by
  unfold cannotProgress at h
  split at h
  · cases h
  · rename_i status hstatus
    simp only [noProgressIsTerminal, Bool.and_eq_true, Bool.not_eq_eq_eq_not, Bool.not_true,
      beq_iff_eq, Bool.and_eq_false_imp, beq_eq_false_iff_ne, ne_eq] at h
    obtain ⟨⟨hfinished, hfunded⟩, ⟨⟨⟨⟨hreached, hopen⟩, hfailed⟩, hcompleted⟩, hproduced⟩, hfleet⟩ := h
    exact ⟨⟨status, hstatus, hreached⟩, hfinished, hfunded, hopen, hfailed, hcompleted, hproduced,
      hfleet⟩

/-- The stop condition reads the task, the completed samples and the accumulator. -/
theorem stopConditionStatus_congr (kit : Kit V P A M C) {r r' : SamplerAggregatorRunner V P A M C}
    (htask : r'.task = r.task) (hrun : r'.queue.runId = r.queue.runId)
    (hcompleted : r'.nrCompletedSamples = r.nrCompletedSamples)
    (hstate : r'.observableState = r.observableState) :
    r'.stopConditionStatus kit = r.stopConditionStatus kit := by
  unfold stopConditionStatus context
  rw [htask, hrun, hcompleted, hstate]

/-- With every sample of the budget completed the stop condition is reached. -/
theorem reached_of_spent {kit : Kit V P A M C} {r : SamplerAggregatorRunner V P A M C}
    (hspent : r.activeSampleRemainingBudget = .ok (some 0))
    (hnone : r.runtimeState.generation.pending = none)
    (hall : r.nrCompletedSamples = r.nrProducedSamples) {status : StopConditionStatus}
    (hstatus : r.stopConditionStatus kit = .ok status) : status.reached = true := by
  have hbudget : ∀ target : Int,
      r.task.stopCondition.elim r.task.nrExpectedSamples (·.maxSamples) = some target →
      target ≤ r.nrCompletedSamples := by
    intro target htarget
    have hpending : r.runtimeState.generation.pendingSamples = 0 := by
      simp [GenerationBuffer.pendingSamples, hnone]
    simp only [activeSampleRemainingBudget, htarget, hpending] at hspent
    split at hspent
    · cases hspent
    · have hzero := Option.some.inj (Except.ok.inj hspent)
      omega
  have htarget : ∃ target,
      r.task.stopCondition.elim r.task.nrExpectedSamples (·.maxSamples) = some target := by
    cases htarget : r.task.stopCondition.elim r.task.nrExpectedSamples (·.maxSamples) with
    | some target => exact ⟨target, rfl⟩
    | none =>
      simp only [activeSampleRemainingBudget, htarget] at hspent
      cases hspent
  obtain ⟨target, htarget⟩ := htarget
  have hle := hbudget target htarget
  unfold stopConditionStatus at hstatus
  cases hstop : r.task.stopCondition with
  | none =>
    rw [hstop] at htarget hstatus
    cases hstatus
    simpa [show r.task.nrExpectedSamples = some target from htarget] using hle
  | some stop =>
    rw [hstop] at htarget hstatus
    dsimp only at hstatus
    split at hstatus
    · cases hstatus
    · split at hstatus
      · cases hstatus
      · cases hstatus
        simp [show stop.maxSamples = some target from htarget, hle]

end SamplerAggregatorRunner

section

variable {set : Setting V P A M C} {db : Database V P A M C}
  {c : SamplerAggregatorCheckpoint V P A M} {l : LiveRunner V P A M C}

/-- A tick that finds no open batch has merged everything the queue was ever handed. -/
theorem LiveSafe.all_merged (h : LiveSafe set db c l)
    (hmerged : l.runner.merged.map (·.produced) = l.runner.queue.passed) {counts : BatchQueueCounts}
    (hcounted : Counted l.runner.queue ([] : List (CompletedBatch (BatchResult V A))) counts)
    (hpending : counts.pending = 0) (hclaimed : counts.claimed = 0)
    (hcompleted : counts.completed = 0) (hfailed : counts.failed = 0) :
    l.runner.queue.pieces = mergedPieces l.runner.merged ∧
      l.runner.nrCompletedSamples = l.runner.nrProducedSamples := by
  obtain ⟨hflushed, hlength⟩ := hcounted.drained hpending hclaimed hfailed
  have hnone : l.runner.queue.ahead = [] := List.length_eq_zero_iff.1 (by omega)
  have hall : l.runner.queue.passed = l.runner.queue.allocated := by
    have hsplit : l.runner.queue.passed ++ l.runner.queue.ahead = l.runner.queue.allocated :=
      h.live.queue.ascend.settled_append_frontier
    rwa [hnone, List.append_nil] at hsplit
  constructor
  · unfold SamplerQueue.pieces mergedPieces
    rw [hflushed.buffer, List.map_nil, List.append_nil, ← hall, ← hmerged, List.map_map]
    rfl
  · rw [h.live.completed, h.live.produced, hall, SamplerQueue.bufferedSamples, hflushed.buffer]
    exact (add_zero _).symm

/-- With everything merged and no draw in the buffer, no feedback is outstanding. -/
theorem RunnerFeedback.owed_nil {r : SamplerAggregatorRunner V P A M C} (h : RunnerFeedback set r)
    (hall : r.queue.pieces = mergedPieces r.merged)
    (hnone : r.runtimeState.generation.pending = none) : r.runtimeState.generation.owed = [] := by
  refine h.feedback.unfinished.owed_nil ?_
  have hbalance := h.feedback.balance
  rw [hall, GenerationBuffer.uncutFeedback_of_none hnone] at hbalance
  omega

/-- Production with nothing open sends something or has a reason that the check knows. -/
theorem RunnerFeedback.not_idle {r r' : SamplerAggregatorRunner V P A M C}
    (h : RunnerFeedback set r) (hwaits : WaitsForFeedback set.kit.sampler set.startSampler)
    (hall : r.queue.pieces = mergedPieces r.merged)
    (hsamples : r.nrCompletedSamples = r.nrProducedSamples) {counts : BatchQueueCounts}
    (hpending : counts.pending = 0) {replies : ProduceReplies} {src src' : IdSource} {wants : Bool}
    (hp : r.produce set.kit counts replies src = (src', r', .ok (0, wants))) :
    ¬ SamplerAggregatorRunner.CannotProgress set.kit counts 0 0 wants r' := by
  intro hstuck
  obtain ⟨status, hstatus, hunreached⟩ := hstuck.unreached
  have hslots : ∀ {r₁ : SamplerAggregatorRunner V P A M C}, RunnerFeedback set r₁ →
      r₁.runtimeState.generation.hasPending = true →
      r₁.enqueueSlots set.kit src ≠ (src', r', .ok (0, wants)) := by
    intro r₁ h₁ hpending hsend
    rcases SamplerAggregatorRunner.enqueueSlots_sent hsend with ⟨e, he⟩ | ⟨batches, hok, hs⟩
    · cases he
    · have hlength := congrArg Prod.fst (Except.ok.inj hok)
      exact (h₁.sent hs hpending).2 (List.length_eq_zero_iff.1 hlength.symm)
  have hstart : RunnerFeedback set { r with waitingForCampaignBudget := false } :=
    ⟨h.feedback, h.roundTrip, h.sends⟩
  unfold SamplerAggregatorRunner.produce at hp
  dsimp only at hp
  split at hp
  · -- the first batch is out, so it has not been merged
    rename_i hround
    have hunready := h.roundTrip.unready (by rw [hround]; decide)
    obtain ⟨x, hx⟩ := List.exists_mem_of_ne_nil _ (h.roundTrip.waiting hround)
    have hpositive := h.roundTrip.positive x hx
    rw [hunready x (hall ▸ hx)] at hpositive
    cases hpositive
  split at hp
  · exact hslots hstart ‹_› hp
  · rename_i hbuffer
    have hnone : r.runtimeState.generation.pending = none := by
      simpa [GenerationBuffer.hasPending] using hbuffer
    have hprepared : SamplerAggregatorRunner.Prepared set.kit counts
      { r with waitingForCampaignBudget := false } _ :=
      SamplerAggregatorRunner.prepareDraw_prepared counts replies _
    generalize SamplerAggregatorRunner.prepareDraw set.kit counts replies
      { r with waitingForCampaignBudget := false } = out at hprepared hp
    cases hprepared with
    | fails _ _ _ => cases hp
    | finished hfinished =>
      cases hp
      exact absurd hstuck.unfinished (by rw [hfinished]; decide)
    | spent hspent =>
      cases hp
      have hreached := SamplerAggregatorRunner.reached_of_spent hspent hnone hsamples hstatus
      rw [hunreached] at hreached
      cases hreached
    | reached status' hstatus' hreached =>
      cases hp
      rw [hstatus'] at hstatus
      cases hstatus
      rw [hunreached] at hreached
      cases hreached
    | supplied _ _ henough =>
      cases hp
      rcases henough with hempty | hpos
      · exact hstuck.fleet rfl hempty
      · omega
    | unfunded _ _ hwaiting =>
      cases hp
      rw [hstuck.funded] at hwaiting
      cases hwaiting
    | asks r₁ hasked limit hlimit out hdrew =>
      have h₁ := hstart.asked hasked
      have hpositive := hlimit hstart.sends
      cases hdrew with
      | fails _ _ => cases hp
      | waits sampler hgenerate =>
        -- the sampler answers that it waits, though no feedback is outstanding
        refine hwaits _ _ _ h₁.feedback.owes hpositive (by rw [hgenerate]) ?_
        refine h₁.owed_nil ?_ ?_
        · rw [hasked.queue.pieces, hasked.merged]
          exact hall
        · rw [hasked.runtimeState]
          exact hnone
      | finishes sampler hgenerate =>
        cases hp
        exact absurd hstuck.unfinished (by simp)
      | draws sampler batch trainingRemaining generation hgenerate hsize hbuffered =>
        obtain ⟨h₂, hpending⟩ := h₁.drew hpositive
          (.draws sampler batch trainingRemaining generation hgenerate hsize hbuffered) (by simp)
        exact hslots h₂ (hpending rfl) hp

/-- The end of a tick of a sampler that waits only for feedback. -/
theorem LiveSafe.not_stuck (h : LiveSafe set db c l)
    (hmerged : l.runner.merged.map (·.produced) = l.runner.queue.passed)
    (hfeedback : RunnerFeedback set l.runner)
    (hwaits : WaitsForFeedback set.kit.sampler set.startSampler)
    {taken : List (CompletedBatch (BatchResult V A))} {counts : BatchQueueCounts}
    (hphase : l.phase = .counted taken counts) (replies : TickReplies) (src : IdSource) :
    l.runner.stuck set.kit taken counts replies src = false := by
  have hcounted := h.live.phase
  rw [hphase] at hcounted
  obtain ⟨-, hcounted⟩ := hcounted
  have hcases := SamplerAggregatorRunner.processed set.kit taken replies.tuned replies.cleanupDue
    l.runner
  rw [Bool.eq_false_iff]
  intro hstuck
  unfold SamplerAggregatorRunner.stuck at hstuck
  split at hstuck
  · cases hstuck
  · rename_i r₁ stats hprocess
    rw [hprocess] at hcases
    dsimp only at hstuck
    split at hstuck
    · cases hstuck
    · rename_i src₂ r₂ producedBatches wants hproduce
      obtain ⟨-, hcannot⟩ := Bool.and_eq_true_iff.1 hstuck
      have hidle := SamplerAggregatorRunner.cannotProgress_true hcannot
      have hcompleted := hidle.completed
      have hproduced := hidle.produced
      have hopen := hidle.open_zero
      have hfailed := hidle.failed
      cases hcases with
      | whole hne _ _ _ => exact hne (List.length_eq_zero_iff.1 hcompleted)
      | nothing hnil =>
        subst hnil hproduced
        obtain ⟨hpending, hclaimed, hzero, -⟩ := openCount_eq_zero hcounted.pending
          hcounted.claimed hcounted.completed hopen
        obtain ⟨hall, hsamples⟩ := h.all_merged hmerged hcounted hpending hclaimed hzero hfailed
        refine hfeedback.not_idle hwaits hall hsamples ?_ hproduce hidle
        exact hpending

end

/-! ## Runs -/

namespace SamplerSystem

variable {set : Setting V P A M C} {s : SamplerSystem V P A M C}

/-- Every runner and the saved checkpoint keep the books of the feedback. -/
structure FeedbackBooks (set : Setting V P A M C) (s : SamplerSystem V P A M C) : Prop where
  saved : ∀ c ∈ s.db.checkpoint, CheckpointFeedback set c
  live : ∀ n l, s.liveAt n = some l → RunnerFeedback set l.runner

/-- An activation takes over the books of the checkpoint, or opens new ones. -/
theorem FeedbackBooks.build (h : FeedbackBooks set s) (hsends : set.config.Sends)
    (outcome : BuildOutcome) :
    (∀ c ∈ (buildRunner set outcome s.db).1.checkpoint, CheckpointFeedback set c) ∧
      ∀ r ∈ (buildRunner set outcome s.db).2, RunnerFeedback set r := by
  unfold buildRunner
  split
  · exact ⟨h.saved, by simp⟩
  · cases hc : s.db.checkpoint with
    | some c =>
      obtain ⟨hfeedback, htrip⟩ := h.saved c hc
      have hpieces : ∀ allocated : List Produced,
          (SamplerQueue.new set.runId set.task.id set.config c.queue allocated c.handed :
            SamplerQueue P C (BatchResult V A)).pieces = allocated.map pieceOf := by
        simp [SamplerQueue.pieces, SamplerQueue.new]
      obtain ⟨hunfinished, huncut⟩ :=
        GenerationBuffer.restored_unfinished hfeedback.unfinished
      dsimp only
      split
      · exact ⟨h.saved, by simp⟩
      · refine ⟨fun c' hc' => h.saved c' (hc ▸ hc'), fun r hr => ?_⟩
        dsimp only at hr
        split at hr
        · cases hr
          refine ⟨⟨hfeedback.owes, hunfinished, ?_⟩, ?_, hsends⟩
          · have hbalance := hfeedback.balance
            rw [← huncut, ← hpieces c.allocated] at hbalance
            exact hbalance
          · rw [← hpieces c.allocated] at htrip
            exact htrip
        · cases hr
    | none =>
      have hstart : RunnerFeedback set (.start set.runId set.task set.config set.initialBatchSize
          set.startSampler set.startState) := by
        refine ⟨⟨.starts, ⟨by simp [SamplerAggregatorRunner.start, SamplerProgress.initial,
          GenerationBuffer.empty], by simp [SamplerAggregatorRunner.start,
          SamplerProgress.initial, GenerationBuffer.empty]⟩, rfl⟩, ⟨?_, ?_, ?_⟩, hsends⟩
        · simp [SamplerAggregatorRunner.start, SamplerQueue.pieces, SamplerQueue.new]
        · simp [SamplerAggregatorRunner.start, SamplerProgress.initial]
        · simp [SamplerAggregatorRunner.start, mergedPieces]
      dsimp only
      split
      · exact ⟨h.saved, by simp⟩
      · rename_i r c hs
        obtain ⟨hlive, hsaved⟩ := hstart.saves ⟨rfl, rfl, rfl⟩ hs
        refine ⟨fun c' hc' => ?_, fun r' hr' => ?_⟩
        · cases hc'
          exact hsaved
        · dsimp only at hr'
          split at hr'
          · cases hr'
            exact hlive
          · cases hr'

theorem FeedbackBooks.nodeStep {n : Nat} (h : FeedbackBooks set s) (hn : Holds set s n)
    (hbooks : Books set s) (hsends : set.config.Sends) (m : Nat) (e : NodeEvent)
    (hclean : IngestsCleanly set s (.node m e)) (hunfailed : tickFails set s (.node m e) = false)
    (htune : ∀ config ∈ tuning (.node m e : SamplerEvent V A), config.Sends) :
    FeedbackBooks set (s.nodeStep set m e) := by
  have hothers : ∀ {s' : SamplerSystem V P A M C}, (∀ k, k ≠ m → s'.liveAt k = s.liveAt k) →
      (∀ l, s'.liveAt m = some l → RunnerFeedback set l.runner) →
      ∀ k l, s'.liveAt k = some l → RunnerFeedback set l.runner := by
    intro s' hothers hm k l hl
    by_cases hk : k = m
    · exact hm l (hk ▸ hl)
    · exact h.live k l ((hothers k hk).symm.trans hl)
  cases nodeMove m e s with
  | rests hdb hlive _ _ _ =>
    exact ⟨hdb ▸ h.saved, fun k l hl => h.live k l ((hlive k).symm.trans hl)⟩
  | drops hdb hnone hrest _ _ _ =>
    refine ⟨hdb ▸ h.saved, hothers hrest fun l hl => ?_⟩
    rw [hnone] at hl
    cases hl
  | builds outcome _ _ hdb hlive hrest _ _ _ =>
    obtain ⟨hsaved, hrunner⟩ := h.build hsends outcome
    refine ⟨hdb ▸ hsaved, hothers hrest fun l hl => ?_⟩
    rw [hlive] at hl
    obtain ⟨r, hr, rfl⟩ := Option.map_eq_some_iff.1 hl
    exact hrunner r hr
  | activates l hl _ hdb hlive hrest _ _ _ =>
    refine ⟨hdb ▸ h.saved, hothers hrest fun l' hl' => ?_⟩
    rw [hlive] at hl'
    cases hl'
    exact h.live m l hl
  | steps node hnode l hlive' hdb hlive hrest _ _ _ =>
    have hl : s.liveAt m = some l := by simp [liveAt, hnode, hlive']
    obtain ⟨-, c, hsafe⟩ := hn.liveSafe hl
    have hkept : FeedbackKept set s.db l.runner := ⟨h.saved, h.live m l hl⟩
    have hafter := hkept.liveStep (g := node.generator) (hbooks.live m l hl).lined hsafe.live.phase e
      (hclean l hl) (fun clock replies he taken counts hphase failure hfails => ?_)
      fun config he => htune config (by cases he; rfl)
    · refine ⟨hdb ▸ hafter.saved, hothers hrest fun l' hl' => ?_⟩
      rw [hlive] at hl'
      cases hl'
      exact hafter.live
    · cases he
      have hend : tickEnd set s m clock replies = some (counts,
          (l.runner.work set.kit taken counts replies ⟨node.generator, clock, 0⟩).2) := by
        simp [tickEnd, hnode, hlive', hphase]
      simp [tickFails, hend, hfails] at hunfailed

theorem FeedbackBooks.step {n : Nat} (h : FeedbackBooks set s) (hn : Holds set s n)
    (hbooks : Books set s) (hsends : set.config.Sends) (e : SamplerEvent V A)
    (hworking : Working set s e) : FeedbackBooks set (s.step set e) := by
  obtain ⟨⟨-, -, hclean⟩, hunfailed, htune⟩ := hworking
  have hevaluator : (∀ m e', e ≠ .node m e') → FeedbackBooks set (s.step set e) := by
    intro he
    rcases evaluates e he hn.safe.table.ascend.nodup_map with heq | ⟨rows, heq, -⟩
    · rw [heq]
      exact h
    · rw [heq]
      exact ⟨h.saved, h.live⟩
  cases e with
  | node m e => exact h.nodeStep hn hbooks hsends m e hclean hunfailed htune
  | claim _ _ _ _ | releaseWorker _ | releaseUntracked _ _ | reclaim _ | submit _ _ _ _
  | failBatch _ _ _ _ _ => exact hevaluator fun m e' he => by cases he

theorem feedbackBooks_run {entropies : List UInt16} {events : List (SamplerEvent V A)}
    (hsends : set.config.Sends)
    (h : Along (step set) (Working set) (init entropies) events) :
    (∃ n, Holds set (run (step set) (init entropies) events) n) ∧
      Accounting (run (step set) (init entropies) events) ∧
      FeedbackBooks set (run (step set) (init entropies) events) := by
  have hinit : FeedbackBooks set (init entropies) := by
    refine ⟨by simp [init], fun n l hl => ?_⟩
    rw [liveAt_init] at hl
    cases hl
  obtain ⟨hholds, -, haccounting⟩ := accounting_run (h.mono _ fun _ _ hw => hw.1)
  refine ⟨hholds, haccounting, ?_⟩
  refine (run_invariant (I := fun s => (∃ n, Holds set s n) ∧ Books set s ∧ FeedbackBooks set s)
    ?_ ⟨⟨0, holds_init set entropies⟩, books_init set entropies, hinit⟩ h).2.2
  rintro s e ⟨⟨n, hn⟩, hbooks, hfeedback⟩ hworking
  obtain ⟨⟨hexclusive, hids, hclean⟩, -, -⟩ := id hworking
  exact ⟨hn.step e hexclusive hids, hbooks.step e hclean, hfeedback.step hn hbooks hsends e hworking⟩

/-- **Progress.** In every run whose runners are built alone, whose ids ascend, whose groups are
ingested cleanly and whose ticks have not failed in the engine, no tick of a sampler that waits
only for feedback fails for want of progress. -/
theorem neverStuck_of_working (set : Setting V P A M C) (entropies : List UInt16)
    (events : List (SamplerEvent V A)) (hwaits : WaitsForFeedback set.kit.sampler set.startSampler)
    (hsends : set.config.Sends)
    (h : Along (step set) (Working set) (init entropies) events) :
    ∀ n clock replies,
      stuckAt set (run (step set) (init entropies) events) n clock replies = false := by
  intro n clock replies
  obtain ⟨⟨m, hm⟩, haccounting, hbooks⟩ := feedbackBooks_run hsends h
  generalize run (step set) (init entropies) events = s at hm haccounting hbooks
  unfold stuckAt
  cases hnode : s.nodes[n]? with
  | none => rfl
  | some node =>
    rw [Option.any_some]
    cases hlive : node.live with
    | none => rfl
    | some l =>
      have hl : s.liveAt n = some l := by simp [liveAt, hnode, hlive]
      obtain ⟨-, c, hsafe⟩ := hm.liveSafe hl
      rw [Option.any_some]
      split
      · rename_i taken counts hphase
        exact hsafe.not_stuck (haccounting.live n l hl).produced (hbooks.live n l hl) hwaits hphase
          replies _
      · rfl

end SamplerSystem

/-! ## A sampler that waits -/

namespace Small

/-- Draws of 16 samples, each after the feedback of the one before it. -/
def learner : SamplerOps Int Unit Accumulator (Nat × Nat) Unit where
  finite _ := true
  payload := ⟨fun _ => .ok (), fun _ n => some n, fun _ _ _ _ => .ok (), fun _ => 0⟩
  request _ := ()
  generate m limit :=
    if m.1 = m.2 then ((m.1 + 1, m.2), .ok (.batch ⟨min limit 16, ()⟩ (some 16)))
    else (m, .ok .waiting)
  feedback m _ := ((m.1, m.2 + 1), none)
  snapshot m := (m, .ok m)
  kindStr := AccumulatorState.kindStr
  uncertaintyReady _ := false
  estimateForStop _ := .ok none
  reaches _ _ := false
  stopTarget := "mean"

def learning : Setting Int Unit Accumulator (Nat × Nat) Unit where
  kit := ⟨learner, AccumulatorState.ops numerics⟩
  runId := 1
  task := ⟨1, some 1000, none⟩
  config := ⟨16, 64, some 16, 4, 1, 2, 4⟩
  initialBatchSize := 16
  startSampler := (0, 0)
  startState := vector "x" []

/-- The learner counts what it is owed. -/
theorem owed_learner {m : Nat × Nat} {owed : List Nat} (h : Owes learner (0, 0) m owed) :
    m.1 = m.2 + owed.length := by
  induction h with
  | starts => rfl
  | draws h hlimit hdraw ih =>
    simp only [learner] at hdraw
    split at hdraw
    · cases hdraw
      simp only [Option.isSome_some, if_true, List.length_append, List.length_singleton]
      omega
    · cases hdraw
  | waits h hlimit hdraw ih =>
    simp only [learner] at hdraw
    split at hdraw
    · cases hdraw
    · cases hdraw
      exact ih
  | finishes h hlimit hdraw ih =>
    simp only [learner] at hdraw
    split at hdraw <;> cases hdraw
  | receives h hlen hfeedback ih =>
    cases hfeedback
    simp only [List.length_cons] at ih
    dsimp only
    omega
  | saves h hsnapshot ih =>
    cases hsnapshot
    exact ih
  | restores h hsnapshot ih =>
    cases hsnapshot
    exact ih

theorem waitsForFeedback_learner : WaitsForFeedback learner (0, 0) := by
  rintro m owed limit h hlimit hwaits rfl
  have hcount := owed_learner h
  simp only [learner] at hwaits
  split at hwaits
  · cases hwaits
  · rename_i hne
    exact hne hcount

/-- An evaluator claims the batch and submits a result with training values. -/
def trainingEvaluation (batchId : Int) (token : String) : List Event :=
  [claim token, .submit batchId "uuid" token
    ⟨some ⟨List.replicate 16 1, none⟩, vector "x" (List.replicate 16 1)⟩]

/-- The first draw is evaluated and fed back, and the second is on its way. -/
def secondDraw (now : UInt64) : List Event :=
  activation 0 ++ tick 0 now ++ insertion 0 ++ trainingEvaluation (id 2000 1) "first" ++ tick 0 now
    ++ tick 0 now

/-- The second draw is inserted, and the sampler waits for it. -/
def waitingTick : List Event := secondDraw 2000 ++ insertion 0 ++ tickBegins 0 2000

/-- After the first draw the evaluators leave and the sampler stops. Its next process has a clock
one second behind: the second draw is evaluated under an id the cursor has passed. -/
def waitingForever : List Event :=
  activation 0 ++ tick 0 2000 ++ insertion 0 ++ trainingEvaluation (id 2000 1) "first" ++ tick 0 2000
    ++ tickBegins 0 2000
    ++ [.node 0 (.work (fun _ => 2000) { replies with produce := ⟨.ok 0, .ok none⟩ })]
    ++ stop 0 2000 ++ [.node 0 (.leave true), .node 0 (.reboot 7)] ++ activation 0 ++ tick 0 1000
    ++ insertion 0 ++ trainingEvaluation (id 1000 1) "second" ++ tickBegins 0 1000

end Small

namespace SamplerSystem

open Runners.Small in
theorem neverStuck_waitingTick :
    stuckAt learning (run (step learning) (init [7]) waitingTick) 0 (fun _ => 2000) replies =
      false := by
  have hconditions : Along (step learning) (fun s e => Exclusive s e ∧ IdsAscend s e ∧
      ingestsAll learning s e = true ∧ tickFails learning s e = false ∧
        ∀ config ∈ tuning e, config.Sends) (init [7]) waitingTick := by
    decide +kernel
  have hworking : Along (step learning) (Working learning) (init [7]) waitingTick :=
    Along.mono _ (fun s e h => ⟨⟨h.1, h.2.1, ingestsCleanly_of_all h.2.2.1⟩, h.2.2.2⟩) hconditions
  exact neverStuck_of_working learning [7] waitingTick waitsForFeedback_learner (by decide) hworking 0
    (fun _ => 2000) replies

open Runners.Small in
/-- A tick fails for want of progress while a batch it has produced is evaluated and not
ingested; every condition but the ascent of the ids is met. -/
theorem not_neverStuck_waitingForever :
    WaitsForFeedback learner (0, 0) ∧
      Along (step learning) (fun s e => Exclusive s e ∧ IngestsCleanly learning s e ∧
        tickFails learning s e = false ∧ ∀ config ∈ tuning e, config.Sends) (init [7])
        waitingForever ∧
      stuckAt learning (run (step learning) (init [7]) waitingForever) 0 (fun _ => 1000) replies =
        true ∧
      ∃ l, (run (step learning) (init [7]) waitingForever).liveAt 0 = some l ∧
        ∃ p ∈ l.runner.queue.allocated, p.id ∉ l.runner.merged.map (·.batchId) := by
  have hconditions : Along (step learning) (fun s e => Exclusive s e ∧
      ingestsAll learning s e = true ∧ tickFails learning s e = false ∧
        ∀ config ∈ tuning e, config.Sends) (init [7]) waitingForever := by
    decide +kernel
  have hleft : ((run (step learning) (init [7]) waitingForever).liveAt 0).any (fun l =>
      l.runner.queue.allocated.any fun p =>
        !(l.runner.merged.map (·.batchId)).contains p.id) = true := by
    decide +kernel
  refine ⟨waitsForFeedback_learner, ?_, by decide +kernel, ?_⟩
  · exact Along.mono _ (fun s e h => ⟨h.1, ingestsCleanly_of_all h.2.1, h.2.2⟩) hconditions
  · obtain ⟨l, hl, hany⟩ := (Option.any_eq_true _ _).1 hleft
    obtain ⟨p, hp, hnot⟩ := List.any_eq_true.1 hany
    exact ⟨l, hl, p, hp, by simpa using hnot⟩

end SamplerSystem

end Gammaboard.Runners
