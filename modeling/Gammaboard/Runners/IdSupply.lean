import Gammaboard.Runners.SamplerInvariant

/-!
# Where the ids of a step come from

A step draws its ids from the generator of the process, in order and no more
than `idsPerStep`; batches get some of them and a prefetch may reserve one. So
what is known of the next ids of the process is known of the ids a step gives.
-/

namespace Gammaboard.Runners

open Gammaboard.Core Gammaboard.Stores Gammaboard.Sampling Gammaboard.Evaluation

variable {V P A M C Res : Type}

/-! ## Drawing ids -/

/-- Drawing twice is drawing once. -/
theorem IdSource.nextBatchIds_add (src : IdSource) (m n : Nat) :
    src.nextBatchIds (m + n) =
      (((src.nextBatchIds m).1.nextBatchIds n).1,
        (src.nextBatchIds m).2 ++ ((src.nextBatchIds m).1.nextBatchIds n).2) := by
  have hclock : (List.range (m + n)).map (fun i => src.clock (src.used + i)) =
      (List.range m).map (fun i => src.clock (src.used + i)) ++
        (List.range n).map (fun i => src.clock (src.used + m + i)) := by
    rw [List.range_add, List.map_append, List.map_map]
    simp only [Function.comp_def, Nat.add_assoc]
  simp only [nextBatchIds, hclock, BatchIdGenerator.nextIds_append, Nat.add_assoc]

/-- A queue step that draws `count` ids; the ones given to batches are among them, in order. -/
structure Draws (src src' : IdSource) (q q' : SamplerQueue P C Res) (count : Nat) : Prop where
  source : src' = (src.nextBatchIds count).1
  given : ∃ new, q'.allocated = q.allocated ++ new ∧
    (new.map (·.id)).Sublist (src.nextBatchIds count).2
  config : q'.config = q.config

section

variable {src src' src'' : IdSource} {q q' q'' : SamplerQueue P C Res}

theorem Draws.nothing (hgiven : q'.allocated = q.allocated) (hconfig : q'.config = q.config) :
    Draws src src q q' 0 :=
  ⟨rfl, ⟨[], by simp [hgiven], List.nil_sublist _⟩, hconfig⟩

theorem Draws.trans {m n : Nat} (h : Draws src src' q q' m) (h' : Draws src' src'' q' q'' n) :
    Draws src src'' q q'' (m + n) := by
  obtain ⟨new, hnew, hsub⟩ := h.given
  obtain ⟨new', hnew', hsub'⟩ := h'.given
  have hsource := h.source
  subst hsource
  refine ⟨?_, ⟨new ++ new', by rw [hnew', hnew, List.append_assoc], ?_⟩, h'.config.trans h.config⟩
  · rw [src.nextBatchIds_add m n]
    exact h'.source
  · rw [src.nextBatchIds_add m n, List.map_append]
    exact hsub.append hsub'

/-- The ids a step may draw at most begin with the ones it draws. -/
theorem Draws.given_le {m n : Nat} (h : Draws src src' q q' m) (hle : m ≤ n) :
    ∃ new, q'.allocated = q.allocated ++ new ∧
      (new.map (·.id)).Sublist (src.nextBatchIds n).2 := by
  obtain ⟨new, hnew, hsub⟩ := h.given
  obtain ⟨k, rfl⟩ := Nat.exists_eq_add_of_le hle
  refine ⟨new, hnew, hsub.trans ?_⟩
  rw [src.nextBatchIds_add m k]
  exact List.sublist_append_left _ _

/-! ## The queue -/

theorem startInsert_draws (src : IdSource) (q : SamplerQueue P C Res) :
    Draws src (q.startInsert src).1 q (q.startInsert src).2 q.nextBundle.length := by
  refine ⟨rfl, ⟨_, rfl, ?_⟩, rfl⟩
  have hids : (q.insertTask (src.nextBatchIds q.nextBundle.length).2).produced.map (·.id) =
      (src.nextBatchIds q.nextBundle.length).2 := by
    rw [PendingInsertTask.produced, List.map_map]
    exact SamplerQueue.map_id_withIds (by simp)
  show (List.map _ (q.insertTask (src.nextBatchIds q.nextBundle.length).2).produced).Sublist _
  rw [hids]

theorem length_nextBundle_le (q : SamplerQueue P C Res) :
    q.nextBundle.length ≤ max q.config.maxInsertBundleSize 1 := by
  unfold SamplerQueue.nextBundle
  split
  · exact Nat.zero_le _
  · exact (List.takeWhile_prefix _).length_le.trans (List.length_take_le _ _)

theorem pump_draws (slots : Nat) (src : IdSource) (q : SamplerQueue P C Res) :
    ∃ count ≤ slots * max q.config.maxInsertBundleSize 1,
      Draws src (SamplerQueue.pump slots src q).1 q (SamplerQueue.pump slots src q).2 count := by
  induction slots generalizing src q with
  | zero => exact ⟨0, Nat.zero_le _, .nothing rfl rfl⟩
  | succ slots ih =>
    unfold SamplerQueue.pump
    split
    · exact ⟨0, Nat.zero_le _, .nothing rfl rfl⟩
    · have hstart := startInsert_draws src q
      obtain ⟨count, hle, hdraws⟩ := ih (q.startInsert src).1 (q.startInsert src).2
      refine ⟨_, ?_, hstart.trans hdraws⟩
      rw [hstart.config] at hle
      rw [Nat.succ_mul, Nat.add_comm]
      exact Nat.add_le_add hle (length_nextBundle_le q)

theorem ensureInsertPump_draws (src : IdSource) (q : SamplerQueue P C Res) :
    ∃ count ≤ q.config.idsPerPump,
      Draws src (q.ensureInsertPump src).1 q (q.ensureInsertPump src).2 count := by
  obtain ⟨count, hle, hdraws⟩ :=
    pump_draws (max q.config.maxConcurrentInsertTasks 1 - q.pendingInsertTasks.length) src q
  exact ⟨count, hle.trans (Nat.mul_le_mul_right _ (Nat.sub_le _ _)), hdraws⟩

/-- The prefetch draws at most the boundary it reserves. -/
theorem ensureProcessedPrefetch_draws (src : IdSource) (q : SamplerQueue P C Res) :
    ∃ count ≤ 1,
      Draws src (q.ensureProcessedPrefetch src).1 q (q.ensureProcessedPrefetch src).2 count := by
  unfold SamplerQueue.ensureProcessedPrefetch
  split
  · exact ⟨0, Nat.zero_le _, .nothing rfl rfl⟩
  · cases (q.pendingInsertTasks.map (·.firstBatchId)).min? with
    | some first => exact ⟨0, Nat.zero_le _, .nothing rfl rfl⟩
    | none => exact ⟨1, le_rfl, rfl, ⟨[], by simp, List.nil_sublist _⟩, rfl⟩

theorem drainFinishedInsert_draws {notify result : Except StoreError Unit}
    (h : q.drainFinishedInsert notify = some (q', result)) (src : IdSource) :
    Draws src src q q' 0 := by
  unfold SamplerQueue.drainFinishedInsert at h
  split at h
  · cases h
    exact .nothing rfl rfl
  · split at h
    · split at h
      · cases h
        exact .nothing rfl rfl
      · cases h
    · cases h
      exact .nothing rfl rfl

theorem drainFinishedProcessedFetch_draws (src : IdSource) (q : SamplerQueue P C Res) :
    Draws src src q q.drainFinishedProcessedFetch.1 0 := by
  unfold SamplerQueue.drainFinishedProcessedFetch
  split
  · exact .nothing rfl rfl
  · split <;> exact .nothing rfl rfl

theorem settleProcessed_draws {notify result : Except StoreError Unit}
    (h : q.settleProcessed notify src = some (src', q', result)) :
    ∃ count ≤ q.config.idsPerPump, Draws src src' q q' count := by
  unfold SamplerQueue.settleProcessed at h
  split at h
  · cases h
  · rename_i q₁ e hdrain
    cases h
    exact ⟨0, Nat.zero_le _, drainFinishedInsert_draws hdrain src⟩
  · rename_i q₁ hdrain
    cases h
    have hdrained := drainFinishedInsert_draws hdrain src
    obtain ⟨count, hle, hdraws⟩ := ensureInsertPump_draws src q₁
    refine ⟨_, ?_, hdrained.trans (hdraws.trans (drainFinishedProcessedFetch_draws _ _))⟩
    rw [hdrained.config] at hle
    omega

theorem getProcessedReady_draws {notify : Except StoreError Unit}
    {result : Except StoreError (List (CompletedBatch Res))}
    (h : q.getProcessedReady notify src = some (src', q', result)) :
    ∃ count ≤ q.config.idsPerStep, Draws src src' q q' count := by
  unfold SamplerQueue.getProcessedReady at h
  split at h
  · cases h
  · rename_i hsettle
    cases h
    obtain ⟨count, hle, hdraws⟩ := settleProcessed_draws hsettle
    exact ⟨count, Nat.le_succ_of_le hle, hdraws⟩
  · rename_i q₁ hsettle
    cases h
    obtain ⟨count, hle, hdraws⟩ := settleProcessed_draws hsettle
    have htaken : Draws src' src' q₁ q₁.takeReadyProcessed.1 0 := .nothing rfl rfl
    exact ⟨count, Nat.le_succ_of_le hle, hdraws.trans htaken⟩

theorem getProcessed_draws {notify : Except StoreError Unit}
    {result : Except StoreError (List (CompletedBatch Res))}
    (h : q.getProcessed notify src = some (src', q', result)) :
    ∃ count ≤ q.config.idsPerStep, Draws src src' q q' count := by
  unfold SamplerQueue.getProcessed at h
  split at h
  · cases h
  · rename_i hsettle
    cases h
    obtain ⟨count, hle, hdraws⟩ := settleProcessed_draws hsettle
    exact ⟨count, Nat.le_succ_of_le hle, hdraws⟩
  · rename_i src₁ q₁ hsettle
    cases h
    obtain ⟨count, hle, hdraws⟩ := settleProcessed_draws hsettle
    obtain ⟨one, hone, hreserved⟩ := ensureProcessedPrefetch_draws src₁ q₁
    have htaken : Draws (q₁.ensureProcessedPrefetch src₁).1 (q₁.ensureProcessedPrefetch src₁).1
        (q₁.ensureProcessedPrefetch src₁).2
        (q₁.ensureProcessedPrefetch src₁).2.takeReadyProcessed.1 0 := .nothing rfl rfl
    exact ⟨count + one, Nat.add_le_add hle hone, (hdraws.trans hreserved).trans htaken⟩

theorem tickProcessed_draws {notify : Except StoreError Unit} {due : Bool}
    {result : Except StoreError (List (CompletedBatch Res))}
    (h : q.tickProcessed notify due src = some (src', q', result)) :
    ∃ count ≤ q.config.idsPerStep, Draws src src' q q' count := by
  unfold SamplerQueue.tickProcessed at h
  split at h
  · cases h
  · rename_i hget
    cases h
    exact getProcessed_draws hget
  · rename_i src₁ q₁ completed hget
    obtain ⟨count, hle, hdraws⟩ := getProcessed_draws hget
    have hcleaned : Draws src₁ src₁ q₁ q₁.drainFinishedCompletedCleanup.1 0 := by
      unfold SamplerQueue.drainFinishedCompletedCleanup
      split <;> exact .nothing rfl rfl
    split at h
    · rename_i heq
      cases h
      rw [heq] at hcleaned
      exact ⟨count, hle, hdraws.trans hcleaned⟩
    · rename_i q₂ heq
      cases h
      rw [heq] at hcleaned
      have hdue : Draws src' src' q₂ (q₂.ensureCompletedCleanup due) 0 := by
        unfold SamplerQueue.ensureCompletedCleanup
        split <;> exact .nothing rfl rfl
      exact ⟨count, hle, (hdraws.trans hcleaned).trans hdue⟩

theorem flushTurn_draws {notify : Except StoreError Unit} {result : Except StoreError Bool}
    (h : q.flushTurn notify src = some (src', q', result)) :
    ∃ count ≤ q.config.idsPerStep, Draws src src' q q' count := by
  unfold SamplerQueue.flushTurn at h
  split at h
  · cases h
  · rename_i hdrain
    cases h
    exact ⟨0, Nat.zero_le _, drainFinishedInsert_draws hdrain src⟩
  · rename_i q₁ hdrain
    have hdrained := drainFinishedInsert_draws hdrain src
    split at h
    · cases h
      exact ⟨0, Nat.zero_le _, hdrained⟩
    · cases h
      obtain ⟨count, hle, hdraws⟩ := ensureInsertPump_draws src q₁
      rw [hdrained.config] at hle
      refine ⟨_, ?_, hdrained.trans hdraws⟩
      rw [Nat.zero_add]
      exact Nat.le_succ_of_le hle

end

/-! ## A live runner -/

section

variable {set : Setting V P A M C} {db : Database V P A M C} {l : LiveRunner V P A M C}
  {g : BatchIdGenerator}

/-- The ids a step gives are among the next ids of the process. -/
def Gives (g : BatchIdGenerator) (e : NodeEvent) (q q' : SamplerQueue P C (BatchResult V A)) : Prop :=
  ∃ new, q'.allocated = q.allocated ++ new ∧
    (new.map (·.id)).Sublist (e.clock.elim [] fun clock =>
      (IdSource.nextBatchIds ⟨g, clock, 0⟩ q.config.idsPerStep).2)

theorem Gives.nothing {e : NodeEvent} {q q' : SamplerQueue P C (BatchResult V A)}
    (h : q'.allocated = q.allocated) : Gives g e q q' :=
  ⟨[], by simp [h], List.nil_sublist _⟩

/-- The next ids of the process ascend from the production boundary, and so do the ids given. -/
theorem Gives.idsAbove {e : NodeEvent} {q q' : SamplerQueue P C (BatchResult V A)}
    (h : Gives g e q q')
    (hids : ∀ clock ∈ e.clock, SamplerSystem.NextIdsAscend g q clock) : IdsAbove q q' := by
  obtain ⟨new, hnew, hsub⟩ := h
  have hdrop : q'.allocated.drop q.allocated.length = new := by simp [hnew]
  unfold IdsAbove
  rw [hdrop]
  cases hclock : e.clock with
  | none =>
    rw [hclock] at hsub
    have hnil : new.map (·.id) = [] := List.sublist_nil.1 hsub
    rw [hnil]
    exact ⟨List.pairwise_singleton _ _, by simp⟩
  | some clock =>
    rw [hclock] at hsub
    obtain ⟨hpair, hreserved⟩ := hids clock hclock
    exact ⟨hpair.sublist (hsub.cons_cons _),
      fun fetch hfetch id hid => hreserved fetch hfetch id (hsub.subset hid)⟩

theorem pollStep_gives (clock : Nat → UInt64) (notify : Except StoreError Unit) (due : Bool) :
    Gives g (.poll clock notify due) l.runner.queue
      (pollStep db g l clock notify due).live.runner.queue := by
  unfold pollStep
  split
  · split
    · exact .nothing rfl
    · rename_i htick
      obtain ⟨count, hle, hdraws⟩ := tickProcessed_draws htick
      exact hdraws.given_le hle
    · rename_i htick
      obtain ⟨count, hle, hdraws⟩ := tickProcessed_draws htick
      exact hdraws.given_le hle
  · exact .nothing rfl

theorem flushStep_gives (clock : Nat → UInt64) (notify : Except StoreError Unit) :
    Gives g (.flush clock notify) l.runner.queue
      (flushStep db g l clock notify).live.runner.queue := by
  unfold flushStep
  split
  · split
    · exact .nothing rfl
    all_goals
      rename_i hturn
      obtain ⟨count, hle, hdraws⟩ := flushTurn_draws hturn
      exact hdraws.given_le hle
  · exact .nothing rfl

theorem drainStep_gives (clock : Nat → UInt64) (notify : Except StoreError Unit) (tuned : Nat)
    (due : Bool) (published : Except RunnerError Unit) :
    Gives g (.drain clock notify tuned due published) l.runner.queue
      (drainStep set db g l clock notify tuned due published).live.runner.queue := by
  have hready : ∀ {src' : IdSource} {q₁ q' : SamplerQueue P C (BatchResult V A)}
      {result : Except StoreError (List (CompletedBatch (BatchResult V A)))},
      l.runner.queue.getProcessedReady notify ⟨g, clock, 0⟩ = some (src', q₁, result) →
      q'.allocated = q₁.allocated →
      Gives g (.drain clock notify tuned due published) l.runner.queue q' := by
    intro src' q₁ q' result hready hgiven
    obtain ⟨count, hle, hdraws⟩ := getProcessedReady_draws hready
    obtain ⟨new, hnew, hsub⟩ := hdraws.given_le hle
    exact ⟨new, hgiven.trans hnew, hsub⟩
  unfold drainStep
  split
  · split
    · exact .nothing rfl
    · rename_i h
      exact hready h rfl
    · rename_i h
      split
      · exact .nothing rfl
      · rename_i hmaintenance
        exact hready h (SamplerQueue.finishBackgroundMaintenance_kept hmaintenance).allocated
      · rename_i hmaintenance
        exact hready h (SamplerQueue.finishBackgroundMaintenance_kept hmaintenance).allocated
    · rename_i src q₁ taken _ h
      have hprocessed := SamplerAggregatorRunner.processCompletedBatches_allocated set.kit taken tuned
        due { l.runner with queue := q₁.recordHanded taken }
      dsimp only
      split
      · rename_i heq
        rw [heq] at hprocessed
        exact hready h hprocessed
      · rename_i heq
        rw [heq] at hprocessed
        exact hready h hprocessed
  · exact .nothing rfl

theorem workStep_gives (clock : Nat → UInt64) (replies : TickReplies) :
    Gives g (.work clock replies) l.runner.queue
      (workStep set db g l clock replies).live.runner.queue := by
  unfold workStep
  split
  · rename_i taken counts _
    have hcases := SamplerAggregatorRunner.work_cases set.kit taken counts replies ⟨g, clock, 0⟩
      l.runner
    have hgiven := SamplerAggregatorRunner.processCompletedBatches_allocated set.kit taken
      replies.tuned replies.cleanupDue l.runner
    have hconfig := SamplerAggregatorRunner.processCompletedBatches_config set.kit taken
      replies.tuned replies.cleanupDue l.runner
    generalize l.runner.work set.kit taken counts replies ⟨g, clock, 0⟩ = out at hcases
    rcases hcases with ⟨r₁, e, hp, rfl⟩ | ⟨r₁, stats, src₂, r₂, sent, result, hp, hsent, rfl, -⟩
    · rw [hp] at hgiven
      exact .nothing hgiven
    · rw [hp] at hgiven hconfig
      cases hsent with
      | nothing _ _ hq _ => exact .nothing (hq.kept.2.2.2.2.1.trans hgiven)
      | sent _ _ q hq batches requiresFeedback hqueue _ wants =>
        obtain ⟨count, hle, hdraws⟩ :=
          ensureInsertPump_draws ⟨g, clock, 0⟩ (q.buffer batches requiresFeedback)
        have hq' : (q.buffer batches requiresFeedback).config = l.runner.queue.config :=
          hq.config.trans hconfig
        rw [hq'] at hle
        obtain ⟨new, hnew, hsub⟩ := hdraws.given_le (Nat.le_succ_of_le hle)
        refine ⟨new, ?_, hsub⟩
        have hr₂ : r₂.queue = (q.ingest batches requiresFeedback ⟨g, clock, 0⟩).2 := by rw [hqueue]
        show r₂.queue.allocated = _
        rw [hr₂]
        refine hnew.trans ?_
        rw [← hgiven]
        exact congrArg (· ++ new) hq.kept.2.2.2.2.1
  · exact .nothing rfl

/-- Every event of a live runner gives ids of its process only. -/
theorem liveStep_gives (e : NodeEvent) :
    Gives g e l.runner.queue (liveStep set db g l e).live.runner.queue := by
  cases e with
  | poll clock notify due => exact pollStep_gives clock notify due
  | work clock replies => exact workStep_gives clock replies
  | flush clock notify => exact flushStep_gives clock notify
  | drain clock notify tuned due published => exact drainStep_gives clock notify tuned due published
  | tune config =>
    refine .nothing ?_
    simp only [liveStep]
    unfold tuneStep
    split <;> rfl
  | count error =>
    refine .nothing ?_
    simp only [liveStep]
    unfold countStep
    split
    · split <;> rfl
    · rfl
  | stop =>
    refine .nothing ?_
    simp only [liveStep]
    unfold stopStep
    split <;> rfl
  | save outcome =>
    refine .nothing ?_
    simp only [liveStep]
    unfold saveStep
    split
    · split
      · rename_i hs
        obtain ⟨sampler, rfl⟩ := SamplerAggregatorRunner.checkpoint_error set.kit hs
        rfl
      · rename_i hs
        obtain ⟨⟨sampler, rfl⟩, -⟩ := SamplerAggregatorRunner.checkpoint_ok set.kit hs
        split
        · rfl
        · exact (l.runner.queue.ensureCompletedCleanup_kept true).1.allocated
    · rfl
  | insertCommits i createdAt =>
    refine .nothing ?_
    simp only [liveStep]
    unfold insertCommitsStep
    split
    · rfl
    · split
      · rfl
      · split <;> rfl
  | insertReturns i error =>
    refine .nothing ?_
    simp only [liveStep]
    unfold insertReturnsStep
    split
    · rfl
    · split <;> rfl
  | fetchRuns error =>
    refine .nothing ?_
    simp only [liveStep]
    unfold fetchRunsStep
    split
    · rfl
    · split <;> rfl
  | cleanupRuns room error =>
    refine .nothing ?_
    simp only [liveStep]
    unfold cleanupRunsStep
    split
    · rfl
    · split <;> rfl
  | reboot _ | expireLease | renewLease | build _ | activate _ | leave _ => exact .nothing rfl

end

end Gammaboard.Runners
