import Gammaboard.Runners.SamplerRuns

/-!
# Uncertain inserts

A failed insert leaves rows that may or may not exist. Its runner learns of it
when it next collects finished inserts: the queue then keeps the error, and
every later path that saves or advances meets it first. Only the tick that runs
when the insert fails can still go on to its end.
-/

namespace Gammaboard.Runners

open Gammaboard.Core Gammaboard.Stores Gammaboard.Lib Gammaboard.Sampling Gammaboard.Evaluation

variable {V P A M C : Type}

/-- An insert of the queue has failed, collected or not. -/
def SamplerQueue.InsertFailed {Res : Type} (q : SamplerQueue P C Res) : Prop :=
  q.insertError.isSome = true ∨ ∃ t ∈ q.pendingInsertTasks, t.failure.isSome = true

/-- The queue part of a tick is over, the rest is not. -/
def SamplerPhase.midTick : SamplerPhase V A → Bool
  | .polled _ | .counted _ _ => true
  | _ => false

/-- A step that saves no checkpoint, reports no progress, ingests nothing and enqueues nothing. -/
structure AtRest (l : LiveRunner V P A M C) (after : LiveStep V P A M C) : Prop where
  write : after.write = none ∨ after.write = some .insert
  merged : after.live.runner.merged = l.runner.merged
  fed : after.live.runner.fed = l.runner.fed
  allocated : after.live.runner.queue.allocated = l.runner.queue.allocated
  buffer : after.live.runner.queue.pendingInsert = l.runner.queue.pendingInsert
  tasks : after.live.runner.queue.pendingInsertTasks.length ≤ l.runner.queue.pendingInsertTasks.length

/-! ## The queue -/

namespace SamplerQueue

variable {Res : Type} {q q' : SamplerQueue P C Res}

/-- The part of a queue that inserts go through. -/
structure SameInserts (q q' : SamplerQueue P C Res) : Prop where
  error : q'.insertError = q.insertError
  tasks : q'.pendingInsertTasks = q.pendingInsertTasks
  buffer : q'.pendingInsert = q.pendingInsert
  allocated : q'.allocated = q.allocated

theorem SameInserts.refl (q : SamplerQueue P C Res) : SameInserts q q := ⟨rfl, rfl, rfl, rfl⟩

theorem SameInserts.trans {q'' : SamplerQueue P C Res} (h : SameInserts q q')
    (h' : SameInserts q' q'') : SameInserts q q'' :=
  ⟨h'.error.trans h.error, h'.tasks.trans h.tasks, h'.buffer.trans h.buffer,
    h'.allocated.trans h.allocated⟩

theorem SameInserts.failed (h : SameInserts q q') (hq : q.InsertFailed) : q'.InsertFailed := by
  unfold InsertFailed
  rw [h.error, h.tasks]
  exact hq

theorem SameInserts.flushed (h : SameInserts q q') (hq : q.Flushed) : q'.Flushed :=
  ⟨h.buffer.trans hq.buffer, h.tasks.trans hq.tasks, h.error.trans hq.error⟩

theorem Flushed.not_failed (h : q.Flushed) : ¬ q.InsertFailed := by
  rintro (herror | ⟨t, ht, -⟩)
  · rw [h.error] at herror
    cases herror
  · rw [h.tasks] at ht
    cases ht

/-- With a failed insert the queue collects nothing: it waits for its writes, or reports the
error and keeps it. -/
theorem drainFinishedInsert_failed (h : q.InsertFailed) {notify result : Except StoreError Unit}
    (hd : q.drainFinishedInsert notify = some (q', result)) :
    q'.InsertFailed ∧ q'.allocated = q.allocated ∧ q'.pendingInsert = q.pendingInsert ∧
      q'.pendingInsertTasks.length ≤ q.pendingInsertTasks.length ∧ ∃ e, result = .error e := by
  unfold drainFinishedInsert at hd
  cases herror : q.insertError with
  | some e =>
    simp only [herror, Option.some.injEq, Prod.mk.injEq] at hd
    obtain ⟨rfl, rfl⟩ := hd
    exact ⟨.inl (by rw [herror]; rfl), rfl, rfl, le_rfl, e, rfl⟩
  | none =>
    have htask : ∃ t ∈ q.pendingInsertTasks, t.failure.isSome = true := by
      rcases h with h | h
      · rw [herror] at h
        cases h
      · exact h
    cases hfail : q.pendingInsertTasks.findSome? (·.failure) with
    | none =>
      obtain ⟨t, ht, hsome⟩ := htask
      rw [List.findSome?_eq_none_iff.1 hfail t ht] at hsome
      cases hsome
    | some e =>
      simp only [herror, hfail] at hd
      split at hd
      · simp only [Option.some.injEq, Prod.mk.injEq] at hd
        obtain ⟨rfl, rfl⟩ := hd
        exact ⟨.inl rfl, rfl, rfl, Nat.zero_le _, _, rfl⟩
      · cases hd

theorem settleProcessed_failed (h : q.InsertFailed) {notify result : Except StoreError Unit}
    {src src' : IdSource} (hs : q.settleProcessed notify src = some (src', q', result)) :
    q'.InsertFailed ∧ q'.allocated = q.allocated ∧ q'.pendingInsert = q.pendingInsert ∧
      q'.pendingInsertTasks.length ≤ q.pendingInsertTasks.length ∧ ∃ e, result = .error e := by
  unfold settleProcessed at hs
  cases hd : q.drainFinishedInsert notify with
  | none => simp [hd] at hs
  | some drained =>
    obtain ⟨q₁, result₁⟩ := drained
    obtain ⟨e, rfl⟩ := (drainFinishedInsert_failed h hd).2.2.2.2
    have hfailed := drainFinishedInsert_failed h hd
    simp only [hd, Option.some.injEq, Prod.mk.injEq] at hs
    obtain ⟨-, rfl, rfl⟩ := hs
    exact hfailed

/-- The pump adds tasks. -/
theorem Pumped.failed {added : List (PendingInsertTask (EvaluationBatch P C))}
    (h : q.Pumped q' added) (hq : q.InsertFailed) : q'.InsertFailed := by
  rw [h.eq]
  rcases hq with hq | ⟨t, ht, hsome⟩
  · exact .inl hq
  · exact .inr ⟨t, List.mem_append_left _ ht, hsome⟩

theorem ingest_failed (h : q.InsertFailed) (batches : List (EvaluationBatch P C))
    (requiresFeedback : Bool) (src : IdSource) :
    (q.ingest batches requiresFeedback src).2.InsertFailed := by
  obtain ⟨added, hpumped, -⟩ := (q.buffer batches requiresFeedback).ensureInsertPump_pumped src
  exact hpumped.failed h

theorem sameInserts_markProcessed (processed : List (CompletedBatch Res)) (due : Bool)
    (q : SamplerQueue P C Res) : SameInserts q (q.markProcessed processed due) := by
  have hmarked := markProcessed_marked processed due q
  exact ⟨hmarked.insertError, hmarked.pendingInsertTasks, hmarked.pendingInsert, hmarked.allocated⟩

theorem sameInserts_finishBackgroundMaintenance {result : Except StoreError Unit}
    (h : q.finishBackgroundMaintenance = some (q', result)) : SameInserts q q' := by
  unfold finishBackgroundMaintenance at h
  split at h
  · cases h
  · cases h
    exact ⟨rfl, rfl, rfl, rfl⟩
  · cases h
    exact ⟨rfl, rfl, rfl, rfl⟩

/-- The end of `flush`: everything has been inserted. -/
theorem flushed_of_flushTurn {notify : Except StoreError Unit} {src src' : IdSource}
    (h : q.flushTurn notify src = some (src', q', .ok true)) : q'.Flushed := by
  unfold flushTurn at h
  cases hd : q.drainFinishedInsert notify with
  | none => simp [hd] at h
  | some drained =>
    obtain ⟨q₁, result₁⟩ := drained
    have herror : result₁ = .ok () → q₁.insertError = none := by
      rintro rfl
      unfold drainFinishedInsert at hd
      cases hq : q.insertError with
      | some e => simp [hq] at hd
      | none =>
        simp only [hq] at hd
        split at hd
        · split at hd <;> cases hd
        · simp only [Option.some.injEq, Prod.mk.injEq] at hd
          rw [← hd.1]
    cases result₁ with
    | error e => simp [hd] at h
    | ok _ =>
      simp only [hd] at h
      split at h
      · rename_i hempty
        simp only [Option.some.injEq, Prod.mk.injEq] at h
        simp only [Bool.and_eq_true, List.isEmpty_iff] at hempty
        obtain ⟨-, rfl, -⟩ := h
        exact ⟨hempty.2, hempty.1, herror rfl⟩
      · obtain ⟨added, hpumped, hstarts⟩ := q₁.ensureInsertPump_pumped src
        generalize q₁.ensureInsertPump src = pumped at h hpumped
        obtain ⟨src₂, q₂⟩ := pumped
        change q₁.Pumped q₂ added at hpumped
        simp only [Option.some.injEq, Prod.mk.injEq, Except.ok.injEq, List.isEmpty_iff] at h
        obtain ⟨-, rfl, htasks⟩ := h
        have hnone : q₁.pendingInsertTasks ++ added = [] := by
          rw [hpumped.eq] at htasks
          exact htasks
        obtain ⟨hold, hnew⟩ := List.append_eq_nil_iff.1 hnone
        have hbuffer : q₁.pendingInsert = [] := by
          by_contra hne
          exact hstarts hold hne hnew
        exact Flushed.pumped ⟨hbuffer, hold, herror rfl⟩ hpumped

end SamplerQueue

/-! ## The aggregator -/

open SamplerQueue

namespace SamplerAggregatorRunner

variable {kit : Kit V P A M C}

/-- Ingestion touches no insert. -/
theorem processCompletedBatches_inserts (kit : Kit V P A M C)
    (completed : List (CompletedBatch (BatchResult V A))) (tuned : Nat) (due : Bool) (r : SamplerAggregatorRunner V P A M C) :
    SameInserts r.queue (processCompletedBatches kit completed tuned due r).1.queue := by
  have hcases := processed kit completed tuned due r
  have hkeeps := ingestAll_ingesting kit completed { r with queue := r.queue.tuned tuned }
  have htuned : SameInserts r.queue (r.queue.tuned tuned) := ⟨rfl, rfl, rfl, rfl⟩
  generalize processCompletedBatches kit completed tuned due r = out at hcases
  cases hcases with
  | nothing h => exact .refl _
  | otherTask b hb htask message => exact .refl _
  | refused htask r₁ e hall =>
    rw [hall] at hkeeps
    show SameInserts r.queue r₁.queue
    rw [hkeeps.queue]
    exact htuned
  | whole hne htask r₁ hall =>
    rw [hall] at hkeeps
    show SameInserts r.queue (r₁.queue.markProcessed completed due)
    rw [hkeeps.queue]
    exact htuned.trans (sameInserts_markProcessed completed due _)

/-- Production forgets no failed insert. -/
theorem Produces.failed {src : IdSource} {r : SamplerAggregatorRunner V P A M C}
    {out : IdSource × SamplerAggregatorRunner V P A M C × Except RunnerError (Nat × Bool)}
    (h : Produces src r out) (hr : r.queue.InsertFailed) : out.2.1.queue.InsertFailed := by
  cases h with
  | nothing r' result hq h =>
    obtain ⟨size, cached, sizing, heq⟩ := hq
    show r'.queue.InsertFailed
    rw [heq]
    exact hr
  | sent src' r' q hq batches requiresFeedback hqueue h wants =>
    obtain ⟨size, cached, sizing, rfl⟩ := hq
    have hingest := ingest_failed (q := { r.queue with
      checkpoint := { r.queue.checkpoint with batchSizeCurrent := size }
      cachedActiveEvaluatorCount := cached
      trainingBatchSizing := sizing }) hr batches requiresFeedback src
    rw [hqueue] at hingest
    exact hingest

/-- The rest of a tick forgets no failed insert. -/
theorem work_failed (kit : Kit V P A M C) (taken : List (CompletedBatch (BatchResult V A)))
    (counts : BatchQueueCounts) (replies : TickReplies) (src : IdSource) (r : SamplerAggregatorRunner V P A M C)
    (h : r.queue.InsertFailed) : (work kit taken counts replies src r).2.1.queue.InsertFailed := by
  have hp := processCompletedBatches_inserts kit taken replies.tuned replies.cleanupDue r
  unfold work
  generalize processCompletedBatches kit taken replies.tuned replies.cleanupDue r = out at hp
  obtain ⟨r₁, result⟩ := out
  cases result with
  | error e => exact hp.failed h
  | ok stats =>
    have hproduce := produce_produces kit
      { counts with completed := counts.completed - stats.completedBatches } replies.produce src r₁
    have hfailed := hproduce.failed (hp.failed h)
    dsimp only
    generalize produce kit _ replies.produce src r₁ = made at hfailed
    obtain ⟨src', r₂, result⟩ := made
    cases result with
    | error e => exact hfailed
    | ok sent =>
      obtain ⟨count, wants⟩ := sent
      dsimp only
      cases replies.published <;> exact hfailed

end SamplerAggregatorRunner

/-! ## One node -/

section

variable {set : Setting V P A M C} {db : Database V P A M C} {g : BatchIdGenerator}
  {l : LiveRunner V P A M C}

/-- Nothing is left to insert when a runner drains and saves. -/
def LiveRunner.Drains (l : LiveRunner V P A M C) : Prop :=
  ∀ why, l.phase = .closing why .draining ∨ l.phase = .closing why .saving →
    l.runner.queue.Flushed

/-- What a step leaves of a runner whose insert has failed. -/
structure Fenced (l : LiveRunner V P A M C) (after : LiveStep V P A M C) : Prop
    extends AtRest l after where
  failed : after.live.runner.queue.InsertFailed
  phase : l.phase.midTick = false → after.live.phase.midTick = false

theorem Fenced.goto {q : SamplerQueue P C (BatchResult V A)}
    (hq : q.InsertFailed ∧ q.allocated = l.runner.queue.allocated ∧
      q.pendingInsert = l.runner.queue.pendingInsert ∧
      q.pendingInsertTasks.length ≤ l.runner.queue.pendingInsertTasks.length)
    {phase : SamplerPhase V A} (hphase : l.phase.midTick = false → phase.midTick = false) :
    Fenced l (l.goto db g q phase) :=
  ⟨⟨.inl rfl, rfl, rfl, hq.2.1, hq.2.2.1, hq.2.2.2⟩, hq.1, hphase⟩

theorem Fenced.unchanged (h : l.runner.queue.InsertFailed) : Fenced l (l.unchanged db g) :=
  ⟨⟨.inl rfl, rfl, rfl, rfl, rfl, le_rfl⟩, h, id⟩

theorem Fenced.gotoSame (h : l.runner.queue.InsertFailed)
    {q : SamplerQueue P C (BatchResult V A)} (hq : SameInserts l.runner.queue q)
    {phase : SamplerPhase V A} (hphase : l.phase.midTick = false → phase.midTick = false) :
    Fenced l (l.goto db g q phase) :=
  .goto ⟨hq.failed h, hq.allocated, hq.buffer, (congrArg List.length hq.tasks).le⟩ hphase

theorem midTick_afterTickError (e : RunnerError) :
    (afterTickError e : SamplerPhase V A).midTick = false := by
  cases e with
  | engine e => rfl
  | store e =>
    unfold afterTickError
    dsimp only
    split <;> rfl

theorem midTick_afterCloseError (why : Closing) :
    (afterCloseError why : SamplerPhase V A).midTick = false := by
  cases why <;> rfl

theorem pollStep_fenced (h : l.runner.queue.InsertFailed) (clock : Nat → UInt64)
    (notify : Except StoreError Unit) (due : Bool) :
    Fenced l (pollStep db g l clock notify due) := by
  unfold pollStep
  split
  · cases hs : l.runner.queue.settleProcessed notify ⟨g, clock, 0⟩ with
    | none =>
      simp only [SamplerQueue.tickProcessed, SamplerQueue.getProcessed, hs]
      exact .unchanged h
    | some settled =>
      obtain ⟨src, q, result⟩ := settled
      obtain ⟨hfailed, hallocated, hbuffer, htasks, e, rfl⟩ := settleProcessed_failed h hs
      simp only [SamplerQueue.tickProcessed, SamplerQueue.getProcessed, hs]
      exact .goto ⟨hfailed, hallocated, hbuffer, htasks⟩ fun _ => midTick_afterTickError _
  · exact .unchanged h

theorem flushStep_fenced (h : l.runner.queue.InsertFailed) (clock : Nat → UInt64)
    (notify : Except StoreError Unit) : Fenced l (flushStep db g l clock notify) := by
  unfold flushStep
  split
  · cases hd : l.runner.queue.drainFinishedInsert notify with
    | none =>
      simp only [SamplerQueue.flushTurn, hd]
      exact .unchanged h
    | some drained =>
      obtain ⟨q, result⟩ := drained
      obtain ⟨hfailed, hallocated, hbuffer, htasks, e, rfl⟩ := drainFinishedInsert_failed h hd
      simp only [SamplerQueue.flushTurn, hd]
      exact .goto ⟨hfailed, hallocated, hbuffer, htasks⟩ fun _ => midTick_afterCloseError _
  · exact .unchanged h

/-- Marking one running task changes no finished one. -/
theorem failed_setTask {q : SamplerQueue P C (BatchResult V A)} (h : q.InsertFailed) {i : Nat}
    {t : PendingInsertTask (EvaluationBatch P C)} (hi : q.pendingInsertTasks[i]? = some t)
    (hrunning : t.isFinished = false) (t' : PendingInsertTask (EvaluationBatch P C)) :
    { q with pendingInsertTasks := q.pendingInsertTasks.set i t' }.InsertFailed := by
  rcases h with herror | ⟨failing, hmem, hsome⟩
  · exact .inl herror
  · obtain ⟨j, hj⟩ := List.mem_iff_getElem?.1 hmem
    have hne : i ≠ j := by
      rintro rfl
      rw [hi] at hj
      cases hj
      unfold PendingInsertTask.isFinished at hrunning
      unfold PendingInsertTask.failure at hsome
      cases ho : t.outcome with
      | none => simp [ho] at hsome
      | some outcome => simp [ho] at hrunning
    exact .inr ⟨failing, List.mem_iff_getElem?.2 ⟨j, by
      show (q.pendingInsertTasks.set i t')[j]? = _
      rw [List.getElem?_set_ne hne, hj]⟩, hsome⟩

theorem insertCommitsStep_fenced (h : l.runner.queue.InsertFailed) (i createdAt : Nat) :
    Fenced l (insertCommitsStep set db g l i createdAt) := by
  unfold insertCommitsStep
  split
  · exact .unchanged h
  · rename_i t ht
    split
    · exact .unchanged h
    · rename_i hguard
      have hrunning : t.isFinished = false := by
        cases hf : t.isFinished with
        | true => simp [hf] at hguard
        | false => rfl
      split
      · exact ⟨⟨.inr rfl, rfl, rfl, rfl, rfl, (List.length_set ..).le⟩,
          failed_setTask h ht hrunning _, id⟩
      · exact .goto ⟨failed_setTask h ht hrunning _, rfl, rfl, (List.length_set ..).le⟩ id

theorem insertReturnsStep_fenced (h : l.runner.queue.InsertFailed) (i : Nat)
    (error : Option StoreError) : Fenced l (insertReturnsStep db g l i error) := by
  unfold insertReturnsStep
  split
  · exact .unchanged h
  · rename_i t ht
    split
    · exact .unchanged h
    · rename_i hguard
      have hrunning : t.isFinished = false := by
        cases hf : t.isFinished with
        | true => simp [hf] at hguard
        | false => rfl
      exact .goto ⟨failed_setTask h ht hrunning _, rfl, rfl, (List.length_set ..).le⟩ id

/-- Until the tick that runs when an insert fails does its work, and after that, a runner rests
and keeps the failure. -/
theorem liveStep_fenced (h : l.runner.queue.InsertFailed) (hdrains : l.Drains) {e : NodeEvent}
    (he : ∀ clock replies, e = .work clock replies → l.phase.midTick = false) :
    Fenced l (liveStep set db g l e) := by
  cases e with
  | poll clock notify due => exact pollStep_fenced h clock notify due
  | flush clock notify => exact flushStep_fenced h clock notify
  | insertCommits i createdAt => exact insertCommitsStep_fenced h i createdAt
  | insertReturns i error => exact insertReturnsStep_fenced h i error
  | tune config =>
    show Fenced l (tuneStep db g l config)
    unfold tuneStep
    split
    · apply Fenced.gotoSame h
      · exact ⟨rfl, rfl, rfl, rfl⟩
      · exact fun _ => rfl
    · exact .unchanged h
  | count error =>
    show Fenced l (countStep set db g l error)
    unfold countStep
    split
    · rename_i taken hphase
      have hmid : l.phase.midTick = true := by
        rw [hphase]
        rfl
      cases error with
      | some e => exact .gotoSame h (.refl _) fun _ => midTick_afterTickError _
      | none =>
        refine .gotoSame (q := l.runner.queue.recordHanded taken) h ⟨rfl, rfl, rfl, rfl⟩ fun hn => ?_
        rw [hmid] at hn
        cases hn
    · exact .unchanged h
  | work clock replies =>
    show Fenced l (workStep set db g l clock replies)
    unfold workStep
    split
    · rename_i taken counts hphase
      have hmid := he clock replies rfl
      rw [hphase] at hmid
      cases hmid
    · exact .unchanged h
  | stop =>
    show Fenced l (stopStep db g l)
    unfold stopStep
    split
    · exact .gotoSame h (.refl _) fun _ => rfl
    · exact .gotoSame h (.refl _) fun _ => rfl
    · exact .unchanged h
  | drain clock notify tuned due published =>
    show Fenced l (drainStep set db g l clock notify tuned due published)
    unfold drainStep
    split
    · rename_i why hphase
      exact absurd h (hdrains why (.inl hphase)).not_failed
    · exact .unchanged h
  | save outcome =>
    show Fenced l (saveStep set db g l outcome)
    unfold saveStep
    split
    · rename_i why hphase
      exact absurd h (hdrains why (.inr hphase)).not_failed
    · exact .unchanged h
  | fetchRuns error =>
    show Fenced l (fetchRunsStep set db g l error)
    unfold fetchRunsStep
    split
    · exact .unchanged h
    · split
      · exact .unchanged h
      · apply Fenced.gotoSame h
        · exact ⟨rfl, rfl, rfl, rfl⟩
        · exact id
  | cleanupRuns room error =>
    show Fenced l (cleanupRunsStep set db g l room error)
    unfold cleanupRunsStep
    split
    · exact .unchanged h
    · split
      · exact .unchanged h
      · apply Fenced.gotoSame h
        · exact ⟨rfl, rfl, rfl, rfl⟩
        · exact id
  | reboot _ | expireLease | renewLease | build _ | activate _ | leave _ => exact .unchanged h

/-- The work of a tick ends it, saves no checkpoint and forgets no failed insert. -/
theorem workStep_failed (set : Setting V P A M C) (db : Database V P A M C) (g : BatchIdGenerator)
    (h : l.runner.queue.InsertFailed) (clock : Nat → UInt64) (replies : TickReplies) :
    (workStep set db g l clock replies).live.runner.queue.InsertFailed ∧
      (workStep set db g l clock replies).write ≠ some .checkpoint ∧
      (workStep set db g l clock replies).live.phase.midTick = false ∨
    Fenced l (workStep set db g l clock replies) := by
  unfold workStep
  split
  · rename_i taken counts hphase
    have hfailed := SamplerAggregatorRunner.work_failed set.kit taken counts replies
      ⟨g, clock, 0⟩ l.runner h
    generalize l.runner.work set.kit taken counts replies ⟨g, clock, 0⟩ = out at hfailed
    obtain ⟨src, r, result⟩ := out
    refine .inl ⟨hfailed, ?_, ?_⟩
    · dsimp only
      split <;> simp
    · cases result with
      | error e => exact midTick_afterTickError e
      | ok done => cases done <;> rfl
  · exact .inr (.unchanged h)

/-- A runner drains and saves only what `flush` has left. -/
theorem liveStep_drains (h : l.Drains) (e : NodeEvent) : (liveStep set db g l e).live.Drains := by
  have hclose : ∀ (why why' : Closing) (stage : ClosingStage),
      (afterCloseError why : SamplerPhase V A) ≠ .closing why' stage := by
    intro why why' stage
    cases why <;> exact fun heq => by cases heq
  have htick : ∀ (e : RunnerError) (why' : Closing) (stage : ClosingStage),
      (afterTickError e : SamplerPhase V A) ≠ .closing why' stage := by
    intro e why' stage
    cases e with
    | engine e => exact fun heq => by cases heq
    | store e =>
      unfold afterTickError
      dsimp only
      split <;> exact fun heq => by cases heq
  -- a phase that neither drains nor saves
  have hother : ∀ {phase : SamplerPhase V A} {r : SamplerAggregatorRunner V P A M C},
      (∀ why stage, stage ≠ .flushing → phase ≠ .closing why stage) →
      LiveRunner.Drains ⟨r, phase⟩ := by
    rintro phase r hne why (heq | heq)
    · exact absurd heq (hne why .draining (by decide))
    · exact absurd heq (hne why .saving (by decide))
  -- the phase stays and the inserts are untouched
  have hsame : ∀ {q : SamplerQueue P C (BatchResult V A)}, SameInserts l.runner.queue q →
      LiveRunner.Drains ⟨{ l.runner with queue := q }, l.phase⟩ :=
    fun hq why hphase => hq.flushed (h why hphase)
  cases e with
  | poll clock notify due =>
    show (pollStep db g l clock notify due).live.Drains
    unfold pollStep
    split
    · split
      · exact h
      · exact hother fun why stage _ => htick _ why stage
      · exact hother fun why stage _ heq => by cases heq
    · exact h
  | tune config =>
    show (tuneStep db g l config).live.Drains
    unfold tuneStep
    split
    · exact hother fun why stage _ heq => by cases heq
    · exact h
  | count error =>
    show (countStep set db g l error).live.Drains
    unfold countStep
    split
    · cases error with
      | some e => exact hother fun why stage _ => htick _ why stage
      | none => exact hother fun why stage _ heq => by cases heq
    · exact h
  | work clock replies =>
    show (workStep set db g l clock replies).live.Drains
    unfold workStep
    split
    · generalize l.runner.work set.kit _ _ replies ⟨g, clock, 0⟩ = out
      obtain ⟨src, r, result⟩ := out
      refine hother fun why stage hstage => ?_
      cases result with
      | error e => exact htick e why stage
      | ok done =>
        cases done with
        | true =>
          intro heq
          cases heq
          exact hstage rfl
        | false => exact fun heq => by cases heq
    · exact h
  | stop =>
    show (stopStep db g l).live.Drains
    unfold stopStep
    split
    · exact hother fun why stage hstage heq => by
        cases heq
        exact hstage rfl
    · exact hother fun why stage hstage heq => by
        cases heq
        exact hstage rfl
    · exact h
  | flush clock notify =>
    show (flushStep db g l clock notify).live.Drains
    unfold flushStep
    split
    · split
      · exact h
      · exact hother fun why stage _ => hclose _ why stage
      · rename_i hturn
        exact fun _ _ => flushed_of_flushTurn hturn
      · exact hother fun why stage hstage heq => by
          cases heq
          exact hstage rfl
    · exact h
  | drain clock notify tuned due published =>
    show (drainStep set db g l clock notify tuned due published).live.Drains
    unfold drainStep
    split
    · rename_i why hphase
      have hflushed := h why (.inl hphase)
      split
      · exact h
      · exact hother fun why stage _ => hclose _ why stage
      · rename_i hready
        have hq := hflushed.getProcessedReady hready
        split
        · exact h
        · exact hother fun why stage _ => hclose _ why stage
        · rename_i hmaintained
          exact fun _ _ => (sameInserts_finishBackgroundMaintenance hmaintained).flushed hq
      · rename_i src q taken _ hready
        have hq := hflushed.getProcessedReady hready
        have hp := SamplerAggregatorRunner.processCompletedBatches_inserts set.kit taken
          tuned due { l.runner with queue := q.recordHanded taken }
        dsimp only
        split
        · exact hother fun why stage _ => hclose _ why stage
        · rename_i heq
          rw [heq] at hp
          exact fun _ _ => hp.flushed ⟨hq.buffer, hq.tasks, hq.error⟩
    · exact h
  | save outcome =>
    show (saveStep set db g l outcome).live.Drains
    unfold saveStep
    split
    · rename_i why hphase
      split
      · exact hother fun why stage _ => hclose _ why stage
      · split
        · exact hother fun why stage _ => hclose _ why stage
        · refine hother fun why' stage _ => ?_
          split
          · exact fun heq => by cases heq
          · exact hclose _ why' stage
    · exact h
  | insertCommits i createdAt =>
    show (insertCommitsStep set db g l i createdAt).live.Drains
    have hidle : ∀ why, l.phase = .closing why .draining ∨ l.phase = .closing why .saving →
        l.runner.queue.pendingInsertTasks[i]? = none := fun why hphase => by
      rw [(h why hphase).tasks]
      rfl
    unfold insertCommitsStep
    split
    · exact h
    · rename_i t ht
      have hnever : ∀ {r : SamplerAggregatorRunner V P A M C}, LiveRunner.Drains ⟨r, l.phase⟩ := by
        intro r why hphase
        rw [hidle why hphase] at ht
        cases ht
      split
      · exact h
      · split <;> exact hnever
  | insertReturns i error =>
    show (insertReturnsStep db g l i error).live.Drains
    unfold insertReturnsStep
    split
    · exact h
    · rename_i t ht
      split
      · exact h
      · intro why hphase
        rw [(h why hphase).tasks] at ht
        cases ht
  | fetchRuns error =>
    show (fetchRunsStep set db g l error).live.Drains
    unfold fetchRunsStep
    split
    · exact h
    · split
      · exact h
      · exact hsame ⟨rfl, rfl, rfl, rfl⟩
  | cleanupRuns room error =>
    show (cleanupRunsStep set db g l room error).live.Drains
    unfold cleanupRunsStep
    split
    · exact h
    · split
      · exact h
      · exact hsame ⟨rfl, rfl, rfl, rfl⟩
  | reboot _ | expireLease | renewLease | build _ | activate _ | leave _ => exact h

end

/-! ## Runs -/

namespace SamplerSystem

variable (set : Setting V P A M C)

/-- The runner of node `n` rests. -/
def RestsAt (n : Nat) (s : SamplerSystem V P A M C) : SamplerEvent V A → Prop
  | .node m e => m = n → ∀ node ∈ s.nodes[n]?, ∀ l ∈ node.live,
      AtRest l (liveStep set s.db node.generator l e)
  | _ => True

/-- The runner of node `n` saves no checkpoint. -/
def SavesNothing (n : Nat) (s : SamplerSystem V P A M C) : SamplerEvent V A → Prop
  | .node m e => m = n → ∀ node ∈ s.nodes[n]?, ∀ l ∈ node.live,
      (liveStep set s.db node.generator l e).write ≠ some .checkpoint
  | _ => True

/-- A runner that comes up at node `n` starts from a saved checkpoint, with the rows above its
production boundary deleted. -/
def Restores (n : Nat) (s : SamplerSystem V P A M C) (outcome : BuildOutcome) : Prop :=
  ∀ l, (s.nodeStep set n (.build outcome)).liveAt n = some l → ∃ c rows,
    s.db.checkpoint = some c ∧ restoreSamplerCheckpoint set.runId c s.db.rows = .ok rows ∧
      (s.nodeStep set n (.build outcome)).db.rows = rows ∧
      l.runner = .resume set.runId set.task set.config c ∧
      ∀ r ∈ rows, r.runId = set.runId → r.taskId = c.taskId → r.id ≤ c.queue.produced

variable {set} {s : SamplerSystem V P A M C}

/-- Every runner drains and saves only what `flush` has left, and there is a checkpoint as soon
as there is a runner. -/
structure Closes (s : SamplerSystem V P A M C) : Prop where
  drains : ∀ n l, s.liveAt n = some l → l.Drains
  saved : ∀ n l, s.liveAt n = some l → s.db.checkpoint.isSome = true

theorem buildRunner_saved {outcome : BuildOutcome} {db : Database V P A M C}
    {r : SamplerAggregatorRunner V P A M C} (h : (buildRunner set outcome db).2 = some r) :
    (buildRunner set outcome db).1.checkpoint.isSome = true ∧ r.queue.Flushed := by
  unfold buildRunner at h ⊢
  split at h
  · cases h
  · rename_i hne
    rw [if_neg hne]
    split at h
    · rename_i c hc
      split at h
      · cases h
      · dsimp only at h ⊢
        split at h
        · cases h
          exact ⟨by rw [hc]; rfl, rfl, rfl, rfl⟩
        · cases h
    · simp only at h ⊢
      split at h
      · cases h
      · rename_i r₁ c hcheck
        split at h
        · cases h
          have hrunner := congrArg Prod.fst hcheck
          refine ⟨rfl, ?_⟩
          unfold SamplerAggregatorRunner.checkpoint at hcheck
          split at hcheck <;> cases hcheck
          exact ⟨rfl, rfl, rfl⟩
        · cases h

theorem buildRunner_checkpoint (outcome : BuildOutcome) {db : Database V P A M C}
    (h : db.checkpoint.isSome = true) :
    (buildRunner set outcome db).1.checkpoint = db.checkpoint := by
  obtain ⟨c, hc⟩ := Option.isSome_iff_exists.1 h
  unfold buildRunner
  split
  · rfl
  · rw [hc]
    dsimp only
    split
    · exact hc
    · rfl

/-- A saved checkpoint is replaced, never lost. -/
theorem saved_step (e : SamplerEvent V A) (h : s.db.checkpoint.isSome = true) :
    (s.step set e).db.checkpoint.isSome = true := by
  cases e with
  | node m e =>
    show (s.nodeStep set m e).db.checkpoint.isSome = true
    cases (nodeMove m e s : NodeMove set s m e _) with
    | rests hdb hlive hwrites hactivated hkeeper => rwa [hdb]
    | drops hdb hlive hothers hwrites hactivated hkeeper => rwa [hdb]
    | activates l hl hphase hdb hlive hothers hwrites hactivated hkeeper => rwa [hdb]
    | builds outcome he hnone hdb hlive hothers hwrites hactivated hkeeper =>
      rwa [hdb, buildRunner_checkpoint outcome h]
    | steps node hn l hl hdb hlive hothers hwrites hactivated hkeeper =>
      rw [hdb]
      have htables : TablesKept s.db (liveStep set s.db node.generator l e).db l.runner :=
        liveStep_tables e
      rcases htables.checkpoint with hsame | ⟨c, hc, -⟩
      · rwa [hsame]
      · rw [hc]
        rfl
  | submit batchId uuid token result =>
    show (s.db.submit set.kit batchId uuid token result).checkpoint.isSome = true
    unfold Database.submit
    split
    · exact h
    · split <;> exact h
  | claim _ _ _ _ | releaseWorker _ | releaseUntracked _ _ | reclaim _ | failBatch _ _ _ _ _ => exact h

/-- The events of evaluators leave the runners alone. -/
theorem liveAt_step (e : SamplerEvent V A) (he : ∀ m e', e ≠ .node m e') (n : Nat) :
    (s.step set e).liveAt n = s.liveAt n := by
  cases e with
  | node m e => exact absurd rfl (he m e)
  | claim _ _ _ _ | releaseWorker _ | releaseUntracked _ _ | reclaim _ | submit _ _ _ _
  | failBatch _ _ _ _ _ => rfl

theorem Closes.step (h : Closes s) (e : SamplerEvent V A) : Closes (s.step set e) := by
  have hkept : ∀ {s' : SamplerSystem V P A M C}, (∀ n l, s'.liveAt n = some l → l.Drains) →
      (∀ n l, s'.liveAt n = some l → s'.db.checkpoint.isSome = true) → Closes s' :=
    fun hdrains hsaved => ⟨hdrains, hsaved⟩
  by_cases he : ∀ m e', e ≠ .node m e'
  · refine hkept (fun n l hl => ?_) fun n l hl => ?_
    · rw [liveAt_step e he] at hl
      exact h.drains n l hl
    · rw [liveAt_step e he] at hl
      exact saved_step e (h.saved n l hl)
  · obtain ⟨m, e, rfl⟩ : ∃ m e', e = .node m e' := by simpa using he
    have hsaved : ∀ n l, s.liveAt n = some l → (s.nodeStep set m e).db.checkpoint.isSome = true :=
      fun n l hl => saved_step (.node m e) (h.saved n l hl)
    show Closes (s.nodeStep set m e)
    cases (nodeMove m e s : NodeMove set s m e _) with
    | rests hdb hlive hwrites hactivated hkeeper =>
      refine hkept (fun n l hl => ?_) fun n l hl => ?_
      · exact h.drains n l (hlive n ▸ hl)
      · exact hsaved n l (hlive n ▸ hl)
    | drops hdb hlive hothers hwrites hactivated hkeeper =>
      have hother : ∀ n l, (s.nodeStep set m e).liveAt n = some l → s.liveAt n = some l := by
        intro n l hl
        by_cases hn : n = m
        · rw [hn, hlive] at hl
          cases hl
        · rwa [hothers n hn] at hl
      exact hkept (fun n l hl => h.drains n l (hother n l hl))
        fun n l hl => hsaved n l (hother n l hl)
    | activates l hl hphase hdb hlive hothers hwrites hactivated hkeeper =>
      refine hkept (fun n l' hl' => ?_) fun n l' hl' => ?_
      · by_cases hn : n = m
        · rw [hn, hlive] at hl'
          cases hl'
          rintro why (heq | heq) <;> cases heq
        · exact h.drains n l' (hothers n hn ▸ hl')
      · by_cases hn : n = m
        · exact hsaved m l hl
        · exact hsaved n l' (hothers n hn ▸ hl')
    | builds outcome he hnone hdb hlive hothers hwrites hactivated hkeeper =>
      refine hkept (fun n l' hl' => ?_) fun n l' hl' => ?_
      · by_cases hn : n = m
        · rw [hn, hlive] at hl'
          obtain ⟨r, -, rfl⟩ := Option.map_eq_some_iff.1 hl'
          rintro why (heq | heq) <;> cases heq
        · exact h.drains n l' (hothers n hn ▸ hl')
      · by_cases hn : n = m
        · rw [hn, hlive] at hl'
          obtain ⟨r, hr, -⟩ := Option.map_eq_some_iff.1 hl'
          rw [hdb]
          exact (buildRunner_saved hr).1
        · exact hsaved n l' (hothers n hn ▸ hl')
    | steps node hn l hl hdb hlive hothers hwrites hactivated hkeeper =>
      have hat : s.liveAt m = some l := by simp [liveAt, hn, hl]
      refine hkept (fun n l' hl' => ?_) fun n l' hl' => ?_
      · by_cases hnm : n = m
        · rw [hnm, hlive] at hl'
          cases hl'
          exact liveStep_drains (h.drains m l hat) e
        · exact h.drains n l' (hothers n hnm ▸ hl')
      · by_cases hnm : n = m
        · exact hsaved m l hat
        · exact hsaved n l' (hothers n hnm ▸ hl')

theorem closes_run (set : Setting V P A M C) (entropies : List UInt16)
    (events : List (SamplerEvent V A)) : Closes (run (step set) (init entropies) events) := by
  refine run_invariant' (I := Closes) (fun s e h => h.step e) events ?_
  constructor
  · intro n l hl
    rw [liveAt_init] at hl
    cases hl
  · intro n l hl
    rw [liveAt_init] at hl
    cases hl

/-- Node `n` has a runner whose insert has failed. -/
def Failing (n : Nat) (s : SamplerSystem V P A M C) : Prop :=
  ∃ l, s.liveAt n = some l ∧ l.runner.queue.InsertFailed

/-- The runner of node `n` is not within a tick. -/
def BetweenTicks (n : Nat) (s : SamplerSystem V P A M C) : Prop :=
  ∀ l ∈ s.liveAt n, l.phase.midTick = false

/-- Only the work of the tick that runs when the insert fails does not rest; it ends the tick. -/
structure StepFenced (set : Setting V P A M C) (n : Nat) (s : SamplerSystem V P A M C)
    (e : SamplerEvent V A) : Prop where
  saves : SavesNothing set n s e
  failing : ((s.step set e).liveAt n).isSome = true → Failing n (s.step set e)
  between : BetweenTicks n s → RestsAt set n s e ∧ BetweenTicks n (s.step set e)
  work : ¬ RestsAt set n s e →
    (∃ clock replies, e = .node n (.work clock replies)) ∧ BetweenTicks n (s.step set e)

theorem Failing.step {n : Nat} (h : Failing n s) (hs : Closes s) (e : SamplerEvent V A) :
    StepFenced set n s e := by
  obtain ⟨l, hl, hfailed⟩ := h
  have hdrains := hs.drains n l hl
  -- an event elsewhere leaves the runner as it is
  have helse : (s.step set e).liveAt n = s.liveAt n → SavesNothing set n s e →
      RestsAt set n s e → StepFenced set n s e := by
    intro hat hsaves hrests
    refine ⟨hsaves, fun _ => ⟨l, hat.trans hl, hfailed⟩, fun hbetween => ⟨hrests, ?_⟩,
      fun hn => absurd hrests hn⟩
    unfold BetweenTicks
    rwa [hat]
  by_cases he : ∀ m e', e ≠ .node m e'
  · refine helse (liveAt_step e he n) ?_ ?_
    · cases e with
      | node m e => exact absurd rfl (he m e)
      | _ => trivial
    · cases e with
      | node m e => exact absurd rfl (he m e)
      | _ => trivial
  obtain ⟨m, e, rfl⟩ : ∃ m e', e = .node m e' := by simpa using he
  have hmove : NodeMove set s m e (s.nodeStep set m e) := nodeMove m e s
  by_cases hm : m = n
  swap
  · refine helse ?_ (fun heq => absurd heq hm) fun heq => absurd heq hm
    show (s.nodeStep set m e).liveAt n = _
    have hnm : n ≠ m := fun heq => hm heq.symm
    cases hmove with
    | rests hdb hlive hwrites hactivated hkeeper => exact hlive n
    | drops hdb hlive hothers hwrites hactivated hkeeper => exact hothers n hnm
    | activates l hl hphase hdb hlive hothers hwrites hactivated hkeeper => exact hothers n hnm
    | builds outcome he hnone hdb hlive hothers hwrites hactivated hkeeper => exact hothers n hnm
    | steps node hn l hl hdb hlive hothers hwrites hactivated hkeeper => exact hothers n hnm
  subst hm
  obtain ⟨node, hnode, hlive⟩ : ∃ node, s.nodes[m]? = some node ∧ node.live = some l := by
    unfold liveAt at hl
    exact Option.bind_eq_some_iff.1 hl
  have honly : ∀ node' ∈ s.nodes[m]?, ∀ l' ∈ node'.live, node' = node ∧ l' = l := by
    intro node' hnode' l' hl'
    rw [hnode] at hnode'
    cases hnode'
    rw [hlive] at hl'
    cases hl'
    exact ⟨rfl, rfl⟩
  have hafter : ∀ l', (s.step set (.node m e)).liveAt m = some l' →
      l' = l ∨ l' = { l with phase := .idle } ∨ l' = (liveStep set s.db node.generator l e).live := by
    intro l' hl'
    change (s.nodeStep set m e).liveAt m = some l' at hl'
    cases hmove with
    | rests hdb hlive hwrites hactivated hkeeper =>
      rw [hlive m, hl] at hl'
      cases hl'
      exact .inl rfl
    | drops hdb hlive hothers hwrites hactivated hkeeper =>
      rw [hlive] at hl'
      cases hl'
    | activates l₁ hl₁ hphase hdb hlive hothers hwrites hactivated hkeeper =>
      rw [hl] at hl₁
      cases hl₁
      rw [hlive] at hl'
      cases hl'
      exact .inr (.inl rfl)
    | builds outcome he hnone hdb hlive hothers hwrites hactivated hkeeper =>
      rw [hl] at hnone
      cases hnone
    | steps node' hn l₁ hl₁ hdb hafter hothers hwrites hactivated hkeeper =>
      obtain ⟨rfl, rfl⟩ := honly node' hn l₁ hl₁
      rw [hafter] at hl'
      cases hl'
      exact .inr (.inr rfl)
  have hsplit : Fenced l (liveStep set s.db node.generator l e) ∨
      (∃ clock replies, e = .work clock replies) ∧
        (liveStep set s.db node.generator l e).live.runner.queue.InsertFailed ∧
        (liveStep set s.db node.generator l e).write ≠ some .checkpoint ∧
        (liveStep set s.db node.generator l e).live.phase.midTick = false ∧
        l.phase.midTick = true := by
    by_cases hwork : ∃ clock replies, e = .work clock replies
    · obtain ⟨clock, replies, rfl⟩ := hwork
      cases hmid : l.phase.midTick with
      | false => exact .inl (liveStep_fenced hfailed hdrains fun _ _ _ => hmid)
      | true =>
        rcases workStep_failed set s.db node.generator hfailed clock replies
          with ⟨hq, hwrite, hphase⟩ | hfenced
        · exact .inr ⟨⟨clock, replies, rfl⟩, hq, hwrite, hphase, rfl⟩
        · exact .inl hfenced
    · exact .inl (liveStep_fenced hfailed hdrains fun clock replies heq =>
        absurd ⟨clock, replies, heq⟩ hwork)
  rcases hsplit with hfenced | ⟨⟨clock, replies, rfl⟩, hq, hwrite, hphase, hmid⟩
  · have hrests : RestsAt set m s (.node m e) := by
      intro _ node' hnode' l' hl'
      obtain ⟨rfl, rfl⟩ := honly node' hnode' l' hl'
      exact hfenced.toAtRest
    refine ⟨?_, fun hsome => ?_, fun hbetween => ⟨hrests, ?_⟩, fun hn => absurd hrests hn⟩
    · intro _ node' hnode' l' hl'
      obtain ⟨rfl, rfl⟩ := honly node' hnode' l' hl'
      rcases hfenced.write with hw | hw <;> rw [hw] <;> simp
    · obtain ⟨l', hl'⟩ := Option.isSome_iff_exists.1 hsome
      refine ⟨l', hl', ?_⟩
      rcases hafter l' hl' with rfl | rfl | rfl
      · exact hfailed
      · exact hfailed
      · exact hfenced.failed
    · intro l' hl'
      rcases hafter l' hl' with rfl | rfl | rfl
      · exact hbetween _ hl
      · rfl
      · exact hfenced.phase (hbetween l hl)
  · have hstep : ∀ l', (s.step set (.node m (.work clock replies))).liveAt m = some l' →
        l' = (liveStep set s.db node.generator l (.work clock replies)).live := by
      intro l' hl'
      change (s.nodeStep set m (.work clock replies)).liveAt m = some l' at hl'
      simp only [nodeStep, hnode, hlive] at hl'
      rw [liveAt_set hnode rfl rfl] at hl'
      cases hl'
      rfl
    refine ⟨?_, fun hsome => ?_, fun hbetween => ?_, fun _ => ⟨⟨clock, replies, rfl⟩, ?_⟩⟩
    · intro _ node' hnode' l' hl'
      obtain ⟨rfl, rfl⟩ := honly node' hnode' l' hl'
      exact hwrite
    · obtain ⟨l', hl'⟩ := Option.isSome_iff_exists.1 hsome
      refine ⟨l', hl', ?_⟩
      rw [hstep l' hl']
      exact hq
    · have hn := hbetween l hl
      rw [hmid] at hn
      cases hn
    · intro l' hl'
      rw [hstep l' hl']
      exact hphase

variable (set)

/-- The runner of node `n` is there before every event. -/
def Lives (n : Nat) (s : SamplerSystem V P A M C) (_ : SamplerEvent V A) : Prop :=
  (s.liveAt n).isSome = true

variable {set}

theorem Failing.rest {n : Nat} {es : List (SamplerEvent V A)} (h : Failing n s) (hs : Closes s)
    (hbetween : BetweenTicks n s) (hlives : Along (SamplerSystem.step set) (Lives n) s es) :
    Along (SamplerSystem.step set) (RestsAt set n) s es := by
  induction es generalizing s with
  | nil => trivial
  | cons e es ih =>
    have hstep : StepFenced set n s e := h.step hs e
    obtain ⟨hrests, hafter⟩ := hstep.between hbetween
    refine ⟨hrests, ?_⟩
    cases es with
    | nil => trivial
    | cons e' es => exact ih (hstep.failing hlives.2.1) (hs.step e) hafter hlives.2

theorem Failing.saves {n : Nat} {es : List (SamplerEvent V A)} (h : Failing n s) (hs : Closes s)
    (hlives : Along (SamplerSystem.step set) (Lives n) s es) :
    Along (SamplerSystem.step set) (SavesNothing set n) s es := by
  induction es generalizing s with
  | nil => trivial
  | cons e es ih =>
    have hstep : StepFenced set n s e := h.step hs e
    refine ⟨hstep.saves, ?_⟩
    cases es with
    | nil => trivial
    | cons e' es => exact ih (hstep.failing hlives.2.1) (hs.step e) hlives.2

theorem Failing.work {n : Nat} {es : List (SamplerEvent V A)} {e : SamplerEvent V A}
    {es' : List (SamplerEvent V A)} (h : Failing n s) (hs : Closes s)
    (hlives : Along (SamplerSystem.step set) (Lives n) s (es ++ e :: es'))
    (hmoves : ¬ RestsAt set n (run (SamplerSystem.step set) s es) e) :
    (∃ clock replies, e = .node n (.work clock replies)) ∧
      Along (SamplerSystem.step set) (RestsAt set n) (run (SamplerSystem.step set) s (es ++ [e])) es' := by
  induction es generalizing s with
  | nil =>
    have hstep : StepFenced set n s e := h.step hs e
    obtain ⟨hwork, hafter⟩ := hstep.work hmoves
    refine ⟨hwork, ?_⟩
    cases es' with
    | nil => trivial
    | cons e' es' => exact (hstep.failing hlives.2.1).rest (hs.step e) hafter hlives.2
  | cons e₀ es ih =>
    have hstep : StepFenced set n s e₀ := h.step hs e₀
    have hsome : ((s.step set e₀).liveAt n).isSome = true := by
      have htail := hlives.2
      cases es with
      | nil => exact htail.1
      | cons e₁ es => exact htail.1
    exact ih (hstep.failing hsome) (hs.step e₀) hlives.2 hmoves

theorem restores_of_saved (n : Nat) (outcome : BuildOutcome) (hs : s.db.checkpoint.isSome = true)
    (hnone : s.liveAt n = none) : Restores set n s outcome := by
  intro l hl
  cases (nodeMove n (.build outcome) s : NodeMove set s n (.build outcome) _) with
  | rests hdb hlive hwrites hactivated hkeeper =>
    rw [hlive n, hnone] at hl
    cases hl
  | drops hdb hlive hothers hwrites hactivated hkeeper =>
    rw [hlive] at hl
    cases hl
  | activates l₁ hl₁ hphase hdb hlive hothers hwrites hactivated hkeeper =>
    rw [hnone] at hl₁
    cases hl₁
  | steps node hn l₁ hl₁ hdb hlive hothers hwrites hactivated hkeeper =>
    have hat : s.liveAt n = some l₁ := by simp [liveAt, hn, hl₁]
    rw [hnone] at hat
    cases hat
  | builds outcome' he _ hdb hlive hothers hwrites hactivated hkeeper =>
    cases he
    obtain ⟨c, hc⟩ := Option.isSome_iff_exists.1 hs
    rw [hlive] at hl
    obtain ⟨r, hr, rfl⟩ := Option.map_eq_some_iff.1 hl
    rw [hdb]
    unfold buildRunner at hr ⊢
    split at hr
    · cases hr
    · rename_i hne
      rw [if_neg hne]
      simp only [hc] at hr ⊢
      cases hrestore : restoreSamplerCheckpoint set.runId c s.db.rows with
      | error e => simp [hrestore] at hr
      | ok rows =>
        simp only [hrestore] at hr ⊢
        split at hr
        · cases hr
          refine ⟨c, rows, rfl, hrestore, rfl, rfl, fun r hr hrun htask => ?_⟩
          unfold restoreSamplerCheckpoint at hrestore
          split at hrestore
          · cases hrestore
          · dsimp only at hrestore
            split at hrestore
            · cases hrestore
            · cases hrestore
              have hkept := (List.mem_filter.1 hr).2
              simpa [hrun, htask] using hkept
        · cases hr

/-- **Uncertain inserts are fenced.** From the moment an insert of a runner has failed, as long as
the runner is there, it saves no checkpoint, and apart from the rest of the tick that was running
it ingests, enqueues and reports nothing. Whatever runner comes up later starts from a restored
checkpoint. -/
theorem fenced_of_failing (set : Setting V P A M C) (entropies : List UInt16)
    (before after : List (SamplerEvent V A)) (n : Nat)
    (hfailing : Failing n (run (step set) (init entropies) before))
    (hlives : Along (step set) (Lives n) (run (step set) (init entropies) before) after) :
    Along (step set) (SavesNothing set n) (run (step set) (init entropies) before) after ∧
    (BetweenTicks n (run (step set) (init entropies) before) →
      Along (step set) (RestsAt set n) (run (step set) (init entropies) before) after) ∧
    (∀ es e es', after = es ++ e :: es' →
      ¬ RestsAt set n (run (step set) (init entropies) (before ++ es)) e →
        (∃ clock replies, e = .node n (.work clock replies)) ∧
        Along (step set) (RestsAt set n)
          (run (step set) (init entropies) (before ++ (es ++ [e]))) es') ∧
    (∀ later m outcome,
      (run (step set) (init entropies) (before ++ later)).liveAt m = none →
        Restores set m (run (step set) (init entropies) (before ++ later)) outcome) := by
  have hcloses := closes_run set entropies before
  refine ⟨hfailing.saves hcloses hlives, fun hbetween => hfailing.rest hcloses hbetween hlives,
    ?_, ?_⟩
  · rintro es e es' rfl hmoves
    rw [run_append] at hmoves ⊢
    exact hfailing.work hcloses hlives hmoves
  · intro later m outcome hnone
    obtain ⟨l, hl, -⟩ := hfailing
    refine restores_of_saved m outcome ?_ hnone
    rw [run_append]
    exact run_invariant' (I := fun s : SamplerSystem V P A M C => s.db.checkpoint.isSome = true)
      (fun s e h => saved_step e h) later (hcloses.saved n l hl)

/-! ### A failure within a tick -/

instance {Res : Type} (q : SamplerQueue P C Res) : Decidable q.InsertFailed :=
  inferInstanceAs (Decidable (_ ∨ _))

instance (n : Nat) (s : SamplerSystem V P A M C) : Decidable (Failing n s) :=
  decidable_of_iff (∃ l ∈ s.liveAt n, l.runner.queue.InsertFailed) (by simp [Failing])

open Runners.Small in
/-- The first insert of node 0 fails while its second tick is under way. -/
def failsWithinTick : List Small.Event :=
  activation 0 ++ tick 0 2000 ++ tickBegins 0 2000
    ++ [.node 0 (.insertReturns 0 (some (.database "connection reset")))]

open Runners.Small in
/-- The rest of that tick, and the next one. -/
def afterFailure : List Small.Event := [.node 0 (.work (fun _ => 2000) replies)] ++ tickBegins 0 3000

open Runners.Small in
theorem fenced_failsWithinTick :
    Along (step (setting 3 16)) (SavesNothing (setting 3 16) 0)
      (run (step (setting 3 16)) (init [7]) failsWithinTick) afterFailure :=
  (fenced_of_failing (setting 3 16) [7] failsWithinTick afterFailure 0 (by decide +kernel)
    (by unfold Lives; decide +kernel)).1

open Runners.Small in
/-- The tick that runs when the insert fails still reports its progress. -/
theorem not_rests_failsWithinTick :
    Failing 0 (run (step (setting 3 16)) (init [7]) failsWithinTick) ∧
    Along (step (setting 3 16)) (Lives 0) (run (step (setting 3 16)) (init [7]) failsWithinTick)
      afterFailure ∧
    ¬ Along (step (setting 3 16)) (RestsAt (setting 3 16) 0)
      (run (step (setting 3 16)) (init [7]) failsWithinTick) afterFailure := by
  refine ⟨by decide +kernel, by unfold Lives; decide +kernel, fun h => ?_⟩
  have hwrites : (run (step (setting 3 16)) (init [7]) failsWithinTick).nodes[0]?.bind
      (fun node => node.live.map fun l => (liveStep (setting 3 16)
        (run (step (setting 3 16)) (init [7]) failsWithinTick).db node.generator l
        (.work (fun _ => 2000) replies)).write) = some (some .progress) := by
    decide +kernel
  obtain ⟨node, hnode, hlive⟩ := Option.bind_eq_some_iff.1 hwrites
  obtain ⟨l, hl, hwrite⟩ := Option.map_eq_some_iff.1 hlive
  rcases (h.1 rfl node hnode l hl).write with hw | hw <;> rw [hw] at hwrite <;> cases hwrite

end SamplerSystem

end Gammaboard.Runners
