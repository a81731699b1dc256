import Gammaboard.Runners.EvaluatorTracking

/-!
# No evaluated result is lost

What the runner evaluated it keeps, in the active batch or in the submission, until the queue has
accepted it or has answered that the batch is no longer its own. `Quiet` says what one step of the
runner can do to its results; the one other step is an evaluation.
-/

namespace Gammaboard.Runners

open Gammaboard.Core Gammaboard.Lib Gammaboard.Stores

variable {Bytes Batch Res : Type}

namespace EvaluatorRunner

/-- The tokens under which an evaluation may still come. -/
def unevaluated (r : EvaluatorRunner Batch Res) : List String :=
  r.prefetchBuffer.claimToken.toList
    ++ r.prefetchBuffer.readyBatch.toList.map (·.claimToken)
    ++ (r.activeBatch.toList.filter (·.evaluation.isNone)).map (·.claim.claimToken)

theorem mem_unevaluated {r : EvaluatorRunner Batch Res} {t : String} :
    t ∈ r.unevaluated ↔ r.prefetchBuffer.claimToken = some t ∨
      (∃ c, r.prefetchBuffer.readyBatch = some c ∧ c.claimToken = t) ∨
      ∃ claim, r.activeBatch = some ⟨claim, none⟩ ∧ claim.claimToken = t := by
  simp only [unevaluated, List.mem_append, Option.mem_toList, Option.mem_def, List.mem_map,
    List.mem_filter, Option.isNone_iff_eq_none, or_assoc]
  refine or_congr Iff.rfl (or_congr Iff.rfl ⟨?_, ?_⟩)
  · rintro ⟨⟨claim, evaluation⟩, ⟨ha, hev⟩, rfl⟩
    cases (hev : evaluation = none)
    exact ⟨claim, ha, rfl⟩
  · rintro ⟨claim, ha, rfl⟩
    exact ⟨⟨claim, none⟩, ⟨ha, rfl⟩, rfl⟩

theorem mem_kept {r : EvaluatorRunner Batch Res} {e : WorkItem Res} :
    e ∈ r.kept ↔ r.activeWork = some e ∨
      ∃ submission, r.submitBuffer.submission = some submission ∧ submission.work = e := by
  simp [kept]

end EvaluatorRunner

/-! ## One step of the runner -/

/-- The step evaluates nothing, and gives up a result only when its submission is settled. -/
structure Quiet (uuid : String) (r r' : EvaluatorRunner Batch Res) : Prop where
  unevaluated : ∀ t ∈ r'.unevaluated, t ∈ r.unevaluated ∨ t = uuid
  idle : r.activeWork = none → r'.activeWork = none
  kept : ∀ e ∈ r'.kept, e ∈ r.kept
  released : ∀ e ∈ r.kept, e ∈ r'.kept ∨ ∃ task, r.submitBuffer.pendingSubmit = some task ∧
    task.handle.settled = true ∧ task.submission.work = e
  pending : ∀ task, r'.submitBuffer.pendingSubmit = some task → task.handle.settled = true →
    r.submitBuffer.pendingSubmit = some task

namespace Quiet

variable {uuid : String} {r r' r'' : EvaluatorRunner Batch Res}

theorem refl (uuid : String) (r : EvaluatorRunner Batch Res) : Quiet uuid r r :=
  ⟨fun _ => .inl, id, fun _ => id, fun _ => .inl, fun _ h _ => h⟩

theorem trans (h : Quiet uuid r r') (h' : Quiet uuid r' r'') : Quiet uuid r r'' where
  unevaluated t ht := by
    rcases h'.unevaluated t ht with ht | rfl
    · exact h.unevaluated t ht
    · exact .inr rfl
  idle := h'.idle ∘ h.idle
  kept e he := h.kept e (h'.kept e he)
  released e he := by
    rcases h.released e he with he | hs
    · rcases h'.released e he with he | ⟨task, htask, hs, hw⟩
      · exact .inl he
      · exact .inr ⟨task, h.pending task htask hs, hs, hw⟩
    · exact .inr hs
  pending task htask hs := h.pending task (h'.pending task htask hs) hs

/-- Another prefetch buffer. -/
theorem prefetch {b : LatentPrefetchBuffer Batch}
    (h : ∀ t ∈ ({ r with prefetchBuffer := b } : EvaluatorRunner Batch Res).unevaluated,
      t ∈ r.unevaluated ∨ t = uuid) : Quiet uuid r { r with prefetchBuffer := b } :=
  ⟨h, id, fun _ => id, fun _ => .inl, fun _ h _ => h⟩

theorem maybeStartPrefetch (uuid : String) (draining : Bool) (r : EvaluatorRunner Batch Res) :
    Quiet uuid r
      { r with prefetchBuffer := r.prefetchBuffer.maybeStartPrefetch uuid draining } := by
  refine prefetch fun t ht => ?_
  unfold LatentPrefetchBuffer.maybeStartPrefetch at ht
  split at ht
  · exact .inl ht
  · rcases EvaluatorRunner.mem_unevaluated.1 ht with ht | ht
    · cases hc : r.prefetchBuffer.claimToken with
      | some token =>
        rw [hc] at ht
        cases ht
        exact .inl (EvaluatorRunner.mem_unevaluated.2 (.inl hc))
      | none =>
        rw [hc] at ht
        cases ht
        exact .inr rfl
    · exact .inl (EvaluatorRunner.mem_unevaluated.2 (.inr ht))

theorem finishPrefetch (uuid : String) {rows : List (BatchRow Bytes Res)} {drawn : List String}
    (h : Tracking rows drawn r) :
    Quiet uuid r { r with prefetchBuffer := r.prefetchBuffer.finishPrefetch.2 } := by
  refine prefetch fun t ht => .inl ?_
  unfold LatentPrefetchBuffer.finishPrefetch at ht
  split at ht
  · rename_i token claimed hpending
    obtain ⟨-, htoken, hreply⟩ := h.stages.prefetch _ hpending
    refine EvaluatorRunner.mem_unevaluated.2 ?_
    rcases EvaluatorRunner.mem_unevaluated.1 ht with ht | ⟨c, hc, rfl⟩ | ht
    · cases ht
    · have hrep := hreply claimed rfl
      rw [show claimed = some c from hc] at hrep
      exact .inl (hrep.1 ▸ htoken)
    · exact .inr (.inr ht)
  · exact ht
  · exact ht

/-- Work that is neither evaluated before nor after. -/
theorem active {a : Option (ActiveBatch Batch Res)} {b : LatentPrefetchBuffer Batch}
    (hbefore : r.activeWork = none) (hafter : a.bind (·.work) = none)
    (h : ∀ t ∈ ({ r with activeBatch := a, prefetchBuffer := b } :
      EvaluatorRunner Batch Res).unevaluated, t ∈ r.unevaluated ∨ t = uuid) :
    Quiet uuid r { r with activeBatch := a, prefetchBuffer := b } where
  unevaluated := h
  idle _ := hafter
  kept e he := by
    rcases EvaluatorRunner.mem_kept.1 he with he | he
    · exact absurd (hafter.symm.trans he) (by simp)
    · exact EvaluatorRunner.mem_kept.2 (.inr he)
  released e he := by
    rcases EvaluatorRunner.mem_kept.1 he with he | he
    · rw [hbefore] at he
      cases he
    · exact .inl (EvaluatorRunner.mem_kept.2 (.inr he))
  pending _ htask _ := htask

theorem takeReady (hactive : r.activeBatch = none) : Quiet uuid r (r.takeReady uuid).2 := by
  unfold EvaluatorRunner.takeReady
  split
  · exact refl uuid r
  · rename_i claim hready
    have htake : Quiet uuid r { r with
        activeBatch := some ⟨claim, none⟩
        prefetchBuffer := { r.prefetchBuffer with readyBatch := none } } := by
      refine active (by simp [EvaluatorRunner.activeWork, hactive]) rfl fun t ht => .inl ?_
      refine EvaluatorRunner.mem_unevaluated.2 ?_
      rcases EvaluatorRunner.mem_unevaluated.1 ht with ht | ⟨c, hc, -⟩ | ⟨c, hc, rfl⟩
      · exact .inl ht
      · cases hc
      · cases hc
        exact .inr (.inl ⟨claim, hready, rfl⟩)
    exact htake.trans (maybeStartPrefetch uuid r.draining _)

theorem startPop (hactive : r.activeBatch = none) : Quiet uuid r (r.startPop uuid).2 := by
  unfold EvaluatorRunner.startPop
  split
  · exact takeReady hactive
  · simp only
    split
    · exact maybeStartPrefetch uuid _ r
    · exact (maybeStartPrefetch uuid _ r).trans (takeReady hactive)

section Tracking

variable {rows : List (BatchRow Bytes Res)} {drawn : List String}

theorem finishPop (h : Tracking rows drawn r) (hactive : r.activeBatch = none) :
    Quiet uuid r (r.finishPop uuid).2 := by
  have hf := finishPrefetch uuid h
  unfold EvaluatorRunner.finishPop
  split
  · rename_i heq
    rw [heq] at hf
    exact hf
  · rename_i heq
    rw [heq] at hf
    exact hf.trans (takeReady hactive)

theorem pop (h : Tracking rows drawn r) (hactive : r.activeBatch = none) :
    Quiet uuid r (r.pop uuid).2 := by
  have hf := finishPrefetch uuid h
  unfold EvaluatorRunner.pop
  split
  · split
    · rename_i heq
      rw [heq] at hf
      exact hf
    · rename_i heq
      rw [heq] at hf
      exact hf.trans (startPop hactive)
  · exact startPop hactive

theorem ensureSubmit (uuid : String) (r : EvaluatorRunner Batch Res) :
    Quiet uuid r { r with submitBuffer := r.submitBuffer.ensureSubmit } := by
  unfold ResultSubmitBuffer.ensureSubmit
  split
  · refine ⟨fun _ => .inl, id, fun _ => id, fun _ => .inl, fun task htask hs => ?_⟩
    cases htask
    cases hs
  · exact refl uuid r

theorem waitForSlot (uuid : String) (h : Tracking rows drawn r) :
    Quiet uuid r { r with submitBuffer := r.submitBuffer.waitForSlot.2 } := by
  have hretry : Quiet uuid r
      { r with submitBuffer := { r.submitBuffer with pendingSubmit := none } } :=
    ⟨fun _ => .inl, id, fun _ => id, fun _ => .inl, fun _ htask _ => by cases htask⟩
  have hsettled : ∀ task, r.submitBuffer.pendingSubmit = some task →
      task.handle.settled = true → Quiet uuid r { r with submitBuffer := ⟨none, none⟩ } := by
    intro task htask hs
    refine ⟨fun _ => .inl, id, fun e he => ?_, fun e he => ?_, fun _ h _ => by cases h⟩
    · rcases EvaluatorRunner.mem_kept.1 he with he | ⟨_, hsub, -⟩
      · exact EvaluatorRunner.mem_kept.2 (.inl he)
      · cases hsub
    · rcases EvaluatorRunner.mem_kept.1 he with he | ⟨submission, hsub, rfl⟩
      · exact .inl (EvaluatorRunner.mem_kept.2 (.inl he))
      · have hsame := (h.stages.submit task htask).1
        rw [hsub] at hsame
        cases hsame
        exact .inr ⟨task, htask, hs, rfl⟩
  unfold ResultSubmitBuffer.waitForSlot
  split
  · rename_i hpending
    exact hsettled _ hpending rfl
  · rename_i hpending
    split
    · rename_i hlost
      exact hsettled _ hpending hlost
    · exact hretry
  · exact hretry
  · exact refl uuid r

theorem observeEvalBatch (uuid : String) (outcome : SubmitOutcome) (r : EvaluatorRunner Batch Res) :
    Quiet uuid r (r.observeEvalBatch outcome) :=
  ⟨fun _ => .inl, id, fun _ => id, fun _ => .inl, fun _ h _ => h⟩

theorem handOver (hactive : ∃ claim evaluated, r.activeBatch = some ⟨claim, some (.ok evaluated)⟩)
    (hidle : r.submitBuffer = ⟨none, none⟩) : Quiet uuid r r.handOver.2 := by
  obtain ⟨claim, evaluated, ha⟩ := hactive
  unfold EvaluatorRunner.handOver
  rw [ha, hidle]
  simp only [ResultSubmitBuffer.startSubmit, ResultSubmitBuffer.ensureSubmit]
  have hwork : r.activeWork = some ⟨claim.batchId, claim.claimToken, evaluated.result⟩ := by
    simp [EvaluatorRunner.activeWork, ha, ActiveBatch.work]
  refine ⟨fun t ht => .inl ?_, fun _ => rfl, fun e he => ?_, fun e he => .inl ?_, ?_⟩
  · refine EvaluatorRunner.mem_unevaluated.2 ?_
    rcases EvaluatorRunner.mem_unevaluated.1 ht with ht | ht | ⟨_, hc, -⟩
    · exact .inl ht
    · exact .inr (.inl ht)
    · cases hc
  · rcases EvaluatorRunner.mem_kept.1 he with he | ⟨submission, hsub, rfl⟩
    · cases he
    · cases hsub
      exact EvaluatorRunner.mem_kept.2 (.inl hwork)
  · rcases EvaluatorRunner.mem_kept.1 he with he | ⟨submission, hsub, rfl⟩
    · rw [hwork] at he
      cases he
      exact EvaluatorRunner.mem_kept.2 (.inr ⟨_, rfl, rfl⟩)
    · rw [hidle] at hsub
      cases hsub
  · intro task htask hs
    cases htask
    cases hs

theorem takeReply (h : Tracking rows drawn r) (hf : r.submitBuffer.submitFinished = true)
    {next : AfterFlush} {without : EvaluatorRunner Batch Res → Phase × EvaluatorRunner Batch Res}
    (hwithout : ∀ r', r' = { r with submitBuffer := ⟨none, none⟩ } → Quiet uuid r' (without r').2) :
    Quiet uuid r (r.takeReply next without).2 := by
  have hw := waitForSlot uuid h
  unfold EvaluatorRunner.takeReply
  split
  · rename_i heq
    rw [heq] at hw
    exact hw
  · rename_i heq
    rw [heq, waitForSlot_ok hf heq] at hw
    rw [waitForSlot_ok hf heq]
    exact hw.trans (hwithout _ rfl)
  · rename_i outcome b heq
    rw [heq] at hw
    exact hw.trans (observeEvalBatch uuid outcome _)

end Tracking

end Quiet

/-- What one step of the runner is for its results. -/
inductive Works (uuid : String) (r : EvaluatorRunner Batch Res) : EvaluatorRunner Batch Res → Prop
  | quiet {r' : EvaluatorRunner Batch Res} (h : Quiet uuid r r') : Works uuid r r'
  | evaluates {claim : BatchClaim Batch} (evaluated : EvaluatedBatch Res)
      (h : r.activeBatch = some ⟨claim, none⟩) :
      Works uuid r { r with activeBatch := some ⟨claim, some (.ok evaluated)⟩ }

section Works

variable {rows : List (BatchRow Bytes Res)} {drawn : List String} {uuid : String}
  {r : EvaluatorRunner Batch Res}

theorem evaluated_runner (active : ActiveBatch Batch Res) :
    (r.evaluated active).2 = { r with activeBatch := some active } := by
  unfold EvaluatorRunner.evaluated
  split <;> rfl

/-- A batch that has failed stays without a result. -/
theorem quiet_failed {claim : BatchClaim Batch} {f : FailedEvaluation}
    {evaluation : Option (Except FailedEvaluation (EvaluatedBatch Res))}
    (hbefore : r.activeBatch = some ⟨claim, evaluation⟩)
    (hnone : ∀ e, evaluation ≠ some (.ok e)) :
    Quiet uuid r { r with activeBatch := some ⟨claim, some (.error f)⟩ } := by
  refine Quiet.active ?_ rfl fun t ht => .inl ?_
  · simp only [EvaluatorRunner.activeWork, hbefore, Option.bind_some, ActiveBatch.work]
  · refine EvaluatorRunner.mem_unevaluated.2 ?_
    rcases EvaluatorRunner.mem_unevaluated.1 ht with ht | ht | ⟨_, hc, -⟩
    · exact .inl ht
    · exact .inr (.inl ht)
    · cases hc

theorem quiet_dropFailed {claim : BatchClaim Batch} {f : FailedEvaluation}
    (hbefore : r.activeBatch = some ⟨claim, some (.error f)⟩) :
    Quiet uuid r { r with activeBatch := none } := by
  refine Quiet.active ?_ rfl fun t ht => .inl ?_
  · simp [EvaluatorRunner.activeWork, hbefore, ActiveBatch.work]
  · refine EvaluatorRunner.mem_unevaluated.2 ?_
    rcases EvaluatorRunner.mem_unevaluated.1 ht with ht | ht | ⟨_, hc, -⟩
    · exact .inl ht
    · exact .inr (.inl ht)
    · cases hc

theorem works_contextLoaded (i : TickInput Res) : Works uuid r (r.contextLoaded i).2 := by
  unfold EvaluatorRunner.contextLoaded
  split
  · exact .quiet (.refl uuid r)
  · rename_i active hactive
    split
    · rw [evaluated_runner, ← hactive]
      exact .quiet (.refl uuid r)
    · rename_i hev
      split
      · obtain ⟨claim, evaluation⟩ := active
        obtain rfl : evaluation = none := by simpa using hev
        rw [evaluated_runner]
        unfold EvaluatorRunner.evaluateClaim
        cases i.evaluation with
        | error m => exact .quiet (quiet_failed hactive (by simp))
        | ok e => exact .evaluates e hactive
      · exact .quiet (.refl uuid r)

theorem quiet_failAnswered {outcome : Except TaskError BatchFailOutcome}
    (hp : PhaseOk rows r (.failing (.finished outcome))) :
    Quiet uuid r (r.failAnswered outcome).2 := by
  obtain ⟨claim, message, hactive, -⟩ := hp
  unfold EvaluatorRunner.failAnswered
  split
  · rw [hactive]
    exact quiet_failed hactive (by simp)
  · split
    · exact quiet_dropFailed hactive
    · exact .refl uuid r
  · exact .refl uuid r

theorem quiet_failureReported (hp : PhaseOk rows r .reportingFailure) (answered : Bool) :
    Quiet uuid r (r.failureReported answered).2 := by
  obtain ⟨claim, message, outcome, hactive⟩ := hp
  unfold EvaluatorRunner.failureReported
  split
  · split
    · exact quiet_dropFailed hactive
    · exact .refl uuid r
  · exact quiet_dropFailed hactive

theorem quiet_consumeFinishedSubmit (h : Tracking rows drawn r) :
    Quiet uuid r r.consumeFinishedSubmit.2 := by
  unfold EvaluatorRunner.consumeFinishedSubmit
  simp only
  split
  · rename_i hf
    refine (Quiet.ensureSubmit uuid r).trans (Quiet.takeReply h.ensureSubmit hf ?_)
    exact fun r' _ => .refl uuid r'
  · exact .ensureSubmit uuid r

theorem quiet_slot (h : Tracking rows drawn r)
    (hactive : ∃ claim evaluated, r.activeBatch = some ⟨claim, some (.ok evaluated)⟩) :
    Quiet uuid r r.slot.2 := by
  unfold EvaluatorRunner.slot
  split
  · rename_i hidle
    exact .handOver hactive (submitBuffer_idle h hidle)
  · simp only
    split
    · rename_i hf
      refine (Quiet.ensureSubmit uuid r).trans (Quiet.takeReply h.ensureSubmit hf ?_)
      intro r' hr'
      subst hr'
      exact .handOver hactive rfl
    · exact .ensureSubmit uuid r

theorem quiet_stopSlot (h : Tracking rows drawn r) : Quiet uuid r r.stopSlot.2 := by
  unfold EvaluatorRunner.stopSlot
  simp only
  split
  · exact .ensureSubmit uuid r
  · split
    · rename_i hf
      refine (Quiet.ensureSubmit uuid r).trans (Quiet.takeReply h.ensureSubmit hf ?_)
      exact fun r' _ => .refl uuid r'
    · exact .ensureSubmit uuid r

theorem resume_works {phase : Phase} (h : Sound rows drawn (phase, r)) (i : TickInput Res) :
    Works i.uuid r (r.resume i phase).2 := by
  obtain ⟨ht, hp⟩ := h
  unfold EvaluatorRunner.resume
  split
  · refine .quiet ?_
    unfold EvaluatorRunner.startTick
    split
    · exact .refl _ r
    · split <;> exact .refl _ r
  · exact .quiet (.refl _ r)
  · exact .quiet (.refl _ r)
  · exact .quiet (quiet_consumeFinishedSubmit ht)
  · split
    · exact .quiet (.refl _ r)
    · rename_i hactive
      exact .quiet (.pop ht (by simpa using hactive))
  · split
    · exact .quiet (.finishPop ht hp)
    · exact .quiet (.refl _ r)
  · exact works_contextLoaded i
  · exact .quiet (quiet_failAnswered hp)
  · exact .quiet (quiet_failureReported hp _)
  · exact .quiet (quiet_slot ht hp)
  · split
    · split
      · exact .quiet (.refl _ r)
      · exact .quiet (.handOver hp.1 hp.2)
      · exact .quiet (.refl _ r)
      · exact .quiet (.refl _ r)
    · exact .quiet (.refl _ r)
  · exact .quiet (quiet_stopSlot ht)
  · exact .quiet (.refl _ r)

end Works

/-! ## The histories -/

/-- The queue is done with the work item: it was evaluated, and nothing is claimed for it. -/
def Closed (rows : List (BatchRow Bytes Res)) (evaluated : List (WorkItem Res))
    (e : WorkItem Res) : Prop :=
  e ∈ evaluated ∧ Unclaimed rows e.token

structure Books (s : EvaluatorState Bytes Batch Res) : Prop where
  drawn : ∀ e ∈ s.evaluated, e.token ∈ s.drawn
  once : (s.evaluated.map (·.token)).Nodup
  unevaluated : ∀ e ∈ s.evaluated, e.token ∉ s.runner.unevaluated
  kept : ∀ e ∈ s.runner.kept, e ∈ s.evaluated
  retained : ∀ e ∈ s.evaluated, e ∈ s.runner.kept ∨ e ∈ s.accepted ∨ e ∈ s.disowned
  acceptedOnce : (s.accepted.map (·.token)).Nodup
  accepted : ∀ e ∈ s.accepted, Closed s.rows s.evaluated e
  disowned : ∀ e ∈ s.disowned, Closed s.rows s.evaluated e
  /-- A batch completed under a token of the runner was completed by its accepted result. -/
  completed : ∀ row ∈ s.rows, row.status = .completed → ∀ t ∈ s.drawn, row.claimToken = some t →
    ∃ e ∈ s.accepted, e.token = t ∧ e.batchId = row.id
  settled : ∀ task, s.runner.submitBuffer.pendingSubmit = some task →
    task.handle.settled = true →
      task.submission.work ∈ s.accepted ∨ task.submission.work ∈ s.disowned

/-- A statement that completes nothing under these tokens. -/
def CompletesNone (drawn : List String) (rows rows' : List (BatchRow Bytes Res)) : Prop :=
  ∀ row ∈ rows', row.status = .completed → ∀ t ∈ drawn, row.claimToken = some t → row ∈ rows

section CompletesNone

variable {drawn : List String} {rows : List (BatchRow Bytes Res)}

theorem completesNone_refl : CompletesNone drawn rows rows := fun _ hrow _ _ _ _ => hrow

theorem completesNone_map {f : BatchRow Bytes Res → BatchRow Bytes Res}
    (hf : ∀ r ∈ rows, f r = r ∨ (f r).status ≠ .completed ∨
      ∀ t ∈ drawn, (f r).claimToken ≠ some t) :
    CompletesNone drawn rows (rows.map f) := by
  intro y hy hst t ht htok
  obtain ⟨r, hr, rfl⟩ := List.mem_map.1 hy
  rcases hf r hr with h | h | h
  · rw [h]
    exact hr
  · exact absurd hst h
  · exact absurd htok (h t ht)

theorem completesNone_releaseUntracked (runId : Int) (uuid : String) (tokens : List String) :
    CompletesNone drawn rows (releaseUntrackedClaims runId uuid tokens rows) := by
  refine completesNone_map fun r _ => ?_
  split
  · exact .inr (.inl fun h => by cases h)
  · exact .inl rfl

theorem completesNone_fail (batchId : Int) (uuid token lastError : String) (max : Nat) :
    CompletesNone drawn rows (failBatch batchId uuid token lastError max rows).2 := by
  rcases failBatch_cases batchId uuid token lastError max rows with h | ⟨_, -, -, -, h⟩
  · rw [h]
    exact completesNone_refl
  · rw [h]
    refine completesNone_map fun r _ => ?_
    split
    · refine .inr (.inl fun hst => ?_)
      simp only [BatchRow.fail] at hst
      split at hst <;> cases hst
    · exact .inl rfl

theorem completesNone_claim (view : NodesView) (locked : Int → Bool) (runId : Int)
    (uuid token : String) :
    CompletesNone drawn rows (claimBatch view locked runId uuid token rows).2 := by
  rcases claimBatch_cases view locked runId uuid token rows with h | ⟨_, -, -, -, -, h⟩
  · rw [h]
    exact completesNone_refl
  · rw [h]
    refine completesNone_map fun r _ => ?_
    split
    · exact .inr (.inl fun hst => by cases hst)
    · exact .inl rfl

/-- A submission completes a batch under its own token only. -/
theorem completesNone_submit {batchId : Int} {uuid token : String} {result : Res}
    (hn : (rows.map (·.id)).Nodup) (htok : token ∉ drawn) :
    CompletesNone drawn rows (submitBatchResults batchId uuid token result rows).2 := by
  rcases submitBatchResults_cases batchId uuid token result rows with h | ⟨x, hx, hid, hc, h⟩
  · rw [h]
    exact completesNone_refl
  · rw [h]
    refine completesNone_map fun r hr => ?_
    split
    · rename_i hrid
      refine .inr (.inr fun t ht htok' => htok ?_)
      obtain rfl := ClaimState.eq_of_id hn hr hx (hrid.trans hid.symm)
      have hrt : r.claimToken = some t := htok'
      rw [(ClaimState.claimedBy_iff.1 hc).2.2] at hrt
      cases hrt
      exact ht
    · exact .inl rfl

theorem completesNone_exec {statement : OtherStatement Bytes Res}
    (hn : (rows.map (·.id)).Nodup) (h : ∀ t ∈ statement.token?, t ∉ drawn) :
    CompletesNone drawn rows (statement.exec rows) := by
  cases statement with
  | claim view locked runId uuid token => exact completesNone_claim view locked runId uuid token
  | submit batchId uuid token result => exact completesNone_submit hn (h token rfl)
  | fail batchId uuid token lastError max => exact completesNone_fail batchId uuid token lastError max
  | releaseUntracked runId uuid tokens => exact completesNone_releaseUntracked runId uuid tokens
  | reclaimAbandoned view runId =>
    refine completesNone_map fun r _ => ?_
    split
    · exact .inr (.inl fun hst => by cases hst)
    · exact .inl rfl
  | insert runId taskId requires createdAt batches =>
    intro row hrow hst _ _ _
    simp only [OtherStatement.exec] at hrow
    unfold insertBatches at hrow
    split at hrow
    · rcases List.mem_append.1 ((foldr_insertRow_perm _ rows).mem_iff.1 hrow) with hnew | hold
      · obtain ⟨b, -, rfl⟩ := List.mem_map.1 hnew
        cases hst
      · exact hold
    · exact hrow
  | delete doomed => exact fun row hrow _ _ _ _ => List.mem_of_mem_filter hrow

end CompletesNone

namespace EvaluatorSystem

variable {p : EvaluatorParams Bytes Batch} {s : EvaluatorState Bytes Batch Res}

theorem books_init (table : ClaimTable Bytes Res) :
    Books (init table : EvaluatorState Bytes Batch Res) where
  drawn _ he := by cases he
  once := List.nodup_nil
  unevaluated _ he := by cases he
  kept _ he := by cases he
  retained _ he := by cases he
  acceptedOnce := List.nodup_nil
  accepted _ he := by cases he
  disowned _ he := by cases he
  completed _ _ _ _ ht := by cases ht
  settled _ htask := by cases htask

/-- A statement that neither claims nor completes anything under the runner's tokens. -/
theorem books_rowsChanged (h : Books s) {rows : List (BatchRow Bytes Res)}
    (ht : TakesNone s.drawn s.rows rows) (hc : CompletesNone s.drawn s.rows rows) :
    Books { s with rows } where
  drawn := h.drawn
  once := h.once
  unevaluated := h.unevaluated
  kept := h.kept
  retained := h.retained
  acceptedOnce := h.acceptedOnce
  accepted e he := ⟨(h.accepted e he).1, ht.unclaimed (h.drawn e (h.accepted e he).1)
    (h.accepted e he).2⟩
  disowned e he := ⟨(h.disowned e he).1, ht.unclaimed (h.drawn e (h.disowned e he).1)
    (h.disowned e he).2⟩
  completed row hrow hst t htd htok := h.completed row (hc row hrow hst t htd htok) hst t htd htok
  settled := h.settled

/-- A step of the runner that evaluates nothing. -/
theorem books_quiet (h : Books s) {uuid : String} {phase : Phase} {r' : EvaluatorRunner Batch Res}
    (hnew : uuid ∉ s.drawn) (hfree : ∀ row ∈ s.rows, row.claimToken ≠ some uuid)
    (hq : Quiet uuid s.runner r') :
    Books { s with
      phase, runner := r', drawn := uuid :: s.drawn
      evaluated := s.evaluated ++ newWork s.runner r' } := by
  have hnone : newWork s.runner r' = [] := by
    unfold newWork
    split
    · rename_i hidle
      rw [hq.idle (Option.isNone_iff_eq_none.1 hidle)]
      rfl
    · rfl
  rw [hnone, List.append_nil]
  refine
    { drawn := fun e he => List.mem_cons_of_mem _ (h.drawn e he), once := h.once
      unevaluated := ?_, kept := fun e he => h.kept e (hq.kept e he), retained := ?_
      acceptedOnce := h.acceptedOnce, accepted := h.accepted, disowned := h.disowned
      completed := ?_
      settled := fun task htask hs => h.settled task (hq.pending task htask hs) hs }
  · intro e he hmem
    rcases hq.unevaluated _ hmem with hmem | heq
    · exact h.unevaluated e he hmem
    · exact hnew (heq ▸ h.drawn e he)
  · intro e he
    rcases h.retained e he with hk | hdone
    · rcases hq.released e hk with hk | ⟨task, htask, hs, rfl⟩
      · exact .inl hk
      · exact .inr (h.settled task htask hs)
    · exact .inr hdone
  · intro row hrow hst t ht htok
    rcases List.mem_cons.1 ht with rfl | ht
    · exact absurd htok (hfree row hrow)
    · exact h.completed row hrow hst t ht htok

/-- The evaluation of the active batch. -/
theorem books_evaluates (h : Books s) (htr : Tracking s.rows s.drawn s.runner) {uuid : String}
    {phase : Phase} {claim : BatchClaim Batch} (evaluated : EvaluatedBatch Res)
    (hfree : ∀ row ∈ s.rows, row.claimToken ≠ some uuid)
    (hactive : s.runner.activeBatch = some ⟨claim, none⟩) :
    Books { s with
      phase
      runner := { s.runner with activeBatch := some ⟨claim, some (.ok evaluated)⟩ }
      drawn := uuid :: s.drawn
      evaluated := s.evaluated ++ newWork s.runner
        { s.runner with activeBatch := some ⟨claim, some (.ok evaluated)⟩ } } := by
  have hnew : newWork s.runner
      { s.runner with activeBatch := some ⟨claim, some (.ok evaluated)⟩ } =
        [⟨claim.batchId, claim.claimToken, evaluated.result⟩] := by
    simp [newWork, EvaluatorRunner.activeWork, hactive, ActiveBatch.work]
  have hwas : claim.claimToken ∈ s.runner.unevaluated :=
    EvaluatorRunner.mem_unevaluated.2 (.inr (.inr ⟨claim, hactive, rfl⟩))
  have hfresh : ∀ e ∈ s.evaluated, e.token ≠ claim.claimToken := fun e he heq =>
    h.unevaluated e he (heq ▸ hwas)
  rw [hnew]
  refine
    { drawn := ?_, once := ?_, unevaluated := ?_, kept := ?_, retained := ?_
      acceptedOnce := h.acceptedOnce
      accepted := fun e he => ⟨List.mem_append_left _ (h.accepted e he).1, (h.accepted e he).2⟩
      disowned := fun e he => ⟨List.mem_append_left _ (h.disowned e he).1, (h.disowned e he).2⟩
      completed := ?_, settled := h.settled }
  · intro e he
    rcases List.mem_append.1 he with he | he
    · exact List.mem_cons_of_mem _ (h.drawn e he)
    · cases List.mem_singleton.1 he
      exact List.mem_cons_of_mem _ (htr.active_drawn hactive)
  · rw [List.map_append, List.nodup_append]
    refine ⟨h.once, List.nodup_singleton _, fun a ha b hb => ?_⟩
    obtain ⟨e, he, rfl⟩ := List.mem_map.1 ha
    rw [List.mem_singleton.1 hb]
    exact hfresh e he
  · intro e he hmem
    rcases EvaluatorRunner.mem_unevaluated.1 hmem with hmem | hmem | ⟨_, hc, -⟩
    · rcases List.mem_append.1 he with he | he
      · exact h.unevaluated e he (EvaluatorRunner.mem_unevaluated.2 (.inl hmem))
      · cases List.mem_singleton.1 he
        exact holding_ne_claimToken htr hmem (x := (claim.batchId, claim.claimToken))
          (EvaluatorRunner.mem_holdings.2 (.inr (.inl ⟨_, hactive, rfl⟩))) rfl
    · rcases List.mem_append.1 he with he | he
      · exact h.unevaluated e he (EvaluatorRunner.mem_unevaluated.2 (.inr (.inl hmem)))
      · cases List.mem_singleton.1 he
        obtain ⟨c, hc, hct⟩ := hmem
        have hready : s.runner.prefetchBuffer.readyBatch = some c := hc
        have hd := htr.distinct
        simp only [EvaluatorRunner.trackedTokens, hactive, hready, Option.toList_some, List.map_cons,
          List.map_nil, List.append_assoc, List.singleton_append] at hd
        refine (List.nodup_cons.1 (List.nodup_append.1 hd).2.1).1 ?_
        rw [show c.claimToken = claim.claimToken from hct]
        exact List.mem_cons_self
    · cases hc
  · intro e he
    rcases EvaluatorRunner.mem_kept.1 he with he | he
    · cases he
      exact List.mem_append_right _ List.mem_cons_self
    · exact List.mem_append_left _ (h.kept e (EvaluatorRunner.mem_kept.2 (.inr he)))
  · intro e he
    rcases List.mem_append.1 he with he | he
    · rcases h.retained e he with hk | hdone
      · rcases EvaluatorRunner.mem_kept.1 hk with hk | hk
        · simp [EvaluatorRunner.activeWork, hactive, ActiveBatch.work] at hk
        · exact .inl (EvaluatorRunner.mem_kept.2 (.inr hk))
      · exact .inr hdone
    · cases List.mem_singleton.1 he
      exact .inl (EvaluatorRunner.mem_kept.2 (.inl rfl))
  · intro row hrow hst t ht htok
    rcases List.mem_cons.1 ht with rfl | ht
    · exact absurd htok (hfree row hrow)
    · exact h.completed row hrow hst t ht htok

/-- The spawned claim runs. Its token closes no work item. -/
theorem books_executePrefetch (h : Books s) (htr : Tracking s.rows s.drawn s.runner)
    (view : NodesView) (locked : Int → Bool) : Books (executePrefetch p view locked s) := by
  unfold executePrefetch
  split
  · rename_i token hpending
    have htoken := (htr.stages.prefetch _ hpending).2.1
    have hclosed : ∀ e, Closed s.rows s.evaluated e →
        Closed (claimBatch view locked p.runId p.nodeUuid token s.rows).2 s.evaluated e := by
      intro e he
      suffices ht : TakesNone [e.token] s.rows _ from ⟨he.1, ht.unclaimed List.mem_cons_self he.2⟩
      refine takesNone_claim ?_
      intro hmem
      rw [List.mem_singleton] at hmem
      exact h.unevaluated e he.1 (EvaluatorRunner.mem_unevaluated.2 (.inl (hmem ▸ htoken)))
    exact
      { drawn := h.drawn, once := h.once, unevaluated := h.unevaluated, kept := h.kept
        retained := h.retained, acceptedOnce := h.acceptedOnce
        accepted := fun e he => hclosed e (h.accepted e he)
        disowned := fun e he => hclosed e (h.disowned e he)
        completed := fun row hrow hst t htd htok =>
          h.completed row (completesNone_claim view locked p.runId p.nodeUuid token row hrow hst t
            htd htok) hst t htd htok
        settled := h.settled }
  · exact h

/-- What a submission by its owner does: it completes the batch, or the batch was completed under
this token, or it is no longer the owner's. -/
theorem submit_reply (batchId : Int) (uuid token : String) (result : Res)
    (rows : List (BatchRow Bytes Res)) :
    (∃ row ∈ rows, row.id = batchId ∧ row.status = .claimed ∧ row.claimToken = some token ∧
        submitBatchResults batchId uuid token result rows =
          (.ok (), updateRow batchId (·.complete result) rows)) ∨
      (submitBatchResults batchId uuid token result rows).2 = rows ∧
        (ClaimState.settles (submitBatchResults batchId uuid token result rows).1 = true →
          isLost (submitBatchResults batchId uuid token result rows).1 = true ∨
            ∃ row ∈ rows, row.id = batchId ∧ row.status = .completed ∧
              row.claimToken = some token) := by
  unfold submitBatchResults
  split
  · exact .inr ⟨rfl, fun _ => .inl rfl⟩
  · rename_i row ho
    obtain ⟨hrow, hid, hheld⟩ := ownedRow_some ho
    have htok : row.claimToken = some token := by
      simp only [BatchRow.heldBy, Bool.and_eq_true, beq_iff_eq] at hheld
      exact hheld.2
    split
    · rename_i hst
      split
      · exact .inr ⟨rfl, fun _ => .inr ⟨row, hrow, hid, hst, htok⟩⟩
      · exact .inr ⟨rfl, fun hs => by cases hs⟩
    · rename_i hst
      exact .inl ⟨row, hrow, hid, hst, htok, rfl⟩
    · exact .inr ⟨rfl, fun _ => .inl rfl⟩

theorem books_executeSubmit (h : Books s) (ht : Tracked p s) : Books (executeSubmit p s) := by
  unfold executeSubmit
  split
  · rename_i submission hpending
    have htr := ht.sound.1
    obtain ⟨hsub, -⟩ := htr.stages.submit _ hpending
    have hd := htr.submission_drawn hsub
    have hwork : submission.work ∈ s.evaluated :=
      h.kept _ (EvaluatorRunner.mem_kept.2 (.inr ⟨submission, hsub, rfl⟩))
    have hfree := submit_unclaimed p.nodeUuid htr.keyed
      (htr.stages.held (submission.batchId, _)
        (EvaluatorRunner.mem_holdings.2 (.inr (.inr ⟨_, hsub, rfl⟩))))
      (fun row hrow hst htok => (ht.owned row hrow hst _ hd htok).2) submission.result
    have htakes : TakesNone s.drawn s.rows _ := takesNone_submit submission.batchId
      p.nodeUuid submission.claimToken submission.result
    simp only
    rcases submit_reply submission.batchId p.nodeUuid submission.claimToken submission.result
      s.rows with ⟨row, hrow, hid, hst, htok, heq⟩ | ⟨hrows, hreply⟩
    · -- the batch is completed now
      rw [heq] at hfree htakes ⊢
      have hcompletes : ClaimState.completesIn submission.batchId s.rows
          (updateRow submission.batchId (·.complete submission.result) s.rows) = true := by
        rw [← hid]
        exact ClaimState.completesIn_complete htr.keyed.nodup hrow hst _
      have hnew : submission.claimToken ∉ s.accepted.map (·.token) := by
        intro hmem
        obtain ⟨e, he, het⟩ := List.mem_map.1 hmem
        exact (h.accepted e he).2 row hrow hst (het ▸ htok)
      rw [if_pos hcompletes, if_neg (by simp [isLost])]
      refine
        { drawn := h.drawn, once := h.once, unevaluated := h.unevaluated, kept := h.kept
          retained := ?_, acceptedOnce := ?_, accepted := ?_, disowned := ?_, completed := ?_
          settled := ?_ }
      · intro e he
        rcases h.retained e he with hk | ha | hl
        · exact .inl hk
        · exact .inr (.inl (List.mem_append_left _ ha))
        · exact .inr (.inr hl)
      · simp only [List.map_append, List.map_cons, List.map_nil]
        refine List.nodup_append.2 ⟨h.acceptedOnce, List.nodup_singleton _, fun a ha b hb => ?_⟩
        rw [List.mem_singleton.1 hb]
        intro hab
        have hsame : submission.claimToken = a := hab.symm
        exact hnew (hsame ▸ ha)
      · intro e he
        rcases List.mem_append.1 he with he | he
        · exact ⟨(h.accepted e he).1, htakes.unclaimed (h.drawn e (h.accepted e he).1)
            (h.accepted e he).2⟩
        · cases List.mem_singleton.1 he
          exact ⟨hwork, hfree⟩
      · exact fun e he => ⟨(h.disowned e he).1, htakes.unclaimed
          (h.drawn e (h.disowned e he).1) (h.disowned e he).2⟩
      · intro y hy hyst t htd hyt
        obtain ⟨r, hr, rfl⟩ := List.mem_map.1 hy
        split at hyt <;> rename_i hrid
        · rw [ClaimState.eq_of_id htr.keyed.nodup hr hrow (hrid.trans hid.symm)] at hyt
          have hrt : row.claimToken = some t := hyt
          rw [htok] at hrt
          cases hrt
          rw [if_pos hrid]
          exact ⟨submission.work, List.mem_append_right _ List.mem_cons_self, rfl, hrid.symm⟩
        · rw [if_neg hrid] at hyst ⊢
          obtain ⟨e, he, het, heid⟩ := h.completed r hr hyst t htd hyt
          exact ⟨e, List.mem_append_left _ he, het, heid⟩
      · intro task htask _
        cases htask
        exact .inl (List.mem_append_right _ List.mem_cons_self)
    · -- the table is as it was
      rw [hrows] at hfree ⊢
      rw [ClaimState.completesIn_self, if_neg (by simp)]
      refine
        { drawn := h.drawn, once := h.once, unevaluated := h.unevaluated, kept := h.kept
          retained := ?_, acceptedOnce := h.acceptedOnce, accepted := h.accepted, disowned := ?_
          completed := h.completed, settled := ?_ }
      · intro e he
        rcases h.retained e he with hk | ha | hl
        · exact .inl hk
        · exact .inr (.inl ha)
        · refine .inr (.inr ?_)
          simp only
          split
          · exact List.mem_append_left _ hl
          · exact hl
      · intro e he
        simp only at he
        split at he
        · rcases List.mem_append.1 he with he | he
          · exact h.disowned e he
          · cases List.mem_singleton.1 he
            exact ⟨hwork, hfree⟩
        · exact h.disowned e he
      · intro task htask hs
        cases htask
        have hsettles : ClaimState.settles (submitBatchResults submission.batchId p.nodeUuid
            submission.claimToken submission.result s.rows).1 = true := by
          simp only [Handle.settled] at hs
          cases hr : (submitBatchResults submission.batchId p.nodeUuid submission.claimToken
            submission.result s.rows).1 <;> rw [hr] at hs <;> exact hs
        rcases hreply hsettles with hlost | ⟨row, hrow, hid, hst, htok⟩
        · simp only [hlost, if_true]
          exact .inr (List.mem_append_right _ List.mem_cons_self)
        · -- it had been accepted before, with the same result
          obtain ⟨e, he, het, -⟩ := h.completed row hrow hst _ hd htok
          have hsame : e = submission.work :=
            List.inj_on_of_nodup_map h.once (h.accepted e he).1 hwork het
          exact .inl (hsame ▸ he)
  · exact h

theorem books_setPhase (h : Books s) (phase : Phase) : Books { s with phase } :=
  ⟨h.drawn, h.once, h.unevaluated, h.kept, h.retained, h.acceptedOnce, h.accepted, h.disowned,
    h.completed, h.settled⟩

theorem books_executeRequest (h : Books s) : Books (executeRequest p s) := by
  unfold executeRequest
  split
  · rename_i tokens _
    exact books_setPhase (books_rowsChanged h
      (takesNone_releaseUntracked p.runId p.nodeUuid tokens)
      (completesNone_releaseUntracked p.runId p.nodeUuid tokens)) _
  · rename_i claim failure _ _
    exact books_setPhase (books_rowsChanged h
      (takesNone_fail claim.batchId p.nodeUuid claim.claimToken failure.message p.maxBatchRetries)
      (completesNone_fail claim.batchId p.nodeUuid claim.claimToken failure.message
        p.maxBatchRetries)) _
  · exact h

theorem books_resume (h : Books s) (ht : Tracked p s) (i : TickInput Res) :
    Books (step p s (.resume i)) := by
  simp only [step]
  split
  · exact h
  · rename_i hnew
    simp only [not_or, not_exists, not_and] at hnew
    obtain ⟨hnotDrawn, hfree⟩ := hnew
    have hw := resume_works ht.sound i
    generalize s.runner.resume i s.phase = x at hw ⊢
    obtain ⟨phase, r'⟩ := x
    cases hw with
    | quiet hq => exact books_quiet h hnotDrawn hfree hq
    | evaluates evaluated hactive => exact books_evaluates h ht.sound.1 evaluated hfree hactive

theorem books_step (h : Books s) (ht : Tracked p s) (e : EvaluatorEvent Bytes Res) :
    Books (step p s e) := by
  cases e with
  | resume i => exact books_resume h ht i
  | startStop =>
    simp only [step]
    split
    · exact ⟨h.drawn, h.once, h.unevaluated, h.kept, h.retained, h.acceptedOnce, h.accepted,
        h.disowned, h.completed, h.settled⟩
    · exact h
  | executePrefetch view locked => exact books_executePrefetch h ht.sound.1 view locked
  | finishPrefetch fault =>
    simp only [step]
    split
    · exact ⟨h.drawn, h.once, h.unevaluated, h.kept, h.retained, h.acceptedOnce, h.accepted,
        h.disowned, h.completed, h.settled⟩
    · exact h
  | executeSubmit => exact books_executeSubmit h ht
  | finishSubmit fault =>
    simp only [step]
    split
    · rename_i submission handle hpending
      refine ⟨h.drawn, h.once, h.unevaluated, h.kept, h.retained, h.acceptedOnce, h.accepted,
        h.disowned, h.completed, fun task htask hs => ?_⟩
      cases htask
      exact h.settled ⟨submission, handle⟩ hpending (Handle.settled_finish hs)
    · exact h
  | executeRequest => exact books_executeRequest h
  | finishRequest fault => exact books_setPhase h _
  | other statement =>
    simp only [step]
    split
    · exact h
    · rename_i hother
      have htok : ∀ t ∈ statement.token?, t ∉ s.drawn := fun t ht hd => hother ⟨t, ht, hd⟩
      have hexec := books_rowsChanged h (takesNone_exec htok)
        (completesNone_exec ht.sound.1.keyed.nodup htok)
      split
      · split
        · exact h
        · exact hexec
      · exact hexec

theorem books_run (p : EvaluatorParams Bytes Batch) (table : ClaimTable Bytes Res)
    (es : List (EvaluatorEvent Bytes Res)) : Books (run (step p) (init table) es) :=
  (run_invariant' (I := fun s => Tracked p s ∧ Books s)
    (fun _ e h => ⟨tracked_step h.1 e, books_step h.2 h.1 e⟩) es
    ⟨tracked_init table, books_init table⟩).2

/-- After every run: a result the runner evaluated is still in its memory, or the queue accepted
it, or the queue answered its submission with lost ownership; and the queue accepts results of
its evaluations only, each at most once, never one whose claim had ended. -/
theorem results_retained (p : EvaluatorParams Bytes Batch) (table : ClaimTable Bytes Res)
    (es : List (EvaluatorEvent Bytes Res)) :
    let s := run (step p) (init table) es
    (∀ e ∈ s.evaluated, e ∈ s.runner.kept ∨ e ∈ s.accepted ∨ e ∈ s.disowned) ∧
      (s.evaluated.map (·.token)).Nodup ∧ (s.accepted.map (·.token)).Nodup ∧
      (∀ e ∈ s.accepted, e ∈ s.evaluated) ∧
      ∀ e ∈ s.disowned, e ∈ s.evaluated ∧ ∀ row ∈ s.rows, row.status = .claimed →
        row.claimToken ≠ some e.token := by
  intro s
  have h := books_run p table es
  exact ⟨h.retained, h.once, h.acceptedOnce, fun e he => (h.accepted e he).1,
    fun e he => h.disowned e he⟩

/-- A clean `stop` leaves nothing behind: no row is claimed under a token of the runner, and each
result it evaluated was accepted or disowned. -/
theorem stopped_clean (p : EvaluatorParams Bytes Batch) (table : ClaimTable Bytes Res)
    (es : List (EvaluatorEvent Bytes Res))
    (hstop : (run (step p) (init table) es).phase = .stopped) :
    let s := run (step p) (init table) es
    (∀ row ∈ s.rows, row.status = .claimed → ∀ t ∈ s.drawn, row.claimToken ≠ some t) ∧
      ∀ e ∈ s.evaluated, e ∈ s.accepted ∨ e ∈ s.disowned := by
  intro s
  have ht := tracked_run p table es
  have hb := books_run p table es
  have hp := ht.sound.2
  simp only [hstop] at hp
  obtain ⟨hactive, hwork, hsub⟩ := hp
  simp only [LatentPrefetchBuffer.hasPendingWork, Bool.or_eq_false_iff,
    Option.isSome_eq_false_iff, Option.isNone_iff_eq_none] at hwork
  constructor
  · intro row hrow hst t htd htok
    have hmem := ht.sound.1.covered row hrow hst t htd htok
    simp [EvaluatorRunner.trackedTokens, hactive, hwork.1, hwork.2, hsub] at hmem
  · intro e he
    rcases hb.retained e he with hk | hdone
    · simp [EvaluatorRunner.kept, EvaluatorRunner.activeWork, hactive, hsub] at hk
    · exact hdone

/-! A node evaluates its only batch, and the reply to the submission is lost. -/

def soleRow : BatchRow Nat Nat :=
  NewBatch.toRow 7 3 false 0 ⟨1, 5, 40⟩

def soleTable : ClaimTable Nat Nat where
  rows := [soleRow]
  nodup := List.nodup_singleton _
  tokens := by
    intro r hr x hx _ _ _
    rw [List.mem_singleton.1 hr, List.mem_singleton.1 hx]

def soleParams : EvaluatorParams Nat Nat := ⟨7, "node", 3, .ok⟩

def soleView : NodesView := ⟨[⟨"a", "node", some 7, some .evaluator, 10⟩], 1⟩

def lostReply : Fault := ⟨.store (.database "connection closed"), fun e h => by cases h; rfl⟩

def answer (uuid : String) : EvaluatorEvent Nat Nat :=
  .resume ⟨uuid, false, true, .ok ⟨41, 5⟩⟩

/-- The batch is claimed, evaluated and submitted; then the node stops and submits it again. -/
def lostReplyRun : List (EvaluatorEvent Nat Nat) :=
  [answer "a", answer "b", answer "c", .executePrefetch soleView fun _ => false,
    .finishPrefetch none, answer "d", answer "e", answer "f", .executeSubmit,
    .finishSubmit (some lostReply), .startStop, answer "g", answer "h", answer "i", answer "j",
    answer "k", .executeSubmit, .executePrefetch soleView fun _ => false, .finishPrefetch none,
    answer "l", answer "m", answer "n", .finishSubmit none, answer "o", answer "p"]

example : (run (step soleParams) (init soleTable) lostReplyRun).accepted =
    [⟨1, "c", 41⟩] := by
  rfl

theorem stopped_clean_lost_reply :
    let s := run (step soleParams) (init soleTable) lostReplyRun
    (∀ row ∈ s.rows, row.status = .claimed → ∀ t ∈ s.drawn, row.claimToken ≠ some t) ∧
      ∀ e ∈ s.evaluated, e ∈ s.accepted ∨ e ∈ s.disowned :=
  stopped_clean soleParams soleTable lostReplyRun rfl

end EvaluatorSystem

end Gammaboard.Runners
