import Gammaboard.Runners.EvaluatorClaims

/-!
# The evaluator tracks its claims

`PhaseOk` says what the runner knows where it is suspended, `resume_sound` that one step keeps it
together with `Tracking`, and `claims_stay_tracked` what follows for every run:
`release_untracked_claims` never takes work away from the runner.
-/

namespace Gammaboard.Runners

open Gammaboard.Core Gammaboard.Lib Gammaboard.Stores

variable {Bytes Batch Res : Type}

/-! ## One tick -/

/-- What the runner knows where it is suspended. -/
def PhaseOk (rows : List (BatchRow Bytes Res)) (r : EvaluatorRunner Batch Res) : Phase → Prop
  | .reconciling tokens _ => tokens = r.trackedTokens
  | .prefetching => r.activeBatch = none
  | .failing handle => ∃ claim message,
    r.activeBatch = some ⟨claim, some (.error ⟨message, none⟩)⟩ ∧
      (handle.settled = true → Unclaimed rows claim.claimToken)
  | .reportingFailure => ∃ claim message outcome,
    r.activeBatch = some ⟨claim, some (.error ⟨message, some outcome⟩)⟩
  | .waitingSlot => ∃ claim evaluated, r.activeBatch = some ⟨claim, some (.ok evaluated)⟩
  | .flushing .handOver =>
    (∃ claim evaluated, r.activeBatch = some ⟨claim, some (.ok evaluated)⟩) ∧
      r.submitBuffer = ⟨none, none⟩
  | .stopping => r.activeBatch = none ∧ r.prefetchBuffer.hasPendingWork = false
  | .flushing .stopped | .stopped =>
    r.activeBatch = none ∧ r.prefetchBuffer.hasPendingWork = false ∧
      r.submitBuffer.submission = none
  | _ => True

/-- A suspended runner that tracks its claims. -/
def Sound (rows : List (BatchRow Bytes Res)) (drawn : List String)
    (x : Phase × EvaluatorRunner Batch Res) : Prop :=
  Tracking rows drawn x.2 ∧ PhaseOk rows x.2 x.1

section Sound

variable {rows rows' : List (BatchRow Bytes Res)} {drawn : List String}
  {r : EvaluatorRunner Batch Res} {uuid : String}

theorem waitForSlot_ok {b b' : ResultSubmitBuffer Res} {outcome : Option SubmitOutcome}
    (hf : b.submitFinished = true) (h : b.waitForSlot = (.ok outcome, b')) : b' = ⟨none, none⟩ := by
  unfold ResultSubmitBuffer.waitForSlot at h
  split at h
  · cases h
    rfl
  · split at h <;> cases h
    rfl
  · cases h
  · rename_i hok hstore hjoin
    exfalso
    unfold ResultSubmitBuffer.submitFinished at hf
    cases hp : b.pendingSubmit with
    | none => simp [hp] at hf
    | some task =>
      obtain ⟨submission, handle⟩ := task
      cases handle with
      | sent => simp [hp, Handle.isFinished] at hf
      | executed reply => simp [hp, Handle.isFinished] at hf
      | finished outcome =>
        cases outcome with
        | ok o => exact hok _ _ hp
        | error e =>
          cases e with
          | store e => exact hstore _ _ hp
          | join m => exact hjoin _ _ hp

/-- The reply is taken, and the runner goes on with an empty buffer. -/
theorem takeReply_sound (h : Tracking rows drawn r) (hf : r.submitBuffer.submitFinished = true)
    {next : AfterFlush} {without : EvaluatorRunner Batch Res → Phase × EvaluatorRunner Batch Res}
    (hwithout : ∀ r', r' = { r with submitBuffer := ⟨none, none⟩ } → Tracking rows drawn r' →
      Sound rows drawn (without r'))
    (hnext : ∀ r', r'.activeBatch = r.activeBatch → r'.prefetchBuffer = r.prefetchBuffer →
      r'.submitBuffer = ⟨none, none⟩ → PhaseOk rows r' (.flushing next)) :
    Sound rows drawn (r.takeReply next without) := by
  have hw := h.waitForSlot
  unfold EvaluatorRunner.takeReply
  split
  · rename_i e b heq
    rw [heq] at hw
    exact ⟨hw, trivial⟩
  · rename_i b heq
    rw [heq, waitForSlot_ok hf heq] at hw
    rw [waitForSlot_ok hf heq]
    exact hwithout _ rfl hw
  · rename_i outcome b heq
    rw [heq, waitForSlot_ok hf heq] at hw
    rw [waitForSlot_ok hf heq]
    exact ⟨hw.observeEvalBatch outcome, hnext _ rfl rfl rfl⟩

theorem consumeFinishedSubmit_sound (h : Tracking rows drawn r) :
    Sound rows drawn r.consumeFinishedSubmit := by
  unfold EvaluatorRunner.consumeFinishedSubmit
  simp only
  split
  · rename_i hf
    exact takeReply_sound h.ensureSubmit hf (fun _ _ h' => ⟨h', trivial⟩) fun _ _ _ _ => trivial
  · exact ⟨h.ensureSubmit, trivial⟩

theorem handOver_sound (h : Tracking rows drawn r)
    (hactive : ∃ claim evaluated, r.activeBatch = some ⟨claim, some (.ok evaluated)⟩)
    (hidle : r.submitBuffer = ⟨none, none⟩) : Sound rows drawn r.handOver := by
  obtain ⟨claim, evaluated, ha⟩ := hactive
  have ht := h.handOver ha (by rw [hidle]) (by rw [hidle])
  refine ⟨ht, ?_⟩
  unfold EvaluatorRunner.handOver
  rw [ha]
  trivial

/-- Without a submission there is no request for one. -/
theorem submitBuffer_idle (h : Tracking rows drawn r) (hidle : r.submitBuffer.isIdle = true) :
    r.submitBuffer = ⟨none, none⟩ := by
  have hsub : r.submitBuffer.submission = none := Option.isNone_iff_eq_none.1 hidle
  have hpending : r.submitBuffer.pendingSubmit = none := by
    cases hp : r.submitBuffer.pendingSubmit with
    | none => rfl
    | some task =>
      rw [(h.stages.submit task hp).1] at hsub
      cases hsub
  cases hb : r.submitBuffer
  rw [hb] at hsub hpending
  subst hsub hpending
  rfl

theorem slot_sound (h : Tracking rows drawn r)
    (hactive : ∃ claim evaluated, r.activeBatch = some ⟨claim, some (.ok evaluated)⟩) :
    Sound rows drawn r.slot := by
  unfold EvaluatorRunner.slot
  split
  · rename_i hidle
    exact handOver_sound h hactive (submitBuffer_idle h hidle)
  · simp only
    split
    · rename_i hf
      refine takeReply_sound h.ensureSubmit hf (fun r' hr' h' => ?_) fun r' ha _ hb => ?_
      · subst hr'
        exact handOver_sound h' hactive rfl
      · exact ⟨ha ▸ hactive, hb⟩
    · exact ⟨h.ensureSubmit, hactive⟩

theorem takeReady_sound (h : Tracking rows drawn r) (hactive : r.activeBatch = none)
    (hd : uuid ∈ drawn) (hnew : uuid ∉ r.trackedTokens) :
    Sound rows drawn (r.takeReady uuid) := by
  unfold EvaluatorRunner.takeReady
  split
  · exact ⟨h, trivial⟩
  · rename_i claim hready
    have ht := h.activate hready hactive
    refine ⟨ht.maybeStartPrefetch hd ?_ _, trivial⟩
    simpa [EvaluatorRunner.trackedTokens, hready, hactive] using hnew

theorem startPop_sound (h : Tracking rows drawn r) (hactive : r.activeBatch = none)
    (hd : uuid ∈ drawn) (hnew : uuid ∉ r.trackedTokens) :
    Sound rows drawn (r.startPop uuid) := by
  unfold EvaluatorRunner.startPop
  split
  · exact takeReady_sound h hactive hd hnew
  · rename_i hready
    simp only
    have hm := h.maybeStartPrefetch hd hnew r.draining
    split
    · exact ⟨hm, hactive⟩
    · rename_i hpending
      -- nothing was started, so nothing was drawn
      have hsame : r.prefetchBuffer.maybeStartPrefetch uuid r.draining = r.prefetchBuffer := by
        unfold LatentPrefetchBuffer.maybeStartPrefetch at hpending ⊢
        split at hpending
        · rename_i hstart
          rw [if_pos hstart]
        · exact absurd rfl hpending
      rw [hsame]
      exact takeReady_sound h hactive hd hnew

theorem finishPrefetch_tracked_sub (h : Tracking rows drawn r) :
    ∀ t ∈ EvaluatorRunner.trackedTokens
      { r with prefetchBuffer := r.prefetchBuffer.finishPrefetch.2 }, t ∈ r.trackedTokens := by
  unfold LatentPrefetchBuffer.finishPrefetch
  split
  · rename_i token claimed hpending
    obtain ⟨-, htoken, hreply⟩ := h.stages.prefetch _ hpending
    intro t ht
    rcases EvaluatorRunner.mem_trackedTokens.1 ht with ht | ⟨x, hx, rfl⟩
    · cases ht
    · rcases EvaluatorRunner.mem_holdings.1 hx with ⟨c, hc, rfl⟩ | hx
      · have hrep := hreply claimed rfl
        rw [show claimed = some c from hc] at hrep
        exact EvaluatorRunner.mem_trackedTokens.2 (.inl (hrep.1 ▸ htoken))
      · exact EvaluatorRunner.holdings_tracked (EvaluatorRunner.mem_holdings.2 (.inr hx))
  · exact fun _ ht => ht
  · exact fun _ ht => ht

theorem finishPop_sound (h : Tracking rows drawn r) (hactive : r.activeBatch = none)
    (hd : uuid ∈ drawn) (hnew : uuid ∉ r.trackedTokens) :
    Sound rows drawn (r.finishPop uuid) := by
  have hf := h.finishPrefetch
  have hsub := finishPrefetch_tracked_sub h
  unfold EvaluatorRunner.finishPop
  split
  · rename_i e b heq
    rw [heq] at hf
    exact ⟨hf, trivial⟩
  · rename_i b heq
    rw [heq] at hf hsub
    exact takeReady_sound hf hactive hd fun hmem => hnew (hsub uuid hmem)

theorem pop_sound (h : Tracking rows drawn r) (hactive : r.activeBatch = none)
    (hd : uuid ∈ drawn) (hnew : uuid ∉ r.trackedTokens) : Sound rows drawn (r.pop uuid) := by
  have hf := h.finishPrefetch
  have hsub := finishPrefetch_tracked_sub h
  unfold EvaluatorRunner.pop
  split
  · split
    · rename_i e b heq
      rw [heq] at hf
      exact ⟨hf, trivial⟩
    · rename_i b heq
      rw [heq] at hf hsub
      exact startPop_sound hf hactive hd fun hmem => hnew (hsub uuid hmem)
  · exact startPop_sound h hactive hd hnew

theorem evaluated_sound {active : ActiveBatch Batch Res}
    (h : Tracking rows drawn { r with activeBatch := some active })
    (hev : active.evaluation.isSome = true) : Sound rows drawn (r.evaluated active) := by
  obtain ⟨claim, evaluation⟩ := active
  cases evaluation with
  | none => cases hev
  | some evaluation =>
    cases evaluation with
    | error f =>
      obtain ⟨message, outcome⟩ := f
      cases outcome with
      | none => exact ⟨h, claim, message, rfl, fun hs => by cases hs⟩
      | some outcome => exact ⟨h, claim, message, outcome, rfl⟩
    | ok e => exact ⟨h, claim, e, rfl⟩

theorem contextLoaded_sound (h : Tracking rows drawn r) (i : TickInput Res) :
    Sound rows drawn (r.contextLoaded i) := by
  unfold EvaluatorRunner.contextLoaded
  split
  · exact ⟨h, trivial⟩
  · rename_i active hactive
    split
    · rename_i hev
      exact evaluated_sound (by rw [← hactive]; exact h) hev
    · split
      · refine evaluated_sound (h.setEvaluation hactive fun message outcome he => ?_) rfl
        cases hi : i.evaluation <;> rw [hi] at he <;> cases he
      · exact ⟨h, trivial⟩

theorem failAnswered_sound (h : Tracking rows drawn r)
    {outcome : Except TaskError BatchFailOutcome}
    (hp : PhaseOk rows r (.failing (.finished outcome))) :
    Sound rows drawn (r.failAnswered outcome) := by
  obtain ⟨claim, message, hactive, hfree⟩ := hp
  unfold EvaluatorRunner.failAnswered
  split
  · rename_i o
    rw [hactive]
    exact ⟨h.setEvaluation hactive fun _ _ _ => hfree rfl, claim, message, o, rfl⟩
  · rename_i e
    split
    · rename_i hlost
      exact ⟨h.dropActive hactive (hfree hlost), trivial⟩
    · exact ⟨h, trivial⟩
  · exact ⟨h, trivial⟩

theorem failureReported_sound (h : Tracking rows drawn r) (hp : PhaseOk rows r .reportingFailure)
    (answered : Bool) : Sound rows drawn (r.failureReported answered) := by
  obtain ⟨claim, message, outcome, hactive⟩ := hp
  have hdrop := h.dropActive hactive (h.stages.reported claim message outcome hactive)
  unfold EvaluatorRunner.failureReported
  split
  · split
    · exact ⟨hdrop, trivial⟩
    · exact ⟨h, trivial⟩
  · exact ⟨hdrop, trivial⟩

theorem stopSlot_sound (h : Tracking rows drawn r) (hp : PhaseOk rows r .stopping) :
    Sound rows drawn r.stopSlot := by
  obtain ⟨hactive, hwork⟩ := hp
  unfold EvaluatorRunner.stopSlot
  simp only
  split
  · rename_i hpending
    refine ⟨h.ensureSubmit, hactive, hwork, ?_⟩
    simp only [ResultSubmitBuffer.ensureSubmit] at hpending ⊢
    split at hpending
    · cases hpending
    · rename_i hnone
      cases hs : r.submitBuffer.submission with
      | none => rfl
      | some submission => exact absurd hs (hnone submission hpending)
  · split
    · rename_i hf
      refine takeReply_sound h.ensureSubmit hf (fun r' hr' h' => ?_) fun r' ha hb hs => ?_
      · subst hr'
        exact ⟨h', hactive, hwork, rfl⟩
      · exact ⟨ha.trans hactive, by rw [hb]; exact hwork, by rw [hs]⟩
    · exact ⟨h.ensureSubmit, hactive, hwork⟩

theorem startTick_sound (h : Tracking rows drawn r) (due : Bool) :
    Sound rows drawn (r.startTick due) := by
  unfold EvaluatorRunner.startTick
  split
  · rename_i hstop
    simp only [Bool.and_eq_true, Bool.not_eq_true', Option.isNone_iff_eq_none] at hstop
    exact ⟨h, hstop.1.2, hstop.2⟩
  · split
    · exact ⟨h, rfl⟩
    · exact ⟨h, trivial⟩

/-- From one await to the next. -/
theorem resume_sound {phase : Phase} (h : Sound rows drawn (phase, r)) {i : TickInput Res}
    (hd : i.uuid ∈ drawn) (hnew : i.uuid ∉ r.trackedTokens) :
    Sound rows drawn (r.resume i phase) := by
  obtain ⟨ht, hp⟩ := h
  unfold EvaluatorRunner.resume
  split
  · exact startTick_sound ht _
  · exact ⟨ht, trivial⟩
  · exact ⟨ht, trivial⟩
  · exact consumeFinishedSubmit_sound ht
  · split
    · exact ⟨ht, trivial⟩
    · rename_i hactive
      exact pop_sound ht (by simpa using hactive) hd hnew
  · split
    · exact finishPop_sound ht hp hd hnew
    · exact ⟨ht, hp⟩
  · exact contextLoaded_sound ht i
  · exact failAnswered_sound ht hp
  · exact failureReported_sound ht hp _
  · exact slot_sound ht hp
  · split
    · split
      · exact ⟨ht, trivial⟩
      · exact handOver_sound ht hp.1 hp.2
      · exact ⟨ht, trivial⟩
      · exact ⟨ht, hp⟩
    · exact ⟨ht, trivial⟩
  · exact stopSlot_sound ht hp
  · exact ⟨ht, hp⟩

theorem phaseOk_rowsChanged {phase : Phase} (h : Tracking rows drawn r)
    (ht : TakesNone drawn rows rows') (hp : PhaseOk rows r phase) : PhaseOk rows' r phase := by
  cases phase with
  | failing handle =>
    obtain ⟨claim, message, hactive, hfree⟩ := hp
    exact ⟨claim, message, hactive, fun hs => ht.unclaimed (h.active_drawn hactive) (hfree hs)⟩
  | flushing next => cases next <;> exact hp
  | _ => exact hp

theorem sound_rowsChanged {phase : Phase} (ht : TakesNone drawn rows rows')
    (h : Sound rows drawn (phase, r)) : Sound rows' drawn (phase, r) :=
  ⟨h.1.rowsChanged ht, phaseOk_rowsChanged h.1 ht h.2⟩

theorem sound_draw {phase : Phase} (h : Sound rows drawn (phase, r))
    (hfree : ∀ row ∈ rows, row.claimToken ≠ some uuid) : Sound rows (uuid :: drawn) (phase, r) := by
  refine ⟨h.1.draw hfree, ?_⟩
  obtain ⟨-, hp⟩ := h
  cases phase with
  | flushing next => cases next <;> exact hp
  | _ => exact hp

end Sound

/-! ## Every run -/

namespace EvaluatorSystem

/-- Claims under the runner's tokens belong to its node and run. -/
def Owned (p : EvaluatorParams Bytes Batch) (rows : List (BatchRow Bytes Res))
    (drawn : List String) : Prop :=
  ∀ row ∈ rows, row.status = .claimed → ∀ t ∈ drawn, row.claimToken = some t →
    row.runId = p.runId ∧ row.claimedByNodeUuid = some p.nodeUuid

/-- The invariant of the system. -/
structure Tracked (p : EvaluatorParams Bytes Batch) (s : EvaluatorState Bytes Batch Res) : Prop where
  sound : Sound s.rows s.drawn (s.phase, s.runner)
  owned : Owned p s.rows s.drawn

variable {p : EvaluatorParams Bytes Batch} {s : EvaluatorState Bytes Batch Res}

theorem Tracked.takesNone (h : Tracked p s) {rows : List (BatchRow Bytes Res)}
    (ht : TakesNone s.drawn s.rows rows) : Tracked p { s with rows } :=
  ⟨sound_rowsChanged ht h.sound, fun row hrow hst t htd htok =>
    h.owned row (ht.claims row hrow hst t htd htok) hst t htd htok⟩

theorem tracked_init (table : ClaimTable Bytes Res) :
    Tracked p (init table) where
  sound := by
    refine ⟨⟨⟨table.nodup, table.tokens⟩, ?_, List.nodup_nil, ⟨?_, ?_, ?_, ?_⟩, ?_⟩, trivial⟩
    · intro t ht
      cases ht
    · intro x hx
      cases hx
    · intro task htask
      cases htask
    · intro task htask
      cases htask
    · intro _ _ _ ha
      cases ha
    · intro _ _ _ t ht
      cases ht
  owned := fun _ _ _ t ht => by cases ht

/-- A row claimed after `claim_batch` was claimed before it, or by it. -/
theorem claimBatch_claims {view : NodesView} {locked : Int → Bool} {runId : Int}
    {uuid token : String} {rows : List (BatchRow Bytes Res)} (hn : (rows.map (·.id)).Nodup)
    {row : BatchRow Bytes Res} (hrow : row ∈ (claimBatch view locked runId uuid token rows).2)
    {t : String} (htok : row.claimToken = some t) :
    row ∈ rows ∨ t = token ∧ row.runId = runId ∧ row.claimedByNodeUuid = some uuid := by
  rcases claimBatch_cases view locked runId uuid token rows with heq | ⟨next, hnext, -, hrun, -, heq⟩
  · rw [heq] at hrow
    exact .inl hrow
  · rw [heq] at hrow
    obtain ⟨r, hr, rfl⟩ := List.mem_map.1 hrow
    split at htok <;> rename_i hid
    · cases htok
      rw [if_pos hid]
      refine .inr ⟨rfl, ?_, rfl⟩
      rw [← hrun, ← ClaimState.eq_of_id hn hr hnext hid]
      rfl
    · rw [if_neg hid]
      exact .inl hr

theorem keyed_claimBatch {view : NodesView} {locked : Int → Bool} {runId : Int}
    {uuid token : String} {rows : List (BatchRow Bytes Res)} (h : Keyed rows) :
    Keyed (claimBatch view locked runId uuid token rows).2 := by
  rcases claimBatch_cases view locked runId uuid token rows with heq | ⟨next, -, -, -, hfree, heq⟩
  · rw [heq]
    exact h
  · rw [heq]
    exact keyed_claim h hfree

/-- The reply names the only row its token claims; without a row nothing is claimed under it. -/
theorem claimReply_spec {view : NodesView} {locked : Int → Bool} {token : String}
    {rows : List (BatchRow Bytes Res)} (hk : Keyed rows)
    (howned : ∀ row ∈ rows, row.status = .claimed → row.claimToken = some token →
      row.runId = p.runId ∧ row.claimedByNodeUuid = some p.nodeUuid)
    {reply : Option (BatchClaim Batch)}
    (hr : claimReply p token (claimBatch view locked p.runId p.nodeUuid token rows).1.head?
      = .ok reply) :
    ClaimReply (claimBatch view locked p.runId p.nodeUuid token rows).2 token reply := by
  rcases claimBatch_cases view locked p.runId p.nodeUuid token rows with
    heq | ⟨next, -, -, -, hfree, heq⟩
  · rw [heq] at hr ⊢
    cases hf : (rows.filter fun r => r.runId == p.runId && r.claimedBy p.nodeUuid token) with
    | nil =>
      rw [hf] at hr
      cases hr
      intro row hrow hst htok
      obtain ⟨hrunId, huuid⟩ := howned row hrow hst htok
      refine List.filter_eq_nil_iff.1 hf row hrow ?_
      simp [hrunId, ClaimState.claimedBy_iff, hst, huuid, htok]
    | cons row rest =>
      obtain ⟨hrow, hc⟩ := List.mem_filter.1 (hf ▸ List.mem_cons_self : row ∈ _)
      obtain ⟨-, -, htok⟩ := ClaimState.claimedBy_iff.1 (Bool.and_eq_true_iff.1 hc).2
      rw [hf] at hr
      simp only [List.map_cons, List.head?_cons, claimReply] at hr
      split at hr <;> cases hr
      refine ⟨rfl, fun r hr _ hrt => ?_⟩
      rw [hk.tokens r hr row hrow token hrt htok]
      rfl
  · rw [heq] at hr ⊢
    simp only [List.head?_cons, claimReply] at hr
    split at hr <;> cases hr
    refine ⟨rfl, fun y hy _ hyt => ?_⟩
    obtain ⟨r, hr, rfl⟩ := List.mem_map.1 hy
    split at hyt <;> rename_i hid
    · rw [if_pos hid]
      exact hid
    · exact absurd hyt (hfree r hr)

/-- The token of a claim request is none of the others. -/
theorem holding_ne_claimToken {rows : List (BatchRow Bytes Res)} {drawn : List String}
    {r : EvaluatorRunner Batch Res} (h : Tracking rows drawn r) {token : String}
    (htoken : r.prefetchBuffer.claimToken = some token) {x : Int × String}
    (hx : x ∈ r.holdings) : x.2 ≠ token := by
  intro hxt
  have hnodup := h.distinct
  rw [EvaluatorRunner.trackedTokens_eq, htoken] at hnodup
  exact (List.nodup_cons.1 hnodup).1 (hxt ▸ List.mem_map_of_mem hx)

/-- The spawned claim runs: it takes at most one row, under the tracked token. -/
theorem tracked_executePrefetch (h : Tracked p s) (view : NodesView) (locked : Int → Bool) :
    Tracked p (executePrefetch p view locked s) := by
  unfold executePrefetch
  split
  · rename_i token hpending
    obtain ⟨ht, hp⟩ := h.sound
    obtain ⟨hready, htoken, -⟩ := ht.stages.prefetch _ hpending
    have hd := ht.claimToken_drawn htoken
    have hothers : ∀ x ∈ s.runner.holdings,
        TakesNone [x.2] s.rows (claimBatch view locked p.runId p.nodeUuid token s.rows).2 := by
      intro x hx
      exact takesNone_claim (by simpa using (holding_ne_claimToken ht htoken hx).symm)
    have hactive : ∀ claim evaluation, s.runner.activeBatch = some ⟨claim, evaluation⟩ →
        Unclaimed s.rows claim.claimToken →
        Unclaimed (claimBatch view locked p.runId p.nodeUuid token s.rows).2 claim.claimToken := by
      intro claim evaluation ha
      exact (hothers (claim.batchId, _)
        (EvaluatorRunner.mem_holdings.2 (.inr (.inl ⟨_, ha, rfl⟩)))).unclaimed List.mem_cons_self
    refine ⟨⟨⟨keyed_claimBatch ht.keyed, ht.tokensDrawn, ht.distinct, ⟨?_, ?_, ?_, ?_⟩, ?_⟩, ?_⟩, ?_⟩
    · intro x hx
      exact (hothers x hx).claimsAtMost List.mem_cons_self (ht.stages.held x hx)
    · intro task htask
      cases htask
      refine ⟨hready, htoken, fun reply hr => claimReply_spec ht.keyed ?_ ?_⟩
      · exact fun row hrow hst htok => h.owned row hrow hst token hd htok
      · exact Handle.reply?_executed.1 hr
    · intro task htask
      obtain ⟨hsub, hfree⟩ := ht.stages.submit task htask
      refine ⟨hsub, fun hs => (hothers (task.submission.batchId, _) ?_).unclaimed
        List.mem_cons_self (hfree hs)⟩
      exact EvaluatorRunner.mem_holdings.2 (.inr (.inr ⟨_, hsub, rfl⟩))
    · intro claim message outcome ha
      exact hactive claim _ ha (ht.stages.reported claim message outcome ha)
    · intro row hmem hst t htd htok
      rcases claimBatch_claims ht.keyed.nodup hmem htok with hmem | ⟨rfl, -, -⟩
      · exact ht.covered row hmem hst t htd htok
      · exact EvaluatorRunner.mem_trackedTokens.2 (.inl htoken)
    · cases hphase : s.phase with
      | failing handle =>
        rw [hphase] at hp
        obtain ⟨claim, message, ha, hfree⟩ := hp
        exact ⟨claim, message, ha, fun hs => hactive claim _ ha (hfree hs)⟩
      | flushing next =>
        rw [hphase] at hp
        cases next <;> exact hp
      | _ =>
        rw [hphase] at hp
        exact hp
    · intro row hmem hst t htd htok
      rcases claimBatch_claims ht.keyed.nodup hmem htok with hmem | ⟨-, hown⟩
      · exact h.owned row hmem hst t htd htok
      · exact hown
  · exact h

/-- A row claimed under the token is the one a request for its batch finds. -/
theorem ownedRow_claimed {rows : List (BatchRow Bytes Res)} (hk : Keyed rows) {batchId : Int}
    {uuid token : String} (hatMost : ClaimsAtMost rows token batchId)
    {row : BatchRow Bytes Res} (hrow : row ∈ rows) (hst : row.status = .claimed)
    (htok : row.claimToken = some token) (huuid : row.claimedByNodeUuid = some uuid) :
    row.id = batchId ∧ ownedRow batchId uuid token rows = some row := by
  have hid := hatMost row hrow hst htok
  refine ⟨hid, ?_⟩
  cases ho : ownedRow batchId uuid token rows with
  | none =>
    refine absurd (List.find?_eq_none.1 ho row hrow) ?_
    simp [hid, BatchRow.heldBy, huuid, htok]
  | some x =>
    obtain ⟨hx, hxid, -⟩ := ownedRow_some ho
    rw [ClaimState.eq_of_id hk.nodup hx hrow (hxid.trans hid.symm)]

/-- A batch rewritten to a status other than claimed is not claimed under its token. -/
theorem unclaimed_updateRow {rows : List (BatchRow Bytes Res)} {batchId : Int} {token : String}
    (hatMost : ClaimsAtMost rows token batchId) {f : BatchRow Bytes Res → BatchRow Bytes Res}
    (hf : ∀ r, (f r).status ≠ .claimed) : Unclaimed (updateRow batchId f rows) token := by
  intro y hy hst htok
  obtain ⟨r, hr, rfl⟩ := List.mem_map.1 hy
  split at hst <;> rename_i hid
  · exact hf r hst
  · rw [if_neg hid] at htok
    exact hid (hatMost r hr hst htok)

variable {rows : List (BatchRow Bytes Res)} {batchId : Int} {token : String}

/-- An executed submission ends the claim, whatever it answers. -/
theorem submit_unclaimed (uuid : String) (hk : Keyed rows) (hatMost : ClaimsAtMost rows token batchId)
    (howned : ∀ row ∈ rows, row.status = .claimed → row.claimToken = some token →
      row.claimedByNodeUuid = some uuid) (result : Res) :
    Unclaimed (submitBatchResults batchId uuid token result rows).2 token := by
  by_cases hex : ∃ row ∈ rows, row.status = .claimed ∧ row.claimToken = some token
  · obtain ⟨row, hrow, hst, htok⟩ := hex
    obtain ⟨hid, ho⟩ := ownedRow_claimed hk hatMost hrow hst htok (howned row hrow hst htok)
    unfold submitBatchResults
    rw [ho]
    simp only [hst]
    exact unclaimed_updateRow hatMost fun r h => by cases h
  · have hnone : Unclaimed rows token := fun row hrow hst htok => hex ⟨row, hrow, hst, htok⟩
    have htakes : TakesNone [token] rows _ := takesNone_submit batchId uuid token result
    exact htakes.unclaimed List.mem_cons_self hnone

/-- So does an executed failure report. -/
theorem fail_unclaimed (uuid : String) (hk : Keyed rows) (hatMost : ClaimsAtMost rows token batchId)
    (howned : ∀ row ∈ rows, row.status = .claimed → row.claimToken = some token →
      row.claimedByNodeUuid = some uuid) (lastError : String) (max : Nat) :
    Unclaimed (failBatch batchId uuid token lastError max rows).2 token := by
  by_cases hex : ∃ row ∈ rows, row.status = .claimed ∧ row.claimToken = some token
  · obtain ⟨row, hrow, hst, htok⟩ := hex
    obtain ⟨hid, ho⟩ := ownedRow_claimed hk hatMost hrow hst htok (howned row hrow hst htok)
    unfold failBatch
    rw [ho]
    simp only [hst]
    exact unclaimed_updateRow hatMost fun r => fail_not_claimed r _ _
  · have hnone : Unclaimed rows token := fun row hrow hst htok => hex ⟨row, hrow, hst, htok⟩
    have htakes : TakesNone [token] rows _ := takesNone_fail batchId uuid token lastError max
    exact htakes.unclaimed List.mem_cons_self hnone

theorem tracked_executeSubmit (h : Tracked p s) : Tracked p (executeSubmit p s) := by
  unfold executeSubmit
  split
  · rename_i submission hpending
    have ht := h.sound.1
    obtain ⟨hsub, -⟩ := ht.stages.submit _ hpending
    have hd := ht.submission_drawn hsub
    have hrows := h.takesNone (takesNone_submit submission.batchId p.nodeUuid
      submission.claimToken submission.result)
    have hfree := submit_unclaimed p.nodeUuid ht.keyed
      (ht.stages.held (submission.batchId, _)
        (EvaluatorRunner.mem_holdings.2 (.inr (.inr ⟨_, hsub, rfl⟩))))
      (fun row hrow hst htok => (h.owned row hrow hst _ hd htok).2) submission.result
    obtain ⟨hst, hp⟩ := hrows.sound
    refine ⟨⟨hst.transfer rfl ⟨hst.stages.held, hst.stages.prefetch, ?_, hst.stages.reported⟩, ?_⟩,
      hrows.owned⟩
    · intro task htask
      cases htask
      exact ⟨hsub, fun _ => hfree⟩
    · cases hphase : s.phase with
      | flushing next =>
        rw [hphase] at hp
        cases next with
        | handOver =>
          have hb := hp.2
          simp only at hb
          rw [hb] at hpending
          cases hpending
        | _ => exact hp
      | _ =>
        rw [hphase] at hp
        exact hp
  · exact h

theorem tracked_executeRequest (h : Tracked p s) : Tracked p (executeRequest p s) := by
  unfold executeRequest
  split
  · rename_i tokens hphase
    have hrows := h.takesNone (takesNone_releaseUntracked p.runId p.nodeUuid tokens)
    obtain ⟨hst, hp⟩ := hrows.sound
    simp only [hphase] at hp
    exact ⟨⟨hst, hp⟩, hrows.owned⟩
  · rename_i claim failure hphase hactive
    have ht := h.sound.1
    have hp := h.sound.2
    rw [hphase] at hp
    obtain ⟨claim', message, ha, -⟩ := hp
    obtain ⟨rfl, rfl⟩ : claim' = claim ∧ failure = ⟨message, none⟩ := by
      rw [show s.runner.activeBatch = some ⟨claim', some (.error ⟨message, none⟩)⟩ from ha] at hactive
      cases hactive
      exact ⟨rfl, rfl⟩
    have hd := ht.active_drawn ha
    have hrows := h.takesNone (takesNone_fail claim'.batchId p.nodeUuid claim'.claimToken message
      p.maxBatchRetries)
    have hfree := fail_unclaimed p.nodeUuid ht.keyed
      (ht.stages.held (claim'.batchId, _)
        (EvaluatorRunner.mem_holdings.2 (.inr (.inl ⟨_, ha, rfl⟩))))
      (fun row hrow hst htok => (h.owned row hrow hst _ hd htok).2) message p.maxBatchRetries
    exact ⟨⟨hrows.sound.1, claim', message, ha, fun _ => hfree⟩, hrows.owned⟩
  · exact h

/-- A background request ends: the runner's stages are where they were. -/
theorem Tracked.setRunner (h : Tracked p s) {runner : EvaluatorRunner Batch Res}
    (ht : Tracking s.rows s.drawn runner) (hp : PhaseOk s.rows runner s.phase) :
    Tracked p { s with runner } :=
  ⟨⟨ht, hp⟩, h.owned⟩

theorem tracked_finishPrefetch (h : Tracked p s) {token : String}
    {handle : Handle (Option (BatchClaim Batch))}
    (hpending : s.runner.prefetchBuffer.pendingPrefetch = some ⟨token, handle⟩)
    (fault : Option Fault) :
    Tracked p { s with runner := s.runner.setPrefetchHandle token (handle.finish fault) } := by
  obtain ⟨ht, hp⟩ := h.sound
  obtain ⟨hready, htoken, hreply⟩ := ht.stages.prefetch _ hpending
  refine h.setRunner (ht.transfer rfl ⟨ht.stages.held, ?_, ht.stages.submit, ht.stages.reported⟩) ?_
  · intro task htask
    cases htask
    exact ⟨hready, htoken, fun reply hr => hreply reply (Handle.reply?_finish hr)⟩
  · cases hphase : s.phase with
    | flushing next =>
      rw [hphase] at hp
      cases next <;> exact hp
    | _ =>
      rw [hphase] at hp
      exact hp

theorem tracked_finishSubmit (h : Tracked p s) {submission : Submission Res}
    {handle : Handle SubmitOutcome}
    (hpending : s.runner.submitBuffer.pendingSubmit = some ⟨submission, handle⟩)
    (fault : Option Fault) :
    Tracked p { s with runner := s.runner.setSubmitHandle submission (handle.finish fault) } := by
  obtain ⟨ht, hp⟩ := h.sound
  obtain ⟨hsub, hfree⟩ := ht.stages.submit _ hpending
  refine h.setRunner
    (ht.transfer rfl ⟨ht.stages.held, ht.stages.prefetch, ?_, ht.stages.reported⟩) ?_
  · intro task htask
    cases htask
    exact ⟨hsub, fun hs => hfree (Handle.settled_finish hs)⟩
  · cases hphase : s.phase with
    | flushing next =>
      rw [hphase] at hp
      cases next with
      | handOver =>
        rw [show s.runner.submitBuffer = ⟨none, none⟩ from hp.2] at hpending
        cases hpending
      | _ => exact hp
    | _ =>
      rw [hphase] at hp
      exact hp

theorem tracked_finishRequest (h : Tracked p s) (fault : Option Fault) :
    Tracked p { s with phase := finishRequest fault s.phase } := by
  refine ⟨⟨h.sound.1, ?_⟩, h.owned⟩
  have hp := h.sound.2
  cases hphase : s.phase with
  | failing handle =>
    rw [hphase] at hp
    obtain ⟨claim, message, hactive, hfree⟩ := hp
    exact ⟨claim, message, hactive, fun hs => hfree (Handle.settled_finish hs)⟩
  | _ =>
    rw [hphase] at hp
    exact hp

theorem tracked_resume (h : Tracked p s) (i : TickInput Res) :
    Tracked p (step p s (.resume i)) := by
  simp only [step]
  split
  · exact h
  · rename_i hnew
    simp only [not_or, not_exists, not_and] at hnew
    obtain ⟨hnotDrawn, hfree⟩ := hnew
    refine ⟨?_, ?_⟩
    · exact resume_sound (sound_draw h.sound hfree) List.mem_cons_self
        fun hmem => hnotDrawn (h.sound.1.tokensDrawn _ hmem)
    · intro row hrow hst t ht htok
      rcases List.mem_cons.1 ht with rfl | ht
      · exact absurd htok (hfree row hrow)
      · exact h.owned row hrow hst t ht htok

theorem tracked_step (h : Tracked p s) (e : EvaluatorEvent Bytes Res) : Tracked p (step p s e) := by
  cases e with
  | resume i => exact tracked_resume h i
  | startStop =>
    simp only [step]
    split
    · rename_i hphase
      obtain ⟨ht, -⟩ := h.sound
      refine h.setRunner (ht.transfer rfl ⟨ht.stages.held, ht.stages.prefetch, ht.stages.submit,
        ht.stages.reported⟩) ?_
      rw [hphase]
      trivial
    · exact h
  | executePrefetch view locked => exact tracked_executePrefetch h view locked
  | finishPrefetch fault =>
    simp only [step]
    split
    · exact tracked_finishPrefetch h ‹_› fault
    · exact h
  | executeSubmit => exact tracked_executeSubmit h
  | finishSubmit fault =>
    simp only [step]
    split
    · exact tracked_finishSubmit h ‹_› fault
    · exact h
  | executeRequest => exact tracked_executeRequest h
  | finishRequest fault => exact tracked_finishRequest h fault
  | other statement =>
    simp only [step]
    split
    · exact h
    · rename_i hother
      have hexec : Tracked p { s with rows := statement.exec s.rows } :=
        h.takesNone (takesNone_exec fun t ht hd => hother ⟨t, ht, hd⟩)
      split
      · split
        · exact h
        · exact hexec
      · exact hexec

theorem tracked_run (p : EvaluatorParams Bytes Batch) (table : ClaimTable Bytes Res)
    (es : List (EvaluatorEvent Bytes Res)) :
    Tracked p (run (step p) (init table) es) :=
  run_invariant' (I := Tracked p) (fun _ e h => tracked_step h e) es (tracked_init table)

/-- After every run from a new runner, over any table and whatever the other parties do: each row
claimed under a token this runner drew is still tracked by it, and the reconciliation on its way
leaves every such row as it is. -/
theorem claims_stay_tracked (p : EvaluatorParams Bytes Batch) (table : ClaimTable Bytes Res)
    (es : List (EvaluatorEvent Bytes Res)) :
    let s := run (step p) (init table) es
    (∀ row ∈ s.rows, row.status = .claimed → ∀ t ∈ s.drawn, row.claimToken = some t →
        t ∈ s.runner.trackedTokens) ∧
      ∀ tokens handle, s.phase = .reconciling tokens handle → ∀ row ∈ s.rows, ∀ t ∈ s.drawn,
        row.claimToken = some t → row ∈ releaseUntrackedClaims p.runId p.nodeUuid tokens s.rows := by
  intro s
  have h := tracked_run p table es
  refine ⟨h.sound.1.covered, fun tokens handle hphase row hrow t ht htok => ?_⟩
  have hp := h.sound.2
  simp only [show (run (step p) (init table) es).phase = .reconciling tokens handle from hphase]
    at hp
  refine List.mem_map.2 ⟨row, hrow, if_neg ?_⟩
  rintro ⟨-, -, hst, huntracked⟩
  refine huntracked t htok ?_
  rw [show tokens = s.runner.trackedTokens from hp]
  exact h.sound.1.covered row hrow hst t ht htok

end EvaluatorSystem

end Gammaboard.Runners
