import Gammaboard.Runners.EvaluatorSystem

/-!
# Claims under the evaluator's tokens

The invariant `Tracking` ties the stages of the runner to the table: each row claimed under a
token the runner drew belongs to the claim request, to the ready batch, to the active batch or to
the submission. It survives every statement that claims nothing under these tokens, and every
operation of the two buffers.
-/

namespace Gammaboard.Runners

open Gammaboard.Core Gammaboard.Lib Gammaboard.Stores

variable {Bytes Batch Res : Type}

/-! ## The table -/

structure Keyed (rows : List (BatchRow Bytes Res)) : Prop where
  nodup : (rows.map (·.id)).Nodup
  tokens : ∀ r ∈ rows, ∀ x ∈ rows, ∀ t, r.claimToken = some t → x.claimToken = some t → r = x

/-- Nothing is claimed under the token. -/
def Unclaimed (rows : List (BatchRow Bytes Res)) (t : String) : Prop :=
  ∀ r ∈ rows, r.status = .claimed → r.claimToken ≠ some t

/-- At most this batch is claimed under the token. -/
def ClaimsAtMost (rows : List (BatchRow Bytes Res)) (t : String) (batchId : Int) : Prop :=
  ∀ r ∈ rows, r.status = .claimed → r.claimToken = some t → r.id = batchId

/-- A statement that claims nothing under these tokens. -/
structure TakesNone (drawn : List String) (rows rows' : List (BatchRow Bytes Res)) : Prop where
  keyed : Keyed rows → Keyed rows'
  claims : ∀ r ∈ rows', r.status = .claimed → ∀ t ∈ drawn, r.claimToken = some t → r ∈ rows

theorem TakesNone.refl (drawn : List String) (rows : List (BatchRow Bytes Res)) :
    TakesNone drawn rows rows :=
  ⟨id, fun _ hr _ _ _ _ => hr⟩

section TakesNone

variable {drawn : List String} {rows rows' : List (BatchRow Bytes Res)}

theorem TakesNone.unclaimed (h : TakesNone drawn rows rows') {t : String} (ht : t ∈ drawn)
    (hu : Unclaimed rows t) : Unclaimed rows' t := by
  intro r hr hst htok
  exact hu r (h.claims r hr hst t ht htok) hst htok

theorem TakesNone.claimsAtMost (h : TakesNone drawn rows rows') {t : String} {b : Int}
    (ht : t ∈ drawn) (hc : ClaimsAtMost rows t b) : ClaimsAtMost rows' t b := by
  intro r hr hst htok
  exact hc r (h.claims r hr hst t ht htok) hst htok

/-- Rows rewritten one by one that take no token they did not have. -/
theorem keyed_map (h : Keyed rows) {f : BatchRow Bytes Res → BatchRow Bytes Res}
    (hid : ∀ r ∈ rows, (f r).id = r.id)
    (htok : ∀ r ∈ rows, ∀ t, (f r).claimToken = some t → r.claimToken = some t) :
    Keyed (rows.map f) where
  nodup := by
    rw [ClaimState.map_id_map hid]
    exact h.nodup
  tokens := by
    intro y hy z hz t ht ht'
    obtain ⟨r, hr, rfl⟩ := List.mem_map.1 hy
    obtain ⟨x, hx, rfl⟩ := List.mem_map.1 hz
    rw [h.tokens r hr x hx t (htok r hr t ht) (htok x hx t ht')]

/-- A statement after which a row is as it was, or no longer claimed and with no new token. -/
theorem takesNone_map {f : BatchRow Bytes Res → BatchRow Bytes Res}
    (hid : ∀ r, (f r).id = r.id)
    (hf : ∀ r, f r = r ∨ (f r).status ≠ .claimed ∧
      ∀ t, (f r).claimToken = some t → r.claimToken = some t) :
    TakesNone drawn rows (rows.map f) where
  keyed h := keyed_map h (fun r _ => hid r) fun r _ t ht => by
    rcases hf r with h' | ⟨-, h'⟩
    · rwa [h'] at ht
    · exact h' t ht
  claims := by
    intro y hy hclaimed _ _ _
    obtain ⟨r, hr, rfl⟩ := List.mem_map.1 hy
    rcases hf r with h' | ⟨hst, -⟩
    · rw [h']
      exact hr
    · exact absurd hclaimed hst

theorem takesNone_updateRow {id : Int} {f : BatchRow Bytes Res → BatchRow Bytes Res}
    (hid : ∀ r, (f r).id = r.id) (hst : ∀ r, (f r).status ≠ .claimed)
    (htok : ∀ r, (f r).claimToken = r.claimToken) :
    TakesNone drawn rows (updateRow id f rows) := by
  refine takesNone_map (fun r => ?_) fun r => ?_
  · split
    · exact hid r
    · rfl
  · split
    · exact .inr ⟨hst r, fun t ht => htok r ▸ ht⟩
    · exact .inl rfl

theorem takesNone_submit (batchId : Int) (uuid token : String) (result : Res) :
    TakesNone drawn rows (submitBatchResults batchId uuid token result rows).2 := by
  rcases submitBatchResults_cases batchId uuid token result rows with h | ⟨_, -, -, -, h⟩
  · rw [h]
    exact .refl _ _
  · rw [h]
    exact takesNone_updateRow (fun _ => rfl) (fun r h => by cases h) fun _ => rfl

theorem fail_not_claimed (r : BatchRow Bytes Res) (error : String) (max : Nat) :
    (r.fail error max).status ≠ .claimed := by
  intro h
  simp only [BatchRow.fail] at h
  split at h <;> cases h

theorem takesNone_fail (batchId : Int) (uuid token lastError : String) (max : Nat) :
    TakesNone drawn rows (failBatch batchId uuid token lastError max rows).2 := by
  rcases failBatch_cases batchId uuid token lastError max rows with h | ⟨_, -, -, -, h⟩
  · rw [h]
    exact .refl _ _
  · rw [h]
    exact takesNone_updateRow (fun _ => rfl) (fun r => fail_not_claimed r _ _) fun _ => rfl

theorem reclaim_effect (error : String) (r : BatchRow Bytes Res) :
    (r.reclaim error).status ≠ .claimed ∧
      ∀ t, (r.reclaim error).claimToken = some t → r.claimToken = some t := by
  constructor
  · intro h
    cases h
  · intro t ht
    cases ht

theorem takesNone_releaseUntracked (runId : Int) (uuid : String) (tokens : List String) :
    TakesNone drawn rows (releaseUntrackedClaims runId uuid tokens rows) := by
  refine takesNone_map (fun r => ?_) fun r => ?_
  · split <;> rfl
  · split
    · exact .inr (reclaim_effect _ r)
    · exact .inl rfl

theorem takesNone_reclaimAbandoned (view : NodesView) (runId : Int) :
    TakesNone drawn rows (reclaimAbandonedBatches view runId rows) := by
  refine takesNone_map (fun r => ?_) fun r => ?_
  · split <;> rfl
  · split
    · exact .inr (reclaim_effect _ r)
    · exact .inl rfl

/-- A claim takes a row for its own token only. -/
theorem keyed_claim (h : Keyed rows) {view : NodesView} {uuid token : String}
    {next : BatchRow Bytes Res} (hfree : ∀ x ∈ rows, x.claimToken ≠ some token) :
    Keyed (updateRow next.id (·.claim view uuid token) rows) where
  nodup := by
    unfold updateRow
    rw [ClaimState.map_id_map]
    · exact h.nodup
    · intro r _
      split <;> rfl
  tokens := by
    intro y hy z hz t ht ht'
    obtain ⟨r, hr, rfl⟩ := List.mem_map.1 hy
    obtain ⟨x, hx, rfl⟩ := List.mem_map.1 hz
    suffices hrx : r = x by rw [hrx]
    split at ht <;> rename_i hrid <;> split at ht' <;> rename_i hxid
    · exact ClaimState.eq_of_id h.nodup hr hx (hrid.trans hxid.symm)
    · cases ht
      exact absurd ht' (hfree x hx)
    · cases ht'
      exact absurd ht (hfree r hr)
    · exact h.tokens r hr x hx t ht ht'

theorem takesNone_claim {view : NodesView} {locked : Int → Bool} {runId : Int}
    {uuid token : String} (htok : token ∉ drawn) :
    TakesNone drawn rows (claimBatch view locked runId uuid token rows).2 := by
  rcases claimBatch_cases view locked runId uuid token rows with h | ⟨next, -, -, -, hfree, h⟩
  · rw [h]
    exact .refl _ _
  · rw [h]
    refine ⟨fun hk => keyed_claim hk hfree, ?_⟩
    intro y hy _ t ht hyt
    obtain ⟨r, hr, rfl⟩ := List.mem_map.1 hy
    split at hyt <;> rename_i hid
    · cases hyt
      exact absurd ht htok
    · rw [if_neg hid]
      exact hr

theorem takesNone_insert (runId taskId : Int) (requires : Bool) (createdAt : Nat)
    (batches : List (NewBatch Bytes)) :
    TakesNone drawn rows (insertBatches runId taskId requires createdAt batches rows).2 := by
  unfold insertBatches
  split
  · rename_i hnew
    obtain ⟨hnodup, hfresh⟩ := hnew
    have hperm := foldr_insertRow_perm
      (batches.map (NewBatch.toRow runId taskId requires createdAt)) rows
    have hmem : ∀ r, r ∈ (batches.map (NewBatch.toRow runId taskId requires createdAt)).foldr
        insertRow rows → r ∈ rows ∨ r.claimToken = none := by
      intro r hr
      rcases List.mem_append.1 (hperm.mem_iff.1 hr) with h | h
      · obtain ⟨b, -, rfl⟩ := List.mem_map.1 h
        exact .inr rfl
      · exact .inl h
    constructor
    · intro h
      constructor
      · rw [(hperm.map _).nodup_iff, List.map_append, List.nodup_append]
        refine ⟨by simpa [List.map_map, Function.comp_def, NewBatch.toRow] using hnodup, h.nodup, ?_⟩
        intro a ha b hb hab
        obtain ⟨x, hx, rfl⟩ := List.mem_map.1 ha
        obtain ⟨n, hn, rfl⟩ := List.mem_map.1 hx
        obtain ⟨r, hr, rfl⟩ := List.mem_map.1 hb
        exact hfresh n hn r hr hab.symm
      · intro r hr x hx t ht ht'
        rcases hmem r hr with hr | hr
        · rcases hmem x hx with hx | hx
          · exact h.tokens r hr x hx t ht ht'
          · rw [hx] at ht'
            cases ht'
        · rw [hr] at ht
          cases ht
    · intro r hr _ t _ ht
      rcases hmem r hr with h | h
      · exact h
      · rw [h] at ht
        cases ht
  · exact .refl _ _

theorem takesNone_filter (keep : BatchRow Bytes Res → Bool) :
    TakesNone drawn rows (rows.filter keep) where
  keyed h :=
    ⟨h.nodup.sublist (List.filter_sublist.map _), fun r hr x hx =>
      h.tokens r (List.mem_of_mem_filter hr) x (List.mem_of_mem_filter hx)⟩
  claims _ hr _ _ _ _ := List.mem_of_mem_filter hr

/-- The statements of the other parties. -/
theorem takesNone_exec {statement : OtherStatement Bytes Res}
    (h : ∀ t ∈ statement.token?, t ∉ drawn) : TakesNone drawn rows (statement.exec rows) := by
  cases statement with
  | claim view locked runId uuid token => exact takesNone_claim (h token rfl)
  | submit batchId uuid token result => exact takesNone_submit batchId uuid token result
  | fail batchId uuid token lastError max => exact takesNone_fail batchId uuid token lastError max
  | releaseUntracked runId uuid tokens => exact takesNone_releaseUntracked runId uuid tokens
  | reclaimAbandoned view runId => exact takesNone_reclaimAbandoned view runId
  | insert runId taskId requires createdAt batches =>
    exact takesNone_insert runId taskId requires createdAt batches
  | delete doomed => exact takesNone_filter _

end TakesNone

/-! ## Requests -/

namespace Handle

variable {α : Type}

/-- The reply, also while it is on its way. -/
def reply? : Handle α → Option α
  | .executed (.ok a) | .finished (.ok a) => some a
  | _ => none

/-- Acknowledged, or refused because the ownership is lost. -/
def settled : Handle α → Bool
  | .sent => false
  | .executed reply => ClaimState.settles reply
  | .finished (.ok _) => true
  | .finished (.error (.store e)) => e.isBatchOwnershipLost
  | .finished (.error (.join _)) => false

@[simp] theorem reply?_executed {reply : Except StoreError α} {a : α} :
    (Handle.executed reply).reply? = some a ↔ reply = .ok a := by
  cases reply <;> simp [reply?]

theorem reply?_finish {fault : Option Fault} {h : Handle α} {a : α}
    (ha : (h.finish fault).reply? = some a) : h.reply? = some a := by
  cases h with
  | sent => cases fault <;> cases ha
  | executed reply =>
    cases fault with
    | some f => cases ha
    | none => cases reply <;> exact ha
  | finished outcome => exact ha

theorem settled_finish {fault : Option Fault} {h : Handle α}
    (hs : (h.finish fault).settled = true) : h.settled = true := by
  have hfault : ∀ f : Fault, (.finished (.error f.error) : Handle α).settled ≠ true := by
    intro f hf
    cases he : f.error with
    | store e =>
      rw [he] at hf
      exact absurd (f.notLost e he) (by simpa [settled] using hf)
    | join m =>
      rw [he] at hf
      cases hf
  cases h with
  | sent =>
    cases fault with
    | some f => exact absurd hs (hfault f)
    | none => cases hs
  | executed reply =>
    cases fault with
    | some f => exact absurd hs (hfault f)
    | none => cases reply <;> exact hs
  | finished outcome => exact hs

end Handle

/-! ## What the runner holds -/

namespace EvaluatorRunner

/-- The batches the runner has received and not given up, with their tokens. -/
def holdings (r : EvaluatorRunner Batch Res) : List (Int × String) :=
  r.prefetchBuffer.readyBatch.toList.map (fun c => (c.batchId, c.claimToken))
    ++ r.activeBatch.toList.map (fun a => (a.claim.batchId, a.claim.claimToken))
    ++ r.submitBuffer.submission.toList.map (fun s => (s.batchId, s.claimToken))

theorem mem_holdings {r : EvaluatorRunner Batch Res} {x : Int × String} :
    x ∈ r.holdings ↔
      (∃ c, r.prefetchBuffer.readyBatch = some c ∧ (c.batchId, c.claimToken) = x) ∨
      (∃ a, r.activeBatch = some a ∧ (a.claim.batchId, a.claim.claimToken) = x) ∨
      ∃ s, r.submitBuffer.submission = some s ∧ (s.batchId, s.claimToken) = x := by
  simp [holdings]

theorem trackedTokens_eq (r : EvaluatorRunner Batch Res) :
    r.trackedTokens = r.prefetchBuffer.claimToken.toList ++ r.holdings.map (·.2) := by
  simp [trackedTokens, holdings, Function.comp_def]

theorem holdings_tracked {r : EvaluatorRunner Batch Res} {x : Int × String}
    (hx : x ∈ r.holdings) : x.2 ∈ r.trackedTokens := by
  rw [trackedTokens_eq]
  exact List.mem_append_right _ (List.mem_map_of_mem hx)

theorem mem_trackedTokens {r : EvaluatorRunner Batch Res} {t : String} :
    t ∈ r.trackedTokens ↔ r.prefetchBuffer.claimToken = some t ∨ ∃ x ∈ r.holdings, x.2 = t := by
  simp [trackedTokens_eq, eq_comm]

end EvaluatorRunner

/-- What a reply of `claim_batch` says about the table. -/
def ClaimReply (rows : List (BatchRow Bytes Res)) (token : String) :
    Option (BatchClaim Batch) → Prop
  | none => Unclaimed rows token
  | some c => c.claimToken = token ∧ ClaimsAtMost rows token c.batchId

/-- What each stage of the runner knows of the table. -/
structure Stages (rows : List (BatchRow Bytes Res)) (r : EvaluatorRunner Batch Res) : Prop where
  held : ∀ x ∈ r.holdings, ClaimsAtMost rows x.2 x.1
  prefetch : ∀ task, r.prefetchBuffer.pendingPrefetch = some task →
    r.prefetchBuffer.readyBatch = none ∧ r.prefetchBuffer.claimToken = some task.token ∧
      ∀ reply, task.handle.reply? = some reply → ClaimReply rows task.token reply
  submit : ∀ task, r.submitBuffer.pendingSubmit = some task →
    r.submitBuffer.submission = some task.submission ∧
      (task.handle.settled = true → Unclaimed rows task.submission.claimToken)
  /-- A failure report that was answered has ended the claim. -/
  reported : ∀ claim message outcome,
    r.activeBatch = some ⟨claim, some (.error ⟨message, some outcome⟩)⟩ →
      Unclaimed rows claim.claimToken

structure Tracking (rows : List (BatchRow Bytes Res)) (drawn : List String)
    (r : EvaluatorRunner Batch Res) : Prop where
  keyed : Keyed rows
  tokensDrawn : ∀ t ∈ r.trackedTokens, t ∈ drawn
  distinct : r.trackedTokens.Nodup
  stages : Stages rows r
  covered : ∀ row ∈ rows, row.status = .claimed → ∀ t ∈ drawn, row.claimToken = some t →
    t ∈ r.trackedTokens

namespace Tracking

variable {rows rows' : List (BatchRow Bytes Res)} {drawn : List String}
  {r r' : EvaluatorRunner Batch Res}

theorem claimToken_drawn (h : Tracking rows drawn r) {token : String}
    (ht : r.prefetchBuffer.claimToken = some token) : token ∈ drawn :=
  h.tokensDrawn token (by simp [EvaluatorRunner.trackedTokens, ht])

theorem submission_drawn (h : Tracking rows drawn r) {submission : Submission Res}
    (hs : r.submitBuffer.submission = some submission) : submission.claimToken ∈ drawn :=
  h.tokensDrawn _ (by simp [EvaluatorRunner.trackedTokens, hs])

theorem active_drawn (h : Tracking rows drawn r) {active : ActiveBatch Batch Res}
    (ha : r.activeBatch = some active) : active.claim.claimToken ∈ drawn :=
  h.tokensDrawn _ (by simp [EvaluatorRunner.trackedTokens, ha])

/-- A statement that claims nothing under the runner's tokens. -/
theorem rowsChanged (h : Tracking rows drawn r) (ht : TakesNone drawn rows rows') :
    Tracking rows' drawn r where
  keyed := ht.keyed h.keyed
  tokensDrawn := h.tokensDrawn
  distinct := h.distinct
  stages.held x hx :=
    ht.claimsAtMost (h.tokensDrawn _ (EvaluatorRunner.holdings_tracked hx)) (h.stages.held x hx)
  stages.prefetch task htask := by
    obtain ⟨hready, htoken, hreply⟩ := h.stages.prefetch task htask
    refine ⟨hready, htoken, fun reply hr => ?_⟩
    have hd := h.claimToken_drawn htoken
    have hrep := hreply reply hr
    cases reply with
    | none => exact ht.unclaimed hd hrep
    | some c => exact ⟨hrep.1, ht.claimsAtMost hd hrep.2⟩
  stages.submit task htask := by
    obtain ⟨hsub, hsettled⟩ := h.stages.submit task htask
    exact ⟨hsub, fun hs => ht.unclaimed (h.submission_drawn hsub) (hsettled hs)⟩
  stages.reported claim message outcome ha :=
    ht.unclaimed (h.active_drawn ha) (h.stages.reported claim message outcome ha)
  covered row hrow hst t htd htok :=
    h.covered row (ht.claims row hrow hst t htd htok) hst t htd htok

/-- A new uuid. -/
theorem draw (h : Tracking rows drawn r) {uuid : String}
    (hfree : ∀ row ∈ rows, row.claimToken ≠ some uuid) : Tracking rows (uuid :: drawn) r where
  keyed := h.keyed
  tokensDrawn t ht := List.mem_cons_of_mem _ (h.tokensDrawn t ht)
  distinct := h.distinct
  stages := h.stages
  covered row hrow hst t ht htok := by
    rcases List.mem_cons.1 ht with rfl | ht
    · exact absurd htok (hfree row hrow)
    · exact h.covered row hrow hst t ht htok

/-- The runner moves what it holds from one stage to another. -/
theorem transfer (h : Tracking rows drawn r) (htracked : r'.trackedTokens = r.trackedTokens)
    (hs : Stages rows r') : Tracking rows drawn r' where
  keyed := h.keyed
  tokensDrawn := by rw [htracked]; exact h.tokensDrawn
  distinct := by rw [htracked]; exact h.distinct
  stages := hs
  covered := by rw [htracked]; exact h.covered

/-- The runner forgets a token under which nothing is claimed. -/
theorem forget (h : Tracking rows drawn r) {token : String}
    (htracked : r.trackedTokens.Perm (token :: r'.trackedTokens)) (hfree : Unclaimed rows token)
    (hs : Stages rows r') : Tracking rows drawn r' where
  keyed := h.keyed
  tokensDrawn t ht := h.tokensDrawn t (htracked.mem_iff.2 (List.mem_cons_of_mem _ ht))
  distinct := (List.nodup_cons.1 (htracked.nodup_iff.1 h.distinct)).2
  stages := hs
  covered row hrow hst t ht htok := by
    rcases List.mem_cons.1 (htracked.mem_iff.1 (h.covered row hrow hst t ht htok)) with rfl | hmem
    · exact absurd htok (hfree row hrow hst)
    · exact hmem

/-- The runner starts to track a token it drew. -/
theorem track (h : Tracking rows drawn r) {token : String} (hd : token ∈ drawn)
    (hnew : token ∉ r.trackedTokens) (htracked : r'.trackedTokens = token :: r.trackedTokens)
    (hs : Stages rows r') : Tracking rows drawn r' where
  keyed := h.keyed
  tokensDrawn := by
    rw [htracked]
    exact List.forall_mem_cons.2 ⟨hd, h.tokensDrawn⟩
  distinct := by
    rw [htracked]
    exact List.nodup_cons.2 ⟨hnew, h.distinct⟩
  stages := hs
  covered row hrow hst t ht htok := by
    rw [htracked]
    exact List.mem_cons_of_mem _ (h.covered row hrow hst t ht htok)

/-! ### The prefetch buffer -/

/-- The runner with another prefetch buffer. -/
theorem maybeStartPrefetch (h : Tracking rows drawn r) {uuid : String} (hd : uuid ∈ drawn)
    (hnew : uuid ∉ r.trackedTokens) (draining : Bool) :
    Tracking rows drawn
      { r with prefetchBuffer := r.prefetchBuffer.maybeStartPrefetch uuid draining } := by
  unfold LatentPrefetchBuffer.maybeStartPrefetch
  split
  · exact h
  · rename_i hstart
    simp only [Bool.or_eq_true, not_or, Bool.not_eq_true, Option.isSome_eq_false_iff,
      Option.isNone_iff_eq_none] at hstart
    obtain ⟨⟨hready, -⟩, -⟩ := hstart
    have hstages : ∀ token, Stages rows { r with
        prefetchBuffer := ⟨r.prefetchBuffer.readyBatch, some token, some ⟨token, .sent⟩⟩ } := by
      intro token
      refine ⟨h.stages.held, ?_, h.stages.submit, h.stages.reported⟩
      intro task htask
      cases htask
      exact ⟨hready, rfl, fun reply hr => by cases hr⟩
    cases htok : r.prefetchBuffer.claimToken with
    | some token =>
      refine h.transfer ?_ (hstages token)
      simp [EvaluatorRunner.trackedTokens, htok]
    | none =>
      refine h.track hd hnew ?_ (hstages uuid)
      simp [EvaluatorRunner.trackedTokens, htok]

theorem finishPrefetch (h : Tracking rows drawn r) :
    Tracking rows drawn { r with prefetchBuffer := r.prefetchBuffer.finishPrefetch.2 } := by
  unfold LatentPrefetchBuffer.finishPrefetch
  split
  · rename_i token claimed hpending
    obtain ⟨hready, htoken, hreply⟩ := h.stages.prefetch _ hpending
    have hrep := hreply claimed rfl
    cases claimed with
    | none =>
      refine h.forget ?_ hrep ⟨?_, ?_, h.stages.submit, h.stages.reported⟩
      · simp [EvaluatorRunner.trackedTokens, hready, htoken]
      · intro x hx
        rcases EvaluatorRunner.mem_holdings.1 hx with ⟨c, hc, -⟩ | hx
        · cases hc
        · exact h.stages.held x (EvaluatorRunner.mem_holdings.2 (.inr hx))
      · intro task htask
        cases htask
    | some c =>
      obtain ⟨hc, hatMost⟩ := hrep
      refine h.transfer ?_ ⟨?_, ?_, h.stages.submit, h.stages.reported⟩
      · simp [EvaluatorRunner.trackedTokens, hready, htoken, hc]
      · intro x hx
        rcases EvaluatorRunner.mem_holdings.1 hx with ⟨c', hc', rfl⟩ | hx
        · cases hc'
          exact hc ▸ hatMost
        · exact h.stages.held x (EvaluatorRunner.mem_holdings.2 (.inr hx))
      · intro task htask
        cases htask
  · refine h.transfer rfl ⟨h.stages.held, ?_, h.stages.submit, h.stages.reported⟩
    intro task htask
    cases htask
  · exact h

/-! ### The active batch -/

/-- The ready batch becomes the active one. -/
theorem activate (h : Tracking rows drawn r) {claim : BatchClaim Batch}
    (hready : r.prefetchBuffer.readyBatch = some claim) (hactive : r.activeBatch = none) :
    Tracking rows drawn
      { r with
        prefetchBuffer := { r.prefetchBuffer with readyBatch := none }
        activeBatch := some ⟨claim, none⟩ } := by
  refine h.transfer ?_ ⟨?_, ?_, h.stages.submit, ?_⟩
  · simp [EvaluatorRunner.trackedTokens, hready, hactive]
  · intro x hx
    refine h.stages.held x (EvaluatorRunner.mem_holdings.2 ?_)
    rcases EvaluatorRunner.mem_holdings.1 hx with ⟨c, hc, -⟩ | ⟨a, ha, hx⟩ | hx
    · cases hc
    · cases ha
      exact .inl ⟨claim, hready, hx⟩
    · exact .inr (.inr hx)
  · intro task htask
    rw [(h.stages.prefetch task htask).1] at hready
    cases hready
  · intro _ _ _ ha
    cases ha

/-- The active batch is evaluated, or its failure is answered. -/
theorem setEvaluation (h : Tracking rows drawn r) {active : ActiveBatch Batch Res}
    (hactive : r.activeBatch = some active)
    {evaluation : Option (Except FailedEvaluation (EvaluatedBatch Res))}
    (hev : ∀ message outcome, evaluation = some (.error ⟨message, some outcome⟩) →
      Unclaimed rows active.claim.claimToken) :
    Tracking rows drawn { r with activeBatch := some { active with evaluation } } := by
  refine h.transfer ?_ ⟨?_, h.stages.prefetch, h.stages.submit, ?_⟩
  · simp [EvaluatorRunner.trackedTokens, hactive]
  · intro x hx
    refine h.stages.held x (EvaluatorRunner.mem_holdings.2 ?_)
    rcases EvaluatorRunner.mem_holdings.1 hx with hx | ⟨a, ha, hx⟩ | hx
    · exact .inl hx
    · cases ha
      exact .inr (.inl ⟨active, hactive, hx⟩)
    · exact .inr (.inr hx)
  · intro claim message outcome ha
    cases ha
    exact hev message outcome rfl

/-- The active batch is given up. -/
theorem dropActive (h : Tracking rows drawn r) {active : ActiveBatch Batch Res}
    (hactive : r.activeBatch = some active) (hfree : Unclaimed rows active.claim.claimToken) :
    Tracking rows drawn { r with activeBatch := none } := by
  refine h.forget ?_ hfree ⟨?_, h.stages.prefetch, h.stages.submit, ?_⟩
  · simp only [EvaluatorRunner.trackedTokens, hactive, Option.toList_some, List.map_cons,
      List.map_nil, Option.toList_none, List.append_nil, List.append_assoc, List.singleton_append]
    rw [← List.append_assoc, ← List.append_assoc]
    exact List.perm_middle
  · intro x hx
    refine h.stages.held x (EvaluatorRunner.mem_holdings.2 ?_)
    rcases EvaluatorRunner.mem_holdings.1 hx with hx | ⟨a, ha, -⟩ | hx
    · exact .inl hx
    · cases ha
    · exact .inr (.inr hx)
  · intro _ _ _ ha
    cases ha

/-! ### The submission buffer -/

theorem ensureSubmit (h : Tracking rows drawn r) :
    Tracking rows drawn { r with submitBuffer := r.submitBuffer.ensureSubmit } := by
  unfold ResultSubmitBuffer.ensureSubmit
  split
  · rename_i submission _ hsub
    refine h.transfer rfl ⟨h.stages.held, h.stages.prefetch, ?_, h.stages.reported⟩
    intro task htask
    cases htask
    exact ⟨hsub, fun hs => by cases hs⟩
  · exact h

/-- The submission is given up. -/
theorem dropSubmission (h : Tracking rows drawn r) {submission : Submission Res}
    (hsub : r.submitBuffer.submission = some submission)
    (hfree : Unclaimed rows submission.claimToken) :
    Tracking rows drawn { r with submitBuffer := ⟨none, none⟩ } := by
  refine h.forget ?_ hfree ⟨?_, h.stages.prefetch, ?_, h.stages.reported⟩
  · simp only [EvaluatorRunner.trackedTokens, hsub, Option.toList_some, List.map_cons,
      List.map_nil, Option.toList_none, List.append_nil]
    exact List.perm_append_singleton _ _
  · intro x hx
    refine h.stages.held x (EvaluatorRunner.mem_holdings.2 ?_)
    rcases EvaluatorRunner.mem_holdings.1 hx with hx | hx | ⟨s, hs, -⟩
    · exact .inl hx
    · exact .inr (.inl hx)
    · cases hs
  · intro task htask
    cases htask

theorem waitForSlot (h : Tracking rows drawn r) :
    Tracking rows drawn { r with submitBuffer := r.submitBuffer.waitForSlot.2 } := by
  have hretry : Tracking rows drawn
      { r with submitBuffer := { r.submitBuffer with pendingSubmit := none } } := by
    refine h.transfer rfl ⟨h.stages.held, h.stages.prefetch, ?_, h.stages.reported⟩
    intro task htask
    cases htask
  unfold ResultSubmitBuffer.waitForSlot
  split
  · rename_i hpending
    obtain ⟨hsub, hfree⟩ := h.stages.submit _ hpending
    exact h.dropSubmission hsub (hfree rfl)
  · rename_i e hpending
    obtain ⟨hsub, hfree⟩ := h.stages.submit _ hpending
    split
    · rename_i hlost
      exact h.dropSubmission hsub (hfree hlost)
    · exact hretry
  · exact hretry
  · exact h

/-- The evaluated batch becomes the submission. -/
theorem handOver (h : Tracking rows drawn r) {claim : BatchClaim Batch}
    {evaluated : EvaluatedBatch Res} (hactive : r.activeBatch = some ⟨claim, some (.ok evaluated)⟩)
    (hidle : r.submitBuffer.submission = none) (hpending : r.submitBuffer.pendingSubmit = none) :
    Tracking rows drawn r.handOver.2 := by
  unfold EvaluatorRunner.handOver
  rw [hactive]
  simp only [ResultSubmitBuffer.startSubmit, ResultSubmitBuffer.ensureSubmit, hpending]
  refine h.transfer ?_ ⟨?_, h.stages.prefetch, ?_, ?_⟩
  · simp [EvaluatorRunner.trackedTokens, hactive, hidle]
  · intro x hx
    refine h.stages.held x (EvaluatorRunner.mem_holdings.2 ?_)
    rcases EvaluatorRunner.mem_holdings.1 hx with hx | ⟨a, ha, -⟩ | ⟨s, hs, hx⟩
    · exact .inl hx
    · cases ha
    · cases hs
      exact .inr (.inl ⟨_, hactive, hx⟩)
  · intro task htask
    cases htask
    exact ⟨rfl, fun hs => by cases hs⟩
  · intro _ _ _ ha
    cases ha

/-- Counters and flags are no part of it. -/
theorem observeEvalBatch (h : Tracking rows drawn r) (outcome : SubmitOutcome) :
    Tracking rows drawn (r.observeEvalBatch outcome) :=
  h.transfer rfl ⟨h.stages.held, h.stages.prefetch, h.stages.submit, h.stages.reported⟩

end Tracking

end Gammaboard.Runners
