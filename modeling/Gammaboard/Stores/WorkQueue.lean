import Gammaboard.Core.Errors
import Mathlib.Data.List.Forall2
import Mathlib.Data.List.Sort

/-!
# The work queue tables

`stores/queries/work_queue.rs`: the `batches` table with its `batch_inputs` and
`batch_results`, as the list of its rows in primary-key order, and the
statements evaluators and samplers run on it. A row keeps the input bytes and
the accepted result next to its own columns. Each statement is one transaction;
`NodesView` is what it sees of the `nodes` table and of `now()`.
-/

namespace Gammaboard.Stores

open Gammaboard.Core

inductive BatchStatus where
  | pending
  | claimed
  | completed
  | failed
  deriving DecidableEq, Repr

structure BatchRow (In Res : Type) where
  id : Int
  runId : Int
  taskId : Int
  requiresTrainingValues : Bool
  batchSize : Nat
  input : In
  status : BatchStatus
  claimedByNodeName : Option String
  claimedByNodeUuid : Option String
  claimToken : Option String
  createdAt : Nat
  retryCount : Nat
  lastError : Option String
  /-- The row of `batch_results`, if there is one. -/
  result : Option Res
  deriving DecidableEq, Repr

inductive WorkerRole where
  | evaluator
  | samplerAggregator
  deriving DecidableEq, Repr

/-- The columns of `nodes` the queue statements read. -/
structure NodeRow where
  name : String
  uuid : String
  activeRunId : Option Int
  activeRole : Option WorkerRole
  leaseExpiresAt : Nat
  deriving DecidableEq, Repr

structure NodesView where
  nodes : List NodeRow
  now : Nat
  deriving DecidableEq, Repr

namespace NodesView

/-- A live evaluator of the run with this uuid. -/
def evaluator (v : NodesView) (runId : Int) (uuid : String) : Bool :=
  v.nodes.any fun n =>
    n.uuid == uuid && n.activeRunId == some runId && n.activeRole == some .evaluator
      && decide (v.now < n.leaseExpiresAt)

/-- A live evaluator of the run under the name and uuid a claim recorded. -/
def claimant (v : NodesView) (runId : Int) (name uuid : Option String) : Bool :=
  v.nodes.any fun n =>
    name == some n.name && uuid == some n.uuid && n.activeRunId == some runId
      && n.activeRole == some .evaluator && decide (v.now < n.leaseExpiresAt)

def nameOf (v : NodesView) (uuid : String) : Option String :=
  (v.nodes.find? (·.uuid == uuid)).map (·.name)

end NodesView

variable {In Res : Type}

namespace BatchRow

/-- The row is held by this node and token. -/
def heldBy (r : BatchRow In Res) (uuid token : String) : Bool :=
  r.claimedByNodeUuid == some uuid && r.claimToken == some token

/-- `status='claimed'` and held by this node and token. -/
def claimedBy (r : BatchRow In Res) (uuid token : String) : Bool :=
  r.status == .claimed && r.heldBy uuid token

def claim (v : NodesView) (uuid token : String) (r : BatchRow In Res) : BatchRow In Res :=
  { r with
    status := .claimed, claimedByNodeName := v.nameOf uuid, claimedByNodeUuid := some uuid,
    claimToken := some token }

/-- Back to `pending`, forgetting the claim. -/
def release (r : BatchRow In Res) : BatchRow In Res :=
  { r with
    status := .pending, claimedByNodeName := none, claimedByNodeUuid := none, claimToken := none }

/-- `release`, charged as a retry. -/
def reclaim (error : String) (r : BatchRow In Res) : BatchRow In Res :=
  { r.release with retryCount := r.retryCount + 1, lastError := some error }

def complete (result : Res) (r : BatchRow In Res) : BatchRow In Res :=
  { r with status := .completed, result := some result }

/-- One more retry; the token and owner stay until the next claim. -/
def fail (error : String) (maxBatchRetries : Nat) (r : BatchRow In Res) : BatchRow In Res :=
  { r with
    status := if maxBatchRetries ≤ r.retryCount + 1 then .failed else .pending,
    retryCount := r.retryCount + 1, lastError := some error }

end BatchRow

/-! ## Evaluator statements -/

/-- What `claim_batch` selects of a claimed row. -/
structure ClaimedBatch (In : Type) where
  batchId : Int
  taskId : Int
  requiresTrainingValues : Bool
  input : In
  deriving DecidableEq, Repr

def BatchRow.toClaimed (r : BatchRow In Res) : ClaimedBatch In :=
  ⟨r.id, r.taskId, r.requiresTrainingValues, r.input⟩

/-- `ORDER BY created_at, id LIMIT 1`. -/
def earliest (rows : List (BatchRow In Res)) : Option (BatchRow In Res) :=
  rows.foldr (fun r best =>
    match best with
    | none => some r
    | some b => if r.createdAt < b.createdAt ∨ r.createdAt = b.createdAt ∧ r.id < b.id then some r
        else some b) none

/-- The row the `next_batch` part of `claim_batch` selects; `locked` rows are skipped. -/
def nextBatch (v : NodesView) (locked : Int → Bool) (runId : Int) (uuid token : String)
    (rows : List (BatchRow In Res)) : Option (BatchRow In Res) :=
  if rows.any (·.claimToken == some token) ∨ v.evaluator runId uuid = false then none
  else earliest (rows.filter fun r => r.runId == runId && r.status == .pending && !locked r.id)

/-- Rewrite the rows with this id. -/
def updateRow (id : Int) (f : BatchRow In Res → BatchRow In Res) (rows : List (BatchRow In Res)) :
    List (BatchRow In Res) :=
  rows.map fun r => if r.id = id then f r else r

/-- `claim_batch`: the rows this token already holds, or one fresh pending row. -/
def claimBatch (v : NodesView) (locked : Int → Bool) (runId : Int) (uuid token : String)
    (rows : List (BatchRow In Res)) : List (ClaimedBatch In) × List (BatchRow In Res) :=
  let existing := rows.filter fun r => r.runId == runId && r.claimedBy uuid token
  match nextBatch v locked runId uuid token rows with
  | none => (existing.map (·.toClaimed), rows)
  | some next =>
    (existing.map (·.toClaimed) ++ [next.toClaimed], updateRow next.id (·.claim v uuid token) rows)

/-- `release_claimed_batches_for_worker`. -/
def releaseClaimedBatchesForWorker (runId : Int) (uuid : String) (rows : List (BatchRow In Res)) :
    List (BatchRow In Res) :=
  rows.map fun r =>
    if r.runId = runId ∧ r.status = .claimed ∧ r.claimedByNodeUuid = some uuid then r.release else r

/-- `release_untracked_claims`. -/
def releaseUntrackedClaims (runId : Int) (uuid : String) (trackedTokens : List String)
    (rows : List (BatchRow In Res)) : List (BatchRow In Res) :=
  rows.map fun r =>
    if r.runId = runId ∧ r.claimedByNodeUuid = some uuid ∧ r.status = .claimed ∧
        (∀ t, r.claimToken = some t → t ∉ trackedTokens) then
      r.reclaim "untracked evaluator claim reclaimed"
    else r

/-- `reclaim_abandoned_batches`. -/
def reclaimAbandonedBatches (v : NodesView) (runId : Int) (rows : List (BatchRow In Res)) :
    List (BatchRow In Res) :=
  rows.map fun r =>
    if r.runId = runId ∧ r.status = .claimed ∧
        v.claimant r.runId r.claimedByNodeName r.claimedByNodeUuid = false then
      r.reclaim "abandoned evaluator claim reclaimed"
    else r

/-- The row a submission or failure report names, locked by id, owner and token. -/
def ownedRow (batchId : Int) (uuid token : String) (rows : List (BatchRow In Res)) :
    Option (BatchRow In Res) :=
  rows.find? fun r => r.id == batchId && r.heldBy uuid token

/-- `submit_batch_results`, after the payload passed `validate_json_safe`. -/
def submitBatchResults (batchId : Int) (uuid token : String) (result : Res)
    (rows : List (BatchRow In Res)) : Except StoreError Unit × List (BatchRow In Res) :=
  match ownedRow batchId uuid token rows with
  | none => (.error (.batchOwnershipLost batchId uuid), rows)
  | some r =>
    match r.status with
    | .completed =>
      -- a repeated submission is acknowledged and never replaces the accepted result
      if r.result.isSome then (.ok (), rows)
      else (.error (.store ("completed batch " ++ toString batchId ++ " has no result")), rows)
    | .claimed => (.ok (), updateRow batchId (·.complete result) rows)
    | _ => (.error (.batchOwnershipLost batchId uuid), rows)

inductive BatchFailOutcome where
  | requeued (taskId : Int) (retryCount : Nat)
  | permanentlyFailed (taskId : Int) (retryCount : Nat)
  deriving DecidableEq, Repr

def BatchRow.failOutcome (r : BatchRow In Res) : BatchFailOutcome :=
  if r.status = .failed then .permanentlyFailed r.taskId r.retryCount
  else .requeued r.taskId r.retryCount

/-- `fail_batch`. -/
def failBatch (batchId : Int) (uuid token lastError : String) (maxBatchRetries : Nat)
    (rows : List (BatchRow In Res)) :
    Except StoreError BatchFailOutcome × List (BatchRow In Res) :=
  match ownedRow batchId uuid token rows with
  | none => (.error (.batchOwnershipLost batchId uuid), rows)
  | some r =>
    match r.status with
    | .claimed =>
      (.ok (r.fail lastError maxBatchRetries).failOutcome,
        updateRow batchId (·.fail lastError maxBatchRetries) rows)
    | .completed => (.error (.batchOwnershipLost batchId uuid), rows)
    | _ => (.ok r.failOutcome, rows)

/-! ## Sampler statements -/

/-- One batch of an insert bundle: its id, its sample count and its encoded input. -/
structure NewBatch (In : Type) where
  id : Int
  batchSize : Nat
  input : In
  deriving DecidableEq, Repr

def NewBatch.toRow (runId taskId : Int) (requiresTrainingValues : Bool) (createdAt : Nat)
    (b : NewBatch In) : BatchRow In Res :=
  { id := b.id, runId, taskId, requiresTrainingValues, batchSize := b.batchSize, input := b.input
    status := .pending, claimedByNodeName := none, claimedByNodeUuid := none, claimToken := none
    createdAt, retryCount := 0, lastError := none, result := none }

/-- Insert a row at its place in primary-key order. -/
def insertRow (r : BatchRow In Res) (rows : List (BatchRow In Res)) : List (BatchRow In Res) :=
  rows.orderedInsert (fun a b => a.id ≤ b.id) r

/-- `insert_batches`: all rows of the bundle, or a unique violation and none of them. -/
def insertBatches (runId taskId : Int) (requiresTrainingValues : Bool) (createdAt : Nat)
    (batches : List (NewBatch In)) (rows : List (BatchRow In Res)) :
    Except StoreError Unit × List (BatchRow In Res) :=
  if (batches.map (·.id)).Nodup ∧ ∀ b ∈ batches, ∀ r ∈ rows, r.id ≠ b.id then
    (.ok (),
      (batches.map (·.toRow runId taskId requiresTrainingValues createdAt)).foldr insertRow rows)
  else (.error (.database "duplicate key value violates unique constraint \"batches_pkey\""), rows)

/-- The `BatchQueueCounts` of `core/models.rs`. -/
structure BatchQueueCounts where
  pending : Int
  claimed : Int
  completed : Int
  failed : Int
  deriving DecidableEq, Repr

/-- Pending, claimed and completed work; failed batches are not open. -/
def BatchQueueCounts.openCount (c : BatchQueueCounts) : Int := c.pending + c.claimed + c.completed

/-- `get_batch_queue_counts` of a task. -/
def getBatchQueueCounts (runId taskId : Int) (completedAfter : Option Int)
    (rows : List (BatchRow In Res)) : BatchQueueCounts :=
  let rows := rows.filter fun r => r.runId == runId && r.taskId == taskId
  { pending := rows.countP (·.status == .pending)
    claimed := rows.countP (·.status == .claimed)
    completed := rows.countP fun r => r.status == .completed && decide (completedAfter.getD 0 < r.id)
    failed := rows.countP (·.status == .failed) }

/-- A row of `fetch_completed_batches`, joined with its result and decoded. -/
structure CompletedBatch (Res : Type) where
  batchId : Int
  taskId : Int
  requiresTrainingValues : Bool
  batchSize : Nat
  result : Res
  deriving DecidableEq, Repr

def BatchRow.toCompleted (r : BatchRow In Res) : Option (CompletedBatch Res) :=
  r.result.map fun result => ⟨r.id, r.taskId, r.requiresTrainingValues, r.batchSize, result⟩

/-- `fetch_completed_batches` with strict ordering: of the first `limit` rows after the cursor,
the completed ones before the first row that is not. -/
def fetchCompletedBatches (runId taskId : Int) (limit : Nat) (afterBatchId : Option Int)
    (rows : List (BatchRow In Res)) : List (CompletedBatch Res) :=
  let candidates := (rows.filter fun r =>
    r.runId == runId && decide (afterBatchId.getD 0 < r.id) && r.taskId == taskId).take limit
  let firstIncomplete := ((candidates.filter (·.status != .completed)).map (·.id)).min?
  let completedPrefix := candidates.filter fun r =>
    r.status == .completed && firstIncomplete.all fun first => decide (r.id < first)
  completedPrefix.filterMap (·.toCompleted)

/-- The queue part of the run's saved checkpoint, as `cleanup_consumed_completed_batches`
reads it. -/
structure SavedCursors where
  lastCompletedBatchId : Option Int
  lastProducedBatchId : Option Int
  deriving DecidableEq, Repr

/-- Rows the saved checkpoint does not need: consumed before it or discarded by a recovery. -/
def SavedCursors.spares (c : SavedCursors) (id : Int) : Bool :=
  c.lastCompletedBatchId.any (fun lc => decide (id ≤ lc))
    || decide (c.lastProducedBatchId.getD 0 < id)

/-- The rows `cleanup_consumed_completed_batches` may delete. -/
def cleanupCandidate (runId : Int) (upToBatchId : Int) (saved : Option SavedCursors)
    (r : BatchRow In Res) : Bool :=
  r.runId == runId && r.status == .completed && r.retryCount == 0 && decide (r.id ≤ upToBatchId)
    && saved.any (·.spares r.id)

/-- `cleanup_consumed_completed_batches`. -/
def cleanupConsumedCompletedBatches (runId : Int) (upToBatchId : Int) (limit : Nat)
    (saved : Option SavedCursors) (rows : List (BatchRow In Res)) : List (BatchRow In Res) :=
  if upToBatchId ≤ 0 ∨ limit = 0 then rows
  else
    let doomed := ((rows.filter (cleanupCandidate runId upToBatchId saved)).take limit).map (·.id)
    rows.filter fun r => !doomed.contains r.id

/-! ## What the statements change

Every evaluator statement rewrites rows in place. `RowChange` lists what can happen to one
row, and `Touched` to the table.
-/

namespace BatchRow

/-- The two rows are one batch: the columns set by the insert agree. -/
structure SameBatch (r s : BatchRow In Res) : Prop where
  id : s.id = r.id
  runId : s.runId = r.runId
  taskId : s.taskId = r.taskId
  requiresTrainingValues : s.requiresTrainingValues = r.requiresTrainingValues
  batchSize : s.batchSize = r.batchSize
  input : s.input = r.input

theorem SameBatch.refl (r : BatchRow In Res) : SameBatch r r := ⟨rfl, rfl, rfl, rfl, rfl, rfl⟩

theorem SameBatch.trans {r s t : BatchRow In Res} (h : SameBatch r s) (h' : SameBatch s t) :
    SameBatch r t :=
  ⟨h'.id.trans h.id, h'.runId.trans h.runId, h'.taskId.trans h.taskId,
    h'.requiresTrainingValues.trans h.requiresTrainingValues, h'.batchSize.trans h.batchSize,
    h'.input.trans h.input⟩

theorem SameBatch.toClaimed {r s : BatchRow In Res} (h : SameBatch r s) :
    s.toClaimed = r.toClaimed := by
  simp only [BatchRow.toClaimed, h.id, h.taskId, h.requiresTrainingValues, h.input]

end BatchRow

/-- One statement's effect on one row. `accept` says which results a submission may carry. -/
inductive RowChange (accept : BatchRow In Res → Res → Prop) (r : BatchRow In Res) :
    BatchRow In Res → Prop where
  | same : RowChange accept r r
  | claim (v : NodesView) (uuid token : String) (h : r.status = .pending) :
      RowChange accept r (r.claim v uuid token)
  | release (h : r.status = .claimed) : RowChange accept r r.release
  | reclaim (error : String) (h : r.status = .claimed) : RowChange accept r (r.reclaim error)
  | complete (result : Res) (h : r.status = .claimed) (ha : accept r result) :
      RowChange accept r (r.complete result)
  | fail (error : String) (maxBatchRetries : Nat) (h : r.status = .claimed) :
      RowChange accept r (r.fail error maxBatchRetries)

/-- The rows of the table after a statement, row by row. -/
def Touched (accept : BatchRow In Res → Res → Prop) (rows rows' : List (BatchRow In Res)) : Prop :=
  List.Forall₂ (RowChange accept) rows rows'

namespace RowChange

variable {accept : BatchRow In Res → Res → Prop} {r s : BatchRow In Res}

theorem sameBatch (h : RowChange accept r s) : r.SameBatch s := by
  cases h <;> exact ⟨rfl, rfl, rfl, rfl, rfl, rfl⟩

/-- A completed row never changes. -/
theorem eq_of_completed (h : RowChange accept r s) (hr : r.status = .completed) : s = r := by
  cases h with
  | same => rfl
  | claim _ _ _ h | release h | reclaim _ h | complete _ h _ | fail _ _ h =>
    rw [hr] at h
    cases h

/-- A row completes by an accepted submission. -/
theorem completed (h : RowChange accept r s) (hs : s.status = .completed) :
    s = r ∨ ∃ result, s = r.complete result ∧ accept r result := by
  cases h with
  | same => exact .inl rfl
  | complete result _ ha => exact .inr ⟨result, rfl, ha⟩
  | claim _ _ _ _ | release _ | reclaim _ _ => cases hs
  | fail error max h =>
    simp only [BatchRow.fail] at hs
    split at hs <;> cases hs

end RowChange

theorem earliest_mem {rows : List (BatchRow In Res)} {r : BatchRow In Res}
    (h : earliest rows = some r) : r ∈ rows := by
  induction rows generalizing r with
  | nil => cases h
  | cons x rows ih =>
    unfold earliest at h ih
    rw [List.foldr_cons] at h
    split at h
    · cases h
      exact List.mem_cons_self
    · rename_i b hb
      split at h
      · cases h
        exact List.mem_cons_self
      · cases h
        exact List.mem_cons_of_mem _ (ih hb)

/-- A fresh claim takes a pending row of the run, and only when no row carries the token. -/
theorem nextBatch_some {v : NodesView} {locked : Int → Bool} {runId : Int} {uuid token : String}
    {rows : List (BatchRow In Res)} {r : BatchRow In Res}
    (h : nextBatch v locked runId uuid token rows = some r) :
    r ∈ rows ∧ r.status = .pending ∧ r.runId = runId ∧ ∀ x ∈ rows, x.claimToken ≠ some token := by
  unfold nextBatch at h
  split at h
  · cases h
  · rename_i hfree
    have hmem := List.mem_filter.1 (earliest_mem h)
    simp only [Bool.and_eq_true, beq_iff_eq] at hmem
    refine ⟨hmem.1, hmem.2.1.2, hmem.2.1.1, fun x hx htok => hfree (.inl ?_)⟩
    exact List.any_eq_true.2 ⟨x, hx, by simp [htok]⟩

/-- `claim_batch` either leaves the table or claims one pending row. -/
theorem claimBatch_cases (v : NodesView) (locked : Int → Bool) (runId : Int) (uuid token : String)
    (rows : List (BatchRow In Res)) :
    (claimBatch v locked runId uuid token rows =
        ((rows.filter fun r => r.runId == runId && r.claimedBy uuid token).map (·.toClaimed), rows)) ∨
      ∃ next ∈ rows, next.status = .pending ∧ next.runId = runId ∧
        (∀ x ∈ rows, x.claimToken ≠ some token) ∧
        claimBatch v locked runId uuid token rows =
          ([next.toClaimed], updateRow next.id (·.claim v uuid token) rows) := by
  unfold claimBatch
  split
  · exact .inl rfl
  · rename_i next hnext
    obtain ⟨hmem, hpending, hrun, hfree⟩ := nextBatch_some hnext
    refine .inr ⟨next, hmem, hpending, hrun, hfree, ?_⟩
    have hnone : (rows.filter fun r => r.runId == runId && r.claimedBy uuid token) = [] := by
      refine List.filter_eq_nil_iff.2 fun x hx => ?_
      simp [BatchRow.claimedBy, BatchRow.heldBy, hfree x hx]
    simp [hnone]

theorem ownedRow_some {batchId : Int} {uuid token : String} {rows : List (BatchRow In Res)}
    {r : BatchRow In Res} (h : ownedRow batchId uuid token rows = some r) :
    r ∈ rows ∧ r.id = batchId ∧ r.heldBy uuid token = true := by
  have hp := List.find?_some h
  simp only [Bool.and_eq_true, beq_iff_eq] at hp
  exact ⟨List.mem_of_find?_eq_some h, hp.1, hp.2⟩

/-- `submit_batch_results` either leaves the table or completes the row its node and token
currently claim. -/
theorem submitBatchResults_cases (batchId : Int) (uuid token : String) (result : Res)
    (rows : List (BatchRow In Res)) :
    (submitBatchResults batchId uuid token result rows).2 = rows ∨
      ∃ r ∈ rows, r.id = batchId ∧ r.claimedBy uuid token = true ∧
        submitBatchResults batchId uuid token result rows =
          (.ok (), updateRow batchId (·.complete result) rows) := by
  unfold submitBatchResults
  split
  · exact .inl rfl
  · rename_i r hr
    obtain ⟨hmem, hid, hheld⟩ := ownedRow_some hr
    split
    · split <;> exact .inl rfl
    · rename_i hs
      exact .inr ⟨r, hmem, hid, by simp [BatchRow.claimedBy, hs, hheld], rfl⟩
    · exact .inl rfl

/-- `fail_batch` either leaves the table or charges the row its node and token currently
claim. -/
theorem failBatch_cases (batchId : Int) (uuid token lastError : String) (maxBatchRetries : Nat)
    (rows : List (BatchRow In Res)) :
    (failBatch batchId uuid token lastError maxBatchRetries rows).2 = rows ∨
      ∃ r ∈ rows, r.id = batchId ∧ r.claimedBy uuid token = true ∧
        (failBatch batchId uuid token lastError maxBatchRetries rows).2 =
          updateRow batchId (·.fail lastError maxBatchRetries) rows := by
  unfold failBatch
  split
  · exact .inl rfl
  · rename_i r hr
    obtain ⟨hmem, hid, hheld⟩ := ownedRow_some hr
    split
    · rename_i hs
      exact .inr ⟨r, hmem, hid, by simp [BatchRow.claimedBy, hs, hheld], rfl⟩
    · exact .inl rfl
    · exact .inl rfl

theorem Touched.refl (accept : BatchRow In Res → Res → Prop) (rows : List (BatchRow In Res)) :
    Touched accept rows rows :=
  List.forall₂_same.2 fun _ _ => .same

/-- A statement that rewrites rows one by one. -/
theorem touched_map {accept : BatchRow In Res → Res → Prop} {rows : List (BatchRow In Res)}
    {f : BatchRow In Res → BatchRow In Res} (h : ∀ r ∈ rows, RowChange accept r (f r)) :
    Touched accept rows (rows.map f) := by
  unfold Touched
  rw [List.forall₂_map_right_iff, List.forall₂_same]
  exact h

theorem touched_updateRow {accept : BatchRow In Res → Res → Prop} {rows : List (BatchRow In Res)}
    {id : Int} {f : BatchRow In Res → BatchRow In Res}
    (h : ∀ r ∈ rows, r.id = id → RowChange accept r (f r)) :
    Touched accept rows (updateRow id f rows) := by
  refine touched_map fun r hr => ?_
  split
  · exact h r hr ‹_›
  · exact .same

theorem touched_claimBatch {accept : BatchRow In Res → Res → Prop} (v : NodesView)
    (locked : Int → Bool) (runId : Int) (uuid token : String) {rows : List (BatchRow In Res)}
    (hn : (rows.map (·.id)).Nodup) :
    Touched accept rows (claimBatch v locked runId uuid token rows).2 := by
  rcases claimBatch_cases v locked runId uuid token rows with heq | ⟨next, hmem, hst, -, -, heq⟩
  · rw [heq]
    exact .refl _ _
  · rw [heq]
    refine touched_updateRow fun r hr hid => ?_
    rw [List.inj_on_of_nodup_map hn hr hmem hid]
    exact .claim v uuid token hst

/-- A submission completes the row it names, if `accept` allows the result there. -/
theorem touched_submitBatchResults {accept : BatchRow In Res → Res → Prop} (batchId : Int)
    (uuid token : String) (result : Res) {rows : List (BatchRow In Res)}
    (hn : (rows.map (·.id)).Nodup) (ha : ∀ r ∈ rows, r.id = batchId → accept r result) :
    Touched accept rows (submitBatchResults batchId uuid token result rows).2 := by
  rcases submitBatchResults_cases batchId uuid token result rows with heq | ⟨x, hx, hid, hc, heq⟩
  · rw [heq]
    exact .refl _ _
  · rw [heq]
    refine touched_updateRow fun r hr hrid => ?_
    have hst : r.status = .claimed := by
      rw [List.inj_on_of_nodup_map hn hr hx (hrid.trans hid.symm)]
      simp only [BatchRow.claimedBy, Bool.and_eq_true, beq_iff_eq] at hc
      exact hc.1
    exact .complete result hst (ha r hr hrid)

theorem touched_failBatch {accept : BatchRow In Res → Res → Prop} (batchId : Int)
    (uuid token lastError : String) (max : Nat) {rows : List (BatchRow In Res)}
    (hn : (rows.map (·.id)).Nodup) :
    Touched accept rows (failBatch batchId uuid token lastError max rows).2 := by
  rcases failBatch_cases batchId uuid token lastError max rows with heq | ⟨x, hx, hid, hc, heq⟩
  · rw [heq]
    exact .refl _ _
  · rw [heq]
    refine touched_updateRow fun r hr hrid => ?_
    have hst : r.status = .claimed := by
      rw [List.inj_on_of_nodup_map hn hr hx (hrid.trans hid.symm)]
      simp only [BatchRow.claimedBy, Bool.and_eq_true, beq_iff_eq] at hc
      exact hc.1
    exact .fail lastError max hst

theorem touched_releaseClaimedBatchesForWorker {accept : BatchRow In Res → Res → Prop}
    (runId : Int) (uuid : String) (rows : List (BatchRow In Res)) :
    Touched accept rows (releaseClaimedBatchesForWorker runId uuid rows) := by
  refine touched_map fun r _ => ?_
  split
  · rename_i hc
    exact .release hc.2.1
  · exact .same

theorem touched_releaseUntrackedClaims {accept : BatchRow In Res → Res → Prop} (runId : Int)
    (uuid : String) (trackedTokens : List String) (rows : List (BatchRow In Res)) :
    Touched accept rows (releaseUntrackedClaims runId uuid trackedTokens rows) := by
  refine touched_map fun r _ => ?_
  split
  · rename_i hc
    exact .reclaim _ hc.2.2.1
  · exact .same

theorem touched_reclaimAbandonedBatches {accept : BatchRow In Res → Res → Prop} (v : NodesView)
    (runId : Int) (rows : List (BatchRow In Res)) :
    Touched accept rows (reclaimAbandonedBatches v runId rows) := by
  refine touched_map fun r _ => ?_
  split
  · rename_i hc
    exact .reclaim _ hc.2.1
  · exact .same

/-- Every row is still there after the statement, changed as `RowChange` says. -/
theorem Touched.forward {accept : BatchRow In Res → Res → Prop} {rows rows' : List (BatchRow In Res)}
    (h : Touched accept rows rows') {r : BatchRow In Res} (hr : r ∈ rows) :
    ∃ r' ∈ rows', RowChange accept r r' := by
  induction h with
  | nil => cases hr
  | cons hx _ ih =>
    rcases List.mem_cons.1 hr with rfl | hr
    · exact ⟨_, List.mem_cons_self, hx⟩
    · obtain ⟨r', hr', hc⟩ := ih hr
      exact ⟨r', List.mem_cons_of_mem _ hr', hc⟩

/-- Every row after the statement was there before it. -/
theorem Touched.backward {accept : BatchRow In Res → Res → Prop}
    {rows rows' : List (BatchRow In Res)} (h : Touched accept rows rows') {r' : BatchRow In Res}
    (hr : r' ∈ rows') : ∃ r ∈ rows, RowChange accept r r' := by
  induction h with
  | nil => cases hr
  | cons hx _ ih =>
    rcases List.mem_cons.1 hr with rfl | hr
    · exact ⟨_, List.mem_cons_self, hx⟩
    · obtain ⟨r, hr, hc⟩ := ih hr
      exact ⟨r, List.mem_cons_of_mem _ hr, hc⟩

theorem Touched.map_id {accept : BatchRow In Res → Res → Prop} {rows rows' : List (BatchRow In Res)}
    (h : Touched accept rows rows') : rows'.map (·.id) = rows.map (·.id) := by
  induction h with
  | nil => rfl
  | cons hx _ ih => simp [ih, hx.sameBatch.id]

theorem foldr_insertRow_perm (new rows : List (BatchRow In Res)) :
    (new.foldr insertRow rows).Perm (new ++ rows) := by
  induction new with
  | nil => exact .refl _
  | cons r new ih => exact (List.perm_orderedInsert _ _ _).trans (ih.cons r)

end Gammaboard.Stores
