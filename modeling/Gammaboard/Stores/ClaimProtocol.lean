import Gammaboard.Lib.Run
import Gammaboard.Stores.WorkQueue
import Mathlib.Data.List.Find
import Mathlib.Tactic.IntervalCases

/-!
# The batch claim protocol

Evaluators talk to the queue through claim tokens. An evaluator draws a fresh
token for each claim and repeats the claim until a reply arrives
(`runners/evaluator.rs`, `maybe_start_prefetch` and `finish_prefetch`); it then
repeats the submission or the failure report of the batch it was given until
that is answered. Every request may be executed with its reply lost, and
reclamation, releases and inserts happen in between. The state keeps two
histories that the code does not have: the results accepted and the retries
charged by failure reports.
-/

namespace Gammaboard.Stores

open Gammaboard.Core Gammaboard.Lib

/-- What the owner of a claim token remembers. -/
inductive Session where
  | unused
  | claiming (uuid : String)
  | holding (uuid : String) (batchId : Int)
  | closed
  deriving DecidableEq, Repr

/-- A result the queue accepted, with the node and token that submitted it. -/
structure Accepted (Res : Type) where
  batchId : Int
  uuid : String
  token : String
  result : Res
  deriving DecidableEq, Repr

/-- A retry charged by a failure report. -/
structure Charged where
  batchId : Int
  token : String
  deriving DecidableEq, Repr

structure ClaimState (In Res : Type) where
  rows : List (BatchRow In Res)
  sessions : String → Session
  accepted : List (Accepted Res)
  charged : List Charged

/-- One executed request; `arrives` says whether the reply reaches the requester. -/
inductive ClaimRequest (In Res : Type) where
  | openToken (token uuid : String)
  | claim (token : String) (view : NodesView) (locked : Int → Bool) (runId : Int) (arrives : Bool)
  | submit (token : String) (result : Res) (arrives : Bool)
  | failBatch (token lastError : String) (maxBatchRetries : Nat) (arrives : Bool)
  | releaseUntracked (runId : Int) (uuid : String) (trackedTokens : List String)
  | releaseWorker (runId : Int) (uuid : String)
  | reclaimAbandoned (view : NodesView) (runId : Int)
  | insert (runId taskId : Int) (requiresTrainingValues : Bool) (createdAt : Nat)
      (batches : List (NewBatch In))
  | abandon (token : String)

namespace ClaimState

variable {In Res : Type}

def init : ClaimState In Res := ⟨[], fun _ => .unused, [], []⟩

def setSession (s : ClaimState In Res) (token : String) (x : Session) : String → Session :=
  fun t => if t = token then x else s.sessions t

/-- The row of a batch. -/
def rowOf (rows : List (BatchRow In Res)) (batchId : Int) : Option (BatchRow In Res) :=
  rows.find? fun r => r.id == batchId

/-- The batch completed between the two tables. -/
def completesIn (batchId : Int) (rows rows' : List (BatchRow In Res)) : Bool :=
  ((rowOf rows batchId).map (·.status) != some .completed)
    && ((rowOf rows' batchId).map (·.status) == some .completed)

/-- The batch's retry count rose between the two tables. -/
def chargedIn (batchId : Int) (rows rows' : List (BatchRow In Res)) : Bool :=
  (rowOf rows batchId).map (·.retryCount) != (rowOf rows' batchId).map (·.retryCount)

/-- An acknowledgement or a lost claim ends the session; other errors are retried. -/
def settles {α : Type} : Except StoreError α → Bool
  | .ok _ => true
  | .error e => e.isBatchOwnershipLost

def step (s : ClaimState In Res) : ClaimRequest In Res → ClaimState In Res
  | .openToken token uuid =>
    match s.sessions token with
    | .unused => { s with sessions := s.setSession token (.claiming uuid) }
    | _ => s
  | .claim token view locked runId arrives =>
    match s.sessions token with
    | .claiming uuid =>
      let (reply, rows) := claimBatch view locked runId uuid token s.rows
      let next := match reply.head? with
        | some c => .holding uuid c.batchId
        | none => .closed
      { s with rows, sessions := if arrives then s.setSession token next else s.sessions }
    | _ => s
  | .submit token result arrives =>
    match s.sessions token with
    | .holding uuid batchId =>
      let (reply, rows) := submitBatchResults batchId uuid token result s.rows
      { s with
        rows
        sessions := if arrives && settles reply then s.setSession token .closed else s.sessions
        accepted := if completesIn batchId s.rows rows
          then s.accepted ++ [⟨batchId, uuid, token, result⟩] else s.accepted }
    | _ => s
  | .failBatch token lastError maxBatchRetries arrives =>
    match s.sessions token with
    | .holding uuid batchId =>
      let (reply, rows) := failBatch batchId uuid token lastError maxBatchRetries s.rows
      { s with
        rows
        sessions := if arrives && settles reply then s.setSession token .closed else s.sessions
        charged := if chargedIn batchId s.rows rows
          then s.charged ++ [⟨batchId, token⟩] else s.charged }
    | _ => s
  | .releaseUntracked runId uuid trackedTokens =>
    { s with rows := releaseUntrackedClaims runId uuid trackedTokens s.rows }
  | .releaseWorker runId uuid =>
    { s with rows := releaseClaimedBatchesForWorker runId uuid s.rows }
  | .reclaimAbandoned view runId => { s with rows := reclaimAbandonedBatches view runId s.rows }
  | .insert runId taskId requires createdAt batches =>
    { s with rows := (insertBatches runId taskId requires createdAt batches s.rows).2 }
  | .abandon token =>
    match s.sessions token with
    | .unused => s
    | _ => { s with sessions := s.setSession token .closed }

/-! ## Rows by id -/

theorem eq_of_id {rows : List (BatchRow In Res)} (hn : (rows.map (·.id)).Nodup)
    {r x : BatchRow In Res} (hr : r ∈ rows) (hx : x ∈ rows) (hid : r.id = x.id) : r = x :=
  List.inj_on_of_nodup_map hn hr hx hid

theorem rowOf_eq {rows : List (BatchRow In Res)} (hn : (rows.map (·.id)).Nodup)
    {r : BatchRow In Res} (hr : r ∈ rows) : rowOf rows r.id = some r := by
  unfold rowOf
  cases h : rows.find? fun x => x.id == r.id with
  | none => exact absurd (List.find?_eq_none.1 h r hr) (by simp)
  | some x =>
    have hid := List.find?_some h
    rw [eq_of_id hn (List.mem_of_find?_eq_some h) hr (beq_iff_eq.1 hid)]

theorem rowOf_map {rows : List (BatchRow In Res)} {f : BatchRow In Res → BatchRow In Res}
    (hf : ∀ r ∈ rows, (f r).id = r.id) (b : Int) : rowOf (rows.map f) b = (rowOf rows b).map f := by
  unfold rowOf
  rw [List.find?_map]
  refine congrArg (Option.map f) (List.find?_congr fun r hr => ?_)
  simp [hf r hr]

theorem map_id_map {rows : List (BatchRow In Res)} {f : BatchRow In Res → BatchRow In Res}
    (hf : ∀ r ∈ rows, (f r).id = r.id) : (rows.map f).map (·.id) = rows.map (·.id) := by
  simpa using hf

/-! ## The invariant -/

structure Inv (s : ClaimState In Res) : Prop where
  nodup : (s.rows.map (·.id)).Nodup
  /-- The partial unique index on `claim_token`. -/
  tokens : ∀ r ∈ s.rows, ∀ x ∈ s.rows, ∀ t, r.claimToken = some t → x.claimToken = some t → r = x
  acceptedOnce : (s.accepted.map (·.batchId)).Nodup
  acceptedRow : ∀ a ∈ s.accepted, ∃ r ∈ s.rows,
    r.id = a.batchId ∧ r.status = .completed ∧ r.result = some a.result
  chargedOnce : (s.charged.map (·.token)).Nodup
  /-- A charged token claims nothing any more and never will again. -/
  chargedGone : ∀ c ∈ s.charged, s.sessions c.token ≠ .unused ∧
    (∀ uuid, s.sessions c.token ≠ .claiming uuid) ∧
    ∀ r ∈ s.rows, r.status = .claimed → r.claimToken ≠ some c.token

theorem inv_init : Inv (init : ClaimState In Res) where
  nodup := List.nodup_nil
  tokens := by simp [init]
  acceptedOnce := List.nodup_nil
  acceptedRow := by simp [init]
  chargedOnce := List.nodup_nil
  chargedGone := by simp [init]

/-- A session that has left `unused` and `claiming` does not return to them. -/
def SessionsAge (s s' : String → Session) : Prop :=
  ∀ t, s t ≠ .unused → (∀ uuid, s t ≠ .claiming uuid) →
    s' t ≠ .unused ∧ ∀ uuid, s' t ≠ .claiming uuid

theorem SessionsAge.refl (s : String → Session) : SessionsAge s s := fun _ h h' => ⟨h, h'⟩

theorem sessionsAge_setSession (s : ClaimState In Res) {token : String} {x : Session}
    (h : (x ≠ .unused ∧ ∀ uuid, x ≠ .claiming uuid) ∨ s.sessions token = .unused) :
    SessionsAge s.sessions (s.setSession token x) := by
  intro t hu hc
  unfold setSession
  split
  · subst t
    rcases h with h | h
    · exact h
    · exact absurd h hu
  · exact ⟨hu, hc⟩

/-- Rows rewritten one by one, with the histories as they were: claims may end and completed
rows stay. -/
theorem Inv.map {s : ClaimState In Res} (h : Inv s) {f : BatchRow In Res → BatchRow In Res}
    {sessions : String → Session} (hs : SessionsAge s.sessions sessions)
    (hid : ∀ r ∈ s.rows, (f r).id = r.id)
    (hdone : ∀ r ∈ s.rows, r.status = .completed → f r = r)
    (htok : ∀ r ∈ s.rows, ∀ x ∈ s.rows, ∀ t, (f r).claimToken = some t →
      (f x).claimToken = some t → r = x)
    (hclaim : ∀ r ∈ s.rows, ∀ c ∈ s.charged, (f r).status = .claimed →
      (f r).claimToken ≠ some c.token) :
    Inv { s with rows := s.rows.map f, sessions } where
  nodup := by rw [map_id_map hid]; exact h.nodup
  tokens := by
    intro y hy z hz t ht ht'
    obtain ⟨r, hr, rfl⟩ := List.mem_map.1 hy
    obtain ⟨x, hx, rfl⟩ := List.mem_map.1 hz
    rw [htok r hr x hx t ht ht']
  acceptedOnce := h.acceptedOnce
  acceptedRow := by
    intro a ha
    obtain ⟨r, hr, hrid, hst, hres⟩ := h.acceptedRow a ha
    refine ⟨f r, List.mem_map_of_mem hr, ?_⟩
    rw [hdone r hr hst]
    exact ⟨hrid, hst, hres⟩
  chargedOnce := h.chargedOnce
  chargedGone := by
    intro c hc
    obtain ⟨hu, hcl, -⟩ := h.chargedGone c hc
    obtain ⟨hu', hcl'⟩ := hs c.token hu hcl
    refine ⟨hu', hcl', fun y hy hst => ?_⟩
    obtain ⟨r, hr, rfl⟩ := List.mem_map.1 hy
    exact hclaim r hr c hc hst

/-- A statement that only ends claims keeps the invariant. -/
theorem Inv.endClaims {s : ClaimState In Res} (h : Inv s) {f : BatchRow In Res → BatchRow In Res}
    (hf : ∀ r, f r = r ∨ r.status = .claimed ∧ (f r).id = r.id ∧ (f r).status = .pending ∧
      (f r).claimToken = none) :
    Inv { s with rows := s.rows.map f } := by
  have htoken : ∀ r t, (f r).claimToken = some t → f r = r := by
    intro r t ht
    rcases hf r with h' | ⟨-, -, -, h'⟩
    · exact h'
    · rw [h'] at ht
      cases ht
  refine h.map (.refl _) ?_ ?_ ?_ ?_
  · intro r _
    rcases hf r with h' | ⟨-, h', -⟩
    · rw [h']
    · exact h'
  · intro r _ hst
    rcases hf r with h' | ⟨h', -⟩
    · exact h'
    · rw [hst] at h'
      cases h'
  · intro r hr x hx t ht ht'
    have hfr := htoken r t ht
    have hfx := htoken x t ht'
    rw [hfr] at ht
    rw [hfx] at ht'
    exact h.tokens r hr x hx t ht ht'
  · intro r hr c hc hst ht
    have hfr := htoken r _ ht
    rw [hfr] at hst ht
    exact (h.chargedGone c hc).2.2 r hr hst ht

/-- A fresh claim takes a row for a token no row carries. -/
theorem Inv.claimRow {s : ClaimState In Res} (h : Inv s) {v : NodesView} {uuid token : String}
    {next : BatchRow In Res} (hnext : next ∈ s.rows) (hpending : next.status = .pending)
    (hfree : ∀ x ∈ s.rows, x.claimToken ≠ some token) (hsess : s.sessions token = .claiming uuid)
    {sessions : String → Session} (hs : SessionsAge s.sessions sessions) :
    Inv { s with rows := updateRow next.id (·.claim v uuid token) s.rows, sessions } := by
  refine h.map hs ?_ ?_ ?_ ?_
  · intro r _
    split <;> rfl
  · intro r hr hst
    split
    · rename_i hid
      rw [eq_of_id h.nodup hr hnext hid, hpending] at hst
      cases hst
    · rfl
  · intro r hr x hx t ht ht'
    split at ht <;> rename_i hrid <;> split at ht' <;> rename_i hxid
    · exact eq_of_id h.nodup hr hx (hrid.trans hxid.symm)
    · cases ht
      exact absurd ht' (hfree x hx)
    · cases ht'
      exact absurd ht (hfree r hr)
    · exact h.tokens r hr x hx t ht ht'
  · intro r hr c hc hst ht
    split at hst
    · rename_i hid
      rw [if_pos hid] at ht
      cases ht
      exact (h.chargedGone c hc).2.1 uuid hsess
    · rename_i hid
      rw [if_neg hid] at ht
      exact (h.chargedGone c hc).2.2 r hr hst ht

/-- A session ends when its request is answered. -/
theorem sessionsAge_settle (s : ClaimState In Res) (token : String) (b : Bool) :
    SessionsAge s.sessions (if b then s.setSession token .closed else s.sessions) := by
  split
  · exact sessionsAge_setSession s (.inl ⟨by simp, by simp⟩)
  · exact .refl _

theorem claimedBy_iff {r : BatchRow In Res} {uuid token : String} :
    r.claimedBy uuid token = true ↔
      r.status = .claimed ∧ r.claimedByNodeUuid = some uuid ∧ r.claimToken = some token := by
  simp [BatchRow.claimedBy, BatchRow.heldBy]

theorem completesIn_self (b : Int) (rows : List (BatchRow In Res)) :
    completesIn b rows rows = false := by
  cases h : (rowOf rows b).map (·.status) == some .completed <;> simp_all [completesIn]

theorem chargedIn_self (b : Int) (rows : List (BatchRow In Res)) :
    chargedIn b rows rows = false := by
  simp [chargedIn]

theorem completesIn_complete {rows : List (BatchRow In Res)} (hn : (rows.map (·.id)).Nodup)
    {r : BatchRow In Res} (hr : r ∈ rows) (hs : r.status = .claimed) (result : Res) :
    completesIn r.id rows (updateRow r.id (·.complete result) rows) = true := by
  have hid : ∀ x ∈ rows, (if x.id = r.id then x.complete result else x).id = x.id := by
    intro x _
    split <;> rfl
  rw [completesIn, updateRow, rowOf_map hid, rowOf_eq hn hr]
  simp [hs, BatchRow.complete]

theorem chargedIn_fail {rows : List (BatchRow In Res)} (hn : (rows.map (·.id)).Nodup)
    {r : BatchRow In Res} (hr : r ∈ rows) (error : String) (max : Nat) :
    chargedIn r.id rows (updateRow r.id (·.fail error max) rows) = true := by
  have hid : ∀ x ∈ rows, (if x.id = r.id then x.fail error max else x).id = x.id := by
    intro x _
    split <;> rfl
  rw [chargedIn, updateRow, rowOf_map hid, rowOf_eq hn hr]
  simp [BatchRow.fail]

/-- An accepted submission completes the row its owner claims. -/
theorem Inv.completeRow {s : ClaimState In Res} (h : Inv s) {uuid token : String} {result : Res}
    {r : BatchRow In Res} (hr : r ∈ s.rows) (hc : r.claimedBy uuid token = true)
    {sessions : String → Session} (hs : SessionsAge s.sessions sessions) :
    Inv { s with
      rows := updateRow r.id (·.complete result) s.rows, sessions
      accepted := s.accepted ++ [⟨r.id, uuid, token, result⟩] } := by
  obtain ⟨hst, -, -⟩ := claimedBy_iff.1 hc
  have hmap : Inv { s with rows := updateRow r.id (·.complete result) s.rows, sessions } := by
    refine h.map hs ?_ ?_ ?_ ?_
    · intro x _
      split <;> rfl
    · intro x hx hdone
      split
      · rename_i hid
        rw [eq_of_id h.nodup hx hr hid, hst] at hdone
        cases hdone
      · rfl
    · intro x hx y hy t ht ht'
      have hkeep : ∀ z : BatchRow In Res,
          (if z.id = r.id then z.complete result else z).claimToken = z.claimToken := by
        intro z
        split <;> rfl
      rw [hkeep] at ht ht'
      exact h.tokens x hx y hy t ht ht'
    · intro x hx c hc' hclaim
      split at hclaim
      · cases hclaim
      · rename_i hid
        rw [if_neg hid]
        exact (h.chargedGone c hc').2.2 x hx hclaim
  have hnew : r.id ∉ s.accepted.map (·.batchId) := by
    intro hmem
    obtain ⟨a, ha, haid⟩ := List.mem_map.1 hmem
    obtain ⟨x, hx, hxid, hdone, -⟩ := h.acceptedRow a ha
    rw [eq_of_id h.nodup hx hr (hxid.trans haid), hst] at hdone
    cases hdone
  refine { hmap with acceptedOnce := ?_, acceptedRow := ?_ }
  · simp only [List.map_append, List.map_cons, List.map_nil]
    exact List.nodup_append.2 ⟨h.acceptedOnce, List.nodup_singleton _, fun a ha b hb => by
      rw [List.mem_singleton.1 hb]
      exact fun e => hnew (e ▸ ha)⟩
  · intro a ha
    rcases List.mem_append.1 ha with ha | ha
    · exact hmap.acceptedRow a ha
    · cases List.mem_singleton.1 ha
      exact ⟨r.complete result, List.mem_map.2 ⟨r, hr, by simp⟩, rfl, rfl, rfl⟩

/-- A failure report charges the row its owner claims; the owner's token is spent. -/
theorem Inv.failRow {s : ClaimState In Res} (h : Inv s) {uuid token error : String} {max : Nat}
    {r : BatchRow In Res} (hr : r ∈ s.rows) (hc : r.claimedBy uuid token = true)
    (hsess : s.sessions token = .holding uuid r.id)
    {sessions : String → Session} (hs : SessionsAge s.sessions sessions) :
    Inv { s with
      rows := updateRow r.id (·.fail error max) s.rows, sessions
      charged := s.charged ++ [⟨r.id, token⟩] } := by
  obtain ⟨hst, -, htok⟩ := claimedBy_iff.1 hc
  have hfail : ∀ z : BatchRow In Res, (z.fail error max).status ≠ .claimed := by
    intro z hz
    simp only [BatchRow.fail] at hz
    split at hz <;> cases hz
  have hmap : Inv { s with rows := updateRow r.id (·.fail error max) s.rows, sessions } := by
    refine h.map hs ?_ ?_ ?_ ?_
    · intro x _
      split <;> rfl
    · intro x hx hdone
      split
      · rename_i hid
        rw [eq_of_id h.nodup hx hr hid, hst] at hdone
        cases hdone
      · rfl
    · intro x hx y hy t ht ht'
      have hkeep : ∀ z : BatchRow In Res,
          (if z.id = r.id then z.fail error max else z).claimToken = z.claimToken := by
        intro z
        split <;> rfl
      rw [hkeep] at ht ht'
      exact h.tokens x hx y hy t ht ht'
    · intro x hx c hc' hclaim
      split at hclaim
      · exact absurd hclaim (hfail x)
      · rename_i hid
        rw [if_neg hid]
        exact (h.chargedGone c hc').2.2 x hx hclaim
  have hnew : token ∉ s.charged.map (·.token) := by
    intro hmem
    obtain ⟨c, hc', rfl⟩ := List.mem_map.1 hmem
    exact (h.chargedGone c hc').2.2 r hr hst htok
  refine { hmap with chargedOnce := ?_, chargedGone := ?_ }
  · simp only [List.map_append, List.map_cons, List.map_nil]
    exact List.nodup_append.2 ⟨h.chargedOnce, List.nodup_singleton _, fun a ha b hb => by
      rw [List.mem_singleton.1 hb]
      exact fun e => hnew (e ▸ ha)⟩
  · intro c hc'
    rcases List.mem_append.1 hc' with hc' | hc'
    · exact hmap.chargedGone c hc'
    · cases List.mem_singleton.1 hc'
      obtain ⟨hu, hcl⟩ := hs token (by simp [hsess]) (by simp [hsess])
      refine ⟨hu, hcl, fun y hy hclaim ht => ?_⟩
      -- the only row with the token is the one just charged
      obtain ⟨x, hx, rfl⟩ := List.mem_map.1 hy
      split at hclaim
      · exact hfail x hclaim
      · rename_i hid
        rw [if_neg hid] at ht
        exact hid (congrArg _ (h.tokens x hx r hr token ht htok))

/-- Inserted rows are pending, unclaimed and new. -/
theorem Inv.insert {s : ClaimState In Res} (h : Inv s) (runId taskId : Int) (requires : Bool)
    (createdAt : Nat) (batches : List (NewBatch In)) :
    Inv { s with rows := (insertBatches runId taskId requires createdAt batches s.rows).2 } := by
  unfold insertBatches
  split
  · rename_i hfresh
    obtain ⟨hnodup, hfresh⟩ := hfresh
    have hperm := foldr_insertRow_perm
      (batches.map (·.toRow runId taskId requires createdAt)) s.rows
    have hold : ∀ r ∈ s.rows,
        r ∈ (batches.map (·.toRow runId taskId requires createdAt)).foldr insertRow s.rows :=
      fun r hr => hperm.mem_iff.2 (List.mem_append.2 (.inr hr))
    have hsplit : ∀ r ∈ (batches.map (·.toRow runId taskId requires createdAt)).foldr insertRow
        s.rows, r ∈ s.rows ∨ r.status = .pending ∧ r.claimToken = none := by
      intro r hr
      rcases List.mem_append.1 (hperm.mem_iff.1 hr) with hr | hr
      · obtain ⟨b, -, rfl⟩ := List.mem_map.1 hr
        exact .inr ⟨rfl, rfl⟩
      · exact .inl hr
    refine ⟨?_, ?_, h.acceptedOnce, ?_, h.chargedOnce, ?_⟩
    · refine ((hperm.map (·.id)).nodup_iff).2 ?_
      rw [List.map_append, List.map_map]
      refine List.nodup_append.2 ⟨hnodup, h.nodup, ?_⟩
      intro a ha b hb
      obtain ⟨x, hx, rfl⟩ := List.mem_map.1 ha
      obtain ⟨r, hr, rfl⟩ := List.mem_map.1 hb
      exact (hfresh x hx r hr).symm
    · intro r hr x hx t ht ht'
      rcases hsplit r hr with hr | ⟨-, hr⟩
      · rcases hsplit x hx with hx | ⟨-, hx⟩
        · exact h.tokens r hr x hx t ht ht'
        · rw [hx] at ht'
          cases ht'
      · rw [hr] at ht
        cases ht
    · intro a ha
      obtain ⟨r, hr, hrest⟩ := h.acceptedRow a ha
      exact ⟨r, hold r hr, hrest⟩
    · intro c hc
      obtain ⟨hu, hcl, hrows⟩ := h.chargedGone c hc
      refine ⟨hu, hcl, fun r hr hst => ?_⟩
      rcases hsplit r hr with hr | ⟨hr, -⟩
      · exact hrows r hr hst
      · rw [hr] at hst
        cases hst
  · exact h

theorem Inv.sessions {s : ClaimState In Res} (h : Inv s) {sessions : String → Session}
    (hs : SessionsAge s.sessions sessions) : Inv { s with sessions } := by
  have := h.map (f := id) hs (fun _ _ => rfl) (fun _ _ _ => rfl) h.tokens
    (fun r hr c hc => (h.chargedGone c hc).2.2 r hr)
  simpa using this

theorem inv_step (s : ClaimState In Res) (e : ClaimRequest In Res) (h : Inv s) :
    Inv (s.step e) := by
  cases e with
  | openToken token uuid =>
    simp only [step]
    split
    · rename_i hsess
      exact h.sessions (sessionsAge_setSession s (.inr hsess))
    · exact h
  | claim token view locked runId arrives =>
    simp only [step]
    split
    · rename_i uuid hsess
      have hage : ∀ x, (x = .closed ∨ ∃ b, x = .holding uuid b) →
          SessionsAge s.sessions (if arrives then s.setSession token x else s.sessions) := by
        intro x hx
        split
        · refine sessionsAge_setSession s (.inl ?_)
          rcases hx with rfl | ⟨b, rfl⟩ <;> simp
        · exact .refl _
      rcases claimBatch_cases view locked runId uuid token s.rows with
        heq | ⟨next, hmem, hpending, -, hfree, heq⟩
      · rw [heq]
        refine h.sessions (hage _ ?_)
        split
        · exact .inr ⟨_, rfl⟩
        · exact .inl rfl
      · rw [heq]
        exact h.claimRow hmem hpending hfree hsess (hage _ (.inr ⟨_, rfl⟩))
    · exact h
  | submit token result arrives =>
    simp only [step]
    split
    · rename_i uuid batchId hsess
      have hage := sessionsAge_settle s token
        (arrives && settles (submitBatchResults batchId uuid token result s.rows).1)
      rcases submitBatchResults_cases batchId uuid token result s.rows with
        heq | ⟨r, hr, rfl, hclaim, heq⟩
      · simp only [heq, completesIn_self, Bool.false_eq_true, if_false]
        exact h.sessions hage
      · rw [heq] at hage ⊢
        rw [completesIn_complete h.nodup hr (claimedBy_iff.1 hclaim).1, if_pos rfl]
        exact h.completeRow hr hclaim hage
    · exact h
  | failBatch token lastError maxBatchRetries arrives =>
    simp only [step]
    split
    · rename_i uuid batchId hsess
      have hage := sessionsAge_settle s token
        (arrives && settles (failBatch batchId uuid token lastError maxBatchRetries s.rows).1)
      rcases failBatch_cases batchId uuid token lastError maxBatchRetries s.rows with
        heq | ⟨r, hr, rfl, hclaim, heq⟩
      · simp only [heq, chargedIn_self, Bool.false_eq_true, if_false]
        exact h.sessions hage
      · rw [heq, chargedIn_fail h.nodup hr, if_pos rfl]
        exact h.failRow hr hclaim hsess hage
    · exact h
  | releaseUntracked runId uuid trackedTokens =>
    refine h.endClaims fun r => ?_
    split
    · rename_i hc
      exact .inr ⟨hc.2.2.1, rfl, rfl, rfl⟩
    · exact .inl rfl
  | releaseWorker runId uuid =>
    refine h.endClaims fun r => ?_
    split
    · rename_i hc
      exact .inr ⟨hc.2.1, rfl, rfl, rfl⟩
    · exact .inl rfl
  | reclaimAbandoned view runId =>
    refine h.endClaims fun r => ?_
    split
    · rename_i hc
      exact .inr ⟨hc.2.1, rfl, rfl, rfl⟩
    · exact .inl rfl
  | insert runId taskId requires createdAt batches => exact h.insert runId taskId requires createdAt batches
  | abandon token =>
    simp only [step]
    split
    · exact h
    · exact h.sessions (sessionsAge_setSession s (.inl ⟨by simp, by simp⟩))

/-- The invariant holds after every run of requests. -/
theorem inv_run (es : List (ClaimRequest In Res)) : Inv (run step init es) :=
  run_invariant' inv_step es inv_init

/-! ## What a step does to the rows and the histories -/

/-- Every row is still there as the same batch, untouched when it was completed. -/
def RowsKept (s s' : ClaimState In Res) : Prop :=
  ∀ r ∈ s.rows, ∃ x ∈ s'.rows, r.SameBatch x ∧ (r.status = .completed → x = r)

theorem RowsKept.refl (s : ClaimState In Res) : RowsKept s s :=
  fun r hr => ⟨r, hr, .refl r, fun _ => rfl⟩

theorem RowsKept.trans {a b c : ClaimState In Res} (h : RowsKept a b) (h' : RowsKept b c) :
    RowsKept a c := by
  intro r hr
  obtain ⟨x, hx, hb, hd⟩ := h r hr
  obtain ⟨y, hy, hb', hd'⟩ := h' x hx
  refine ⟨y, hy, hb.trans hb', fun hst => ?_⟩
  have hxr := hd hst
  rw [hd' (hxr ▸ hst), hxr]

theorem rowsKept_of_touched {s s' : ClaimState In Res}
    (h : Touched (fun _ _ => True) s.rows s'.rows) : RowsKept s s' := by
  intro r hr
  obtain ⟨x, hx, hc⟩ := h.forward hr
  exact ⟨x, hx, hc.sameBatch, hc.eq_of_completed⟩

theorem rowsKept_step (s : ClaimState In Res) (e : ClaimRequest In Res) (h : Inv s) :
    RowsKept s (s.step e) := by
  cases e with
  | openToken token uuid => simp only [step]; split <;> exact .refl s
  | claim token view locked runId arrives =>
    simp only [step]
    split
    · exact rowsKept_of_touched (touched_claimBatch view locked runId _ token h.nodup)
    · exact .refl s
  | submit token result arrives =>
    simp only [step]
    split
    · exact rowsKept_of_touched
        (touched_submitBatchResults _ _ token result h.nodup fun _ _ _ => trivial)
    · exact .refl s
  | failBatch token lastError max arrives =>
    simp only [step]
    split
    · exact rowsKept_of_touched (touched_failBatch _ _ token lastError max h.nodup)
    · exact .refl s
  | releaseUntracked runId uuid tracked =>
    exact rowsKept_of_touched (touched_releaseUntrackedClaims runId uuid tracked s.rows)
  | releaseWorker runId uuid =>
    exact rowsKept_of_touched (touched_releaseClaimedBatchesForWorker runId uuid s.rows)
  | reclaimAbandoned view runId =>
    exact rowsKept_of_touched (touched_reclaimAbandonedBatches view runId s.rows)
  | insert runId taskId requires createdAt batches =>
    simp only [step, insertBatches]
    split
    · intro r hr
      exact ⟨r, (foldr_insertRow_perm _ _).mem_iff.2 (List.mem_append.2 (.inr hr)), .refl r,
        fun _ => rfl⟩
    · exact .refl s
  | abandon token => simp only [step]; split <;> exact .refl s

theorem rowsKept_run (es : List (ClaimRequest In Res)) {s : ClaimState In Res} (h : Inv s) :
    RowsKept s (run step s es) :=
  run_rel .refl (fun _ _ _ => .trans) inv_step rowsKept_step es h

theorem accepted_step (s : ClaimState In Res) (e : ClaimRequest In Res) :
    ∀ a ∈ (s.step e).accepted, a ∈ s.accepted ∨
      ∃ r ∈ s.rows, r.id = a.batchId ∧ r.claimedBy a.uuid a.token = true := by
  intro a ha
  cases e with
  | submit token result arrives =>
    simp only [step] at ha
    split at ha
    · rename_i uuid batchId hsess
      rcases submitBatchResults_cases batchId uuid token result s.rows with
        heq | ⟨r, hr, hid, hclaim, -⟩
      · simp only [heq, completesIn_self, Bool.false_eq_true, if_false] at ha
        exact .inl ha
      · dsimp only at ha
        split at ha
        · rcases List.mem_append.1 ha with ha | ha
          · exact .inl ha
          · cases List.mem_singleton.1 ha
            exact .inr ⟨r, hr, hid, hclaim⟩
        · exact .inl ha
    · exact .inl ha
  | openToken | claim | failBatch | abandon =>
    simp only [step] at ha
    split at ha <;> exact .inl ha
  | releaseUntracked | releaseWorker | reclaimAbandoned | insert => exact .inl ha

theorem accepted_mono_step (s : ClaimState In Res) (e : ClaimRequest In Res) :
    s.accepted ⊆ (s.step e).accepted := by
  cases e with
  | submit token result arrives =>
    simp only [step]
    split
    · dsimp only
      split
      · exact List.subset_append_left _ _
      · exact List.Subset.refl _
    · exact List.Subset.refl _
  | openToken | claim | failBatch | abandon =>
    simp only [step]
    split <;> exact List.Subset.refl _
  | releaseUntracked | releaseWorker | reclaimAbandoned | insert => exact List.Subset.refl _

theorem accepted_mono (es : List (ClaimRequest In Res)) {s : ClaimState In Res} (h : Inv s) :
    s.accepted ⊆ (run step s es).accepted :=
  run_rel (R := fun a b => a.accepted ⊆ b.accepted) (fun _ => List.Subset.refl _)
    (fun _ _ _ => List.Subset.trans) inv_step (fun s e _ => accepted_mono_step s e) es h

/-- The row a submission or failure report changes is claimed by the session that sends it. -/
theorem changed_by_holder {s : ClaimState In Res} (h : Inv s) {e : ClaimRequest In Res}
    {token : String}
    (he : (∃ result arrives, e = .submit token result arrives) ∨
      ∃ err max arrives, e = .failBatch token err max arrives)
    {r : BatchRow In Res} (hr : r ∈ s.rows) (hchanged : r ∉ (s.step e).rows) :
    ∃ uuid, s.sessions token = .holding uuid r.id ∧ r.claimedBy uuid token = true := by
  have key : ∀ (batchId : Int) (uuid : String) (f : BatchRow In Res → BatchRow In Res)
      (rows : List (BatchRow In Res)), s.sessions token = .holding uuid batchId → r ∉ rows →
      (rows = s.rows ∨ ∃ x ∈ s.rows, x.id = batchId ∧ x.claimedBy uuid token = true ∧
        rows = updateRow batchId f s.rows) →
      ∃ uuid, s.sessions token = .holding uuid r.id ∧ r.claimedBy uuid token = true := by
    rintro batchId uuid f rows hsess hnot (rfl | ⟨x, hx, rfl, hclaim, rfl⟩)
    · exact absurd hr hnot
    · by_cases hid : r.id = x.id
      · rw [eq_of_id h.nodup hr hx hid]
        exact ⟨uuid, hsess, hclaim⟩
      · have hkept : r ∈ updateRow x.id f s.rows := List.mem_map.2 ⟨r, hr, if_neg hid⟩
        exact absurd hkept hnot
  rcases he with ⟨result, arrives, rfl⟩ | ⟨err, max, arrives, rfl⟩
  · simp only [step] at hchanged
    split at hchanged
    · rename_i uuid batchId hsess
      refine key batchId uuid (·.complete result) _ hsess hchanged ?_
      rcases submitBatchResults_cases batchId uuid token result s.rows with
        heq | ⟨x, hx, hid, hclaim, heq⟩
      · exact .inl heq
      · exact .inr ⟨x, hx, hid, hclaim, by rw [heq]⟩
    · exact absurd hr hchanged
  · simp only [step] at hchanged
    split at hchanged
    · rename_i uuid batchId hsess
      exact key batchId uuid (·.fail err max) _ hsess hchanged
        (failBatch_cases batchId uuid token err max s.rows)
    · exact absurd hr hchanged

/-- A failure report adds to the retry count of a row what it adds to the history. -/
theorem retryCount_failBatch {s : ClaimState In Res} (h : Inv s) (token lastError : String)
    (max : Nat) (arrives : Bool) {r : BatchRow In Res} (hr : r ∈ s.rows) :
    ∃ x ∈ (s.step (.failBatch token lastError max arrives)).rows, r.SameBatch x ∧
      x.retryCount + s.charged.count ⟨r.id, token⟩ =
        r.retryCount +
          (s.step (.failBatch token lastError max arrives)).charged.count ⟨r.id, token⟩ := by
  simp only [step]
  split
  · rename_i uuid batchId hsess
    rcases failBatch_cases batchId uuid token lastError max s.rows with
      heq | ⟨x, hx, rfl, hclaim, heq⟩
    · simp only [heq, chargedIn_self, Bool.false_eq_true, if_false]
      exact ⟨r, hr, .refl r, rfl⟩
    · simp only [heq, chargedIn_fail h.nodup hx, if_true]
      refine ⟨_, List.mem_map_of_mem hr, ?_⟩
      by_cases hid : r.id = x.id
      · rw [if_pos hid, hid]
        exact ⟨⟨rfl, rfl, rfl, rfl, rfl, rfl⟩, by simp [BatchRow.fail]; omega⟩
      · rw [if_neg hid]
        refine ⟨.refl r, ?_⟩
        rw [List.count_append, List.count_singleton, if_neg (by simpa using fun e => hid e.symm)]
        omega
  · exact ⟨r, hr, .refl r, rfl⟩

/-- The claim a token's holder repeats selects the row it holds, and only that one. -/
theorem claimBatch_of_claimed {s : ClaimState In Res} (h : Inv s) {r : BatchRow In Res}
    (hr : r ∈ s.rows) {uuid token : String} (hc : r.claimedBy uuid token = true)
    (v : NodesView) (locked : Int → Bool) :
    (claimBatch v locked r.runId uuid token s.rows).1 = [r.toClaimed] := by
  obtain ⟨-, -, htok⟩ := claimedBy_iff.1 hc
  rcases claimBatch_cases v locked r.runId uuid token s.rows with heq | ⟨-, -, -, -, hfree, -⟩
  · rw [heq]
    have hmem : r ∈ s.rows.filter fun x => x.runId == r.runId && x.claimedBy uuid token :=
      List.mem_filter.2 ⟨hr, by simp [hc]⟩
    have honly : ∀ x ∈ s.rows.filter (fun x => x.runId == r.runId && x.claimedBy uuid token),
        x = r := by
      intro x hx
      obtain ⟨hx, hp⟩ := List.mem_filter.1 hx
      rw [Bool.and_eq_true] at hp
      exact h.tokens x hx r hr token (claimedBy_iff.1 hp.2).2.2 htok
    have hnodup := (List.Nodup.of_map _ h.nodup).filter
      fun x => x.runId == r.runId && x.claimedBy uuid token
    rw [List.eq_replicate_iff.2 ⟨rfl, honly⟩] at hnodup hmem ⊢
    have hlen := List.nodup_replicate.1 hnodup
    generalize (s.rows.filter fun x => x.runId == r.runId && x.claimedBy uuid token).length = n at *
    interval_cases n
    · simp at hmem
    · rfl
  · exact absurd htok (hfree r hr)

/-- What a claim selects is one row of the run. -/
theorem claimBatch_singleton {s : ClaimState In Res} (h : Inv s) (v : NodesView)
    (locked : Int → Bool) (runId : Int) (uuid token : String)
    (hne : (claimBatch v locked runId uuid token s.rows).1 ≠ []) :
    ∃ r ∈ s.rows, r.runId = runId ∧
      (claimBatch v locked runId uuid token s.rows).1 = [r.toClaimed] := by
  rcases claimBatch_cases v locked runId uuid token s.rows with
    heq | ⟨next, hmem, -, hrun, -, heq⟩
  · rw [heq] at hne
    obtain ⟨c, hc⟩ := List.exists_mem_of_ne_nil _ hne
    obtain ⟨r, hsel, -⟩ := List.mem_map.1 hc
    obtain ⟨hr, hp⟩ := List.mem_filter.1 hsel
    simp only [Bool.and_eq_true, beq_iff_eq] at hp
    obtain ⟨hrun, hclaim⟩ := hp
    subst hrun
    exact ⟨r, hr, rfl, claimBatch_of_claimed h hr hclaim v locked⟩
  · exact ⟨next, hmem, hrun, by rw [heq]⟩

/-- A repeated claim selects again what is still held of what it selected. -/
theorem claimBatch_repeat {s s' : ClaimState In Res} (h : Inv s) (h' : Inv s')
    (hkept : RowsKept s s') {v : NodesView} {locked : Int → Bool} {runId : Int}
    {uuid token : String} (hne : (claimBatch v locked runId uuid token s.rows).1 ≠ [])
    (hheld : ∀ c ∈ (claimBatch v locked runId uuid token s.rows).1,
      ∃ r ∈ s'.rows, r.id = c.batchId ∧ r.claimedBy uuid token = true)
    (v' : NodesView) (locked' : Int → Bool) :
    (claimBatch v' locked' runId uuid token s'.rows).1 =
      (claimBatch v locked runId uuid token s.rows).1 := by
  obtain ⟨r, hr, rfl, hreply⟩ := claimBatch_singleton h v locked runId uuid token hne
  obtain ⟨x, hx, hxid, hclaim⟩ := hheld r.toClaimed (by rw [hreply]; exact List.mem_cons_self)
  obtain ⟨y, hy, hsame, -⟩ := hkept r hr
  have hyx : y = x := eq_of_id h'.nodup hy hx (hsame.id.trans hxid.symm)
  subst hyx
  rw [hreply, ← hsame.runId, ← hsame.toClaimed]
  exact claimBatch_of_claimed h' hy hclaim v' locked'

/-! ## Safety -/

/-- (a) A batch has at most one accepted result, and its row keeps it in every later state. -/
def AcceptsOnce (es : List (ClaimRequest In Res)) : Prop :=
  ((run step init es).accepted.map (·.batchId)).Nodup ∧
    ∀ a ∈ (run step init es).accepted, ∀ fs,
      ∃ r ∈ (run step init (es ++ fs)).rows,
        r.id = a.batchId ∧ r.status = .completed ∧ r.result = some a.result

/-- (b) A result enters the history, and a submission or failure report changes a row, only
when the node and token that send it currently claim the row. -/
def HolderOnly (es : List (ClaimRequest In Res)) : Prop :=
  let s := run step init es
  (∀ e, ∀ a ∈ (s.step e).accepted, a ∈ s.accepted ∨
    ∃ r ∈ s.rows, r.id = a.batchId ∧ r.claimedBy a.uuid a.token = true) ∧
  ∀ token e, ((∃ result arrives, e = .submit token result arrives) ∨
      ∃ err max arrives, e = .failBatch token err max arrives) →
    ∀ r ∈ s.rows, r ∉ (s.step e).rows →
      ∃ uuid, s.sessions token = .holding uuid r.id ∧ r.claimedBy uuid token = true

/-- (c) A claim that selected rows selects the same rows in the same order when it is repeated
with its token, at any later time at which they are still held. -/
def ClaimRepeats (es : List (ClaimRequest In Res)) : Prop :=
  let s := run step init es
  ∀ token uuid view locked runId arrives, s.sessions token = .claiming uuid →
    ∀ fs, let s' := run step (s.step (.claim token view locked runId arrives)) fs
      let reply := (claimBatch view locked runId uuid token s.rows).1
      reply ≠ [] →
      (∀ c ∈ reply, ∃ r ∈ s'.rows, r.id = c.batchId ∧ r.claimedBy uuid token = true) →
      ∀ view' locked', (claimBatch view' locked' runId uuid token s'.rows).1 = reply

/-- (d) The failure reports of a token charge a batch at most once. -/
def ChargesOnce (es : List (ClaimRequest In Res)) : Prop :=
  let s := run step init es
  (∀ c, s.charged.count c ≤ 1) ∧
  ∀ token lastError max arrives, let s' := s.step (.failBatch token lastError max arrives)
    ∀ r ∈ s.rows, ∃ x ∈ s'.rows, r.SameBatch x ∧
      x.retryCount + s.charged.count ⟨r.id, token⟩ = r.retryCount + s'.charged.count ⟨r.id, token⟩

theorem acceptsOnce (es : List (ClaimRequest In Res)) : AcceptsOnce es := by
  refine ⟨(inv_run es).acceptedOnce, fun a ha fs => ?_⟩
  have hlater : a ∈ (run step init (es ++ fs)).accepted := by
    rw [run_append]
    exact accepted_mono fs (inv_run es) ha
  exact (inv_run (es ++ fs)).acceptedRow a hlater

theorem claimRepeats (es : List (ClaimRequest In Res)) : ClaimRepeats es := by
  intro token uuid view locked runId arrives _ fs s' reply hne hheld view' locked'
  have hinv := inv_run es
  have hinv' := inv_step _ (.claim token view locked runId arrives) hinv
  have hkept := (rowsKept_step _ _ hinv).trans (rowsKept_run fs hinv')
  exact claimBatch_repeat hinv (run_invariant' inv_step fs hinv') hkept hne hheld view' locked'

theorem chargesOnce (es : List (ClaimRequest In Res)) : ChargesOnce es := by
  refine ⟨fun c => ?_, fun token lastError max arrives r hr => ?_⟩
  · exact List.nodup_iff_count_le_one.1 (List.Nodup.of_map _ (inv_run es).chargedOnce) c
  · exact retryCount_failBatch (inv_run es) token lastError max arrives hr

/-- **Claim protocol safety.** Over every order of requests, lost replies and repetitions: one
accepted result for a batch, accepted and failed only by its holder, claims that repeat, and
one charge for a failure report. -/
theorem claim_protocol_safe (es : List (ClaimRequest In Res)) :
    AcceptsOnce es ∧ HolderOnly es ∧ ClaimRepeats es ∧ ChargesOnce es :=
  ⟨acceptsOnce es, ⟨fun e => accepted_step _ e,
    fun _ _ he _ hr hchanged => changed_by_holder (inv_run es) he hr hchanged⟩,
    claimRepeats es, chargesOnce es⟩

end ClaimState

end Gammaboard.Stores
