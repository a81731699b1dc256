import Gammaboard.Lib.Run
import Gammaboard.Stores.ExternalLaunch
import Mathlib.Data.List.Nodup
import Mathlib.Tactic.Common

/-!
# The launch protocol

Launchers, nodes and servers act on the launch tables in any order. A reply that is lost changes
nothing of what its transaction did, so replies are no part of the events; a launcher may present
any token, its own or another. The clock may stand anywhere at any step.
-/

namespace Gammaboard.Stores

open Gammaboard.Lib

inductive LaunchEvent where
  | clock (now : Int)
  /-- What becomes of the node table: reservations, announcements, heartbeats, removals. -/
  | nodes (nodes : List Registration)
  | create (backend : String) (requestedCount : Nat) (groups : Option (List (List (Option String))))
  | bind (deploymentId : Option String) (build : String)
  | claim (owner : String) (requestId : Option Nat) (locked : Nat → Bool) (uuid : Nat → String)
      (token : String)
  | heartbeat (id : Nat) (token : String) (release : Bool)
  | report (id : Nat) (token name state : String) (jobId error : Option String)
  | reconcile
  | claimLocal (locked : Nat → Bool)
  | markLocal (id : Nat) (state : LaunchRequestState) (startedCount : Nat) (error : Option String)

namespace LaunchStore

/-- A transaction that fails leaves everything as it was. -/
def committed (s : LaunchStore) : Except String LaunchStore → LaunchStore
  | .ok s' => s'
  | .error _ => s

def step (s : LaunchStore) : LaunchEvent → LaunchStore
  | .clock now => { s with now }
  | .nodes nodes => { s with nodes }
  | .create backend requestedCount groups => s.insertLaunchRequest backend requestedCount groups
  | .bind deploymentId build => s.committed (s.bindDeployment deploymentId build)
  | .claim owner requestId locked uuid token =>
    s.committed ((s.claimExternalLaunch owner requestId locked uuid token).map Prod.snd)
  | .heartbeat id token release => s.committed (s.heartbeatExternalLaunch id token release)
  | .report id token name state jobId error =>
    s.committed (s.updateExternalWorker id token name state jobId error)
  | .reconcile => s.reconcileLaunches
  | .claimLocal locked => s.claimLocalWorkerLaunch locked
  | .markLocal id state startedCount error => s.markLocalLaunch id state startedCount error

end LaunchStore

/-! ## One report -/

namespace WorkerLaunchState

theorem isOpen_of_allows {x y : WorkerLaunchState} (h : x.allows y = true) : x.isOpen = true := by
  cases x <;> cases y <;> first | rfl | cases h

end WorkerLaunchState

namespace WorkerLaunch

variable {w : WorkerLaunch} {registered : Bool} {state : String} {jobId error : Option String}
  {next : WorkerLaunchState}

/-- A job id that is accepted is the one that was recorded, if one was. -/
theorem jobId_kept (h : w.refusesJob state jobId = false) {job : String} (hw : w.jobId = some job) :
    (jobId <|> w.jobId) = some job := by
  cases jobId with
  | none => exact hw
  | some j =>
    simp only [refusesJob, hw, Bool.or_eq_false_iff, Option.any_some, bne_eq_false_iff_eq] at h
    obtain ⟨⟨⟨-, hj⟩, -⟩, -⟩ := h
    rw [hj]
    rfl

/-- What an accepted report does to its worker. -/
theorem report_ok (h : w.report registered state jobId error = .ok next) :
    w.refusesJob state jobId = false ∧
      (w.state = next ∨ w.state.isOpen = true) ∧
      (next = .connected → registered = true) := by
  unfold report at h
  split at h
  · cases h
  · rename_i hjob
    refine ⟨by simpa using hjob, ?_⟩
    split at h
    · cases h
    · rename_i found hfound
      split at h
      · rename_i hallowed
        split at h
        · cases h
        · rename_i hregistered
          split at h
          · cases h
          · cases h
            refine ⟨?_, fun hc => by simpa [hc] using hregistered⟩
            rcases hallowed with hsame | hmove | hback
            · exact .inl hsame
            · exact .inr (WorkerLaunchState.isOpen_of_allows hmove)
            · refine .inr ?_
              simp only [takesBack, Bool.and_eq_true, beq_iff_eq] at hback
              rw [hback.1.1.1]
              rfl
      · cases h

theorem isFor_iff {id : Nat} {name : String} :
    w.isFor id name = true ↔ w.requestId = id ∧ w.nodeName = name := by
  simp [isFor]

end WorkerLaunch

/-! ## The workers in one step -/

/-- A row for each request and name, and a submission key for each row. -/
structure Keyed (workers : List WorkerLaunch) : Prop where
  rows : (workers.map fun w => (w.requestId, w.nodeName)).Nodup
  submissions : (workers.map (·.submissionKey)).Nodup

theorem Keyed.eq {workers : List WorkerLaunch} (h : Keyed workers) {w w' : WorkerLaunch}
    (hw : w ∈ workers) (hw' : w' ∈ workers) (hid : w.requestId = w'.requestId)
    (hname : w.nodeName = w'.nodeName) : w = w' :=
  List.inj_on_of_nodup_map h.rows hw hw' (by rw [hid, hname])

/-- Rows rewritten in place keep their keys. -/
theorem Keyed.map {workers : List WorkerLaunch} (h : Keyed workers)
    {f : WorkerLaunch → WorkerLaunch}
    (hf : ∀ w ∈ workers, (f w).requestId = w.requestId ∧ (f w).nodeName = w.nodeName ∧
      (f w).submissionKey = w.submissionKey) : Keyed (workers.map f) where
  rows := by
    rw [List.map_map, List.map_congr_left (g := fun w => (w.requestId, w.nodeName))]
    · exact h.rows
    · intro w hw
      obtain ⟨hid, hname, -⟩ := hf w hw
      simp only [Function.comp_apply, hid, hname]
  submissions := by
    rw [List.map_map, List.map_congr_left (g := (·.submissionKey))]
    · exact h.submissions
    · intro w hw
      exact (hf w hw).2.2

/-- What one event makes of a worker. -/
inductive Move (s : LaunchStore) (e : LaunchEvent) (w : WorkerLaunch) : WorkerLaunch → Prop where
  | stays : Move s e w w
  | reported {token state : String} {jobId error : Option String} {next : WorkerLaunchState}
      (he : e = .report w.requestId token w.nodeName state jobId error)
      (hheld : s.requests.any (s.accepts w.requestId token) = true)
      (hok : w.report (s.registered w.requestId w.nodeName) state jobId error = .ok next) :
      Move s e w (w.record next jobId error)
  | connected (he : e = .reconcile) (hopen : w.state.isOpen = true)
      (hregistered : s.registered w.requestId w.nodeName = true) : Move s e w w.connect

namespace Move

variable {s : LaunchStore} {e : LaunchEvent} {w w' : WorkerLaunch}

theorem keys (h : Move s e w w') : w'.requestId = w.requestId ∧ w'.nodeName = w.nodeName ∧
    w'.submissionKey = w.submissionKey := by
  cases h <;> exact ⟨rfl, rfl, rfl⟩

theorem jobId (h : Move s e w w') {job : String} (hw : w.jobId = some job) :
    w'.jobId = some job := by
  cases h with
  | stays => exact hw
  | reported _ _ hok => exact WorkerLaunch.jobId_kept (WorkerLaunch.report_ok hok).1 hw
  | connected => exact hw

/-- A worker that has ended stays as it ended. -/
theorem ended (h : Move s e w w') (hw : w.state.isOpen = false) : w'.state = w.state := by
  cases h with
  | stays => rfl
  | reported _ _ hok =>
    rcases (WorkerLaunch.report_ok hok).2.1 with hsame | hopen
    · exact hsame.symm
    · rw [hw] at hopen
      cases hopen
  | connected _ hopen =>
    rw [hw] at hopen
    cases hopen

end Move

/-- A request that may still get workers. -/
def LaunchRequest.Unended (r : LaunchRequest) : Prop := r.state = .pending ∨ r.state = .starting

/-- The worker table after an event: the rows moved, and those a claim reserved. -/
structure WorkersMoved (s : LaunchStore) (e : LaunchEvent) (workers : List WorkerLaunch) : Prop where
  moved : ∃ f new, workers = s.workers.map f ++ new ∧ (∀ w ∈ s.workers, Move s e w (f w)) ∧
    (∀ w ∈ new, ∃ r ∈ s.requests, r.id = w.requestId ∧ r.Unended)
  keyed : Keyed workers

theorem workersMoved_map {s : LaunchStore} {e : LaunchEvent} (h : Keyed s.workers)
    {f : WorkerLaunch → WorkerLaunch} (hf : ∀ w ∈ s.workers, Move s e w (f w)) :
    WorkersMoved s e (s.workers.map f) where
  moved := ⟨f, [], by rw [List.append_nil], hf, fun _ hw => absurd hw List.not_mem_nil⟩
  keyed := h.map fun w hw => (hf w hw).keys

theorem workersMoved_same {s : LaunchStore} (e : LaunchEvent) (h : Keyed s.workers) :
    WorkersMoved s e s.workers := by
  have := workersMoved_map (e := e) (f := id) h fun _ _ => .stays
  rwa [List.map_id] at this

/-- The names get the rows they lack. -/
theorem insertWorkers_ok {id : Nat} {uuid : Nat → String} {n : Nat} {names : List (Option String)}
    {workers workers' : List WorkerLaunch}
    (h : LaunchStore.insertWorkers id uuid n names workers = .ok workers') :
    (∃ new, workers' = workers ++ new ∧ ∀ w ∈ new, w.requestId = id) ∧
      (Keyed workers → Keyed workers') := by
  induction names generalizing n workers with
  | nil =>
    cases h
    exact ⟨⟨[], by rw [List.append_nil], fun _ hw => absurd hw List.not_mem_nil⟩, fun hk => hk⟩
  | cons name names ih =>
    cases name with
    | none => cases h
    | some name =>
      unfold LaunchStore.insertWorkers at h
      split at h
      · exact ih h
      · rename_i hnew
        split at h
        · cases h
        · rename_i hkey
          obtain ⟨⟨new, rfl, hids⟩, hkeyed⟩ := ih h
          refine ⟨⟨⟨id, name, uuid n, .pending, none, none⟩ :: new, by rw [List.append_assoc]; rfl, ?_⟩,
            fun hk => hkeyed ⟨?_, ?_⟩⟩
          · intro w hw
            rcases List.mem_cons.1 hw with rfl | hw
            · rfl
            · exact hids w hw
          · rw [List.map_append]
            refine hk.rows.append (List.nodup_singleton _) ?_
            intro key hmem hlast
            obtain ⟨w, hw, rfl⟩ := List.mem_map.1 hmem
            have hsame := List.mem_singleton.1 hlast
            simp only [Prod.mk.injEq] at hsame
            exact hnew (List.any_eq_true.2 ⟨w, hw, WorkerLaunch.isFor_iff.2 hsame⟩)
          · rw [List.map_append]
            refine hk.submissions.append (List.nodup_singleton _) ?_
            intro key hmem hlast
            obtain ⟨w, hw, rfl⟩ := List.mem_map.1 hmem
            have hsame := List.mem_singleton.1 hlast
            exact hkey (List.any_eq_true.2 ⟨w, hw, by simpa using hsame⟩)

theorem mem_of_oldest {requests : List LaunchRequest} {r : LaunchRequest}
    (h : LaunchStore.oldest requests = some r) : r ∈ requests := by
  unfold LaunchStore.oldest at h
  induction requests generalizing r with
  | nil => cases h
  | cons first requests ih =>
    rw [List.foldr_cons] at h
    split at h
    · cases h
      exact List.mem_cons_self
    · rename_i b hb
      split at h
      · cases h
        exact List.mem_cons_self
      · cases h
        exact List.mem_cons_of_mem _ (ih hb)

namespace LaunchStore

variable {s s' : LaunchStore}

/-- What a claim that finds a request does. -/
theorem claimExternalLaunch_ok {owner token : String} {requestId : Option Nat}
    {locked : Nat → Bool} {uuid : Nat → String} {found : Option LaunchClaim}
    (h : s.claimExternalLaunch owner requestId locked uuid token = .ok (found, s')) :
    s' = s ∨ ∃ r ∈ s.requests, r.Unended ∧ ∃ groups workers,
      insertWorkers r.id uuid 0 groups s.workers = .ok workers ∧
      s' = { s.updateRequest r.id (fun r =>
        { r with
          state := .starting, launcherToken := some token, launcherOwner := some owner
          launcherLeaseExpiresAt := some (s.now + seconds leaseSeconds), updatedAt := s.now })
        with workers } := by
  unfold claimExternalLaunch at h
  split at h
  · cases h
  · split at h
    · cases h
      exact .inl rfl
    · rename_i r hr
      split at h
      · cases h
      · rename_i groups _
        cases hinsert : insertWorkers r.id uuid 0 groups.flatten s.workers with
        | error e =>
          rw [hinsert] at h
          cases h
        | ok workers =>
          rw [hinsert] at h
          cases h
          obtain ⟨hmem, hclaimable⟩ := List.mem_filter.1 (mem_of_oldest hr)
          refine .inr ⟨r, hmem, ?_, groups.flatten, workers, hinsert, rfl⟩
          simp only [claimable, Bool.and_eq_true, Bool.or_eq_true, beq_iff_eq] at hclaimable
          exact hclaimable.1.1.1.2

/-- What an accepted report does. -/
theorem updateExternalWorker_ok {id : Nat} {token name state : String}
    {jobId error : Option String}
    (h : s.updateExternalWorker id token name state jobId error = .ok s') :
    s.requests.any (s.accepts id token) = true ∧
      ∃ w next, w ∈ s.workers ∧ w.isFor id name = true ∧
        w.report (s.registered id name) state jobId error = .ok next ∧
        s' = { s with
          workers := s.workers.map fun (w : WorkerLaunch) =>
            if w.isFor id name then w.record next jobId error else w }.publish id := by
  unfold updateExternalWorker at h
  split at h
  · rename_i haccepts
    refine ⟨haccepts, ?_⟩
    split at h
    · cases h
    · rename_i w hw
      cases hreport : w.report (s.registered id name) state jobId error with
      | error e =>
        rw [hreport] at h
        cases h
      | ok next =>
        rw [hreport] at h
        cases h
        exact ⟨w, next, List.mem_of_find?_eq_some hw, List.find?_some hw, hreport, rfl⟩
  · cases h

theorem insertLaunchRequest_workers (backend : String) (requestedCount : Nat)
    (groups : Option (List (List (Option String)))) :
    (s.insertLaunchRequest backend requestedCount groups).workers = s.workers := by
  unfold insertLaunchRequest
  split <;> rfl

theorem bindDeployment_workers {deploymentId : Option String} {build : String}
    (h : s.bindDeployment deploymentId build = .ok s') : s'.workers = s.workers := by
  unfold bindDeployment at h
  split at h
  · cases h
    rfl
  · cases h
  · split at h
    · cases h
      rfl
    · split at h
      · cases h
      · cases h
        rfl

theorem heartbeatExternalLaunch_ok {id : Nat} {token : String} {release : Bool}
    (h : s.heartbeatExternalLaunch id token release = .ok s') :
    ∃ lease, s' = s.updateRequest id fun r => { r with launcherLeaseExpiresAt := some lease } := by
  unfold heartbeatExternalLaunch at h
  split at h
  · cases h
    exact ⟨_, rfl⟩
  · cases h

theorem claimLocalWorkerLaunch_workers (locked : Nat → Bool) :
    (s.claimLocalWorkerLaunch locked).workers = s.workers := by
  unfold claimLocalWorkerLaunch
  split <;> rfl

theorem markLocalLaunch_workers (id : Nat) (state : LaunchRequestState) (startedCount : Nat)
    (error : Option String) : (s.markLocalLaunch id state startedCount error).workers = s.workers := by
  unfold markLocalLaunch
  split <;> rfl

/-- Step lemma of the worker table. -/
theorem workersMoved_step (h : Keyed s.workers) (e : LaunchEvent) :
    WorkersMoved s e (s.step e).workers := by
  cases e with
  | clock now => exact workersMoved_same _ h
  | nodes nodes => exact workersMoved_same _ h
  | create backend requestedCount groups =>
    rw [step, insertLaunchRequest_workers]
    exact workersMoved_same _ h
  | bind deploymentId build =>
    rw [step]
    cases hb : s.bindDeployment deploymentId build with
    | error _ => exact workersMoved_same _ h
    | ok s' =>
      rw [committed, bindDeployment_workers hb]
      exact workersMoved_same _ h
  | claim owner requestId locked uuid token =>
    rw [step]
    cases hc : s.claimExternalLaunch owner requestId locked uuid token with
    | error _ => exact workersMoved_same _ h
    | ok found =>
      obtain ⟨reply, s'⟩ := found
      rcases claimExternalLaunch_ok hc with rfl | ⟨r, hr, hunended, groups, workers, hinsert, rfl⟩
      · exact workersMoved_same _ h
      · obtain ⟨⟨new, rfl, hids⟩, hkeyed⟩ := insertWorkers_ok hinsert
        refine ⟨⟨id, new, by rw [List.map_id]; rfl, fun _ _ => .stays, ?_⟩, hkeyed h⟩
        intro w hw
        exact ⟨r, hr, (hids w hw).symm, hunended⟩
  | heartbeat id token release =>
    rw [step]
    cases hh : s.heartbeatExternalLaunch id token release with
    | error _ => exact workersMoved_same _ h
    | ok s' =>
      obtain ⟨lease, rfl⟩ := heartbeatExternalLaunch_ok hh
      exact workersMoved_same _ h
  | report id token name state jobId error =>
    rw [step]
    cases hu : s.updateExternalWorker id token name state jobId error with
    | error _ => exact workersMoved_same _ h
    | ok s' =>
      obtain ⟨hheld, w₀, next, hw₀, hfor, hreport, rfl⟩ := updateExternalWorker_ok hu
      refine workersMoved_map h ?_
      intro w hw
      split
      · rename_i hw'
        obtain ⟨rfl, rfl⟩ := WorkerLaunch.isFor_iff.1 hfor
        obtain ⟨hid, hname⟩ := WorkerLaunch.isFor_iff.1 hw'
        rw [h.eq hw hw₀ hid hname]
        exact .reported rfl hheld hreport
      · exact .stays
  | reconcile =>
    refine workersMoved_map h ?_
    intro w _
    split
    · rename_i hw
      exact .connected rfl hw.2.1 hw.2.2
    · exact .stays
  | claimLocal locked =>
    rw [step, claimLocalWorkerLaunch_workers]
    exact workersMoved_same _ h
  | markLocal id state startedCount error =>
    rw [step, markLocalLaunch_workers]
    exact workersMoved_same _ h

end LaunchStore

/-! ## The requests in one step -/

/-- What one event makes of the state of a request, with the workers as they are then. -/
inductive RequestMove (workers : List WorkerLaunch) (r r' : LaunchRequest) : Prop where
  | stays (h : r'.state = r.state)
  | unended (h : r'.Unended)
  | cancels (h : r'.state = .canceled)
  | offLimits (h : r.backend ≠ "external")
  | closes (hsettled : r.allSettled workers = true)
      (h : r'.state = if r.anyLost workers then .failed else .fulfilled)

structure RequestsMoved (s : LaunchStore) (workers : List WorkerLaunch) (requests : List LaunchRequest)
    (nextRequestId : Nat) : Prop where
  moved : ∃ f new, requests = s.requests.map f ++ new ∧
    (∀ r ∈ s.requests, (f r).id = r.id ∧ (f r).backend = r.backend ∧ RequestMove workers r (f r)) ∧
    (∀ r ∈ new, r.id = s.nextRequestId ∧ r.state = .pending ∧ s.nextRequestId < nextRequestId) ∧
    new.length ≤ 1
  next : s.nextRequestId ≤ nextRequestId

theorem requestsMoved_map {s : LaunchStore} {workers : List WorkerLaunch}
    {f : LaunchRequest → LaunchRequest}
    (hf : ∀ r ∈ s.requests, (f r).id = r.id ∧ (f r).backend = r.backend ∧ RequestMove workers r (f r)) :
    RequestsMoved s workers (s.requests.map f) s.nextRequestId where
  moved := ⟨f, [], by rw [List.append_nil], hf, fun _ hr => absurd hr List.not_mem_nil,
    Nat.zero_le _⟩
  next := Nat.le_refl _

theorem requestsMoved_same (s : LaunchStore) (workers : List WorkerLaunch) :
    RequestsMoved s workers s.requests s.nextRequestId := by
  have : RequestsMoved s workers (s.requests.map id) s.nextRequestId :=
    requestsMoved_map fun _ _ => ⟨rfl, rfl, .stays rfl⟩
  rwa [List.map_id] at this

/-- One request rewritten. -/
theorem requestsMoved_update {s : LaunchStore} {workers : List WorkerLaunch} {id : Nat}
    {f : LaunchRequest → LaunchRequest}
    (hf : ∀ r ∈ s.requests, r.id = id → (f r).id = r.id ∧ (f r).backend = r.backend ∧
      RequestMove workers r (f r)) :
    RequestsMoved s workers (s.updateRequest id f).requests s.nextRequestId := by
  refine requestsMoved_map ?_
  intro r hr
  split
  · rename_i hid
    exact hf r hr hid
  · exact ⟨rfl, rfl, .stays rfl⟩

namespace LaunchStore

variable {s s' : LaunchStore}

theorem reconcileRequest_moves (workers : List WorkerLaunch) (r : LaunchRequest) :
    (reconcileRequest workers s r).id = r.id ∧ (reconcileRequest workers s r).backend = r.backend ∧
      RequestMove workers r (reconcileRequest workers s r) := by
  have hcount : ∀ b : Bool, ∃ n, (if b then r.publishCount workers else r) =
      { r with startedCount := n } := by
    intro b
    cases b with
    | true => exact ⟨_, rfl⟩
    | false => exact ⟨r.startedCount, rfl⟩
  obtain ⟨n, hn⟩ := hcount (workers.any (·.requestId == r.id))
  unfold reconcileRequest
  rw [hn]
  dsimp only
  by_cases hclose : r.backend = "external" ∧
      (workers.filter (·.requestId == r.id)).length = r.requestedCount ∧
      ({ r with startedCount := n } : LaunchRequest).allSettled workers = true
  · rw [if_pos hclose]
    have hlocal : r.backend ≠ "local" := by
      rw [hclose.1]
      decide
    rw [if_neg fun h => hlocal h.2.1]
    exact ⟨rfl, rfl, .closes hclose.2.2 rfl⟩
  · rw [if_neg hclose]
    split
    · rename_i hlocal
      refine ⟨rfl, rfl, .offLimits ?_⟩
      rw [hlocal.2.1]
      decide
    · exact ⟨rfl, rfl, .stays rfl⟩

/-- A report leaves the state of its request, or closes it where all workers have ended. -/
theorem publish_moves (workers : List WorkerLaunch) (now : Int) (r : LaunchRequest) :
    RequestMove workers r
      (if ({ r.publishCount workers with updatedAt := now } : LaunchRequest).allSettled workers then
        ({ r.publishCount workers with updatedAt := now } : LaunchRequest).close workers
      else { r.publishCount workers with updatedAt := now }) := by
  split
  · rename_i hsettled
    exact .closes hsettled rfl
  · exact .stays rfl

/-- Step lemma of the request table. -/
theorem requestsMoved_step (hids : (s.requests.map (·.id)).Nodup) (e : LaunchEvent) :
    RequestsMoved s (s.step e).workers (s.step e).requests (s.step e).nextRequestId := by
  cases e with
  | clock now => exact requestsMoved_same _ _
  | nodes nodes => exact requestsMoved_same _ _
  | create backend requestedCount groups =>
    rw [step]
    unfold insertLaunchRequest
    split
    · exact requestsMoved_same _ _
    · refine ⟨⟨id, _, by rw [List.map_id], fun _ _ => ⟨rfl, rfl, .stays rfl⟩, ?_, Nat.le_refl _⟩,
        Nat.le_succ _⟩
      intro r hr
      cases List.mem_singleton.1 hr
      exact ⟨rfl, rfl, Nat.lt_succ_self _⟩
  | bind deploymentId build =>
    rw [step]
    cases hb : s.bindDeployment deploymentId build with
    | error _ => exact requestsMoved_same _ _
    | ok s' =>
      unfold bindDeployment at hb
      split at hb
      · cases hb
        exact requestsMoved_same _ _
      · cases hb
      · split at hb
        · cases hb
          exact requestsMoved_same _ _
        · split at hb
          · cases hb
          · cases hb
            refine requestsMoved_map ?_
            intro r _
            split
            · exact ⟨rfl, rfl, .cancels rfl⟩
            · exact ⟨rfl, rfl, .stays rfl⟩
  | claim owner requestId locked uuid token =>
    rw [step]
    cases hc : s.claimExternalLaunch owner requestId locked uuid token with
    | error _ => exact requestsMoved_same _ _
    | ok found =>
      obtain ⟨reply, s'⟩ := found
      rcases claimExternalLaunch_ok hc with rfl | ⟨r, hr, -, groups, workers, -, rfl⟩
      · exact requestsMoved_same _ _
      · exact requestsMoved_update fun r _ _ => ⟨rfl, rfl, .unended (.inr rfl)⟩
  | heartbeat id token release =>
    rw [step]
    cases hh : s.heartbeatExternalLaunch id token release with
    | error _ => exact requestsMoved_same _ _
    | ok s' =>
      obtain ⟨lease, rfl⟩ := heartbeatExternalLaunch_ok hh
      exact requestsMoved_update fun r _ _ => ⟨rfl, rfl, .stays rfl⟩
  | report id token name state jobId error =>
    rw [step]
    cases hu : s.updateExternalWorker id token name state jobId error with
    | error _ => exact requestsMoved_same _ _
    | ok s' =>
      obtain ⟨-, w₀, next, -, -, -, rfl⟩ := updateExternalWorker_ok hu
      refine requestsMoved_update fun r _ _ => ⟨?_, ?_, publish_moves _ _ r⟩
      · dsimp only
        split <;> rfl
      · dsimp only
        split <;> rfl
  | reconcile =>
    refine requestsMoved_map ?_
    intro r _
    dsimp only
    split
    · exact reconcileRequest_moves _ r
    · exact ⟨rfl, rfl, .stays rfl⟩
  | claimLocal locked =>
    rw [step]
    unfold claimLocalWorkerLaunch
    split
    · exact requestsMoved_same _ _
    · exact requestsMoved_update fun r _ _ => ⟨rfl, rfl, .unended (.inr rfl)⟩
  | markLocal id state startedCount error =>
    rw [step]
    unfold markLocalLaunch
    split
    · rename_i hlocal
      obtain ⟨r₀, hr₀, hmatch⟩ := List.any_eq_true.1 hlocal
      simp only [Bool.and_eq_true, beq_iff_eq] at hmatch
      refine requestsMoved_update fun r hr hid => ⟨rfl, rfl, .offLimits ?_⟩
      rw [List.inj_on_of_nodup_map hids hr hr₀ (hid.trans hmatch.1.symm), hmatch.2]
      decide
    · exact requestsMoved_same _ _

end LaunchStore

/-! ## The invariant -/

/-- An external request that is over has only workers that are. -/
structure LaunchInv (s : LaunchStore) : Prop where
  keyed : Keyed s.workers
  ids : (s.requests.map (·.id)).Nodup
  idsBelow : ∀ r ∈ s.requests, r.id < s.nextRequestId
  closed : ∀ r ∈ s.requests, r.backend = "external" → r.state = .fulfilled ∨ r.state = .failed →
    r.allSettled s.workers = true ∧ (r.state = .failed ↔ r.anyLost s.workers = true)

theorem launchInv_empty : LaunchInv .empty where
  keyed := ⟨List.nodup_nil, List.nodup_nil⟩
  ids := List.nodup_nil
  idsBelow := fun _ hr => absurd hr List.not_mem_nil
  closed := fun _ hr => absurd hr List.not_mem_nil

/-- The states of the workers of a request. -/
def statesOf (workers : List WorkerLaunch) (id : Nat) : List WorkerLaunchState :=
  (workers.filter (·.requestId == id)).map (·.state)

namespace LaunchRequest

variable {r : LaunchRequest} {workers workers' : List WorkerLaunch}

theorem allSettled_iff : r.allSettled workers = true ↔
    ∀ x ∈ statesOf workers r.id, x.isOpen = false := by
  simp only [allSettled, statesOf, List.all_eq_true, Bool.or_eq_true, bne_iff_ne, ne_eq,
    Bool.not_eq_true', List.mem_map, List.mem_filter, beq_iff_eq]
  constructor
  · rintro h _ ⟨w, ⟨hw, hid⟩, rfl⟩
    exact (h w hw).resolve_left fun hne => hne hid
  · intro h w hw
    by_cases hid : w.requestId = r.id
    · exact .inr (h w.state ⟨w, ⟨hw, hid⟩, rfl⟩)
    · exact .inl hid

theorem anyLost_iff : r.anyLost workers = true ↔
    ∃ x ∈ statesOf workers r.id, x.isLost = true := by
  simp only [anyLost, statesOf, List.any_eq_true, Bool.and_eq_true, beq_iff_eq, List.mem_map,
    List.mem_filter]
  constructor
  · rintro ⟨w, hw, hid, hlost⟩
    exact ⟨w.state, ⟨w, ⟨hw, hid⟩, rfl⟩, hlost⟩
  · rintro ⟨_, ⟨w, ⟨hw, hid⟩, rfl⟩, hlost⟩
    exact ⟨w, hw, hid, hlost⟩

end LaunchRequest

/-- The workers of a request that is over stay, and no others come. -/
theorem statesOf_kept {s : LaunchStore} {e : LaunchEvent} {workers : List WorkerLaunch} {id : Nat}
    (h : WorkersMoved s e workers)
    (hunended : ∀ r ∈ s.requests, r.id = id → ¬ r.Unended)
    (hsettled : ∀ x ∈ statesOf s.workers id, x.isOpen = false) :
    statesOf workers id = statesOf s.workers id := by
  obtain ⟨f, new, rfl, hmoves, hnew⟩ := h.moved
  have hnone : new.filter (·.requestId == id) = [] := by
    apply List.filter_eq_nil_iff.2
    intro w hw hid
    obtain ⟨r, hr, hrid, hr'⟩ := hnew w hw
    exact hunended r hr (hrid.trans (by simpa using hid)) hr'
  unfold statesOf
  rw [List.filter_append, hnone, List.append_nil, List.filter_map, List.map_map]
  have hsame : s.workers.filter ((fun w => w.requestId == id) ∘ f) =
      s.workers.filter (fun w => w.requestId == id) := by
    apply List.filter_congr
    intro w hw
    simp only [Function.comp_apply, (hmoves w hw).keys.1]
  rw [hsame]
  apply List.map_congr_left
  intro w hw
  obtain ⟨hw, hid⟩ := List.mem_filter.1 hw
  exact (hmoves w hw).ended (hsettled _ (List.mem_map.2 ⟨w, List.mem_filter.2 ⟨hw, hid⟩, rfl⟩))

theorem LaunchInv.step {s : LaunchStore} (h : LaunchInv s) (e : LaunchEvent) :
    LaunchInv (s.step e) := by
  have hworkers := LaunchStore.workersMoved_step h.keyed e
  have hrequests := LaunchStore.requestsMoved_step h.ids e
  obtain ⟨f, new, hreqs, hmoves, hnew, hone⟩ := hrequests.moved
  have hidmap : (s.requests.map f).map (·.id) = s.requests.map (·.id) := by
    rw [List.map_map]
    apply List.map_congr_left
    intro r hr
    exact (hmoves r hr).1
  refine ⟨hworkers.keyed, ?_, ?_, ?_⟩
  · rw [hreqs, List.map_append, hidmap]
    refine h.ids.append ?_ ?_
    · cases new with
      | nil => exact List.nodup_nil
      | cons r new =>
        cases new with
        | nil => exact List.nodup_singleton _
        | cons _ _ => simp only [List.length_cons] at hone; omega
    · intro id hid hid'
      obtain ⟨r, hr, rfl⟩ := List.mem_map.1 hid
      obtain ⟨r', hr', hsame⟩ := List.mem_map.1 hid'
      have hbelow := h.idsBelow r hr
      have hnext := (hnew r' hr').1
      omega
  · intro r hr
    rw [hreqs] at hr
    rcases List.mem_append.1 hr with hr | hr
    · obtain ⟨r₀, hr₀, rfl⟩ := List.mem_map.1 hr
      rw [(hmoves r₀ hr₀).1]
      exact Nat.lt_of_lt_of_le (h.idsBelow r₀ hr₀) hrequests.next
    · obtain ⟨hid, -, hlt⟩ := hnew r hr
      omega
  · intro r hr hexternal hover
    rw [hreqs] at hr
    rcases List.mem_append.1 hr with hr | hr
    · obtain ⟨r₀, hr₀, rfl⟩ := List.mem_map.1 hr
      obtain ⟨hid, hbackend, hmove⟩ := hmoves r₀ hr₀
      rw [LaunchRequest.allSettled_iff, LaunchRequest.anyLost_iff, hid, ← LaunchRequest.allSettled_iff,
        ← LaunchRequest.anyLost_iff]
      cases hmove with
      | stays hstate =>
        rw [hstate] at hover ⊢
        obtain ⟨hsettled, hlost⟩ := h.closed r₀ hr₀ (hbackend ▸ hexternal) hover
        have hkept : statesOf (s.step e).workers r₀.id = statesOf s.workers r₀.id := by
          apply statesOf_kept hworkers _ (LaunchRequest.allSettled_iff.1 hsettled)
          intro r hr hid hunended
          rw [List.inj_on_of_nodup_map h.ids hr hr₀ hid] at hunended
          rcases hover with hover | hover <;> rcases hunended with hu | hu <;>
            (rw [hover] at hu; cases hu)
        rw [LaunchRequest.allSettled_iff, LaunchRequest.anyLost_iff, hkept,
          ← LaunchRequest.allSettled_iff, ← LaunchRequest.anyLost_iff]
        exact ⟨hsettled, hlost⟩
      | unended hu =>
        rcases hover with hover | hover <;> rcases hu with hu | hu <;> (rw [hover] at hu; cases hu)
      | cancels hc =>
        rcases hover with hover | hover <;> (rw [hover] at hc; cases hc)
      | offLimits hlocal => exact absurd (hbackend ▸ hexternal) hlocal
      | closes hsettled hstate =>
        refine ⟨hsettled, ?_⟩
        rw [hstate]
        split
        · rename_i hlost
          exact iff_of_true rfl hlost
        · rename_i hlost
          exact iff_of_false (by decide) hlost
    · obtain ⟨-, hpending, -⟩ := hnew r hr
      rcases hover with hover | hover <;> (rw [hover] at hpending; cases hpending)

theorem launchInv_run (es : List LaunchEvent) : LaunchInv (run LaunchStore.step .empty es) :=
  run_invariant' (fun _ e h => h.step e) es launchInv_empty

/-! ## What holds of every run -/

/-- The token is the current one of the request, and its lease runs. -/
def HoldsLaunch (s : LaunchStore) (id : Nat) (token : String) : Prop :=
  ∃ r ∈ s.requests, s.holds id token r = true

/-- The event is a report on this worker by the holder of its request. -/
def ReportedByHolder (s : LaunchStore) (e : LaunchEvent) (w : WorkerLaunch) : Prop :=
  ∃ token state jobId error,
    e = .report w.requestId token w.nodeName state jobId error ∧ HoldsLaunch s w.requestId token

/-- The event publishes the registration of a worker that had not ended. -/
def RegistrationPublished (s : LaunchStore) (e : LaunchEvent) (w w' : WorkerLaunch) : Prop :=
  e = .reconcile ∧ w.state.isOpen = true ∧ s.registered w.requestId w.nodeName = true ∧
    w'.state = .connected

/-- The event changes the state of no worker, unless `by w w'`. -/
def ChangedOnly (s : LaunchStore) (e : LaunchEvent) (by' : WorkerLaunch → WorkerLaunch → Prop) :
    Prop :=
  ∀ w ∈ s.workers, ∀ w' ∈ (s.step e).workers,
    w'.requestId = w.requestId → w'.nodeName = w.nodeName → w'.state ≠ w.state → by' w w'

/-- The same worker later: its submission key is the same, its job id is kept, and so is a state
in which it ended. -/
structure LaterWorker (w w' : WorkerLaunch) : Prop where
  requestId : w'.requestId = w.requestId
  nodeName : w'.nodeName = w.nodeName
  submissionKey : w'.submissionKey = w.submissionKey
  jobId : ∀ job, w.jobId = some job → w'.jobId = some job
  ended : w.state.isOpen = false → w'.state = w.state

def WorkersKept (s s' : LaunchStore) : Prop :=
  ∀ w ∈ s.workers, ∃ w' ∈ s'.workers, LaterWorker w w'

theorem WorkersKept.refl (s : LaunchStore) : WorkersKept s s :=
  fun w hw => ⟨w, hw, rfl, rfl, rfl, fun _ h => h, fun _ => rfl⟩

theorem WorkersKept.trans {s₁ s₂ s₃ : LaunchStore} (h : WorkersKept s₁ s₂) (h' : WorkersKept s₂ s₃) :
    WorkersKept s₁ s₃ := by
  intro w hw
  obtain ⟨w₂, hw₂, hlater⟩ := h w hw
  obtain ⟨w₃, hw₃, hlater'⟩ := h' w₂ hw₂
  refine ⟨w₃, hw₃, hlater'.requestId.trans hlater.requestId, hlater'.nodeName.trans hlater.nodeName,
    hlater'.submissionKey.trans hlater.submissionKey, ?_, ?_⟩
  · intro job hjob
    exact hlater'.jobId job (hlater.jobId job hjob)
  · intro hended
    have hsame := hlater.ended hended
    rw [hlater'.ended (hsame ▸ hended), hsame]

theorem workersKept_step {s : LaunchStore} (h : LaunchInv s) (e : LaunchEvent) :
    WorkersKept s (s.step e) := by
  obtain ⟨f, new, hworkers, hmoves, -⟩ := (LaunchStore.workersMoved_step h.keyed e).moved
  intro w hw
  obtain ⟨hid, hname, hkey⟩ := (hmoves w hw).keys
  refine ⟨f w, ?_, hid, hname, hkey, fun _ => (hmoves w hw).jobId, (hmoves w hw).ended⟩
  rw [hworkers]
  exact List.mem_append_left _ (List.mem_map_of_mem hw)

theorem changedOnly_step {s : LaunchStore} (h : LaunchInv s) (e : LaunchEvent) :
    ChangedOnly s e fun w w' => ReportedByHolder s e w ∨ RegistrationPublished s e w w' := by
  have hstep := LaunchStore.workersMoved_step h.keyed e
  obtain ⟨f, new, hworkers, hmoves, -⟩ := hstep.moved
  intro w hw w' hw' hid hname hchanged
  have hfw : f w ∈ (s.step e).workers := by
    rw [hworkers]
    exact List.mem_append_left _ (List.mem_map_of_mem hw)
  have hkeys := (hmoves w hw).keys
  have hsame : w' = f w := hstep.keyed.eq hw' hfw (by rw [hid, hkeys.1]) (by rw [hname, hkeys.2.1])
  have hmove := hmoves w hw
  rw [← hsame] at hmove
  cases hmove with
  | stays => exact absurd rfl hchanged
  | reported he hheld _ =>
    obtain ⟨r, hr, haccepts⟩ := List.any_eq_true.1 hheld
    simp only [LaunchStore.accepts, Bool.and_eq_true] at haccepts
    exact .inl ⟨_, _, _, _, he, r, hr, haccepts.1.1⟩
  | connected he hopen hregistered => exact .inr ⟨he, hopen, hregistered, rfl⟩

/-- Every accepted report leaves its request failed or fulfilled exactly when its workers have all
ended, and failed exactly when one of them was lost. -/
def ReportsSettle (s : LaunchStore) : Prop :=
  ∀ id token name state jobId error s',
    s.updateExternalWorker id token name state jobId error = .ok s' →
    ∃ r ∈ s'.requests, r.id = id ∧
      (r.state = .failed ∨ r.state = .fulfilled ↔ r.allSettled s'.workers = true) ∧
      (r.state = .failed ↔ r.allSettled s'.workers = true ∧ r.anyLost s'.workers = true)

theorem reportsSettle {s : LaunchStore} (h : LaunchInv s) : ReportsSettle s := by
  intro id token name state jobId error s' hok
  have hstep : s.step (.report id token name state jobId error) = s' := by
    rw [LaunchStore.step, hok]
    rfl
  have hinv := h.step (.report id token name state jobId error)
  rw [hstep] at hinv
  obtain ⟨haccepts, w, next, -, -, -, rfl⟩ := LaunchStore.updateExternalWorker_ok hok
  obtain ⟨r, hr, haccepts⟩ := List.any_eq_true.1 haccepts
  simp only [LaunchStore.accepts, LaunchStore.holds, Bool.and_eq_true, beq_iff_eq] at haccepts
  obtain ⟨⟨⟨⟨rfl, -⟩, -⟩, hexternal⟩, -⟩ := haccepts
  have hclosed := hinv.closed _ (List.mem_map_of_mem hr)
  refine ⟨_, List.mem_map_of_mem hr, ?_⟩
  rw [if_pos rfl] at hclosed ⊢
  dsimp only at hclosed ⊢
  split
  · rename_i hsettled
    refine ⟨rfl, iff_of_true ?_ hsettled, ?_⟩
    · unfold LaunchRequest.close
      dsimp only
      split
      · exact .inl rfl
      · exact .inr rfl
    · unfold LaunchRequest.close
      dsimp only
      split
      · rename_i hlost
        exact iff_of_true rfl ⟨hsettled, hlost⟩
      · rename_i hlost
        exact iff_of_false (by decide) fun h => hlost h.2
  · rename_i hopen
    rw [if_neg hopen] at hclosed
    have hstarting : ¬ (r.state = .fulfilled ∨ r.state = .failed) :=
      fun hover => hopen (hclosed hexternal hover).1
    refine ⟨rfl, iff_of_false (fun hover => hstarting hover.symm) hopen, ?_⟩
    exact iff_of_false (fun hfailed => hstarting (.inr hfailed)) fun h => hopen h.1

/-- **The launch protocol.** In every run a worker has one row and one submission key, and only a
report of the holder or a registration changes its state; whatever comes after, its key, its job id
and the state in which it ended are kept; and every accepted report settles its request. -/
theorem launch_protocol (before after : List LaunchEvent) (e : LaunchEvent) :
    let s := run LaunchStore.step .empty before
    Keyed s.workers ∧
      (ChangedOnly s e fun w w' => ReportedByHolder s e w ∨ RegistrationPublished s e w w') ∧
      WorkersKept s (run LaunchStore.step s after) ∧ ReportsSettle s := by
  have hinv := launchInv_run before
  exact ⟨hinv.keyed, changedOnly_step hinv e,
    run_rel WorkersKept.refl (fun _ _ _ => WorkersKept.trans) (fun _ e h => LaunchInv.step h e)
      (fun _ e h => workersKept_step h e) after hinv, reportsSettle hinv⟩

/-- One worker, claimed by a launcher and then registered by its node. -/
def registeredWorker : List LaunchEvent :=
  [.create "external" 1 (some [[some "w-1"]]), .claim "launcher" none (fun _ => false)
    (fun _ => "key") "token", .nodes [⟨"w-1", some 1, 0, 1⟩]]

/-- Not only the holder changes the state of a worker: here its registration does. -/
theorem not_changedByHolderOnly : ¬ ∀ (before : List LaunchEvent) (e : LaunchEvent),
    ChangedOnly (run LaunchStore.step .empty before) e fun w _ =>
      ReportedByHolder (run LaunchStore.step .empty before) e w := by
  intro h
  have hchanged := h registeredWorker .reconcile ⟨1, "w-1", "key", .pending, none, none⟩ (by decide)
    ⟨1, "w-1", "key", .connected, none, none⟩ (by decide) rfl rfl (by decide)
  obtain ⟨_, _, _, _, he, -⟩ := hchanged
  cases he

end Gammaboard.Stores
