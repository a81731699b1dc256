import Gammaboard.Lib.Run
import Gammaboard.Stores.Tasks
import Gammaboard.Stores.WorkQueue

/-!
# Charging a failure to a task

The error path of a worker (`role_runner.rs`, `fail_current_assignment` in
`reconcile.rs`) and the control loops of other nodes (`task_control.rs`) as
interleaved database transactions on one run. A sampler's tick fails its own
task, the worker then stops the role and only afterwards looks up which task is
active and fails that one; the control loops meanwhile activate the next
pending task under their own checks. `charges` records which task every error
path changed to failed.
-/

namespace Gammaboard.Runners

open Gammaboard.Lib Gammaboard.Stores

/-- Where a worker stands. `task` is the task it works on: a sampler's task from the moment it
is built, an evaluator's from the moment it claims a batch of it. -/
inductive WorkerPhase where
  | off
  | running (role : WorkerRole) (task : Option Int)
  /-- The tick has returned an error; the role is still active. -/
  | erred (role : WorkerRole) (task : Option Int)
  /-- `stop_current` has run. -/
  | stopped (role : WorkerRole) (task : Option Int)
  /-- `load_active_run_task` has found a task to fail. -/
  | found (role : WorkerRole) (task : Option Int) (active : Int)
  /-- Desired assignments are still to be cleared. -/
  | clearing
  deriving DecidableEq, Repr

/-- The task whose work or whose error the worker still carries to the lookup. -/
def WorkerPhase.task : WorkerPhase → Option Int
  | .running _ t | .erred _ t | .stopped _ t => t
  | .off | .found _ _ _ | .clearing => none

/-- Where a control loop stands in `reconcile_run`. -/
inductive ControlPhase where
  | idle
  /-- No task of the run was active. `afterControlTask` is `completed_control_task`. -/
  | noneActive (afterControlTask : Bool)
  /-- The queue counters showed no pending or claimed batch. -/
  | drained (afterControlTask : Bool)
  /-- The run is desired or has active workers: the next statement activates. -/
  | activating
  deriving DecidableEq, Repr

/-- An error path for `task` that changed the task `failed` to failed. -/
structure Charge where
  task : Option Int
  failed : Int
  deriving DecidableEq, Repr

structure RunState where
  runId : Int
  tasks : List RunTask
  /-- Pending plus claimed batches of the run. -/
  unfinishedBatches : Int
  desiredAssignmentCount : Int
  activeWorkerCount : Int
  workers : Nat → WorkerPhase
  loops : Nat → ControlPhase
  charges : List Charge

/-- One transaction of a worker, of a control loop or of the rest of the system. `ok` is
whether the store call succeeds. -/
inductive FailureEvent where
  /-- `build_sampler_runner` and `start`. -/
  | startSampler (w : Nat)
  | startEvaluator (w : Nat)
  /-- The evaluator takes a batch of the active task, or gives it back. -/
  | claimBatch (w : Nat)
  | dropBatch (w : Nat)
  /-- The sampler completes its task and the worker finishes the assignment. -/
  | complete (w : Nat)
  /-- The assignment ends without an error. -/
  | finish (w : Nat)
  /-- A sampler tick fails: `fail_task` runs before the error is returned. -/
  | samplerError (w : Nat) (reason : String) (ok : Bool)
  /-- An evaluator tick fails. -/
  | evaluatorError (w : Nat)
  /-- A batch failed permanently: the evaluator fails the batch's task itself. -/
  | evaluatorFailsTask (w : Nat) (reason : String) (ok : Bool)
  | stopCurrent (w : Nat)
  /-- An evaluator below its failure limit returns without failing a task. -/
  | retryEvaluator (w : Nat)
  | lookupActive (w : Nat) (ok : Bool)
  | failFound (w : Nat) (reason : String) (ok : Bool)
  | clearDesired (w : Nat)
  | controlLoad (c : Nat)
  /-- A control-plane task is reconciled to completion. -/
  | controlTaskDone (c : Nat)
  | controlCounts (c : Nat)
  | controlProgress (c : Nat)
  | controlActivate (c : Nat)
  /-- Work, assignments and workers of the run change. -/
  | environment (unfinishedBatches desiredAssignmentCount activeWorkerCount : Int)
  /-- A pending task is appended to the queue. -/
  | appendTask (id sequenceNr : Int) (host : TaskHost)

namespace RunState

/-- A run whose tasks are all pending and that no worker has joined. -/
def init (runId : Int) (tasks : List (Int × Int × TaskHost)) : RunState where
  runId := runId
  tasks := tasks.map fun (id, sequenceNr, host) => ⟨id, runId, sequenceNr, host, .pending, none, 0, 0⟩
  unfinishedBatches := 0
  desiredAssignmentCount := 0
  activeWorkerCount := 0
  workers := fun _ => .off
  loops := fun _ => .idle
  charges := []

def setWorker (s : RunState) (w : Nat) (p : WorkerPhase) : RunState :=
  { s with workers := fun x => if x = w then p else s.workers x }

def setLoop (s : RunState) (c : Nat) (p : ControlPhase) : RunState :=
  { s with loops := fun x => if x = c then p else s.loops x }

/-- `fail_run_task` run by the error path for `task`, with the charge it makes. -/
def failTask (s : RunState) (task : Option Int) (taskId : Int) (reason : String) (ok : Bool) :
    RunState :=
  if ok then
    { s with
      tasks := failRunTask taskId reason s.tasks
      charges :=
        if s.tasks.any (fun t => t.id == taskId && (t.state == .pending || t.state == .active))
        then s.charges ++ [⟨task, taskId⟩] else s.charges }
  else s

def step (s : RunState) : FailureEvent → RunState
  | .startSampler w =>
    match s.workers w, loadActiveRunTask s.runId s.tasks with
    | .off, some t =>
      if t.host = .samplerWorker then s.setWorker w (.running .samplerAggregator (some t.id)) else s
    | _, _ => s
  | .startEvaluator w =>
    match s.workers w with
    | .off => s.setWorker w (.running .evaluator none)
    | _ => s
  | .claimBatch w =>
    match s.workers w, loadActiveRunTask s.runId s.tasks with
    | .running .evaluator _, some t => s.setWorker w (.running .evaluator (some t.id))
    | _, _ => s
  | .dropBatch w =>
    match s.workers w with
    | .running .evaluator _ => s.setWorker w (.running .evaluator none)
    | _ => s
  | .complete w =>
    match s.workers w with
    | .running .samplerAggregator (some a) =>
      { s with tasks := completeRunTask a s.tasks }.setWorker w .off
    | _ => s
  | .finish w =>
    match s.workers w with
    | .running _ _ => s.setWorker w .off
    | _ => s
  | .samplerError w reason ok =>
    match s.workers w with
    | .running .samplerAggregator (some a) =>
      (s.failTask (some a) a reason ok).setWorker w (.erred .samplerAggregator (some a))
    | _ => s
  | .evaluatorError w =>
    match s.workers w with
    | .running .evaluator a => s.setWorker w (.erred .evaluator a)
    | _ => s
  | .evaluatorFailsTask w reason ok =>
    match s.workers w with
    | .running .evaluator (some a) => s.failTask (some a) a reason ok
    | _ => s
  | .stopCurrent w =>
    match s.workers w with
    | .erred role a => s.setWorker w (.stopped role a)
    | _ => s
  | .retryEvaluator w =>
    match s.workers w with
    | .stopped .evaluator _ => s.setWorker w .off
    | _ => s
  | .lookupActive w ok =>
    match s.workers w with
    | .stopped role a =>
      if ok then
        match loadActiveRunTask s.runId s.tasks with
        | some t => s.setWorker w (.found role a t.id)
        | none => s.setWorker w .clearing
      else s.setWorker w .off
    | _ => s
  | .failFound w reason ok =>
    match s.workers w with
    | .found _ a active => (s.failTask a active reason ok).setWorker w .clearing
    | _ => s
  | .clearDesired w =>
    match s.workers w with
    | .clearing => { s with desiredAssignmentCount := 0 }.setWorker w .off
    | _ => s
  | .controlLoad c =>
    match s.loops c, loadActiveRunTask s.runId s.tasks with
    | .idle, none => s.setLoop c (.noneActive false)
    | _, _ => s
  | .controlTaskDone c =>
    match s.loops c, loadActiveRunTask s.runId s.tasks with
    | .idle, some t =>
      if t.host = .controlPlane then
        { s with tasks := completeRunTask t.id s.tasks }.setLoop c (.noneActive true)
      else s
    | _, _ => s
  | .controlCounts c =>
    match s.loops c with
    | .noneActive b => s.setLoop c (if 0 < s.unfinishedBatches then .idle else .drained b)
    | _ => s
  | .controlProgress c =>
    match s.loops c with
    | .drained b =>
      s.setLoop c (if b = false ∧ s.desiredAssignmentCount = 0 ∧ s.activeWorkerCount = 0 then .idle
        else .activating)
    | _ => s
  | .controlActivate c =>
    match s.loops c with
    | .activating => { s with tasks := (activateNextRunTask s.runId s.tasks).2 }.setLoop c .idle
    | _ => s
  | .environment unfinished desired active =>
    { s with
      unfinishedBatches := unfinished, desiredAssignmentCount := desired
      activeWorkerCount := active }
  | .appendTask id sequenceNr host =>
    if s.tasks.any (·.id == id) then s
    else { s with tasks := s.tasks ++ [⟨id, s.runId, sequenceNr, host, .pending, none, 0, 0⟩] }

/-! ## The charges of a run -/

/-- An error path for a task failed no other task. -/
def OwnCharges (s : RunState) : Prop := ∀ c ∈ s.charges, ∀ a, c.task = some a → c.failed = a

@[simp] theorem setWorker_charges (s : RunState) (w : Nat) (p : WorkerPhase) :
    (s.setWorker w p).charges = s.charges := rfl

@[simp] theorem setWorker_tasks (s : RunState) (w : Nat) (p : WorkerPhase) :
    (s.setWorker w p).tasks = s.tasks := rfl

@[simp] theorem setWorker_runId (s : RunState) (w : Nat) (p : WorkerPhase) :
    (s.setWorker w p).runId = s.runId := rfl

@[simp] theorem setLoop_charges (s : RunState) (c : Nat) (p : ControlPhase) :
    (s.setLoop c p).charges = s.charges := rfl

@[simp] theorem setLoop_tasks (s : RunState) (c : Nat) (p : ControlPhase) :
    (s.setLoop c p).tasks = s.tasks := rfl

@[simp] theorem setLoop_workers (s : RunState) (c : Nat) (p : ControlPhase) :
    (s.setLoop c p).workers = s.workers := rfl

@[simp] theorem setLoop_runId (s : RunState) (c : Nat) (p : ControlPhase) :
    (s.setLoop c p).runId = s.runId := rfl

@[simp] theorem failTask_workers (s : RunState) (task : Option Int) (id : Int) (reason : String)
    (ok : Bool) : (s.failTask task id reason ok).workers = s.workers := by
  unfold failTask
  split <;> rfl

@[simp] theorem failTask_runId (s : RunState) (task : Option Int) (id : Int) (reason : String)
    (ok : Bool) : (s.failTask task id reason ok).runId = s.runId := by
  unfold failTask
  split <;> rfl

/-- An error path adds at most one charge, for the task it names. -/
theorem failTask_charges {s : RunState} {task : Option Int} {id : Int} {reason : String}
    {ok : Bool} {c : Charge} (h : c ∈ (s.failTask task id reason ok).charges) :
    c ∈ s.charges ∨ c = ⟨task, id⟩ := by
  unfold failTask at h
  split at h
  · dsimp only at h
    split at h
    · rcases List.mem_append.1 h with h | h
      · exact .inl h
      · exact .inr (List.mem_singleton.1 h)
    · exact .inl h
  · exact .inl h

/-- What an error path has looked up is its own task. -/
structure FoundOwn (s : RunState) : Prop where
  charges : s.OwnCharges
  found : ∀ w role a t, s.workers w = .found role (some a) t → t = a

theorem FoundOwn.setWorker {s : RunState} (h : FoundOwn s) {w : Nat} {p : WorkerPhase}
    (hp : ∀ role a t, p = .found role (some a) t → t = a) : FoundOwn (s.setWorker w p) where
  charges := h.charges
  found := by
    intro x role a t hx
    simp only [RunState.setWorker] at hx
    split at hx
    · exact hp role a t hx
    · exact h.found x role a t hx

theorem FoundOwn.failTask {s : RunState} (h : FoundOwn s) {task : Option Int} {id : Int}
    (ht : ∀ a, task = some a → id = a) (reason : String) (ok : Bool) :
    FoundOwn (s.failTask task id reason ok) where
  charges := by
    intro c hc a ha
    rcases failTask_charges hc with hc | rfl
    · exact h.charges c hc a ha
    · exact ht a ha
  found := by simpa using h.found

/-- At most one task of the run is active, and every worker with a task has that one. -/
structure OneActive (s : RunState) : Prop where
  unique : ∀ t ∈ s.tasks, ∀ u ∈ s.tasks, t.runId = s.runId → u.runId = s.runId →
    t.state = .active → u.state = .active → t.id = u.id
  own : ∀ w a, (s.workers w).task = some a → ∀ t ∈ s.tasks, t.runId = s.runId →
    t.state = .active → t.id = a

/-- Tasks only leave `active`, and workers keep, drop or take up the active task. -/
theorem OneActive.shrink {s s' : RunState} (h : OneActive s) (hrun : s'.runId = s.runId)
    (htasks : ∀ t ∈ s'.tasks, t.state = .active → t ∈ s.tasks)
    (hworkers : ∀ w a, (s'.workers w).task = some a → (s.workers w).task = some a ∨
      ∃ t ∈ s.tasks, t.runId = s.runId ∧ t.state = .active ∧ t.id = a) : OneActive s' where
  unique := by
    intro t ht u hu htr hur hta hua
    rw [hrun] at htr hur
    exact h.unique t (htasks t ht hta) u (htasks u hu hua) htr hur hta hua
  own := by
    intro w a ha t ht htr hta
    rw [hrun] at htr
    rcases hworkers w a ha with hold | ⟨u, hu, hur, hua, rfl⟩
    · exact h.own w a hold t (htasks t ht hta) htr hta
    · exact h.unique t (htasks t ht hta) u hu htr hur hta hua

theorem OneActive.setWorker {s s' : RunState} (h : OneActive s) (hrun : s'.runId = s.runId)
    (htasks : ∀ t ∈ s'.tasks, t.state = .active → t ∈ s.tasks)
    (hworkers : s'.workers = s.workers) {w : Nat} {p : WorkerPhase}
    (hp : ∀ a, p.task = some a → (s.workers w).task = some a ∨
      ∃ t ∈ s.tasks, t.runId = s.runId ∧ t.state = .active ∧ t.id = a) :
    OneActive (s'.setWorker w p) := by
  refine h.shrink hrun htasks fun x a hx => ?_
  simp only [RunState.setWorker] at hx
  split at hx
  · rename_i hxw
    rw [hxw]
    exact hp a hx
  · rw [hworkers] at hx
    exact .inl hx

/-- Only the phases change. -/
theorem OneActive.phase {s : RunState} (h : OneActive s) {w : Nat} {p : WorkerPhase}
    (hp : ∀ a, p.task = some a → (s.workers w).task = some a ∨
      ∃ t ∈ s.tasks, t.runId = s.runId ∧ t.state = .active ∧ t.id = a) :
    OneActive (s.setWorker w p) :=
  h.setWorker rfl (fun _ ht _ => ht) rfl hp

end RunState

end Gammaboard.Runners
