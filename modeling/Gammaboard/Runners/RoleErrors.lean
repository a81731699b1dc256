import Gammaboard.Lib.Run
import Gammaboard.Stores.Nodes
import Gammaboard.Stores.Tasks

/-!
# Handling of role errors

`NodeRunner::run` and the handlers of `node_runner/reconcile.rs`: what a node
does with an error of a role's tick or activation, one store call at a time,
while the rest of the system moves the tasks. A database error of a call made
in `reconcile` returns to the loop, which sleeps and goes on; one made in
`fail_current_assignment` leaves the loop.
-/

namespace Gammaboard.Runners

open Gammaboard.Core Gammaboard.Lib Gammaboard.Stores

def workerRoleText : WorkerRole → String
  | .evaluator => "evaluator"
  | .samplerAggregator => "sampler_aggregator"

/-! ## Failed starts -/

structure RetryState where
  blockedTarget : Option AssignmentTarget
  failureTarget : Option AssignmentTarget
  consecutiveFailures : Nat
  deriving DecidableEq, Repr

namespace RetryState

def u32Max : Nat := 4294967295

def clear : RetryState := ⟨none, none, 0⟩

def resetForDesiredTargetChange (r : RetryState) (desired : Option AssignmentTarget) : RetryState :=
  if desired ≠ r.failureTarget then
    ⟨if r.blockedTarget ≠ desired then none else r.blockedTarget, desired, 0⟩
  else r

def isBlocked (r : RetryState) (target : AssignmentTarget) : Bool := r.blockedTarget = some target

/-- `note_failure`: whether the target is blocked now, and the state. The count saturates. -/
def noteFailure (r : RetryState) (target : AssignmentTarget) (maxConsecutiveFailures : Nat) :
    Bool × RetryState :=
  let count := if r.failureTarget = some target then min (r.consecutiveFailures + 1) u32Max else 1
  if maxConsecutiveFailures ≤ count then (true, ⟨some target, some target, count⟩)
  else (false, ⟨r.blockedTarget, some target, count⟩)

end RetryState

/-! ## The node loop -/

/-- How a store call ends: its effect may be committed although a database error is returned. -/
inductive CallOutcome where
  | done
  | lost
  | failed
  deriving DecidableEq, Repr

def CallOutcome.committed : CallOutcome → Bool
  | .failed => false
  | _ => true

/-- A call of `fail_run_task` that was made: the task and how the call ended. -/
structure Recording where
  task : Int
  outcome : CallOutcome
  deriving DecidableEq, Repr

/-- Where the loop stands. -/
inductive NodePhase where
  /-- No role runs. -/
  | idle
  | active (target : AssignmentTarget)
  /-- `fail_current_assignment` before `load_active_run_task`. -/
  | tickFailed (target : AssignmentTarget) (err : StoreError)
  /-- Before `fail_run_task`. -/
  | tickFound (target : AssignmentTarget) (err : StoreError) (task : Int)
  /-- Before `clear_desired_assignments_for_run`. -/
  | tickClearing (recording : Option Recording)
  /-- A start failed for the last time: before `load_active_run_task`. -/
  | startFailed (target : AssignmentTarget) (err : StoreError)
  /-- Before `list_run_tasks`. -/
  | startListing (target : AssignmentTarget) (err : StoreError)
  /-- `fail_task_activation_and_pause_run` before `fail_run_task`; `err` is what the build then
  returns. -/
  | pausing (target : AssignmentTarget) (task : Int) (reason : String) (err : Option StoreError)
  /-- Before `clear_desired_assignments_for_run`. -/
  | pauseClearing (target : AssignmentTarget) (recording : Option Recording) (err : Option StoreError)
  /-- `run` has returned an error. -/
  | exited
  deriving DecidableEq, Repr

/-- What `build_runner_for_target` and `start` come to. -/
inductive RunnerBuild where
  | runner (markActive : CallOutcome)
  | noRunner
  /-- The build gives the active task of the run up, and returns nothing or an error. -/
  | givesUp (reason : String) (err : Option StoreError)
  | error (err : StoreError)
  deriving DecidableEq, Repr

structure NodeLoop where
  maxConsecutiveStartFailures : Nat
  phase : NodePhase
  retryState : RetryState
  tasks : List RunTask
  /-- The tasks whose error has cleared the desired assignments of their run. -/
  cleared : List Int
  deriving DecidableEq, Repr

inductive LoopEvent where
  | reconcile (desired : Option AssignmentTarget) (build : RunnerBuild)
  | tick (result : Except StoreError Bool)
  /-- The next store call of a handler. -/
  | call (outcome : CallOutcome)
  /-- The rest of the system. -/
  | activateTask (runId : Int)
  | completeTask (taskId : Int)
  | failTask (taskId : Int) (reason : String)
  | appendTask (id runId sequenceNr : Int) (host : TaskHost)

namespace NodeLoop

def init (maxConsecutiveStartFailures : Nat) (tasks : List RunTask) : NodeLoop :=
  ⟨maxConsecutiveStartFailures, .idle, .clear, tasks, []⟩

/-- `finish_current_assignment`. -/
def finishCurrentAssignment (s : NodeLoop) : NodeLoop := { s with phase := .idle, retryState := .clear }

/-- `fail_current_assignment` up to its first store call. -/
def failCurrentAssignment (s : NodeLoop) (target : AssignmentTarget) (err : StoreError) : NodeLoop :=
  let (nowBlocked, retryState) := s.retryState.noteFailure target s.maxConsecutiveStartFailures
  { s with
    retryState := retryState
    phase := if !nowBlocked && target.role = .evaluator then .idle else .tickFailed target err }

/-- `note_start_error` and what follows up to the first store call. A database error returns to the
loop, a retry keeps the count. -/
def buildError (s : NodeLoop) (target : AssignmentTarget) (err : StoreError) : NodeLoop :=
  if err.isDatabaseError || err.isRetryActivation then { s with phase := .idle }
  else
    let (nowBlocked, retryState) := s.retryState.noteFailure target s.maxConsecutiveStartFailures
    { s with retryState := retryState, phase := if nowBlocked then .startFailed target err else .idle }

/-- `build_reconciled_runner` and `start`. -/
def build (s : NodeLoop) (target : AssignmentTarget) : RunnerBuild → NodeLoop
  | .runner .done => { s with phase := .active target, retryState := .clear }
  | .runner _ => s
  | .noRunner => s
  | .givesUp reason err =>
    match loadActiveRunTask target.runId s.tasks with
    | some t => { s with phase := .pausing target t.id reason err }
    | none => s
  | .error err => s.buildError target err

def currentTarget (s : NodeLoop) : Option AssignmentTarget :=
  match s.phase with
  | .active target => some target
  | _ => none

def reconcile (s : NodeLoop) (desired : Option AssignmentTarget) (outcome : RunnerBuild) : NodeLoop :=
  let s' := { s with retryState := s.retryState.resetForDesiredTargetChange desired }
  if s.currentTarget = desired then s'
  else
    match desired with
    | none => { s' with phase := .idle }
    | some target =>
      if s'.retryState.isBlocked target then { s' with phase := .idle }
      else { s' with phase := .idle }.build target outcome

/-- The arms of `tick` in `run`. -/
def tick (s : NodeLoop) (target : AssignmentTarget) : Except StoreError Bool → NodeLoop
  | .ok true => s.finishCurrentAssignment
  | .ok false => s
  | .error err =>
    if err.isDatabaseError then s
    else if err.isRetryActivation then s.finishCurrentAssignment
    else s.failCurrentAssignment target err

/-- `clear_desired_assignments_for_run` on behalf of the recorded task. -/
def clearDesired (s : NodeLoop) (recording : Option Recording) (o : CallOutcome) : NodeLoop :=
  if o.committed then { s with cleared := s.cleared ++ (recording.map (·.task)).toList } else s

def recordFailure (s : NodeLoop) (task : Int) (reason : String) (o : CallOutcome) : NodeLoop :=
  if o.committed then { s with tasks := failRunTask task reason s.tasks } else s

/-- The first pending task of the run that a sampler worker runs. -/
def pendingSamplerTask (runId : Int) (tasks : List RunTask) : Option RunTask :=
  nextPendingTask runId (tasks.filter fun t => t.host = .samplerWorker)

def startReason (target : AssignmentTarget) (err : StoreError) : String :=
  workerRoleText target.role ++ " role permanently failed to start: " ++ err.toText

/-- One store call of a handler. -/
def call (s : NodeLoop) (o : CallOutcome) : NodeLoop :=
  match s.phase with
  | .idle | .active _ | .exited => s
  | .tickFailed target err =>
    if o = .done then
      match loadActiveRunTask target.runId s.tasks with
      | some t => { s with phase := .tickFound target err t.id }
      | none => { s with phase := .tickClearing none }
    else { s with phase := .exited }
  | .tickFound target err task =>
    { s.recordFailure task (workerRoleText target.role ++ " role failed: " ++ err.toText) o with
      phase := .tickClearing (some ⟨task, o⟩) }
  | .tickClearing recording =>
    { s.clearDesired recording o with phase := if o = .done then .idle else .exited }
  | .startFailed target err =>
    if o = .done then
      match loadActiveRunTask target.runId s.tasks with
      | some t => { s with phase := .pausing target t.id (startReason target err) none }
      | none => { s with phase := .startListing target err }
    else { s with phase := .idle }
  | .startListing target err =>
    if o = .done then
      match pendingSamplerTask target.runId s.tasks with
      | some t => { s with phase := .pausing target t.id (startReason target err) none }
      | none => { s with phase := .pauseClearing target none none }
    else { s with phase := .idle }
  | .pausing target task reason err =>
    { s.recordFailure task reason o with phase := .pauseClearing target (some ⟨task, o⟩) err }
  | .pauseClearing target recording err =>
    match err with
    | none => { s.clearDesired recording o with phase := .idle }
    | some err => (s.clearDesired recording o).buildError target err

def step (s : NodeLoop) : LoopEvent → NodeLoop
  | .reconcile desired outcome =>
    match s.phase with
    | .idle | .active _ => s.reconcile desired outcome
    | _ => s
  | .tick result =>
    match s.phase with
    | .active target => s.tick target result
    | _ => s
  | .call o => s.call o
  | .activateTask runId => { s with tasks := (activateNextRunTask runId s.tasks).2 }
  | .completeTask taskId => { s with tasks := completeRunTask taskId s.tasks }
  | .failTask taskId reason => { s with tasks := failRunTask taskId reason s.tasks }
  | .appendTask id runId sequenceNr host =>
    if s.tasks.any (·.id == id) then s
    else { s with tasks := s.tasks ++ [⟨id, runId, sequenceNr, host, .pending, none, 0, 0⟩] }

/-! ## Errors that are kept -/

/-- A task of the table is neither pending nor active any more. -/
def Settled (tasks : List RunTask) (id : Int) : Prop :=
  id ∈ tasks.map (·.id) ∧ ∀ t ∈ tasks, t.id = id → t.state ≠ .pending ∧ t.state ≠ .active

/-- A recorded failure whose call has not failed. -/
def Recorded (recording : Option Recording) : Prop := ∀ r ∈ recording, r.outcome ≠ .failed

/-- The lookup and the clearing after a failed tick succeed, and no handler clears the desired
assignments after `fail_run_task` has failed. -/
def CallSucceeds (o : CallOutcome) : NodePhase → Prop
  | .tickFailed _ _ => o = .done
  | .tickClearing recording => o = .done ∧ Recorded recording
  | .pauseClearing _ recording _ => o.committed = true → Recorded recording
  | _ => True

def HandlerSucceeds (s : NodeLoop) : LoopEvent → Prop
  | .call o => CallSucceeds o s.phase
  | _ => True

instance (tasks : List RunTask) (id : Int) : Decidable (Settled tasks id) :=
  inferInstanceAs (Decidable (_ ∧ _))

instance (recording : Option Recording) : Decidable (Recorded recording) :=
  match recording with
  | none => isTrue fun _ h => by cases h
  | some r => decidable_of_iff (r.outcome ≠ .failed)
      ⟨fun h _ hr => Option.some.inj hr ▸ h, fun h => h r rfl⟩

instance (o : CallOutcome) : (phase : NodePhase) → Decidable (CallSucceeds o phase)
  | .tickFailed _ _ => inferInstanceAs (Decidable (o = .done))
  | .tickClearing recording => inferInstanceAs (Decidable (o = .done ∧ Recorded recording))
  | .pauseClearing _ recording _ =>
    inferInstanceAs (Decidable (o.committed = true → Recorded recording))
  | .idle | .active _ | .tickFound _ _ _ | .startFailed _ _ | .startListing _ _ | .pausing _ _ _ _
  | .exited => isTrue trivial

instance (s : NodeLoop) : (e : LoopEvent) → Decidable (HandlerSucceeds s e)
  | .call o => inferInstanceAs (Decidable (CallSucceeds o s.phase))
  | .reconcile _ _ | .tick _ | .activateTask _ | .completeTask _ | .failTask _ _
  | .appendTask _ _ _ _ => isTrue trivial

/-! ## Tasks that have ended stay ended -/

section Settled

variable {tasks : List RunTask} {id : Int}

theorem Settled.map (h : Settled tasks id) {f : RunTask → RunTask} (hid : ∀ t, (f t).id = t.id)
    (hf : ∀ t ∈ tasks, t.id = id → (f t).state ≠ .pending ∧ (f t).state ≠ .active) :
    Settled (tasks.map f) id := by
  constructor
  · rw [List.map_map, show (fun t : RunTask => t.id) ∘ f = fun t => t.id from funext hid]
    exact h.1
  · intro t ht htid
    obtain ⟨t', ht', rfl⟩ := List.mem_map.1 ht
    exact hf t' ht' (hid t' ▸ htid)

theorem Settled.failRunTask (h : Settled tasks id) (taskId : Int) (reason : String) :
    Settled (failRunTask taskId reason tasks) id := by
  refine h.map (fun t => ?_) fun t ht htid => ?_
  · split <;> rfl
  · split
    · exact ⟨by simp, by simp⟩
    · exact h.2 t ht htid

theorem Settled.completeRunTask (h : Settled tasks id) (taskId : Int) :
    Settled (completeRunTask taskId tasks) id := by
  refine h.map (fun t => ?_) fun t ht htid => ?_
  · split <;> rfl
  · split
    · exact ⟨by simp, by simp⟩
    · exact h.2 t ht htid

theorem Settled.activateNextRunTask (h : Settled tasks id) (runId : Int) :
    Settled (activateNextRunTask runId tasks).2 id := by
  unfold Stores.activateNextRunTask
  split
  · exact h
  · rename_i next hnext
    obtain ⟨hmem, -, hpending⟩ := nextPendingTask_some hnext
    refine h.map (fun t => ?_) fun t ht htid => ?_
    · split <;> rfl
    · have hne : t.id ≠ next.id := fun heq => (h.2 next hmem (heq ▸ htid)).1 hpending
      rw [if_neg hne]
      exact h.2 t ht htid

theorem Settled.append (h : Settled tasks id) {t : RunTask} (ht : t.id ∉ tasks.map (·.id)) :
    Settled (tasks ++ [t]) id := by
  constructor
  · rw [List.map_append]
    exact List.mem_append_left _ h.1
  · intro x hx hxid
    rcases List.mem_append.1 hx with hx | hx
    · exact h.2 x hx hxid
    · rw [List.mem_singleton.1 hx] at hxid
      exact absurd (hxid ▸ h.1) ht

/-- A failure that is recorded ends the task. -/
theorem settled_failRunTask (h : id ∈ tasks.map (·.id)) (reason : String) :
    Settled (Stores.failRunTask id reason tasks) id := by
  unfold Stores.failRunTask
  constructor
  · rw [List.map_map]
    obtain ⟨t, ht, rfl⟩ := List.mem_map.1 h
    refine List.mem_map.2 ⟨t, ht, ?_⟩
    rw [Function.comp_apply]
    split <;> rfl
  · intro t ht htid
    obtain ⟨t', -, rfl⟩ := List.mem_map.1 ht
    split
    · exact ⟨by simp, by simp⟩
    · rename_i hnot
      rw [if_neg hnot] at htid
      exact ⟨fun hp => hnot ⟨htid, .inl hp⟩, fun ha => hnot ⟨htid, .inr ha⟩⟩

end Settled

/-! ## The invariant of the loop -/

/-- What a handler has found or recorded is a task of the table. -/
def PhaseOk (tasks : List RunTask) : NodePhase → Prop
  | .tickFound _ _ task | .pausing _ task _ _ => task ∈ tasks.map (·.id)
  | .tickClearing recording | .pauseClearing _ recording _ =>
    ∀ r ∈ recording, r.outcome ≠ .failed → Settled tasks r.task
  | .exited => False
  | _ => True

structure Kept (s : NodeLoop) : Prop where
  phase : PhaseOk s.tasks s.phase
  recorded : ∀ id ∈ s.cleared, Settled s.tasks id

variable {s : NodeLoop}

theorem Kept.init (maxFailures : Nat) (tasks : List RunTask) : Kept (init maxFailures tasks) where
  phase := trivial
  recorded := by simp [NodeLoop.init]

/-- Tasks that stay in the table, ended or not. -/
theorem Kept.withTasks (h : Kept s) {tasks : List RunTask}
    (hids : ∀ id ∈ s.tasks.map (·.id), id ∈ tasks.map (·.id))
    (hsettled : ∀ id, Settled s.tasks id → Settled tasks id) : Kept { s with tasks := tasks } where
  phase := by
    have hphase := h.phase
    dsimp only
    cases hs : s.phase with
    | tickFound _ _ task | pausing _ task _ _ =>
      rw [hs] at hphase
      exact hids _ hphase
    | tickClearing recording | pauseClearing _ recording _ =>
      rw [hs] at hphase
      exact fun r hr hok => hsettled _ (hphase r hr hok)
    | exited =>
      rw [hs] at hphase
      exact hphase
    | idle | active _ | tickFailed _ _ | startFailed _ _ | startListing _ _ => trivial
  recorded := fun id hid => hsettled id (h.recorded id hid)

theorem Kept.withPhase (h : Kept s) {s' : NodeLoop} (htasks : s'.tasks = s.tasks)
    (hcleared : s'.cleared = s.cleared) (hphase : PhaseOk s.tasks s'.phase) : Kept s' where
  phase := htasks ▸ hphase
  recorded := by rw [hcleared, htasks]; exact h.recorded

theorem ids_failRunTask (tasks : List RunTask) (taskId : Int) (reason : String) :
    (failRunTask taskId reason tasks).map (·.id) = tasks.map (·.id) := by
  unfold failRunTask
  rw [List.map_map]
  refine List.map_congr_left fun t _ => ?_
  rw [Function.comp_apply]
  split <;> rfl

theorem Kept.recordFailure (h : Kept s) (task : Int) (reason : String) (o : CallOutcome) :
    Kept (s.recordFailure task reason o) := by
  unfold NodeLoop.recordFailure
  split
  · exact h.withTasks (fun id hid => by rwa [ids_failRunTask])
      fun id hid => hid.failRunTask task reason
  · exact h

/-- A recording that has not failed ends its task. -/
theorem settled_recordFailure {task : Int} (h : task ∈ s.tasks.map (·.id)) (reason : String)
    {o : CallOutcome} (ho : o ≠ .failed) : Settled (s.recordFailure task reason o).tasks task := by
  unfold NodeLoop.recordFailure
  have hcommitted : o.committed = true := by
    cases o with
    | failed => exact absurd rfl ho
    | done | lost => rfl
  rw [if_pos hcommitted]
  exact settled_failRunTask h reason

theorem Kept.clearDesired (h : Kept s) {recording : Option Recording} {o : CallOutcome}
    (hrec : o.committed = true → ∀ r ∈ recording, Settled s.tasks r.task) :
    Kept (s.clearDesired recording o) := by
  unfold NodeLoop.clearDesired
  split
  · rename_i hcommitted
    refine ⟨h.phase, fun id hid => ?_⟩
    rcases List.mem_append.1 hid with hid | hid
    · exact h.recorded id hid
    · obtain ⟨r, hr, rfl⟩ := Option.map_eq_some_iff.1 (Option.mem_toList.1 hid)
      exact hrec hcommitted r hr
  · exact h

theorem Kept.buildError (h : Kept s) (target : AssignmentTarget) (err : StoreError) :
    Kept (s.buildError target err) := by
  unfold NodeLoop.buildError
  split
  · exact h.withPhase rfl rfl trivial
  · refine h.withPhase rfl rfl ?_
    dsimp only
    split <;> exact trivial

theorem mem_ids_of_active {runId : Int} {tasks : List RunTask} {t : RunTask}
    (h : loadActiveRunTask runId tasks = some t) : t.id ∈ tasks.map (·.id) :=
  List.mem_map_of_mem (loadActiveRunTask_some h).1

theorem mem_ids_of_pending {runId : Int} {tasks : List RunTask} {t : RunTask}
    (h : pendingSamplerTask runId tasks = some t) : t.id ∈ tasks.map (·.id) :=
  List.mem_map_of_mem (List.mem_of_mem_filter (nextPendingTask_some h).1)

theorem Kept.reconcile (h : Kept s) (desired : Option AssignmentTarget) (outcome : RunnerBuild) :
    Kept (s.reconcile desired outcome) := by
  have hidle : ∀ r, Kept { s with phase := .idle, retryState := r } := fun r =>
    h.withPhase rfl rfl trivial
  unfold NodeLoop.reconcile
  dsimp only
  split
  · exact h.withPhase rfl rfl h.phase
  · cases desired with
    | none => exact hidle _
    | some target =>
      dsimp only
      split
      · exact hidle _
      · cases outcome with
        | runner o => cases o <;> exact h.withPhase rfl rfl trivial
        | noRunner => exact hidle _
        | givesUp reason err =>
          unfold NodeLoop.build
          dsimp only
          split
          · rename_i t ht
            exact h.withPhase rfl rfl (mem_ids_of_active ht)
          · exact hidle _
        | error err => exact (hidle _).buildError target err

theorem Kept.tick (h : Kept s) (target : AssignmentTarget) (result : Except StoreError Bool) :
    Kept (s.tick target result) := by
  unfold NodeLoop.tick
  split
  · exact h.withPhase rfl rfl trivial
  · exact h
  · split
    · exact h
    split
    · exact h.withPhase rfl rfl trivial
    · refine h.withPhase rfl rfl ?_
      dsimp only [failCurrentAssignment]
      split <;> exact trivial

theorem Kept.call (h : Kept s) (o : CallOutcome) (hok : HandlerSucceeds s (.call o)) :
    Kept (s.call o) := by
  have hphase := h.phase
  unfold NodeLoop.call
  have hok : CallSucceeds o s.phase := hok
  cases hs : s.phase with
  | idle | active _ | exited => exact h
  | tickFailed target err =>
    rw [hs] at hok
    dsimp only
    rw [if_pos (show o = .done from hok)]
    split
    · rename_i t ht
      exact h.withPhase rfl rfl (mem_ids_of_active ht)
    · exact h.withPhase rfl rfl (fun r hr => by cases hr)
  | tickFound target err task =>
    rw [hs] at hphase
    refine (h.recordFailure task _ o).withPhase rfl rfl fun r hr hne => ?_
    cases hr
    exact settled_recordFailure hphase _ hne
  | tickClearing recording =>
    rw [hs] at hok hphase
    obtain ⟨hdone, hrec⟩ := hok
    refine (h.clearDesired fun _ r hr => hphase r hr (hrec r hr)).withPhase rfl rfl ?_
    rw [if_pos hdone]
    trivial
  | startFailed target err =>
    dsimp only
    split
    · split
      · rename_i t ht
        exact h.withPhase rfl rfl (mem_ids_of_active ht)
      · exact h.withPhase rfl rfl trivial
    · exact h.withPhase rfl rfl trivial
  | startListing target err =>
    dsimp only
    split
    · split
      · rename_i t ht
        exact h.withPhase rfl rfl (mem_ids_of_pending ht)
      · exact h.withPhase rfl rfl (fun r hr => by cases hr)
    · exact h.withPhase rfl rfl trivial
  | pausing target task reason err =>
    rw [hs] at hphase
    refine (h.recordFailure task _ o).withPhase rfl rfl fun r hr hne => ?_
    cases hr
    exact settled_recordFailure hphase _ hne
  | pauseClearing target recording err =>
    rw [hs] at hok hphase
    have hclear : Kept (s.clearDesired recording o) :=
      h.clearDesired fun hcommitted r hr => hphase r hr (hok hcommitted r hr)
    cases err with
    | none => exact hclear.withPhase rfl rfl trivial
    | some err => exact hclear.buildError target err

theorem kept_step (s : NodeLoop) (e : LoopEvent) (h : Kept s) (hok : HandlerSucceeds s e) :
    Kept (s.step e) := by
  cases e with
  | reconcile desired outcome =>
    simp only [step]
    split
    · exact h.reconcile desired outcome
    · exact h.reconcile desired outcome
    · exact h
  | tick result =>
    simp only [step]
    split
    · exact h.tick _ result
    · exact h
  | call o => exact h.call o hok
  | activateTask runId =>
    refine h.withTasks (fun id hid => ?_) fun id hid => hid.activateNextRunTask runId
    unfold activateNextRunTask
    split
    · exact hid
    · rw [List.map_map]
      obtain ⟨t, ht, rfl⟩ := List.mem_map.1 hid
      refine List.mem_map.2 ⟨t, ht, ?_⟩
      rw [Function.comp_apply]
      split <;> rfl
  | completeTask taskId =>
    refine h.withTasks (fun id hid => ?_) fun id hid => hid.completeRunTask taskId
    obtain ⟨t, ht, rfl⟩ := List.mem_map.1 hid
    unfold completeRunTask
    rw [List.map_map]
    refine List.mem_map.2 ⟨t, ht, ?_⟩
    rw [Function.comp_apply]
    split <;> rfl
  | failTask taskId reason =>
    exact h.withTasks (fun id hid => by rwa [ids_failRunTask])
      fun id hid => hid.failRunTask taskId reason
  | appendTask id runId sequenceNr host =>
    simp only [step]
    split
    · exact h
    · rename_i hfresh
      refine h.withTasks (fun x hx => ?_) fun x hx => hx.append fun hmem => hfresh ?_
      · rw [List.map_append]
        exact List.mem_append_left _ hx
      · obtain ⟨t, ht, hid⟩ := List.mem_map.1 hmem
        exact List.any_eq_true.2 ⟨t, ht, beq_iff_eq.2 hid⟩

theorem buildError_ne_exited (s : NodeLoop) (target : AssignmentTarget) (err : StoreError) :
    (s.buildError target err).phase ≠ .exited := by
  unfold NodeLoop.buildError
  dsimp only
  split
  · simp
  · dsimp only
    split <;> simp

theorem reconcile_ne_exited (h : s.phase ≠ .exited) (desired : Option AssignmentTarget)
    (outcome : RunnerBuild) : (s.reconcile desired outcome).phase ≠ .exited := by
  unfold NodeLoop.reconcile
  dsimp only
  split
  · exact h
  · cases desired with
    | none => simp
    | some target =>
      dsimp only
      split
      · simp
      · cases outcome with
        | runner o => cases o <;> simp [NodeLoop.build]
        | noRunner => simp [NodeLoop.build]
        | givesUp reason err =>
          unfold NodeLoop.build
          dsimp only
          split <;> simp
        | error err => exact buildError_ne_exited _ target err

theorem tick_ne_exited (h : s.phase ≠ .exited) (target : AssignmentTarget)
    (result : Except StoreError Bool) : (s.tick target result).phase ≠ .exited := by
  unfold NodeLoop.tick
  split
  · simp [finishCurrentAssignment]
  · exact h
  · split
    · exact h
    split
    · simp [finishCurrentAssignment]
    · dsimp only [failCurrentAssignment]
      split <;> simp

/-- The loop is left by a failing lookup or clearing after a failed tick, and by nothing else. -/
theorem exited_step_iff (s : NodeLoop) (e : LoopEvent) (h : s.phase ≠ .exited) :
    (s.step e).phase = .exited ↔ ∃ o, e = .call o ∧ o ≠ .done ∧
      ((∃ target err, s.phase = .tickFailed target err) ∨ ∃ r, s.phase = .tickClearing r) := by
  cases e with
  | reconcile desired outcome =>
    refine iff_of_false ?_ (by simp)
    simp only [step]
    split
    · exact reconcile_ne_exited h desired outcome
    · exact reconcile_ne_exited h desired outcome
    · exact h
  | tick result =>
    refine iff_of_false ?_ (by simp)
    simp only [step]
    split
    · exact tick_ne_exited h _ result
    · exact h
  | call o =>
    simp only [step, NodeLoop.call]
    cases hs : s.phase with
    | idle | active _ => simp [hs]
    | exited => exact absurd hs h
    | tickFailed target err =>
      dsimp only
      split
      · rename_i hdone
        refine iff_of_false ?_ (by simp [hdone])
        split <;> simp
      · simp_all
    | tickFound target err task => simp
    | tickClearing recording =>
      dsimp only
      split <;> simp_all
    | startFailed target err =>
      refine iff_of_false ?_ (by simp)
      dsimp only
      split
      · split <;> simp
      · simp
    | startListing target err =>
      refine iff_of_false ?_ (by simp)
      dsimp only
      split
      · split <;> simp
      · simp
    | pausing target task reason err => simp
    | pauseClearing target recording err =>
      refine iff_of_false ?_ (by simp)
      cases err with
      | none => simp
      | some err => exact buildError_ne_exited _ target err
  | appendTask id runId sequenceNr host =>
    refine iff_of_false ?_ (by simp)
    simp only [step]
    split <;> exact h
  | activateTask _ | completeTask _ | failTask _ _ => exact iff_of_false h (by simp)

end NodeLoop

end Gammaboard.Runners
