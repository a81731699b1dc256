import Gammaboard.Core.Errors

/-!
# The task table

`stores/queries/tasks.rs`: the `run_tasks` table and the statements that move a
task through its states. A statement rewrites the rows it names when they are
in a state it accepts and leaves the table otherwise.
-/

namespace Gammaboard.Stores

inductive RunTaskState where
  | pending
  | active
  | completed
  | failed
  deriving DecidableEq, Repr

/-- Where a task runs: on a sampler worker, or in the control plane. -/
inductive TaskHost where
  | samplerWorker
  | controlPlane
  deriving DecidableEq, Repr

structure RunTask where
  id : Int
  runId : Int
  sequenceNr : Int
  host : TaskHost
  state : RunTaskState
  failureReason : Option String
  nrProducedSamples : Int
  nrCompletedSamples : Int
  deriving DecidableEq, Repr

/-- `load_active_run_task`: `LIMIT 1` without an order. -/
def loadActiveRunTask (runId : Int) (tasks : List RunTask) : Option RunTask :=
  tasks.find? fun t => t.runId == runId && t.state == .active

/-- The pending task of the run that `activate_next_run_task` selects, by sequence number and
id. -/
def nextPendingTask (runId : Int) (tasks : List RunTask) : Option RunTask :=
  (tasks.filter fun t => t.runId == runId && t.state == .pending).foldr (fun t best =>
    match best with
    | none => some t
    | some b =>
      if t.sequenceNr < b.sequenceNr ∨ t.sequenceNr = b.sequenceNr ∧ t.id < b.id then some t
      else some b) none

/-- `activate_next_run_task`. -/
def activateNextRunTask (runId : Int) (tasks : List RunTask) : Option RunTask × List RunTask :=
  match nextPendingTask runId tasks with
  | none => (none, tasks)
  | some next =>
    (some { next with state := .active },
      tasks.map fun t => if t.id = next.id then { t with state := .active } else t)

/-- `complete_run_task`. -/
def completeRunTask (taskId : Int) (tasks : List RunTask) : List RunTask :=
  tasks.map fun t =>
    if t.id = taskId ∧ t.state = .active then
      { t with state := .completed, failureReason := none }
    else t

/-- `fail_run_task`. -/
def failRunTask (taskId : Int) (reason : String) (tasks : List RunTask) : List RunTask :=
  tasks.map fun t =>
    if t.id = taskId ∧ (t.state = .pending ∨ t.state = .active) then
      { t with state := .failed, failureReason := some reason }
    else t

/-- `update_run_task_progress`. -/
def updateRunTaskProgress (taskId produced completed : Int) (tasks : List RunTask) :
    List RunTask :=
  tasks.map fun t =>
    if t.id = taskId ∧ t.state = .active then
      { t with nrProducedSamples := produced, nrCompletedSamples := completed }
    else t

theorem loadActiveRunTask_some {runId : Int} {tasks : List RunTask} {t : RunTask}
    (h : loadActiveRunTask runId tasks = some t) :
    t ∈ tasks ∧ t.runId = runId ∧ t.state = .active := by
  have hp := List.find?_some h
  simp only [Bool.and_eq_true, beq_iff_eq] at hp
  exact ⟨List.mem_of_find?_eq_some h, hp⟩

theorem nextPendingTask_some {runId : Int} {tasks : List RunTask} {t : RunTask}
    (h : nextPendingTask runId tasks = some t) :
    t ∈ tasks ∧ t.runId = runId ∧ t.state = .pending := by
  have key : ∀ l : List RunTask, ∀ t, l.foldr (fun t best =>
      match best with
      | none => some t
      | some b =>
        if t.sequenceNr < b.sequenceNr ∨ t.sequenceNr = b.sequenceNr ∧ t.id < b.id then some t
        else some b) none = some t → t ∈ l := by
    intro l
    induction l with
    | nil =>
      intro t h
      cases h
    | cons x l ih =>
      intro t h
      rw [List.foldr_cons] at h
      split at h
      · cases h
        exact List.mem_cons_self
      · rename_i b hb
        split at h
        · cases h
          exact List.mem_cons_self
        · cases h
          exact List.mem_cons_of_mem _ (ih _ hb)
  have hmem := List.mem_filter.1 (key _ t h)
  simp only [Bool.and_eq_true, beq_iff_eq] at hmem
  exact ⟨hmem.1, hmem.2⟩

end Gammaboard.Stores
