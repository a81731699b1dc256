import Gammaboard.Api.TaskQueue
import Mathlib.Algebra.Order.Field.Rat

/-!
# A queue that is edited stays a valid queue

Requests check the queue they read and are applied to a queue with the same
definitions, so what they leave has been checked as a whole. Between its
creation and any later state of a run, whatever is edited, activated, completed
or failed in whatever order, the queue is one a new run could be created with,
and a task that was started keeps its definition and its place.
-/

set_option linter.unusedSectionVars false

namespace Gammaboard.Api

open Gammaboard.Core Gammaboard.Lib Gammaboard.Utils

variable {K E Q T D : Type} [Field K] [LinearOrder K] [DecidableEq E] [DecidableEq Q] [DecidableEq T]
  [DecidableEq D] {checks : PreflightChecks K E Q T D}

/-! ## Rows in their order -/

/-- Rows in the order of their sequence numbers. -/
abbrev InSequence (tasks : List (QueuedTask K E Q T D)) : Prop :=
  tasks.Pairwise fun t u => t.sequenceNr < u.sequenceNr

theorem mergeSort_of_inSequence {tasks : List (QueuedTask K E Q T D)} (h : InSequence tasks) :
    tasks.mergeSort QueuedTask.before = tasks := by
  refine List.mergeSort_of_pairwise (h.imp fun {t u} htu => ?_)
  simp [QueuedTask.before, htu]

theorem lt_nextSequence {tasks : List (QueuedTask K E Q T D)} {t : QueuedTask K E Q T D}
    (ht : t ∈ tasks) : t.sequenceNr < QueuedTask.nextSequence tasks := by
  unfold QueuedTask.nextSequence
  cases hmax : (tasks.map (·.sequenceNr)).max? with
  | none =>
    rw [List.max?_eq_none_iff, List.map_eq_nil_iff] at hmax
    rw [hmax] at ht
    cases ht
  | some m =>
    have hle := (List.max?_eq_some_iff.1 hmax).2 _ (List.mem_map_of_mem (f := (·.sequenceNr)) ht)
    rw [Option.getD_some]
    omega

namespace EditedRun

theorem mem_insertedTasks {n id : Int} {inputs : List (RunTaskInput K E Q T D)}
    {t : QueuedTask K E Q T D} (ht : t ∈ insertedTasks n id inputs) :
    n ≤ t.sequenceNr ∧ id ≤ t.id ∧ t.id < id + inputs.length ∧ t.state = .pending := by
  induction inputs generalizing n id with
  | nil => cases ht
  | cons input inputs ih =>
    rw [List.length_cons]
    rcases List.mem_cons.1 ht with rfl | ht
    · refine ⟨le_refl _, le_refl _, ?_, rfl⟩
      dsimp only
      omega
    · obtain ⟨hseq, hid, hlt, hstate⟩ := ih ht
      exact ⟨by omega, by omega, by push_cast; omega, hstate⟩

theorem inSequence_insertedTasks (n id : Int) (inputs : List (RunTaskInput K E Q T D)) :
    InSequence (insertedTasks n id inputs) := by
  induction inputs generalizing n id with
  | nil => exact .nil
  | cons input inputs ih =>
    refine .cons (fun t ht => ?_) (ih (n + 1) (id + 1))
    have := (mem_insertedTasks ht).1
    dsimp only
    omega

theorem ids_insertedTasks (n id : Int) (inputs : List (RunTaskInput K E Q T D)) :
    ((insertedTasks n id inputs).map (·.id)).Nodup := by
  induction inputs generalizing n id with
  | nil => exact .nil
  | cons input inputs ih =>
    rw [insertedTasks, List.map_cons, List.nodup_cons]
    refine ⟨fun hmem => ?_, ih (n + 1) (id + 1)⟩
    obtain ⟨t, ht, heq⟩ := List.mem_map.1 hmem
    have := (mem_insertedTasks ht).2.1
    dsimp only at heq
    omega

/-- New rows have the definitions that were checked. -/
theorem definition_insertedTasks (n id : Int) (inputs : List (RunTaskInput K E Q T D)) :
    (insertedTasks n id inputs).map QueuedTask.definition =
      TaskPreflightContext.named n inputs := by
  induction inputs generalizing n id with
  | nil => rfl
  | cons input inputs ih =>
    rw [insertedTasks, List.map_cons, ih, TaskPreflightContext.named]
    rfl

theorem matchesExpected_definition {rows expected : List (QueuedTask K E Q T D)}
    (h : matchesExpected rows expected = true) :
    rows.map (fun t => (t.id, t.name, t.sequenceNr, t.task)) =
      expected.map fun t => (t.id, t.name, t.sequenceNr, t.task) := by
  induction rows generalizing expected with
  | nil =>
    cases expected with
    | nil => rfl
    | cons t expected => cases h
  | cons row rows ih =>
    cases expected with
    | nil => cases h
    | cons t expected =>
      simp only [matchesExpected, sameRow, Bool.and_eq_true, beq_iff_eq] at h
      obtain ⟨⟨⟨⟨hid, hname⟩, hseq⟩, htask⟩, hrest⟩ := h
      rw [List.map_cons, List.map_cons, ih hrest, hid, hname, hseq, htask]

/-! ## The queue as a whole -/

/-- The definitions pass the preflight of a whole queue. -/
def Accepted (checks : PreflightChecks K E Q T D) (evaluator : Option E) (domain : Domain)
    (inputs : List (RunTaskInput K E Q T D)) : Prop :=
  ∃ c, (TaskPreflightContext.initial evaluator domain).validateBatch checks inputs = .ok c

theorem validateQueueDefinition_ok {run : EditedRun K E Q T D}
    {inputs : List (RunTaskInput K E Q T D)} :
    run.validateQueueDefinition checks inputs = .ok () ↔
      Accepted checks run.evaluator run.domain inputs := by
  unfold validateQueueDefinition Accepted
  rw [TaskPreflightContext.fromExistingTasks_nil]
  simp only [bind, Except.bind]
  cases hbatch : (TaskPreflightContext.initial run.evaluator run.domain).validateBatch checks inputs with
  | error e => simp
  | ok c => simp

/-- Tasks are accepted after the recorded ones exactly when the queue with them is accepted, and
otherwise with the same error. -/
theorem validateAppended_eq {run : EditedRun K E Q T D} (hsorted : InSequence run.tasks)
    (haccepted : Accepted checks run.evaluator run.domain (run.tasks.map QueuedTask.definition))
    (inputs : List (RunTaskInput K E Q T D)) :
    run.validateAppended checks inputs = run.validateQueueDefinition checks
      (run.tasks.map QueuedTask.definition ++
        TaskPreflightContext.named (QueuedTask.nextSequence run.tasks) inputs) := by
  obtain ⟨c, hc⟩ := haccepted
  obtain ⟨d, hd, halike, hnext⟩ := TaskPreflightContext.fromExistingTasks_alike hsorted hc
  have hagree := halike.validateBatch inputs
  unfold validateAppended validateQueueDefinition listRunTasks
  rw [mergeSort_of_inSequence hsorted, hd, TaskPreflightContext.fromExistingTasks_nil]
  simp only [bind, Except.bind]
  rw [TaskPreflightContext.validateBatch_append, hc, ← hnext]
  simp only [bind, Except.bind]
  generalize d.validateBatch checks inputs = x at hagree
  generalize c.validateBatch checks (TaskPreflightContext.named d.nextSequence inputs) = y at hagree
  cases hagree with
  | error e => rfl
  | ok h => rfl

/-! ## The invariant -/

/-- What is kept of the rows: their definitions were accepted, their sequence numbers ascend, and ids
are not used twice. -/
structure Sound (checks : PreflightChecks K E Q T D) (run : EditedRun K E Q T D) : Prop where
  accepted : Accepted checks run.evaluator run.domain (run.tasks.map QueuedTask.definition)
  sorted : InSequence run.tasks
  ids : (run.tasks.map (·.id)).Nodup
  fresh : ∀ t ∈ run.tasks, t.id < run.nextTaskId

/-- The queue a request leaves when it is applied to the rows it expects. -/
def requested (request : QueueRequest K E Q T D) : List (RunTaskInput K E Q T D) :=
  match request.change with
  | .append tasks => request.expected.map QueuedTask.definition ++
      TaskPreflightContext.named (QueuedTask.nextSequence request.expected) tasks
  | .replace taskId task => replacedDefinitions taskId task request.expected
  | .remove taskId => (request.expected.filter (·.id != taskId)).map QueuedTask.definition

variable {run : EditedRun K E Q T D}

theorem Sound.listRunTasks (h : Sound checks run) : run.listRunTasks = run.tasks :=
  mergeSort_of_inSequence h.sorted

/-- A request that was checked leaves an accepted queue. -/
theorem Sound.requested_appendTasks (h : Sound checks run) {tasks : List (RunTaskInput K E Q T D)}
    {request : QueueRequest K E Q T D} (hr : run.appendTasks checks tasks = .ok request) :
    Accepted checks run.evaluator run.domain (requested request) := by
  unfold EditedRun.appendTasks at hr
  obtain ⟨⟨⟩, -, hr⟩ := bind_eq_ok hr
  split at hr
  · cases hr
  · obtain ⟨⟨⟩, hvalid, hr⟩ := bind_eq_ok hr
    split at hr
    · cases hr
    · cases hr
      rw [validateAppended_eq h.sorted h.accepted] at hvalid
      unfold requested
      rw [h.listRunTasks]
      exact validateQueueDefinition_ok.1 hvalid

theorem Sound.requested_removePendingTask (h : Sound checks run) {taskId : Int}
    {request : QueueRequest K E Q T D} (hr : run.removePendingTask checks taskId = .ok request) :
    Accepted checks run.evaluator run.domain (requested request) := by
  unfold EditedRun.removePendingTask at hr
  obtain ⟨⟨⟩, -, hr⟩ := bind_eq_ok hr
  obtain ⟨⟨⟩, hvalid, hr⟩ := bind_eq_ok hr
  cases hr
  exact validateQueueDefinition_ok.1 hvalid

theorem Sound.requested_editPendingTask (h : Sound checks run) {taskId : Int}
    {raw expected : RunTaskInput K E Q T D} {request : QueueRequest K E Q T D}
    (hr : run.editPendingTask checks taskId raw expected = .ok request) :
    Accepted checks run.evaluator run.domain (requested request) := by
  unfold EditedRun.editPendingTask at hr
  obtain ⟨⟨⟩, -, hr⟩ := bind_eq_ok hr
  dsimp only at hr
  split at hr
  · cases hr
  · split at hr
    · cases hr
    · split at hr
      · cases hr
      · obtain ⟨⟨⟩, hvalid, hr⟩ := bind_eq_ok hr
        cases hr
        exact validateQueueDefinition_ok.1 hvalid

/-! ## Changes that are applied -/

/-- What rows with the definitions a request expects share with it. -/
theorem matched_maps {rows expected : List (QueuedTask K E Q T D)}
    (h : matchesExpected rows expected = true) :
    rows.map QueuedTask.definition = expected.map QueuedTask.definition ∧
      QueuedTask.nextSequence rows = QueuedTask.nextSequence expected ∧
      ∀ taskId : Int, (∀ task, replacedDefinitions taskId task rows =
          replacedDefinitions taskId task expected) ∧
        (rows.filter (·.id != taskId)).map QueuedTask.definition =
          (expected.filter (·.id != taskId)).map QueuedTask.definition := by
  induction rows generalizing expected with
  | nil =>
    cases expected with
    | nil => exact ⟨rfl, rfl, fun _ => ⟨fun _ => rfl, rfl⟩⟩
    | cons t expected => cases h
  | cons row rows ih =>
    cases expected with
    | nil => cases h
    | cons t expected =>
      have hall := matchesExpected_definition h
      simp only [matchesExpected, sameRow, Bool.and_eq_true, beq_iff_eq] at h
      obtain ⟨⟨⟨⟨hid, hname⟩, hseq⟩, htask⟩, hrest⟩ := h
      obtain ⟨hdefs, -, hothers⟩ := ih hrest
      have hdef : row.definition = t.definition := by
        rw [QueuedTask.definition, QueuedTask.definition, hname, htask]
      have hseqs := congrArg (List.map fun p => p.2.2.1) hall
      simp only [List.map_map, Function.comp_def] at hseqs
      refine ⟨by rw [List.map_cons, List.map_cons, hdef, hdefs], ?_, fun taskId => ⟨fun task => ?_, ?_⟩⟩
      · unfold QueuedTask.nextSequence
        rw [hseqs]
      · have hreplaced := (hothers taskId).1 task
        unfold replacedDefinitions at hreplaced ⊢
        rw [List.map_cons, List.map_cons, hreplaced, hdef, hid]
      · rw [List.filter_cons, List.filter_cons, hid]
        split
        · rw [List.map_cons, List.map_cons, hdef, (hothers taskId).2]
        · exact (hothers taskId).2

theorem Sound.withTasks (h : Sound checks run) {tasks : List (QueuedTask K E Q T D)}
    {nextTaskId : Int} {run' : EditedRun K E Q T D}
    (hr : ({ run with nextTaskId := nextTaskId } : EditedRun K E Q T D).withTasks tasks = .ok run')
    (haccepted : Accepted checks run.evaluator run.domain (tasks.map QueuedTask.definition))
    (hsorted : InSequence tasks) (hids : (tasks.map (·.id)).Nodup)
    (hfresh : ∀ t ∈ tasks, t.id < nextTaskId) : Sound checks run' := by
  unfold EditedRun.withTasks at hr
  split at hr
  · cases hr
    exact ⟨haccepted, hsorted, hids, hfresh⟩
  · cases hr

/-- A row that is rewritten keeps its id and its sequence number. -/
theorem inSequence_map {tasks : List (QueuedTask K E Q T D)} {f : QueuedTask K E Q T D → QueuedTask K E Q T D}
    (hf : ∀ t, (f t).sequenceNr = t.sequenceNr) (h : InSequence tasks) : InSequence (tasks.map f) := by
  refine List.pairwise_map.2 (h.imp fun {t u} htu => ?_)
  rwa [hf, hf]

theorem ids_map {tasks : List (QueuedTask K E Q T D)} {f : QueuedTask K E Q T D → QueuedTask K E Q T D}
    (hf : ∀ t, (f t).id = t.id) : (tasks.map f).map (·.id) = tasks.map (·.id) := by
  rw [List.map_map]
  exact List.map_congr_left fun t _ => hf t

theorem Sound.applyTaskQueueChange (h : Sound checks run) {request : QueueRequest K E Q T D}
    (hrequest : Accepted checks run.evaluator run.domain (requested request))
    {run' : EditedRun K E Q T D} (hr : run.applyTaskQueueChange request = .ok run') :
    Sound checks run' := by
  unfold EditedRun.applyTaskQueueChange at hr
  split at hr
  · cases hr
  · rename_i hmatch
    rw [Bool.not_eq_true, Bool.not_eq_false', h.listRunTasks] at hmatch
    obtain ⟨hdefs, hnext, hothers⟩ := matched_maps hmatch
    unfold requested at hrequest
    split at hr
    · rename_i tasks hchange
      rw [hchange] at hrequest
      dsimp only at hrequest
      rw [← hdefs, ← hnext] at hrequest
      refine h.withTasks hr ?_ ?_ ?_ ?_
      · rw [List.map_append, definition_insertedTasks]
        exact hrequest
      · refine List.pairwise_append.2 ⟨h.sorted, inSequence_insertedTasks _ _ _, fun t ht u hu => ?_⟩
        have hlt := lt_nextSequence ht
        have hle := (mem_insertedTasks hu).1
        omega
      · rw [List.map_append]
        refine List.Nodup.append h.ids (ids_insertedTasks _ _ _) fun id hid hid' => ?_
        obtain ⟨t, ht, rfl⟩ := List.mem_map.1 hid
        obtain ⟨u, hu, heq⟩ := List.mem_map.1 hid'
        have hlt := h.fresh t ht
        have hle := (mem_insertedTasks hu).2.1
        omega
      · intro t ht
        rcases List.mem_append.1 ht with ht | ht
        · have := h.fresh t ht
          omega
        · exact (mem_insertedTasks ht).2.2.1
    · rename_i taskId task hchange
      rw [hchange] at hrequest
      dsimp only at hrequest
      split at hr
      · cases hr
      · split at hr
        · cases hr
        · rename_i name hname
          have hid : ∀ t : QueuedTask K E Q T D, (if t.id = taskId then
              { t with name := name, task := task.task } else t).id = t.id := by
            intro t
            split <;> rfl
          have hseq : ∀ t : QueuedTask K E Q T D, (if t.id = taskId then
              { t with name := name, task := task.task } else t).sequenceNr = t.sequenceNr := by
            intro t
            split <;> rfl
          refine @Sound.withTasks _ _ _ _ _ _ _ _ _ _ _ _ _ h _ run.nextTaskId _ hr ?_
            (inSequence_map hseq h.sorted) ?_ ?_
          · rw [← (hothers taskId).1 task] at hrequest
            unfold replacedDefinitions at hrequest
            rw [List.map_map]
            convert hrequest using 2
            funext t
            obtain ⟨taskName, spec⟩ := task
            dsimp only at hname
            rw [Function.comp_apply, hname]
            split <;> rfl
          · rw [ids_map hid]
            exact h.ids
          · intro t ht
            obtain ⟨u, hu, rfl⟩ := List.mem_map.1 ht
            rw [hid]
            exact h.fresh u hu
    · rename_i taskId hchange
      rw [hchange] at hrequest
      dsimp only at hrequest
      split at hr
      · cases hr
      · cases hr
        -- the definitions without the removed one are those that were checked
        rw [← (hothers taskId).2] at hrequest
        exact ⟨hrequest, h.sorted.filter _, h.ids.sublist (List.filter_sublist.map _),
          fun t ht => h.fresh t (List.mem_filter.1 ht).1⟩

/-- A statement that leaves ids, sequence numbers and definitions as they are. -/
theorem Sound.setState (h : Sound checks run) (p : QueuedTask K E Q T D → Bool)
    (state : Stores.RunTaskState) : Sound checks (run.setState p state) := by
  have hkeep (t : QueuedTask K E Q T D) : (if p t = true then { t with state := state } else t).id = t.id ∧
      (if p t = true then { t with state := state } else t).sequenceNr = t.sequenceNr ∧
      (if p t = true then { t with state := state } else t).definition = t.definition := by
    split <;> exact ⟨rfl, rfl, rfl⟩
  refine ⟨?_, inSequence_map (fun t => (hkeep t).2.1) h.sorted, ?_, fun t ht => ?_⟩
  · have hdefs : (run.setState p state).tasks.map QueuedTask.definition =
        run.tasks.map QueuedTask.definition := by
      refine List.map_map.trans (List.map_congr_left fun t _ => ?_)
      exact (hkeep t).2.2
    rw [hdefs]
    exact h.accepted
  · have hids : (run.setState p state).tasks.map (·.id) = run.tasks.map (·.id) :=
      ids_map fun t => (hkeep t).1
    rw [hids]
    exact h.ids
  · obtain ⟨u, hu, rfl⟩ := List.mem_map.1 ht
    rw [(hkeep u).1]
    exact h.fresh u hu

theorem Sound.activateNextRunTask (h : Sound checks run) : Sound checks run.activateNextRunTask := by
  unfold EditedRun.activateNextRunTask
  split
  · exact h
  · split
    · exact h
    · exact h.setState _ _

/-- One definition with another tuning, which its own check accepts, leaves the queue accepted. -/
theorem accepted_withQueueTuning {evaluator : Option E} {domain : Domain}
    {tasks : List (QueuedTask K E Q T D)} {taskId : Int} {queueTuning : Option T}
    (h : Accepted checks evaluator domain (tasks.map QueuedTask.definition))
    (hvalid : ∀ t ∈ tasks, t.id = taskId → checks.validate (t.task.withQueueTuning queueTuning) = .ok ()) :
    Accepted checks evaluator domain ((tasks.map fun t =>
      if t.id = taskId then { t with task := t.task.withQueueTuning queueTuning } else t).map
        QueuedTask.definition) := by
  obtain ⟨c', hc'⟩ := h
  refine ⟨c', ?_⟩
  generalize TaskPreflightContext.initial (K := K) (Q := Q) evaluator domain = c at hc' ⊢
  induction tasks generalizing c with
  | nil => exact hc'
  | cons t tasks ih =>
    obtain ⟨d, hd, hc'⟩ := bind_eq_ok hc'
    have hrest := ih (fun u hu => hvalid u (List.mem_cons_of_mem _ hu)) d hc'
    rw [List.map_cons, List.map_cons]
    refine bind_eq_ok_iff.2 ⟨d, ?_, hrest⟩
    split
    · rename_i hid
      exact TaskPreflightContext.validateTask_withQueueTuning hd queueTuning
        (hvalid t List.mem_cons_self hid)
    · exact hd

/-- What an accepted tuning has found. -/
theorem updateTaskQueueTuning_ok {taskId : Int} {queueTuning : Option T} {run' : EditedRun K E Q T D}
    (h : run.updateTaskQueueTuning checks taskId queueTuning = .ok run') :
    (∃ t, run.tasks.find? (·.id == taskId) = some t ∧ (t.state = .pending ∨ t.state = .active) ∧
      checks.validate (t.task.withQueueTuning queueTuning) = .ok ()) ∧
    run' = { run with tasks := run.tasks.map fun t =>
      if t.id = taskId then { t with task := t.task.withQueueTuning queueTuning } else t } := by
  unfold EditedRun.updateTaskQueueTuning at h
  obtain ⟨⟨⟩, -, h⟩ := bind_eq_ok h
  obtain ⟨⟨⟩, -, h⟩ := bind_eq_ok h
  split at h
  · cases h
  · rename_i t hfind
    split at h
    · cases h
    · rename_i hstate
      split at h
      · split at h
        · cases h
        · rename_i hvalid
          refine ⟨⟨t, hfind, ?_, hvalid⟩, (Except.ok.inj h).symm⟩
          by_cases hpending : t.state = .pending
          · exact .inl hpending
          · exact .inr (not_not.1 fun hactive => hstate ⟨hpending, hactive⟩)
      · cases h

theorem Sound.updateTaskQueueTuning (h : Sound checks run) {taskId : Int} {queueTuning : Option T}
    {run' : EditedRun K E Q T D} (hr : run.updateTaskQueueTuning checks taskId queueTuning = .ok run') :
    Sound checks run' := by
  obtain ⟨⟨t, hfind, -, hvalid⟩, rfl⟩ := updateTaskQueueTuning_ok hr
  have ht := List.mem_of_find?_eq_some hfind
  have hid : t.id = taskId := by simpa using List.find?_some hfind
  have hkeep (u : QueuedTask K E Q T D) : (if u.id = taskId then
      { u with task := u.task.withQueueTuning queueTuning } else u).id = u.id ∧
      (if u.id = taskId then { u with task := u.task.withQueueTuning queueTuning } else u).sequenceNr =
        u.sequenceNr := by
    split <;> exact ⟨rfl, rfl⟩
  refine ⟨accepted_withQueueTuning h.accepted fun u hu hu' => ?_,
    inSequence_map (fun u => (hkeep u).2) h.sorted, ?_, fun u hu => ?_⟩
  · rw [List.inj_on_of_nodup_map h.ids hu ht (hu'.trans hid.symm)]
    exact hvalid
  · rw [ids_map fun u => (hkeep u).1]
    exact h.ids
  · obtain ⟨v, hv, rfl⟩ := List.mem_map.1 hu
    rw [(hkeep v).1]
    exact h.fresh v hv

/-! ## Creation -/

/-- The domain of a run is the one its evaluator gives. -/
theorem prepareDomain_ok {evaluator : Option E} {tasks : List (RunTaskInput K E Q T D)} {domain : Domain}
    (h : prepareDomain checks evaluator tasks = .ok domain) :
    ∀ e, evaluator = some e → checks.resolveDomain e = .ok domain := by
  rintro e rfl
  unfold prepareDomain at h
  rw [Option.some_or] at h
  dsimp only at h
  split at h
  · rename_i heq
    cases h
    exact heq
  · cases h

/-- The preflight of a run to be created. -/
theorem createRun_eq (id firstTaskId : Int) (kind : String) (parentRunId : Option Int)
    (evaluator : Option E) (tasks : List (RunTaskInput K E Q T D)) :
    createRun checks id kind parentRunId evaluator tasks firstTaskId =
      (prepareDomain checks evaluator tasks >>= fun domain =>
        (({ TaskPreflightContext.initial evaluator domain with
          validatedEvaluators := evaluator.toList } : TaskPreflightContext K E Q).validateBatch checks
            tasks).map fun _ =>
        ⟨id, kind, parentRunId, evaluator, domain, firstTaskId + tasks.length,
          insertedTasks 1 firstTaskId tasks⟩) := by
  unfold createRun
  simp only [TaskPreflightContext.fromExistingTasks_nil]
  rfl

/-- A run is created with a queue that is accepted as it is stored. -/
theorem sound_createRun {id firstTaskId : Int} {kind : String} {parentRunId : Option Int}
    {evaluator : Option E} {tasks : List (RunTaskInput K E Q T D)}
    (h : createRun checks id kind parentRunId evaluator tasks firstTaskId = .ok run) :
    Sound checks run := by
  rw [createRun_eq] at h
  obtain ⟨domain, hdomain, h⟩ := bind_eq_ok h
  obtain ⟨c', hc', rfl⟩ := map_eq_ok h
  have halike : TaskPreflightContext.Alike checks
      { TaskPreflightContext.initial evaluator domain with validatedEvaluators := evaluator.toList }
      (TaskPreflightContext.initial evaluator domain) := by
    refine ⟨rfl, fun _ => .rfl, fun _ => .rfl, fun e he => ?_, fun e he => (by cases he)⟩
    refine prepareDomain_ok hdomain e ?_
    simpa using he
  obtain ⟨d, hd, -⟩ := (halike.validateBatch tasks).ok_left hc'
  refine ⟨⟨d, ?_⟩, inSequence_insertedTasks _ _ _, ids_insertedTasks _ _ _, fun t ht =>
    (mem_insertedTasks ht).2.2.1⟩
  rw [definition_insertedTasks]
  exact hd

end EditedRun

/-! ## Runs -/

namespace TaskQueueSystem

open EditedRun

/-- The rows are sound, and every request under way leaves an accepted queue. -/
structure Inv (checks : PreflightChecks K E Q T D) (s : TaskQueueSystem K E Q T D) : Prop where
  run : Sound checks s.run
  requests : ∀ r ∈ s.requests, Accepted checks s.run.evaluator s.run.domain (requested r)

variable {s : TaskQueueSystem K E Q T D}

theorem Inv.prepared (h : Inv checks s) {x : Except ServiceError (QueueRequest K E Q T D)}
    (hx : ∀ r, x = .ok r → Accepted checks s.run.evaluator s.run.domain (requested r)) :
    Inv checks (s.prepared x) := by
  cases x with
  | error e => exact h
  | ok request =>
    refine ⟨h.run, fun r hr => ?_⟩
    rcases List.mem_append.1 hr with hr | hr
    · exact h.requests r hr
    · rw [List.mem_singleton.1 hr]
      exact hx request rfl

/-- A change keeps the evaluator and the domain the requests were checked with. -/
theorem Inv.committed (h : Inv checks s) {ε : Type} {x : Except ε (EditedRun K E Q T D)}
    (hx : ∀ run, x = .ok run → Sound checks run ∧ run.evaluator = s.run.evaluator ∧
      run.domain = s.run.domain) : Inv checks (s.committed x) := by
  cases x with
  | error e => exact h
  | ok run =>
    obtain ⟨hsound, hevaluator, hdomain⟩ := hx run rfl
    refine ⟨hsound, fun r hr => ?_⟩
    have hr := h.requests r hr
    rw [← hevaluator, ← hdomain] at hr
    exact hr

theorem applied_same {run run' : EditedRun K E Q T D} {request : QueueRequest K E Q T D}
    (h : run.applyTaskQueueChange request = .ok run') :
    run'.evaluator = run.evaluator ∧ run'.domain = run.domain := by
  have hwith : ∀ {r : EditedRun K E Q T D} {tasks}, r.withTasks tasks = .ok run' →
      run'.evaluator = r.evaluator ∧ run'.domain = r.domain := by
    intro r tasks hr
    unfold EditedRun.withTasks at hr
    split at hr
    · cases hr
      exact ⟨rfl, rfl⟩
    · cases hr
  unfold EditedRun.applyTaskQueueChange at h
  split at h
  · cases h
  · split at h
    · unfold EditedRun.appendTasksInTransaction at h
      have hsame := hwith h
      exact hsame
    · split at h
      · cases h
      · split at h
        · cases h
        · exact hwith h
    · split at h
      · cases h
      · cases h
        exact ⟨rfl, rfl⟩

theorem Inv.step (h : Inv checks s) (e : TaskQueueEvent K E Q T D) : Inv checks (s.step checks e) := by
  cases e with
  | appendTasks tasks => exact h.prepared fun _ hr => h.run.requested_appendTasks hr
  | editPendingTask taskId raw expected =>
    exact h.prepared fun _ hr => h.run.requested_editPendingTask hr
  | removePendingTask taskId => exact h.prepared fun _ hr => h.run.requested_removePendingTask hr
  | apply request =>
    unfold TaskQueueSystem.step
    dsimp only
    split
    · rename_i r hr
      refine h.committed fun run hrun => ?_
      exact ⟨h.run.applyTaskQueueChange (h.requests r (List.mem_of_getElem? hr)) hrun,
        applied_same hrun⟩
    · exact h
  | insertElsewhere count =>
    refine ⟨⟨h.run.accepted, h.run.sorted, h.run.ids, fun t ht => ?_⟩, h.requests⟩
    have := h.run.fresh t ht
    show t.id < s.run.nextTaskId + count
    omega
  | updateTaskQueueTuning taskId queueTuning =>
    refine h.committed fun run hrun => ⟨h.run.updateTaskQueueTuning hrun, ?_⟩
    obtain ⟨-, rfl⟩ := updateTaskQueueTuning_ok hrun
    exact ⟨rfl, rfl⟩
  | activateNextRunTask =>
    refine ⟨h.run.activateNextRunTask, fun r hr => ?_⟩
    have hsame : s.run.activateNextRunTask.evaluator = s.run.evaluator ∧
        s.run.activateNextRunTask.domain = s.run.domain := by
      unfold EditedRun.activateNextRunTask
      split
      · exact ⟨rfl, rfl⟩
      · split <;> exact ⟨rfl, rfl⟩
    show Accepted checks s.run.activateNextRunTask.evaluator s.run.activateNextRunTask.domain _
    rw [hsame.1, hsame.2]
    exact h.requests r hr
  | completeRunTask taskId => exact ⟨h.run.setState _ _, h.requests⟩
  | failRunTask taskId => exact ⟨h.run.setState _ _, h.requests⟩

/-- A created run before any edit. -/
theorem inv_createRun {id firstTaskId : Int} {kind : String} {parentRunId : Option Int}
    {evaluator : Option E} {tasks : List (RunTaskInput K E Q T D)} {run : EditedRun K E Q T D}
    (h : createRun checks id kind parentRunId evaluator tasks firstTaskId = .ok run) :
    Inv checks ⟨run, []⟩ :=
  ⟨sound_createRun h, fun _ hr => (by cases hr)⟩

theorem inv_reachable {id firstTaskId : Int} {kind : String} {parentRunId : Option Int}
    {evaluator : Option E} {tasks : List (RunTaskInput K E Q T D)} {run : EditedRun K E Q T D}
    (h : createRun checks id kind parentRunId evaluator tasks firstTaskId = .ok run)
    (es : List (TaskQueueEvent K E Q T D)) : Inv checks (Lib.run (step checks) ⟨run, []⟩ es) :=
  run_invariant' (I := Inv checks) (fun _ e hs => hs.step e) es (inv_createRun h)

/-! ## Every reachable queue is a valid queue -/

theorem nodup_of_splits {α β : Type} {f : α → β} {l : List α}
    (h : ∀ before a after, l = before ++ a :: after → f a ∉ before.map f) : (l.map f).Nodup := by
  induction l using List.reverseRecOn with
  | nil => exact .nil
  | append_singleton l a ih =>
    rw [List.map_append, List.map_singleton]
    refine List.Nodup.append (ih fun before b after heq => ?_) (List.nodup_singleton _) ?_
    · refine h before b (after ++ [a]) ?_
      rw [heq, List.append_assoc, List.cons_append]
    · intro b hb hmem
      rw [List.mem_singleton.1 hmem] at hb
      exact h l a [] rfl hb

theorem names_of_accepted {evaluator : Option E} {domain : Domain} {tasks : List (QueuedTask K E Q T D)}
    (h : Accepted checks evaluator domain (tasks.map QueuedTask.definition)) :
    (tasks.map (·.name)).Nodup := by
  obtain ⟨c, hc⟩ := h
  refine nodup_of_splits fun before t after heq => ?_
  rw [heq] at hc
  exact (TaskPreflightContext.accepted_task hc).1

/-- A name a task refers to is found at run time, before the task. -/
theorem namedSourceTask_ok {run : EditedRun K E Q T D} (h : Sound checks run) {t : QueuedTask K E Q T D}
    (ht : t ∈ run.tasks) {name : String} (hname : name ∈ t.task.sourceTaskNames) :
    ∃ source ∈ run.tasks, run.namedSourceTask t name = .ok source := by
  obtain ⟨before, after, heq⟩ := List.append_of_mem ht
  obtain ⟨c, hc⟩ := h.accepted
  rw [heq] at hc
  obtain ⟨source, hsource, rfl⟩ := List.mem_map.1 ((TaskPreflightContext.accepted_task hc).2 name hname)
  have hmem : source ∈ run.tasks := by
    rw [heq]
    exact List.mem_append_left _ hsource
  have hfind : run.tasks.find? (·.name == source.name) = some source := by
    cases hfound : run.tasks.find? (·.name == source.name) with
    | none =>
      have := List.find?_eq_none.1 hfound source hmem
      simp at this
    | some other =>
      have hother := List.mem_of_find?_eq_some hfound
      have hsame : other.name = source.name := by simpa using List.find?_some hfound
      rw [List.inj_on_of_nodup_map (names_of_accepted h.accepted) hother hmem hsame]
  have hlt : source.sequenceNr < t.sequenceNr := by
    have hsorted := h.sorted
    rw [heq] at hsorted
    exact (List.pairwise_append.1 hsorted).2.2 source hsource t List.mem_cons_self
  refine ⟨source, hmem, ?_⟩
  unfold namedSourceTask
  rw [h.listRunTasks, hfind]
  dsimp only
  rw [if_neg (by omega)]

/-! ## A run with an evaluator of one dimension -/

/-- Checks of a run whose evaluator has one continuous dimension. -/
def lineChecks : PreflightChecks Rat Unit Unit Unit Unit where
  validate := fun _ => .ok ()
  validateTuning := fun _ => .ok ()
  resolveDomain := fun _ => .ok (Domain.continuous 1)
  validateAccumulatorConfig := fun _ _ => .ok ()
  evaluatorKind := fun _ => "unit"
  debugDomain := fun _ => ""

/-- A sample of its own, and one that takes the accumulator of the first. -/
def lineTasks : List (RunTaskInput Rat Unit Unit Unit Unit) :=
  [⟨some "warmup", .sample .pooled none (some (.config ⟨none, .naiveMonteCarlo, ()⟩))
      (some (.config (.vector ["value"] .norm none .maxOrder2))) none ()⟩,
    ⟨none, .sample .pooled none none (some (.fromName "warmup")) none ()⟩]

def lineRun : EditedRun Rat Unit Unit Unit Unit :=
  ⟨1, "integration", none, some (), Domain.continuous 1, 12, insertedTasks 1 10 lineTasks⟩

theorem createRun_line :
    createRun lineChecks 1 "integration" none (some ()) lineTasks 10 = .ok lineRun :=
  (createRun_eq 1 10 "integration" none (some ()) lineTasks).trans rfl

/-- The source of the second task is to be removed and renamed while a third is appended. -/
def lineEdits : List (TaskQueueEvent Rat Unit Unit Unit Unit) :=
  [.removePendingTask 10, .appendTasks [⟨none, .sample .pooled none none none none ()⟩], .apply 0,
    .editPendingTask 10 ⟨some "first", .setAccumulator .gammaloop⟩ ⟨some "warmup", .setAccumulator .empty⟩,
    .activateNextRunTask, .updateTaskQueueTuning 10 (some ()), .apply 0]

/-- In every reachable state of a run, whatever requests are under way and in whatever order they are
applied, the stored queue passes the preflight of a whole queue, its names are unique, and every
name a task refers to is found at run time as a task before it. -/
theorem queue_stays_valid {id firstTaskId : Int} {kind : String} {parentRunId : Option Int}
    {evaluator : Option E} {tasks : List (RunTaskInput K E Q T D)} {run : EditedRun K E Q T D}
    (hcreate : createRun checks id kind parentRunId evaluator tasks firstTaskId = .ok run)
    (es : List (TaskQueueEvent K E Q T D)) :
    let s := (Lib.run (step checks) ⟨run, []⟩ es).run
    s.validateQueueDefinition checks (s.listRunTasks.map QueuedTask.definition) = .ok () ∧
      (s.listRunTasks.map (·.name)).Nodup ∧
      ∀ t ∈ s.listRunTasks, ∀ name ∈ t.task.sourceTaskNames,
        ∃ source ∈ s.listRunTasks, s.namedSourceTask t name = .ok source := by
  intro s
  have hsound : Sound checks s := (inv_reachable hcreate es).run
  rw [hsound.listRunTasks]
  exact ⟨validateQueueDefinition_ok.2 hsound.accepted, names_of_accepted hsound.accepted,
    fun t ht name hname => namedSourceTask_ok hsound ht hname⟩

theorem queue_stays_valid_line :
    let s := (Lib.run (step lineChecks) ⟨lineRun, []⟩ lineEdits).run
    s.validateQueueDefinition lineChecks (s.listRunTasks.map QueuedTask.definition) = .ok () ∧
      (s.listRunTasks.map (·.name)).Nodup ∧
      ∀ t ∈ s.listRunTasks, ∀ name ∈ t.task.sourceTaskNames,
        ∃ source ∈ s.listRunTasks, s.namedSourceTask t name = .ok source :=
  queue_stays_valid createRun_line lineEdits

/-- In every reachable state the preflight of tasks to append, which takes the stored tasks as they
are, gives what the preflight of the queue with them gives: acceptance or the same error. -/
theorem append_preflight_exact {id firstTaskId : Int} {kind : String} {parentRunId : Option Int}
    {evaluator : Option E} {tasks : List (RunTaskInput K E Q T D)} {run : EditedRun K E Q T D}
    (hcreate : createRun checks id kind parentRunId evaluator tasks firstTaskId = .ok run)
    (es : List (TaskQueueEvent K E Q T D)) (appended : List (RunTaskInput K E Q T D)) :
    let s := (Lib.run (step checks) ⟨run, []⟩ es).run
    s.validateAppended checks appended = s.validateQueueDefinition checks
      (s.listRunTasks.map QueuedTask.definition ++
        TaskPreflightContext.named (QueuedTask.nextSequence s.listRunTasks) appended) := by
  intro s
  have hsound : Sound checks s := (inv_reachable hcreate es).run
  rw [hsound.listRunTasks]
  exact validateAppended_eq hsound.sorted hsound.accepted appended

theorem append_preflight_exact_line :
    let s := (Lib.run (step lineChecks) ⟨lineRun, []⟩ lineEdits).run
    s.validateAppended lineChecks [⟨some "warmup", .setAccumulator .gammaloop⟩] =
      s.validateQueueDefinition lineChecks (s.listRunTasks.map QueuedTask.definition ++
        TaskPreflightContext.named (QueuedTask.nextSequence s.listRunTasks)
          [⟨some "warmup", .setAccumulator .gammaloop⟩]) :=
  append_preflight_exact createRun_line lineEdits _

/-! ## Started tasks are kept -/

/-- A started task later: under its id, its name and its number, with its definition but for the
queue tuning; once it has ended, with nothing changed. -/
structure Kept (t u : QueuedTask K E Q T D) : Prop where
  id : u.id = t.id
  name : u.name = t.name
  sequenceNr : u.sequenceNr = t.sequenceNr
  definition : u.task.withQueueTuning none = t.task.withQueueTuning none
  started : u.state ≠ .pending
  ended : t.state ≠ .active → u = t

theorem Kept.refl {t : QueuedTask K E Q T D} (h : t.state ≠ .pending) : Kept t t :=
  ⟨rfl, rfl, rfl, rfl, h, fun _ => rfl⟩

theorem Kept.trans {t u v : QueuedTask K E Q T D} (h : Kept t u) (h' : Kept u v) : Kept t v where
  id := h'.id.trans h.id
  name := h'.name.trans h.name
  sequenceNr := h'.sequenceNr.trans h.sequenceNr
  definition := h'.definition.trans h.definition
  started := h'.started
  ended := by
    intro hended
    have hu := h.ended hended
    exact (h'.ended (hu ▸ hended)).trans hu

theorem withQueueTuning_idem (task : RunTaskSpec K E Q T D) (a b : Option T) :
    (task.withQueueTuning a).withQueueTuning b = task.withQueueTuning b := by
  cases task <;> rfl

/-- A pending row has another id than a started one. -/
theorem not_isPending {run : EditedRun K E Q T D} (h : Sound checks run) {t : QueuedTask K E Q T D}
    (ht : t ∈ run.tasks) (hstarted : t.state ≠ .pending) {taskId : Int}
    (hpending : run.isPending taskId = true) : t.id ≠ taskId := by
  rintro rfl
  obtain ⟨u, hu, hboth⟩ := List.any_eq_true.1 hpending
  simp only [Bool.and_eq_true, beq_iff_eq] at hboth
  rw [List.inj_on_of_nodup_map h.ids hu ht hboth.1] at hboth
  exact hstarted hboth.2

theorem kept_applyTaskQueueChange {run run' : EditedRun K E Q T D} (h : Sound checks run)
    {t : QueuedTask K E Q T D} (ht : t ∈ run.tasks) (hstarted : t.state ≠ .pending)
    {request : QueueRequest K E Q T D} (hr : run.applyTaskQueueChange request = .ok run') :
    t ∈ run'.tasks := by
  unfold EditedRun.applyTaskQueueChange at hr
  split at hr
  · cases hr
  · split at hr
    · unfold EditedRun.appendTasksInTransaction EditedRun.withTasks at hr
      split at hr
      · cases hr
        exact List.mem_append_left _ ht
      · cases hr
    · split at hr
      · cases hr
      · rename_i hpending
        rw [Bool.not_eq_true, Bool.not_eq_false'] at hpending
        split at hr
        · cases hr
        · unfold EditedRun.withTasks at hr
          split at hr
          · cases hr
            refine List.mem_map.2 ⟨t, ht, ?_⟩
            rw [if_neg (not_isPending h ht hstarted hpending)]
          · cases hr
    · split at hr
      · cases hr
      · rename_i hpending
        rw [Bool.not_eq_true, Bool.not_eq_false'] at hpending
        cases hr
        refine List.mem_filter.2 ⟨ht, ?_⟩
        simpa using not_isPending h ht hstarted hpending

/-- A statement that leaves a started task in another state finds it active. -/
theorem kept_setState {run : EditedRun K E Q T D} {t : QueuedTask K E Q T D} (ht : t ∈ run.tasks)
    (hstarted : t.state ≠ .pending) {p : QueuedTask K E Q T D → Bool} {state : Stores.RunTaskState}
    (hp : p t = true → t.state = .active ∧ state ≠ .pending) :
    ∃ u ∈ (run.setState p state).tasks, Kept t u := by
  refine ⟨_, List.mem_map_of_mem ht, ?_⟩
  split
  · rename_i hpt
    obtain ⟨hactive, hstate⟩ := hp hpt
    exact ⟨rfl, rfl, rfl, rfl, hstate, fun hne => absurd hactive hne⟩
  · exact .refl hstarted

theorem Inv.kept_step (h : Inv checks s) (e : TaskQueueEvent K E Q T D) {t : QueuedTask K E Q T D}
    (ht : t ∈ s.run.tasks) (hstarted : t.state ≠ .pending) :
    ∃ u ∈ (s.step checks e).run.tasks, Kept t u := by
  have same : ∃ u ∈ s.run.tasks, Kept t u := ⟨t, ht, .refl hstarted⟩
  have prepared (x : Except ServiceError (QueueRequest K E Q T D)) :
      ∃ u ∈ (s.prepared x).run.tasks, Kept t u := by
    cases x <;> exact same
  cases e with
  | appendTasks tasks => exact prepared _
  | editPendingTask taskId raw expected => exact prepared _
  | removePendingTask taskId => exact prepared _
  | apply request =>
    unfold TaskQueueSystem.step
    dsimp only
    split
    · rename_i r hr
      cases hchange : s.run.applyTaskQueueChange r with
      | error e => exact same
      | ok run => exact ⟨t, kept_applyTaskQueueChange h.run ht hstarted hchange, .refl hstarted⟩
    · exact same
  | insertElsewhere count => exact same
  | updateTaskQueueTuning taskId queueTuning =>
    unfold TaskQueueSystem.step
    dsimp only
    cases htuned : s.run.updateTaskQueueTuning checks taskId queueTuning with
    | error e => exact same
    | ok run =>
      obtain ⟨⟨u, hfind, hstate, -⟩, rfl⟩ := updateTaskQueueTuning_ok htuned
      refine ⟨_, List.mem_map_of_mem ht, ?_⟩
      split
      · rename_i hid
        have hu : u = t := by
          refine List.inj_on_of_nodup_map h.run.ids (List.mem_of_find?_eq_some hfind) ht ?_
          have : u.id = taskId := by simpa using List.find?_some hfind
          exact this.trans hid.symm
        rw [hu] at hstate
        exact ⟨rfl, rfl, rfl, withQueueTuning_idem _ _ _, hstarted, fun hne =>
          absurd (hstate.resolve_left hstarted) hne⟩
      · exact .refl hstarted
  | activateNextRunTask =>
    show ∃ u ∈ s.run.activateNextRunTask.tasks, Kept t u
    unfold EditedRun.activateNextRunTask
    split
    · exact same
    · rename_i next hnext
      split
      · exact same
      · refine kept_setState ht hstarted fun hid => ?_
        -- the next task is pending
        rw [h.run.listRunTasks] at hnext
        have hmem := List.mem_of_find?_eq_some hnext
        have hpending : next.state = .pending := by simpa using List.find?_some hnext
        have heq := List.inj_on_of_nodup_map h.run.ids ht hmem (beq_iff_eq.1 hid)
        exact absurd (heq ▸ hpending) hstarted
  | completeRunTask taskId =>
    refine kept_setState ht hstarted fun hp => ?_
    simp only [Bool.and_eq_true, beq_iff_eq] at hp
    exact ⟨hp.2, by decide⟩
  | failRunTask taskId =>
    refine kept_setState ht hstarted fun hp => ?_
    simp only [Bool.and_eq_true, Bool.or_eq_true, beq_iff_eq] at hp
    exact ⟨hp.2.resolve_left hstarted, by decide⟩

/-- A task that was started is in every later queue, under its id, its name and its place and with
its definition but for the queue tuning, and it is pending never again. Once it has ended nothing
about it changes. -/
theorem started_tasks_kept {id firstTaskId : Int} {kind : String} {parentRunId : Option Int}
    {evaluator : Option E} {tasks : List (RunTaskInput K E Q T D)} {run : EditedRun K E Q T D}
    (hcreate : createRun checks id kind parentRunId evaluator tasks firstTaskId = .ok run)
    (es later : List (TaskQueueEvent K E Q T D)) :
    ∀ t ∈ (Lib.run (step checks) ⟨run, []⟩ es).run.tasks, t.state ≠ .pending →
      ∃ u ∈ (Lib.run (step checks) ⟨run, []⟩ (es ++ later)).run.tasks, Kept t u := by
  intro t ht hstarted
  have hinv := inv_reachable hcreate es
  rw [run_append]
  generalize Lib.run (step checks) ⟨run, []⟩ es = s at ht hinv ⊢
  induction later generalizing s t with
  | nil => exact ⟨t, ht, .refl hstarted⟩
  | cons e later ih =>
    obtain ⟨u, hu, hkept⟩ := hinv.kept_step e ht hstarted
    obtain ⟨v, hv, hkept'⟩ := ih u hkept.started (s.step checks e) hu (hinv.step e)
    exact ⟨v, hv, hkept.trans hkept'⟩

theorem started_tasks_kept_line :
    let s := (Lib.run (step lineChecks) ⟨lineRun, []⟩ lineEdits).run
    ∀ t ∈ s.tasks, t.state ≠ .pending →
      ∃ u ∈ (Lib.run (step lineChecks) ⟨lineRun, []⟩
        (lineEdits ++ [.completeRunTask 10, .removePendingTask 11, .apply 1])).run.tasks, Kept t u :=
  started_tasks_kept createRun_line lineEdits _

end TaskQueueSystem

end Gammaboard.Api
