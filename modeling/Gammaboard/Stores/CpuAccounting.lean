import Gammaboard.Stores.CpuTime
import Mathlib.Tactic.Linarith
import Mathlib.Tactic.Ring

/-!
# Every second of work is charged once

The seconds charged for a task and a node identity, with those the trigger would
charge at once, are the seconds worked: a change of a row closes its open
interval, and the clock lengthens the open intervals by what is worked.
-/

namespace Gammaboard.Stores

open Gammaboard.Lib

set_option linter.unusedSectionVars false

section Ordered

variable {K : Type*} [Field K] [LinearOrder K] [IsStrictOrderedRing K]

theorem validTime_of_le {a b l : K} (h : b ≤ a ∨ l ≤ a) : validTime a b l = 0 := by
  refine max_eq_right ?_
  rcases h with h | h
  · linarith [min_le_left b l]
  · linarith [min_le_right b l]

theorem validTime_add {a b c : K} (hab : a ≤ b) (hbc : b ≤ c) (l : K) :
    validTime a b l + validTime b c l = validTime a c l := by
  unfold validTime
  rcases le_total l a with ha | ha
  · rw [min_eq_right (ha.trans hab), min_eq_right ((ha.trans hab).trans hbc),
      max_eq_right (by linarith), max_eq_right (by linarith), add_zero]
  · rcases le_total l b with hb | hb
    · rw [min_eq_right hb, min_eq_right (hb.trans hbc), max_eq_right (a := l - b) (by linarith),
        add_zero]
    · have hc : b ≤ min c l := le_min hbc hb
      rw [min_eq_left hb, max_eq_left (by linarith), max_eq_left (by linarith),
        max_eq_left (by linarith)]
      ring

/-! ## Sums of charges -/

/-- The seconds of a list of charges for a task and an identity. -/
def charged (charges : List (CpuCharge K)) (taskId : Int) (uuid : String) : K :=
  (charges.map fun c => if c.taskId = taskId ∧ c.nodeUuid = uuid then c.seconds else 0).sum

variable {taskId : Int} {uuid : String}

@[simp] theorem charged_nil : charged ([] : List (CpuCharge K)) taskId uuid = 0 := rfl

@[simp] theorem charged_append (l l' : List (CpuCharge K)) :
    charged (l ++ l') taskId uuid = charged l taskId uuid + charged l' taskId uuid := by
  simp only [charged, List.map_append, List.sum_append]

theorem cpuSeconds_insertCharge (rows : List (CpuTimeRow K)) (c : CpuCharge K) :
    cpuSeconds (insertCharge rows c) taskId uuid =
      cpuSeconds rows taskId uuid + charged [c] taskId uuid := by
  unfold charged
  simp only [List.map_cons, List.map_nil, List.sum_cons, List.sum_nil, add_zero]
  induction rows with
  | nil => by_cases h : c.taskId = taskId ∧ c.nodeUuid = uuid <;> simp [insertCharge, cpuSeconds, h]
  | cons r rows ih =>
    by_cases hr : r.taskId = taskId ∧ r.nodeUuid = uuid
    · obtain ⟨rfl, rfl⟩ := hr
      by_cases hc : r.taskId = c.taskId ∧ r.nodeUuid = c.nodeUuid
      · simp [insertCharge, cpuSeconds, hc]
      · have hc' : ¬(c.taskId = r.taskId ∧ c.nodeUuid = r.nodeUuid) := fun h =>
          hc ⟨h.1.symm, h.2.symm⟩
        rw [if_neg hc', add_zero, insertCharge, if_neg hc]
        simp [cpuSeconds]
    · have hfind : ∀ rest : List (CpuTimeRow K), ∀ x : K,
          cpuSeconds ({ r with cpuSeconds := x } :: rest) taskId uuid =
            cpuSeconds rest taskId uuid := by
        intro rest x
        have hne : (r.taskId == taskId && r.nodeUuid == uuid) = false := by
          simpa using hr
        simp [cpuSeconds, hne]
      rw [show r :: rows = { r with cpuSeconds := r.cpuSeconds } :: rows from rfl, hfind, insertCharge]
      split
      · rename_i h
        have hc : ¬(c.taskId = taskId ∧ c.nodeUuid = uuid) := by
          rintro ⟨rfl, rfl⟩
          exact hr h
        rw [hfind, if_neg hc, add_zero]
      · rw [show (r :: insertCharge rows c) =
          { r with cpuSeconds := r.cpuSeconds } :: insertCharge rows c from rfl, hfind, ih]

theorem cpuSeconds_insertCharges (charges : List (CpuCharge K)) (rows : List (CpuTimeRow K)) :
    cpuSeconds (charges.foldl insertCharge rows) taskId uuid =
      cpuSeconds rows taskId uuid + charged charges taskId uuid := by
  induction charges generalizing rows with
  | nil => simp
  | cons c charges ih =>
    rw [List.foldl_cons, ih, cpuSeconds_insertCharge, add_assoc, ← charged_append]
    rfl

/-! ## What is due -/

/-- The seconds a node owes a task at a time. -/
def due (now : K) (n : WorkerNode K) (t : TimedTask K) : K :=
  if n.worksOn t then validTime (chargeStart n t) now n.leaseExpiresAt * n.cpuCount else 0

theorem accountedAt_le_chargeStart (n : WorkerNode K) (t : TimedTask K) :
    n.cpuTimeAccountedAt ≤ chargeStart n t := by
  unfold chargeStart
  split
  · exact le_max_left _ _
  · exact le_refl _

theorem charged_accountNodeCpuTime (now : K) (tasks : List (TimedTask K)) (n : WorkerNode K) :
    charged (accountNodeCpuTime now tasks n) taskId uuid =
      (tasks.map fun t => if t.id = taskId ∧ n.uuid = uuid then due now n t else 0).sum := by
  unfold accountNodeCpuTime
  dsimp only
  split
  · induction tasks with
    | nil => rfl
    | cons t tasks ih =>
      rw [List.map_cons, List.sum_cons, ← ih, List.filter_cons]
      unfold due
      by_cases ht : n.worksOn t = true
      · rw [if_pos ht, if_pos ht]
        rfl
      · rw [if_neg ht, if_neg ht, ite_self, zero_add]
  · rename_i h
    have hend : min now n.leaseExpiresAt ≤ n.cpuTimeAccountedAt := by
      by_contra hlt
      exact h (lt_max_of_lt_left (by linarith))
    have hzero : ∀ t, due now n t = 0 := by
      intro t
      have hstart := accountedAt_le_chargeStart n t
      have : now ≤ chargeStart n t ∨ n.leaseExpiresAt ≤ chargeStart n t := by
        rcases min_le_iff.1 hend with h | h
        · exact .inl (h.trans hstart)
        · exact .inr (h.trans hstart)
      simp [due, validTime_of_le this]
    simp [hzero]

/-- A row accounted for at once owes nothing. -/
theorem accountNodeCpuTime_accounted {now : K} {tasks : List (TimedTask K)} {n : WorkerNode K}
    (h : n.cpuTimeAccountedAt = now) : accountNodeCpuTime now tasks n = [] := by
  unfold accountNodeCpuTime
  dsimp only
  rw [h, if_neg]
  have : min now n.leaseExpiresAt - now ≤ 0 := by linarith [min_le_left now n.leaseExpiresAt]
  rw [max_eq_right this]
  exact lt_irrefl 0

theorem due_accounted {now : K} {n : WorkerNode K} {t : TimedTask K}
    (h : n.cpuTimeAccountedAt = now) : due now n t = 0 := by
  have : now ≤ chargeStart n t := h ▸ accountedAt_le_chargeStart n t
  simp [due, validTime_of_le (.inl this)]

/-- What the clock adds to an open interval. -/
theorem due_later {now later : K} {n : WorkerNode K} {t : TimedTask K} (h : now ≤ later)
    (hstart : chargeStart n t ≤ now) :
    due later n t = due now n t +
      if n.worksOn t then validTime now later n.leaseExpiresAt * n.cpuCount else 0 := by
  unfold due
  split
  · rw [← validTime_add hstart h, add_mul]
  · rw [add_zero]

/-! ## What a statement changes -/

namespace CpuState

/-- The changes statements are made of. `announced` says which names and uuids an update may give
to a row. -/
inductive Change (announced : String → String → Prop) : CpuState K → CpuState K → Prop
  | nodes (s : CpuState K) (p : WorkerNode K → Bool) (f : WorkerNode K → WorkerNode K)
      (name : ∀ n, (f n).name = n.name)
      (uuid : ∀ n, p n → (f n).uuid = n.uuid ∨ announced (f n).name (f n).uuid) :
      Change announced s (s.updateNodes p f)
  | insertNode (s : CpuState K) (n : WorkerNode K) (fresh : ∀ m ∈ s.nodes, m.name ≠ n.name)
      (accounted : n.cpuTimeAccountedAt = s.clock) (idle : n.active = none)
      (uuid : announced n.name n.uuid) :
      Change announced s { s with nodes := s.nodes ++ [n] }
  | insertTask (s : CpuState K) (t : TimedTask K) (fresh : ∀ u ∈ s.tasks, u.id ≠ t.id)
      (pending : t.state = .pending) (notStarted : t.startedAt = none) :
      Change announced s { s with tasks := s.tasks ++ [t] }
  | activate (s : CpuState K) (next : TimedTask K) (mem : next ∈ s.tasks)
      (pending : next.state = .pending)
      (idle : ∀ t ∈ s.tasks, t.runId = next.runId → t.state ≠ .active) :
      Change announced s { s with tasks := s.tasks.map fun t =>
        if t.id = next.id then
          { t with state := .active, startedAt := some (t.startedAt.getD s.clock) }
        else t }
  | finish (s : CpuState K) (taskId : Int) (g : TimedTask K → TimedTask K)
      (accounted : ∀ n ∈ s.nodes, ∀ t ∈ s.tasks, t.id = taskId → n.worksOn t →
        n.cpuTimeAccountedAt = s.clock)
      (id : ∀ t, (g t).id = t.id) (started : ∀ t, (g t).startedAt = t.startedAt)
      (settled : ∀ t, g t = t ∨ t.id = taskId ∧ (g t).state ≠ .pending ∧ (g t).state ≠ .active) :
      Change announced s { s with tasks := s.tasks.map g }

/-- What holds of the keys, the clock readings and the task states of the tables. -/
structure Wf (s : CpuState K) : Prop where
  names : (s.nodes.map (·.name)).Nodup
  ids : (s.tasks.map (·.id)).Nodup
  accounted : ∀ n ∈ s.nodes, n.cpuTimeAccountedAt ≤ s.clock
  started : ∀ t ∈ s.tasks, ∀ a, t.startedAt = some a → a ≤ s.clock
  notStarted : ∀ t ∈ s.tasks, t.state = .pending → t.startedAt = none
  oneActive : ∀ t ∈ s.tasks, ∀ t' ∈ s.tasks, t.state = .active → t'.state = .active →
    t.runId = t'.runId → t.id = t'.id

theorem Wf.task_eq {s : CpuState K} (h : s.Wf) {t t' : TimedTask K} (ht : t ∈ s.tasks)
    (ht' : t' ∈ s.tasks) (hid : t.id = t'.id) : t = t' :=
  List.inj_on_of_nodup_map h.ids ht ht' hid

variable {s s' : CpuState K} {announced : String → String → Prop}

theorem mem_updateNodes {p : WorkerNode K → Bool} {f : WorkerNode K → WorkerNode K}
    {n : WorkerNode K} (h : n ∈ (s.updateNodes p f).nodes) :
    ∃ m ∈ s.nodes, p m = true ∧ n = { f m with cpuTimeAccountedAt := s.clock } ∨
      p m = false ∧ n = m := by
  obtain ⟨m, hm, rfl⟩ := List.mem_map.1 h
  by_cases hp : p m = true
  · exact ⟨m, hm, .inl ⟨hp, if_pos hp⟩⟩
  · exact ⟨m, hm, .inr ⟨by simpa using hp, if_neg hp⟩⟩

/-- One change keeps the tables well formed. -/
theorem Change.wf (h : Change announced s s') (hs : s.Wf) : s'.Wf := by
  cases h with
  | nodes p f name uuid =>
    refine { hs with names := ?_, accounted := ?_ }
    · have : (s.updateNodes p f).nodes.map (·.name) = s.nodes.map (·.name) := by
        refine List.map_map.trans (List.map_congr_left fun n _ => ?_)
        by_cases hp : p n = true
        · simp [hp, name]
        · simp [hp]
      exact this ▸ hs.names
    · intro n hn
      obtain ⟨m, hm, ⟨-, rfl⟩ | ⟨-, rfl⟩⟩ := mem_updateNodes hn
      · exact le_refl s.clock
      · exact hs.accounted _ hm
  | insertNode n fresh accounted idle uuid =>
    refine { hs with names := ?_, accounted := ?_ }
    · rw [List.map_append, List.nodup_append]
      refine ⟨hs.names, List.nodup_singleton _, fun a ha b hb => ?_⟩
      obtain ⟨m, hm, rfl⟩ := List.mem_map.1 ha
      rw [List.map_singleton, List.mem_singleton] at hb
      exact hb ▸ fresh m hm
    · intro m hm
      rcases List.mem_append.1 hm with hm | hm
      · exact hs.accounted m hm
      · rw [List.mem_singleton.1 hm, accounted]
  | insertTask t fresh pending notStarted =>
    refine { hs with ids := ?_, started := ?_, notStarted := ?_, oneActive := ?_ }
    · rw [List.map_append, List.nodup_append]
      refine ⟨hs.ids, List.nodup_singleton _, fun a ha b hb => ?_⟩
      obtain ⟨u, hu, rfl⟩ := List.mem_map.1 ha
      rw [List.map_singleton, List.mem_singleton] at hb
      exact hb ▸ fresh u hu
    · intro u hu a ha
      rcases List.mem_append.1 hu with hu | hu
      · exact hs.started u hu a ha
      · rw [List.mem_singleton.1 hu, notStarted] at ha
        cases ha
    · intro u hu hpend
      rcases List.mem_append.1 hu with hu | hu
      · exact hs.notStarted u hu hpend
      · rw [List.mem_singleton.1 hu, notStarted]
    · have hold : ∀ u ∈ s.tasks ++ [t], u.state = .active → u ∈ s.tasks := by
        intro u hu hact
        rcases List.mem_append.1 hu with hu | hu
        · exact hu
        · rw [List.mem_singleton.1 hu, pending] at hact
          cases hact
      exact fun u hu u' hu' ha ha' => hs.oneActive u (hold u hu ha) u' (hold u' hu' ha') ha ha'
  | activate next mem pending idle =>
    -- only the row of `next` changes
    have hrow : ∀ u ∈ s.tasks.map (fun t => if t.id = next.id then
        { t with state := RunTaskState.active, startedAt := some (t.startedAt.getD s.clock) }
        else t), u ∈ s.tasks ∧ u.id ≠ next.id ∨
          u = { next with state := .active, startedAt := some s.clock } := by
      intro u hu
      obtain ⟨t, ht, rfl⟩ := List.mem_map.1 hu
      by_cases hid : t.id = next.id
      · rw [if_pos hid, hs.task_eq ht mem hid, hs.notStarted next mem pending]
        exact .inr rfl
      · rw [if_neg hid]
        exact .inl ⟨ht, hid⟩
    refine { hs with ids := ?_, started := ?_, notStarted := ?_, oneActive := ?_ }
    · rw [List.map_map]
      refine (congrArg List.Nodup (List.map_congr_left fun t _ => ?_)).mpr hs.ids
      by_cases hid : t.id = next.id <;> simp [hid]
    · intro u hu a ha
      rcases hrow u hu with ⟨hu, -⟩ | rfl
      · exact hs.started u hu a ha
      · cases ha
        exact le_refl _
    · intro u hu hpend
      rcases hrow u hu with ⟨hu, -⟩ | rfl
      · exact hs.notStarted u hu hpend
      · cases hpend
    · intro u hu u' hu' ha ha' hrun
      rcases hrow u hu with ⟨hu, -⟩ | rfl <;> rcases hrow u' hu' with ⟨hu', -⟩ | rfl
      · exact hs.oneActive u hu u' hu' ha ha' hrun
      · exact absurd ha (idle u hu hrun)
      · exact absurd ha' (idle u' hu' hrun.symm)
      · rfl
  | finish taskId g accounted id started settled =>
    have hrow : ∀ u ∈ s.tasks.map g, (u.state = .pending ∨ u.state = .active) → u ∈ s.tasks := by
      intro u hu hstate
      obtain ⟨t, ht, rfl⟩ := List.mem_map.1 hu
      rcases settled t with h | ⟨-, hp, ha⟩
      · exact h.symm ▸ ht
      · exact absurd hstate (not_or.2 ⟨hp, ha⟩)
    refine { hs with ids := ?_, started := ?_, notStarted := ?_, oneActive := ?_ }
    · rw [List.map_map]
      exact (congrArg List.Nodup (List.map_congr_left fun t _ => id t)).mpr hs.ids
    · intro u hu a ha
      obtain ⟨t, ht, rfl⟩ := List.mem_map.1 hu
      exact hs.started t ht a (started t ▸ ha)
    · exact fun u hu hpend => hs.notStarted u (hrow u hu (.inl hpend)) hpend
    · exact fun u hu u' hu' ha ha' =>
        hs.oneActive u (hrow u hu (.inr ha)) u' (hrow u' hu' (.inr ha')) ha ha'

/-! ## The balance -/

/-- The seconds charged for a task and an identity, with those the trigger would charge now. -/
def balance (s : CpuState K) (taskId : Int) (uuid : String) : K :=
  cpuSeconds s.cpuTime taskId uuid +
    charged (s.nodes.flatMap (accountNodeCpuTime s.clock s.tasks)) taskId uuid

variable {taskId : Int} {uuid : String}

theorem charged_flatMap (now : K) (tasks : List (TimedTask K)) (nodes : List (WorkerNode K)) :
    charged (nodes.flatMap (accountNodeCpuTime now tasks)) taskId uuid =
      (nodes.map fun n => (tasks.map fun t =>
        if t.id = taskId ∧ n.uuid = uuid then due now n t else 0).sum).sum := by
  induction nodes with
  | nil => rfl
  | cons n nodes ih =>
    rw [List.flatMap_cons, charged_append, ih, charged_accountNodeCpuTime, List.map_cons,
      List.sum_cons]

/-- An update moves what a row owes to the table. -/
theorem balance_updateNodes (s : CpuState K) (p : WorkerNode K → Bool)
    (f : WorkerNode K → WorkerNode K) :
    (s.updateNodes p f).balance taskId uuid = s.balance taskId uuid := by
  have key : ∀ nodes : List (WorkerNode K),
      charged ((nodes.filter p).flatMap (accountNodeCpuTime s.clock s.tasks)) taskId uuid +
        charged ((nodes.map fun n => if p n then { f n with cpuTimeAccountedAt := s.clock } else n
          ).flatMap (accountNodeCpuTime s.clock s.tasks)) taskId uuid =
      charged (nodes.flatMap (accountNodeCpuTime s.clock s.tasks)) taskId uuid := by
    intro nodes
    induction nodes with
    | nil => simp
    | cons n nodes ih =>
      rw [List.flatMap_cons, charged_append, ← ih, List.map_cons, List.flatMap_cons,
        charged_append, List.filter_cons]
      by_cases hp : p n = true
      · rw [if_pos hp, if_pos hp, List.flatMap_cons, charged_append,
          accountNodeCpuTime_accounted (n := { f n with cpuTimeAccountedAt := s.clock }) rfl,
          charged_nil]
        ring
      · rw [if_neg hp, if_neg hp]
        ring
  unfold balance
  rw [← key s.nodes, ← add_assoc]
  exact congrArg (· + _) (cpuSeconds_insertCharges _ _)

/-- A change of the tasks under which no row owes more or less keeps the balance. -/
theorem balance_tasks {g : TimedTask K → TimedTask K} (id : ∀ t, (g t).id = t.id)
    (hdue : ∀ n ∈ s.nodes, ∀ t ∈ s.tasks, due s.clock n (g t) = due s.clock n t) :
    ({ s with tasks := s.tasks.map g } : CpuState K).balance taskId uuid =
      s.balance taskId uuid := by
  unfold balance
  rw [charged_flatMap, charged_flatMap]
  congr 2
  refine List.map_congr_left fun n hn => ?_
  rw [List.map_map]
  refine congrArg List.sum (List.map_congr_left fun t ht => ?_)
  simp only [Function.comp_apply, id, hdue n hn t ht]

theorem due_of_not_worksOn {now : K} {n : WorkerNode K} {t : TimedTask K}
    (h : n.worksOn t = false) : due now n t = 0 := by simp [due, h]

theorem worksOn_eq_false {n : WorkerNode K} {t : TimedTask K} (h : t.state ≠ .active) :
    n.worksOn t = false := by simp [WorkerNode.worksOn, h]

/-- A change keeps the balance: no interval is opened in the past, and none is dropped. -/
theorem Change.balance_eq (h : Change announced s s') (hs : s.Wf) :
    s'.balance taskId uuid = s.balance taskId uuid := by
  cases h with
  | nodes p f name uuid => exact balance_updateNodes s p f
  | insertNode n fresh accounted idle uuid =>
    unfold balance
    rw [List.flatMap_append, charged_append, List.flatMap_singleton,
      accountNodeCpuTime_accounted accounted, charged_nil, add_zero]
  | insertTask t fresh pending notStarted =>
    unfold balance
    rw [charged_flatMap, charged_flatMap]
    congr 2
    refine List.map_congr_left fun n _ => ?_
    simp [due_of_not_worksOn (worksOn_eq_false (pending ▸ by decide : t.state ≠ .active))]
  | activate next mem pending idle =>
    refine balance_tasks (fun t => by split <;> rfl) fun n hn t ht => ?_
    by_cases hid : t.id = next.id
    · obtain rfl := hs.task_eq ht mem hid
      rw [if_pos rfl, hs.notStarted t ht pending,
        due_of_not_worksOn (worksOn_eq_false (pending ▸ by decide : t.state ≠ .active))]
      -- the task starts now
      have hstart : s.clock ≤ chargeStart n
          { t with state := .active, startedAt := some s.clock } := le_max_right _ _
      simp only [Option.getD_none]
      unfold due
      rw [validTime_of_le (.inl hstart), zero_mul, ite_self]
    · rw [if_neg hid]
  | finish taskId g accounted id started settled =>
    refine balance_tasks id fun n hn t ht => ?_
    rcases settled t with h | ⟨hid, -, hactive⟩
    · rw [h]
    · rw [due_of_not_worksOn (worksOn_eq_false hactive)]
      by_cases hw : n.worksOn t = true
      · exact (due_accounted (accounted n hn t ht hid hw)).symm
      · exact (due_of_not_worksOn (by simpa using hw)).symm

/-! ## Statements -/

/-- The name and the uuid a statement announces. -/
def announces (e : CpuEvent K) (name uuid : String) : Prop :=
  ∃ capabilities, e = .announceNode name uuid capabilities

/-- After a flush no row owes anything to the task. -/
theorem accounted_flushTaskCpuTime (hs : s.Wf) :
    ∀ n ∈ (s.flushTaskCpuTime taskId).nodes, ∀ t ∈ s.tasks, t.id = taskId → n.worksOn t →
      n.cpuTimeAccountedAt = s.clock := by
  intro n hn t ht hid hw
  simp only [WorkerNode.worksOn, Bool.and_eq_true, decide_eq_true_eq, beq_iff_eq] at hw
  unfold flushTaskCpuTime at hn
  split at hn
  · rename_i hnone
    have := List.find?_eq_none.1 hnone t ht
    simp [hid, hw.2] at this
  · rename_i task hsome
    have htask := List.find?_some hsome
    simp only [Bool.and_eq_true, beq_iff_eq] at htask
    obtain rfl := hs.task_eq (List.mem_of_find?_eq_some hsome) ht (htask.1.trans hid.symm)
    obtain ⟨m, hm, ⟨-, rfl⟩ | ⟨hp, rfl⟩⟩ := mem_updateNodes hn
    · rfl
    · simp [hw.1] at hp

theorem flushTaskCpuTime_tasks : (s.flushTaskCpuTime taskId).tasks = s.tasks := by
  unfold flushTaskCpuTime
  split <;> rfl

theorem flushTaskCpuTime_clock : (s.flushTaskCpuTime taskId).clock = s.clock := by
  unfold flushTaskCpuTime
  split <;> rfl

theorem flushTaskCpuTime_changes :
    Relation.ReflTransGen (Change announced) s (s.flushTaskCpuTime taskId) := by
  unfold flushTaskCpuTime
  split
  · exact .refl
  · exact .single (.nodes s _ _ (fun _ => rfl) fun _ _ => .inl rfl)

/-- A statement is a chain of changes. -/
theorem statement_changes (hs : s.Wf) (e : CpuEvent K) :
    Relation.ReflTransGen (Change (announces e)) s (s.statement e) := by
  cases e with
  | announceNode name uuid capabilities =>
    simp only [statement, announceNode]
    split
    · exact .single (.nodes s _ _ (fun _ => rfl) fun _ _ => .inl rfl)
    · split
      · refine .single (.nodes s _ _ (fun _ => rfl) fun n hp => .inr ⟨capabilities, ?_⟩)
        simp only [Bool.and_eq_true, beq_iff_eq] at hp
        rw [hp.1]
      · rename_i hnone
        refine .single (.insertNode s _ (fun m hm hname => hnone ?_) rfl rfl ⟨capabilities, rfl⟩)
        exact List.any_eq_true.2 ⟨m, hm, by simpa using hname⟩
  | setCurrentAssignment uuid target =>
    have hclear : Change (announces (.setCurrentAssignment uuid target : CpuEvent K)) s
        s.clearExpiredAssignments := .nodes s _ _ (fun _ => rfl) fun _ _ => .inl rfl
    simp only [statement, setCurrentAssignment]
    split
    · exact .tail (.single hclear) (.nodes _ _ _ (fun _ => rfl) fun _ _ => .inl rfl)
    · exact .single hclear
  | clearCurrentAssignment uuid => exact .single (.nodes s _ _ (fun _ => rfl) fun _ _ => .inl rfl)
  | clearExpiredAssignments => exact .single (.nodes s _ _ (fun _ => rfl) fun _ _ => .inl rfl)
  | expireNodeLease uuid => exact .single (.nodes s _ _ (fun _ => rfl) fun _ _ => .inl rfl)
  | insertRunTask task =>
    simp only [statement, insertRunTask]
    split
    · exact .refl
    · rename_i hnone
      refine .single (.insertTask s _ (fun u hu hid => hnone ?_) rfl rfl)
      exact List.any_eq_true.2 ⟨u, hu, by simpa using hid⟩
  | activateNextRunTask runId =>
    simp only [statement, activateNextRunTask]
    split
    · exact .refl
    · rename_i hidle
      split
      · exact .refl
      · rename_i next hnext
        obtain ⟨hmem, hrun, hpending⟩ := nextPendingTask_some hnext
        obtain ⟨t, ht, rfl⟩ := List.mem_map.1 hmem
        refine .single (.activate s t ht hpending fun u hu hu' hactive => hidle ?_)
        exact List.any_eq_true.2 ⟨u, hu, by simp [hu', hrun, hactive]⟩
  | completeRunTask taskId =>
    refine .tail flushTaskCpuTime_changes (.finish _ taskId _ ?_ ?_ ?_ ?_)
    · rw [flushTaskCpuTime_tasks, flushTaskCpuTime_clock]
      exact accounted_flushTaskCpuTime hs
    · intro t
      split <;> rfl
    · intro t
      split <;> rfl
    · intro t
      by_cases h : t.id = taskId ∧ t.state = .active
      · exact .inr ⟨h.1, by simp [h]⟩
      · exact .inl (if_neg h)
  | failRunTask taskId reason =>
    refine .tail flushTaskCpuTime_changes (.finish _ taskId _ ?_ ?_ ?_ ?_)
    · rw [flushTaskCpuTime_tasks, flushTaskCpuTime_clock]
      exact accounted_flushTaskCpuTime hs
    · intro t
      split <;> rfl
    · intro t
      split <;> rfl
    · intro t
      by_cases h : t.id = taskId ∧ (t.state = .pending ∨ t.state = .active)
      · exact .inr ⟨h.1, by simp [h]⟩
      · exact .inl (if_neg h)

/-- A property that changes keep, on well-formed tables, is kept by a statement. -/
theorem statement_induction {I : CpuState K → Prop} {e : CpuEvent K} (hs : s.Wf)
    (hchange : ∀ a b, Change (announces e) a b → a.Wf → I a → I b) (h : I s) :
    (s.statement e).Wf ∧ I (s.statement e) := by
  have hchain := statement_changes hs e
  generalize s.statement e = s' at hchain ⊢
  induction hchain with
  | refl => exact ⟨hs, h⟩
  | tail _ hstep ih => exact ⟨hstep.wf ih.1, hchange _ _ hstep ih.1 ih.2⟩

/-! ## Histories -/

section Clock

variable {later : K}

/-- The clock lengthens every open interval by what is worked. -/
theorem balance_later (hs : s.Wf) (h : s.clock ≤ later) :
    ({ s with clock := later } : CpuState K).balance taskId uuid =
      s.balance taskId uuid + s.workedUntil later taskId uuid := by
  unfold balance workedUntil
  rw [charged_flatMap, charged_flatMap, add_assoc, ← List.sum_map_add]
  congr 2
  refine List.map_congr_left fun n hn => ?_
  rw [← List.sum_map_add]
  refine congrArg List.sum (List.map_congr_left fun t ht => ?_)
  have hstart : chargeStart n t ≤ s.clock := by
    unfold chargeStart
    split
    · rename_i a ha
      exact max_le (hs.accounted n hn) (hs.started t ht a ha)
    · exact hs.accounted n hn
  by_cases hkey : t.id = taskId ∧ n.uuid = uuid
  · simp only [hkey, and_self, if_true, true_and, due_later h hstart]
  · rw [if_neg hkey, if_neg hkey, if_neg (fun h => hkey ⟨h.1, h.2.1⟩), add_zero]

theorem Wf.advance (hs : s.Wf) (h : s.clock ≤ later) : ({ s with clock := later } : CpuState K).Wf :=
  { hs with
    accounted := fun n hn => (hs.accounted n hn).trans h
    started := fun t ht a ha => (hs.started t ht a ha).trans h }

end Clock

theorem wf_init (clock : K) : (init clock).Wf where
  names := List.nodup_nil
  ids := List.nodup_nil
  accounted := by simp [init]
  started := by simp [init]
  notStarted := by simp [init]
  oneActive := by simp [init]

/-- A statement at a later time adds to the balance what was worked up to it. -/
theorem step_balance {e : K × CpuEvent K} (hs : s.Wf) (h : s.clock ≤ e.1) (taskId : Int)
    (uuid : String) :
    (s.step e).Wf ∧
      (s.step e).balance taskId uuid = s.balance taskId uuid + s.workedUntil e.1 taskId uuid := by
  rw [← balance_later hs h]
  exact statement_induction
    (I := fun a => a.balance taskId uuid =
      ({ s with clock := e.1 } : CpuState K).balance taskId uuid) (hs.advance h)
    (fun _ _ hc ha hI => (hc.balance_eq ha).trans hI) rfl

/-- The times of a history do not decrease. -/
abbrev InOrder (s : CpuState K) (es : List (K × CpuEvent K)) : Prop :=
  Along step (fun s e => s.clock ≤ e.1) s es

theorem run_balance {es : List (K × CpuEvent K)} (hs : s.Wf) (h : InOrder s es) (taskId : Int)
    (uuid : String) :
    (run step s es).Wf ∧
      (run step s es).balance taskId uuid =
        s.balance taskId uuid + worked s taskId uuid es := by
  induction es generalizing s with
  | nil => exact ⟨hs, (add_zero _).symm⟩
  | cons e es ih =>
    obtain ⟨hwf, hstep⟩ := step_balance hs h.1 taskId uuid
    obtain ⟨hwf', hrun⟩ := ih hwf h.2
    refine ⟨hwf', ?_⟩
    rw [run_cons, hrun, hstep, worked, add_assoc]

/-! ## No instant twice -/

/-- The table is the sum of the charges, and the intervals charged to an identity follow one
another. -/
structure Once (owner : String → String) (s : CpuState K) : Prop where
  table : ∀ taskId uuid, cpuSeconds s.cpuTime taskId uuid = charged s.charges taskId uuid
  owners : ∀ n ∈ s.nodes, owner n.uuid = n.name
  past : ∀ c ∈ s.charges, c.stop ≤ s.clock
  closed : ∀ c ∈ s.charges, ∀ n ∈ s.nodes, n.uuid = c.nodeUuid → c.stop ≤ n.cpuTimeAccountedAt
  disjoint : s.charges.Pairwise fun a b => a.nodeUuid = b.nodeUuid → a.stop ≤ b.start

variable {owner : String → String}

theorem Wf.charge (hs : s.Wf) {n : WorkerNode K} (hn : n ∈ s.nodes) {c : CpuCharge K}
    (hc : c ∈ accountNodeCpuTime s.clock s.tasks n) :
    c.nodeUuid = n.uuid ∧ n.cpuTimeAccountedAt ≤ c.start ∧ c.stop ≤ s.clock := by
  unfold accountNodeCpuTime at hc
  dsimp only at hc
  split at hc
  · obtain ⟨t, ht, rfl⟩ := List.mem_map.1 hc
    refine ⟨rfl, accountedAt_le_chargeStart n t, max_le ?_ (min_le_left _ _)⟩
    unfold chargeStart
    split
    · rename_i a ha
      exact max_le (hs.accounted n hn) (hs.started t (List.mem_filter.1 ht).1 a ha)
    · exact hs.accounted n hn
  · cases hc

/-- A run has one active task, so a node is charged for one at a time. -/
theorem Wf.charges_pairwise (hs : s.Wf) (n : WorkerNode K)
    (R : CpuCharge K → CpuCharge K → Prop) :
    (accountNodeCpuTime s.clock s.tasks n).Pairwise R := by
  unfold accountNodeCpuTime
  dsimp only
  split
  · rw [List.pairwise_map]
    have hnodup : (s.tasks.filter n.worksOn).Pairwise fun a b => a.id ≠ b.id :=
      (List.pairwise_map.1 hs.ids).filter _
    refine hnodup.imp_of_mem fun {a b} ha hb hne => absurd ?_ hne
    obtain ⟨ha, hwa⟩ := List.mem_filter.1 ha
    obtain ⟨hb, hwb⟩ := List.mem_filter.1 hb
    simp only [WorkerNode.worksOn, Bool.and_eq_true, decide_eq_true_eq, beq_iff_eq] at hwa hwb
    exact hs.oneActive a ha b hb hwa.2 hwb.2 (Option.some.inj (hwa.1.symm.trans hwb.1))
  · exact .nil

theorem Once.node_eq (h : s.Once owner) (hs : s.Wf) {n m : WorkerNode K} (hn : n ∈ s.nodes)
    (hm : m ∈ s.nodes) (huuid : n.uuid = m.uuid) : n = m := by
  refine List.inj_on_of_nodup_map hs.names hn hm ?_
  rw [← h.owners n hn, ← h.owners m hm, huuid]

theorem Once.updateNodes (h : s.Once owner) (hs : s.Wf) {p : WorkerNode K → Bool}
    {f : WorkerNode K → WorkerNode K}
    (howner : ∀ n ∈ s.nodes, p n → owner (f n).uuid = (f n).name) :
    (s.updateNodes p f).Once owner := by
  have hnew : ∀ c ∈ (s.nodes.filter p).flatMap (accountNodeCpuTime s.clock s.tasks),
      ∃ n ∈ s.nodes, p n = true ∧ c.nodeUuid = n.uuid ∧ n.cpuTimeAccountedAt ≤ c.start ∧
        c.stop ≤ s.clock := by
    intro c hc
    obtain ⟨n, hn, hc⟩ := List.mem_flatMap.1 hc
    obtain ⟨hn, hp⟩ := List.mem_filter.1 hn
    exact ⟨n, hn, hp, hs.charge hn hc⟩
  refine ⟨fun taskId uuid => ?_, fun n hn => ?_, fun c hc => ?_, fun c hc n hn huuid => ?_, ?_⟩
  · exact (cpuSeconds_insertCharges _ _).trans
      ((congrArg (· + _) (h.table taskId uuid)).trans (charged_append _ _).symm)
  · obtain ⟨m, hm, ⟨hp, rfl⟩ | ⟨-, rfl⟩⟩ := mem_updateNodes hn
    · exact howner m hm hp
    · exact h.owners _ hm
  · rcases List.mem_append.1 hc with hc | hc
    · exact h.past c hc
    · obtain ⟨n, -, -, -, -, hstop⟩ := hnew c hc
      exact hstop
  · have hpast : c.stop ≤ s.clock := by
      rcases List.mem_append.1 hc with hc | hc
      · exact h.past c hc
      · obtain ⟨n, -, -, -, -, hstop⟩ := hnew c hc
        exact hstop
    obtain ⟨m, hm, ⟨hp, rfl⟩ | ⟨hp, rfl⟩⟩ := mem_updateNodes hn
    · exact hpast
    · rcases List.mem_append.1 hc with hc | hc
      · exact h.closed c hc _ hm huuid
      · -- the row of the identity was not updated, so it was not charged
        obtain ⟨n', hn', hp', huuid', -⟩ := hnew c hc
        obtain rfl := h.node_eq hs hn' hm (huuid'.symm.trans huuid.symm)
        rw [hp] at hp'
        cases hp'
  · refine List.pairwise_append.2 ⟨h.disjoint, List.pairwise_flatMap.2 ⟨fun n _ =>
      hs.charges_pairwise n _, ?_⟩, fun a ha b hb huuid => ?_⟩
    · have hnames : (s.nodes.filter p).Pairwise fun a b => a.name ≠ b.name :=
        (List.pairwise_map.1 hs.names).filter _
      refine hnames.imp_of_mem fun {n m} hn hm hne c hc d hd huuid => absurd ?_ hne
      have hn := (List.mem_filter.1 hn).1
      have hm := (List.mem_filter.1 hm).1
      rw [(hs.charge hn hc).1, (hs.charge hm hd).1] at huuid
      exact congrArg (·.name) (h.node_eq hs hn hm huuid)
    · obtain ⟨n, hn, -, hb, hstart, -⟩ := hnew b hb
      exact (h.closed a ha n hn (hb.symm.trans huuid.symm)).trans hstart

/-- A change keeps the charged intervals apart when an identity is announced under its own
name. -/
theorem Change.once (h : Change announced s s') (hs : s.Wf)
    (hown : ∀ name uuid, announced name uuid → owner uuid = name) (ho : s.Once owner) :
    s'.Once owner := by
  cases h with
  | nodes p f name uuid =>
    refine ho.updateNodes hs fun n hn hp => ?_
    rcases uuid n hp with h | h
    · rw [h, name, ho.owners n hn]
    · exact hown _ _ h
  | insertNode n fresh accounted idle uuid =>
    refine { ho with owners := fun m hm => ?_, closed := fun c hc m hm huuid => ?_ }
    · rcases List.mem_append.1 hm with hm | hm
      · exact ho.owners m hm
      · rw [List.mem_singleton.1 hm]
        exact hown _ _ uuid
    · rcases List.mem_append.1 hm with hm | hm
      · exact ho.closed c hc m hm huuid
      · rw [List.mem_singleton.1 hm, accounted]
        exact ho.past c hc
  | insertTask t fresh pending notStarted => exact { ho with }
  | activate next mem pending idle => exact { ho with }
  | finish taskId g accounted id started settled => exact { ho with }

/-- Every identity is announced under its own name: a node draws its uuid when it starts. -/
abbrev Owned (owner : String → String) (es : List (K × CpuEvent K)) : Prop :=
  ∀ e ∈ es, ∀ name uuid, announces e.2 name uuid → owner uuid = name

theorem once_init (owner : String → String) (clock : K) : (init clock).Once owner where
  table := fun _ _ => rfl
  owners := by simp [init]
  past := by simp [init]
  closed := by simp [init]
  disjoint := .nil

theorem run_once {es : List (K × CpuEvent K)} (hs : s.Wf) (ho : s.Once owner) (h : InOrder s es)
    (hown : Owned owner es) : (run step s es).Once owner := by
  induction es generalizing s with
  | nil => exact ho
  | cons e es ih =>
    have hlater : ({ s with clock := e.1 } : CpuState K).Once owner :=
      { ho with past := fun c hc => (ho.past c hc).trans h.1 }
    obtain ⟨hwf, honce⟩ := statement_induction (I := Once owner) (hs.advance h.1)
      (fun _ _ hc ha hI => hc.once ha (hown e List.mem_cons_self) hI) hlater
    exact ih hwf honce h.2 fun e' he' => hown e' (List.mem_cons_of_mem _ he')

/-- Nothing is due from rows accounted for now, nor to a task that is not active. -/
theorem balance_eq_cpuSeconds
    (h : (∀ n ∈ s.nodes, n.uuid = uuid → n.cpuTimeAccountedAt = s.clock) ∨
      ∀ t ∈ s.tasks, t.id = taskId → t.state ≠ .active) :
    s.balance taskId uuid = cpuSeconds s.cpuTime taskId uuid := by
  have hzero : ∀ n ∈ s.nodes, ∀ t ∈ s.tasks,
      (if t.id = taskId ∧ n.uuid = uuid then due s.clock n t else 0) = 0 := by
    intro n hn t ht
    split
    · rename_i hkey
      rcases h with h | h
      · exact due_accounted (h n hn hkey.2)
      · exact due_of_not_worksOn (worksOn_eq_false (h t ht hkey.1))
    · rfl
  unfold balance
  rw [charged_flatMap, List.map_congr_left (g := fun _ => (0 : K))]
  · simp
  · intro n hn
    rw [List.map_congr_left (g := fun _ => (0 : K)) (hzero n hn)]
    simp

/-- After the last accounting event of an identity, or once the task is no longer active, the
seconds charged to the two are the seconds the identity worked on the task. The table is the sum
of the charges, whose intervals follow one another for every identity. -/
theorem cpuTime_charged_once {clock : K} {es : List (K × CpuEvent K)} (owner : String → String)
    (h : InOrder (init clock) es) (hown : Owned owner es) :
    (∀ taskId uuid,
      ((∀ n ∈ (run step (init clock) es).nodes,
          n.uuid = uuid → n.cpuTimeAccountedAt = (run step (init clock) es).clock) ∨
        ∀ t ∈ (run step (init clock) es).tasks, t.id = taskId → t.state ≠ .active) →
      cpuSeconds (run step (init clock) es).cpuTime taskId uuid =
        worked (init clock) taskId uuid es) ∧
    (∀ taskId uuid, cpuSeconds (run step (init clock) es).cpuTime taskId uuid =
      charged (run step (init clock) es).charges taskId uuid) ∧
    (run step (init clock) es).charges.Pairwise fun a b =>
      a.nodeUuid = b.nodeUuid → a.stop ≤ b.start := by
  have honce := run_once (wf_init clock) (once_init owner clock) h hown
  refine ⟨fun taskId uuid hclosed => ?_, honce.table, honce.disjoint⟩
  rw [← balance_eq_cpuSeconds hclosed, (run_balance (wf_init clock) h taskId uuid).2]
  exact (congrArg (· + _) (add_zero 0)).trans (zero_add _)

end CpuState

end Ordered

open CpuState in
/-- A node works on a task for five seconds, three of them with two processors. -/
theorem CpuState.cpuTime_charged_once_renewal :
    cpuSeconds (run step (init 0) [(0, .announceNode "a" "u" none),
        (1, .insertRunTask ⟨1, 1, 0, .samplerWorker, .pending, none, 0, 0⟩),
        (2, .activateNextRunTask 1), (3, .setCurrentAssignment "u" ⟨.evaluator, 1⟩),
        (5, .announceNode "a" "u" (some 2)), (8, .completeRunTask 1)] : CpuState ℚ).cpuTime 1 "u" =
      8 := by
  refine ((cpuTime_charged_once (fun _ => "a") (by decide +kernel) ?_).1 1 "u"
    (.inr (by decide +kernel))).trans (by decide +kernel)
  intro e he name uuid h
  obtain ⟨capabilities, h⟩ := h
  simp only [List.mem_cons, List.not_mem_nil, or_false] at he
  rcases he with rfl | rfl | rfl | rfl | rfl | rfl <;> cases h <;> rfl

end Gammaboard.Stores
