import Gammaboard.Stores.PoolCoherence

/-!
# The sampler slot of a standalone run

A run that is no controller has one sampler in its pool. The slot is kept by the
row of `nodes` that holds it, also when its process is gone: what frees it is
`clear_expired_assignments`, which runs in the transaction that asks for the
slot. Here is that the slot has one holder in every history, and which dead
rows still hold it after the cleanup.
-/

namespace Gammaboard.Stores

open Gammaboard.Lib

/-- The place of the sampler in the pool of a run. -/
abbrev samplerSlot (root : Int) : Option AssignmentTarget := some ⟨.samplerAggregator, root⟩

namespace ControlPlane

variable {s s' : ControlPlane}

/-- Rows have names of their own, pools belong to runs without a parent, and one row at most holds the
slot of a run that is no controller. -/
structure Slots (s : ControlPlane) : Prop where
  table : RunTable s.runs s.nextRunId
  names : (s.nodes.map (·.name)).Nodup
  root : ∀ n ∈ s.nodes, ∀ p, n.pool = some p → ∃ r ∈ s.runs, r.id = p.runId ∧ r.parentRunId = none
  single : ∀ r ∈ s.runs, r.controller = false → ∀ n ∈ s.nodes, ∀ m ∈ s.nodes,
    n.pool = samplerSlot r.id → m.pool = samplerSlot r.id → n = m

theorem slots_init (maxConnections reservedConnections : Int) :
    Slots (init maxConnections reservedConnections) where
  table := ⟨⟨List.nodup_nil, fun _ hr => by cases hr⟩, fun _ hr => (by cases hr),
    fun _ hr => (by cases hr)⟩
  names := List.nodup_nil
  root := fun _ hn => (by cases hn)
  single := fun _ hr => (by cases hr)

/-! ## What every statement but the assignment keeps -/

/-- Rows that keep the pool of an earlier row of their name, or have none. -/
theorem Slots.of_rows (h : Slots s) (hruns : s'.runs = s.runs) (hnext : s'.nextRunId = s.nextRunId)
    (hnames : (s'.nodes.map (·.name)).Nodup)
    (hpool : ∀ n' ∈ s'.nodes, ∀ p, n'.pool = some p → ∃ n ∈ s.nodes, n.name = n'.name ∧ n.pool = some p) :
    Slots s' where
  table := by
    rw [hruns, hnext]
    exact h.table
  names := hnames
  root := by
    intro n' hn' p hp
    obtain ⟨n, hn, -, hpn⟩ := hpool n' hn' p hp
    rw [hruns]
    exact h.root n hn p hpn
  single := by
    intro r hr hkind n' hn' m' hm' hslot hslot'
    obtain ⟨n, hn, hname, hpn⟩ := hpool n' hn' _ hslot
    obtain ⟨m, hm, hname', hpm⟩ := hpool m' hm' _ hslot'
    have hnm := h.single r (hruns ▸ hr) hkind n hn m hm hpn hpm
    exact List.inj_on_of_nodup_map hnames hn' hm' (by rw [← hname, ← hname', hnm])

theorem map_name_updateNodes {p : ControlNode → Bool} {f : ControlNode → ControlNode}
    (hname : ∀ n, (f n).name = n.name) :
    (s.updateNodes p f).nodes.map (·.name) = s.nodes.map (·.name) := by
  refine List.map_map.trans (List.map_congr_left fun n _ => ?_)
  dsimp only [Function.comp_apply]
  split
  · exact hname n
  · rfl

/-- A statement that names no row anew and gives no row another pool. -/
theorem Slots.updateNodes (h : Slots s) {p : ControlNode → Bool} {f : ControlNode → ControlNode}
    (hname : ∀ n, (f n).name = n.name) (hpool : ∀ n, (f n).pool = n.pool ∨ (f n).pool = none) :
    Slots (s.updateNodes p f) := by
  have hnames := map_name_updateNodes hname (s := s) (p := p)
  refine h.of_rows rfl rfl (by rw [hnames]; exact h.names) fun n' hn' t ht => ?_
  obtain ⟨n, hn, rfl⟩ := List.mem_map.1 hn'
  split at ht
  · rename_i hp
    refine ⟨n, hn, by rw [if_pos hp, hname], ?_⟩
    rcases hpool n with hkept | hnone
    · rw [← hkept, ht]
    · rw [hnone] at ht
      cases ht
  · rename_i hp
    exact ⟨n, hn, by rw [if_neg hp], ht⟩

theorem Slots.insertNodes (h : Slots s) {rows : List ControlNode}
    (hrows : ∀ n ∈ rows, n.pool = none) (hs' : s.insertNodes rows = .ok s') : Slots s' := by
  unfold ControlPlane.insertNodes at hs'
  split at hs'
  · rename_i hnames
    cases hs'
    refine h.of_rows rfl rfl hnames fun n hn p hp => ?_
    rcases List.mem_append.1 hn with hn | hn
    · exact ⟨n, hn, rfl, hp⟩
    · rw [hrows n hn] at hp
      cases hp
  · cases hs'

theorem Slots.clearExpiredAssignments (h : Slots s) : Slots s.clearExpiredAssignments := by
  refine h.updateNodes (fun n => ?_) fun n => ?_
  · split <;> rfl
  · split
    · exact .inl rfl
    · exact .inr rfl

theorem Slots.setDesired (h : Slots s) (updates : List NodeAssignmentUpdate) :
    Slots (updates.foldl ControlPlane.setDesired s) := by
  induction updates generalizing s with
  | nil => exact h
  | cons u updates ih => exact ih (h.updateNodes (fun _ => rfl) fun _ => .inl rfl)

theorem Slots.updateDesiredAssignments (h : Slots s) (updates : List NodeAssignmentUpdate) :
    Slots (s.committed ((s.updateDesiredAssignments updates).map (·.2))) := by
  cases hupdate : s.updateDesiredAssignments updates with
  | error e => exact h
  | ok result =>
    obtain ⟨applied, control⟩ := result
    rcases updateDesiredAssignments_ok hupdate with rfl | ⟨-, -, -, rfl⟩
    · exact h
    · exact h.clearExpiredAssignments.setDesired updates

/-- A new run has an id no pool has. -/
theorem Slots.insertRun (h : Slots s) (parentRunId : Option Int) (runKind : Option String) :
    Slots (s.insertRun parentRunId runKind) := by
  have htable := runTable_insertRun h.table parentRunId runKind
  unfold ControlPlane.insertRun at htable ⊢
  split
  · rename_i hparent
    rw [if_pos hparent] at htable
    refine ⟨htable, h.names, fun n hn p hp => ?_, fun r hr hkind n hn m hm hslot hslot' => ?_⟩
    · obtain ⟨r, hr, hroot⟩ := h.root n hn p hp
      exact ⟨r, List.mem_append_left _ hr, hroot⟩
    · rcases List.mem_append.1 hr with hr | hr
      · exact h.single r hr hkind n hn m hm hslot hslot'
      · obtain ⟨q, hq, hid, -⟩ := h.root n hn _ hslot
        have hlt := h.table.serial q hq
        rw [List.mem_singleton.1 hr] at hid
        dsimp only at hid
        omega
  · exact h

theorem Slots.removeRun (h : Slots s) (runId : Int) : Slots (s.removeRun runId) := by
  have hrows : ∀ n' ∈ (s.removeRun runId).nodes, ∀ p, n'.pool = some p →
      ∃ n ∈ s.nodes, n.name = n'.name ∧ n.pool = some p ∧ p.runId ∉ s.runTree runId := by
    intro n' hn' p hp
    obtain ⟨n, hn, rfl⟩ := List.mem_map.1 hn'
    split at hp
    · rename_i hany
      rw [without_eq_some] at hp
      exact ⟨n, hn, by rw [if_pos hany], hp⟩
    · rename_i hnone
      refine ⟨n, hn, by rw [if_neg hnone], hp, fun hmem => hnone ?_⟩
      simp [among, hp, hmem]
  have hnames : (s.removeRun runId).nodes.map (·.name) = s.nodes.map (·.name) :=
    map_name_updateNodes fun _ => rfl
  refine ⟨runTable_removeRun h.table runId, hnames ▸ h.names, fun n' hn' p hp => ?_,
    fun r hr hkind n' hn' m' hm' hslot hslot' => ?_⟩
  · obtain ⟨n, hn, -, hpn, hkept⟩ := hrows n' hn' p hp
    obtain ⟨r, hr, hid, hparent⟩ := h.root n hn p hpn
    exact ⟨r, mem_removeRun_runs.2 ⟨hr, hid ▸ hkept⟩, hid, hparent⟩
  · obtain ⟨n, hn, hname, hpn, -⟩ := hrows n' hn' _ hslot
    obtain ⟨m, hm, hname', hpm, -⟩ := hrows m' hm' _ hslot'
    have hnm := h.single r (mem_removeRun_runs.1 hr).1 hkind n hn m hm hpn hpm
    exact List.inj_on_of_nodup_map (hnames ▸ h.names) hn' hm' (by rw [← hname, ← hname', hnm])

/-! ## Assignment -/

theorem pool_assignPool {nodeName : String} {target : AssignmentTarget} {n' : ControlNode}
    (hn' : n' ∈ (s.assignPool nodeName target).nodes) :
    ∃ n ∈ s.nodes, n.name = n'.name ∧
      (n'.pool = n.pool ∨ n.name = nodeName ∧ n'.pool = some target) := by
  obtain ⟨n, hn, rfl⟩ := List.mem_map.1 hn'
  split
  · rename_i hp
    simp only [Bool.and_eq_true, beq_iff_eq] at hp
    exact ⟨n, hn, rfl, .inr ⟨hp.1, rfl⟩⟩
  · exact ⟨n, hn, rfl, .inl rfl⟩

/-- The slot is given to a row when no other row holds it. -/
theorem Slots.assignPool (h : Slots s) {nodeName : String} {target : AssignmentTarget}
    (hroot : ∃ r ∈ s.runs, r.id = target.runId ∧ r.parentRunId = none)
    (hfree : target.role = .samplerAggregator → s.samplerOccupied target.runId nodeName = false) :
    Slots (s.assignPool nodeName target) := by
  have hnames : (s.assignPool nodeName target).nodes.map (·.name) = s.nodes.map (·.name) :=
    map_name_updateNodes fun _ => rfl
  have hnodup : ((s.assignPool nodeName target).nodes.map (·.name)).Nodup := hnames ▸ h.names
  -- a holder of the slot held it before, or is the row that was assigned
  have key : ∀ r ∈ s.runs, r.controller = false → ∀ n' ∈ (s.assignPool nodeName target).nodes,
      n'.pool = samplerSlot r.id → target = ⟨.samplerAggregator, r.id⟩ → n'.name = nodeName := by
    intro r hr hkind n' hn' hslot htarget
    obtain ⟨n, hn, hname, hkept | ⟨hassigned, -⟩⟩ := pool_assignPool hn'
    · have hfree := hfree (by rw [htarget])
      simp only [samplerOccupied, Bool.and_eq_false_iff, List.any_eq_false, Bool.and_eq_true,
        beq_iff_eq, Bool.not_eq_true', bne_iff_ne, ne_eq, htarget] at hfree
      rcases hfree with hfree | hfree
      · exact absurd ⟨rfl, hkind⟩ (hfree r hr)
      · have := hfree n hn
        rw [← hname]
        by_contra hne
        exact this ⟨hkept ▸ hslot, hne⟩
    · rw [← hname, hassigned]
  refine ⟨h.table, hnodup, fun n' hn' p hp => ?_, fun r hr hkind n' hn' m' hm' hslot hslot' => ?_⟩
  · obtain ⟨n, hn, -, hkept | ⟨-, hassigned⟩⟩ := pool_assignPool hn'
    · exact h.root n hn p (hkept ▸ hp)
    · rw [hassigned] at hp
      cases hp
      exact hroot
  · refine List.inj_on_of_nodup_map hnodup hn' hm' ?_
    by_cases htarget : target = ⟨.samplerAggregator, r.id⟩
    · rw [key r hr hkind n' hn' hslot htarget, key r hr hkind m' hm' hslot' htarget]
    · have hold : ∀ k' ∈ (s.assignPool nodeName target).nodes, k'.pool = samplerSlot r.id →
          ∃ k ∈ s.nodes, k.name = k'.name ∧ k.pool = samplerSlot r.id := by
        intro k' hk' hkslot
        obtain ⟨k, hk, hname, hkept | ⟨-, hassigned⟩⟩ := pool_assignPool hk'
        · exact ⟨k, hk, hname, hkept ▸ hkslot⟩
        · rw [hassigned] at hkslot
          exact absurd (Option.some.inj hkslot) htarget
      obtain ⟨n, hn, hname, hpn⟩ := hold n' hn' hslot
      obtain ⟨m, hm, hname', hpm⟩ := hold m' hm' hslot'
      rw [← hname, ← hname', h.single r hr hkind n hn m hm hpn hpm]

theorem Slots.assignWorkerPool (h : Slots s) (nodeName : String) (role : WorkerRole) (runId : Int) :
    Slots (s.committed ((s.assignWorkerPool nodeName role runId).map (·.2))) := by
  unfold ControlPlane.assignWorkerPool
  dsimp only
  split
  · exact h
  · rename_i root hroot
    split
    · exact h
    · rename_i hfree
      have hassigned : Slots (s.clearExpiredAssignments.assignPool nodeName ⟨role, root⟩) := by
        refine h.clearExpiredAssignments.assignPool (rootWithin_some hroot).2 fun hrole => ?_
        exact eq_false_of_ne_true fun hocc => hfree ⟨hrole, hocc⟩
      split
      · cases hcheck : ControlPlane.checkWorkerConnectionBudget
            (s.clearExpiredAssignments.assignPool nodeName ⟨role, root⟩) 0 with
        | error e => exact h
        | ok _ => exact hassigned
      · exact hassigned

/-! ## Histories -/

theorem Slots.announceNode (h : Slots s) (nodeName nodeUuid : String) :
    Slots (s.committed (s.announceNode nodeName nodeUuid)) := by
  unfold ControlPlane.announceNode
  split
  · exact h.updateNodes (fun _ => rfl) fun _ => .inl rfl
  · split
    · split
      · refine h.updateNodes (fun n => ?_) fun n => ?_
        · unfold takenOver
          split <;> rfl
        · unfold takenOver
          split
          · exact .inl rfl
          · exact .inr rfl
      · exact h
    · cases hins : s.insertNodes [s.renewed { reservedRow nodeName with uuid := nodeUuid }] with
      | error e => exact h
      | ok s' =>
        refine h.insertNodes (fun n hn => ?_) hins
        rw [List.mem_singleton.1 hn]
        rfl

theorem Slots.setCurrentAssignment (h : Slots s) (nodeUuid : String) (target : AssignmentTarget) :
    Slots (s.setCurrentAssignment nodeUuid target).2 := by
  unfold ControlPlane.setCurrentAssignment
  dsimp only
  split
  · exact h.clearExpiredAssignments
  · split
    · exact h.clearExpiredAssignments
    · split
      · exact h.clearExpiredAssignments.updateNodes (fun _ => rfl) fun _ => .inl rfl
      · exact h.clearExpiredAssignments

theorem Slots.requestNodeShutdown (h : Slots s) (nodeName : String) :
    Slots (s.requestNodeShutdown nodeName) := by
  unfold ControlPlane.requestNodeShutdown
  split
  · exact h.updateNodes (fun _ => rfl) fun _ => .inr rfl
  · rename_i hnone
    have hins : s.insertNodes [{ reservedRow nodeName with shutdownRequested := true }] =
        .ok { s with nodes := s.nodes ++ [{ reservedRow nodeName with shutdownRequested := true }] } := by
      unfold ControlPlane.insertNodes
      rw [if_pos]
      rw [List.map_append, List.nodup_append]
      refine ⟨h.names, List.nodup_singleton _, fun a ha b hb => ?_⟩
      obtain ⟨n, hn, rfl⟩ := List.mem_map.1 ha
      rw [List.map_singleton, List.mem_singleton] at hb
      rintro rfl
      exact hnone (List.any_eq_true.2 ⟨n, hn, beq_iff_eq.2 hb⟩)
    refine h.insertNodes (fun n hn => ?_) hins
    rw [List.mem_singleton.1 hn]
    rfl

theorem Slots.reserveWorkerLaunch (h : Slots s) (groups : List (String × Nat)) :
    Slots (s.committed (s.reserveWorkerLaunch groups)) := by
  unfold ControlPlane.reserveWorkerLaunch
  split
  · exact h
  · cases hcheck : s.checkWorkerConnectionBudget (groups.map (·.2)).sum with
    | error e => exact h
    | ok _ =>
      cases hins : s.insertRequest.insertNodes
          ((groupNames groups (s.nodes.map (·.name))).map fun name =>
            { reservedRow name with launchGroup := true, launchRequestId := some s.nextRequestId }) with
      | error e => exact h
      | ok s' =>
        have hrequest : Slots s.insertRequest := ⟨h.table, h.names, h.root, h.single⟩
        refine hrequest.insertNodes (fun n hn => ?_) hins
        obtain ⟨name, -, rfl⟩ := List.mem_map.1 hn
        rfl

theorem Slots.enqueueResumedWorkers (h : Slots s) :
    Slots (s.committed s.enqueueResumedWorkers) := by
  unfold ControlPlane.enqueueResumedWorkers
  dsimp only
  split
  · exact h
  · cases hcheck : s.checkWorkerConnectionBudget (s.nodes.filter s.resumable).length with
    | error e => exact h
    | ok _ =>
      have key : ∀ (rows : List ControlNode) (s : ControlPlane), Slots s →
          Slots (rows.foldl (fun s n => s.enqueueResumed n.name) s) := by
        intro rows
        induction rows with
        | nil => exact fun _ hs => hs
        | cons n rows ih =>
          intro s hs
          have hrequest : Slots s.insertRequest := ⟨hs.table, hs.names, hs.root, hs.single⟩
          exact ih _ (hrequest.updateNodes (fun _ => rfl) fun _ => .inl rfl)
      exact key _ s h

theorem Slots.finishRunAssignments (h : Slots s) (runId : Int) (parentTaskActive : Bool) :
    Slots (s.finishRunAssignments runId parentTaskActive) := by
  unfold ControlPlane.finishRunAssignments
  dsimp only
  split
  · exact h.updateNodes (fun _ => rfl) fun _ => .inr rfl
  · split
    · exact h
    · exact h.updateNodes (fun _ => rfl) fun _ => .inl rfl

/-- Every statement keeps the slots. -/
theorem Slots.step (h : Slots s) (e : ControlEvent) : Slots (s.step e) := by
  have placement (p : ControlNode → Bool) : Slots (s.updateNodes p withoutPlacement) :=
    h.updateNodes (fun _ => rfl) fun _ => .inr rfl
  cases e with
  | tick elapsed => exact ⟨h.table, h.names, h.root, h.single⟩
  | insertRun parentRunId runKind => exact h.insertRun parentRunId runKind
  | removeRun runId => exact h.removeRun runId
  | assignWorkerPool nodeName role runId => exact h.assignWorkerPool nodeName role runId
  | updateDesiredAssignments updates => exact h.updateDesiredAssignments updates
  | clearDesiredAssignment nodeName => exact placement _
  | clearDesiredAssignmentsForRun runId => exact placement _
  | clearDesiredAssignmentsForRunExceptNode runId keepNodeName => exact placement _
  | clearAllDesiredAssignments => exact placement _
  | pauseWorkerPool runId => exact h.updateNodes (fun _ => rfl) fun _ => .inl rfl
  | resumeWorkerPool runId => exact h.updateNodes (fun _ => rfl) fun _ => .inl rfl
  | finishRunAssignments runId parentTaskActive => exact h.finishRunAssignments runId parentTaskActive
  | announceNode nodeName nodeUuid => exact h.announceNode nodeName nodeUuid
  | setCurrentAssignment nodeUuid target => exact h.setCurrentAssignment nodeUuid target
  | clearCurrentAssignment nodeUuid => exact h.updateNodes (fun _ => rfl) fun _ => .inl rfl
  | expireNodeLease nodeUuid =>
    refine h.updateNodes (fun n => ?_) fun n => ?_
    · dsimp only
      split <;> rfl
    · dsimp only
      split
      · exact .inl rfl
      · exact .inr rfl
  | requestNodeShutdown nodeName => exact h.requestNodeShutdown nodeName
  | requestAllNodesShutdown => exact h.updateNodes (fun _ => rfl) fun _ => .inr rfl
  | consumeNodeShutdownRequest nodeUuid => exact h.updateNodes (fun _ => rfl) fun _ => .inl rfl
  | suspendWorkers => exact h.updateNodes (fun _ => rfl) fun _ => .inl rfl
  | reserveWorkerLaunch groups => exact h.reserveWorkerLaunch groups
  | enqueueResumedWorkers => exact h.enqueueResumedWorkers
  | setRequestState id state => exact ⟨h.table, h.names, h.root, h.single⟩
  | loseWorker id nodeName => exact ⟨h.table, h.names, h.root, h.single⟩

/-! ## What the cleanup leaves -/

/-- A row that keeps the slot of a standalone run through the cleanup: its process is alive, it is
suspended or launched anew, or it has neither a placement nor a role, as a paused row has. -/
def holdsSlot (s : ControlPlane) (n : ControlNode) : Bool :=
  s.live n || n.resumeRequested || s.launching n || (n.desired.isNone && n.active.isNone)

/-- The pool of a standalone run belongs to no controller. -/
theorem Slots.owned_eq_false (h : Slots s) {r : RunRecord} (hr : r ∈ s.runs)
    (hparent : r.parentRunId = none) (hkind : r.controller = false) {n : ControlNode}
    (hslot : n.pool = samplerSlot r.id) : s.owned n = false := by
  rw [owned, hslot, Option.any_some, List.any_eq_false]
  intro q hq howned
  simp only [Bool.and_eq_true, beq_iff_eq, Bool.or_eq_true] at howned
  rw [h.table.tree.row_eq hq hr howned.1, hparent] at howned
  rcases howned.2 with hsome | hcontroller
  · cases hsome
  · unfold RunRecord.controller at hkind
    cases hrun : r.runKind with
    | none =>
      rw [hrun] at hcontroller
      cases hcontroller
    | some kind =>
      rw [hrun] at hcontroller hkind
      have hintegration : kind = "integration" := by simpa using hkind
      rw [hintegration] at hcontroller
      exact absurd hcontroller (by decide)

/-- After the cleanup the slot of a standalone run is held by the rows that hold it still. -/
theorem Slots.samplerOccupied_clearExpired (h : Slots s) {r : RunRecord} (hr : r ∈ s.runs)
    (hparent : r.parentRunId = none) (nodeName : String) :
    s.clearExpiredAssignments.samplerOccupied r.id nodeName = true ↔
      r.controller = false ∧ ∃ n ∈ s.nodes, n.name ≠ nodeName ∧ n.pool = samplerSlot r.id ∧
        s.holdsSlot n = true := by
  have hruns : s.clearExpiredAssignments.runs = s.runs := rfl
  have hkind : (s.runs.any fun q => q.id == r.id && !q.controller) = true ↔ r.controller = false := by
    simp only [List.any_eq_true, Bool.and_eq_true, beq_iff_eq, Bool.not_eq_true']
    constructor
    · rintro ⟨q, hq, hid, hplain⟩
      exact h.table.tree.row_eq hq hr hid ▸ hplain
    · exact fun hplain => ⟨r, hr, rfl, hplain⟩
  simp only [samplerOccupied, hruns, Bool.and_eq_true, hkind, List.any_eq_true, beq_iff_eq, bne_iff_ne]
  refine and_congr_right fun hplain => ?_
  constructor
  · rintro ⟨n', hn', hslot, hname⟩
    obtain ⟨n, hn, rfl⟩ := List.mem_map.1 hn'
    by_cases hexpired : (!s.live n && (n.desired.isSome || n.active.isSome)) = true
    · rw [if_pos hexpired] at hslot hname
      dsimp only at hslot hname
      by_cases hkeeps : s.keepsPool n = true
      · rw [if_pos hkeeps] at hslot hname
        have hpool : n.pool = samplerSlot r.id := hslot
        refine ⟨n, hn, hname, hpool, ?_⟩
        unfold keepsPool at hkeeps
        rw [h.owned_eq_false hr hparent hplain hpool, Bool.or_false] at hkeeps
        unfold holdsSlot
        rw [Bool.or_assoc (s.live n), hkeeps]
        simp
      · rw [if_neg hkeeps] at hslot
        cases hslot
    · rw [if_neg hexpired] at hslot hname
      refine ⟨n, hn, hname, hslot, ?_⟩
      unfold holdsSlot
      cases hl : s.live n with
      | true => rfl
      | false =>
        rw [hl] at hexpired
        simp only [Bool.not_false, Bool.true_and, Bool.or_eq_true, not_or, Bool.not_eq_true,
          Option.isSome_eq_false_iff] at hexpired
        simp [hexpired]
  · rintro ⟨n, hn, hname, hslot, hholds⟩
    refine ⟨_, List.mem_map_of_mem hn, ?_⟩
    by_cases hexpired : (!s.live n && (n.desired.isSome || n.active.isSome)) = true
    · have hkeeps : s.keepsPool n = true := by
        simp only [Bool.and_eq_true, Bool.not_eq_true', Bool.or_eq_true,
          Option.isSome_iff_ne_none, ne_eq] at hexpired
        simp only [holdsSlot, Bool.or_eq_true, Bool.and_eq_true, hexpired.1, Bool.false_eq_true,
          false_or, Option.isNone_iff_eq_none] at hholds
        unfold keepsPool
        rcases hholds with (hresume | hlaunching) | ⟨hdesired, hactive⟩
        · simp [hresume]
        · simp [hlaunching]
        · rcases hexpired.2 with hsome | hsome
          · exact absurd hdesired hsome
          · exact absurd hactive hsome
      rw [if_pos hexpired]
      dsimp only
      rw [if_pos hkeeps]
      exact ⟨hslot, hname⟩
    · rw [if_neg hexpired]
      exact ⟨hslot, hname⟩

/-- In every history, a sampler is refused for a run exactly when the run at the root of its tree is
no controller and another row of that pool is alive, suspended, launched anew, or has neither a
placement nor a role. Every other dead row frees the slot. -/
theorem sampler_refused_iff (maxConnections reservedConnections : Int) (es : List ControlEvent)
    (nodeName : String) (runId : Int) :
    let s := run step (init maxConnections reservedConnections) es
    (∃ s', s.assignWorkerPool nodeName .samplerAggregator runId = .ok (.samplerOccupied, s')) ↔
      ∃ r ∈ s.runs, s.workerPoolRoot runId = some r.id ∧ r.controller = false ∧
        ∃ n ∈ s.nodes, n.name ≠ nodeName ∧ n.pool = samplerSlot r.id ∧
          (s.live n = true ∨ n.resumeRequested = true ∨ s.launching n = true ∨
            n.desired = none ∧ n.active = none) := by
  intro s
  have h : Slots s := run_invariant' (fun _ e hs => hs.step e) es (slots_init _ _)
  have hholds (n : ControlNode) : s.holdsSlot n = true ↔ s.live n = true ∨
      n.resumeRequested = true ∨ s.launching n = true ∨ n.desired = none ∧ n.active = none := by
    simp only [holdsSlot, Bool.or_eq_true, Bool.and_eq_true, Option.isNone_iff_eq_none, or_assoc]
  simp only [← hholds]
  have hrootOf : s.clearExpiredAssignments.workerPoolRoot runId = s.workerPoolRoot runId := rfl
  unfold ControlPlane.assignWorkerPool
  dsimp only
  rw [hrootOf]
  cases hroot : s.workerPoolRoot runId with
  | none => simp
  | some root =>
    obtain ⟨-, r, hr, rfl, hparent⟩ := rootWithin_some hroot
    have hocc := h.samplerOccupied_clearExpired hr hparent nodeName
    constructor
    · rintro ⟨s', hs'⟩
      dsimp only at hs'
      split at hs'
      · rename_i hrefused
        exact ⟨r, hr, rfl, hocc.1 hrefused.2⟩
      · -- a transaction that gets this far answers something else
        rw [if_pos rfl] at hs'
        cases hcheck : ControlPlane.checkWorkerConnectionBudget
            (s.clearExpiredAssignments.assignPool nodeName ⟨.samplerAggregator, r.id⟩) 0 with
        | error e =>
          rw [hcheck] at hs'
          cases hs'
        | ok _ =>
          rw [hcheck] at hs'
          simp only [bind, Except.bind, Except.ok.injEq, Prod.mk.injEq] at hs'
          split at hs' <;> exact absurd hs'.1 (by decide)
    · rintro ⟨q, hq, hid, hblocked⟩
      rw [← h.table.tree.row_eq hr hq (Option.some.inj hid)] at hblocked
      dsimp only
      rw [if_pos ⟨rfl, hocc.2 hblocked⟩]
      exact ⟨s, rfl⟩

/-- A paused sampler whose process is gone still has the slot. -/
example : ((run step (init 100 3) [.insertRun none none, .announceNode "a" "u",
    .assignWorkerPool "a" .samplerAggregator 1, .pauseWorkerPool 1, .tick 20000000,
    .announceNode "b" "v"]).assignWorkerPool "b" .samplerAggregator 1).map (·.1) =
      .ok .samplerOccupied := by
  decide +kernel

end ControlPlane

end Gammaboard.Stores
