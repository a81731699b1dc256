import Gammaboard.Runners.AssignmentUpdates
import Gammaboard.Stores.PoolCoherence

/-!
# Controllers placing the nodes of their pools

Any number of controllers at once: each reads the branches below its run, then
the nodes, and later applies the updates it planned from the two. Between these
steps any statement may change the tables. Pools and placements stay coherent,
and an update applies only while its node is in the pool it was seen in.
-/

namespace Gammaboard.Runners

open Gammaboard.Lib Gammaboard.Stores

/-- A plan with the rows it was made from. -/
structure Placement where
  plan : ControllerAssignmentPlan
  seen : List ControlNode

/-- What a controller reads of a row, `list_nodes`. -/
def registered (n : ControlNode) : RegisteredNode := ⟨n.name, n.uuid, n.desired⟩

def Placement.updates (p : Placement) : List NodeAssignmentUpdate :=
  controllerAssignmentUpdates (p.seen.map registered) p.plan

/-- The tables, the plans that have read their branches, and those that have read the nodes. -/
structure PlacementSystem where
  control : ControlPlane
  plans : List ControllerAssignmentPlan
  placements : List Placement

inductive PlacementEvent where
  | statement (e : ControlEvent)
  | readBranches (parentRunId : Int) (selectedChildRunIds : List Int)
  | readNodes (plan : Nat)
  | applyUpdates (placement : Nat)

namespace PlacementSystem

/-- `apply_controller_assignment_plan` in its three accesses to the store. -/
def step (s : PlacementSystem) : PlacementEvent → PlacementSystem
  | .statement e => { s with control := s.control.step e }
  | .readBranches parentRunId selectedChildRunIds =>
    { s with plans := s.plans ++
        [ControllerAssignmentPlan.observed s.control.runs parentRunId selectedChildRunIds] }
  | .readNodes plan =>
    match s.plans[plan]? with
    | some plan => { s with placements := s.placements ++
        [⟨plan, s.control.nodes.filter s.control.live⟩] }
    | none => s
  | .applyUpdates placement =>
    match s.placements[placement]? with
    | some p => { s with control := s.control.step (.updateDesiredAssignments p.updates) }
    | none => s

/-- A controller selects children of its own run, which may have been removed since. -/
abbrev OwnChildren (s : ControlPlane) (parentRunId : Int) (selected : List Int) : Prop :=
  parentRunId < s.nextRunId ∧ parentRunId ∉ selected ∧
    ∀ id ∈ selected, id < s.nextRunId ∧ ∀ r ∈ s.runs, r.id = id → r.parentRunId = some parentRunId

/-- Processes register under their own names, controllers select their own children, and
placements are changed by controllers only through their plans. -/
def Allowed (owner : String → String) (s : PlacementSystem) : PlacementEvent → Prop
  | .statement e =>
    ControlPlane.Registers owner e ∧ ∀ updates, e ≠ .updateDesiredAssignments updates
  | .readBranches parentRunId selected => OwnChildren s.control parentRunId selected
  | .readNodes _ => True
  | .applyUpdates _ => True

/-! ## What a view keeps -/

/-- The run is below the other as long as it is there; ids are not used again. -/
structure Below (s : ControlPlane) (above id : Int) : Prop where
  known : id < s.nextRunId
  within : (∃ r ∈ s.runs, r.id = id) → Within s.runs above id

structure Root (s : ControlPlane) (id : Int) : Prop where
  known : id < s.nextRunId
  top : ∀ r ∈ s.runs, r.id = id → r.parentRunId = none

/-- The runs of a plan are below its own run. -/
structure SeenPlan (s : ControlPlane) (plan : ControllerAssignmentPlan) : Prop where
  coherent : plan.Coherent
  below : ∀ id, (id = plan.parentRunId ∨ (plan.branch id).isSome) → Below s plan.parentRunId id

/-- A row as a controller saw it: live, under its own name, and placed in its pool. -/
structure SeenNode (owner : String → String) (s : ControlPlane) (n : ControlNode) : Prop where
  owned : owner n.uuid = n.name
  placed : ∀ t, n.desired = some t →
    ∃ p, n.pool = some p ∧ p.role = t.role ∧ Root s p.runId ∧ Below s p.runId t.runId

structure SeenPlacement (owner : String → String) (s : ControlPlane) (p : Placement) : Prop where
  plan : SeenPlan s p.plan
  names : (p.seen.map (·.name)).Nodup
  nodes : ∀ n ∈ p.seen, SeenNode owner s n

/-- Runs only come with new ids and go with what is below them. -/
structure RunsMoved (s s' : ControlPlane) : Prop where
  next : s.nextRunId ≤ s'.nextRunId
  old : ∀ r ∈ s'.runs, r.id < s.nextRunId → r ∈ s.runs
  within : ∀ a b, (∃ r ∈ s'.runs, r.id = b) → Within s.runs a b → Within s'.runs a b

section Moved

variable {s s' : ControlPlane} {owner : String → String}

theorem runsMoved_same (hruns : s'.runs = s.runs) (hnext : s'.nextRunId = s.nextRunId) :
    RunsMoved s s' where
  next := hnext.ge
  old := fun r hr _ => hruns ▸ hr
  within := fun _ _ _ h => by rwa [hruns]

theorem runsMoved_insertRun (parentRunId : Option Int) (runKind : Option String) :
    RunsMoved s (s.insertRun parentRunId runKind) := by
  unfold ControlPlane.insertRun
  split
  · refine ⟨by dsimp only; omega, fun r hr hlt => ?_, fun _ _ _ h => h.append _⟩
    rcases List.mem_append.1 hr with hr | hr
    · exact hr
    · rw [List.mem_singleton.1 hr] at hlt
      exact absurd hlt (lt_irrefl _)
  · exact runsMoved_same rfl rfl

theorem runsMoved_removeRun (htree : RunTree s.runs) (runId : Int) :
    RunsMoved s (s.removeRun runId) where
  next := le_refl _
  old := fun r hr _ => (ControlPlane.mem_removeRun_runs.1 hr).1
  within := by
    rintro a b ⟨r, hr, rfl⟩ h
    exact ControlPlane.within_removeRun htree h (ControlPlane.mem_removeRun_runs.1 hr).2

theorem runsMoved_foldl {α : Type} {f : ControlPlane → α → ControlPlane}
    (hf : ∀ s a, (f s a).runs = s.runs ∧ (f s a).nextRunId = s.nextRunId) (l : List α) :
    RunsMoved s (l.foldl f s) := by
  have hfold : (l.foldl f s).runs = s.runs ∧ (l.foldl f s).nextRunId = s.nextRunId := by
    induction l generalizing s with
    | nil => exact ⟨rfl, rfl⟩
    | cons a l ih => exact ⟨ih.1.trans (hf s a).1, ih.2.trans (hf s a).2⟩
  exact runsMoved_same hfold.1 hfold.2

/-- Every other statement leaves the runs alone. -/
theorem runsMoved_step (htree : RunTree s.runs) (e : ControlEvent) : RunsMoved s (s.step e) := by
  cases e with
  | insertRun parentRunId runKind => exact runsMoved_insertRun parentRunId runKind
  | removeRun runId => exact runsMoved_removeRun htree runId
  | assignWorkerPool nodeName role runId =>
    simp only [ControlPlane.step, ControlPlane.assignWorkerPool]
    split
    · exact runsMoved_same rfl rfl
    · split
      · exact runsMoved_same rfl rfl
      · split
        · rename_i root _ _ _
          cases ControlPlane.checkWorkerConnectionBudget
              (s.clearExpiredAssignments.assignPool nodeName ⟨role, root⟩) 0 <;>
            exact runsMoved_same rfl rfl
        · exact runsMoved_same rfl rfl
  | updateDesiredAssignments updates =>
    simp only [ControlPlane.step]
    cases hupdate : s.updateDesiredAssignments updates with
    | error e => exact runsMoved_same rfl rfl
    | ok r =>
      obtain ⟨applied, s'⟩ := r
      rcases ControlPlane.updateDesiredAssignments_ok hupdate with rfl | ⟨-, -, -, rfl⟩
      · exact runsMoved_same rfl rfl
      · have := runsMoved_foldl (s := s.clearExpiredAssignments) (f := ControlPlane.setDesired)
          (fun _ _ => ⟨rfl, rfl⟩) updates
        exact ⟨this.next, this.old, this.within⟩
  | announceNode nodeName nodeUuid =>
    simp only [ControlPlane.step, ControlPlane.announceNode]
    split
    · exact runsMoved_same rfl rfl
    · split
      · split <;> exact runsMoved_same rfl rfl
      · unfold ControlPlane.insertNodes
        split <;> exact runsMoved_same rfl rfl
  | setCurrentAssignment nodeUuid target =>
    simp only [ControlPlane.step, ControlPlane.setCurrentAssignment]
    split
    · exact runsMoved_same rfl rfl
    · split
      · exact runsMoved_same rfl rfl
      · split <;> exact runsMoved_same rfl rfl
  | finishRunAssignments runId parentTaskActive =>
    simp only [ControlPlane.step, ControlPlane.finishRunAssignments]
    split
    · exact runsMoved_same rfl rfl
    · split <;> exact runsMoved_same rfl rfl
  | requestNodeShutdown nodeName =>
    simp only [ControlPlane.step, ControlPlane.requestNodeShutdown]
    split <;> exact runsMoved_same rfl rfl
  | reserveWorkerLaunch groups =>
    simp only [ControlPlane.step, ControlPlane.reserveWorkerLaunch]
    split
    · exact runsMoved_same rfl rfl
    · cases s.checkWorkerConnectionBudget (groups.map (·.2)).sum with
      | error e => exact runsMoved_same rfl rfl
      | ok _ =>
        simp only [ControlPlane.insertNodes, bind, Except.bind]
        split <;> exact runsMoved_same rfl rfl
  | enqueueResumedWorkers =>
    simp only [ControlPlane.step, ControlPlane.enqueueResumedWorkers]
    split
    · exact runsMoved_same rfl rfl
    · cases s.checkWorkerConnectionBudget (s.nodes.filter s.resumable).length with
      | error e => exact runsMoved_same rfl rfl
      | ok _ =>
        exact runsMoved_foldl (f := fun s (n : ControlNode) => s.enqueueResumed n.name)
          (fun _ _ => ⟨rfl, rfl⟩) _
  | _ => exact runsMoved_same rfl rfl

variable {a b : Int} {plan : ControllerAssignmentPlan} {p : Placement}

theorem Below.moved (h : Below s a b) (hm : RunsMoved s s') : Below s' a b where
  known := h.known.trans_le hm.next
  within := by
    rintro ⟨r, hr, rfl⟩
    exact hm.within _ _ ⟨r, hr, rfl⟩ (h.within ⟨r, hm.old r hr h.known, rfl⟩)

theorem Root.moved (h : Root s a) (hm : RunsMoved s s') : Root s' a where
  known := h.known.trans_le hm.next
  top := by
    rintro r hr rfl
    exact h.top r (hm.old r hr h.known) rfl

theorem SeenPlan.moved (h : SeenPlan s plan) (hm : RunsMoved s s') : SeenPlan s' plan :=
  ⟨h.coherent, fun id hid => (h.below id hid).moved hm⟩

theorem SeenPlacement.moved (h : SeenPlacement owner s p) (hm : RunsMoved s s') :
    SeenPlacement owner s' p := by
  refine ⟨h.plan.moved hm, h.names, fun n hn => ⟨(h.nodes n hn).owned, fun t ht => ?_⟩⟩
  obtain ⟨q, hq, hrole, hroot, hbelow⟩ := (h.nodes n hn).placed t ht
  exact ⟨q, hq, hrole, hroot.moved hm, hbelow.moved hm⟩

theorem SeenPlacement.cleared (h : SeenPlacement owner s p) :
    SeenPlacement owner s.clearExpiredAssignments p := h.moved (runsMoved_same rfl rfl)

/-! ## What an update meets -/

theorem exists_of_within (ha : ∃ r ∈ s.runs, r.id = a) (h : Within s.runs a b) :
    ∃ r ∈ s.runs, r.id = b := by
  rcases h.cases_tail with rfl | ⟨_, _, r, hr, hid, _⟩
  · exact ha
  · exact ⟨r, hr, hid⟩

/-- The root above a run is the one a view recorded. -/
theorem Root.unique (htree : RunTree s.runs) {root : Int} (ha : Root s a)
    (hroot : ∃ r ∈ s.runs, r.id = root ∧ r.parentRunId = none) (hab : Within s.runs a b)
    (hb : Within s.runs root b) : a = root := by
  rcases htree.within_total hab hb with h | h
  · exact htree.eq_of_within_root hroot h
  · rcases h.cases_tail with heq | ⟨y, -, r, hr, hid, hparent⟩
    · exact heq
    · rw [ha.top r hr hid] at hparent
      cases hparent

/-- An update that finds its node as it was planned finds it in the pool it was seen in, and keeps
it there. -/
theorem SeenPlacement.fits (h : ControlPlane.Coherent owner s) (hp : SeenPlacement owner s p)
    {u : NodeAssignmentUpdate} (hu : u ∈ p.updates) (hmatch : s.matchesExpected u = true)
    (hruns : ∀ t, u.desired = some t → s.hasRun t.runId = true) {n : ControlNode}
    (hn : n ∈ s.nodes) (huuid : n.uuid = u.nodeUuid) :
    ControlPlane.PlacedIn s.runs n.pool u.desired ∧ n.pool.isSome ∧
      ∃ m ∈ p.seen, m.uuid = u.nodeUuid ∧ m.pool = n.pool := by
  have hnames : ((p.seen.map registered).map (·.name)).Nodup := by
    rw [List.map_map]
    exact hp.names
  obtain ⟨node, hnode, before, after, hbefore, rfl, hrole, hin, hin'⟩ :=
    ControllerAssignmentPlan.update_in_pool hp.plan.coherent hnames hu
  obtain ⟨m, hm, rfl⟩ := List.mem_map.1 hnode
  obtain ⟨n', hn', hmatch⟩ := List.any_eq_true.1 hmatch
  simp only [Bool.and_eq_true, beq_iff_eq] at hmatch
  obtain ⟨⟨huuid', hlive⟩, hdesired⟩ := hmatch
  -- the node of the update is the only one with its uuid
  have hne : n'.uuid ≠ "" := by
    intro hempty
    have := (h.nodes n' hn').unregistered hempty
    simp only [ControlPlane.live, decide_eq_true_eq] at hlive
    omega
  obtain rfl : n = n' := by
    refine List.inj_on_of_nodup_map h.names hn hn' ?_
    rw [← (h.nodes n' hn').owned hne, ← (h.nodes n hn).owned (by rw [huuid, ← huuid']; exact hne),
      huuid, huuid']
  obtain ⟨q, hq, hqrole, hqbefore⟩ := (h.nodes n hn).placed before hdesired
  have hroot := (h.nodes n hn).root q hq
  have hpresent : ∃ r ∈ s.runs, r.id = before.runId := by
    obtain ⟨r, hr, hid, -⟩ := hroot
    exact exists_of_within ⟨r, hr, hid⟩ hqbefore
  obtain ⟨q', hq', hqrole', hroot', hbelow⟩ := (hp.nodes m hm).placed before hbefore
  have hsame : q'.runId = q.runId :=
    hroot'.unique h.table.tree hroot (hbelow.within hpresent) hqbefore
  have hpool : m.pool = n.pool := by
    rw [hq, hq']
    exact congrArg some (AssignmentTarget.mk.injEq _ _ _ _ ▸ ⟨hqrole'.trans hqrole.symm, hsame⟩)
  refine ⟨fun t ht => ?_, by rw [hq]; rfl, m, hm, rfl, hpool⟩
  cases ht
  refine ⟨q, hq, hqrole.trans hrole.symm, ?_⟩
  have hafter := (hp.plan.below _ hin').within (ControlPlane.hasRun_iff.1 (hruns after rfl))
  have hparent := (hp.plan.below _ hin).within hpresent
  rcases h.table.tree.within_total hqbefore hparent with hqp | hpq
  · exact hqp.trans hafter
  · rw [h.table.tree.eq_of_within_root hroot hpq] at hafter
    exact hafter

end Moved

/-! ## Runs -/

structure Inv (owner : String → String) (s : PlacementSystem) : Prop where
  coherent : ControlPlane.Coherent owner s.control
  plans : ∀ plan ∈ s.plans, SeenPlan s.control plan
  placements : ∀ p ∈ s.placements, SeenPlacement owner s.control p

variable {owner : String → String} {s : PlacementSystem}

theorem inv_init (owner : String → String) (maxConnections reservedConnections : Int) :
    Inv owner ⟨.init maxConnections reservedConnections, [], []⟩ where
  coherent := {
    table := ⟨⟨List.nodup_nil, by simp [ControlPlane.init]⟩, by simp [ControlPlane.init],
      by simp [ControlPlane.init]⟩
    clock := le_refl 0
    names := List.nodup_nil
    nodes := by simp [ControlPlane.init] }
  plans := by simp
  placements := by simp

/-- The tables change; what was seen of them holds on. -/
theorem Inv.moved (h : Inv owner s) {control : ControlPlane}
    (hcoherent : ControlPlane.Coherent owner control) (hm : RunsMoved s.control control) :
    Inv owner { s with control := control } :=
  ⟨hcoherent, fun plan hplan => (h.plans plan hplan).moved hm,
    fun p hp => (h.placements p hp).moved hm⟩

/-- The placements of a controller fit the pools they meet. -/
theorem Inv.applied (h : Inv owner s) {p : Placement} (hp : p ∈ s.placements) :
    ControlPlane.Coherent owner (s.control.step (.updateDesiredAssignments p.updates)) := by
  simp only [ControlPlane.step]
  cases hupdate : s.control.updateDesiredAssignments p.updates with
  | error e => exact h.coherent
  | ok r =>
    obtain ⟨applied, control⟩ := r
    rcases ControlPlane.updateDesiredAssignments_ok hupdate with rfl | ⟨-, hmatch, hruns, rfl⟩
    · exact h.coherent
    · have hcleared := h.coherent.clearExpiredAssignments
      have hseen := (h.placements p hp).cleared
      exact hcleared.setDesired p.updates fun u hu n hn huuid =>
        (hseen.fits hcleared hu (hmatch u hu) (hruns u hu) hn huuid).1

theorem Inv.step (h : Inv owner s) {e : PlacementEvent} (hok : Allowed owner s e) :
    Inv owner (s.step e) := by
  have htree := h.coherent.table.tree
  cases e with
  | statement e => exact h.moved (h.coherent.step hok.1 hok.2) (runsMoved_step htree e)
  | readBranches parentRunId selected =>
    obtain ⟨hknown, hparent, hselected⟩ := hok
    refine ⟨h.coherent, fun plan hplan => ?_, h.placements⟩
    rcases List.mem_append.1 hplan with hplan | hplan
    · exact h.plans plan hplan
    · rw [List.mem_singleton.1 hplan]
      refine ⟨ControllerAssignmentPlan.coherent_observed htree hparent fun r hr hid =>
        (hselected r.id hid).2 r hr rfl, fun id hid => ?_⟩
      rw [ControllerAssignmentPlan.observed_parentRunId] at hid ⊢
      rcases (ControllerAssignmentPlan.inPool_iff htree).1 hid with hwithin | hmem
      · refine ⟨?_, fun _ => hwithin⟩
        rcases hwithin.cases_tail with rfl | ⟨_, _, r, hr, rfl, _⟩
        · exact hknown
        · exact h.coherent.table.serial r hr
      · refine ⟨(hselected id hmem).1, ?_⟩
        rintro ⟨r, hr, rfl⟩
        exact .single ⟨r, hr, rfl, (hselected r.id hmem).2 r hr rfl⟩
  | readNodes plan =>
    simp only [PlacementSystem.step]
    split
    · rename_i plan hplan
      refine ⟨h.coherent, h.plans, fun p hp => ?_⟩
      rcases List.mem_append.1 hp with hp | hp
      · exact h.placements p hp
      · rw [List.mem_singleton.1 hp]
        refine ⟨h.plans plan (List.mem_of_getElem? hplan),
          h.coherent.names.sublist (List.filter_sublist.map _), fun n hn => ?_⟩
        obtain ⟨hn, hlive⟩ := List.mem_filter.1 hn
        have hnode := h.coherent.nodes n hn
        refine ⟨hnode.owned fun hempty => ?_, fun t ht => ?_⟩
        · have := hnode.unregistered hempty
          simp only [ControlPlane.live, decide_eq_true_eq] at hlive
          omega
        · obtain ⟨q, hq, hrole, hwithin⟩ := hnode.placed t ht
          obtain ⟨r, hr, hid, htop⟩ := hnode.root q hq
          obtain ⟨r', hr', hid'⟩ := exists_of_within ⟨r, hr, hid⟩ hwithin
          refine ⟨q, hq, hrole, ⟨hid ▸ h.coherent.table.serial r hr, fun r' hr' hid' => ?_⟩,
            ⟨hid' ▸ h.coherent.table.serial r' hr', fun _ => hwithin⟩⟩
          rw [htree.row_eq hr' hr (hid'.trans hid.symm), htop]
    · exact h
  | applyUpdates placement =>
    simp only [PlacementSystem.step]
    split
    · rename_i p hp
      exact h.moved (h.applied (List.mem_of_getElem? hp)) (runsMoved_step htree _)
    · exact h

/-- An update that is applied found its node live and as it was planned. -/
theorem exists_matched {s : ControlPlane} {u : NodeAssignmentUpdate}
    (h : s.clearExpiredAssignments.matchesExpected u = true) :
    ∃ n ∈ s.nodes, n ∈ s.clearExpiredAssignments.nodes ∧ n.uuid = u.nodeUuid := by
  obtain ⟨n, hn, hmatch⟩ := List.any_eq_true.1 h
  simp only [Bool.and_eq_true, beq_iff_eq] at hmatch
  obtain ⟨⟨huuid, hlive⟩, -⟩ := hmatch
  obtain ⟨m, hm, rfl⟩ := List.mem_map.1 hn
  by_cases hp : (!s.live m && (m.desired.isSome || m.active.isSome)) = true
  · -- only expired rows are cleared
    rw [if_pos hp] at hlive
    have hlease : s.live m = true := by
      unfold ControlPlane.live at hlive ⊢
      dsimp only at hlive
      split at hlive <;> exact hlive
    simp [hlease] at hp
  · rw [if_neg hp] at hn huuid
    exact ⟨m, hm, hn, huuid⟩

/-- Placements change no pool. -/
theorem mem_foldl_setDesired {s : ControlPlane} {updates : List NodeAssignmentUpdate}
    {n : ControlNode} (h : n ∈ (updates.foldl ControlPlane.setDesired s).nodes) :
    ∃ m ∈ s.nodes, m.name = n.name ∧ m.pool = n.pool := by
  induction updates generalizing s with
  | nil => exact ⟨n, h, rfl, rfl⟩
  | cons u updates ih =>
    obtain ⟨m, hm, hname, hpool⟩ := ih h
    obtain ⟨m', hm', rfl⟩ := List.mem_map.1 hm
    refine ⟨m', hm', ?_, ?_⟩
    · rw [← hname]
      split <;> rfl
    · rw [← hpool]
      split <;> rfl

/-- In every reachable state a node with a desired placement belongs to a pool, with the role of its
pool and a run in the tree of its pool's run. A placement planned from an earlier view applies only
to nodes that are still in the pools they were seen in, and leaves them there. -/
theorem pools_coherent (owner : String → String) {maxConnections reservedConnections : Int}
    {es : List PlacementEvent}
    (h : Along step (Allowed owner) ⟨.init maxConnections reservedConnections, [], []⟩ es) :
    let s := run step ⟨.init maxConnections reservedConnections, [], []⟩ es
    (∀ n ∈ s.control.nodes, ∀ t, n.desired = some t →
      ∃ p, n.pool = some p ∧ p.role = t.role ∧ Within s.control.runs p.runId t.runId) ∧
    ∀ p ∈ s.placements, ∀ applied control,
      s.control.updateDesiredAssignments p.updates = .ok (applied, control) →
      control = s.control ∨ ∀ u ∈ p.updates, ∃ m ∈ p.seen, ∃ n ∈ s.control.nodes,
        m.uuid = u.nodeUuid ∧ n.uuid = u.nodeUuid ∧ n.pool.isSome ∧ m.pool = n.pool ∧
          ∀ n' ∈ control.nodes, n'.name = n.name → n'.pool = n.pool := by
  intro s
  have hinv : Inv owner s := run_invariant (fun _ _ hs hok => hs.step hok) (inv_init owner _ _) h
  refine ⟨fun n hn => (hinv.coherent.nodes n hn).placed, fun p hp applied control hupdate => ?_⟩
  rcases ControlPlane.updateDesiredAssignments_ok hupdate with rfl | ⟨-, hmatch, hruns, rfl⟩
  · exact .inl rfl
  · refine .inr fun u hu => ?_
    have hcleared := hinv.coherent.clearExpiredAssignments
    have hseen := (hinv.placements p hp).cleared
    obtain ⟨n, hn, hncleared, huuid⟩ := exists_matched (hmatch u hu)
    obtain ⟨-, hsome, m, hm, hmuuid, hpool⟩ :=
      hseen.fits hcleared hu (hmatch u hu) (hruns u hu) hncleared huuid
    refine ⟨m, hm, n, hn, hmuuid, huuid, hsome, hpool, fun n' hn' hname => ?_⟩
    obtain ⟨m', hm', hname', hpool'⟩ := mem_foldl_setDesired hn'
    rw [← hpool', List.inj_on_of_nodup_map hcleared.names hm' hncleared (hname'.trans hname)]

/-- A controller moves an evaluator from its run to a child, and the operator takes it away. -/
theorem pools_coherent_child :
    let s := run step ⟨.init 100 3, [], []⟩
      [.statement (.insertRun none (some "parameter_scan")), .statement (.insertRun (some 1) none),
        .statement (.announceNode "a" "u"), .statement (.assignWorkerPool "a" .evaluator 1),
        .statement (.announceNode "b" "v"), .statement (.assignWorkerPool "b" .samplerAggregator 1),
        .readBranches 1 [2], .readNodes 0, .applyUpdates 0]
    ∀ n ∈ s.control.nodes, ∀ t, n.desired = some t →
      ∃ p, n.pool = some p ∧ p.role = t.role ∧ Within s.control.runs p.runId t.runId := by
  have hplain : ∀ e : ControlEvent, (∀ name uuid, e ≠ .announceNode name uuid) →
      ControlPlane.Registers (fun uuid => if uuid = "u" then "a" else "b") e :=
    fun e h name uuid he => absurd he (h name uuid)
  refine (pools_coherent (fun uuid => if uuid = "u" then "a" else "b") ?_).1
  refine ⟨⟨hplain _ (by simp), by simp⟩, ⟨hplain _ (by simp), by simp⟩, ⟨fun _ _ h => ?_, by simp⟩,
    ⟨hplain _ (by simp), by simp⟩, ⟨fun _ _ h => ?_, by simp⟩, ⟨hplain _ (by simp), by simp⟩,
    ⟨by decide +kernel, by decide, by decide +kernel⟩, trivial, trivial, trivial⟩
  · cases h
    decide
  · cases h
    decide

end PlacementSystem

end Gammaboard.Runners
