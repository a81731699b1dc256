import Gammaboard.Runners.SettledPlacements

/-!
# The updates of a controller

The updates a controller plans from its nodes and the tree of runs change
nothing outside the pool, keep every node and settle the pool.
-/

namespace Gammaboard.Runners.ControllerAssignmentPlan

open Gammaboard.Lib Gammaboard.Stores

variable {plan : ControllerAssignmentPlan} {nodes : List RegisteredNode}

/-! ## The branches of a plan -/

/-- The plan a controller makes for its selected children. -/
def observed (runs : List RunRecord) (parent : Int) (selected : List Int) : ControllerAssignmentPlan :=
  (new parent selected).observe (workerPoolBranches runs parent)

theorem observe_branches (rows : List PoolBranch) :
    (plan.observe rows).branches =
      OrdMap.insertAll plan.branches (rows.map fun row => (row.id, row.branch)) := by
  unfold observe OrdMap.insertAll
  induction rows generalizing plan with
  | nil => rfl
  | cons row rows ih => exact ih

theorem observe_parent (rows : List PoolBranch) :
    (plan.observe rows).parentRunId = plan.parentRunId ∧
      (plan.observe rows).selectedChildRunIds = plan.selectedChildRunIds := by
  unfold observe
  induction rows generalizing plan with
  | nil => exact ⟨rfl, rfl⟩
  | cons row rows ih => exact ih

theorem mem_observe_controllers {rows : List PoolBranch} {c : Int} :
    c ∈ (plan.observe rows).controllers ↔
      c ∈ plan.controllers ∨ ∃ row ∈ rows, row.branch = c ∧ row.controller = true := by
  unfold observe
  induction rows generalizing plan with
  | nil => simp
  | cons row rows ih =>
    have hstep : c ∈ (plan.addBranch row).controllers ↔
        c ∈ plan.controllers ∨ row.branch = c ∧ row.controller = true := by
      unfold addBranch
      by_cases hrow : row.controller = true
      · simp [hrow, or_comm, eq_comm]
      · simp [hrow]
    rw [List.foldl_cons, ih, hstep, or_assoc]
    simp

section Tree

variable {runs : List RunRecord} {parent : Int} {selected : List Int} {id b : Int}

@[simp] theorem observed_parentRunId : (observed runs parent selected).parentRunId = parent :=
  (observe_parent _).1

@[simp] theorem observed_selectedChildRunIds :
    (observed runs parent selected).selectedChildRunIds = selected :=
  (observe_parent _).2

theorem observed_branch :
    (observed runs parent selected).branch id =
      (OrdMap.get id (OrdMap.collect
          ((workerPoolBranches runs parent).map fun row => (row.id, row.branch)))).or
        (OrdMap.get id (OrdMap.collect (selected.map fun id => (id, id)))) := by
  unfold branch observed
  rw [observe_branches, OrdMap.get_insertAll]
  rfl

variable (htree : RunTree runs)
include htree

theorem get_poolBranches_iff :
    OrdMap.get id (OrdMap.collect
        ((workerPoolBranches runs parent).map fun row => (row.id, row.branch))) = some b ↔
      Child runs parent b ∧ Within runs b id := by
  constructor
  · intro h
    obtain ⟨row, hrow, heq⟩ := List.mem_map.1 (OrdMap.mem_of_mem_collect (OrdMap.mem_of_get h))
    cases heq
    obtain ⟨r, hr, hroot, hbranch, -, hwithin⟩ := htree.mem_workerPoolBranches.1 hrow
    rw [hbranch]
    exact ⟨⟨r, hr, rfl, hroot⟩, hwithin⟩
  · rintro ⟨hchild, hwithin⟩
    obtain ⟨r, hr, rfl, hroot⟩ := hchild
    have hkey : id ∈ OrdMap.keys (OrdMap.collect
        ((workerPoolBranches runs parent).map fun row => (row.id, row.branch))) := by
      rw [OrdMap.mem_keys_collect]
      have hrow : (⟨id, r.id, r.controller⟩ : PoolBranch) ∈ workerPoolBranches runs parent :=
        htree.mem_workerPoolBranches.2 ⟨r, hr, hroot, rfl, rfl, hwithin⟩
      exact OrdMap.mem_keys.2 ⟨r.id, List.mem_map.2 ⟨_, hrow, rfl⟩⟩
    obtain ⟨b, hb⟩ := Option.isSome_iff_exists.1 (OrdMap.isSome_get.2 hkey)
    obtain ⟨row, hrow, heq⟩ := List.mem_map.1 (OrdMap.mem_of_mem_collect (OrdMap.mem_of_get hb))
    cases heq
    obtain ⟨s, hs, hroot', hbranch, -, hwithin'⟩ := htree.mem_workerPoolBranches.1 hrow
    rw [hb, hbranch, htree.branch_unique ⟨s, hs, rfl, hroot'⟩ ⟨r, hr, rfl, hroot⟩ hwithin' hwithin]

omit htree in
theorem get_selected : OrdMap.get id (OrdMap.collect (selected.map fun id => (id, id))) =
    if id ∈ selected then some id else none := by
  split
  · rename_i hmem
    have hkey : id ∈ OrdMap.keys (OrdMap.collect (selected.map fun id => (id, id))) := by
      rw [OrdMap.mem_keys_collect]
      exact OrdMap.mem_keys.2 ⟨id, List.mem_map.2 ⟨id, hmem, rfl⟩⟩
    obtain ⟨b, hb⟩ := Option.isSome_iff_exists.1 (OrdMap.isSome_get.2 hkey)
    obtain ⟨i, -, heq⟩ := List.mem_map.1 (OrdMap.mem_of_mem_collect (OrdMap.mem_of_get hb))
    cases heq
    exact hb
  · rename_i hmem
    refine OrdMap.get_eq_none.2 fun hkey => hmem ?_
    rw [OrdMap.mem_keys_collect] at hkey
    obtain ⟨b, hb⟩ := OrdMap.mem_keys.1 hkey
    obtain ⟨i, hi, heq⟩ := List.mem_map.1 hb
    cases heq
    exact hi

/-- The branch of a run is the child of the parent it lies within; a selected run that is not
below the parent any more is a branch of its own. -/
theorem observed_branch_iff :
    (observed runs parent selected).branch id = some b ↔
      (Child runs parent b ∧ Within runs b id) ∨
        (∀ b', ¬(Child runs parent b' ∧ Within runs b' id)) ∧ id ∈ selected ∧ id = b := by
  rw [observed_branch, get_selected]
  cases hget : OrdMap.get id (OrdMap.collect
      ((workerPoolBranches runs parent).map fun row => (row.id, row.branch))) with
  | none =>
    have hnone : ∀ b', ¬(Child runs parent b' ∧ Within runs b' id) := fun b' h => by
      rw [← get_poolBranches_iff htree, hget] at h
      cases h
    rw [Option.none_or, or_iff_right (hnone b), and_iff_right hnone]
    split
    · rename_i hmem
      rw [Option.some.injEq, and_iff_right hmem]
    · rename_i hmem
      simp [hmem]
  | some b' =>
    have hb' := (get_poolBranches_iff htree).1 hget
    rw [Option.some_or, Option.some.injEq]
    constructor
    · rintro rfl
      exact .inl hb'
    · rintro (⟨hchild, hwithin⟩ | ⟨hnone, -⟩)
      · exact htree.branch_unique hb'.1 hchild hb'.2 hwithin
      · exact absurd hb' (hnone b')

theorem mem_observed_controllers {c : Int} :
    c ∈ (observed runs parent selected).controllers ↔
      ∃ r ∈ runs, r.id = c ∧ r.parentRunId = some parent ∧ r.controller = true := by
  unfold observed
  rw [mem_observe_controllers]
  refine (or_iff_right (Finset.notMem_empty c)).trans ?_
  constructor
  · rintro ⟨row, hrow, rfl, hctl⟩
    obtain ⟨r, hr, hroot, hbranch, hcontroller, -⟩ := htree.mem_workerPoolBranches.1 hrow
    exact ⟨r, hr, hbranch.symm, hroot, hcontroller ▸ hctl⟩
  · rintro ⟨r, hr, rfl, hroot, hctl⟩
    exact ⟨⟨r.id, r.id, r.controller⟩,
      htree.mem_workerPoolBranches.2 ⟨r, hr, hroot, rfl, rfl, .refl⟩, rfl, hctl⟩

theorem coherent_observed (hparent : parent ∉ selected)
    (hselected : ∀ r ∈ runs, r.id ∈ selected → r.parentRunId = some parent) :
    (observed runs parent selected).Coherent where
  parent := by
    rw [observed_parentRunId, Option.eq_none_iff_forall_ne_some]
    intro b hb
    rcases (observed_branch_iff htree).1 hb with ⟨hchild, hwithin⟩ | ⟨-, hmem, -⟩
    · have := htree.child_lt hchild
      have := htree.within_le hwithin
      omega
    · exact hparent hmem
  branch := by
    intro id b hb
    rcases (observed_branch_iff htree).1 hb with ⟨hchild, -⟩ | ⟨-, -, rfl⟩
    · exact (observed_branch_iff htree).2 (.inl ⟨hchild, .refl⟩)
    · exact hb
  selected := by
    intro id hid
    obtain ⟨hid, hsome⟩ := mem_selected.1 hid
    rw [observed_selectedChildRunIds] at hid
    obtain ⟨b, hb⟩ := Option.isSome_iff_exists.1 hsome
    rcases (observed_branch_iff htree).1 hb with ⟨hchild, hwithin⟩ | ⟨-, -, rfl⟩
    · have hrow : ∃ r ∈ runs, r.id = id := by
        cases hwithin with
        | refl => exact hchild.imp fun r h => ⟨h.1, h.2.1⟩
        | tail _ h => exact h.imp fun r h => ⟨h.1, h.2.1⟩
      obtain ⟨r, hr, rfl⟩ := hrow
      exact (observed_branch_iff htree).2 (.inl ⟨⟨r, hr, rfl, hselected r hr hid⟩, .refl⟩)
    · exact hb

theorem mem_observed_selected {c : Int} (hc : c ∈ selected) :
    c ∈ (observed runs parent selected).selected := by
  rw [mem_selected, observed_selectedChildRunIds, and_iff_right hc, Option.isSome_iff_exists]
  by_cases h : ∃ b, Child runs parent b ∧ Within runs b c
  · obtain ⟨b, hb⟩ := h
    exact ⟨b, (observed_branch_iff htree).2 (.inl hb)⟩
  · exact ⟨c, (observed_branch_iff htree).2 (.inr ⟨fun b hb => h ⟨b, hb⟩, hc, rfl⟩)⟩

/-- The pool of a controller is its run and what is below, and the selected children. -/
theorem inPool_iff :
    (id = parent ∨ ((observed runs parent selected).branch id).isSome = true) ↔
      Within runs parent id ∨ id ∈ selected := by
  constructor
  · rintro (rfl | h)
    · exact .inl .refl
    · obtain ⟨b, hb⟩ := Option.isSome_iff_exists.1 h
      rcases (observed_branch_iff htree).1 hb with ⟨hchild, hwithin⟩ | ⟨-, hmem, -⟩
      · exact .inl (hwithin.head hchild)
      · exact .inr hmem
  · rintro (h | h)
    · rcases h.cases_head with rfl | ⟨b, hchild, hwithin⟩
      · exact .inl rfl
      · exact .inr (Option.isSome_iff_exists.2
          ⟨b, (observed_branch_iff htree).2 (.inl ⟨hchild, hwithin⟩)⟩)
    · exact .inr (mem_selected.1 (mem_observed_selected htree h)).2

end Tree

/-! ## Planned nodes -/

/-- The pool as the plan sees it. -/
abbrev pool (plan : ControllerAssignmentPlan) (nodes : List RegisteredNode) : Placements :=
  plan.reusableAssignments nodes

/-- A node as the plan wants it. -/
def planNode (plan : ControllerAssignmentPlan) (nodes : List RegisteredNode) (node : RegisteredNode) :
    RegisteredNode :=
  { node with desiredAssignment := plan.next node ((plan.desired nodes).get node.name) }

theorem ascending_levelled : (plan.levelled nodes).Ascending := OrdMap.ascending_collect

theorem ascending_pool : (plan.pool nodes).Ascending := ascending_levelled.filter _

theorem get_returnToParent {reusable desired : Placements} {name : String} :
    (plan.returnToParent reusable desired).get name =
      (desired.get name).or ((reusable.get name).map fun a => { a with runId := plan.parentRunId }) := by
  unfold returnToParent
  induction reusable generalizing desired with
  | nil => simp
  | cons e rest ih =>
    rw [List.foldl_cons, ih, OrdMap.get_cons]
    by_cases hname : e.1 = name
    · subst hname
      by_cases hsome : (desired.get e.1).isSome = true
      · rw [if_pos hsome, if_pos rfl]
        obtain ⟨a, ha⟩ := Option.isSome_iff_exists.1 hsome
        rw [ha, Option.some_or, Option.some_or]
      · rw [if_neg hsome, if_pos rfl, OrdMap.get_insert, if_pos rfl]
        rw [Bool.not_eq_true, Option.isSome_eq_false_iff, Option.isNone_iff_eq_none] at hsome
        rw [hsome]
        rfl
    · rw [if_neg hname]
      split
      · rfl
      · rw [OrdMap.get_insert, if_neg hname]

/-- The level of a placement after planning: settled in the pool, unchanged elsewhere. -/
def settleTarget (plan : ControllerAssignmentPlan) (reusable : Placements) (name : String)
    (a : AssignmentTarget) : AssignmentTarget :=
  if plan.isReusable a then { a with runId := plan.settledRun reusable name } else a

/-- Every name the plan reads gets one placement, and no other. -/
theorem get_desired (name : String) :
    (plan.desired nodes).get name =
      ((plan.levelled nodes).get name).map (settleTarget plan (plan.pool nodes) name) := by
  have hpool : (plan.pool nodes).get name =
      ((plan.levelled nodes).get name).filter plan.isReusable := OrdMap.get_filter ascending_levelled _
  have hothers : OrdMap.get name ((plan.levelled nodes).filter fun e => !plan.isReusable e.2) =
      ((plan.levelled nodes).get name).filter fun a => !plan.isReusable a :=
    OrdMap.get_filter ascending_levelled _
  have hplaced : OrdMap.get name (OrdMap.collect (plan.placements (plan.pool nodes))) =
      (plan.placements (plan.pool nodes)).get name :=
    OrdMap.get_collect (keys_placements_nodup ascending_pool)
  unfold desired
  dsimp only
  rw [get_returnToParent, OrdMap.get_insertAll, hplaced, hothers, hpool]
  cases hget : (plan.placements (plan.pool nodes)).get name with
  | none =>
    cases hlevel : (plan.levelled nodes).get name with
    | none => rfl
    | some a => cases hreusable : plan.isReusable a <;> simp [hreusable, settleTarget, settledRun, hget]
  | some t =>
    obtain ⟨-, a, ha, hrole⟩ := placement_of_mem ascending_pool (OrdMap.mem_of_get hget)
    have hget' : (plan.pool nodes).get name = some a := OrdMap.get_eq_some_of_mem ascending_pool ha
    rw [hpool, Option.filter_eq_some_iff] at hget'
    obtain ⟨hlevel, hreusable⟩ := hget'
    obtain ⟨role, runId⟩ := t
    cases hrole
    simp [hlevel, hreusable, settleTarget, settledRun, hget]

/-- The placements the plan reads. -/
def entries (plan : ControllerAssignmentPlan) (nodes : List RegisteredNode) : Placements :=
  nodes.filterMap fun node => node.desiredAssignment.map fun t => (node.name, plan.atLevel t)

section Nodes

variable (hnames : (nodes.map (·.name)).Nodup)
include hnames

theorem keys_entries_nodup : (plan.entries nodes).keys.Nodup := by
  refine hnames.sublist ?_
  unfold entries
  clear hnames
  induction nodes with
  | nil => exact List.Sublist.refl _
  | cons node nodes ih =>
    rw [List.filterMap_cons]
    cases node.desiredAssignment with
    | none => exact ih.cons _
    | some t => exact ih.cons_cons _

theorem get_levelled {node : RegisteredNode} (hnode : node ∈ nodes) :
    (plan.levelled nodes).get node.name = node.desiredAssignment.map plan.atLevel := by
  have hget : (plan.levelled nodes).get node.name = (plan.entries nodes).get node.name :=
    OrdMap.get_collect (keys_entries_nodup hnames)
  rw [hget]
  cases ht : node.desiredAssignment with
  | some t =>
    refine OrdMap.get_of_mem (keys_entries_nodup hnames) (List.mem_filterMap.2 ⟨node, hnode, ?_⟩)
    rw [ht]
    rfl
  | none =>
    refine OrdMap.get_eq_none.2 fun hkey => ?_
    obtain ⟨a, ha⟩ := OrdMap.mem_keys.1 hkey
    obtain ⟨node', hnode', heq⟩ := List.mem_filterMap.1 ha
    obtain ⟨t, ht', heq⟩ := Option.map_eq_some_iff.1 heq
    have : node' = node := List.inj_on_of_nodup_map hnames hnode' hnode (congrArg Prod.fst heq)
    rw [this, ht] at ht'
    cases ht'

end Nodes

theorem isReusable_iff {a : AssignmentTarget} :
    plan.isReusable a = true ↔ a.runId = plan.parentRunId ∨ (plan.branch a.runId).isSome := by
  rw [isReusable, Bool.or_eq_true, beq_iff_eq]

section Planned

variable (hplan : plan.Coherent)
include hplan

theorem isReusable_settleTarget (a : AssignmentTarget) (name : String) :
    plan.isReusable (settleTarget plan (plan.pool nodes) name a) = plan.isReusable a := by
  unfold settleTarget
  split
  · rename_i h
    rw [h, isReusable_iff]
    refine (settledRun_mem ascending_pool name).imp_right fun h => ?_
    rw [hplan.selected _ h]
    rfl
  · rfl

/-- A placement outside the pool is at its own level. -/
theorem atLevel_of_not {t : AssignmentTarget} (h : plan.isReusable (plan.atLevel t) = false) :
    plan.branch t.runId = none ∧ plan.atLevel t = t := by
  cases hbranch : plan.branch t.runId with
  | none =>
    refine ⟨rfl, ?_⟩
    unfold atLevel
    rw [hbranch]
    rfl
  | some b =>
    have : plan.isReusable (plan.atLevel t) = true := by
      rw [isReusable_iff]
      right
      unfold atLevel
      rw [hbranch]
      exact Option.isSome_iff_exists.2 ⟨b, hplan.branch _ b hbranch⟩
    rw [this] at h
    cases h

/-- What a plan makes of the placement of a node. -/
structure Planned (plan : ControllerAssignmentPlan) (reusable : Placements) (name : String)
    (before after : AssignmentTarget) : Prop where
  role : after.role = before.role
  level : plan.atLevel after = settleTarget plan reusable name (plan.atLevel before)
  outside : plan.isReusable (plan.atLevel before) = false → after = before
  kept : plan.settledRun reusable name = (plan.atLevel before).runId → after = before

/-- The placement a node below `before` gets. -/
def nextTarget (plan : ControllerAssignmentPlan) (before after : AssignmentTarget) : AssignmentTarget :=
  if plan.branch before.runId = some after.runId then { after with runId := before.runId } else after

theorem planned_nextTarget (t : AssignmentTarget) (name : String) :
    Planned plan (plan.pool nodes) name t
      (nextTarget plan t (settleTarget plan (plan.pool nodes) name (plan.atLevel t))) := by
  unfold nextTarget
  cases hreusable : plan.isReusable (plan.atLevel t) with
  | false =>
    obtain ⟨hbranch, hlevel⟩ := atLevel_of_not hplan hreusable
    have hsettle : settleTarget plan (plan.pool nodes) name (plan.atLevel t) = t := by
      unfold settleTarget
      rw [hreusable, hlevel]
      rfl
    rw [hsettle, hbranch, if_neg (by simp)]
    exact ⟨rfl, by rw [hsettle, hlevel], fun _ => rfl, fun _ => rfl⟩
  | true =>
    have hsettle : settleTarget plan (plan.pool nodes) name (plan.atLevel t) =
        { t with runId := plan.settledRun (plan.pool nodes) name } := by
      unfold settleTarget
      rw [if_pos hreusable]
      rfl
    rw [hsettle]
    dsimp only
    split
    · rename_i hbranch
      refine ⟨rfl, ?_, fun _ => rfl, fun _ => rfl⟩
      rw [hsettle]
      unfold atLevel
      rw [hbranch]
      rfl
    · rename_i hbranch
      refine ⟨rfl, ?_, fun h => ?_, fun hrun => ?_⟩
      · rw [hsettle]
        unfold atLevel
        dsimp only
        rcases settledRun_mem ascending_pool name with hp | hs
        · rw [hp, hplan.parent]
          rfl
        · rw [hplan.selected _ hs]
          rfl
      · rw [hreusable] at h
        cases h
      · rw [hrun] at hbranch ⊢
        unfold atLevel at hbranch ⊢
        cases hb : plan.branch t.runId with
        | none => rfl
        | some b =>
          rw [hb] at hbranch
          exact absurd rfl hbranch

omit hplan in
theorem planNode_desired (hnames : (nodes.map (·.name)).Nodup) {node : RegisteredNode}
    (hnode : node ∈ nodes) :
    (plan.planNode nodes node).desiredAssignment = node.desiredAssignment.map fun t =>
      nextTarget plan t (settleTarget plan (plan.pool nodes) node.name (plan.atLevel t)) := by
  unfold planNode next
  rw [get_desired, get_levelled hnames hnode]
  cases node.desiredAssignment with
  | none => rfl
  | some t =>
    dsimp only [Option.map_some]
    unfold nextTarget
    split <;> rfl

/-- The nodes after planning hold the settled pool. -/
theorem pool_planNode (hnames : (nodes.map (·.name)).Nodup) :
    plan.pool (nodes.map (plan.planNode nodes)) = plan.settle (plan.pool nodes) := by
  have hentries : plan.entries (nodes.map (plan.planNode nodes)) =
      (plan.entries nodes).map fun e => (e.1, settleTarget plan (plan.pool nodes) e.1 e.2) := by
    unfold entries
    rw [List.filterMap_map, List.map_filterMap]
    refine List.filterMap_congr fun node hnode => ?_
    rw [Function.comp_apply, planNode_desired hnames hnode, Option.map_map, Option.map_map]
    refine congrArg (node.desiredAssignment.map ·) (funext fun t => ?_)
    exact congrArg (node.name, ·) (planned_nextTarget hplan t node.name).level
  have hlevelled : plan.levelled (nodes.map (plan.planNode nodes)) =
      (plan.levelled nodes).map fun e => (e.1, settleTarget plan (plan.pool nodes) e.1 e.2) :=
    (congrArg OrdMap.collect hentries).trans (OrdMap.map_collect _).symm
  show (plan.levelled (nodes.map (plan.planNode nodes))).filter (fun e => plan.isReusable e.2) = _
  rw [hlevelled, List.filter_map]
  have hfilter : (plan.levelled nodes).filter ((fun e => plan.isReusable e.2) ∘ fun e =>
      (e.1, settleTarget plan (plan.pool nodes) e.1 e.2)) = plan.pool nodes :=
    List.filter_congr fun e _ => isReusable_settleTarget hplan e.2 e.1
  rw [hfilter]
  refine List.map_congr_left fun e he => ?_
  have hreusable : plan.isReusable e.2 = true := (List.mem_filter.1 he).2
  unfold settleTarget
  rw [if_pos hreusable]

end Planned

/-! ## Nodes and placements -/

/-- The nodes of a role in a branch. -/
def workersAt (plan : ControllerAssignmentPlan) (role : WorkerRole) (c : Int)
    (nodes : List RegisteredNode) : Nat :=
  nodes.countP fun node =>
    node.desiredAssignment.any fun t => t.role = role ∧ plan.branch t.runId = some c

section Counts

variable {role : WorkerRole} {c : Int} (hc : plan.branch c = some c)
include hc

theorem atLevel_eq_iff {t : AssignmentTarget} :
    (plan.atLevel t).runId = c ↔ plan.branch t.runId = some c := by
  unfold atLevel
  cases hb : plan.branch t.runId with
  | none =>
    refine iff_of_false (fun (h : t.runId = c) => ?_) (by simp)
    rw [h, hc] at hb
    cases hb
  | some b => simp

omit hc in
theorem mem_pool_iff {node : RegisteredNode} {t : AssignmentTarget}
    (hnames : (nodes.map (·.name)).Nodup) (hnode : node ∈ nodes)
    (ht : node.desiredAssignment = some t) :
    (node.name, plan.atLevel t) ∈ plan.pool nodes ↔ plan.isReusable (plan.atLevel t) = true := by
  have hget : (plan.levelled nodes).get node.name = _ := get_levelled hnames hnode
  rw [ht] at hget
  unfold pool reusableAssignments
  rw [List.mem_filter, and_iff_right (OrdMap.mem_of_get hget)]

theorem workersAt_eq (hnames : (nodes.map (·.name)).Nodup) :
    plan.workersAt role c nodes =
      (plan.pool nodes).countP fun e => e.2.role = role ∧ e.2.runId = c := by
  have hperm : (plan.levelled nodes).Perm (plan.entries nodes) :=
    OrdMap.collect_perm (keys_entries_nodup hnames)
  unfold pool reusableAssignments
  rw [List.countP_filter, hperm.countP_eq, entries, List.countP_filterMap, workersAt]
  refine List.countP_congr fun node _ => ?_
  cases node.desiredAssignment with
  | none => simp
  | some t =>
    have hrun : (plan.atLevel t).runId = c ↔ _ := atLevel_eq_iff hc
    have hreusable : (plan.atLevel t).runId = c → plan.isReusable (plan.atLevel t) = true := by
      intro h
      rw [isReusable_iff, h, hc]
      exact .inr rfl
    simp only [Option.any_some, Option.map_some, Option.getD_some, decide_eq_true_eq,
      Bool.and_eq_true]
    constructor
    · rintro ⟨hrole, hb⟩
      exact ⟨⟨hrole, hrun.2 hb⟩, hreusable (hrun.2 hb)⟩
    · rintro ⟨⟨hrole, hb⟩, -⟩
      exact ⟨hrole, hrun.1 hb⟩

end Counts

theorem planNode_eq_self {node : RegisteredNode}
    (h : (plan.planNode nodes node).desiredAssignment = node.desiredAssignment) :
    plan.planNode nodes node = node := by
  obtain ⟨name, uuid, desired⟩ := node
  unfold planNode at h ⊢
  dsimp only at h ⊢
  rw [h]

theorem names_planNode : (nodes.map (plan.planNode nodes)).map (·.name) = nodes.map (·.name) := by
  rw [List.map_map]
  rfl

/-! ## The updates -/

theorem updates_eq (hnames : (nodes.map (·.name)).Nodup) (desired : Placements) :
    plan.updates nodes desired = nodes.filterMap fun node =>
      if node.desiredAssignment ≠ plan.next node (desired.get node.name) then
        some ⟨node.uuid, node.desiredAssignment, plan.next node (desired.get node.name)⟩
      else none := by
  induction nodes generalizing desired with
  | nil => rfl
  | cons node nodes ih =>
    obtain ⟨hnot, hrest⟩ := List.nodup_cons.1 hnames
    have herase : plan.updates nodes (desired.erase node.name) = nodes.filterMap fun node =>
        if node.desiredAssignment ≠ plan.next node (desired.get node.name) then
          some ⟨node.uuid, node.desiredAssignment, plan.next node (desired.get node.name)⟩
        else none := by
      rw [ih hrest]
      refine List.filterMap_congr fun node' hnode' => ?_
      have hne : node.name ≠ node'.name := fun h =>
        hnot (List.mem_map.2 ⟨node', hnode', h.symm⟩)
      rw [OrdMap.get_erase, if_neg hne]
    rw [List.filterMap_cons, updates, herase]
    split <;> rfl

theorem controllerAssignmentUpdates_eq (hnames : (nodes.map (·.name)).Nodup) :
    controllerAssignmentUpdates nodes plan = nodes.filterMap fun node =>
      if node.desiredAssignment ≠ (plan.planNode nodes node).desiredAssignment then
        some ⟨node.uuid, node.desiredAssignment, (plan.planNode nodes node).desiredAssignment⟩
      else none :=
  updates_eq hnames _

theorem mem_updates (hnames : (nodes.map (·.name)).Nodup) {u : NodeAssignmentUpdate} :
    u ∈ controllerAssignmentUpdates nodes plan ↔ ∃ node ∈ nodes,
      node.desiredAssignment ≠ (plan.planNode nodes node).desiredAssignment ∧
        u = ⟨node.uuid, node.desiredAssignment, (plan.planNode nodes node).desiredAssignment⟩ := by
  rw [controllerAssignmentUpdates_eq hnames, List.mem_filterMap]
  refine exists_congr fun node => and_congr_right fun _ => ?_
  split
  · rename_i h
    rw [and_iff_right h, Option.some.injEq, eq_comm]
  · rename_i h
    simp [h]

theorem uuids_updates (hnames : (nodes.map (·.name)).Nodup) :
    ((controllerAssignmentUpdates nodes plan).map (·.nodeUuid)).Sublist (nodes.map (·.uuid)) := by
  rw [controllerAssignmentUpdates_eq hnames]
  generalize plan.planNode nodes = f
  clear hnames
  induction nodes with
  | nil => exact List.Sublist.refl _
  | cons node nodes ih =>
    rw [List.filterMap_cons]
    split
    · exact ih.cons _
    · rename_i u hu
      split at hu
      · cases hu
        exact ih.cons_cons _
      · cases hu

/-- Applied, the updates give every node the placement planned for it. -/
theorem applyUpdates_eq (hnames : (nodes.map (·.name)).Nodup) (huuids : (nodes.map (·.uuid)).Nodup) :
    applyUpdates nodes (controllerAssignmentUpdates nodes plan) =
      nodes.map (plan.planNode nodes) := by
  unfold applyUpdates
  refine List.map_congr_left fun node hnode => ?_
  split
  · rename_i u hu
    have hfound := List.find?_some hu
    rw [decide_eq_true_eq] at hfound
    obtain ⟨node', hnode', -, rfl⟩ := (mem_updates hnames).1 (List.mem_of_find?_eq_some hu)
    rw [List.inj_on_of_nodup_map huuids hnode' hnode hfound.1]
    rfl
  · rename_i hnone
    rw [List.find?_eq_none] at hnone
    by_contra hne
    have hchanged : node.desiredAssignment ≠ (plan.planNode nodes node).desiredAssignment :=
      fun h => hne (planNode_eq_self h.symm).symm
    exact hnone _ ((mem_updates hnames).2 ⟨node, hnode, hchanged, rfl⟩) (by simp)

/-! ## What the updates keep -/

section Kept

variable (hplan : plan.Coherent) (hnames : (nodes.map (·.name)).Nodup)
include hplan hnames

theorem planned_of_mem {node : RegisteredNode} (hnode : node ∈ nodes) {t : AssignmentTarget}
    (ht : node.desiredAssignment = some t) :
    ∃ after, (plan.planNode nodes node).desiredAssignment = some after ∧
      Planned plan (plan.pool nodes) node.name t after := by
  refine ⟨_, ?_, planned_nextTarget hplan t node.name⟩
  rw [planNode_desired hnames hnode, ht]
  rfl

omit hplan hnames in
theorem inPool_of_reusable {t : AssignmentTarget} (h : plan.isReusable (plan.atLevel t) = true) :
    t.runId = plan.parentRunId ∨ (plan.branch t.runId).isSome := by
  cases hb : plan.branch t.runId with
  | some b => exact .inr rfl
  | none =>
    rw [isReusable_iff] at h
    unfold atLevel at h
    rw [hb] at h
    dsimp only [Option.getD_none] at h
    rw [hb] at h
    exact h

/-- An update moves a node of the pool within the pool and keeps its role. -/
theorem update_in_pool {u : NodeAssignmentUpdate} (hu : u ∈ controllerAssignmentUpdates nodes plan) :
    ∃ node ∈ nodes, ∃ before after, node.desiredAssignment = some before ∧
      u = ⟨node.uuid, some before, some after⟩ ∧ after.role = before.role ∧
      (before.runId = plan.parentRunId ∨ (plan.branch before.runId).isSome) ∧
      (after.runId = plan.parentRunId ∨ (plan.branch after.runId).isSome) := by
  obtain ⟨node, hnode, hne, rfl⟩ := (mem_updates hnames).1 hu
  cases ht : node.desiredAssignment with
  | none =>
    rw [planNode_desired hnames hnode, ht] at hne
    exact absurd rfl hne
  | some before =>
    obtain ⟨after, hafter, hplanned⟩ := planned_of_mem hplan hnames hnode ht
    have hreusable : plan.isReusable (plan.atLevel before) = true := by
      by_contra hnot
      rw [Bool.not_eq_true] at hnot
      rw [ht, hafter, hplanned.outside hnot] at hne
      exact hne rfl
    refine ⟨node, hnode, before, after, ht, by rw [hafter], hplanned.role,
      inPool_of_reusable hreusable, inPool_of_reusable ?_⟩
    rw [hplanned.level, isReusable_settleTarget hplan]
    exact hreusable

/-- A placed entry is that of a node which stays where it is. -/
theorem exists_kept {e : String × AssignmentTarget} (he : e ∈ plan.pool nodes)
    (hrun : plan.settledRun (plan.pool nodes) e.1 = e.2.runId) :
    ∃ node ∈ nodes, ∃ t, node.name = e.1 ∧ node.desiredAssignment = some t ∧ plan.atLevel t = e.2 ∧
      plan.planNode nodes node = node := by
  have hentry : e ∈ plan.entries nodes := OrdMap.mem_of_mem_collect (List.mem_filter.1 he).1
  obtain ⟨node, hnode, heq⟩ := List.mem_filterMap.1 hentry
  obtain ⟨t, ht, rfl⟩ := Option.map_eq_some_iff.1 heq
  obtain ⟨after, hafter, hplanned⟩ := planned_of_mem hplan hnames hnode ht
  refine ⟨node, hnode, t, rfl, ht, rfl, planNode_eq_self ?_⟩
  rw [hafter, hplanned.kept hrun, ht]

/-- A selected child with a sampler keeps one, and a controller keeps them all. -/
theorem sampler_kept {c : Int} (hc : c ∈ plan.selected) {node : RegisteredNode} (hnode : node ∈ nodes)
    {t : AssignmentTarget} (ht : node.desiredAssignment = some t) (hrole : t.role = .samplerAggregator)
    (hbranch : plan.branch t.runId = some c) :
    (c ∈ plan.controllers → plan.planNode nodes node = node) ∧
      ∃ node' ∈ nodes, ∃ t', node'.desiredAssignment = some t' ∧ t'.role = .samplerAggregator ∧
        plan.branch t'.runId = some c ∧ plan.planNode nodes node' = node' := by
  have hcc := hplan.selected c hc
  have hsel : plan.selected ≠ [] := List.ne_nil_of_mem hc
  have hlevel : (plan.atLevel t).runId = c := (atLevel_eq_iff hcc).2 hbranch
  have hentry : (node.name, plan.atLevel t) ∈ plan.pool nodes := by
    rw [mem_pool_iff hnames hnode ht, isReusable_iff, hlevel, hcc]
    exact .inr rfl
  have hat : SamplerAt c (node.name, plan.atLevel t) := ⟨hrole, hlevel⟩
  have hplaced : ∀ e ∈ (plan.retainSamplers plan.selected (plan.pool nodes) ∅).1,
      plan.settledRun (plan.pool nodes) e.1 = e.2.runId := fun e he => by
    refine settledRun_of_mem ascending_pool ?_
    rw [placements_eq hsel]
    exact List.mem_append_left _ (List.mem_append_left _ he)
  constructor
  · intro hctl
    have hretained := @mem_retained_of_controller plan _ _ ∅ _ hentry
      ⟨hat.1, hat.2.symm ▸ hc⟩ (hat.2.symm ▸ hctl)
    obtain ⟨node', hnode', -, hname, -, -, hkept⟩ := exists_kept hplan hnames hentry (hplaced _ hretained)
    rw [← List.inj_on_of_nodup_map hnames hnode' hnode hname, hkept]
  · have hact : c ∈ (plan.retainSamplers plan.selected (plan.pool nodes) ∅).2 :=
      mem_activated.2 (.inr ⟨hc, _, hentry, hat⟩)
    obtain ⟨e, he, hrun⟩ := exists_retained hact (Finset.notMem_empty c)
    obtain ⟨node', hnode', t', -, ht', hlevel', hkept⟩ :=
      exists_kept hplan hnames (retained_sublist.subset he) (hplaced e he)
    refine ⟨node', hnode', t', ht', ?_, ?_, hkept⟩
    · exact (congrArg (·.role) hlevel').trans (samplerOf_of_retained he).1
    · exact (atLevel_eq_iff hcc).1 (hlevel' ▸ hrun)

/-- Planned again, the nodes stay as they are. -/
theorem replan : controllerAssignmentUpdates (nodes.map (plan.planNode nodes)) plan = [] := by
  have hnames' : ((nodes.map (plan.planNode nodes)).map (·.name)).Nodup := by rwa [names_planNode]
  refine List.eq_nil_iff_forall_not_mem.2 fun u hu => ?_
  obtain ⟨node, hnode, hne, -⟩ := (mem_updates hnames').1 hu
  cases ht : node.desiredAssignment with
  | none =>
    rw [planNode_desired hnames' hnode, ht] at hne
    exact hne rfl
  | some t =>
    obtain ⟨after, hafter, hplanned⟩ := planned_of_mem hplan hnames' hnode ht
    refine hne ?_
    rw [ht, hafter]
    cases hreusable : plan.isReusable (plan.atLevel t) with
    | false => rw [hplanned.outside hreusable]
    | true =>
      have hentry : (node.name, plan.atLevel t) ∈ plan.pool (nodes.map (plan.planNode nodes)) := by
        have hget : (plan.levelled (nodes.map (plan.planNode nodes))).get node.name = _ :=
          get_levelled hnames' hnode
        rw [ht] at hget
        exact List.mem_filter.2 ⟨OrdMap.mem_of_get hget, hreusable⟩
      have hsettled : plan.settle (plan.pool (nodes.map (plan.planNode nodes))) =
          plan.pool (nodes.map (plan.planNode nodes)) := by
        rw [pool_planNode hplan hnames, settle_settle ascending_pool hplan]
      rw [hplanned.kept (settledRun_of_settled hsettled hentry)]

end Kept

/-! ## The balance of a plan -/

section Balance

variable (hplan : plan.Coherent) (hnames : (nodes.map (·.name)).Nodup) {c : Int}
  (hc : c ∈ plan.selected)
include hplan hnames hc

theorem workersAt_sampler :
    plan.workersAt .samplerAggregator c (nodes.map (plan.planNode nodes)) =
      (plan.samplersOf (plan.pool nodes)).countP (·.2.runId = c) := by
  rw [workersAt_eq (hplan.selected c hc) (by rwa [names_planNode]), pool_planNode hplan hnames]
  exact countP_samplerAt_settle ascending_pool hplan (fun h => hplan.parent_notMem (h ▸ hc))
    (List.ne_nil_of_mem hc)

theorem mem_activatedBy_iff :
    c ∈ plan.activatedBy (plan.pool nodes) ↔
      0 < plan.workersAt .samplerAggregator c (nodes.map (plan.planNode nodes)) := by
  rw [workersAt_sampler hplan hnames hc, List.countP_pos_iff, mem_activated_iff]
  exact exists_congr fun e => and_congr_right fun _ => decide_eq_true_iff.symm

/-- A child with a sampler gets its share of the evaluators. -/
theorem workersAt_evaluator (hact : c ∈ plan.activatedBy (plan.pool nodes)) :
    plan.workersAt .evaluator c (nodes.map (plan.planNode nodes)) =
      Quota.quota (shares (plan.activatedBy (plan.pool nodes)) (plan.pool nodes)) c := by
  rw [workersAt_eq (hplan.selected c hc) (by rwa [names_planNode]), pool_planNode hplan hnames,
    ← countP_placeEvaluators (Finset.ne_empty_of_mem hact),
    ← countP_evaluators_settle ascending_pool hplan (fun h => hplan.parent_notMem (h ▸ hc))
      (List.ne_nil_of_mem hc), evaluators, List.countP_filter]
  refine List.countP_congr fun e _ => ?_
  rw [decide_eq_true_eq, Bool.and_eq_true, decide_eq_true_eq, decide_eq_true_eq, and_comm]

theorem workersAt_sampler_le (hctl : c ∉ plan.controllers) :
    plan.workersAt .samplerAggregator c (nodes.map (plan.planNode nodes)) ≤ 1 := by
  rw [workersAt_sampler hplan hnames hc]
  exact countP_placed_le nodup_selected hctl

omit hc in
/-- With a sampler somewhere, every evaluator of the pool is with a child that has one. -/
theorem evaluator_activated (hany : plan.activatedBy (plan.pool nodes) ≠ ∅)
    {node : RegisteredNode} (hnode : node ∈ nodes.map (plan.planNode nodes)) {t : AssignmentTarget}
    (ht : node.desiredAssignment = some t) (hrole : t.role = .evaluator)
    (hpool : t.runId = plan.parentRunId ∨ (plan.branch t.runId).isSome) :
    ∃ c ∈ plan.activatedBy (plan.pool nodes), plan.branch t.runId = some c := by
  have hnames' : ((nodes.map (plan.planNode nodes)).map (·.name)).Nodup := by rwa [names_planNode]
  have hreusable : plan.isReusable (plan.atLevel t) = true := by
    by_contra hnot
    rw [Bool.not_eq_true] at hnot
    obtain ⟨hbranch, hlevel⟩ := atLevel_of_not hplan hnot
    rw [hlevel, ← Bool.not_eq_true, isReusable_iff] at hnot
    exact hnot hpool
  have hentry : (node.name, plan.atLevel t) ∈ plan.pool (nodes.map (plan.planNode nodes)) :=
    (mem_pool_iff hnames' hnode ht).2 hreusable
  rw [pool_planNode hplan hnames] at hentry
  have hsel : plan.selected ≠ [] := fun hnil => hany <| by
    refine Finset.eq_empty_iff_forall_notMem.2 fun c hact => ?_
    obtain ⟨e, he, -⟩ := mem_activated_iff.1 hact
    have hmem := (placed_of_mem ascending_pool he).1.2
    rw [hnil] at hmem
    cases hmem
  have hev : (node.name, plan.atLevel t) ∈ evaluators (plan.settle (plan.pool nodes)) :=
    List.mem_filter.2 ⟨hentry, decide_eq_true hrole⟩
  have hact := (evaluator_placed ascending_pool hsel hany hev).1
  refine ⟨(plan.atLevel t).runId, hact, ?_⟩
  obtain ⟨e, he, hrun⟩ := mem_activated_iff.1 hact
  have hmem := (placed_of_mem ascending_pool he).1.2
  rw [hrun] at hmem
  exact (atLevel_eq_iff (hplan.selected _ hmem)).1 rfl

end Balance

end Gammaboard.Runners.ControllerAssignmentPlan

namespace Gammaboard.Runners

open Gammaboard.Lib Gammaboard.Stores ControllerAssignmentPlan

/-- Planning a controller's nodes: with the tree of runs and the selected children, the updates move
nodes of the pool within the pool and keep their roles, no child but a controller gets a second
sampler, a selected child keeps its sampler, evaluators are spread evenly over the children with a
sampler, and after the updates there is nothing to update. -/
theorem controllerAssignmentUpdates_settles {runs : List RunRecord} (htree : RunTree runs)
    {parent : Int} {selected : List Int} (hparent : parent ∉ selected)
    (hselected : ∀ r ∈ runs, r.id ∈ selected → r.parentRunId = some parent)
    {nodes : List RegisteredNode} (hnames : (nodes.map (·.name)).Nodup)
    (huuids : (nodes.map (·.uuid)).Nodup) :
    let plan := observed runs parent selected
    let updates := controllerAssignmentUpdates nodes plan
    let after := applyUpdates nodes updates
    let inPool := fun runId => Within runs parent runId ∨ runId ∈ selected
    (updates.map (·.nodeUuid)).Nodup ∧
    (∀ u ∈ updates, ∃ node ∈ nodes, ∃ old new, node.desiredAssignment = some old ∧
      u = ⟨node.uuid, some old, some new⟩ ∧ new.role = old.role ∧
      inPool old.runId ∧ inPool new.runId) ∧
    (∀ c ∈ selected, (∀ r ∈ runs, r.id = c → r.controller = false) →
      plan.workersAt .samplerAggregator c after ≤ 1) ∧
    (∀ c ∈ selected, ∀ node ∈ nodes, ∀ t, node.desiredAssignment = some t →
      t.role = .samplerAggregator → plan.branch t.runId = some c →
      ((∃ r ∈ runs, r.id = c ∧ r.controller = true) → node ∈ after) ∧
        ∃ node' ∈ nodes, ∃ t', node'.desiredAssignment = some t' ∧ t'.role = .samplerAggregator ∧
          plan.branch t'.runId = some c ∧ node' ∈ after) ∧
    (∀ c ∈ selected, ∀ d ∈ selected, 0 < plan.workersAt .samplerAggregator c after →
      0 < plan.workersAt .samplerAggregator d after →
      plan.workersAt .evaluator c after ≤ plan.workersAt .evaluator d after + 1) ∧
    (∀ d ∈ selected, 0 < plan.workersAt .samplerAggregator d after →
      ∀ node ∈ after, ∀ t, node.desiredAssignment = some t → t.role = .evaluator →
      inPool t.runId → ∃ c ∈ selected, plan.branch t.runId = some c ∧
        0 < plan.workersAt .samplerAggregator c after) ∧
    controllerAssignmentUpdates after plan = [] := by
  intro plan updates after inPool
  have hplan : plan.Coherent := coherent_observed htree hparent hselected
  have hafter : after = nodes.map (plan.planNode nodes) := applyUpdates_eq hnames huuids
  have hmem : ∀ c ∈ selected, c ∈ plan.selected := fun c hc => mem_observed_selected htree hc
  have hpool : ∀ id, (id = plan.parentRunId ∨ (plan.branch id).isSome) ↔ inPool id := fun id => by
    rw [observed_parentRunId]
    exact inPool_iff htree
  have hkept : ∀ node ∈ nodes, plan.planNode nodes node = node → node ∈ after := by
    intro node hnode hkept
    rw [hafter]
    exact List.mem_map.2 ⟨node, hnode, hkept⟩
  refine ⟨huuids.sublist (uuids_updates hnames), ?_, ?_, ?_, ?_, ?_, ?_⟩
  · intro u hu
    obtain ⟨node, hnode, old, new, hold, rfl, hrole, hin, hin'⟩ := update_in_pool hplan hnames hu
    exact ⟨node, hnode, old, new, hold, rfl, hrole, (hpool _).1 hin, (hpool _).1 hin'⟩
  · intro c hc hctl
    rw [hafter]
    refine workersAt_sampler_le hplan hnames (hmem c hc) fun h => ?_
    obtain ⟨r, hr, hid, -, htrue⟩ := (mem_observed_controllers htree).1 h
    rw [hctl r hr hid] at htrue
    cases htrue
  · intro c hc node hnode t ht hrole hbranch
    obtain ⟨hall, node', hnode', t', ht', hrole', hbranch', hstays⟩ :=
      sampler_kept hplan hnames (hmem c hc) hnode ht hrole hbranch
    refine ⟨?_, node', hnode', t', ht', hrole', hbranch', hkept node' hnode' hstays⟩
    rintro ⟨r, hr, rfl, htrue⟩
    exact hkept node hnode
      (hall ((mem_observed_controllers htree).2 ⟨r, hr, rfl, hselected r hr hc, htrue⟩))
  · intro c hc d hd hsc hsd
    rw [hafter] at hsc hsd ⊢
    have hac := (mem_activatedBy_iff hplan hnames (hmem c hc)).2 hsc
    have had := (mem_activatedBy_iff hplan hnames (hmem d hd)).2 hsd
    have hshare : ∀ c ∈ plan.activatedBy (plan.pool nodes), _ ≤ _ ∧ _ ≤ _ + 1 := fun c hac =>
      @Quota.quota_evenShares _ _ c _ (evaluators (plan.pool nodes)).length inOrder_pairwise_lt
        (mem_inOrder.2 hac)
    have hle := (hshare c hac).2
    have hge := (hshare d had).1
    rw [workersAt_evaluator hplan hnames (hmem c hc) hac, workersAt_evaluator hplan hnames (hmem d hd) had]
    unfold shares
    omega
  · intro d hd hsd node hnode t ht hrole hin
    rw [hafter] at hsd hnode ⊢
    have had := (mem_activatedBy_iff hplan hnames (hmem d hd)).2 hsd
    obtain ⟨c, hact, hbranch⟩ := evaluator_activated hplan hnames (Finset.ne_empty_of_mem had) hnode ht
      hrole ((hpool _).2 hin)
    obtain ⟨e, he, rfl⟩ := mem_activated_iff.1 hact
    have hsel := (placed_of_mem ascending_pool he).1.2
    refine ⟨e.2.runId, ?_, hbranch, (mem_activatedBy_iff hplan hnames hsel).1 hact⟩
    have := (mem_selected.1 hsel).1
    rwa [observed_selectedChildRunIds] at this
  · rw [hafter]
    exact replan hplan hnames

/-- A controller with two children: an idle sampler of its pool and two evaluators of one child. -/
theorem controllerAssignmentUpdates_settles_pair :
    let plan := observed
      [⟨1, none, some "parameter_scan"⟩, ⟨2, some 1, none⟩, ⟨3, some 1, none⟩] 1 [2, 3]
    let nodes : List RegisteredNode :=
      [⟨"a", "a1", some ⟨.samplerAggregator, 2⟩⟩, ⟨"b", "b1", some ⟨.samplerAggregator, 1⟩⟩,
        ⟨"c", "c1", some ⟨.evaluator, 2⟩⟩, ⟨"d", "d1", some ⟨.evaluator, 2⟩⟩]
    let after := applyUpdates nodes (controllerAssignmentUpdates nodes plan)
    plan.workersAt .samplerAggregator 3 after ≤ 1 ∧ controllerAssignmentUpdates after plan = [] := by
  intro plan nodes after
  have h := controllerAssignmentUpdates_settles
    (⟨by decide, by decide⟩ :
      RunTree [⟨1, none, some "parameter_scan"⟩, ⟨2, some 1, none⟩, ⟨3, some 1, none⟩])
    (by decide : (1 : Int) ∉ [2, 3]) (by decide) (by decide : (nodes.map (·.name)).Nodup)
    (by decide : (nodes.map (·.uuid)).Nodup)
  exact ⟨h.2.2.1 3 (by decide) (by decide), h.2.2.2.2.2.2⟩

end Gammaboard.Runners
