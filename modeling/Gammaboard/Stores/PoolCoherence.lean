import Gammaboard.Stores.ControlPlane

/-!
# Pools and desired placements stay coherent

A node with a desired placement belongs to a pool, with the role of its pool and
a run of its pool's tree. Each statement keeps this row by row; controllers
change placements only through `update_desired_assignments`, which is left to
`Runners.PoolPlacements`.
-/

namespace Gammaboard.Stores

open Gammaboard.Lib

/-! ## The tree of runs -/

section Tree

variable {runs : List RunRecord} {a b c : Int}

theorem Within.append (h : Within runs a b) (r : RunRecord) : Within (runs ++ [r]) a b :=
  Relation.ReflTransGen.mono (fun _ _ ⟨q, hq, hid⟩ => ⟨q, List.mem_append_left _ hq, hid⟩) _ _ h

/-- Two runs above a run are above each other. -/
theorem RunTree.within_total (h : RunTree runs) (ha : Within runs a c) (hb : Within runs b c) :
    Within runs a b ∨ Within runs b a := by
  induction ha with
  | refl => exact .inr hb
  | tail hay hyc ih =>
    rcases hb.cases_tail with rfl | ⟨z, hbz, hzc⟩
    · exact .inl (hay.tail hyc)
    · exact ih (h.parent_unique hzc hyc ▸ hbz)

/-- Nothing is above a run without a parent. -/
theorem RunTree.eq_of_within_root (h : RunTree runs) (hb : ∃ r ∈ runs, r.id = b ∧ r.parentRunId = none)
    (hab : Within runs a b) : a = b := by
  rcases hab.cases_tail with rfl | ⟨y, -, s, hs, hid, hparent⟩
  · rfl
  · obtain ⟨r, hr, hrid, hnone⟩ := hb
    rw [h.row_eq hr hs (hrid.trans hid.symm), hparent] at hnone
    cases hnone

end Tree

/-- The tree of runs, whose ids are given out one after the other. -/
structure RunTable (runs : List RunRecord) (nextRunId : Int) : Prop where
  tree : RunTree runs
  parents : ∀ r ∈ runs, ∀ p, r.parentRunId = some p → ∃ q ∈ runs, q.id = p
  serial : ∀ r ∈ runs, r.id < nextRunId

namespace ControlPlane

variable {s : ControlPlane} {id : Int}

theorem hasRun_iff : s.hasRun id = true ↔ ∃ r ∈ s.runs, r.id = id := by
  simp [hasRun]

theorem mem_runTree (h : RunTree s.runs) {x : Int} :
    x ∈ s.runTree id ↔ s.hasRun id = true ∧ Within s.runs id x := by
  unfold runTree
  split
  · rename_i hrun
    rw [and_iff_right hrun, List.mem_cons, List.mem_map]
    constructor
    · rintro (rfl | ⟨row, hrow, rfl⟩)
      · exact .refl
      · obtain ⟨r, hr, hparent, -, -, hwithin⟩ := h.mem_workerPoolBranches.1 hrow
        exact hwithin.head ⟨r, hr, rfl, hparent⟩
    · intro hx
      rcases hx.cases_head with rfl | ⟨y, ⟨r, hr, rfl, hparent⟩, hyx⟩
      · exact .inl rfl
      · exact .inr ⟨⟨x, r.id, r.controller⟩,
          h.mem_workerPoolBranches.2 ⟨r, hr, hparent, rfl, rfl, hyx⟩, rfl⟩
  · rename_i hrun
    simp [hrun]

/-- A tree is closed under children. -/
theorem runTree_closed (h : RunTree s.runs) {x y : Int} (hx : x ∈ s.runTree id)
    (hy : Within s.runs x y) : y ∈ s.runTree id := by
  rw [mem_runTree h] at hx ⊢
  exact ⟨hx.1, hx.2.trans hy⟩

theorem runTable_insertRun (h : RunTable s.runs s.nextRunId) (parentRunId : Option Int)
    (runKind : Option String) :
    RunTable (s.insertRun parentRunId runKind).runs (s.insertRun parentRunId runKind).nextRunId := by
  unfold ControlPlane.insertRun
  split
  · rename_i hparent
    have hlt : ∀ p, parentRunId = some p → ∃ q ∈ s.runs, q.id = p := by
      rintro p rfl
      exact hasRun_iff.1 hparent
    refine ⟨⟨?_, ?_⟩, ?_, ?_⟩
    · rw [List.map_append, List.nodup_append]
      refine ⟨h.tree.ids, List.nodup_singleton _, fun a ha b hb => ?_⟩
      obtain ⟨r, hr, rfl⟩ := List.mem_map.1 ha
      have := h.serial r hr
      simp only [List.map_cons, List.map_nil, List.mem_singleton] at hb
      omega
    · intro r hr p hp
      rcases List.mem_append.1 hr with hr | hr
      · exact h.tree.parents r hr p hp
      · rw [List.mem_singleton.1 hr] at hp ⊢
        obtain ⟨q, hq, rfl⟩ := hlt p hp
        exact h.serial q hq
    · intro r hr p hp
      have hold : ∃ q ∈ s.runs, q.id = p := by
        rcases List.mem_append.1 hr with hr | hr
        · exact h.parents r hr p hp
        · rw [List.mem_singleton.1 hr] at hp
          exact hlt p hp
      obtain ⟨q, hq, hid⟩ := hold
      exact ⟨q, List.mem_append_left _ hq, hid⟩
    · intro r hr
      rcases List.mem_append.1 hr with hr | hr
      · have := h.serial r hr
        dsimp only
        omega
      · rw [List.mem_singleton.1 hr]
        dsimp only
        omega
  · exact h

theorem mem_removeRun_runs {r : RunRecord} :
    r ∈ (s.removeRun id).runs ↔ r ∈ s.runs ∧ r.id ∉ s.runTree id := by
  simp [removeRun]

/-- What is left keeps the runs above it. -/
theorem within_removeRun (h : RunTree s.runs) {a b : Int} (hab : Within s.runs a b)
    (hb : b ∉ s.runTree id) : Within (s.removeRun id).runs a b := by
  induction hab with
  | refl => exact .refl
  | tail _ hyb ih =>
    have hy := fun hmem => hb (runTree_closed h hmem (.single hyb))
    refine (ih hy).tail ?_
    obtain ⟨r, hr, rfl, hparent⟩ := hyb
    exact ⟨r, mem_removeRun_runs.2 ⟨hr, hb⟩, rfl, hparent⟩

theorem runTable_removeRun (h : RunTable s.runs s.nextRunId) (id : Int) :
    RunTable (s.removeRun id).runs (s.removeRun id).nextRunId where
  tree := by
    refine ⟨h.tree.ids.sublist (List.filter_sublist.map _), fun r hr p hp => ?_⟩
    exact h.tree.parents r (mem_removeRun_runs.1 hr).1 p hp
  parents := by
    intro r hr p hp
    obtain ⟨hr, hkept⟩ := mem_removeRun_runs.1 hr
    obtain ⟨q, hq, rfl⟩ := h.parents r hr p hp
    exact ⟨q, mem_removeRun_runs.2 ⟨hq, fun hmem =>
      hkept (runTree_closed h.tree hmem (.single ⟨r, hr, rfl, hp⟩))⟩, rfl⟩
  serial := fun r hr => h.serial r (mem_removeRun_runs.1 hr).1

theorem rootWithin_some {runs : List RunRecord} {k : Nat} {id root : Int}
    (h : rootWithin runs k id = some root) :
    Within runs root id ∧ ∃ r ∈ runs, r.id = root ∧ r.parentRunId = none := by
  induction k generalizing id with
  | zero => cases h
  | succ k ih =>
    unfold rootWithin at h
    cases hfind : runs.find? (·.id == id) with
    | none =>
      rw [hfind] at h
      cases h
    | some r =>
      have hr := List.mem_of_find?_eq_some hfind
      have hid : r.id = id := by simpa using List.find?_some hfind
      rw [hfind, Option.bind_eq_bind, Option.bind_some] at h
      cases hparent : r.parentRunId with
      | none =>
        rw [hparent] at h
        cases h
        exact ⟨.refl, r, hr, hid, hparent⟩
      | some p =>
        rw [hparent] at h
        obtain ⟨hwithin, hroot⟩ := ih h
        exact ⟨hwithin.tail ⟨r, hr, hid, hparent⟩, hroot⟩

/-! ## Coherent rows -/

/-- A placement has the role of the pool, and a run of the pool's tree. -/
abbrev PlacedIn (runs : List RunRecord) (pool desired : Option AssignmentTarget) : Prop :=
  ∀ t, desired = some t → ∃ p, pool = some p ∧ p.role = t.role ∧ Within runs p.runId t.runId

/-- What holds of a row: its placement follows its pool, its pool belongs to a run without a parent,
and it was registered under its own name, if at all. -/
structure CoherentNode (owner : String → String) (now : Int) (runs : List RunRecord)
    (n : ControlNode) : Prop where
  placed : PlacedIn runs n.pool n.desired
  root : ∀ p, n.pool = some p → ∃ r ∈ runs, r.id = p.runId ∧ r.parentRunId = none
  unregistered : n.uuid = "" → n.leaseExpiresAt ≤ now
  owned : n.uuid ≠ "" → owner n.uuid = n.name

structure Coherent (owner : String → String) (s : ControlPlane) : Prop where
  table : RunTable s.runs s.nextRunId
  clock : 0 ≤ s.now
  names : (s.nodes.map (·.name)).Nodup
  nodes : ∀ n ∈ s.nodes, CoherentNode owner s.now s.runs n

/-- The pool and the placement stay, or the placement goes. -/
abbrev PlacementKept (n n' : ControlNode) : Prop :=
  n'.pool = n.pool ∧ n'.desired = n.desired ∨
    n'.desired = none ∧ (n'.pool = n.pool ∨ n'.pool = none)

variable {owner : String → String} {n n' : ControlNode} {now : Int} {runs : List RunRecord}

theorem CoherentNode.placement (h : CoherentNode owner now runs n) (hkept : PlacementKept n n') :
    PlacedIn runs n'.pool n'.desired ∧
    ∀ p, n'.pool = some p → ∃ r ∈ runs, r.id = p.runId ∧ r.parentRunId = none := by
  rcases hkept with ⟨hpool, hdesired⟩ | ⟨hdesired, hpool⟩
  · rw [hpool, hdesired]
    exact ⟨h.placed, h.root⟩
  · rw [hdesired]
    refine ⟨fun t ht => (by cases ht), fun p hp => ?_⟩
    rcases hpool with hpool | hpool
    · exact h.root p (hpool ▸ hp)
    · rw [hpool] at hp
      cases hp

theorem CoherentNode.change (h : CoherentNode owner now runs n) (hname : n'.name = n.name)
    (huuid : n'.uuid = n.uuid)
    (hlease : n'.leaseExpiresAt = n.leaseExpiresAt ∨ n'.leaseExpiresAt = now)
    (hkept : PlacementKept n n') : CoherentNode owner now runs n' where
  placed := (h.placement hkept).1
  root := (h.placement hkept).2
  unregistered := by
    intro hempty
    have := h.unregistered (huuid ▸ hempty)
    omega
  owned := by
    rw [huuid, hname]
    exact h.owned

/-- A row another process takes, under its own name. -/
theorem CoherentNode.registered (h : CoherentNode owner now runs n) (hname : n'.name = n.name)
    (huuid : n'.uuid ≠ "") (hown : owner n'.uuid = n.name) (hkept : PlacementKept n n') :
    CoherentNode owner now runs n' where
  placed := (h.placement hkept).1
  root := (h.placement hkept).2
  unregistered := fun hempty => absurd hempty huuid
  owned := fun _ => by rw [hown, hname]

theorem coherentNode_reservedRow (hclock : 0 ≤ now) (name : String) :
    CoherentNode owner now runs (reservedRow name) where
  placed := by
    intro t ht
    cases ht
  root := by
    intro p hp
    cases hp
  unregistered := fun _ => hclock
  owned := fun hne => absurd rfl hne

theorem Coherent.updateNodes (h : Coherent owner s) {p : ControlNode → Bool}
    {f : ControlNode → ControlNode} (hname : ∀ n, (f n).name = n.name)
    (hf : ∀ n ∈ s.nodes, p n = true → CoherentNode owner s.now s.runs n → CoherentNode owner s.now s.runs (f n)) :
    Coherent owner (s.updateNodes p f) where
  table := h.table
  clock := h.clock
  names := by
    have : (s.updateNodes p f).nodes.map (·.name) = s.nodes.map (·.name) := by
      refine List.map_map.trans (List.map_congr_left fun n _ => ?_)
      by_cases hp : p n = true
      · simp [hp, hname]
      · simp [hp]
    exact this ▸ h.names
  nodes := by
    intro n hn
    obtain ⟨m, hm, rfl⟩ := List.mem_map.1 hn
    by_cases hp : p m = true
    · simp only [hp, if_true]
      exact hf m hm hp (h.nodes m hm)
    · simp only [hp]
      exact h.nodes m hm

/-- A statement that changes no name, no uuid, no lease but to end it, and drops placements at
most. -/
theorem Coherent.keep (h : Coherent owner s) {p : ControlNode → Bool}
    {f : ControlNode → ControlNode} (hname : ∀ n, (f n).name = n.name)
    (huuid : ∀ n, (f n).uuid = n.uuid)
    (hlease : ∀ n, (f n).leaseExpiresAt = n.leaseExpiresAt ∨ (f n).leaseExpiresAt = s.now)
    (hkept : ∀ n, PlacementKept n (f n)) : Coherent owner (s.updateNodes p f) :=
  h.updateNodes hname fun n _ _ hn => hn.change (hname n) (huuid n) (hlease n) (hkept n)

theorem Coherent.insertNodes (h : Coherent owner s) {rows : List ControlNode} {s' : ControlPlane}
    (hrows : ∀ n ∈ rows, CoherentNode owner s.now s.runs n) (hs' : s.insertNodes rows = .ok s') :
    Coherent owner s' := by
  unfold ControlPlane.insertNodes at hs'
  split at hs'
  · rename_i hnames
    cases hs'
    refine ⟨h.table, h.clock, hnames, fun n hn => ?_⟩
    rcases List.mem_append.1 hn with hn | hn
    · exact h.nodes n hn
    · exact hrows n hn
  · cases hs'

/-! ## Statements -/

theorem Coherent.clearExpiredAssignments (h : Coherent owner s) :
    Coherent owner s.clearExpiredAssignments := by
  refine h.keep (fun n => ?_) (fun n => ?_) (fun n => ?_) fun n => ?_
  · split <;> rfl
  · split <;> rfl
  · split <;> exact .inl rfl
  · split
    · exact .inl ⟨rfl, rfl⟩
    · exact .inr ⟨rfl, .inr rfl⟩

theorem Coherent.withoutPlacement (h : Coherent owner s) (p : ControlNode → Bool) :
    Coherent owner (s.updateNodes p withoutPlacement) :=
  h.keep (fun _ => rfl) (fun _ => rfl) (fun _ => .inl rfl) fun _ => .inr ⟨rfl, .inr rfl⟩

theorem Coherent.shutDown (h : Coherent owner s) (p : ControlNode → Bool) :
    Coherent owner (s.updateNodes p shutDown) :=
  h.keep (fun _ => rfl) (fun _ => rfl) (fun _ => .inl rfl) fun _ => .inr ⟨rfl, .inr rfl⟩

/-- A member of the pool keeps its placement there; another node starts at the root. -/
theorem Coherent.assignPool (h : Coherent owner s) {nodeName : String} {target : AssignmentTarget}
    (hroot : ∃ r ∈ s.runs, r.id = target.runId ∧ r.parentRunId = none) :
    Coherent owner (s.assignPool nodeName target) := by
  refine h.updateNodes (fun _ => rfl) fun n _ _ hn => ?_
  refine ⟨fun t ht => ⟨target, rfl, ?_⟩, fun p hp => ?_, hn.unregistered, hn.owned⟩
  · dsimp only at ht
    split at ht
    · rename_i hpool
      cases ht
      refine ⟨rfl, ?_⟩
      cases hdesired : n.desired with
      | none => exact .refl
      | some t =>
        obtain ⟨p, hp, -, hwithin⟩ := hn.placed t hdesired
        rw [hpool] at hp
        cases hp
        exact hwithin
    · cases ht
      exact ⟨rfl, .refl⟩
  · cases hp
    exact hroot

theorem Coherent.assignWorkerPool (h : Coherent owner s) {nodeName : String} {role : WorkerRole}
    {runId : Int} : Coherent owner
      (s.committed ((s.assignWorkerPool nodeName role runId).map (·.2))) := by
  unfold ControlPlane.assignWorkerPool
  dsimp only
  split
  · exact h
  · rename_i root hroot
    have hassigned : Coherent owner (s.clearExpiredAssignments.assignPool nodeName ⟨role, root⟩) :=
      h.clearExpiredAssignments.assignPool (rootWithin_some hroot).2
    split
    · exact h
    · split
      · cases hcheck : ControlPlane.checkWorkerConnectionBudget
            (s.clearExpiredAssignments.assignPool nodeName ⟨role, root⟩) 0 with
        | error e => exact h
        | ok _ => exact hassigned
      · exact hassigned

theorem Coherent.resumeWorkerPool (h : Coherent owner s) (runId : Int) :
    Coherent owner (s.resumeWorkerPool runId) := by
  refine h.updateNodes (fun _ => rfl) fun n _ _ hn => ?_
  exact ⟨fun t ht => ⟨t, ht, rfl, .refl⟩, hn.root, hn.unregistered, hn.owned⟩

/-- A finished run has a parent to go to only when it is nobody's pool. -/
theorem Coherent.finishRunAssignments (h : Coherent owner s) (runId : Int)
    (parentTaskActive : Bool) : Coherent owner (s.finishRunAssignments runId parentTaskActive) := by
  unfold ControlPlane.finishRunAssignments
  dsimp only
  split
  · exact h.withoutPlacement _
  · rename_i parent hparent
    have hchild : Child s.runs parent runId := by
      split at hparent
      · cases hfind : s.runs.find? (·.id == runId) with
        | none =>
          rw [hfind] at hparent
          cases hparent
        | some r =>
          rw [hfind] at hparent
          exact ⟨r, List.mem_of_find?_eq_some hfind, by simpa using List.find?_some hfind, hparent⟩
      · cases hparent
    split
    · exact h
    · refine h.updateNodes (fun _ => rfl) fun n _ hplaced hn => ?_
      refine ⟨fun t ht => ?_, hn.root, hn.unregistered, hn.owned⟩
      obtain ⟨before, hbefore, rfl⟩ := Option.map_eq_some_iff.1 ht
      obtain ⟨p, hp, hrole, hwithin⟩ := hn.placed before hbefore
      refine ⟨p, hp, hrole, ?_⟩
      have hnot : p.runId ≠ runId := by
        rintro rfl
        have heq := h.table.tree.eq_of_within_root (hn.root p hp) (.single hchild)
        have := h.table.tree.child_lt hchild
        omega
      -- the row was placed with the finished run, whose parent is in the pool's tree too
      have hrun : before.runId = runId := by
        simpa [hbefore, hp, hnot] using hplaced
      rcases hwithin.cases_tail with heq | ⟨y, hpy, hy⟩
      · exact absurd (heq.symm.trans hrun) hnot
      · rw [hrun] at hy
        exact h.table.tree.parent_unique hchild hy ▸ hpy

theorem without_eq_some {runs : List Int} {placement : Option AssignmentTarget}
    {t : AssignmentTarget} :
    without runs placement = some t ↔ placement = some t ∧ t.runId ∉ runs := by
  unfold without among
  cases placement with
  | none => simp
  | some u =>
    by_cases hu : u.runId ∈ runs
    · simp only [Option.any_some, List.contains_eq_mem, hu, decide_true, if_true, Option.some.injEq]
      constructor
      · intro h
        cases h
      · rintro ⟨rfl, hnot⟩
        exact absurd hu hnot
    · simp only [Option.any_some, List.contains_eq_mem, hu, decide_false, Option.some.injEq]
      constructor
      · rintro ⟨⟩
        exact ⟨rfl, hu⟩
      · rintro ⟨rfl, -⟩
        rfl

theorem without_of_not_among {runs : List Int} {placement : Option AssignmentTarget}
    (h : among runs placement = false) : without runs placement = placement := by
  simp [without, h]

/-- With a run go the pools and placements in its tree. -/
theorem CoherentNode.removeRun (h : CoherentNode owner s.now s.runs n)
    (htree : RunTree s.runs) {runId : Int} (hname : n'.name = n.name) (huuid : n'.uuid = n.uuid)
    (hlease : n'.leaseExpiresAt = n.leaseExpiresAt)
    (hpool : n'.pool = without (s.runTree runId) n.pool)
    (hdesired : n'.desired = without (s.runTree runId) n.desired) :
    CoherentNode owner s.now (s.removeRun runId).runs n' where
  placed := by
    intro t ht
    rw [hdesired, without_eq_some] at ht
    obtain ⟨p, hp, hrole, hwithin⟩ := h.placed t ht.1
    refine ⟨p, ?_, hrole, within_removeRun htree hwithin ht.2⟩
    rw [hpool, without_eq_some]
    exact ⟨hp, fun hmem => ht.2 (runTree_closed htree hmem hwithin)⟩
  root := by
    intro p hp
    rw [hpool, without_eq_some] at hp
    obtain ⟨r, hr, hid, hparent⟩ := h.root p hp.1
    exact ⟨r, mem_removeRun_runs.2 ⟨hr, hid ▸ hp.2⟩, hid, hparent⟩
  unregistered := fun hempty => hlease ▸ h.unregistered (huuid ▸ hempty)
  owned := by
    rw [huuid, hname]
    exact h.owned

theorem Coherent.removeRun (h : Coherent owner s) (runId : Int) :
    Coherent owner (s.removeRun runId) where
  table := runTable_removeRun h.table runId
  clock := h.clock
  names := by
    have : (s.removeRun runId).nodes.map (·.name) = s.nodes.map (·.name) := by
      refine List.map_map.trans (List.map_congr_left fun n _ => ?_)
      dsimp only [Function.comp_apply]
      split <;> rfl
    exact this ▸ h.names
  nodes := by
    intro n hn
    obtain ⟨m, hm, rfl⟩ := List.mem_map.1 hn
    dsimp only
    split
    · exact (h.nodes m hm).removeRun h.table.tree rfl rfl rfl rfl rfl
    · rename_i hnone
      simp only [Bool.or_eq_true, not_or, Bool.not_eq_true] at hnone
      exact (h.nodes m hm).removeRun h.table.tree rfl rfl rfl
        (without_of_not_among hnone.1.1).symm (without_of_not_among hnone.1.2).symm

theorem Coherent.insertRun (h : Coherent owner s) (parentRunId : Option Int)
    (runKind : Option String) : Coherent owner (s.insertRun parentRunId runKind) := by
  have htable := runTable_insertRun h.table parentRunId runKind
  unfold ControlPlane.insertRun at htable ⊢
  split
  · rename_i hparent
    rw [if_pos hparent] at htable
    refine ⟨htable, h.clock, h.names, fun n hn => ?_⟩
    have hnode := h.nodes n hn
    refine ⟨fun t ht => ?_, fun p hp => ?_, hnode.unregistered, hnode.owned⟩
    · obtain ⟨p, hp, hrole, hwithin⟩ := hnode.placed t ht
      exact ⟨p, hp, hrole, hwithin.append _⟩
    · obtain ⟨r, hr, hroot⟩ := hnode.root p hp
      exact ⟨r, List.mem_append_left _ hr, hroot⟩
  · exact h

/-- A process registers under its own uuid, which is not empty. -/
theorem Coherent.announceNode (h : Coherent owner s) {nodeName nodeUuid : String}
    (huuid : nodeUuid ≠ "") (hown : owner nodeUuid = nodeName) :
    Coherent owner (s.committed (s.announceNode nodeName nodeUuid)) := by
  unfold ControlPlane.announceNode
  split
  · refine h.updateNodes (fun _ => rfl) fun n _ hp hn => ?_
    simp only [Bool.and_eq_true, beq_iff_eq] at hp
    refine hn.registered rfl ?_ ?_ (.inl ⟨rfl, rfl⟩)
    · exact hp.2.symm ▸ huuid
    · exact hp.2.symm ▸ hp.1.symm ▸ hown
  · split
    · split
      · refine h.updateNodes (fun n => ?_) fun n _ hp hn => ?_
        · unfold takenOver
          split <;> rfl
        · simp only [Bool.and_eq_true, beq_iff_eq] at hp
          refine hn.registered ?_ huuid (hp.1.symm ▸ hown) ?_
          · unfold takenOver
            split <;> rfl
          · unfold takenOver
            split
            · exact .inl ⟨rfl, rfl⟩
            · exact .inr ⟨rfl, .inr rfl⟩
      · exact h
    · cases hins : s.insertNodes [s.renewed { reservedRow nodeName with uuid := nodeUuid }] with
      | error e => exact h
      | ok s' =>
        refine h.insertNodes (fun n hn => ?_) hins
        rw [List.mem_singleton.1 hn]
        exact (coherentNode_reservedRow h.clock nodeName).registered rfl huuid hown
          (.inl ⟨rfl, rfl⟩)

theorem Coherent.setCurrentAssignment (h : Coherent owner s) (nodeUuid : String)
    (target : AssignmentTarget) : Coherent owner (s.setCurrentAssignment nodeUuid target).2 := by
  unfold ControlPlane.setCurrentAssignment
  dsimp only
  split
  · exact h.clearExpiredAssignments
  · split
    · exact h.clearExpiredAssignments
    · split
      · exact h.clearExpiredAssignments.keep (fun _ => rfl) (fun _ => rfl) (fun _ => .inl rfl)
          fun _ => .inl ⟨rfl, rfl⟩
      · exact h.clearExpiredAssignments

theorem Coherent.expireNodeLease (h : Coherent owner s) (nodeUuid : String) :
    Coherent owner (s.expireNodeLease nodeUuid) := by
  refine h.keep (fun n => ?_) (fun n => ?_) (fun _ => .inr rfl) fun n => ?_
  · dsimp only
    split <;> rfl
  · dsimp only
    split <;> rfl
  · dsimp only
    split
    · exact .inl ⟨rfl, rfl⟩
    · exact .inr ⟨rfl, .inr rfl⟩

theorem Coherent.requestNodeShutdown (h : Coherent owner s) (nodeName : String) :
    Coherent owner (s.requestNodeShutdown nodeName) := by
  unfold ControlPlane.requestNodeShutdown
  split
  · exact h.shutDown _
  · rename_i hnone
    have hrow : CoherentNode owner s.now s.runs { reservedRow nodeName with shutdownRequested := true } :=
      (coherentNode_reservedRow h.clock nodeName).change rfl rfl (.inl rfl) (.inl ⟨rfl, rfl⟩)
    refine ⟨h.table, h.clock, ?_, fun n hn => ?_⟩
    · rw [List.map_append, List.nodup_append]
      refine ⟨h.names, List.nodup_singleton _, fun a ha b hb => ?_⟩
      obtain ⟨n, hn, rfl⟩ := List.mem_map.1 ha
      rw [List.map_singleton, List.mem_singleton] at hb
      rintro rfl
      exact hnone (List.any_eq_true.2 ⟨n, hn, beq_iff_eq.2 hb⟩)
    · rcases List.mem_append.1 hn with hn | hn
      · exact h.nodes n hn
      · exact List.mem_singleton.1 hn ▸ hrow

theorem Coherent.insertRequest (h : Coherent owner s) : Coherent owner s.insertRequest :=
  ⟨h.table, h.clock, h.names, h.nodes⟩

theorem Coherent.reserveWorkerLaunch (h : Coherent owner s) (groups : List (String × Nat)) :
    Coherent owner (s.committed (s.reserveWorkerLaunch groups)) := by
  unfold ControlPlane.reserveWorkerLaunch
  split
  · exact h
  · cases hcheck : s.checkWorkerConnectionBudget (groups.map (·.2)).sum with
    | error e => exact h
    | ok _ =>
      cases hins : s.insertRequest.insertNodes
          ((groupNames groups (s.nodes.map (·.name))).map fun name =>
            { reservedRow name with launchGroup := true, launchRequestId := some s.nextRequestId }) with
      | error e => exact h
      | ok s' =>
        refine h.insertRequest.insertNodes (fun n hn => ?_) hins
        obtain ⟨name, -, rfl⟩ := List.mem_map.1 hn
        exact (coherentNode_reservedRow h.clock name).change rfl rfl (.inl rfl) (.inl ⟨rfl, rfl⟩)

theorem Coherent.enqueueResumedWorkers (h : Coherent owner s) :
    Coherent owner (s.committed s.enqueueResumedWorkers) := by
  unfold ControlPlane.enqueueResumedWorkers
  dsimp only
  split
  · exact h
  · cases hcheck : s.checkWorkerConnectionBudget (s.nodes.filter s.resumable).length with
    | error e => exact h
    | ok _ =>
      have key : ∀ (rows : List ControlNode) (s : ControlPlane), Coherent owner s →
          Coherent owner (rows.foldl (fun s n => s.enqueueResumed n.name) s) := by
        intro rows
        induction rows with
        | nil => exact fun _ hs => hs
        | cons n rows ih =>
          intro s hs
          exact ih _ (hs.insertRequest.keep (fun _ => rfl) (fun _ => rfl) (fun _ => .inl rfl)
            fun _ => .inl ⟨rfl, rfl⟩)
      exact key _ s h

/-- What `update_desired_assignments` leads to. -/
theorem updateDesiredAssignments_ok {updates : List NodeAssignmentUpdate} {applied : Bool}
    {s' : ControlPlane} (h : s.updateDesiredAssignments updates = .ok (applied, s')) :
    s' = s ∨ applied = true ∧ (∀ u ∈ updates, s.clearExpiredAssignments.matchesExpected u = true) ∧
      (∀ u ∈ updates, ∀ t, u.desired = some t → s.hasRun t.runId = true) ∧
      s' = updates.foldl setDesired s.clearExpiredAssignments := by
  unfold ControlPlane.updateDesiredAssignments at h
  split at h
  · cases h
    exact .inl rfl
  · dsimp only at h
    split at h
    · cases h
      exact .inl rfl
    · rename_i hmatch
      split at h
      · cases h
      · rename_i hruns
        simp only [Bool.not_eq_true, Bool.not_eq_false', List.all_eq_true] at hmatch hruns
        have hpresent : ∀ u ∈ updates, ∀ t, u.desired = some t → s.hasRun t.runId = true := by
          intro u hu t ht
          have := hruns u hu
          rw [ht] at this
          exact this
        split at h
        · cases hcheck : ControlPlane.checkWorkerConnectionBudget
              (updates.foldl setDesired s.clearExpiredAssignments) 0 with
          | error e =>
            rw [hcheck] at h
            cases h
          | ok _ =>
            rw [hcheck] at h
            cases h
            exact .inr ⟨rfl, hmatch, hpresent, rfl⟩
        · cases h
          exact .inr ⟨rfl, hmatch, hpresent, rfl⟩

/-- Placements that fit the pools of their nodes keep the rows coherent. -/
theorem Coherent.setDesired (h : Coherent owner s) (updates : List NodeAssignmentUpdate)
    (hplaced : ∀ u ∈ updates, ∀ n ∈ s.nodes, n.uuid = u.nodeUuid → PlacedIn s.runs n.pool u.desired) :
    Coherent owner (updates.foldl ControlPlane.setDesired s) := by
  induction updates generalizing s with
  | nil => exact h
  | cons u updates ih =>
    refine ih (h.updateNodes (fun _ => rfl) fun n hn hp hnode => ?_) fun u' hu' n hn huuid => ?_
    · exact ⟨hplaced u List.mem_cons_self n hn (beq_iff_eq.1 hp), hnode.root, hnode.unregistered,
        hnode.owned⟩
    · obtain ⟨m, hm, rfl⟩ := List.mem_map.1 hn
      have hm' := hplaced u' (List.mem_cons_of_mem _ hu') m hm
      by_cases hp : (m.uuid == u.nodeUuid) = true
      · simp only [hp, if_true] at huuid ⊢
        exact hm' huuid
      · simp only [hp] at huuid ⊢
        exact hm' huuid

/-- A process announces its own name and a uuid that is not empty. -/
abbrev Registers (owner : String → String) (e : ControlEvent) : Prop :=
  ∀ nodeName nodeUuid, e = .announceNode nodeName nodeUuid →
    nodeUuid ≠ "" ∧ owner nodeUuid = nodeName

/-- Every statement but the placements of controllers keeps pools and placements coherent. -/
theorem Coherent.step (h : Coherent owner s) {e : ControlEvent} (hreg : Registers owner e)
    (hplain : ∀ updates, e ≠ .updateDesiredAssignments updates) : Coherent owner (s.step e) := by
  cases e with
  | tick elapsed =>
    refine ⟨h.table, ?_, h.names, fun n hn => ?_⟩
    · have := h.clock
      simp only [ControlPlane.step]
      omega
    · have hnode := h.nodes n hn
      refine ⟨hnode.placed, hnode.root, fun hempty => ?_, hnode.owned⟩
      have := hnode.unregistered hempty
      simp only [ControlPlane.step]
      omega
  | insertRun parentRunId runKind => exact h.insertRun parentRunId runKind
  | removeRun runId => exact h.removeRun runId
  | assignWorkerPool nodeName role runId => exact h.assignWorkerPool
  | updateDesiredAssignments updates => exact absurd rfl (hplain updates)
  | clearDesiredAssignment nodeName => exact h.withoutPlacement _
  | clearDesiredAssignmentsForRun runId => exact h.withoutPlacement _
  | clearDesiredAssignmentsForRunExceptNode runId keepNodeName => exact h.withoutPlacement _
  | clearAllDesiredAssignments => exact h.withoutPlacement _
  | pauseWorkerPool runId =>
    exact h.keep (fun _ => rfl) (fun _ => rfl) (fun _ => .inl rfl) fun _ => .inr ⟨rfl, .inl rfl⟩
  | resumeWorkerPool runId => exact h.resumeWorkerPool runId
  | finishRunAssignments runId parentTaskActive => exact h.finishRunAssignments runId parentTaskActive
  | announceNode nodeName nodeUuid =>
    obtain ⟨huuid, hown⟩ := hreg nodeName nodeUuid rfl
    exact h.announceNode huuid hown
  | setCurrentAssignment nodeUuid target => exact h.setCurrentAssignment nodeUuid target
  | clearCurrentAssignment nodeUuid =>
    exact h.keep (fun _ => rfl) (fun _ => rfl) (fun _ => .inl rfl) fun _ => .inl ⟨rfl, rfl⟩
  | expireNodeLease nodeUuid => exact h.expireNodeLease nodeUuid
  | requestNodeShutdown nodeName => exact h.requestNodeShutdown nodeName
  | requestAllNodesShutdown => exact h.shutDown _
  | consumeNodeShutdownRequest nodeUuid =>
    exact h.keep (fun _ => rfl) (fun _ => rfl) (fun _ => .inl rfl) fun _ => .inl ⟨rfl, rfl⟩
  | suspendWorkers =>
    exact h.keep (fun _ => rfl) (fun _ => rfl) (fun _ => .inl rfl) fun _ => .inl ⟨rfl, rfl⟩
  | reserveWorkerLaunch groups => exact h.reserveWorkerLaunch groups
  | enqueueResumedWorkers => exact h.enqueueResumedWorkers
  | setRequestState id state => exact ⟨h.table, h.clock, h.names, h.nodes⟩
  | loseWorker id nodeName => exact ⟨h.table, h.clock, h.names, h.nodes⟩

end ControlPlane

end Gammaboard.Stores
