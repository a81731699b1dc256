import Gammaboard.Stores.ControlPlane
import Mathlib.Algebra.Order.BigOperators.Group.List
import Mathlib.Algebra.BigOperators.Group.List.Basic
import Mathlib.Tactic.Ring

/-!
# The connection budget of the workers

The connections counted for the workers against what the server has for them.
Launches, resumed workers and sampler assignments are checked; registrations,
heartbeats and changes of launch requests are not. Row by row a statement counts
no more than before, apart from those.
-/

namespace Gammaboard.Stores.ControlPlane

open Gammaboard.Lib

/-- A live worker, or one a launch has a reservation for. -/
def counted (s : ControlPlane) (n : ControlNode) : Bool := s.live n || s.reserved n

/-- The connections of a worker with its roles. -/
def connectionsOf (n : ControlNode) : Int :=
  connectionsPerWorker + if n.sampler then extraSamplerConnections else 0

def held (s : ControlPlane) (n : ControlNode) : Int := if s.counted n then connectionsOf n else 0

def connections (s : ControlPlane) : Int := (s.nodes.map s.held).sum

/-- What the server has for workers. -/
def allowance (s : ControlPlane) : Int :=
  max (s.maxConnections - s.reservedConnections - connectionHeadroom) 0

variable {s s' : ControlPlane}

/-! ## The check -/

theorem connections_eq : s.connections =
    connectionsPerWorker * (s.liveWorkers + s.reservedWorkers) +
      extraSamplerConnections * s.samplerWorkers := by
  unfold connections liveWorkers reservedWorkers samplerWorkers
  generalize s.nodes = nodes
  induction nodes with
  | nil => simp
  | cons n nodes ih =>
    rw [List.map_cons, List.sum_cons, ih, List.countP_cons, List.countP_cons, List.countP_cons]
    unfold held counted connectionsOf
    by_cases hlive : s.live n = true
    · have hreserved : s.reserved n = false := by simp [reserved, hlive]
      by_cases hsampler : n.sampler = true <;> simp [hlive, hreserved, hsampler] <;> ring
    · by_cases hreserved : s.reserved n = true
      · by_cases hsampler : n.sampler = true <;> simp [hlive, hreserved, hsampler] <;> ring
      · simp only [Bool.not_eq_true] at hlive hreserved
        simp [hlive, hreserved]

/-- A passed check leaves room for the additional workers. -/
theorem connections_le_of_check {additional : Int} (hadditional : 0 ≤ additional)
    (h : s.checkWorkerConnectionBudget additional = .ok ()) :
    s.connections + connectionsPerWorker * additional ≤ s.allowance := by
  unfold checkWorkerConnectionBudget at h
  dsimp only at h
  split at h
  · cases h
  · rename_i hfits
    have hsampler : s.samplerWorkers ≤ s.liveWorkers + s.reservedWorkers := by
      unfold samplerWorkers liveWorkers reservedWorkers
      generalize s.nodes = nodes
      induction nodes with
      | nil => simp
      | cons n nodes ih =>
        rw [List.countP_cons, List.countP_cons, List.countP_cons]
        by_cases hlive : s.live n = true <;> by_cases hreserved : s.reserved n = true <;>
          by_cases hs : n.sampler = true <;> simp [hlive, hreserved, hs] <;> omega
    have hnonneg : 0 ≤ s.samplerWorkers := Int.natCast_nonneg _
    rw [connections_eq]
    unfold capacity connectionsPerWorker extraSamplerConnections allowance
      maxSamplerDbConnections maxEvaluatorDbConnections at *
    omega

theorem within_of_check (h : s.checkWorkerConnectionBudget 0 = .ok ()) :
    s.connections ≤ s.allowance := by
  have := connections_le_of_check (le_refl 0) h
  rwa [mul_zero, add_zero] at this

/-! ## Rows -/

theorem connectionsOf_nonneg (n : ControlNode) : 0 ≤ connectionsOf n := by
  unfold connectionsOf connectionsPerWorker extraSamplerConnections maxSamplerDbConnections
    maxEvaluatorDbConnections
  split <;> omega

theorem connectionsOf_le {n n' : ControlNode} (h : n'.sampler = true → n.sampler = true) :
    connectionsOf n' ≤ connectionsOf n := by
  unfold connectionsOf extraSamplerConnections maxSamplerDbConnections maxEvaluatorDbConnections
  split <;> split <;> simp_all

theorem held_le_connectionsOf (s : ControlPlane) (n : ControlNode) : s.held n ≤ connectionsOf n := by
  unfold held
  split
  · exact le_refl _
  · exact connectionsOf_nonneg n

theorem held_nonneg (s : ControlPlane) (n : ControlNode) : 0 ≤ s.held n := by
  unfold held
  split
  · exact connectionsOf_nonneg n
  · exact le_refl _

/-- A row that is counted only if it was, and a sampler only if it was, costs no more. -/
theorem held_le {n n' : ControlNode} (hcounted : s'.counted n' = true → s.counted n = true)
    (hsampler : n'.sampler = true → n.sampler = true) : s'.held n' ≤ s.held n := by
  unfold held
  split
  · rename_i h
    rw [if_pos (hcounted h)]
    exact connectionsOf_le hsampler
  · split
    · exact connectionsOf_nonneg n
    · exact le_refl _

theorem sampler_iff {n : ControlNode} : n.sampler = true ↔
    (n.pool.any (·.role == .samplerAggregator)) = true ∨
      (n.desired.any (·.role == .samplerAggregator)) = true ∨
        (n.active.any (·.role == .samplerAggregator)) = true := by
  simp [ControlNode.sampler]

/-- Roles that go, or are taken from the pool. -/
theorem sampler_of_kept {n n' : ControlNode}
    (hpool : n'.pool = n.pool ∨ n'.pool = none)
    (hdesired : n'.desired = n.desired ∨ n'.desired = none ∨ n'.desired = n.pool)
    (hactive : n'.active = n.active ∨ n'.active = none) (h : n'.sampler = true) :
    n.sampler = true := by
  rw [sampler_iff] at h ⊢
  rcases h with h | h | h
  · rcases hpool with hp | hp
    · exact .inl (hp ▸ h)
    · rw [hp] at h
      cases h
  · rcases hdesired with hd | hd | hd
    · exact .inr (.inl (hd ▸ h))
    · rw [hd] at h
      cases h
    · exact .inl (hd ▸ h)
  · rcases hactive with ha | ha
    · exact .inr (.inr (ha ▸ h))
    · rw [ha] at h
      cases h

/-! ## Room -/

/-- There is room for the rows, if there are any. -/
abbrev Room (s : ControlPlane) (rows : List ControlNode) : Prop :=
  rows = [] ∨ s.connections + (rows.map connectionsOf).sum ≤ s.allowance

/-- The row a registration leads to. -/
def registered (s : ControlPlane) (nodeUuid : String) (n : ControlNode) : ControlNode :=
  if n.uuid = nodeUuid then s.renewed n else s.takenOver nodeUuid n

/-- The rows a registration takes that were not counted before. -/
def uncounted (s : ControlPlane) (nodeName nodeUuid : String) : List ControlNode :=
  if s.nodes.any (·.name == nodeName) then
    (s.nodes.filter fun n => n.name == nodeName && (n.uuid == nodeUuid || !s.live n) &&
      !s.counted n).map (s.registered nodeUuid)
  else [reservedRow nodeName]

/-- What the statements without a check, or with one that leaves roles out, need: a worker that
registers or renews its lease is counted already, an ended request is not opened again for workers
that never connected, a node becomes an active sampler when its pool or placement is one, and
resumed workers are no samplers; or else there is room. -/
def Fits (s : ControlPlane) : ControlEvent → Prop
  | .announceNode nodeName nodeUuid => Room s (s.uncounted nodeName nodeUuid)
  | .setRequestState id state => state.isOpen = false ∨ Room s (s.nodes.filter fun n =>
      !s.counted n && s.requests.any fun r => r.id == id && r.awaits n)
  | .setCurrentAssignment nodeUuid target =>
    let cleared := s.clearExpiredAssignments
    let rows := cleared.nodes.filter fun n => cleared.liveUuid nodeUuid n && !n.sampler
    target.role ≠ .samplerAggregator ∨ rows = [] ∨
      cleared.connections + extraSamplerConnections * rows.length ≤ cleared.allowance
  | .enqueueResumedWorkers => (∀ n ∈ s.nodes, s.resumable n → n.sampler = false) ∨
      Room s (s.nodes.filter s.resumable)
  | _ => True

/-! ## Statements -/

/-- The keys of nodes and launch requests. -/
structure Numbered (s : ControlPlane) : Prop where
  clock : 0 ≤ s.now
  names : (s.nodes.map (·.name)).Nodup
  launches : ∀ n ∈ s.nodes, ∀ id, n.launchRequestId = some id → id < s.nextRequestId
  requests : ∀ r ∈ s.requests, r.id < s.nextRequestId

structure Budgeted (s : ControlPlane) : Prop where
  numbered : Numbered s
  within : s.connections ≤ s.allowance

theorem names_updateNodes {p : ControlNode → Bool} {f : ControlNode → ControlNode}
    (hname : ∀ n, (f n).name = n.name) :
    (s.updateNodes p f).nodes.map (·.name) = s.nodes.map (·.name) := by
  refine List.map_map.trans (List.map_congr_left fun n _ => ?_)
  by_cases hp : p n = true
  · simp [hp, hname]
  · simp [hp]

/-- An update counts no more when no row costs more. -/
theorem connections_updateNodes_le {p : ControlNode → Bool} {f : ControlNode → ControlNode}
    (h : ∀ n ∈ s.nodes, p n = true → s.held (f n) ≤ s.held n) :
    (s.updateNodes p f).connections ≤ s.connections := by
  unfold connections updateNodes
  dsimp only
  rw [List.map_map]
  refine List.sum_le_sum fun n hn => ?_
  dsimp only [Function.comp_apply]
  split
  · rename_i hp
    exact h n hn hp
  · exact le_refl _

/-- Rows that cost more do so by what is allowed for them. -/
theorem sum_le_add_filter {nodes : List ControlNode} {g h c : ControlNode → Int}
    {q : ControlNode → Bool} (hle : ∀ n ∈ nodes, g n ≤ h n + if q n then c n else 0) :
    (nodes.map g).sum ≤ (nodes.map h).sum + ((nodes.filter q).map c).sum := by
  induction nodes with
  | nil => simp
  | cons n nodes ih =>
    have hn := hle n List.mem_cons_self
    have hih := ih fun m hm => hle m (List.mem_cons_of_mem _ hm)
    rw [List.map_cons, List.sum_cons, List.map_cons, List.sum_cons, List.filter_cons]
    split
    · rename_i hq
      rw [if_pos hq] at hn
      rw [List.map_cons, List.sum_cons]
      omega
    · rename_i hq
      rw [if_neg hq] at hn
      omega

/-- An update counts at most the rows more that were not counted before. -/
theorem connections_updateNodes_add {p : ControlNode → Bool} {f : ControlNode → ControlNode}
    (h : ∀ n ∈ s.nodes, p n = true → s.counted n = true → s.held (f n) ≤ s.held n) :
    (s.updateNodes p f).connections ≤ s.connections +
      (((s.nodes.filter fun n => p n && !s.counted n).map f).map connectionsOf).sum := by
  have hsum : (s.updateNodes p f).connections =
      (s.nodes.map fun n => s.held (if p n then f n else n)).sum := congrArg List.sum List.map_map
  rw [hsum, List.map_map]
  refine sum_le_add_filter fun n hn => ?_
  by_cases hp : p n = true
  · by_cases hc : s.counted n = true
    · simpa [hp, hc] using h n hn hp hc
    · have := s.held_nonneg n
      have := s.held_le_connectionsOf (f n)
      simp only [Bool.not_eq_true] at hc
      simp only [hp, hc, if_true, Bool.not_false, Bool.and_self, Function.comp_apply]
      omega
  · simp [hp]

theorem map_filter_congr {nodes : List ControlNode} {p q : ControlNode → Bool}
    {f g : ControlNode → ControlNode} (hpq : ∀ n ∈ nodes, p n = q n)
    (hfg : ∀ n ∈ nodes, p n = true → f n = g n) :
    (nodes.filter p).map f = (nodes.filter q).map g := by
  rw [← List.filter_congr hpq]
  refine List.map_congr_left fun n hn => ?_
  exact hfg n (List.mem_filter.1 hn).1 (List.mem_filter.1 hn).2

theorem Numbered.updateNodes (h : Numbered s) {p : ControlNode → Bool}
    {f : ControlNode → ControlNode} (hname : ∀ n, (f n).name = n.name)
    (hlaunch : ∀ n, (f n).launchRequestId = n.launchRequestId) : Numbered (s.updateNodes p f) where
  clock := h.clock
  names := by
    rw [names_updateNodes hname]
    exact h.names
  launches := by
    intro n hn id hid
    obtain ⟨m, hm, rfl⟩ := List.mem_map.1 hn
    refine h.launches m hm id ?_
    split at hid
    · rw [← hlaunch, hid]
    · exact hid
  requests := h.requests

/-- A statement under which no row costs more. -/
theorem Budgeted.keep (h : Budgeted s) {p : ControlNode → Bool} {f : ControlNode → ControlNode}
    (hname : ∀ n, (f n).name = n.name) (hlaunch : ∀ n, (f n).launchRequestId = n.launchRequestId)
    (hheld : ∀ n ∈ s.nodes, p n = true → s.held (f n) ≤ s.held n) :
    Budgeted (s.updateNodes p f) :=
  ⟨h.numbered.updateNodes hname hlaunch, (connections_updateNodes_le hheld).trans h.within⟩

theorem held_dropped {n n' : ControlNode} (hcounted : s.counted n' = s.counted n)
    (hpool : n'.pool = n.pool ∨ n'.pool = none)
    (hdesired : n'.desired = n.desired ∨ n'.desired = none ∨ n'.desired = n.pool)
    (hactive : n'.active = n.active ∨ n'.active = none) : s.held n' ≤ s.held n :=
  held_le (fun h => hcounted ▸ h) (sampler_of_kept hpool hdesired hactive)

theorem Budgeted.clearExpiredAssignments (h : Budgeted s) : Budgeted s.clearExpiredAssignments := by
  refine h.keep (fun n => ?_) (fun n => ?_) fun n _ _ => ?_
  · split <;> rfl
  · split <;> rfl
  · split
    · exact held_dropped rfl (.inl rfl) (.inl rfl) (.inr rfl)
    · exact held_dropped rfl (.inr rfl) (.inr (.inl rfl)) (.inr rfl)

theorem Budgeted.withoutPlacement (h : Budgeted s) (p : ControlNode → Bool) :
    Budgeted (s.updateNodes p withoutPlacement) :=
  h.keep (fun _ => rfl) (fun _ => rfl) fun _ _ _ =>
    held_dropped rfl (.inr rfl) (.inr (.inl rfl)) (.inl rfl)

theorem Budgeted.shutDown (h : Budgeted s) (p : ControlNode → Bool) :
    Budgeted (s.updateNodes p shutDown) :=
  h.keep (fun _ => rfl) (fun _ => rfl) fun _ _ _ =>
    held_dropped rfl (.inr rfl) (.inr (.inl rfl)) (.inl rfl)

/-- Samplers are assigned under the check, and evaluators cost nothing more. -/
theorem Budgeted.assignWorkerPool (h : Budgeted s) (nodeName : String) (role : WorkerRole)
    (runId : Int) : Budgeted (s.committed ((s.assignWorkerPool nodeName role runId).map (·.2))) := by
  have hcleared := h.clearExpiredAssignments
  unfold ControlPlane.assignWorkerPool
  dsimp only
  split
  · exact h
  · rename_i root hroot
    split
    · exact h
    · split
      · cases hcheck : checkWorkerConnectionBudget
            (s.clearExpiredAssignments.assignPool nodeName ⟨role, root⟩) 0 with
        | error e => exact h
        | ok _ =>
          exact ⟨hcleared.numbered.updateNodes (fun _ => rfl) (fun _ => rfl), within_of_check hcheck⟩
      · rename_i hrole
        refine hcleared.keep (fun _ => rfl) (fun _ => rfl) fun n _ _ =>
          held_le (fun hc => hc) fun hs => ?_
        have hev : role = .evaluator := by
          cases role with
          | evaluator => rfl
          | samplerAggregator => exact absurd rfl hrole
        subst hev
        rw [sampler_iff] at hs ⊢
        rcases hs with hs | hs | hs
        · cases hs
        · dsimp only at hs
          split at hs <;> cases hs
        · exact .inr (.inr hs)

theorem Numbered.setDesired (h : Numbered s) (updates : List NodeAssignmentUpdate) :
    Numbered (updates.foldl ControlPlane.setDesired s) := by
  induction updates generalizing s with
  | nil => exact h
  | cons u updates ih => exact ih (h.updateNodes (fun _ => rfl) fun _ => rfl)

/-- Placements of evaluators cost nothing more. -/
theorem Budgeted.setDesired (h : Budgeted s) (updates : List NodeAssignmentUpdate)
    (hev : (updates.any fun u => u.desired.any (·.role == .samplerAggregator)) = false) :
    Budgeted (updates.foldl ControlPlane.setDesired s) := by
  induction updates generalizing s with
  | nil => exact h
  | cons u updates ih =>
    rw [List.any_cons, Bool.or_eq_false_iff] at hev
    refine ih (h.keep (fun _ => rfl) (fun _ => rfl) fun n _ _ =>
      held_le (fun hc => hc) fun hs => ?_) hev.2
    rw [sampler_iff] at hs ⊢
    rcases hs with hs | hs | hs
    · exact .inl hs
    · rw [hev.1] at hs
      cases hs
    · exact .inr (.inr hs)

theorem Budgeted.updateDesiredAssignments (h : Budgeted s) (updates : List NodeAssignmentUpdate) :
    Budgeted (s.committed ((s.updateDesiredAssignments updates).map (·.2))) := by
  have hcleared := h.clearExpiredAssignments
  unfold ControlPlane.updateDesiredAssignments
  split
  · exact h
  · dsimp only
    split
    · exact h
    · split
      · exact h
      · split
        · cases hcheck : checkWorkerConnectionBudget
              (updates.foldl ControlPlane.setDesired s.clearExpiredAssignments) 0 with
          | error e => exact h
          | ok _ => exact ⟨hcleared.numbered.setDesired updates, within_of_check hcheck⟩
        · rename_i hev
          exact hcleared.setDesired updates (by simpa using hev)

theorem sampler_map {role : Option AssignmentTarget} (f : AssignmentTarget → Int) :
    (role.map fun t => { t with runId := f t }).any (·.role == .samplerAggregator) =
      role.any (·.role == .samplerAggregator) := by
  cases role <;> rfl

theorem Budgeted.finishRunAssignments (h : Budgeted s) (runId : Int) (parentTaskActive : Bool) :
    Budgeted (s.finishRunAssignments runId parentTaskActive) := by
  unfold ControlPlane.finishRunAssignments
  dsimp only
  split
  · exact h.withoutPlacement _
  · split
    · exact h
    · rename_i parent _ _
      refine h.keep (fun _ => rfl) (fun _ => rfl) fun n _ _ => held_le (fun hc => hc) fun hs => ?_
      rw [sampler_iff] at hs ⊢
      rwa [sampler_map fun _ => parent] at hs

theorem without_eq {runs : List Int} {placement : Option AssignmentTarget} :
    without runs placement = placement ∨ without runs placement = none := by
  unfold without
  split
  · exact .inr rfl
  · exact .inl rfl

theorem Budgeted.removeRun (h : Budgeted s) (runId : Int) : Budgeted (s.removeRun runId) := by
  have hcleared := h.keep (s := s)
    (p := fun n => among (s.runTree runId) n.pool || among (s.runTree runId) n.desired ||
      among (s.runTree runId) n.active)
    (f := fun n => { n with
      pool := without (s.runTree runId) n.pool
      desired := without (s.runTree runId) n.desired
      active := without (s.runTree runId) n.active })
    (fun _ => rfl) (fun _ => rfl) fun n _ _ =>
      held_dropped rfl without_eq (without_eq.imp_right .inl) without_eq
  exact ⟨⟨hcleared.numbered.clock, hcleared.numbered.names, hcleared.numbered.launches,
    hcleared.numbered.requests⟩, hcleared.within⟩

/-! ## Registrations and launches -/

/-- Rows that are inserted cost at most what workers with their roles cost. -/
theorem connections_insert (rows : List ControlNode) :
    ({ s with nodes := s.nodes ++ rows } : ControlPlane).connections ≤
      s.connections + (rows.map connectionsOf).sum := by
  unfold connections
  dsimp only
  rw [List.map_append, List.sum_append]
  refine Int.add_le_add_left (List.sum_le_sum fun n _ => ?_) _
  exact s.held_le_connectionsOf n

theorem insertNodes_ok {rows : List ControlNode} (h : s.insertNodes rows = .ok s') :
    s' = { s with nodes := s.nodes ++ rows } ∧ ((s.nodes ++ rows).map (·.name)).Nodup := by
  unfold insertNodes at h
  split at h
  · cases h
    exact ⟨rfl, ‹_›⟩
  · cases h

theorem Room.le {rows : List ControlNode} (h : Room s rows) (hwithin : s.connections ≤ s.allowance) :
    s.connections + (rows.map connectionsOf).sum ≤ s.allowance := by
  rcases h with rfl | h
  · simpa using hwithin
  · exact h

theorem Numbered.name_eq (h : Numbered s) {n m : ControlNode} (hn : n ∈ s.nodes) (hm : m ∈ s.nodes)
    (hname : n.name = m.name) : n = m := List.inj_on_of_nodup_map h.names hn hm hname

/-- A row that was counted costs no more with the roles it had. -/
theorem held_of_counted {n n' : ControlNode} (hc : s.counted n = true)
    (hsampler : n'.sampler = true → n.sampler = true) : s'.held n' ≤ s.held n := by
  refine (s'.held_le_connectionsOf n').trans ((connectionsOf_le hsampler).trans ?_)
  rw [held, if_pos hc]

theorem takenOver_keys (nodeUuid : String) (n : ControlNode) :
    (s.takenOver nodeUuid n).name = n.name ∧
      (s.takenOver nodeUuid n).launchRequestId = n.launchRequestId := by
  unfold takenOver
  split <;> exact ⟨rfl, rfl⟩

theorem sampler_takenOver {nodeUuid : String} {n : ControlNode}
    (h : (s.takenOver nodeUuid n).sampler = true) : n.sampler = true := by
  have hpool : (s.takenOver nodeUuid n).pool = n.pool ∨ (s.takenOver nodeUuid n).pool = none := by
    unfold takenOver
    split
    · exact .inl rfl
    · exact .inr rfl
  have hdesired : (s.takenOver nodeUuid n).desired = n.desired ∨
      (s.takenOver nodeUuid n).desired = none := by
    unfold takenOver
    split
    · exact .inl rfl
    · exact .inr rfl
  exact sampler_of_kept hpool (hdesired.imp_right .inl) (.inr rfl) h

/-- The rows a registration takes, for the statement that takes them. -/
theorem uncounted_eq {nodeName nodeUuid : String} {p : ControlNode → Bool}
    {f : ControlNode → ControlNode} (hany : s.nodes.any (·.name == nodeName) = true)
    (hp : ∀ n ∈ s.nodes, n.name = nodeName → (p n = true ↔ n.uuid = nodeUuid ∨ s.live n = false))
    (hf : ∀ n ∈ s.nodes, n.name = nodeName → p n = true → f n = s.registered nodeUuid n) :
    ((s.nodes.filter fun n => (n.name == nodeName && p n) && !s.counted n).map f) =
      s.uncounted nodeName nodeUuid := by
  unfold uncounted
  rw [if_pos hany]
  refine map_filter_congr (fun n hn => ?_) fun n hn hkeys => ?_
  · by_cases hname : n.name = nodeName
    · have hpn : p n = (n.uuid == nodeUuid || !s.live n) := by
        rw [Bool.eq_iff_iff, hp n hn hname]
        simp
      rw [hpn]
    · rw [beq_eq_false_iff_ne.2 hname]
      rfl
  · rw [Bool.and_eq_true, Bool.and_eq_true, beq_iff_eq] at hkeys
    exact hf n hn hkeys.1.1 hkeys.1.2

/-- An update after which more rows are live, with room for them. -/
theorem Budgeted.revive (h : Budgeted s) {p : ControlNode → Bool} {f : ControlNode → ControlNode}
    (hname : ∀ n, (f n).name = n.name) (hlaunch : ∀ n, (f n).launchRequestId = n.launchRequestId)
    (hsampler : ∀ n, (f n).sampler = true → n.sampler = true)
    (hroom : s.connections + (((s.nodes.filter fun n => p n && !s.counted n).map f).map
      connectionsOf).sum ≤ s.allowance) : Budgeted (s.updateNodes p f) :=
  ⟨h.numbered.updateNodes hname hlaunch,
    (connections_updateNodes_add fun n _ _ hc => held_of_counted hc (hsampler n)).trans hroom⟩

theorem Budgeted.announceNode (h : Budgeted s) {nodeName nodeUuid : String}
    (hfits : Fits s (.announceNode nodeName nodeUuid)) :
    Budgeted (s.committed (s.announceNode nodeName nodeUuid)) := by
  have hroom := Room.le hfits h.within
  have hany : ∀ n ∈ s.nodes, n.name = nodeName → s.nodes.any (·.name == nodeName) = true :=
    fun n hn hname => List.any_eq_true.2 ⟨n, hn, beq_iff_eq.2 hname⟩
  unfold ControlPlane.announceNode
  split
  · rename_i hrenew
    obtain ⟨m, hm, hmkeys⟩ := List.any_eq_true.1 hrenew
    simp only [Bool.and_eq_true, beq_iff_eq] at hmkeys
    -- the row of the name is the one of the uuid
    have huuid : ∀ n ∈ s.nodes, n.name = nodeName → n.uuid = nodeUuid := by
      intro n hn hname
      rw [h.numbered.name_eq hn hm (hname.trans hmkeys.1.symm), hmkeys.2]
    refine h.revive (fun _ => rfl) (fun _ => rfl) (fun _ hs => hs) ?_
    rw [uncounted_eq (hany m hm hmkeys.1) (fun n hn hname => by simp [huuid n hn hname])
      fun n hn hname _ => (if_pos (huuid n hn hname)).symm]
    exact hroom
  · rename_i hrenew
    split
    · rename_i hname
      split
      · have huuid : ∀ n ∈ s.nodes, n.name = nodeName → n.uuid ≠ nodeUuid := by
          intro n hn hname huuid
          exact hrenew (List.any_eq_true.2 ⟨n, hn, by simp [hname, huuid]⟩)
        refine h.revive (fun n => (takenOver_keys nodeUuid n).1)
          (fun n => (takenOver_keys nodeUuid n).2) (fun _ => sampler_takenOver) ?_
        rw [uncounted_eq hname (fun n hn hname => by simp [huuid n hn hname])
          fun n hn hname _ => (if_neg (huuid n hn hname)).symm]
        exact hroom
      · exact h
    · rename_i hname
      unfold uncounted at hroom
      rw [if_neg hname] at hroom
      cases hins : s.insertNodes [s.renewed { reservedRow nodeName with uuid := nodeUuid }] with
      | error e => exact h
      | ok s' =>
        obtain ⟨rfl, hnames⟩ := insertNodes_ok hins
        refine ⟨⟨h.numbered.clock, hnames, fun n hn id hid => ?_, h.numbered.requests⟩,
          (connections_insert _).trans hroom⟩
        rcases List.mem_append.1 hn with hn | hn
        · exact h.numbered.launches n hn id hid
        · rw [List.mem_singleton.1 hn] at hid
          cases hid

/-- A live row that becomes active costs the extra connections if it was no sampler. -/
theorem held_active {n : ControlNode} (hlive : s.live n = true) (target : AssignmentTarget) :
    s.held { n with active := some target } ≤
      s.held n + if !n.sampler then extraSamplerConnections else 0 := by
  have hc : s.counted n = true := by simp [counted, hlive]
  have hc' : s.counted { n with active := some target } = true := hc
  unfold held
  rw [if_pos hc, if_pos hc']
  unfold connectionsOf extraSamplerConnections maxSamplerDbConnections maxEvaluatorDbConnections
  cases n.sampler <;> split <;> simp_all

/-- An evaluator costs nothing more. -/
theorem held_evaluator {n : ControlNode} {target : AssignmentTarget}
    (hrole : target.role ≠ .samplerAggregator) :
    s.held { n with active := some target } ≤ s.held n := by
  refine held_le (fun hc => hc) fun hs => ?_
  rw [sampler_iff] at hs ⊢
  rcases hs with hs | hs | hs
  · exact .inl hs
  · exact .inr (.inl hs)
  · exact absurd (beq_iff_eq.1 hs) hrole

theorem connections_setActive (nodeUuid : String) (target : AssignmentTarget) :
    (s.updateNodes (s.liveUuid nodeUuid) fun n => { n with active := some target }).connections ≤
      s.connections + extraSamplerConnections *
        (s.nodes.filter fun n => s.liveUuid nodeUuid n && !n.sampler).length := by
  have hsum : (s.updateNodes (s.liveUuid nodeUuid) fun n => { n with active := some target }
      ).connections = (s.nodes.map fun n => s.held
        (if s.liveUuid nodeUuid n then { n with active := some target } else n)).sum :=
    congrArg List.sum List.map_map
  have hextra : ∀ rows : List ControlNode,
      (rows.map fun _ => extraSamplerConnections).sum = extraSamplerConnections * rows.length := by
    intro rows
    rw [List.map_const', List.sum_replicate, nsmul_eq_mul, mul_comm]
  rw [hsum, ← hextra]
  refine @sum_le_add_filter s.nodes _ s.held _ _ fun n _ => ?_
  by_cases hlive : s.liveUuid nodeUuid n = true
  · rw [if_pos hlive]
    have hl : s.live n = true := by
      unfold liveUuid at hlive
      rw [Bool.and_eq_true] at hlive
      exact hlive.2
    rw [hlive, Bool.true_and]
    exact held_active hl target
  · rw [if_neg hlive]
    have hfalse : (s.liveUuid nodeUuid n && !n.sampler) = false := by
      rw [Bool.not_eq_true] at hlive
      rw [hlive, Bool.false_and]
    rw [hfalse]
    simp

theorem Budgeted.setCurrentAssignment (h : Budgeted s) {nodeUuid : String}
    {target : AssignmentTarget} (hfits : Fits s (.setCurrentAssignment nodeUuid target)) :
    Budgeted (s.setCurrentAssignment nodeUuid target).2 := by
  have hcleared := h.clearExpiredAssignments
  have hupdated : (s.clearExpiredAssignments.updateNodes
      (s.clearExpiredAssignments.liveUuid nodeUuid) fun n => { n with active := some target }
      ).connections ≤ s.clearExpiredAssignments.allowance := by
    rcases hfits with hrole | hnil | hroom
    · exact (connections_updateNodes_le fun n _ _ => held_evaluator hrole).trans hcleared.within
    · refine (connections_setActive nodeUuid target).trans ?_
      rw [hnil]
      simpa using hcleared.within
    · exact (connections_setActive nodeUuid target).trans hroom
  unfold ControlPlane.setCurrentAssignment
  dsimp only
  split
  · exact hcleared
  · split
    · exact hcleared
    · split
      · exact ⟨hcleared.numbered.updateNodes (fun _ => rfl) fun _ => rfl, hupdated⟩
      · exact hcleared

/-- Time and the end of a lease count no row that was not counted. -/
theorem counted_of_later {n n' : ControlNode} (hrequests : s'.requests = s.requests)
    (hlive : s'.live n' = true → s.live n = true) (hname : n'.name = n.name)
    (hseen : n'.lastSeen = n.lastSeen) (hlaunch : n'.launchRequestId = n.launchRequestId)
    (h : s'.counted n' = true) : s.counted n = true := by
  unfold counted at h ⊢
  cases hl : s.live n with
  | true => rfl
  | false =>
    have hl' : s'.live n' = false := by
      rw [← Bool.not_eq_true]
      intro ht
      rw [hlive ht] at hl
      cases hl
    have hawaits : ∀ r : LaunchReservation, r.awaits n' = r.awaits n := by
      intro r
      unfold LaunchReservation.awaits
      rw [hname, hseen, hlaunch]
    rw [hl', Bool.false_or] at h
    rw [Bool.false_or]
    unfold reserved at h ⊢
    rw [hl', hrequests] at h
    rw [hl]
    simpa only [hawaits] using h

theorem Budgeted.tick (h : Budgeted s) (elapsed : Nat) :
    Budgeted { s with now := s.now + elapsed } where
  numbered := by
    refine ⟨?_, h.numbered.names, h.numbered.launches, h.numbered.requests⟩
    have := h.numbered.clock
    dsimp only
    omega
  within := by
    refine le_trans (List.sum_le_sum fun n _ => ?_) h.within
    refine held_le (counted_of_later rfl (fun hl => ?_) rfl rfl rfl) fun hs => hs
    simp only [live, decide_eq_true_eq] at hl ⊢
    omega

theorem Budgeted.expireNodeLease (h : Budgeted s) (nodeUuid : String) :
    Budgeted (s.expireNodeLease nodeUuid) := by
  refine h.keep (fun n => ?_) (fun n => ?_) fun n _ _ => ?_
  · dsimp only
    split <;> rfl
  · dsimp only
    split <;> rfl
  · have hdead : ∀ m : ControlNode, m.leaseExpiresAt = s.now → s.live m = true → s.live n = true := by
      intro m hm hl
      unfold live at hl
      rw [hm] at hl
      simp at hl
    dsimp only
    split
    · exact held_le (counted_of_later rfl (hdead _ rfl) rfl rfl rfl)
        (sampler_of_kept (.inl rfl) (.inl rfl) (.inr rfl))
    · exact held_le (counted_of_later rfl (hdead _ rfl) rfl rfl rfl)
        (sampler_of_kept (.inr rfl) (.inr (.inl rfl)) (.inr rfl))

theorem Budgeted.requestNodeShutdown (h : Budgeted s) (nodeName : String) :
    Budgeted (s.requestNodeShutdown nodeName) := by
  unfold ControlPlane.requestNodeShutdown
  split
  · exact h.shutDown _
  · rename_i hnone
    have hzero : s.held { reservedRow nodeName with shutdownRequested := true } = 0 := by
      have hlive : s.live { reservedRow nodeName with shutdownRequested := true } = false :=
        decide_eq_false (not_lt.2 h.numbered.clock)
      refine if_neg ?_
      rw [counted, hlive, reserved, hlive, Bool.false_or, Bool.not_false, Bool.true_and,
        Bool.not_eq_true, List.any_eq_false]
      intro r _
      simp [LaunchReservation.awaits, reservedRow]
    refine ⟨⟨h.numbered.clock, ?_, fun n hn id hid => ?_, h.numbered.requests⟩, ?_⟩
    · rw [List.map_append, List.nodup_append]
      refine ⟨h.numbered.names, List.nodup_singleton _, fun a ha b hb => ?_⟩
      obtain ⟨n, hn, rfl⟩ := List.mem_map.1 ha
      rw [List.map_singleton, List.mem_singleton] at hb
      rintro rfl
      exact hnone (List.any_eq_true.2 ⟨n, hn, beq_iff_eq.2 hb⟩)
    · rcases List.mem_append.1 hn with hn | hn
      · exact h.numbered.launches n hn id hid
      · rw [List.mem_singleton.1 hn] at hid
        cases hid
    · refine le_of_eq_of_le ?_ h.within
      unfold connections
      dsimp only
      rw [List.map_append, List.sum_append, List.map_singleton, List.sum_singleton]
      exact (congrArg (_ + ·) hzero).trans (add_zero _)

/-- A request nobody belongs to yet reserves nothing. -/
theorem held_insertRequest (h : Numbered s) {n : ControlNode} (hn : n ∈ s.nodes) :
    s.insertRequest.held n = s.held n := by
  have hcounted : s.insertRequest.counted n = s.counted n := by
    unfold counted reserved
    have hlive : s.insertRequest.live n = s.live n := rfl
    rw [hlive]
    unfold insertRequest
    dsimp only
    rw [List.any_append]
    have hnew : (n.launchRequestId == some s.nextRequestId) = false := by
      rw [beq_eq_false_iff_ne]
      intro hid
      exact absurd (h.launches n hn _ hid) (lt_irrefl _)
    simp [LaunchReservation.awaits, hnew]
  unfold held
  rw [hcounted]

theorem connections_insertRequest (h : Numbered s) : s.insertRequest.connections = s.connections :=
  congrArg List.sum (List.map_congr_left fun _ hn => held_insertRequest h hn)

theorem Numbered.insertRequest (h : Numbered s) : Numbered s.insertRequest where
  clock := h.clock
  names := h.names
  launches := fun n hn id hid => (h.launches n hn id hid).trans (Nat.lt_succ_self _)
  requests := by
    intro r hr
    rcases List.mem_append.1 hr with hr | hr
    · exact (h.requests r hr).trans (Nat.lt_succ_self _)
    · rw [List.mem_singleton.1 hr]
      exact Nat.lt_succ_self _

theorem length_groupNames (groups : List (String × Nat)) (taken : List String) :
    ((groupNames groups taken).length : Int) ≤ (groups.map fun group => (group.2 : Int)).sum := by
  induction groups generalizing taken with
  | nil => simp [groupNames]
  | cons group groups ih =>
    have hih := ih (freshNames group.1 group.2 taken ++ taken)
    have hfresh : (freshNames group.1 group.2 taken).length ≤ group.2 := List.length_take_le _ _
    rw [groupNames, List.length_append, List.map_cons, List.sum_cons]
    push_cast at hih ⊢
    omega

theorem Budgeted.reserveWorkerLaunch (h : Budgeted s) (groups : List (String × Nat)) :
    Budgeted (s.committed (s.reserveWorkerLaunch groups)) := by
  unfold ControlPlane.reserveWorkerLaunch
  split
  · exact h
  · cases hcheck : s.checkWorkerConnectionBudget (groups.map (·.2)).sum with
    | error e => exact h
    | ok _ =>
      cases hins : s.insertRequest.insertNodes
          ((groupNames groups (s.nodes.map (·.name))).map fun name =>
            { reservedRow name with launchGroup := true, launchRequestId := some s.nextRequestId }) with
      | error e => exact h
      | ok s' =>
        obtain ⟨rfl, hnames⟩ := insertNodes_ok hins
        have hnumbered := h.numbered.insertRequest
        refine ⟨⟨hnumbered.clock, hnames, fun n hn id hid => ?_, hnumbered.requests⟩, ?_⟩
        · rcases List.mem_append.1 hn with hn | hn
          · exact hnumbered.launches n hn id hid
          · obtain ⟨name, -, rfl⟩ := List.mem_map.1 hn
            cases hid
            exact Nat.lt_succ_self _
        · have hlength := length_groupNames groups (s.nodes.map (·.name))
          have hroom := connections_le_of_check (by omega) hcheck
          refine (connections_insert _).trans (le_trans ?_ hroom)
          rw [connections_insertRequest h.numbered, List.map_map]
          refine Int.add_le_add_left ?_ _
          have hcost : ∀ names : List String, (names.map (connectionsOf ∘ fun name =>
              { reservedRow name with
                launchGroup := true, launchRequestId := some s.nextRequestId })).sum =
              connectionsPerWorker * names.length := by
            intro names
            induction names with
            | nil => simp
            | cons name names ih =>
              rw [List.map_cons, List.sum_cons, ih, List.length_cons]
              have : connectionsOf { reservedRow name with
                  launchGroup := true, launchRequestId := some s.nextRequestId } =
                  connectionsPerWorker := add_zero _
              rw [Function.comp_apply, this]
              push_cast
              ring
          rw [hcost]
          unfold connectionsPerWorker maxEvaluatorDbConnections
          omega

/-- A request that ends, or whose worker is lost, reserves no more. -/
theorem held_requests {requests : List LaunchReservation} {n : ControlNode}
    (h : ∀ r' ∈ requests, r'.state.isOpen = true → r'.awaits n = true →
      ∃ r ∈ s.requests, r.state.isOpen = true ∧ r.awaits n = true) :
    ({ s with requests := requests } : ControlPlane).held n ≤ s.held n := by
  refine held_le (fun hc => ?_) fun hs => hs
  unfold counted at hc ⊢
  rw [Bool.or_eq_true] at hc ⊢
  refine hc.imp_right fun hreserved => ?_
  unfold reserved at hreserved ⊢
  rw [Bool.and_eq_true] at hreserved ⊢
  refine ⟨hreserved.1, ?_⟩
  obtain ⟨r', hr', hopen⟩ := List.any_eq_true.1 hreserved.2
  rw [Bool.and_eq_true] at hopen
  obtain ⟨r, hr, hr'⟩ := h r' hr' hopen.1 hopen.2
  exact List.any_eq_true.2 ⟨r, hr, Bool.and_eq_true .. ▸ hr'⟩

theorem Budgeted.loseWorker (h : Budgeted s) (id : Nat) (nodeName : String) :
    Budgeted (s.loseWorker id nodeName) where
  numbered := by
    refine ⟨h.numbered.clock, h.numbered.names, h.numbered.launches, fun r hr => ?_⟩
    obtain ⟨q, hq, rfl⟩ := List.mem_map.1 hr
    have := h.numbered.requests q hq
    split <;> exact this
  within := by
    refine le_trans (List.sum_le_sum fun n _ => held_requests ?_) h.within
    intro r' hr' hopen hawaits
    obtain ⟨r, hr, rfl⟩ := List.mem_map.1 hr'
    refine ⟨r, hr, ?_⟩
    by_cases hid : r.id = id
    · rw [if_pos hid] at hopen hawaits
      refine ⟨hopen, ?_⟩
      simp only [LaunchReservation.awaits, Bool.and_eq_true, Bool.not_eq_true',
        List.contains_eq_mem, decide_eq_false_iff_not, List.mem_cons, not_or] at hawaits ⊢
      exact ⟨hawaits.1, hawaits.2.2⟩
    · rw [if_neg hid] at hopen hawaits
      exact ⟨hopen, hawaits⟩

/-- A request given another state reserves for the workers it waits for. -/
theorem Budgeted.setRequestState (h : Budgeted s) {id : Nat} {state : LaunchRequestState}
    (hfits : Fits s (.setRequestState id state)) : Budgeted (s.setRequestState id state) where
  numbered := by
    refine ⟨h.numbered.clock, h.numbered.names, h.numbered.launches, fun r hr => ?_⟩
    obtain ⟨q, hq, rfl⟩ := List.mem_map.1 hr
    have := h.numbered.requests q hq
    split <;> exact this
  within := by
    have hawaits : ∀ (r : LaunchReservation) (n : ControlNode),
        ({ r with state := state } : LaunchReservation).awaits n = r.awaits n := fun _ _ => rfl
    rcases hfits with hended | hroom
    · refine le_trans (List.sum_le_sum fun n _ => held_requests ?_) h.within
      intro r' hr' hopen hr'awaits
      obtain ⟨r, hr, rfl⟩ := List.mem_map.1 hr'
      refine ⟨r, hr, ?_⟩
      by_cases hid : r.id = id
      · rw [if_pos hid] at hopen
        rw [hended] at hopen
        cases hopen
      · rw [if_neg hid] at hopen hr'awaits
        exact ⟨hopen, hr'awaits⟩
    · refine le_trans ?_ (hroom.le h.within)
      refine sum_le_add_filter fun n hn => ?_
      split
      · have := s.held_nonneg n
        have := (s.setRequestState id state).held_le_connectionsOf n
        omega
      · rename_i hnot
        rw [add_zero]
        by_cases hc : s.counted n = true
        · exact held_of_counted hc fun hs => hs
        · refine held_requests fun r' hr' hopen hr'awaits => ?_
          obtain ⟨r, hr, rfl⟩ := List.mem_map.1 hr'
          refine ⟨r, hr, ?_⟩
          by_cases hid : r.id = id
          · rw [if_pos hid] at hr'awaits
            exact absurd (by
              simp only [Bool.not_eq_true] at hc
              simp only [hc, Bool.not_false, Bool.true_and, List.any_eq_true, Bool.and_eq_true,
                beq_iff_eq]
              exact ⟨r, hr, hid, hr'awaits⟩) hnot
          · rw [if_neg hid] at hopen hr'awaits
            exact ⟨hopen, hr'awaits⟩

/-! ## Resumed workers -/

/-- The connections of the workers of a name with their roles. -/
def costOf (s : ControlPlane) (nodeName : String) : Int :=
  ((s.nodes.filter (·.name == nodeName)).map connectionsOf).sum

theorem costOf_row (h : Numbered s) {n : ControlNode} (hn : n ∈ s.nodes) :
    s.costOf n.name = connectionsOf n := by
  have hnodup : s.nodes.Nodup := List.Nodup.of_map _ h.names
  have hfilter : s.nodes.filter (·.name == n.name) = [n] := by
    have hkey : s.nodes.filter (·.name == n.name) = s.nodes.filter (· == n) := by
      refine List.filter_congr fun m hm => ?_
      rw [Bool.eq_iff_iff, beq_iff_eq, beq_iff_eq]
      exact ⟨fun hname => h.name_eq hm hn hname, fun heq => heq ▸ rfl⟩
    rw [hkey, List.filter_beq, List.count_eq_one_of_mem hnodup hn]
    rfl
  rw [costOf, hfilter, List.map_singleton, List.sum_singleton]

theorem costOf_enqueueResumed (nodeName other : String) :
    (s.enqueueResumed nodeName).costOf other = s.costOf other := by
  unfold costOf enqueueResumed updateNodes insertRequest
  dsimp only
  generalize s.nodes = nodes
  induction nodes with
  | nil => rfl
  | cons n nodes ih =>
    rw [List.map_cons, List.filter_cons, List.filter_cons]
    by_cases hname : (n.name == nodeName) = true
    · rw [if_pos hname]
      dsimp only
      split
      · rw [List.map_cons, List.sum_cons, List.map_cons, List.sum_cons, ih]
        rfl
      · exact ih
    · rw [if_neg hname]
      split
      · rw [List.map_cons, List.sum_cons, List.map_cons, List.sum_cons, ih]
      · exact ih

theorem Numbered.enqueueResumed (h : Numbered s) (nodeName : String) :
    Numbered (s.enqueueResumed nodeName) := by
  have hinserted := h.insertRequest
  refine ⟨h.clock, ?_, fun n hn id hid => ?_, hinserted.requests⟩
  · have hnames := names_updateNodes (s := s.insertRequest) (p := (·.name == nodeName))
      (f := fun n => { n with
        resumeRequested := false
        launchRequestId := some s.nextRequestId
        shutdownRequested := false }) fun _ => rfl
    exact hnames ▸ h.names
  · obtain ⟨m, hm, rfl⟩ := List.mem_map.1 hn
    by_cases hname : (m.name == nodeName) = true
    · rw [if_pos hname] at hid
      cases hid
      exact Nat.lt_succ_self _
    · rw [if_neg hname] at hid
      exact hinserted.launches m hm id hid

theorem connections_enqueueResumed (h : Numbered s) (nodeName : String) :
    (s.enqueueResumed nodeName).connections ≤ s.connections + s.costOf nodeName := by
  have hsum : (s.enqueueResumed nodeName).connections = (s.nodes.map fun n =>
      s.insertRequest.held (if n.name == nodeName then { n with
        resumeRequested := false
        launchRequestId := some s.nextRequestId
        shutdownRequested := false } else n)).sum := congrArg List.sum List.map_map
  rw [hsum]
  refine sum_le_add_filter fun n hn => ?_
  by_cases hname : (n.name == nodeName) = true
  · rw [if_pos hname, if_pos hname]
    have := s.held_nonneg n
    refine (s.insertRequest.held_le_connectionsOf _).trans ?_
    have hroles : connectionsOf { n with
        resumeRequested := false
        launchRequestId := some s.nextRequestId
        shutdownRequested := false } = connectionsOf n := rfl
    omega
  · rw [if_neg hname, if_neg hname, held_insertRequest h hn, add_zero]

theorem enqueueResumed_fold (names : List ControlNode) (h : Numbered s) :
    Numbered (names.foldl (fun s n => s.enqueueResumed n.name) s) ∧
    (names.foldl (fun s n => s.enqueueResumed n.name) s).allowance = s.allowance ∧
    (names.foldl (fun s n => s.enqueueResumed n.name) s).connections ≤
      s.connections + (names.map fun n => s.costOf n.name).sum := by
  induction names generalizing s with
  | nil => exact ⟨h, rfl, by simp⟩
  | cons n names ih =>
    obtain ⟨hnumbered, hallowance, hle⟩ := ih (h.enqueueResumed n.name)
    refine ⟨hnumbered, hallowance, hle.trans ?_⟩
    have hstep := connections_enqueueResumed h n.name
    simp only [costOf_enqueueResumed]
    rw [List.map_cons, List.sum_cons]
    omega

theorem Budgeted.enqueueResumedWorkers (h : Budgeted s) (hfits : Fits s .enqueueResumedWorkers) :
    Budgeted (s.committed s.enqueueResumedWorkers) := by
  unfold ControlPlane.enqueueResumedWorkers
  dsimp only
  split
  · exact h
  · cases hcheck : s.checkWorkerConnectionBudget (s.nodes.filter s.resumable).length with
    | error e => exact h
    | ok _ =>
      obtain ⟨hnumbered, hallowance, hle⟩ :=
        enqueueResumed_fold (s.nodes.filter s.resumable) h.numbered
      refine ⟨hnumbered, hle.trans (le_of_le_of_eq ?_ hallowance.symm)⟩
      have hcosts : ((s.nodes.filter s.resumable).map fun n => s.costOf n.name) =
          (s.nodes.filter s.resumable).map connectionsOf :=
        List.map_congr_left fun n hn => costOf_row h.numbered (List.mem_filter.1 hn).1
      rw [hcosts]
      rcases hfits with hsamplers | hroom
      · have hplain : ((s.nodes.filter s.resumable).map connectionsOf) =
            (s.nodes.filter s.resumable).map fun _ => connectionsPerWorker := by
          refine List.map_congr_left fun n hn => ?_
          obtain ⟨hn, hresumable⟩ := List.mem_filter.1 hn
          unfold connectionsOf
          rw [hsamplers n hn hresumable]
          exact add_zero _
        rw [hplain, List.map_const', List.sum_replicate, nsmul_eq_mul, mul_comm]
        exact connections_le_of_check (Int.natCast_nonneg _) hcheck
      · exact hroom.le h.within

/-! ## Runs -/

theorem Budgeted.step (h : Budgeted s) {e : ControlEvent} (hfits : Fits s e) :
    Budgeted (s.step e) := by
  cases e with
  | tick elapsed => exact h.tick elapsed
  | insertRun parentRunId runKind =>
    simp only [ControlPlane.step, ControlPlane.insertRun]
    split
    · exact ⟨⟨h.numbered.clock, h.numbered.names, h.numbered.launches, h.numbered.requests⟩,
        h.within⟩
    · exact h
  | removeRun runId => exact h.removeRun runId
  | assignWorkerPool nodeName role runId => exact h.assignWorkerPool nodeName role runId
  | updateDesiredAssignments updates => exact h.updateDesiredAssignments updates
  | clearDesiredAssignment nodeName => exact h.withoutPlacement _
  | clearDesiredAssignmentsForRun runId => exact h.withoutPlacement _
  | clearDesiredAssignmentsForRunExceptNode runId keepNodeName => exact h.withoutPlacement _
  | clearAllDesiredAssignments => exact h.withoutPlacement _
  | pauseWorkerPool runId =>
    exact h.keep (fun _ => rfl) (fun _ => rfl) fun _ _ _ =>
      held_dropped rfl (.inl rfl) (.inr (.inl rfl)) (.inl rfl)
  | resumeWorkerPool runId =>
    exact h.keep (fun _ => rfl) (fun _ => rfl) fun _ _ _ =>
      held_dropped rfl (.inl rfl) (.inr (.inr rfl)) (.inl rfl)
  | finishRunAssignments runId parentTaskActive => exact h.finishRunAssignments runId parentTaskActive
  | announceNode nodeName nodeUuid => exact h.announceNode hfits
  | setCurrentAssignment nodeUuid target => exact h.setCurrentAssignment hfits
  | clearCurrentAssignment nodeUuid =>
    exact h.keep (fun _ => rfl) (fun _ => rfl) fun _ _ _ =>
      held_dropped rfl (.inl rfl) (.inl rfl) (.inr rfl)
  | expireNodeLease nodeUuid => exact h.expireNodeLease nodeUuid
  | requestNodeShutdown nodeName => exact h.requestNodeShutdown nodeName
  | requestAllNodesShutdown => exact h.shutDown _
  | consumeNodeShutdownRequest nodeUuid =>
    exact h.keep (fun _ => rfl) (fun _ => rfl) fun _ _ _ =>
      held_dropped rfl (.inl rfl) (.inl rfl) (.inl rfl)
  | suspendWorkers =>
    exact h.keep (fun _ => rfl) (fun _ => rfl) fun _ _ _ =>
      held_dropped rfl (.inl rfl) (.inl rfl) (.inl rfl)
  | reserveWorkerLaunch groups => exact h.reserveWorkerLaunch groups
  | enqueueResumedWorkers => exact h.enqueueResumedWorkers hfits
  | setRequestState id state => exact h.setRequestState hfits
  | loseWorker id nodeName => exact h.loseWorker id nodeName

theorem budgeted_init (maxConnections reservedConnections : Int) :
    Budgeted (init maxConnections reservedConnections) where
  numbered := ⟨le_refl 0, List.nodup_nil, by simp [init], by simp [init]⟩
  within := le_max_right _ _

/-- The settings of the server. -/
def settings (s : ControlPlane) : Int × Int := (s.maxConnections, s.reservedConnections)

theorem settings_setDesired (updates : List NodeAssignmentUpdate) :
    (updates.foldl ControlPlane.setDesired s).settings = s.settings := by
  induction updates generalizing s with
  | nil => rfl
  | cons u updates ih => exact (ih (s := s.setDesired u)).trans rfl

theorem settings_enqueueResumed (names : List ControlNode) :
    (names.foldl (fun s n => s.enqueueResumed n.name) s).settings = s.settings := by
  induction names generalizing s with
  | nil => rfl
  | cons n names ih => exact (ih (s := s.enqueueResumed n.name)).trans rfl

theorem settings_insertNodes (s s' : ControlPlane) {rows : List ControlNode} :
    (s'.committed (s.insertNodes rows)).settings = s.settings ∨
      s'.committed (s.insertNodes rows) = s' := by
  unfold insertNodes
  split
  · exact .inl rfl
  · exact .inr rfl

theorem settings_updateDesiredAssignments (updates : List NodeAssignmentUpdate) :
    (s.committed ((s.updateDesiredAssignments updates).map (·.2))).settings = s.settings := by
  unfold ControlPlane.updateDesiredAssignments
  split
  · rfl
  · dsimp only
    split
    · rfl
    · split
      · rfl
      · have hupdated : (updates.foldl ControlPlane.setDesired s.clearExpiredAssignments).settings =
            s.settings := settings_setDesired updates
        split
        · cases checkWorkerConnectionBudget
              (updates.foldl ControlPlane.setDesired s.clearExpiredAssignments) 0 with
          | error e => rfl
          | ok _ => exact hupdated
        · exact hupdated

theorem settings_step (e : ControlEvent) : (s.step e).settings = s.settings := by
  cases e with
  | assignWorkerPool nodeName role runId =>
    simp only [ControlPlane.step, ControlPlane.assignWorkerPool]
    split
    · rfl
    · rename_i root hroot
      split
      · rfl
      · split
        · cases checkWorkerConnectionBudget
              (s.clearExpiredAssignments.assignPool nodeName ⟨role, root⟩) 0 with
          | error e => rfl
          | ok _ => rfl
        · rfl
  | updateDesiredAssignments updates => exact settings_updateDesiredAssignments updates
  | announceNode nodeName nodeUuid =>
    simp only [ControlPlane.step, ControlPlane.announceNode]
    split
    · rfl
    · split
      · split
        · rfl
        · rfl
      · rcases settings_insertNodes s s with h | h
        · exact h
        · rw [h]
  | setCurrentAssignment nodeUuid target =>
    simp only [ControlPlane.step, ControlPlane.setCurrentAssignment]
    split
    · rfl
    · split
      · rfl
      · split <;> rfl
  | finishRunAssignments runId parentTaskActive =>
    simp only [ControlPlane.step, ControlPlane.finishRunAssignments]
    split
    · rfl
    · split <;> rfl
  | insertRun parentRunId runKind =>
    simp only [ControlPlane.step, ControlPlane.insertRun]
    split <;> rfl
  | requestNodeShutdown nodeName =>
    simp only [ControlPlane.step, ControlPlane.requestNodeShutdown]
    split <;> rfl
  | reserveWorkerLaunch groups =>
    simp only [ControlPlane.step, ControlPlane.reserveWorkerLaunch]
    split
    · rfl
    · cases s.checkWorkerConnectionBudget (groups.map (·.2)).sum with
      | error e => rfl
      | ok _ =>
        rcases settings_insertNodes s.insertRequest s with h | h
        · exact h
        · exact congrArg settings h
  | enqueueResumedWorkers =>
    simp only [ControlPlane.step, ControlPlane.enqueueResumedWorkers]
    split
    · rfl
    · cases s.checkWorkerConnectionBudget (s.nodes.filter s.resumable).length with
      | error e => rfl
      | ok _ => exact settings_enqueueResumed _
  | _ => rfl

theorem settings_run (es : List ControlEvent) : (run step s es).settings = s.settings :=
  run_invariant' (I := fun s' : ControlPlane => s'.settings = s.settings)
    (fun _ e h => (settings_step e).trans h) es rfl

/-- The connections of the live workers, of the reserved launches and of their samplers stay within
what the server has for workers, in every history whose statements meet `Fits`. -/
theorem connections_within_budget {maxConnections reservedConnections : Int}
    {es : List ControlEvent} (h : Along step Fits (init maxConnections reservedConnections) es) :
    let s := run step (init maxConnections reservedConnections) es
    connectionsPerWorker * (s.liveWorkers + s.reservedWorkers) +
      extraSamplerConnections * s.samplerWorkers ≤
        max (maxConnections - reservedConnections - connectionHeadroom) 0 := by
  have hbudget : Budgeted (run step (init maxConnections reservedConnections) es) :=
    run_invariant (fun _ _ hs hok => hs.step hok) (budgeted_init _ _) h
  have hsettings := settings_run (s := init maxConnections reservedConnections) es
  have hmax := (Prod.mk.inj hsettings).1
  have hreserved := (Prod.mk.inj hsettings).2
  have hwithin := hbudget.within
  rw [connections_eq, allowance, hmax, hreserved] at hwithin
  exact hwithin

/-- A worker of a reserved launch that registers and samples. -/
def launchedSampler : List ControlEvent :=
  [.reserveWorkerLaunch [("w", 1)], .setRequestState 1 .starting, .announceNode "w-1" "u1",
    .setRequestState 1 .fulfilled, .insertRun none none,
    .assignWorkerPool "w-1" .samplerAggregator 1,
    .setCurrentAssignment "u1" ⟨.samplerAggregator, 1⟩]

theorem connections_within_budget_launched :
    let s := run step (init 27 3) launchedSampler
    connectionsPerWorker * (s.liveWorkers + s.reservedWorkers) +
      extraSamplerConnections * s.samplerWorkers ≤ max (27 - 3 - connectionHeadroom) 0 :=
  @connections_within_budget 27 3 launchedSampler
    ⟨trivial, .inr (.inl (by decide)), .inl (by decide), .inl rfl, trivial, trivial,
      .inr (.inl (by decide)), trivial⟩

/-- Workers register only under a name a launch has reserved, and a node takes the role it is
given. -/
def Managed (s : ControlPlane) : ControlEvent → Prop
  | .announceNode nodeName _ => ∃ n ∈ s.nodes, n.name = nodeName ∧ n.launchRequestId.isSome
  | .setCurrentAssignment nodeUuid target => ∃ n ∈ s.nodes, n.uuid = nodeUuid ∧
      n.desired = some target
  | _ => True

/-- A suspended sampler: its connections are free for another launch, and resuming it counts one
worker without the connections of its role. -/
def resumedSampler : List ControlEvent :=
  [.reserveWorkerLaunch [("w", 1)], .setRequestState 1 .starting, .announceNode "w-1" "u1",
    .setRequestState 1 .fulfilled, .insertRun none none,
    .assignWorkerPool "w-1" .samplerAggregator 1, .suspendWorkers, .tick 1, .expireNodeLease "u1",
    .reserveWorkerLaunch [("w", 1)], .enqueueResumedWorkers]

theorem resumed_sampler_exceeds_budget :
    ¬ ∀ (maxConnections reservedConnections : Int) (es : List ControlEvent),
      Along step Managed (init maxConnections reservedConnections) es →
        let s := run step (init maxConnections reservedConnections) es
        connectionsPerWorker * (s.liveWorkers + s.reservedWorkers) +
          extraSamplerConnections * s.samplerWorkers ≤
            max (maxConnections - reservedConnections - connectionHeadroom) 0 := by
  intro h
  have hmanaged : Along step Managed (init 27 3) resumedSampler :=
    ⟨trivial, trivial, by unfold Managed; decide, trivial, trivial, trivial, trivial, trivial,
      trivial, trivial, trivial, trivial⟩
  have hexceeds : ¬ connectionsPerWorker * ((run step (init 27 3) resumedSampler).liveWorkers +
      (run step (init 27 3) resumedSampler).reservedWorkers) + extraSamplerConnections *
        (run step (init 27 3) resumedSampler).samplerWorkers ≤
          max (27 - 3 - connectionHeadroom) 0 := by decide +kernel
  exact hexceeds (h 27 3 resumedSampler hmanaged)

end Gammaboard.Stores.ControlPlane
