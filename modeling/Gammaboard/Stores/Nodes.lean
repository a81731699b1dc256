import Gammaboard.Stores.WorkQueue
import Mathlib.Logic.Relation

/-!
# Nodes, placements and the tree of runs

What controllers read of the `nodes` and `runs` tables: the placement wanted
for a node, and the branches below a controller's run that
`worker_pool_branches` lists.
-/

namespace Gammaboard.Stores

structure AssignmentTarget where
  role : WorkerRole
  runId : Int
  deriving DecidableEq, Repr

/-- The fields of a registered node a controller plans with. -/
structure RegisteredNode where
  name : String
  uuid : String
  desiredAssignment : Option AssignmentTarget
  deriving DecidableEq, Repr

structure NodeAssignmentUpdate where
  nodeUuid : String
  expected : Option AssignmentTarget
  desired : Option AssignmentTarget
  deriving DecidableEq, Repr

/-- The columns of `runs` that make the tree of controllers and children. -/
structure RunRecord where
  id : Int
  parentRunId : Option Int
  runKind : Option String
  deriving DecidableEq, Repr

/-- `COALESCE(integration_params->>'run_kind', 'integration') <> 'integration'`. -/
def RunRecord.controller (r : RunRecord) : Bool := r.runKind.getD "integration" != "integration"

/-- Run ids are unique, and a run is inserted after the parent it refers to. -/
structure RunTree (runs : List RunRecord) : Prop where
  ids : (runs.map (·.id)).Nodup
  parents : ∀ r ∈ runs, ∀ p, r.parentRunId = some p → p < r.id

/-- `b` is a child run of `a`. -/
def Child (runs : List RunRecord) (a b : Int) : Prop := ∃ r ∈ runs, r.id = b ∧ r.parentRunId = some a

/-- `b` is `a` or below it. -/
abbrev Within (runs : List RunRecord) : Int → Int → Prop := Relation.ReflTransGen (Child runs)

/-! ## The branches below a run -/

/-- A row of `worker_pool_branches`. -/
structure PoolBranch where
  id : Int
  branch : Int
  controller : Bool
  deriving DecidableEq, Repr

/-- The rows of the recursion after `k` steps. -/
def poolLevel (runs : List RunRecord) (runId : Int) : Nat → List PoolBranch
  | 0 => (runs.filter (·.parentRunId = some runId)).map fun r => ⟨r.id, r.id, r.controller⟩
  | k + 1 => (poolLevel runs runId k).flatMap fun b =>
      (runs.filter (·.parentRunId = some b.id)).map fun r => ⟨r.id, b.branch, b.controller⟩

/-- The recursive query ends with the first empty level, which is below the number of runs. -/
def workerPoolBranches (runs : List RunRecord) (runId : Int) : List PoolBranch :=
  (List.range runs.length).flatMap (poolLevel runs runId)

section Tree

variable {runs : List RunRecord} {root a b c : Int}

theorem RunTree.child_lt (h : RunTree runs) (hab : Child runs a b) : a < b := by
  obtain ⟨r, hr, rfl, hp⟩ := hab
  exact h.parents r hr a hp

theorem RunTree.within_le (h : RunTree runs) (hab : Within runs a b) : a ≤ b := by
  induction hab with
  | refl => exact Int.le_refl a
  | tail _ hbc ih =>
    have := h.child_lt hbc
    omega

theorem RunTree.row_eq (h : RunTree runs) {r s : RunRecord} (hr : r ∈ runs) (hs : s ∈ runs)
    (hid : r.id = s.id) : r = s :=
  List.inj_on_of_nodup_map h.ids hr hs hid

/-- A run has one parent. -/
theorem RunTree.parent_unique (h : RunTree runs) (ha : Child runs a c) (hb : Child runs b c) :
    a = b := by
  obtain ⟨r, hr, rfl, hra⟩ := ha
  obtain ⟨s, hs, hid, hsb⟩ := hb
  rw [h.row_eq hs hr hid, hra] at hsb
  exact Option.some.inj hsb

/-- The branches below a run are disjoint. -/
theorem RunTree.branch_unique (h : RunTree runs) {x : Int} (hb : Child runs root b)
    (hc : Child runs root c) (hbx : Within runs b x) (hcx : Within runs c x) : b = c := by
  have hroot := h.child_lt hb
  have hroot' := h.child_lt hc
  induction hbx generalizing c with
  | refl =>
    cases hcx with
    | refl => rfl
    | tail hcy hy =>
      have := h.parent_unique hy hb
      have := h.within_le hcy
      omega
  | tail hby hyx ih =>
    cases hcx with
    | refl =>
      have := h.parent_unique hyx hc
      have := h.within_le hby
      omega
    | tail hcz hzx => exact ih hc (h.parent_unique hzx hyx ▸ hcz) hroot'

theorem mem_poolLevel {k : Nat} {row : PoolBranch} (h : row ∈ poolLevel runs root k) :
    ∃ r ∈ runs, r.parentRunId = some root ∧ row.branch = r.id ∧ row.controller = r.controller ∧
      Within runs r.id row.id := by
  induction k generalizing row with
  | zero =>
    obtain ⟨r, hr, rfl⟩ := List.mem_map.1 h
    obtain ⟨hr, hp⟩ := List.mem_filter.1 hr
    exact ⟨r, hr, of_decide_eq_true hp, rfl, rfl, .refl⟩
  | succ k ih =>
    obtain ⟨row', hrow', hmem⟩ := List.mem_flatMap.1 h
    obtain ⟨s, hs, rfl⟩ := List.mem_map.1 hmem
    obtain ⟨hs, hp⟩ := List.mem_filter.1 hs
    obtain ⟨r, hr, hroot, hbranch, hcontroller, hwithin⟩ := ih hrow'
    exact ⟨r, hr, hroot, hbranch, hcontroller, hwithin.tail ⟨s, hs, rfl, of_decide_eq_true hp⟩⟩

theorem countP_id_lt {r : RunRecord} (hr : r ∈ runs) (hlt : a < r.id) :
    runs.countP (·.id ≤ a) < runs.countP (·.id ≤ r.id) := by
  induction runs with
  | nil => cases hr
  | cons s runs ih =>
    have hmono : runs.countP (·.id ≤ a) ≤ runs.countP (·.id ≤ r.id) :=
      List.countP_mono_left fun t _ ht => by
        simp only [decide_eq_true_eq] at ht ⊢
        omega
    simp only [List.countP_cons, decide_eq_true_eq]
    rcases List.mem_cons.1 hr with rfl | hr
    · rw [if_neg (by omega), if_pos (by omega)]
      omega
    · have := ih hr
      split <;> split <;> omega

/-- A run at depth `k` has `k` runs above it, so no level is missed. -/
theorem RunTree.mem_level_of_within (h : RunTree runs) {r : RunRecord} (hr : r ∈ runs)
    (hroot : r.parentRunId = some root) {x : Int} (hx : Within runs r.id x) :
    ∃ k < runs.countP (·.id ≤ x), (⟨x, r.id, r.controller⟩ : PoolBranch) ∈ poolLevel runs root k := by
  induction hx with
  | refl =>
    refine ⟨0, List.countP_pos_iff.2 ⟨r, hr, by simp⟩, ?_⟩
    exact List.mem_map.2 ⟨r, List.mem_filter.2 ⟨hr, by simpa using hroot⟩, rfl⟩
  | tail _ hyx ih =>
    obtain ⟨k, hk, hmem⟩ := ih
    have hlt := h.child_lt hyx
    obtain ⟨s, hs, rfl, hp⟩ := hyx
    refine ⟨k + 1, ?_, List.mem_flatMap.2 ⟨_, hmem, List.mem_map.2 ⟨s, ?_, rfl⟩⟩⟩
    · have := countP_id_lt hs hlt
      omega
    · exact List.mem_filter.2 ⟨hs, by simpa using hp⟩

theorem RunTree.mem_workerPoolBranches (h : RunTree runs) {row : PoolBranch} :
    row ∈ workerPoolBranches runs root ↔
      ∃ r ∈ runs, r.parentRunId = some root ∧ row.branch = r.id ∧ row.controller = r.controller ∧
        Within runs r.id row.id := by
  unfold workerPoolBranches
  constructor
  · intro hrow
    obtain ⟨k, -, hk⟩ := List.mem_flatMap.1 hrow
    exact mem_poolLevel hk
  · rintro ⟨r, hr, hroot, hbranch, hcontroller, hwithin⟩
    obtain ⟨k, hk, hmem⟩ := h.mem_level_of_within hr hroot hwithin
    rw [← hbranch, ← hcontroller] at hmem
    exact List.mem_flatMap.2 ⟨k, List.mem_range.2 (hk.trans_le List.countP_le_length), hmem⟩

end Tree

end Gammaboard.Stores
