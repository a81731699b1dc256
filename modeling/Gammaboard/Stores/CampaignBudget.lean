import Gammaboard.Evaluation.Accumulator
import Gammaboard.Stores.Tasks
import Mathlib.Algebra.BigOperators.Group.List.Basic
import Mathlib.Algebra.Order.BigOperators.Group.List
import Mathlib.Data.List.Nodup
import Mathlib.Tactic.Common

/-!
# The sample budget of a campaign

`stores/queries/campaign_budget.rs`: the cap of an integration campaign is cut
into allowances, one for each child run, and a child's task may produce what
the other tasks of the child leave of its allowance. Both look only at the
progress the tasks have recorded.
-/

namespace Gammaboard.Stores

open Gammaboard.Core Gammaboard.Evaluation

/-- The tables the budget reads: the children of the campaign's task in the order of their ids,
their tasks, and the rows of `campaign_sample_budgets`. -/
structure CampaignTables where
  /-- The campaign's own task is active. -/
  active : Bool
  children : List Int
  tasks : List RunTask
  granted : Int → Option Int

/-- The sum of `f` over the tasks of a run. -/
def sumOfRun (runId : Int) (f : RunTask → Int) (tasks : List RunTask) : Int :=
  ((tasks.filter fun t => t.runId == runId).map f).sum

/-- `sum(nr_produced_samples)` over the tasks of a run. -/
def recordedSamples (runId : Int) (tasks : List RunTask) : Int :=
  sumOfRun runId (·.nrProducedSamples) tasks

/-- No task of the run has another state than completed. -/
def queueCompleted (runId : Int) (tasks : List RunTask) : Bool :=
  (tasks.filter fun t => t.runId == runId).all fun t => t.state == .completed

/-- `i64::checked_add`. -/
def checkedAdd (a b : Int) : Option Int :=
  if -2 ^ 63 ≤ a + b ∧ a + b ≤ i64Max then some (a + b) else none

/-- `i64::saturating_sub`. -/
def saturatingSub (a b : Int) : Int := max (-2 ^ 63) (min i64Max (a - b))

/-- `try_fold` of `checked_add`. -/
def checkedSum (values : List Int) : Option Int := values.foldlM checkedAdd 0

namespace CampaignTables

/-- Give the children without a row one with what they have produced. -/
def seedBudgets (t : CampaignTables) : Int → Option Int := fun c =>
  if c ∈ t.children then some ((t.granted c).getD (recordedSamples c t.tasks)) else t.granted c

/-- Take back what completed children have not used. -/
def reclaimBudgets (t : CampaignTables) (granted : Int → Option Int) : Int → Option Int := fun c =>
  if queueCompleted c t.tasks then (granted c).map fun _ => recordedSamples c t.tasks
  else granted c

/-- The loop over the requests. -/
def grantRequests : List (Int × Int) → Int → (Int → Option Int) →
    Except StoreError (Int → Option Int)
  | [], _, granted => .ok granted
  | (child, requested) :: rest, remaining, granted =>
    match granted child with
    | none => .error (.database "budget request is not for a campaign child")
    | some grant =>
      let extra := min (max (saturatingSub requested grant) 0) remaining
      if extra = 0 then grantRequests rest remaining granted
      else
        grantRequests rest (remaining - extra) fun c =>
          if c = child then some (grant + extra) else granted c

/-- `allocate_campaign_samples`: the rows of the budgets after the transaction. -/
def allocateCampaignSamples (maxTotalSamples : Option Int) (requests : List (Int × Int))
    (t : CampaignTables) : Except StoreError (Int → Option Int) :=
  let limit := maxTotalSamples.getD i64Max
  let grants := t.reclaimBudgets t.seedBudgets
  match checkedSum (t.children.filterMap grants) with
  | none => .error (.database "campaign sample accounting overflow")
  | some total =>
    if limit < total then
      .error (.database "campaign has already produced more than its sample cap")
    else if t.active then grantRequests requests (limit - total) grants
    else .ok grants

/-- `campaign_sample_allowance`. -/
def campaignSampleAllowance (runId taskId : Int) (t : CampaignTables) : Option Int :=
  if runId ∈ t.children then
    some ((t.granted runId).getD 0 -
      recordedSamples runId (t.tasks.filter fun row => row.id != taskId))
  else none

/-- The allowance of a child over all its tasks. -/
def allowance (t : CampaignTables) (c : Int) : Int := (t.granted c).getD 0

end CampaignTables

/-! ## Sums over the children -/

section

variable {κ : Type} [DecidableEq κ]

/-- A new value at one key of a list without duplicates. -/
theorem sum_map_update {f : κ → Int} {k : κ} {keys : List κ} (hn : keys.Nodup) (hk : k ∈ keys)
    (v : Int) : (keys.map fun c => if c = k then v else f c).sum = (keys.map f).sum - f k + v := by
  induction keys with
  | nil => cases hk
  | cons x keys ih =>
    obtain ⟨hx, hn⟩ := List.nodup_cons.1 hn
    by_cases hxk : x = k
    · subst hxk
      have hrest : (keys.map fun c => if c = x then v else f c) = keys.map f := by
        refine List.map_congr_left fun c hc => if_neg ?_
        rintro rfl
        exact hx hc
      simp only [List.map_cons, List.sum_cons, if_pos, hrest]
      omega
    · have hmem : k ∈ keys := (List.mem_cons.1 hk).resolve_left (Ne.symm hxk)
      simp only [List.map_cons, List.sum_cons, if_neg hxk, ih hn hmem]
      omega

end

/-! ## Sums over the tasks of a run -/

section

variable {runId : Int} {f : RunTask → Int} {tasks : List RunTask}

theorem sumOfRun_append {tasks' : List RunTask} :
    sumOfRun runId f (tasks ++ tasks') = sumOfRun runId f tasks + sumOfRun runId f tasks' := by
  simp [sumOfRun]

/-- A rewrite of the rows that leaves the runs and the summands. -/
theorem sumOfRun_map {move : RunTask → RunTask} (hrun : ∀ t ∈ tasks, (move t).runId = t.runId)
    (hf : ∀ t ∈ tasks, t.runId = runId → f (move t) = f t) :
    sumOfRun runId f (tasks.map move) = sumOfRun runId f tasks := by
  have hkept : (tasks.map move).filter (fun t => t.runId == runId) =
      (tasks.filter fun t => t.runId == runId).map move := by
    rw [List.filter_map]
    refine congrArg (List.map move) (List.filter_congr fun t ht => ?_)
    simp [hrun t ht]
  unfold sumOfRun
  rw [hkept, List.map_map]
  refine congrArg List.sum (List.map_congr_left fun t ht => ?_)
  obtain ⟨hmem, hof⟩ := List.mem_filter.1 ht
  exact hf t hmem (by simpa using hof)

/-- The tasks that are removed count nothing. -/
theorem sumOfRun_filter_of_zero {keep : RunTask → Bool}
    (hf : ∀ t ∈ tasks, keep t = false → f t = 0) :
    sumOfRun runId f (tasks.filter keep) = sumOfRun runId f tasks := by
  unfold sumOfRun
  induction tasks with
  | nil => rfl
  | cons x tasks ih =>
    have hrest := ih fun t ht => hf t (List.mem_cons_of_mem _ ht)
    cases hx : keep x with
    | true =>
      rw [List.filter_cons_of_pos hx]
      by_cases hrun : x.runId = runId
      · simp only [List.filter_cons, hrun, beq_self_eq_true, if_pos, List.map_cons, List.sum_cons,
          hrest]
      · simpa [List.filter_cons, hrun] using hrest
    | false =>
      rw [List.filter_cons_of_neg (by simp [hx]), hrest]
      by_cases hrun : x.runId = runId
      · simp [hrun, hf x List.mem_cons_self hx]
      · simp [hrun]

theorem sumOfRun_nonneg (hf : ∀ t ∈ tasks, 0 ≤ f t) : 0 ≤ sumOfRun runId f tasks := by
  refine List.sum_nonneg fun x hx => ?_
  obtain ⟨t, ht, rfl⟩ := List.mem_map.1 hx
  exact hf t (List.mem_of_mem_filter ht)

/-- One task of the run apart from the others. -/
theorem sumOfRun_split {t : RunTask} (hn : (tasks.map (·.id)).Nodup) (ht : t ∈ tasks) :
    sumOfRun t.runId f tasks =
      f t + sumOfRun t.runId f (tasks.filter fun row => row.id != t.id) := by
  induction tasks with
  | nil => cases ht
  | cons x tasks ih =>
    obtain ⟨hx, hn⟩ := List.nodup_cons.1 hn
    rcases List.mem_cons.1 ht with rfl | ht
    · have hrest : tasks.filter (fun row => row.id != t.id) = tasks := by
        refine List.filter_eq_self.2 fun row hrow => ?_
        have hne : row.id ≠ t.id := fun heq => hx (List.mem_map.2 ⟨row, hrow, heq⟩)
        simpa using hne
      simp [sumOfRun, hrest]
    · have hne : x.id ≠ t.id := fun heq => hx (List.mem_map.2 ⟨t, ht, heq.symm⟩)
      have hstep := ih hn ht
      by_cases hrun : x.runId = t.runId
      · simp only [sumOfRun, List.filter_cons, hrun, beq_self_eq_true, if_pos, List.map_cons,
          List.sum_cons, bne_iff_ne, ne_eq, hne, not_false_eq_true] at hstep ⊢
        omega
      · simpa [sumOfRun, List.filter_cons, hrun, hne] using hstep

/-- Put a task in the place of the one with its id. -/
def replaceTask (t : RunTask) (tasks : List RunTask) : List RunTask :=
  tasks.map fun row => if row.id = t.id then t else row

theorem replaceTask_ids (t : RunTask) (tasks : List RunTask) :
    (replaceTask t tasks).map (·.id) = tasks.map (·.id) := by
  unfold replaceTask
  rw [List.map_map]
  refine List.map_congr_left fun row _ => ?_
  by_cases hid : row.id = t.id
  · simp [hid]
  · simp [hid]

theorem mem_replaceTask {t u : RunTask} (h : u ∈ replaceTask t tasks) :
    u = t ∨ u ∈ tasks ∧ u.id ≠ t.id := by
  obtain ⟨row, hrow, heq⟩ := List.mem_map.1 h
  split at heq
  · exact .inl heq.symm
  · rename_i hid
    subst heq
    exact .inr ⟨hrow, hid⟩

/-- A statement that rewrites the row of one task. -/
theorem map_eq_replaceTask {t : RunTask} {move : RunTask → RunTask}
    (hn : (tasks.map (·.id)).Nodup) (ht : t ∈ tasks) (hid : (move t).id = t.id)
    (hothers : ∀ row, row.id ≠ t.id → move row = row) :
    tasks.map move = replaceTask (move t) tasks := by
  refine List.map_congr_left fun row hrow => ?_
  by_cases hrid : row.id = t.id
  · rw [if_pos (hrid.trans hid.symm), List.inj_on_of_nodup_map hn hrow ht hrid]
  · rw [if_neg fun heq => hrid (heq.trans hid), hothers row hrid]

/-- The sum moves by as much as the row. -/
theorem sumOfRun_replaceTask {t t' : RunTask} (hn : (tasks.map (·.id)).Nodup) (ht : t ∈ tasks)
    (hid : t'.id = t.id) (hrun : t'.runId = t.runId) (c : Int) :
    sumOfRun c f (replaceTask t' tasks) =
      if c = t.runId then sumOfRun c f tasks - f t + f t' else sumOfRun c f tasks := by
  split
  · rename_i hc
    subst hc
    have hmoved : t' ∈ replaceTask t' tasks := List.mem_map.2 ⟨t, ht, if_pos hid.symm⟩
    have hothers : (replaceTask t' tasks).filter (fun row => row.id != t'.id) =
        tasks.filter fun row => row.id != t.id := by
      unfold replaceTask
      clear hn ht hmoved
      induction tasks with
      | nil => rfl
      | cons x tasks ih =>
        rw [List.map_cons]
        by_cases hx : x.id = t'.id
        · rw [if_pos hx, List.filter_cons_of_neg (by simp),
            List.filter_cons_of_neg (by simp [hx, hid]), ih]
        · rw [if_neg hx, List.filter_cons_of_pos (by simp [hx]),
            List.filter_cons_of_pos (by simp [← hid, hx]), ih]
    have hbefore := sumOfRun_split (f := f) hn ht
    have hafter := sumOfRun_split (f := f) ((replaceTask_ids t' tasks).symm ▸ hn) hmoved
    rw [hothers, hrun] at hafter
    omega
  · rename_i hc
    refine sumOfRun_map (fun row hmem => ?_) fun row hmem hrow => ?_
    · split
      · rename_i hmatch
        rw [hrun, List.inj_on_of_nodup_map hn hmem ht (hmatch.trans hid)]
      · rfl
    · split
      · rename_i hmatch
        exact absurd (hrow.symm.trans (congrArg RunTask.runId
          (List.inj_on_of_nodup_map hn hmem ht (hmatch.trans hid)))) hc
      · rfl

end

theorem checkedSum_eq {values : List Int} {total : Int} (h : checkedSum values = some total) :
    total = values.sum := by
  have key : ∀ (values : List Int) (start : Int), values.foldlM checkedAdd start = some total →
      total = start + values.sum := by
    intro values
    induction values with
    | nil =>
      intro start h
      cases h
      simp
    | cons x values ih =>
      intro start h
      rw [List.foldlM_cons] at h
      unfold checkedAdd at h
      split at h
      · rw [ih _ h, List.sum_cons]
        omega
      · cases h
  have := key values 0 h
  omega

/-! ## What an allocation does -/

namespace CampaignTables

/-- Rows only for children. -/
def OfChildren (children : List Int) (granted : Int → Option Int) : Prop :=
  ∀ c, granted c ≠ none → c ∈ children

/-- The allowances grow from `granted` to `granted'`, within `limit` together. -/
structure Grows (children : List Int) (limit : Int) (granted granted' : Int → Option Int) : Prop where
  rows : OfChildren children granted'
  grows : ∀ c, (granted c).getD 0 ≤ (granted' c).getD 0
  total : (children.map fun c => (granted' c).getD 0).sum ≤ limit

theorem grantRequests_grows {children : List Int} (hn : children.Nodup) {limit : Int}
    {requests : List (Int × Int)} {remaining : Int} {granted granted' : Int → Option Int}
    (hc : OfChildren children granted) (hremaining : 0 ≤ remaining)
    (htotal : (children.map fun c => (granted c).getD 0).sum + remaining ≤ limit)
    (h : grantRequests requests remaining granted = .ok granted') :
    Grows children limit granted granted' := by
  induction requests generalizing remaining granted with
  | nil =>
    cases h
    exact ⟨hc, fun _ => le_rfl, by omega⟩
  | cons request rest ih =>
    obtain ⟨child, requested⟩ := request
    unfold grantRequests at h
    split at h
    · cases h
    · rename_i grant hgrant
      dsimp only at h
      split at h
      · exact ih hc hremaining htotal h
      · generalize hextra : min (max (saturatingSub requested grant) 0) remaining = extra at h
        have hmem : child ∈ children := hc child (by rw [hgrant]; exact Option.some_ne_none _)
        have hvalues : (fun c => ((if c = child then some (grant + extra) else granted c).getD 0)) =
            fun c => if c = child then grant + extra else (granted c).getD 0 := by
          funext c
          split <;> rfl
        have hsum := sum_map_update (f := fun c => (granted c).getD 0) hn hmem (grant + extra)
        have hstep : Grows children limit
            (fun c => if c = child then some (grant + extra) else granted c) granted' :=
          ih ?_ (by omega) ?_ h
        · refine ⟨hstep.rows, fun c => le_trans ?_ (hstep.grows c), hstep.total⟩
          by_cases hcc : c = child
          · subst hcc
            simp only [hgrant, Option.getD_some, if_pos]
            omega
          · simp only [if_neg hcc]
            exact le_rfl
        · intro c hsome
          dsimp only at hsome
          split at hsome
          · rename_i hcc
            exact hcc ▸ hmem
          · exact hc c hsome
        · rw [hvalues, hsum]
          simp only [hgrant, Option.getD_some]
          omega

/-- The rows before the requests: a child whose tasks are all completed keeps what it has
produced, another one what it had. -/
theorem reclaimBudgets_seedBudgets {t : CampaignTables} {c : Int} (hc : c ∈ t.children) :
    t.reclaimBudgets t.seedBudgets c =
      some (if queueCompleted c t.tasks then recordedSamples c t.tasks
        else (t.granted c).getD (recordedSamples c t.tasks)) := by
  unfold reclaimBudgets seedBudgets
  rw [if_pos hc]
  split <;> rfl

/-- An allocation that commits leaves every child at least what it has recorded, and what it had
unless it is completed; together the children get at most the cap. -/
structure Allocated (t : CampaignTables) (limit : Int) (granted' : Int → Option Int) : Prop where
  rows : OfChildren t.children granted'
  total : (t.children.map fun c => (granted' c).getD 0).sum ≤ limit
  kept : ∀ c ∈ t.children, queueCompleted c t.tasks = false →
    (t.granted c).getD (recordedSamples c t.tasks) ≤ (granted' c).getD 0
  completed : ∀ c ∈ t.children, queueCompleted c t.tasks = true →
    recordedSamples c t.tasks ≤ (granted' c).getD 0

theorem allocateCampaignSamples_allocated {t : CampaignTables} {maxTotalSamples : Option Int}
    {requests : List (Int × Int)} {granted' : Int → Option Int} (hn : t.children.Nodup)
    (hc : OfChildren t.children t.granted)
    (h : t.allocateCampaignSamples maxTotalSamples requests = .ok granted') :
    Allocated t (maxTotalSamples.getD i64Max) granted' := by
  have hseeded : OfChildren t.children (t.reclaimBudgets t.seedBudgets) := by
    intro c hsome
    by_contra hnot
    unfold reclaimBudgets seedBudgets at hsome
    have hnone : t.granted c = none := by
      by_contra hgranted
      exact hnot (hc c hgranted)
    rw [if_neg hnot, hnone] at hsome
    split at hsome <;> exact hsome rfl
  -- every child has a row by now, so the rows are those of the children in order
  have hrows : t.children.filterMap (t.reclaimBudgets t.seedBudgets) =
      t.children.map fun c => (t.reclaimBudgets t.seedBudgets c).getD 0 := by
    rw [← List.filterMap_eq_map]
    refine List.filterMap_congr fun c hmem => ?_
    rw [Function.comp_apply, reclaimBudgets_seedBudgets hmem, Option.getD_some]
  have hgrows : Grows t.children (maxTotalSamples.getD i64Max) (t.reclaimBudgets t.seedBudgets)
      granted' := by
    unfold allocateCampaignSamples at h
    dsimp only at h
    split at h
    · cases h
    · rename_i total htotal
      have hsum := checkedSum_eq htotal
      rw [hrows] at hsum
      split at h
      · cases h
      · split at h
        · exact grantRequests_grows hn hseeded (by omega) (by omega) h
        · cases h
          exact ⟨hseeded, fun _ => le_rfl, by omega⟩
  refine ⟨hgrows.rows, hgrows.total, fun c hmem hopen => ?_, fun c hmem hdone => ?_⟩
  · have hle := hgrows.grows c
    rw [reclaimBudgets_seedBudgets hmem, hopen] at hle
    exact hle
  · have hle := hgrows.grows c
    rw [reclaimBudgets_seedBudgets hmem, hdone] at hle
    exact hle

end CampaignTables

end Gammaboard.Stores
