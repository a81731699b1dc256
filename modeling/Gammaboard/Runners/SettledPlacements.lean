import Gammaboard.Runners.SamplerPlacement

/-!
# Settled placements

A plan settles the placements of its pool: every node gets its place with a
selected child or returns to the parent. Settling is idempotent.
-/

namespace Gammaboard.Runners.ControllerAssignmentPlan

open Gammaboard.Lib Gammaboard.Stores

/-- What the branches of a plan that observed its tree satisfy. -/
structure Coherent (plan : ControllerAssignmentPlan) : Prop where
  parent : plan.branch plan.parentRunId = none
  branch : ∀ id b, plan.branch id = some b → plan.branch b = some b
  selected : ∀ id ∈ plan.selected, plan.branch id = some id

/-- The run of a node after planning. -/
def settledRun (plan : ControllerAssignmentPlan) (reusable : Placements) (name : String) : Int :=
  (((plan.placements reusable).get name).map (·.runId)).getD plan.parentRunId

/-- The placements of the pool after planning. -/
def settle (plan : ControllerAssignmentPlan) (reusable : Placements) : Placements :=
  reusable.map fun e => (e.1, { e.2 with runId := plan.settledRun reusable e.1 })

variable {plan : ControllerAssignmentPlan} {reusable : Placements} {c : Int}
  {e : String × AssignmentTarget}

theorem Coherent.parent_notMem (h : plan.Coherent) : plan.parentRunId ∉ plan.selected := fun hmem => by
  have := h.selected _ hmem
  rw [h.parent] at this
  cases this

@[simp] theorem keys_settle : (plan.settle reusable).keys = reusable.keys := by
  unfold settle OrdMap.keys
  rw [List.map_map]
  rfl

/-- The samplers a plan places. -/
abbrev samplersOf (plan : ControllerAssignmentPlan) (reusable : Placements) : Placements :=
  (plan.placeSamplers plan.selected reusable).1

/-- The children that have a sampler after planning. -/
abbrev activatedBy (plan : ControllerAssignmentPlan) (reusable : Placements) : Finset Int :=
  (plan.placeSamplers plan.selected reusable).2

theorem placements_eq (h : plan.selected ≠ []) :
    plan.placements reusable =
      plan.samplersOf reusable ++ placeEvaluators (plan.activatedBy reusable) reusable := by
  unfold placements
  rw [if_neg h]

theorem placements_nil (h : plan.selected = []) : plan.placements reusable = [] := by
  unfold placements
  rw [if_pos h]

section Pool

variable (hreusable : reusable.Ascending)
include hreusable

/-- A placement keeps the role of its node and is with a selected child. -/
theorem placement_of_mem (h : e ∈ plan.placements reusable) :
    e.2.runId ∈ plan.selected ∧ ∃ a, (e.1, a) ∈ reusable ∧ a.role = e.2.role := by
  by_cases hsel : plan.selected = []
  · rw [placements_nil hsel] at h
    cases h
  · rw [placements_eq hsel] at h
    rcases List.mem_append.1 h with h | h
    · obtain ⟨hs, a, ha, hrole⟩ := placed_of_mem hreusable h
      exact ⟨hs.2, a, ha, hrole.trans hs.1.symm⟩
    · obtain ⟨hrole, hact, a, ha, ha'⟩ := evaluator_of_placed h
      obtain ⟨e', he', hrun⟩ := mem_activated_iff.1 hact
      exact ⟨hrun ▸ (placed_of_mem hreusable he').1.2, a, ha, ha'.trans hrole.symm⟩

theorem keys_placements_nodup : (plan.placements reusable).keys.Nodup := by
  by_cases hsel : plan.selected = []
  · rw [placements_nil hsel]
    exact List.nodup_nil
  · rw [placements_eq hsel, OrdMap.keys, List.map_append]
    refine List.nodup_append.2 ⟨keys_placeSamplers_nodup hreusable, ?_, ?_⟩
    · by_cases hact : plan.activatedBy reusable = ∅
      · rw [hact]
        exact List.nodup_nil
      · exact (names_placeEvaluators hact).nodup_iff.2
          (hreusable.nodup.sublist (List.filter_sublist.map _))
    · rintro name hname name' hname' rfl
      obtain ⟨e, he, rfl⟩ := List.mem_map.1 hname
      obtain ⟨e', he', heq⟩ := List.mem_map.1 hname'
      obtain ⟨-, a, ha, hrole⟩ := placed_of_mem hreusable he
      obtain ⟨-, -, a', ha', hrole'⟩ := evaluator_of_placed he'
      have hpair : a = a' :=
        congrArg Prod.snd (List.inj_on_of_nodup_map hreusable.nodup ha ha' heq.symm)
      rw [← hpair, hrole] at hrole'
      cases hrole'

theorem settledRun_of_mem (h : e ∈ plan.placements reusable) :
    plan.settledRun reusable e.1 = e.2.runId := by
  unfold settledRun
  rw [OrdMap.get_of_mem (keys_placements_nodup hreusable) h]
  rfl

theorem mem_settle_of_placed (h : e ∈ plan.placements reusable) : e ∈ plan.settle reusable := by
  obtain ⟨-, a, ha, hrole⟩ := placement_of_mem hreusable h
  refine List.mem_map.2 ⟨(e.1, a), ha, ?_⟩
  rw [settledRun_of_mem hreusable h]
  obtain ⟨name, role, runId⟩ := e
  cases hrole
  rfl

omit hreusable in
/-- A node gets a place with a selected child or returns to the parent. -/
theorem settledRun_cases (reusable : Placements) (name : String) :
    (∃ e ∈ plan.placements reusable, e.1 = name ∧ plan.settledRun reusable name = e.2.runId) ∨
      name ∉ (plan.placements reusable).keys ∧
        plan.settledRun reusable name = plan.parentRunId := by
  unfold settledRun
  cases hget : (plan.placements reusable).get name with
  | none => exact .inr ⟨OrdMap.get_eq_none.1 hget, rfl⟩
  | some a => exact .inl ⟨(name, a), OrdMap.mem_of_get hget, rfl, rfl⟩

theorem settledRun_mem (name : String) :
    plan.settledRun reusable name = plan.parentRunId ∨
      plan.settledRun reusable name ∈ plan.selected := by
  rcases plan.settledRun_cases reusable name with ⟨e, he, -, hrun⟩ | ⟨-, hrun⟩
  · exact .inr (hrun ▸ (placement_of_mem hreusable he).1)
  · exact .inl hrun

theorem ascending_settle (plan : ControllerAssignmentPlan) : (plan.settle reusable).Ascending := by
  unfold OrdMap.Ascending
  rw [keys_settle]
  exact hreusable

/-- What is not at the parent after planning is what was placed. -/
theorem mem_placements_iff (hplan : plan.Coherent) :
    e ∈ plan.placements reusable ↔ e ∈ plan.settle reusable ∧ e.2.runId ≠ plan.parentRunId := by
  constructor
  · intro h
    refine ⟨mem_settle_of_placed hreusable h, fun hparent => hplan.parent_notMem ?_⟩
    exact hparent ▸ (placement_of_mem hreusable h).1
  · rintro ⟨h, hrun⟩
    obtain ⟨e', he', rfl⟩ := List.mem_map.1 h
    rcases plan.settledRun_cases reusable e'.1 with ⟨p, hp, hname, hsettled⟩ | ⟨-, hparent⟩
    · have hmem := mem_settle_of_placed hreusable hp
      have := List.inj_on_of_nodup_map (ascending_settle hreusable plan).nodup h hmem hname.symm
      rwa [this]
    · exact absurd hparent hrun

/-- Counted with a child, the settled placements are the placements of the plan. -/
theorem countP_settle (hplan : plan.Coherent) (p : String × AssignmentTarget → Bool)
    (hp : ∀ e, p e → e.2.runId ≠ plan.parentRunId) :
    (plan.settle reusable).countP p = (plan.placements reusable).countP p := by
  have hperm : ((plan.settle reusable).filter fun e => e.2.runId ≠ plan.parentRunId).Perm
      (plan.placements reusable) := by
    refine (List.perm_ext_iff_of_nodup
      ((ascending_settle hreusable plan).nodup.of_map.filter _)
      (keys_placements_nodup hreusable).of_map).2 fun e => ?_
    rw [mem_placements_iff hreusable hplan, List.mem_filter, decide_eq_true_eq]
  rw [← hperm.countP_eq, List.countP_filter]
  refine List.countP_congr fun e _ => ?_
  rw [Bool.and_eq_true, decide_eq_true_eq]
  exact ⟨fun h => ⟨h, hp e h⟩, And.left⟩

/-- Settling the settled placements changes nothing, once they are all placed again. -/
theorem settle_eq_self (hplaced : ∀ e ∈ plan.placements reusable, e ∈ reusable)
    (hall : ∀ e ∈ reusable, e.2.runId ≠ plan.parentRunId → e ∈ plan.placements reusable) :
    plan.settle reusable = reusable := by
  unfold settle
  conv_rhs => rw [← List.map_id reusable]
  refine List.map_congr_left fun e he => ?_
  have hrun : plan.settledRun reusable e.1 = e.2.runId := by
    by_cases hmem : e ∈ plan.placements reusable
    · exact settledRun_of_mem hreusable hmem
    · have hparent : e.2.runId = plan.parentRunId := by
        by_contra hne
        exact hmem (hall e he hne)
      rcases plan.settledRun_cases reusable e.1 with ⟨p, hp, hname, -⟩ | ⟨-, hrun⟩
      · have := List.inj_on_of_nodup_map hreusable.nodup (hplaced p hp) he hname
        exact absurd (this ▸ hp) hmem
      · rw [hrun, hparent]
  rw [hrun]
  rfl

end Pool

/-- Settled placements stay where they are. -/
theorem settledRun_of_settled (h : plan.settle reusable = reusable) (he : e ∈ reusable) :
    plan.settledRun reusable e.1 = e.2.runId := by
  unfold settle at h
  conv_rhs at h => rw [← List.map_id reusable]
  exact congrArg (·.2.runId) (List.map_inj_left.1 h e he)

/-! ## Settled placements fit -/

section Settled

variable (hreusable : reusable.Ascending) (hplan : plan.Coherent)
include hreusable hplan

theorem countP_samplerAt_settle (hc : c ≠ plan.parentRunId) (hsel : plan.selected ≠ []) :
    (plan.settle reusable).countP (SamplerAt c ·) = (plan.samplersOf reusable).countP (·.2.runId = c) := by
  rw [countP_settle hreusable hplan _ (fun e he => (of_decide_eq_true (p := SamplerAt c e) he).2 ▸ hc),
    placements_eq hsel, List.countP_append]
  have hzero : (placeEvaluators (plan.activatedBy reusable) reusable).countP (SamplerAt c ·) = 0 :=
    List.countP_eq_zero.2 fun e he hat => by
      have := (evaluator_of_placed he).1
      rw [(of_decide_eq_true hat : SamplerAt c e).1] at this
      cases this
  rw [hzero, Nat.add_zero]
  refine List.countP_congr fun e he => ?_
  rw [decide_eq_true_eq, decide_eq_true_eq]
  exact ⟨And.right, fun h => ⟨(placed_of_mem hreusable he).1.1, h⟩⟩

/-- The evaluators with a child are those it was given. -/
theorem countP_evaluators_settle (hc : c ≠ plan.parentRunId) (hsel : plan.selected ≠ []) :
    (evaluators (plan.settle reusable)).countP (·.2.runId = c) =
      (placeEvaluators (plan.activatedBy reusable) reusable).countP (·.2.runId = c) := by
  rw [evaluators, List.countP_filter, countP_settle hreusable hplan _ (fun e he => ?_),
    placements_eq hsel, List.countP_append]
  · have hzero : (plan.samplersOf reusable).countP
        (fun e => decide (e.2.runId = c) && decide (e.2.role = .evaluator)) = 0 :=
      List.countP_eq_zero.2 fun e he hat => by
        rw [Bool.and_eq_true, decide_eq_true_eq, decide_eq_true_eq, (placed_of_mem hreusable he).1.1] at hat
        cases hat.2
    rw [hzero, Nat.zero_add]
    refine List.countP_congr fun e he => ?_
    rw [Bool.and_eq_true, decide_eq_true_eq, decide_eq_true_eq]
    exact ⟨And.left, fun h => ⟨h, (evaluator_of_placed he).1⟩⟩
  · rw [Bool.and_eq_true, decide_eq_true_eq] at he
    exact he.1 ▸ hc

theorem mem_samplersOf_iff (hsel : plan.selected ≠ []) :
    e ∈ plan.samplersOf reusable ↔
      e ∈ plan.settle reusable ∧ SamplerOf plan.selected e := by
  constructor
  · intro h
    refine ⟨mem_settle_of_placed hreusable ?_, (placed_of_mem hreusable h).1⟩
    rw [placements_eq hsel]
    exact List.mem_append_left _ h
  · rintro ⟨h, hs⟩
    have hplaced := (mem_placements_iff hreusable hplan).2
      ⟨h, fun hparent => hplan.parent_notMem (hparent ▸ hs.2)⟩
    rw [placements_eq hsel] at hplaced
    refine (List.mem_append.1 hplaced).resolve_right fun hev => ?_
    have := (evaluator_of_placed hev).1
    rw [hs.1] at this
    cases this

/-- The samplers a plan placed are placed again where they are. -/
theorem samplersOf_settle (hsel : plan.selected ≠ []) :
    plan.samplersOf (plan.settle reusable) =
      (plan.settle reusable).filter (SamplerOf plan.selected ·) := by
  refine placeSamplers_settled (ascending_settle hreusable plan) (fun c hc hctl => ?_) ?_
  · rw [countP_samplerAt_settle hreusable hplan (fun h => hplan.parent_notMem (h ▸ hc)) hsel]
    exact countP_placed_le nodup_selected hctl
  · rcases @all_placed_or plan plan.selected reusable hreusable with hall | ⟨hact, hctl⟩
    · refine .inl fun e he hrole => ?_
      obtain ⟨e', he', rfl⟩ := List.mem_map.1 he
      obtain ⟨p, hp, hname⟩ := List.mem_map.1 (hall e' he' hrole)
      have hplaced : p ∈ plan.placements reusable := by
        rw [placements_eq hsel]
        exact List.mem_append_left _ hp
      have hrun := settledRun_of_mem hreusable hplaced
      rw [hname] at hrun
      dsimp only
      rw [hrun]
      exact (placed_of_mem hreusable hp).1.2
    · refine .inr ⟨fun c hc => ?_, hctl⟩
      obtain ⟨e, he, rfl⟩ := mem_activated_iff.1 (hact c hc)
      obtain ⟨hmem, hs⟩ := (mem_samplersOf_iff hreusable hplan hsel).1 he
      exact ⟨e, hmem, hs.1, rfl⟩

/-- The same children are activated again. -/
theorem activatedBy_settle (hsel : plan.selected ≠ []) :
    plan.activatedBy (plan.settle reusable) = plan.activatedBy reusable := by
  ext c
  rw [mem_activated_iff, mem_activated_iff]
  refine exists_congr fun e => and_congr_left fun _ => ?_
  rw [show (plan.placeSamplers plan.selected (plan.settle reusable)).1 = _ from
    samplersOf_settle hreusable hplan hsel, List.mem_filter, decide_eq_true_eq]
  exact (mem_samplersOf_iff hreusable hplan hsel).symm

omit hreusable hplan in
theorem names_evaluators_settle (plan : ControllerAssignmentPlan) (reusable : Placements) :
    (evaluators (plan.settle reusable)).map (·.1) = (evaluators reusable).map (·.1) := by
  unfold evaluators settle
  rw [List.filter_map, List.map_map]
  rfl

omit hplan in
/-- With a sampler somewhere, no evaluator of the pool is left out. -/
theorem evaluator_placed (hsel : plan.selected ≠ []) (hact : plan.activatedBy reusable ≠ ∅)
    (he : e ∈ evaluators (plan.settle reusable)) :
    e.2.runId ∈ plan.activatedBy reusable ∧ e ∈ plan.placements reusable := by
  have hname : e.1 ∈ (evaluators reusable).map (·.1) := by
    rw [← names_evaluators_settle plan]
    exact List.mem_map_of_mem he
  obtain ⟨p, hp, hnames⟩ := List.mem_map.1 ((names_placeEvaluators hact).mem_iff.2 hname)
  have hplaced : p ∈ plan.placements reusable := by
    rw [placements_eq hsel]
    exact List.mem_append_right _ hp
  have hpe := List.inj_on_of_nodup_map (ascending_settle hreusable plan).nodup
    (mem_settle_of_placed hreusable hplaced) (List.mem_filter.1 he).1 hnames
  exact hpe ▸ ⟨(evaluator_of_placed hp).2.1, hplaced⟩

/-- The evaluators a plan placed are placed again where they are. -/
theorem placeEvaluators_settle (hsel : plan.selected ≠ [])
    (hact : plan.activatedBy reusable ≠ ∅) :
    placeEvaluators (plan.activatedBy reusable) (plan.settle reusable) =
      evaluators (plan.settle reusable) := by
  have hshares : shares (plan.activatedBy reusable) (plan.settle reusable) =
      shares (plan.activatedBy reusable) reusable := by
    have := congrArg List.length (names_evaluators_settle plan reusable)
    rw [List.length_map, List.length_map] at this
    unfold shares
    rw [this]
  refine placeEvaluators_settled hact fun c => ?_
  rw [hshares]
  by_cases hc : c = plan.parentRunId
  · have hzero : (evaluators (plan.settle reusable)).countP (·.2.runId = c) = 0 :=
      List.countP_eq_zero.2 fun e he hrun => by
        have hplaced := (evaluator_placed hreusable hsel hact he).2
        exact ((mem_placements_iff hreusable hplan).1 hplaced).2 ((of_decide_eq_true hrun).trans hc)
    rw [hzero]
    exact Nat.zero_le _
  · rw [countP_evaluators_settle hreusable hplan hc hsel, countP_placeEvaluators hact]

/-- Planning the settled placements leaves them as they are. -/
theorem settle_settle : plan.settle (plan.settle reusable) = plan.settle reusable := by
  by_cases hsel : plan.selected = []
  · refine settle_eq_self (ascending_settle hreusable plan) (fun e he => ?_) fun e he hrun => ?_
    · rw [placements_nil hsel] at he
      cases he
    · have := (mem_placements_iff hreusable hplan).2 ⟨he, hrun⟩
      rw [placements_nil hsel] at this
      cases this
  have hplacements : plan.placements (plan.settle reusable) =
      (plan.settle reusable).filter (SamplerOf plan.selected ·) ++
        placeEvaluators (plan.activatedBy reusable) (plan.settle reusable) := by
    rw [placements_eq hsel, samplersOf_settle hreusable hplan hsel,
      activatedBy_settle hreusable hplan hsel]
  refine settle_eq_self (ascending_settle hreusable plan) (fun e he => ?_) fun e he hrun => ?_
  · rw [hplacements] at he
    rcases List.mem_append.1 he with he | he
    · exact (List.mem_filter.1 he).1
    · by_cases hact : plan.activatedBy reusable = ∅
      · rw [hact] at he
        cases he
      · rw [placeEvaluators_settle hreusable hplan hsel hact] at he
        exact (List.mem_filter.1 he).1
  · have hplaced := (mem_placements_iff hreusable hplan).2 ⟨he, hrun⟩
    rw [placements_eq hsel] at hplaced
    rw [hplacements]
    rcases List.mem_append.1 hplaced with hp | hp
    · refine List.mem_append_left _ (List.mem_filter.2 ⟨he, ?_⟩)
      exact decide_eq_true ((mem_samplersOf_iff hreusable hplan hsel).1 hp).2
    · have hact : plan.activatedBy reusable ≠ ∅ := by
        intro hact
        rw [hact] at hp
        cases hp
      rw [placeEvaluators_settle hreusable hplan hsel hact]
      exact List.mem_append_right _ (List.mem_filter.2 ⟨he, decide_eq_true (evaluator_of_placed hp).1⟩)

end Settled

end Gammaboard.Runners.ControllerAssignmentPlan
