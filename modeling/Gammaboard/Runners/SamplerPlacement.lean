import Gammaboard.Runners.ControllerPlacement

/-!
# Samplers and evaluators of the selected children

What the two phases of a plan place: which samplers stay, that a child which is
no controller gets at most one, that evaluators are spread evenly, and that
placements which already fit are placed again as they are.
-/

namespace Gammaboard.Runners.ControllerAssignmentPlan

open Gammaboard.Lib Gammaboard.Stores

/-- An entry is a sampler with the run. -/
abbrev SamplerAt (c : Int) (e : String × AssignmentTarget) : Prop :=
  e.2.role = .samplerAggregator ∧ e.2.runId = c

/-- An entry is a sampler with one of the runs. -/
abbrev SamplerOf (selected : List Int) (e : String × AssignmentTarget) : Prop :=
  e.2.role = .samplerAggregator ∧ e.2.runId ∈ selected

variable {plan : ControllerAssignmentPlan} {selected : List Int} {reusable : Placements}
  {activated : Finset Int} {c : Int} {e : String × AssignmentTarget}

theorem nodup_eraseDups {α : Type*} [BEq α] [LawfulBEq α] :
    ∀ l : List α, l.eraseDups.Nodup
  | [] => List.nodup_nil
  | a :: l => by
    rw [List.eraseDups_cons]
    refine List.nodup_cons.2 ⟨fun h => ?_, nodup_eraseDups _⟩
    have := (List.mem_filter.1 (List.mem_eraseDups.1 h)).2
    simp at this
termination_by l => l.length
decreasing_by exact Nat.lt_succ_of_le (List.length_filter_le _ _)

theorem nodup_selected : plan.selected.Nodup := nodup_eraseDups _

theorem mem_selected {id : Int} :
    id ∈ plan.selected ↔ id ∈ plan.selectedChildRunIds ∧ (plan.branch id).isSome := by
  rw [ControllerAssignmentPlan.selected, List.mem_eraseDups, List.mem_filter]

/-! ## Retained samplers -/

theorem retainSamplers_cons_of (h : SamplerOf selected e) :
    plan.retainSamplers selected (e :: reusable) activated =
      (if e.2.runId ∉ activated ∨ e.2.runId ∈ plan.controllers then
        e :: (plan.retainSamplers selected reusable (insert e.2.runId activated)).1
      else (plan.retainSamplers selected reusable (insert e.2.runId activated)).1,
      (plan.retainSamplers selected reusable (insert e.2.runId activated)).2) := by
  rw [retainSamplers, if_pos h]
  dsimp only
  split <;> rfl

theorem retainSamplers_cons_of_not (h : ¬SamplerOf selected e) :
    plan.retainSamplers selected (e :: reusable) activated =
      plan.retainSamplers selected reusable activated := by
  rw [retainSamplers, if_neg h]

theorem retained_sublist : (plan.retainSamplers selected reusable activated).1.Sublist reusable := by
  induction reusable generalizing activated with
  | nil => exact List.Sublist.refl _
  | cons e rest ih =>
    by_cases h : SamplerOf selected e
    · rw [retainSamplers_cons_of h]
      dsimp only
      split
      · exact ih.cons_cons e
      · exact ih.cons e
    · rw [retainSamplers_cons_of_not h]
      exact ih.cons e

theorem samplerOf_of_retained (h : e ∈ (plan.retainSamplers selected reusable activated).1) :
    SamplerOf selected e := by
  induction reusable generalizing activated with
  | nil => cases h
  | cons e' rest ih =>
    by_cases h' : SamplerOf selected e'
    · rw [retainSamplers_cons_of h'] at h
      dsimp only at h
      split at h
      · rcases List.mem_cons.1 h with rfl | h
        · exact h'
        · exact ih h
      · exact ih h
    · rw [retainSamplers_cons_of_not h'] at h
      exact ih h

theorem mem_activated :
    c ∈ (plan.retainSamplers selected reusable activated).2 ↔
      c ∈ activated ∨ c ∈ selected ∧ ∃ e ∈ reusable, SamplerAt c e := by
  induction reusable generalizing activated with
  | nil => simp [retainSamplers]
  | cons e rest ih =>
    by_cases h : SamplerOf selected e
    · rw [retainSamplers_cons_of h, ih, Finset.mem_insert]
      constructor
      · rintro ((rfl | hc) | ⟨hc, e', he', hat⟩)
        · exact .inr ⟨h.2, e, List.mem_cons_self, h.1, rfl⟩
        · exact .inl hc
        · exact .inr ⟨hc, e', List.mem_cons_of_mem _ he', hat⟩
      · rintro (hc | ⟨hc, e', he', hat⟩)
        · exact .inl (.inr hc)
        · rcases List.mem_cons.1 he' with rfl | he'
          · exact .inl (.inl hat.2.symm)
          · exact .inr ⟨hc, e', he', hat⟩
    · rw [retainSamplers_cons_of_not h, ih]
      refine or_congr_right (and_congr_right fun hc => ?_)
      constructor
      · rintro ⟨e', he', hat⟩
        exact ⟨e', List.mem_cons_of_mem _ he', hat⟩
      · rintro ⟨e', he', hat⟩
        rcases List.mem_cons.1 he' with rfl | he'
        · exact absurd ⟨hat.1, hat.2 ▸ hc⟩ h
        · exact ⟨e', he', hat⟩

/-- Every newly activated child has a retained sampler. -/
theorem exists_retained (h : c ∈ (plan.retainSamplers selected reusable activated).2)
    (hc : c ∉ activated) :
    ∃ e ∈ (plan.retainSamplers selected reusable activated).1, e.2.runId = c := by
  induction reusable generalizing activated with
  | nil => exact absurd h hc
  | cons e rest ih =>
    by_cases he : SamplerOf selected e
    · rw [retainSamplers_cons_of he] at h ⊢
      dsimp only at h ⊢
      by_cases hec : e.2.runId = c
      · rw [if_pos (.inl (hec ▸ hc))]
        exact ⟨e, List.mem_cons_self, hec⟩
      · obtain ⟨e', he', hrun⟩ := ih h (by simp [Ne.symm hec, hc])
        refine ⟨e', ?_, hrun⟩
        split
        · exact List.mem_cons_of_mem _ he'
        · exact he'
    · rw [retainSamplers_cons_of_not he] at h ⊢
      exact ih h hc

/-- A child that is no controller retains one sampler, and none once it is activated. -/
theorem countP_retained_le (hc : c ∉ plan.controllers) :
    (plan.retainSamplers selected reusable activated).1.countP (·.2.runId = c) ≤ 1 ∧
      (c ∈ activated →
        (plan.retainSamplers selected reusable activated).1.countP (·.2.runId = c) = 0) := by
  induction reusable generalizing activated with
  | nil => simp [retainSamplers]
  | cons e rest ih =>
    by_cases he : SamplerOf selected e
    · rw [retainSamplers_cons_of he]
      obtain ⟨hone, hzero⟩ := @ih (insert e.2.runId activated)
      dsimp only
      by_cases hec : e.2.runId = c
      · have hnone := hzero (Finset.mem_insert.2 (.inl hec.symm))
        subst hec
        split
        · rename_i hnew
          rw [List.countP_cons_of_pos (by simp), hnone]
          exact ⟨le_rfl, fun hact => absurd hact (hnew.resolve_right hc)⟩
        · exact ⟨hone, fun _ => hnone⟩
      · have hskip : ∀ l : Placements, (e :: l).countP (·.2.runId = c) = l.countP (·.2.runId = c) :=
          fun l => List.countP_cons_of_neg (by simpa using hec)
        split
        · rw [hskip]
          exact ⟨hone, fun hact => hzero (Finset.mem_insert_of_mem hact)⟩
        · exact ⟨hone, fun hact => hzero (Finset.mem_insert_of_mem hact)⟩
    · rw [retainSamplers_cons_of_not he]
      exact ih

theorem mem_retained_of_controller (he : e ∈ reusable) (hs : SamplerOf selected e)
    (hc : e.2.runId ∈ plan.controllers) :
    e ∈ (plan.retainSamplers selected reusable activated).1 := by
  induction reusable generalizing activated with
  | nil => cases he
  | cons e' rest ih =>
    by_cases h' : SamplerOf selected e'
    · rw [retainSamplers_cons_of h']
      dsimp only
      rcases List.mem_cons.1 he with rfl | he
      · rw [if_pos (.inr hc)]
        exact List.mem_cons_self
      · split
        · exact List.mem_cons_of_mem _ (ih he)
        · exact ih he
    · rw [retainSamplers_cons_of_not h']
      rcases List.mem_cons.1 he with rfl | he
      · exact absurd hs h'
      · exact ih he

/-- Where no child but a controller has two samplers, all samplers of selected children stay. -/
theorem retained_of_unique
    (h : ∀ c ∈ selected, c ∉ plan.controllers →
      reusable.countP (SamplerAt c ·) ≤ 1 ∧ (c ∈ activated → reusable.countP (SamplerAt c ·) = 0)) :
    (plan.retainSamplers selected reusable activated).1 = reusable.filter (SamplerOf selected ·) := by
  induction reusable generalizing activated with
  | nil => rfl
  | cons e rest ih =>
    by_cases he : SamplerOf selected e
    · have hcons : (e :: rest).filter (SamplerOf selected ·) = e :: rest.filter (SamplerOf selected ·) :=
        List.filter_cons_of_pos (decide_eq_true he)
      have hnew : e.2.runId ∉ activated ∨ e.2.runId ∈ plan.controllers := by
        by_cases hctl : e.2.runId ∈ plan.controllers
        · exact .inr hctl
        · refine .inl fun hact => ?_
          have hnone := List.countP_eq_zero.1 ((h e.2.runId he.2 hctl).2 hact) e List.mem_cons_self
          exact hnone (decide_eq_true ⟨he.1, rfl⟩)
      rw [retainSamplers_cons_of he, hcons]
      dsimp only
      rw [if_pos hnew, ih]
      intro c hc hctl
      obtain ⟨hone, hzero⟩ := h c hc hctl
      rw [List.countP_cons] at hone hzero
      refine ⟨by omega, fun hact => ?_⟩
      rcases Finset.mem_insert.1 hact with rfl | hact
      · rw [if_pos (decide_eq_true ⟨he.1, rfl⟩)] at hone
        omega
      · have := hzero hact
        omega
    · have hcons : (e :: rest).filter (SamplerOf selected ·) = rest.filter (SamplerOf selected ·) :=
        List.filter_cons_of_neg (by simpa using he)
      rw [retainSamplers_cons_of_not he, hcons]
      refine ih fun c hc hctl => ?_
      obtain ⟨hone, hzero⟩ := h c hc hctl
      rw [List.countP_cons] at hone hzero
      refine ⟨by omega, fun hact => ?_⟩
      have := hzero hact
      omega

/-! ## Placed samplers -/

theorem placeSamplers_eq :
    plan.placeSamplers selected reusable =
      ((plan.retainSamplers selected reusable ∅).1 ++
          (plan.filledChildren selected reusable ++ plan.surplusSamplers selected reusable),
        (plan.retainSamplers selected reusable ∅).2 ∪
          ((plan.filledChildren selected reusable ++ plan.surplusSamplers selected reusable).map
            fun e => e.2.runId).toFinset) := rfl

theorem mem_samplerNodes (h : reusable.Ascending) {name : String} :
    name ∈ plan.samplerNodes selected reusable ↔
      ∃ e ∈ reusable, e.1 = name ∧ e.2.role = .samplerAggregator ∧
        e ∉ (plan.retainSamplers selected reusable ∅).1 := by
  unfold samplerNodes
  rw [List.mem_map]
  constructor
  · rintro ⟨e, he, rfl⟩
    obtain ⟨he, hp⟩ := List.mem_filter.1 he
    rw [Bool.and_eq_true, decide_eq_true_eq, Bool.not_eq_true', List.contains_eq_mem,
      decide_eq_false_iff_not] at hp
    exact ⟨e, he, rfl, hp.1, fun hret => hp.2 (List.mem_map_of_mem hret)⟩
  · rintro ⟨e, he, rfl, hrole, hnot⟩
    refine ⟨e, List.mem_filter.2 ⟨he, ?_⟩, rfl⟩
    rw [Bool.and_eq_true, decide_eq_true_eq, Bool.not_eq_true', List.contains_eq_mem,
      decide_eq_false_iff_not]
    refine ⟨hrole, fun hmem => hnot ?_⟩
    obtain ⟨e', he', hname⟩ := List.mem_map.1 hmem
    rwa [← List.inj_on_of_nodup_map h.nodup (retained_sublist.subset he') he hname]

theorem nodup_samplerNodes (h : reusable.Ascending) :
    (plan.samplerNodes selected reusable).Nodup :=
  h.nodup.sublist (List.filter_sublist.map _)

theorem map_snd_zip_eq_take {α β : Type*} (l : List α) (r : List β) :
    (l.zip r).map (·.2) = r.take l.length := by
  induction l generalizing r with
  | nil => rfl
  | cons a l ih =>
    cases r with
    | nil => rfl
    | cons b r => rw [List.zip_cons_cons, List.map_cons, ih, List.length_cons, List.take_succ_cons]

theorem map_fst_zip_eq_take {α β : Type*} (l : List α) (r : List β) :
    (l.zip r).map (·.1) = l.take r.length := by
  induction l generalizing r with
  | nil => simp
  | cons a l ih =>
    cases r with
    | nil => rfl
    | cons b r => rw [List.zip_cons_cons, List.map_cons, ih, List.length_cons, List.take_succ_cons]

/-- The children are filled in the order of their selection. -/
theorem names_filledChildren :
    (plan.filledChildren selected reusable).map (·.1) =
      (plan.samplerNodes selected reusable).take
        (plan.childrenNeedingSampler selected reusable).length := by
  rw [← map_snd_zip_eq_take, filledChildren, List.map_map]
  rfl

theorem runs_filledChildren :
    (plan.filledChildren selected reusable).map (fun e => e.2.runId) =
      (plan.childrenNeedingSampler selected reusable).take
        (plan.samplerNodes selected reusable).length := by
  rw [← map_fst_zip_eq_take, filledChildren, List.map_map]
  rfl

theorem names_surplus_sublist :
    ((plan.surplusSamplers selected reusable).map (·.1)).Sublist
      ((plan.samplerNodes selected reusable).drop
        (plan.childrenNeedingSampler selected reusable).length) := by
  unfold surplusSamplers
  generalize (plan.samplerNodes selected reusable).drop _ = names
  generalize 0 = k
  induction names generalizing k with
  | nil => exact List.Sublist.refl _
  | cons name names ih =>
    rw [List.zipIdx_cons, List.filterMap_cons]
    split
    · exact (ih (k + 1)).cons name
    · rename_i e he
      obtain ⟨runId, -, rfl⟩ := Option.map_eq_some_iff.1 he
      exact (ih (k + 1)).cons_cons name

/-- With a nested controller every spare sampler gets a place. -/
theorem names_surplus (h : selected.filter (· ∈ plan.controllers) ≠ []) :
    (plan.surplusSamplers selected reusable).map (·.1) =
      (plan.samplerNodes selected reusable).drop
        (plan.childrenNeedingSampler selected reusable).length := by
  unfold surplusSamplers
  generalize (plan.samplerNodes selected reusable).drop _ = names
  generalize 0 = k
  induction names generalizing k with
  | nil => rfl
  | cons name names ih =>
    have hlt := Nat.mod_lt k (List.length_pos_iff.2 h)
    rw [List.zipIdx_cons, List.filterMap_cons, List.getElem?_eq_getElem hlt]
    exact congrArg (name :: ·) (ih (k + 1))

theorem surplus_of_mem (h : e ∈ plan.surplusSamplers selected reusable) :
    SamplerOf selected e ∧ e.2.runId ∈ plan.controllers := by
  obtain ⟨p, -, hp⟩ := List.mem_filterMap.1 h
  obtain ⟨runId, hrun, rfl⟩ := Option.map_eq_some_iff.1 hp
  obtain ⟨hsel, hctl⟩ := List.mem_filter.1 (List.mem_of_getElem? hrun)
  exact ⟨⟨rfl, hsel⟩, of_decide_eq_true hctl⟩

theorem filled_of_mem (h : e ∈ plan.filledChildren selected reusable) :
    e.2.role = .samplerAggregator ∧ e.2.runId ∈ plan.childrenNeedingSampler selected reusable := by
  obtain ⟨p, hp, rfl⟩ := List.mem_map.1 h
  exact ⟨rfl, (List.of_mem_zip hp).1⟩

/-- The names of the samplers that are moved are those of spare samplers. -/
theorem names_moved_sublist :
    ((plan.filledChildren selected reusable ++ plan.surplusSamplers selected reusable).map
      (·.1)).Sublist (plan.samplerNodes selected reusable) := by
  rw [List.map_append, names_filledChildren]
  conv_rhs => rw [← List.take_append_drop (plan.childrenNeedingSampler selected reusable).length
    (plan.samplerNodes selected reusable)]
  exact (List.Sublist.refl _).append names_surplus_sublist

section Placed

variable (hreusable : reusable.Ascending)
include hreusable

theorem keys_placeSamplers_nodup : (plan.placeSamplers selected reusable).1.keys.Nodup := by
  rw [placeSamplers_eq, OrdMap.keys, List.map_append]
  refine List.nodup_append.2 ⟨hreusable.nodup.sublist (retained_sublist.map _),
    (nodup_samplerNodes hreusable).sublist names_moved_sublist, ?_⟩
  rintro name hname name' hname' rfl
  obtain ⟨e, he, rfl⟩ := List.mem_map.1 hname
  obtain ⟨e', he', hnames, -, hnot⟩ :=
    (mem_samplerNodes hreusable).1 (names_moved_sublist.subset hname')
  exact hnot (List.inj_on_of_nodup_map hreusable.nodup he' (retained_sublist.subset he) hnames ▸ he)

/-- A placed sampler is a sampler of the pool, with a selected child. -/
theorem placed_of_mem (h : e ∈ (plan.placeSamplers selected reusable).1) :
    SamplerOf selected e ∧ ∃ a, (e.1, a) ∈ reusable ∧ a.role = .samplerAggregator := by
  have hmoved : ∀ e ∈ plan.filledChildren selected reusable ++ plan.surplusSamplers selected reusable,
      ∃ a, (e.1, a) ∈ reusable ∧ a.role = .samplerAggregator := by
    intro e he
    obtain ⟨e', he', hname, hrole, -⟩ := (mem_samplerNodes hreusable).1
      (names_moved_sublist.subset (List.mem_map_of_mem he))
    exact ⟨e'.2, hname ▸ he', hrole⟩
  rw [placeSamplers_eq] at h
  rcases List.mem_append.1 h with h | h
  · have hs := samplerOf_of_retained h
    exact ⟨hs, e.2, retained_sublist.subset h, hs.1⟩
  · refine ⟨?_, hmoved e h⟩
    rcases List.mem_append.1 h with h | h
    · obtain ⟨hrole, hneeding⟩ := filled_of_mem h
      exact ⟨hrole, (List.mem_filter.1 hneeding).1⟩
    · exact (surplus_of_mem h).1

end Placed

/-- The activated children are those with a placed sampler. -/
theorem mem_activated_iff :
    c ∈ (plan.placeSamplers selected reusable).2 ↔
      ∃ e ∈ (plan.placeSamplers selected reusable).1, e.2.runId = c := by
  rw [placeSamplers_eq]
  dsimp only
  rw [Finset.mem_union, List.mem_toFinset, List.mem_map]
  constructor
  · rintro (hc | ⟨e, he, rfl⟩)
    · obtain ⟨e, he, hrun⟩ := exists_retained hc (Finset.notMem_empty c)
      exact ⟨e, List.mem_append_left _ he, hrun⟩
    · exact ⟨e, List.mem_append_right _ he, rfl⟩
  · rintro ⟨e, he, rfl⟩
    rcases List.mem_append.1 he with he | he
    · have hs := samplerOf_of_retained he
      exact .inl (mem_activated.2 (.inr ⟨hs.2, e, retained_sublist.subset he, hs.1, rfl⟩))
    · exact .inr ⟨e, he, rfl⟩

/-- A selected child that is no controller gets at most one sampler. -/
theorem countP_placed_le (hselected : selected.Nodup) (hc : c ∉ plan.controllers) :
    (plan.placeSamplers selected reusable).1.countP (·.2.runId = c) ≤ 1 := by
  obtain ⟨hone, -⟩ := @countP_retained_le plan selected reusable ∅ c hc
  have hsurplus : (plan.surplusSamplers selected reusable).countP (·.2.runId = c) = 0 :=
    List.countP_eq_zero.2 fun e he hrun => hc (of_decide_eq_true hrun ▸ (surplus_of_mem he).2)
  have hfilled : (plan.filledChildren selected reusable).countP (·.2.runId = c) =
      ((plan.childrenNeedingSampler selected reusable).take
        (plan.samplerNodes selected reusable).length).count c := by
    rw [← runs_filledChildren, List.count, List.countP_map]
    rfl
  have hneeding : (plan.childrenNeedingSampler selected reusable).Nodup := hselected.filter _
  rw [placeSamplers_eq]
  dsimp only
  rw [List.countP_append, List.countP_append, hsurplus, hfilled]
  by_cases hact : c ∈ (plan.retainSamplers selected reusable ∅).2
  · have : c ∉ (plan.childrenNeedingSampler selected reusable).take
        (plan.samplerNodes selected reusable).length := fun hmem => by
      have := (List.mem_filter.1 (List.mem_of_mem_take hmem)).2
      exact of_decide_eq_true this hact
    rw [List.count_eq_zero.2 this]
    omega
  · have hretained : (plan.retainSamplers selected reusable ∅).1.countP (·.2.runId = c) = 0 :=
      List.countP_eq_zero.2 fun e he hrun => hact <| by
        have hs := samplerOf_of_retained he
        have hrun : e.2.runId = c := of_decide_eq_true hrun
        exact mem_activated.2 (.inr ⟨hrun ▸ hs.2, e, retained_sublist.subset he, hs.1, hrun⟩)
    have := List.nodup_iff_count_le_one.1 (hneeding.sublist (List.take_sublist
      (plan.samplerNodes selected reusable).length _)) c
    omega

/-- Either every sampler of the pool has a place, or every selected child has a sampler and none
is a controller. -/
theorem all_placed_or (hreusable : reusable.Ascending) :
    (∀ e ∈ reusable, e.2.role = .samplerAggregator →
        e.1 ∈ (plan.placeSamplers selected reusable).1.keys) ∨
      (∀ c ∈ selected, c ∈ (plan.placeSamplers selected reusable).2) ∧
        ∀ c ∈ selected, c ∉ plan.controllers := by
  have hplaced : (∀ name ∈ plan.samplerNodes selected reusable,
      name ∈ (plan.filledChildren selected reusable ++ plan.surplusSamplers selected reusable).map
        (·.1)) → ∀ e ∈ reusable, e.2.role = .samplerAggregator →
        e.1 ∈ (plan.placeSamplers selected reusable).1.keys := by
    intro h e he hrole
    rw [placeSamplers_eq, OrdMap.keys, List.map_append, List.mem_append]
    by_cases hret : e ∈ (plan.retainSamplers selected reusable ∅).1
    · exact .inl (List.mem_map_of_mem hret)
    · exact .inr (h e.1 ((mem_samplerNodes hreusable).2 ⟨e, he, rfl, hrole, hret⟩))
  rcases Nat.lt_or_ge (plan.childrenNeedingSampler selected reusable).length
      (plan.samplerNodes selected reusable).length with hlt | hge
  · by_cases hnested : selected.filter (· ∈ plan.controllers) = []
    · refine .inr ⟨fun c hc => ?_, fun c hc hctl => ?_⟩
      · rw [placeSamplers_eq]
        dsimp only
        rw [Finset.mem_union, List.mem_toFinset, List.map_append, runs_filledChildren,
          List.take_of_length_le hlt.le, List.mem_append]
        by_cases hact : c ∈ (plan.retainSamplers selected reusable ∅).2
        · exact .inl hact
        · exact .inr (.inl (List.mem_filter.2 ⟨hc, decide_eq_true hact⟩))
      · exact (List.filter_eq_nil_iff.1 hnested) c hc (decide_eq_true hctl)
    · refine .inl (hplaced fun name hname => ?_)
      rwa [List.map_append, names_filledChildren, names_surplus hnested, List.take_append_drop]
  · refine .inl (hplaced fun name hname => ?_)
    rw [List.map_append, names_filledChildren, List.take_of_length_le hge]
    exact List.mem_append_left _ hname

/-- Samplers that already fit are placed where they are. -/
theorem placeSamplers_settled (hreusable : reusable.Ascending)
    (hunique : ∀ c ∈ selected, c ∉ plan.controllers → reusable.countP (SamplerAt c ·) ≤ 1)
    (hspare : (∀ e ∈ reusable, e.2.role = .samplerAggregator → e.2.runId ∈ selected) ∨
      (∀ c ∈ selected, ∃ e ∈ reusable, SamplerAt c e) ∧ ∀ c ∈ selected, c ∉ plan.controllers) :
    (plan.placeSamplers selected reusable).1 = reusable.filter (SamplerOf selected ·) := by
  have hretained : (plan.retainSamplers selected reusable ∅).1 =
      reusable.filter (SamplerOf selected ·) :=
    retained_of_unique fun c hc hctl => ⟨hunique c hc hctl, fun h => absurd h (Finset.notMem_empty c)⟩
  have hmoved : plan.filledChildren selected reusable = [] ∧
      plan.surplusSamplers selected reusable = [] := by
    rcases hspare with hall | ⟨hneeding, hnested⟩
    · have hnames : plan.samplerNodes selected reusable = [] := by
        refine List.eq_nil_iff_forall_not_mem.2 fun name hname => ?_
        obtain ⟨e, he, -, hrole, hnot⟩ := (mem_samplerNodes hreusable).1 hname
        rw [hretained] at hnot
        exact hnot (List.mem_filter.2 ⟨he, decide_eq_true ⟨hrole, hall e he hrole⟩⟩)
      exact ⟨by rw [filledChildren, hnames, List.zip_nil_right, List.map_nil],
        by rw [surplusSamplers, hnames, List.drop_nil]; rfl⟩
    · have hnone : plan.childrenNeedingSampler selected reusable = [] :=
        List.filter_eq_nil_iff.2 fun c hc hact =>
          of_decide_eq_true hact (mem_activated.2 (.inr ⟨hc, hneeding c hc⟩))
      have hctl : selected.filter (· ∈ plan.controllers) = [] :=
        List.filter_eq_nil_iff.2 fun c hc hmem => hnested c hc (of_decide_eq_true hmem)
      refine ⟨by rw [filledChildren, hnone, List.zip_nil_left, List.map_nil], ?_⟩
      refine List.filterMap_eq_nil_iff.2 fun p _ => ?_
      rw [hctl]
      rfl
  rw [placeSamplers_eq, hretained, hmoved.1, hmoved.2, List.append_nil, List.append_nil]

/-! ## Placed evaluators -/

def evaluators (reusable : Placements) : Placements := reusable.filter fun e => e.2.role = .evaluator

/-- The evaluators each activated child is to get. -/
def shares (activated : Finset Int) (reusable : Placements) : OrdMap Int Nat :=
  Quota.evenShares (evaluators reusable).length (inOrder activated)

theorem placeEvaluators_eq (h : activated ≠ ∅) :
    placeEvaluators activated reusable =
      (Quota.fill (fun e => e.2.runId) (evaluators reusable) (shares activated reusable)).map
        fun p => (p.1.1, ⟨.evaluator, p.2⟩) := by
  unfold placeEvaluators
  rw [if_neg h]
  rfl

theorem inOrder_pairwise_lt : (inOrder activated).Pairwise (· < ·) :=
  (Finset.sortedLT_sort activated).pairwise

theorem mem_inOrder {c : Int} : c ∈ inOrder activated ↔ c ∈ activated := Finset.mem_sort _

theorem total_shares (h : activated ≠ ∅) :
    Quota.total (shares activated reusable) = (evaluators reusable).length :=
  Quota.total_evenShares inOrder_pairwise_lt fun hnil => h (by
    rw [← Finset.sort_toFinset activated (· ≤ ·)]
    exact congrArg List.toFinset hnil)

theorem names_placeEvaluators (h : activated ≠ ∅) :
    ((placeEvaluators activated reusable).map (·.1)).Perm ((evaluators reusable).map (·.1)) := by
  rw [placeEvaluators_eq h, List.map_map]
  have hperm : ((Quota.fill (fun e : String × AssignmentTarget => e.2.runId) (evaluators reusable)
      (shares activated reusable)).map (·.1)).Perm (evaluators reusable) :=
    Quota.fill_perm Quota.ascending_evenShares (total_shares h)
  have hnames := hperm.map (·.1)
  rwa [List.map_map] at hnames

theorem countP_placeEvaluators (h : activated ≠ ∅) :
    (placeEvaluators activated reusable).countP (·.2.runId = c) =
      Quota.quota (shares activated reusable) c := by
  rw [placeEvaluators_eq h, List.countP_map]
  exact Quota.count_fill Quota.ascending_evenShares (total_shares h) c

theorem evaluator_of_placed (h : e ∈ placeEvaluators activated reusable) :
    e.2.role = .evaluator ∧ e.2.runId ∈ activated ∧
      ∃ a, (e.1, a) ∈ reusable ∧ a.role = .evaluator := by
  have hne : activated ≠ ∅ := by
    rintro rfl
    cases h
  have hname := (names_placeEvaluators hne).subset (List.mem_map_of_mem h)
  obtain ⟨e', he', hname⟩ := List.mem_map.1 hname
  obtain ⟨he', hrole⟩ := List.mem_filter.1 he'
  refine ⟨?_, ?_, e'.2, hname ▸ he', of_decide_eq_true hrole⟩
  · rw [placeEvaluators_eq hne] at h
    obtain ⟨p, -, rfl⟩ := List.mem_map.1 h
    rfl
  · by_contra hnot
    have hzero : (placeEvaluators activated reusable).countP (·.2.runId = e.2.runId) = 0 := by
      rw [countP_placeEvaluators hne]
      exact Quota.quota_evenShares_of_notMem (mt mem_inOrder.1 hnot)
    exact List.countP_eq_zero.1 hzero e h (decide_eq_true rfl)

/-- Evaluators within the shares are placed where they are. -/
theorem placeEvaluators_settled (h : activated ≠ ∅)
    (hle : ∀ c, (evaluators reusable).countP (·.2.runId = c) ≤
      Quota.quota (shares activated reusable) c) :
    placeEvaluators activated reusable = evaluators reusable := by
  rw [placeEvaluators_eq h, Quota.fill_of_le hle, List.map_map]
  conv_rhs => rw [← List.map_id (evaluators reusable)]
  refine List.map_congr_left fun e he => ?_
  have hrole : e.2.role = .evaluator := of_decide_eq_true (List.mem_filter.1 he).2
  obtain ⟨name, role, runId⟩ := e
  cases hrole
  rfl

end Gammaboard.Runners.ControllerAssignmentPlan
