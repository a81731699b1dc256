import Gammaboard.Lib.OrdMap
import Mathlib.Algebra.Order.Ring.Int
import Mathlib.Data.Bool.Basic
import Mathlib.Data.List.Perm.Basic
import Mathlib.Data.Prod.Lex
import Mathlib.Order.Compare
import Mathlib.Order.Lex
import Mathlib.Tactic.Common

/-!
# Scheduling the children of a campaign

`schedule_children` of `runners/integration_campaign.rs`: incumbents with an
unfinished grant keep their slots, the others are filled in the order of a
comparator. Floats are of any type with the operations of `f64` and the order of
`total_cmp`.
-/

namespace Gammaboard.Runners.IntegrationCampaign

open Gammaboard.Lib

variable {F : Type}

structure MeasurementResult (F : Type) where
  uncertainty : Option F
  sampleCount : Int

inductive TaskMeasurementOutput (F : Type) where
  | completed (results : List (MeasurementResult F))
  | failed (reason : String)

/-- What the scheduling reads of a child. -/
structure ChildState (F : Type) where
  finalStageReady : Bool
  workSamples : Int
  coefficient : F
  runId : Int
  completedSamplesPerSecond : Option F
  measurement : Option (TaskMeasurementOutput F)

inductive AllocationAlgorithm where
  | largestVariance
  | varianceReductionRate

structure AllocationSpec where
  minSamplesPerChild : Int
  algorithm : AllocationAlgorithm

namespace ChildState

variable (child : ChildState F)

def results : Option (List (MeasurementResult F)) :=
  match child.measurement with
  | some (.completed results) => some results
  | some (.failed _) => none
  | none => none

def sampleCount : Int := (child.results.bind fun results => (results.map (·.sampleCount)).max?).getD 0

def needsPilot (minimum : Int) : Bool :=
  !child.finalStageReady || decide (child.sampleCount < minimum) ||
    match child.results with
    | none => true
    | some results => results.any fun result => result.uncertainty.isNone

variable [Zero F] [Add F] [Mul F] [Div F] [IntCast F] [Pow F Nat]

def score (algorithm : AllocationAlgorithm) : Option F := do
  let results ← child.results
  let variance ← results.foldlM (fun sum result => do
    let uncertainty ← result.uncertainty
    return sum + child.coefficient ^ 2 * uncertainty ^ 2) 0
  match algorithm with
  | .largestVariance => return variance
  | .varianceReductionRate =>
    let samples : F := ((max child.sampleCount 1 : Int) : F)
    let throughput ← child.completedSamplesPerSecond
    return variance * throughput / samples

end ChildState

/-- The arguments of the scheduling besides the children and the number of slots. -/
structure Schedule where
  grants : OrdMap Int Int
  incumbents : List Int
  eligible : List Int
  allocation : AllocationSpec

namespace Schedule

variable [Zero F] [Add F] [Mul F] [Div F] [IntCast F] [Pow F Nat] [LinearOrder F]
  (schedule : Schedule) (states : List (ChildState F)) (capacity : Nat)

def unfinished (child : ChildState F) : Bool :=
  child.workSamples < (schedule.grants.get child.runId).getD 0

def pilot (child : ChildState F) : Bool := child.needsPilot schedule.allocation.minSamplesPerChild

def scoreOr (child : ChildState F) : F := (child.score schedule.allocation.algorithm).getD 0

/-- The comparator of `sort_by`. -/
def compareChildren (a b : ChildState F) : Ordering :=
  (compare (schedule.unfinished b) (schedule.unfinished a)).then <|
    (compare (schedule.pilot b) (schedule.pilot a)).then <|
      (if schedule.pilot a then compare a.workSamples b.workSamples
        else compare (schedule.scoreOr b) (schedule.scoreOr a)).then <|
        (compare (schedule.incumbents.contains b.runId) (schedule.incumbents.contains a.runId)).then
          (compare a.runId b.runId)

/-- The incumbents that keep a slot, were there enough of them. -/
def retained : List Int :=
  schedule.incumbents.filter fun id => schedule.eligible.contains id &&
    states.any fun child => decide (child.runId = id) &&
      decide (child.workSamples < (schedule.grants.get id).getD 0)

/-- The children that compete for the other slots. -/
def candidates (selected : List Int) : List (ChildState F) :=
  (states.filter fun child =>
    schedule.eligible.contains child.runId && !selected.contains child.runId).mergeSort
      fun a b => (schedule.compareChildren a b).isLE

end Schedule

def scheduleChildren [Zero F] [Add F] [Mul F] [Div F] [IntCast F] [Pow F Nat] [LinearOrder F]
    (schedule : Schedule) (states : List (ChildState F)) (capacity : Nat) : List Int :=
  let selected := (schedule.retained states).take capacity
  selected ++ ((schedule.candidates states selected).take (capacity - selected.length)).map (·.runId)

/-! ## The order of the comparator -/

section Order

variable [Zero F] [Add F] [Mul F] [Div F] [IntCast F] [Pow F Nat] [LinearOrder F]
  {schedule : Schedule} {a b c : ChildState F}

/-- A child comes before another: by its unfinished grant, as a pilot, by fewer samples of pilots or
a higher score of others, as an incumbent, by its run id. -/
def Precedes (schedule : Schedule) (a b : ChildState F) : Prop :=
  schedule.unfinished b < schedule.unfinished a ∨ schedule.unfinished a = schedule.unfinished b ∧
    (schedule.pilot b < schedule.pilot a ∨ schedule.pilot a = schedule.pilot b ∧
      ((if schedule.pilot a then a.workSamples < b.workSamples
          else schedule.scoreOr b < schedule.scoreOr a) ∨
        (if schedule.pilot a then a.workSamples = b.workSamples
          else schedule.scoreOr a = schedule.scoreOr b) ∧
          (schedule.incumbents.contains b.runId < schedule.incumbents.contains a.runId ∨
            schedule.incumbents.contains a.runId = schedule.incumbents.contains b.runId ∧
              a.runId < b.runId)))

abbrev Key (F : Type) := Boolᵒᵈ ×ₗ Boolᵒᵈ ×ₗ Int ×ₗ Fᵒᵈ ×ₗ Boolᵒᵈ ×ₗ Int

/-- The comparator compares these keys: pilots have no score, and the others no samples. -/
def keyOf (schedule : Schedule) (child : ChildState F) : Key F :=
  toLex (.toDual (schedule.unfinished child), toLex (.toDual (schedule.pilot child),
    toLex (if schedule.pilot child then child.workSamples else 0,
      toLex (.toDual (if schedule.pilot child then 0 else schedule.scoreOr child),
        toLex (.toDual (schedule.incumbents.contains child.runId), child.runId)))))

theorem isLE_then {o p : Ordering} : (o.then p).isLE ↔ o = .lt ∨ o = .eq ∧ p.isLE := by
  cases o <;> simp [Ordering.then]

theorem keyOf_lt_iff : keyOf schedule a < keyOf schedule b ↔ Precedes schedule a b := by
  unfold keyOf Precedes
  rw [Prod.Lex.toLex_lt_toLex, Prod.Lex.toLex_lt_toLex, Prod.Lex.toLex_lt_toLex,
    Prod.Lex.toLex_lt_toLex, Prod.Lex.toLex_lt_toLex]
  simp only [OrderDual.toDual_lt_toDual, OrderDual.toDual_inj]
  refine or_congr_right (and_congr_right fun _ => or_congr_right (and_congr_right fun hpilot => ?_))
  rw [← hpilot]
  by_cases h : schedule.pilot a
  · simp [h]
  · simp [h]

/-- The comparator compares the keys. -/
theorem isLE_compareChildren :
    (schedule.compareChildren a b).isLE ↔ keyOf schedule a ≤ keyOf schedule b := by
  unfold Schedule.compareChildren keyOf
  rw [Prod.Lex.toLex_le_toLex, Prod.Lex.toLex_le_toLex, Prod.Lex.toLex_le_toLex,
    Prod.Lex.toLex_le_toLex, Prod.Lex.toLex_le_toLex, isLE_then, isLE_then, isLE_then, isLE_then]
  simp only [OrderDual.toDual_lt_toDual, OrderDual.toDual_inj, compare_lt_iff_lt, compare_eq_iff_eq]
  have hid : (compare a.runId b.runId).isLE ↔ a.runId ≤ b.runId := by
    rw [← Ordering.ne_gt_iff_isLE]
    exact compare_le_iff_le
  rw [hid, eq_comm (a := schedule.unfinished b), eq_comm (a := schedule.pilot b),
    eq_comm (a := schedule.incumbents.contains b.runId)]
  refine or_congr_right (and_congr_right fun _ => or_congr_right (and_congr_right fun hpilot => ?_))
  rw [← hpilot]
  by_cases h : schedule.pilot a
  · simp [h, compare_lt_iff_lt]
  · simp [h, compare_lt_iff_lt, eq_comm (a := schedule.scoreOr b)]

end Order

/-! ## The schedule -/

section Retained

variable {schedule : Schedule} {states : List (ChildState F)} {id : Int}

theorem mem_retained : id ∈ schedule.retained states ↔ id ∈ schedule.incumbents ∧
    id ∈ schedule.eligible ∧ ∃ child ∈ states, child.runId = id ∧ schedule.unfinished child := by
  unfold Schedule.retained Schedule.unfinished
  rw [List.mem_filter, Bool.and_eq_true, List.contains_iff_mem, List.any_eq_true]
  refine and_congr_right fun _ => and_congr_right fun _ => ?_
  constructor
  · rintro ⟨child, hmem, hchild⟩
    rw [Bool.and_eq_true, decide_eq_true_eq] at hchild
    obtain ⟨rfl, hgrant⟩ := hchild
    exact ⟨child, hmem, rfl, hgrant⟩
  · rintro ⟨child, hmem, rfl, hgrant⟩
    refine ⟨child, hmem, ?_⟩
    rw [Bool.and_eq_true, decide_eq_true_eq]
    exact ⟨rfl, hgrant⟩

theorem retained_perm {others : List (ChildState F)} (hperm : others.Perm states) :
    schedule.retained others = schedule.retained states := by
  unfold Schedule.retained
  refine List.filter_congr fun id _ => ?_
  rw [hperm.any_eq]

end Retained

section Result

variable [Zero F] [Add F] [Mul F] [Div F] [IntCast F] [Pow F Nat] [LinearOrder F]
  {schedule : Schedule} {states : List (ChildState F)} {capacity : Nat}

theorem mem_candidates {selected : List Int} {child : ChildState F} :
    child ∈ schedule.candidates states selected ↔
      child ∈ states ∧ child.runId ∈ schedule.eligible ∧ child.runId ∉ selected := by
  unfold Schedule.candidates
  rw [List.mem_mergeSort, List.mem_filter, Bool.and_eq_true, List.contains_iff_mem]
  simp

/-- The candidates are in the order of their keys. -/
theorem pairwise_candidates (selected : List Int) :
    (schedule.candidates states selected).Pairwise fun a b =>
      keyOf schedule a ≤ keyOf schedule b := by
  unfold Schedule.candidates
  refine (List.pairwise_mergeSort ?_ ?_ _).imp isLE_compareChildren.1
  · intro a b c hab hbc
    rw [isLE_compareChildren] at hab hbc ⊢
    exact hab.trans hbc
  · intro a b
    rw [Bool.or_eq_true, isLE_compareChildren, isLE_compareChildren]
    exact le_total _ _

theorem runId_of_keyOf {a b : ChildState F} (h : keyOf schedule a = keyOf schedule b) :
    a.runId = b.runId :=
  congrArg (fun key : Key F => (ofLex (ofLex (ofLex (ofLex (ofLex key).2).2).2).2).2) h

/-- The candidates do not depend on the order of the children. -/
theorem candidates_perm {others : List (ChildState F)} (hids : (states.map (·.runId)).Nodup)
    (hperm : others.Perm states) (selected : List Int) :
    schedule.candidates others selected = schedule.candidates states selected := by
  refine List.Perm.eq_of_pairwise ?_ (pairwise_candidates selected) (pairwise_candidates selected)
    ?_
  · intro a b ha hb hab hba
    have hmem := hperm.subset (mem_candidates.1 ha).1
    exact List.inj_on_of_nodup_map hids hmem (mem_candidates.1 hb).1
      (runId_of_keyOf (le_antisymm hab hba))
  · unfold Schedule.candidates
    exact (List.mergeSort_perm _ _).trans
      ((hperm.filter _).trans (List.mergeSort_perm _ _).symm)

/-- What the schedule of the children promises. -/
structure Scheduled (schedule : Schedule) (states : List (ChildState F)) (capacity : Nat)
    (result : List Int) : Prop where
  length_le : result.length ≤ capacity
  eligible : ∀ id ∈ result, id ∈ schedule.eligible ∧ ∃ child ∈ states, child.runId = id
  distinct : (schedule.retained states).Nodup → result.Nodup
  retained : (schedule.retained states).take capacity <+: result
  filled : ∀ c ∈ states, c.runId ∈ schedule.eligible → c.runId ∉ result →
    result.length = capacity ∧ ∀ d ∈ states, d.runId ∈ result →
      d.runId ∉ (schedule.retained states).take capacity → ¬ Precedes schedule c d

theorem scheduled (hids : (states.map (·.runId)).Nodup) :
    Scheduled schedule states capacity (scheduleChildren schedule states capacity) := by
  have hselected := List.length_take_le capacity (schedule.retained states)
  unfold scheduleChildren
  dsimp only
  generalize hsel : (schedule.retained states).take capacity = selected at hselected ⊢
  have hmem : ∀ c : ChildState F, ∀ n, c ∈ (schedule.candidates states selected).take n →
      c ∈ states ∧ c.runId ∈ schedule.eligible ∧ c.runId ∉ selected := fun c n h =>
    mem_candidates.1 (List.mem_of_mem_take h)
  constructor
  · rw [List.length_append, List.length_map, List.length_take]
    omega
  · intro id hid
    rcases List.mem_append.1 hid with hid | hid
    · rw [← hsel] at hid
      obtain ⟨-, heligible, child, hchild, hrun, -⟩ := mem_retained.1 (List.mem_of_mem_take hid)
      exact ⟨heligible, child, hchild, hrun⟩
    · obtain ⟨c, hc, rfl⟩ := List.mem_map.1 hid
      exact ⟨(hmem c _ hc).2.1, c, (hmem c _ hc).1, rfl⟩
  · intro hnodup
    refine List.nodup_append.2 ⟨?_, ?_, ?_⟩
    · rw [← hsel]
      exact (List.take_sublist _ _).nodup hnodup
    · have hcandidates : ((schedule.candidates states selected).map (·.runId)).Nodup := by
        unfold Schedule.candidates
        refine ((List.mergeSort_perm _ _).map _).nodup_iff.2 ?_
        exact (List.filter_sublist.map _).nodup hids
      exact ((List.take_sublist _ _).map _).nodup hcandidates
    · intro id hid other hother heq
      obtain ⟨c, hc, rfl⟩ := List.mem_map.1 hother
      exact (hmem c _ hc).2.2 (heq ▸ hid)
  · rw [hsel]
    exact List.prefix_append _ _
  · intro c hc heligible hnot
    rw [List.mem_append, not_or] at hnot
    have hcandidate : c ∈ schedule.candidates states selected :=
      mem_candidates.2 ⟨hc, heligible, hnot.1⟩
    have hsplit := List.take_append_drop (capacity - selected.length)
      (schedule.candidates states selected)
    have hdrop : c ∈ (schedule.candidates states selected).drop (capacity - selected.length) := by
      rw [← hsplit, List.mem_append] at hcandidate
      exact hcandidate.resolve_left fun h => hnot.2 (List.mem_map_of_mem h)
    constructor
    · have hlength := List.length_pos_of_mem hdrop
      rw [List.length_drop] at hlength
      rw [List.length_append, List.length_map, List.length_take]
      omega
    · intro d hd hin hretained hprecedes
      rw [hsel] at hretained
      have htaken : d ∈ (schedule.candidates states selected).take (capacity - selected.length) := by
        obtain ⟨e, he, hrun⟩ := List.mem_map.1 ((List.mem_append.1 hin).resolve_left hretained)
        rwa [← List.inj_on_of_nodup_map hids (hmem e _ he).1 hd hrun]
      have hsorted := @pairwise_candidates _ _ _ _ _ _ _ _ schedule states selected
      rw [← hsplit, List.pairwise_append] at hsorted
      exact absurd (keyOf_lt_iff.2 hprecedes) (not_lt.2 (hsorted.2.2 d htaken c hdrop))

/-- The children are scheduled in incumbent order and then in the order of the comparator, in
whatever order they are given. -/
theorem schedule_children_correct (hids : (states.map (·.runId)).Nodup) :
    Scheduled schedule states capacity (scheduleChildren schedule states capacity) ∧
      ∀ others : List (ChildState F), others.Perm states →
        scheduleChildren schedule others capacity = scheduleChildren schedule states capacity := by
  refine ⟨scheduled hids, fun others hperm => ?_⟩
  unfold scheduleChildren
  dsimp only
  rw [retained_perm hperm, candidates_perm hids hperm]

end Result

/-- An incumbent with a finished grant, and a child that has not finished its own. -/
theorem schedule_children_two :
    let schedule : Schedule := ⟨[(1, 100), (2, 100)], [1], [1, 2], ⟨0, .largestVariance⟩⟩
    let states : List (ChildState Int) := [⟨true, 100, 1, 1, none, none⟩, ⟨true, 20, 1, 2, none, none⟩]
    Scheduled schedule states 1 (scheduleChildren schedule states 1) ∧
      ∀ others : List (ChildState Int), others.Perm states →
        scheduleChildren schedule others 1 = scheduleChildren schedule states 1 :=
  schedule_children_correct (by decide)

/-- An incumbent that is listed twice gets two slots. -/
theorem repeated_incumbent :
    ∃ (schedule : Schedule) (states : List (ChildState Int)), (states.map (·.runId)).Nodup ∧
      ¬ (scheduleChildren schedule states 2).Nodup := by
  refine ⟨⟨[(1, 100)], [1, 1], [1], ⟨0, .largestVariance⟩⟩, [⟨true, 20, 1, 1, none, none⟩],
    by decide, fun hnodup => ?_⟩
  have hsub : [1, 1].Sublist (scheduleChildren (F := Int)
      ⟨[(1, 100)], [1, 1], [1], ⟨0, .largestVariance⟩⟩ [⟨true, 20, 1, 1, none, none⟩] 2) :=
    List.sublist_append_left _ _
  exact absurd (hsub.nodup hnodup) (by decide)

end Gammaboard.Runners.IntegrationCampaign
