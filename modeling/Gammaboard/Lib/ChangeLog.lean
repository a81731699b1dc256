import Mathlib.Algebra.BigOperators.Group.List.Basic
import Mathlib.Algebra.Group.Basic
import Mathlib.Tactic.Abel

/-!
# Replaying a log of changes

A table is a list of rows, a log lists the rows inserted, rewritten and deleted,
each change with the rows as they were then. `Replays` says that a log leads
from one table to another. A total over the rows in a commutative group can be
kept from the log alone, change by change.
-/

namespace Gammaboard.Lib

universe u v

inductive Change (α : Type u) where
  | insert (new : α)
  | update (old new : α)
  | delete (old : α)
  deriving DecidableEq, Repr

variable {α : Type u} {M : Type v} [AddCommGroup M]

inductive Replays : List α → List (Change α) → List α → Prop where
  | nil (rows : List α) : Replays rows [] rows
  | insert {before after rows' : List α} {new : α} {log : List (Change α)} :
    Replays (before ++ new :: after) log rows' →
      Replays (before ++ after) (.insert new :: log) rows'
  | update {before after rows' : List α} {old new : α} {log : List (Change α)} :
    Replays (before ++ new :: after) log rows' →
      Replays (before ++ old :: after) (.update old new :: log) rows'
  | delete {before after rows' : List α} {old : α} {log : List (Change α)} :
    Replays (before ++ after) log rows' →
      Replays (before ++ old :: after) (.delete old :: log) rows'

theorem Replays.eq_of_nil {rows rows' : List α} (h : Replays rows [] rows') : rows' = rows := by
  cases h
  rfl

theorem Replays.trans {rows rows' rows'' : List α} {log log' : List (Change α)}
    (h : Replays rows log rows') (h' : Replays rows' log' rows'') :
    Replays rows (log ++ log') rows'' := by
  induction h with
  | nil rows => exact h'
  | insert _ ih => exact .insert (ih h')
  | update _ ih => exact .update (ih h')
  | delete _ ih => exact .delete (ih h')

/-- The table after the first changes. -/
theorem Replays.split {rows rows'' : List α} {log log' : List (Change α)}
    (h : Replays rows (log ++ log') rows'') :
    ∃ rows', Replays rows log rows' ∧ Replays rows' log' rows'' := by
  induction log generalizing rows with
  | nil => exact ⟨rows, .nil rows, h⟩
  | cons change log ih =>
    cases h with
    | insert h =>
      obtain ⟨rows', hlog, hrest⟩ := ih h
      exact ⟨rows', .insert hlog, hrest⟩
    | update h =>
      obtain ⟨rows', hlog, hrest⟩ := ih h
      exact ⟨rows', .update hlog, hrest⟩
    | delete h =>
      obtain ⟨rows', hlog, hrest⟩ := ih h
      exact ⟨rows', .delete hlog, hrest⟩

/-- The rows a change puts into the table. -/
def Change.puts : Change α → Option α
  | .insert new => some new
  | .update _ new => some new
  | .delete _ => none

/-- What holds of the rows at the start and of those put in holds of the rows at the end. -/
theorem Replays.all {p : α → Prop} {rows rows' : List α} {log : List (Change α)}
    (h : Replays rows log rows') (hrows : ∀ r ∈ rows, p r)
    (hlog : ∀ change ∈ log, ∀ r, change.puts = some r → p r) : ∀ r ∈ rows', p r := by
  induction h with
  | nil rows => exact hrows
  | @insert before after rows' new log _ ih =>
    refine ih ?_ fun change hc => hlog change (List.mem_cons_of_mem _ hc)
    rintro r hr
    rcases List.mem_append.1 hr with hr | hr
    · exact hrows r (List.mem_append_left _ hr)
    · rcases List.mem_cons.1 hr with rfl | hr
      · exact hlog _ List.mem_cons_self r rfl
      · exact hrows r (List.mem_append_right _ hr)
  | @update before after rows' old new log _ ih =>
    refine ih ?_ fun change hc => hlog change (List.mem_cons_of_mem _ hc)
    rintro r hr
    rcases List.mem_append.1 hr with hr | hr
    · exact hrows r (List.mem_append_left _ hr)
    · rcases List.mem_cons.1 hr with rfl | hr
      · exact hlog _ List.mem_cons_self r rfl
      · exact hrows r (List.mem_append_right _ (List.mem_cons_of_mem _ hr))
  | @delete before after rows' old log _ ih =>
    refine ih ?_ fun change hc => hlog change (List.mem_cons_of_mem _ hc)
    rintro r hr
    rcases List.mem_append.1 hr with hr | hr
    · exact hrows r (List.mem_append_left _ hr)
    · exact hrows r (List.mem_append_right _ (List.mem_cons_of_mem _ hr))

/-- Rewriting the selected rows in place. -/
theorem replays_update (selected : α → Bool) (f : α → α) (before rows : List α) :
    Replays (before ++ rows) ((rows.filter selected).map fun r => .update r (f r))
      (before ++ rows.map fun r => if selected r then f r else r) := by
  induction rows generalizing before with
  | nil =>
    rw [List.map_nil]
    exact .nil _
  | cons r rows ih =>
    by_cases hr : selected r = true
    · rw [List.filter_cons_of_pos hr, List.map_cons, List.map_cons, if_pos hr]
      refine .update ?_
      have hlater := ih (before ++ [f r])
      rwa [List.append_assoc, List.append_assoc] at hlater
    · rw [List.filter_cons_of_neg hr, List.map_cons, if_neg hr]
      have hlater := ih (before ++ [r])
      rwa [List.append_assoc, List.append_assoc] at hlater

/-- Deleting the selected rows. -/
theorem replays_delete (selected : α → Bool) (before rows : List α) :
    Replays (before ++ rows) ((rows.filter selected).map .delete)
      (before ++ rows.filter fun r => !selected r) := by
  induction rows generalizing before with
  | nil => exact .nil _
  | cons r rows ih =>
    by_cases hr : selected r = true
    · rw [List.filter_cons_of_pos hr, List.map_cons, List.filter_cons_of_neg (by simp [hr])]
      exact .delete (ih before)
    · rw [List.filter_cons_of_neg hr, List.filter_cons_of_pos (by simp [hr])]
      have hlater := ih (before ++ [r])
      rwa [List.append_assoc, List.append_assoc] at hlater

/-! ## Totals -/

/-- The total of a weight over the rows. -/
def total (weight : α → M) (rows : List α) : M := (rows.map weight).sum

/-- What a change adds to the total. -/
def Change.delta (weight : α → M) : Change α → M
  | .insert new => weight new
  | .update old new => weight new - weight old
  | .delete old => -weight old

theorem total_insert (weight : α → M) (before after : List α) (r : α) :
    total weight (before ++ r :: after) = total weight (before ++ after) + weight r := by
  simp only [total, List.map_append, List.map_cons, List.sum_append, List.sum_cons]
  abel

/-- One change moves the total by its delta. -/
theorem Replays.total_one (weight : α → M) {rows rows' : List α} {change : Change α}
    (h : Replays rows [change] rows') :
    total weight rows' = total weight rows + change.delta weight := by
  cases h with
  | insert h =>
    rw [h.eq_of_nil]
    exact total_insert weight _ _ _
  | update h =>
    rw [h.eq_of_nil, total_insert, total_insert]
    simp only [Change.delta]
    abel
  | delete h =>
    rw [h.eq_of_nil, total_insert]
    simp only [Change.delta]
    abel

end Gammaboard.Lib
