import Mathlib.Data.List.Basic
import Mathlib.Tactic.Common

/-!
# Writes at positions

Values written at positions of a list one after the other. When the positions
differ, each of them holds its own value, and no other position changes.
-/

namespace Gammaboard.Lib

universe u

variable {α : Type u} {values : List α} {entries : List (Nat × α)} {j : Nat}

/-- The values written at their positions, one after the other. -/
def writeAll (values : List α) (entries : List (Nat × α)) : List α :=
  entries.foldl (fun values e => values.set e.1 e.2) values

@[simp] theorem length_writeAll : (writeAll values entries).length = values.length := by
  unfold writeAll
  induction entries generalizing values with
  | nil => rfl
  | cons e entries ih => rw [List.foldl_cons, ih, List.length_set]

theorem getElem?_writeAll_of_notMem (h : j ∉ entries.map (·.1)) :
    (writeAll values entries)[j]? = values[j]? := by
  unfold writeAll
  induction entries generalizing values with
  | nil => rfl
  | cons e entries ih =>
    rw [List.map_cons, List.mem_cons, not_or] at h
    rw [List.foldl_cons, ih h.2, List.getElem?_set_ne (Ne.symm h.1)]

theorem getElem?_writeAll (hnodup : (entries.map (·.1)).Nodup)
    (hbound : ∀ e ∈ entries, e.1 < values.length) :
    ∀ e ∈ entries, (writeAll values entries)[e.1]? = some e.2 := by
  induction entries generalizing values with
  | nil => exact fun e he => absurd he List.not_mem_nil
  | cons entry entries ih =>
    rw [List.map_cons, List.nodup_cons] at hnodup
    have hrest : writeAll values (entry :: entries) = writeAll (values.set entry.1 entry.2) entries :=
      rfl
    intro e he
    rw [hrest]
    rcases List.mem_cons.1 he with rfl | he
    · rw [getElem?_writeAll_of_notMem hnodup.1,
        List.getElem?_set_self (hbound e List.mem_cons_self)]
    · refine ih hnodup.2 (fun e he => ?_) e he
      rw [List.length_set]
      exact hbound e (List.mem_cons_of_mem _ he)

end Gammaboard.Lib
