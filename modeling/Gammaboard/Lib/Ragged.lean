import Mathlib.Algebra.Order.Ring.Nat
import Mathlib.Data.List.Chain
import Mathlib.Data.List.Range
import Mathlib.Tactic.Common

/-!
# Ragged rows

A column that holds rows of any lengths one after the other, and the offsets at which they begin.
Cutting the column at the offsets gives the rows back.
-/

namespace Gammaboard.Lib.Ragged

variable {α β : Type*}

/-- Where the rows begin, from the given offset on, and where the last one ends. -/
def offsetsFrom : Nat → List (List α) → List Nat
  | start, [] => [start]
  | start, row :: rows => start :: offsetsFrom (start + row.length) rows

/-- The parts of a column between an offset and the next. -/
def cut (values : List α) : List Nat → List (List α)
  | start :: stop :: offsets => (values.drop start).take (stop - start) :: cut values (stop :: offsets)
  | _ => []

/-- The offsets of `n` rows of one width. -/
def uniform (n width : Nat) : List Nat := (List.range (n + 1)).map (· * width)

@[simp] theorem length_offsetsFrom (start : Nat) (rows : List (List α)) :
    (offsetsFrom start rows).length = rows.length + 1 := by
  induction rows generalizing start with
  | nil => rfl
  | cons row rows ih => rw [offsetsFrom, List.length_cons, ih, List.length_cons]

@[simp] theorem head?_offsetsFrom (start : Nat) (rows : List (List α)) :
    (offsetsFrom start rows).head? = some start := by
  cases rows <;> rfl

theorem offsetsFrom_ne_nil (start : Nat) (rows : List (List α)) : offsetsFrom start rows ≠ [] := by
  cases rows <;> exact List.cons_ne_nil _ _

theorem getLast?_offsetsFrom (start : Nat) (rows : List (List α)) :
    (offsetsFrom start rows).getLast? = some (start + rows.flatten.length) := by
  induction rows generalizing start with
  | nil => rfl
  | cons row rows ih =>
    rw [offsetsFrom, List.getLast?_cons, ih, Option.getD_some, List.flatten_cons,
      List.length_append]
    congr 1
    omega

/-- The offsets ascend, and none is below the first. -/
theorem pairwise_offsetsFrom (start : Nat) (rows : List (List α)) :
    (offsetsFrom start rows).Pairwise (· ≤ ·) ∧ ∀ o ∈ offsetsFrom start rows, start ≤ o := by
  induction rows generalizing start with
  | nil => exact ⟨List.pairwise_singleton _ _, fun o ho => (List.mem_singleton.1 ho).ge⟩
  | cons row rows ih =>
    obtain ⟨hascending, hbelow⟩ := ih (start + row.length)
    have hrest : ∀ o ∈ offsetsFrom (start + row.length) rows, start ≤ o := by
      intro o ho
      have := hbelow o ho
      omega
    refine ⟨List.pairwise_cons.2 ⟨hrest, hascending⟩, fun o ho => ?_⟩
    rcases List.mem_cons.1 ho with rfl | ho
    · exact Nat.le_refl _
    · exact hrest o ho

/-- Rows of one width begin at its multiples. -/
theorem offsetsFrom_uniform {width : Nat} {rows : List (List α)}
    (h : ∀ row ∈ rows, row.length = width) (k : Nat) :
    offsetsFrom (k * width) rows = (List.range' k (rows.length + 1)).map (· * width) := by
  induction rows generalizing k with
  | nil => rfl
  | cons row rows ih =>
    rw [List.forall_mem_cons] at h
    rw [offsetsFrom, h.1, ← Nat.succ_mul, ih h.2, List.length_cons, List.range'_succ (s := k),
      List.map_cons]

theorem offsetsFrom_eq_uniform {width : Nat} {rows : List (List α)}
    (h : ∀ row ∈ rows, row.length = width) : offsetsFrom 0 rows = uniform rows.length width := by
  have hfrom := offsetsFrom_uniform h 0
  rw [Nat.zero_mul] at hfrom
  rw [hfrom, uniform, List.range_eq_range']

/-! ## Cutting -/

theorem cut_flatten_append (before : List α) (rows : List (List α)) :
    cut (before ++ rows.flatten) (offsetsFrom before.length rows) = rows := by
  induction rows generalizing before with
  | nil => rfl
  | cons row rows ih =>
    have hnext := ih (before ++ row)
    rw [List.length_append, List.append_assoc, ← List.flatten_cons] at hnext
    have hfirst : ((before ++ (row :: rows).flatten).drop before.length).take row.length = row := by
      rw [List.drop_left, List.flatten_cons, List.take_left]
    cases rows with
    | nil => rw [offsetsFrom, offsetsFrom, cut, Nat.add_sub_cancel_left, hfirst]; rfl
    | cons second rows =>
      rw [offsetsFrom, offsetsFrom, cut, Nat.add_sub_cancel_left, hfirst, ← offsetsFrom, hnext]

/-- The rows that were put one after the other. -/
theorem cut_flatten (rows : List (List α)) : cut rows.flatten (offsetsFrom 0 rows) = rows :=
  cut_flatten_append [] rows

theorem cut_flatten_uniform {width : Nat} {rows : List (List α)}
    (h : ∀ row ∈ rows, row.length = width) :
    cut rows.flatten (uniform rows.length width) = rows := by
  rw [← offsetsFrom_eq_uniform h, cut_flatten]

end Gammaboard.Lib.Ragged
