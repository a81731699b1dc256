import Mathlib.Algebra.Order.Ring.Int
import Mathlib.Data.Int.Order.Basic
import Mathlib.Tactic.Common

/-!
# Machine integers

The checked operations of `i64`, and the integers from a first to a last one in
steps as a loop of checked additions enumerates them.
-/

namespace Gammaboard.Utils

/-- The result of an operation on `i64`, if it is one. -/
def checkedI64 (v : Int) : Option Int64 :=
  if -2 ^ 63 ≤ v ∧ v < 2 ^ 63 then some (Int64.ofInt v) else none

/-- `a.checked_add(b)` -/
def checkedAdd (a b : Int64) : Option Int64 := checkedI64 (a.toInt + b.toInt)

/-- `a.checked_sub(b)` -/
def checkedSub (a b : Int64) : Option Int64 := checkedI64 (a.toInt - b.toInt)

theorem checkedI64_eq_some {v : Int} {x : Int64} : checkedI64 v = some x ↔ x.toInt = v := by
  unfold checkedI64
  have hlow := x.le_toInt
  have hhigh := x.toInt_lt
  split
  · rename_i h
    rw [Option.some.injEq]
    constructor
    · rintro rfl
      exact Int64.toInt_ofInt_of_le h.1 h.2
    · rintro rfl
      exact Int64.ofInt_toInt x
  · rename_i h
    simp only [reduceCtorEq, false_iff]
    rintro rfl
    exact h ⟨hlow, hhigh⟩

theorem checkedI64_eq_none {v : Int} : checkedI64 v = none ↔ v < -2 ^ 63 ∨ 2 ^ 63 ≤ v := by
  unfold checkedI64
  split
  · simp only [reduceCtorEq, false_iff]
    omega
  · simp only [true_iff]
    omega

/-- The loop that pushes a value and adds the step while the maximum is not passed, for so many
rounds. -/
def integersFrom (step max : Int64) : Nat → Int64 → List Int64
  | 0, _ => []
  | rounds + 1, value =>
    if value ≤ max then
      value ::
        match checkedAdd value step with
        | some next => integersFrom step max rounds next
        | none => []
    else []

/-- The values of the loop; it passes the maximum before it has run once for each integer. -/
def integerValues (min max step : Int64) : List Int64 :=
  integersFrom step max ((max.toInt - min.toInt).toNat + 1) min

/-- How many values there are. -/
def integerCount (min max step : Int64) : Nat :=
  ((max.toInt - min.toInt) / step.toInt + 1).toNat

theorem ediv_below {a b : Int} (hb : 0 < b) (ha : a < 0) : (a / b + 1).toNat = 0 := by
  have := Int.ediv_neg_of_neg_of_pos ha hb
  omega

/-- One value more than there are from the next one on. -/
theorem ediv_step {a b : Int} (hb : 0 < b) (ha : 0 ≤ a) :
    (a / b + 1).toNat = ((a - b) / b + 1).toNat + 1 := by
  have hsub : (a - b) / b = a / b - 1 := by
    rw [Int.sub_ediv_of_dvd a (dvd_refl b), Int.ediv_self hb.ne']
  have hnonneg := Int.ediv_nonneg ha hb.le
  omega

/-- The loop enumerates the values in steps from the first one on. -/
theorem integersFrom_eq {step max : Int64} (hstep : 0 < step.toInt) :
    ∀ {rounds : Nat} {value : Int64}, max.toInt - value.toInt < rounds →
      (integersFrom step max rounds value).map Int64.toInt =
        (List.range ((max.toInt - value.toInt) / step.toInt + 1).toNat).map
          fun k : Nat => value.toInt + k * step.toInt
  | 0, value, hrounds => by
    rw [ediv_below hstep (by omega)]
    rfl
  | rounds + 1, value, hrounds => by
    unfold integersFrom
    by_cases hle : value ≤ max
    · have hle' := Int64.le_iff_toInt_le.1 hle
      rw [if_pos hle, List.map_cons, ediv_step hstep (by omega), List.range_succ_eq_map,
        List.map_cons, List.map_map]
      have hhead : value.toInt + ((0 : Nat) : Int) * step.toInt = value.toInt := by simp
      rw [hhead]
      congr 1
      cases hnext : checkedAdd value step with
      | none =>
        have hover := checkedI64_eq_none.1 hnext
        have hmax := max.toInt_lt
        have hlow := value.le_toInt
        rw [ediv_below hstep (by omega)]
        rfl
      | some next =>
        have hvalue := checkedI64_eq_some.1 hnext
        have ih : (integersFrom step max rounds next).map Int64.toInt = _ :=
          integersFrom_eq hstep (by omega)
        dsimp only
        rw [ih, hvalue]
        have hcount : max.toInt - (value.toInt + step.toInt) = max.toInt - value.toInt - step.toInt := by
          omega
        rw [hcount]
        refine List.map_congr_left fun k _ => ?_
        rw [Function.comp_apply, Nat.cast_succ, Int.add_mul, Int.one_mul]
        omega
    · have hlt : max.toInt < value.toInt := by
        rw [Int64.le_iff_toInt_le] at hle
        omega
      rw [if_neg hle, ediv_below hstep (by omega)]
      rfl

/-- The values, as integers. -/
theorem map_integerValues {min max step : Int64} (hstep : 0 < step.toInt) :
    (integerValues min max step).map Int64.toInt =
      (List.range (integerCount min max step)).map fun k : Nat => min.toInt + k * step.toInt :=
  integersFrom_eq hstep (by omega)

theorem length_integerValues {min max step : Int64} (hstep : 0 < step.toInt) :
    (integerValues min max step).length = integerCount min max step := by
  have hmap : ((integerValues min max step).map Int64.toInt).length = _ :=
    congrArg List.length (map_integerValues hstep)
  rwa [List.length_map, List.length_map, List.length_range] at hmap

theorem integerCount_pos {min max step : Int64} (hstep : 0 < step.toInt) (hle : min ≤ max) :
    0 < integerCount min max step := by
  have hle' := Int64.le_iff_toInt_le.1 hle
  have hnonneg := Int.ediv_nonneg (show 0 ≤ max.toInt - min.toInt by omega) hstep.le
  unfold integerCount
  omega

end Gammaboard.Utils
