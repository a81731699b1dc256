import Mathlib.Algebra.Order.Ring.Int
import Mathlib.Data.Int.Order.Basic
import Mathlib.Data.Nat.Log
import Mathlib.Tactic.Common

/-!
# Integers as floats

The `f64` nearest to an integer is an integer again: of the two multiples of the
last place around it the nearer one, and of two equally near ones the even one.
-/

namespace Gammaboard.Utils

/-- The magnitude rounded to 53 bits. -/
def roundMagnitude (n : Nat) : Nat :=
  if n < 2 ^ 53 then n
  else
    let unit := 2 ^ (Nat.log2 n - 52)
    let quotient := n / unit
    let remainder := n % unit
    if 2 * remainder < unit ∨ 2 * remainder = unit ∧ quotient % 2 = 0 then quotient * unit
    else (quotient + 1) * unit

/-- `v as f64`, which `parse::<f64>()` of its decimal text is as well. -/
def roundF64 (v : Int) : Int := v.sign * roundMagnitude v.natAbs

theorem roundF64_of_small {v : Int} (h : v.natAbs < 2 ^ 53) : roundF64 v = v := by
  unfold roundF64 roundMagnitude
  rw [if_pos h]
  exact Int.sign_mul_natAbs v

@[simp] theorem roundF64_zero : roundF64 0 = 0 := rfl

theorem roundMagnitude_pos {n : Nat} (h : 0 < n) : 0 < roundMagnitude n := by
  unfold roundMagnitude
  split
  · exact h
  · rename_i hbig
    have hn : n ≠ 0 := by omega
    have hunit : 0 < 2 ^ (Nat.log2 n - 52) := Nat.pow_pos (by omega)
    have hle : 2 ^ (Nat.log2 n - 52) ≤ n :=
      (Nat.pow_le_pow_right (by omega) (Nat.sub_le _ _)).trans (Nat.log2_self_le hn)
    have hquotient : 0 < n / 2 ^ (Nat.log2 n - 52) := Nat.div_pos hle hunit
    dsimp only
    split
    · exact Nat.mul_pos hquotient hunit
    · exact Nat.mul_pos (Nat.succ_pos _) hunit

/-- Only zero is rounded to zero. -/
theorem roundF64_eq_zero {v : Int} : roundF64 v = 0 ↔ v = 0 := by
  constructor
  · intro h
    by_contra hne
    have hpos := roundMagnitude_pos (Int.natAbs_pos.2 hne)
    unfold roundF64 at h
    rcases Int.mul_eq_zero.1 h with hsign | hmagnitude
    · exact hne (Int.sign_eq_zero_iff_zero.1 hsign)
    · omega
  · rintro rfl
    rfl

/-- `(left - right).abs()` of floats that are integers. -/
def floatDistance (left right : Int) : Int := |roundF64 (left - right)|

theorem floatDistance_nonneg (left right : Int) : 0 ≤ floatDistance left right := abs_nonneg _

theorem floatDistance_eq_zero {left right : Int} : floatDistance left right = 0 ↔ left = right := by
  unfold floatDistance
  rw [abs_eq_zero, roundF64_eq_zero, Int.sub_eq_zero]

end Gammaboard.Utils
