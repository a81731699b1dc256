import Gammaboard.Lib.Moments
import Mathlib.Algebra.Order.Field.Basic
import Mathlib.Analysis.Real.Sqrt
import Mathlib.Tactic.Linarith

/-!
# Statistics of a sample

The unbiased variance, the standard error and the effective size of a list of
samples by the two passes of their definitions, over any field with square roots,
and the bounds of the effective size.
-/

namespace Gammaboard.Lib

/-- Square roots of what is not negative. -/
structure SquareRoot (K : Type) [Field K] [LinearOrder K] where
  sqrt : K → K
  nonneg : ∀ a, 0 ≤ sqrt a
  mul_self : ∀ {a}, 0 ≤ a → sqrt a * sqrt a = a

noncomputable def SquareRoot.real : SquareRoot ℝ := ⟨Real.sqrt, Real.sqrt_nonneg, Real.mul_self_sqrt⟩

namespace SquareRoot

variable {K : Type} [Field K] [LinearOrder K] (root : SquareRoot K) {a : K}

theorem pos [IsStrictOrderedRing K] (h : 0 < a) : 0 < root.sqrt a := by
  refine lt_of_le_of_ne (root.nonneg a) fun h0 => ?_
  have hself := root.mul_self h.le
  rw [← h0, mul_zero] at hself
  exact absurd hself h.ne

end SquareRoot

namespace Moments

variable {S K : Type} [Field K]

/-- The unbiased variance. -/
def unbiased (f : S → K) (l : List S) : K := central f f l / (l.length - 1)

/-- The effective size over the size: the squared sum of the absolute values over the size times
the sum of the squares. -/
def effective [LinearOrder K] (f : S → K) (l : List S) : K :=
  total (fun x => |f x|) l * total (fun x => |f x|) l / (l.length * total (fun x => f x * f x) l)

variable [LinearOrder K] [IsStrictOrderedRing K] {f : S → K} {l : List S}

theorem total_nonneg (h : ∀ x ∈ l, 0 ≤ f x) : 0 ≤ total f l := by
  refine List.sum_nonneg fun v hv => ?_
  obtain ⟨x, hx, rfl⟩ := List.mem_map.1 hv
  exact h x hx

/-- The sum of absolute values is zero only with the sum of squares. -/
theorem total_abs_eq_zero : total (fun x => |f x|) l = 0 ↔ ∀ x ∈ l, f x = 0 := by
  induction l with
  | nil => simp
  | cons x l ih =>
    rw [total_cons, add_eq_zero_iff_of_nonneg (abs_nonneg _) (total_nonneg fun _ _ => abs_nonneg _),
      ih, abs_eq_zero, List.forall_mem_cons]

theorem total_sq_eq_zero : total (fun x => f x * f x) l = 0 ↔ ∀ x ∈ l, f x = 0 := by
  induction l with
  | nil => simp
  | cons x l ih =>
    rw [total_cons,
      add_eq_zero_iff_of_nonneg (mul_self_nonneg _) (total_nonneg fun _ _ => mul_self_nonneg _),
      ih, mul_self_eq_zero, List.forall_mem_cons]

/-- The square of a sum is at most the size times the sum of squares. -/
theorem total_abs_mul_self_le : total (fun x => |f x|) l * total (fun x => |f x|) l ≤
    l.length * total (fun x => f x * f x) l := by
  have hdeviation := central_self_nonneg (f := fun x => |f x|) l
  rw [central_eq] at hdeviation
  have hsq : total (fun x => |f x| * |f x|) l = total (fun x => f x * f x) l :=
    total_congr fun x _ => abs_mul_abs_self (f x)
  rw [hsq] at hdeviation
  have hlen : (0 : K) ≤ l.length := Nat.cast_nonneg _
  calc total (fun x => |f x|) l * total (fun x => |f x|) l
      = l.length * (l.length * (mean (fun x => |f x|) l * mean (fun x => |f x|) l)) := by
        rw [← length_mul_mean (f := fun x => |f x|)]
        ring
    _ ≤ l.length * total (fun x => f x * f x) l :=
        mul_le_mul_of_nonneg_left (by linarith) hlen

theorem effective_nonneg : 0 ≤ effective f l :=
  div_nonneg (mul_self_nonneg _)
    (mul_nonneg (Nat.cast_nonneg _) (total_nonneg fun _ _ => mul_self_nonneg _))

theorem effective_le_one : effective f l ≤ 1 :=
  div_le_one_of_le₀ total_abs_mul_self_le
    (mul_nonneg (Nat.cast_nonneg _) (total_nonneg fun _ _ => mul_self_nonneg _))

end Moments

end Gammaboard.Lib
