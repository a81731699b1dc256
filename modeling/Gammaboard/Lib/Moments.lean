import Mathlib.Algebra.BigOperators.Group.List.Basic
import Mathlib.Algebra.BigOperators.Ring.List
import Mathlib.Algebra.CharZero.Defs
import Mathlib.Algebra.Order.BigOperators.Group.List
import Mathlib.Data.Nat.Cast.Order.Field
import Mathlib.Tactic.FieldSimp
import Mathlib.Tactic.LinearCombination
import Mathlib.Tactic.Ring

/-!
# Means and central moments

The mean of a component over a list of samples and the second central moment of
two components, by the two passes of their definition, and how both are updated
when a sample comes last or when two lists are joined.
-/

namespace Gammaboard.Lib.Moments

variable {S K : Type} [Field K]

/-- The sum of a component. -/
def total (f : S → K) (l : List S) : K := (l.map f).sum

def mean (f : S → K) (l : List S) : K := total f l / l.length

/-- The sum of the products of the deviations from the means. -/
def central (f g : S → K) (l : List S) : K := total (fun x => (f x - mean f l) * (g x - mean g l)) l

variable {f g : S → K} {l l' : List S}

@[simp] theorem total_nil : total f ([] : List S) = 0 := rfl

@[simp] theorem total_cons (x : S) : total f (x :: l) = f x + total f l := by
  simp [total]

theorem total_append : total f (l ++ l') = total f l + total f l' := by
  simp [total]

theorem total_mul_left (a : K) (f : S → K) (l : List S) :
    total (fun x => a * f x) l = a * total f l := by
  induction l with
  | nil => simp
  | cons x l ih =>
    rw [total_cons, total_cons, ih]
    ring

theorem total_congr {f g : S → K} {l : List S} (h : ∀ x ∈ l, f x = g x) : total f l = total g l := by
  unfold total
  rw [List.map_congr_left h]

theorem mean_congr {f g : S → K} {l : List S} (h : ∀ x ∈ l, f x = g x) : mean f l = mean g l := by
  unfold mean
  rw [total_congr h]

theorem central_congr {f f' g g' : S → K} {l : List S} (hf : ∀ x ∈ l, f x = f' x)
    (hg : ∀ x ∈ l, g x = g' x) : central f g l = central f' g' l := by
  unfold central
  rw [mean_congr hf, mean_congr hg]
  exact total_congr fun x hx => by rw [hf x hx, hg x hx]

theorem total_perm (h : l.Perm l') : total f l = total f l' := (h.map f).sum_eq

theorem mean_perm (h : l.Perm l') : mean f l = mean f l' := by
  unfold mean
  rw [total_perm h, h.length_eq]

theorem central_perm (h : l.Perm l') : central f g l = central f g l' := by
  unfold central
  rw [mean_perm h, mean_perm h, total_perm h]

/-- The mean of a scaled component. -/
theorem mean_mul_left (a : K) (f : S → K) (l : List S) : mean (fun x => a * f x) l = a * mean f l := by
  unfold mean
  rw [total_mul_left]
  ring

theorem central_mul_left (a b : K) (f g : S → K) (l : List S) :
    central (fun x => a * f x) (fun x => b * g x) l = a * b * central f g l := by
  unfold central
  rw [← total_mul_left, mean_mul_left, mean_mul_left]
  refine total_congr fun x _ => ?_
  ring

/-- The second pass in one pass: the deviations from any two values. -/
theorem total_deviations (a b : K) (l : List S) :
    total (fun x => (f x - a) * (g x - b)) l =
      total (fun x => f x * g x) l - a * total g l - b * total f l + l.length * (a * b) := by
  induction l with
  | nil => simp
  | cons x l ih =>
    rw [total_cons, ih, total_cons, total_cons, total_cons, List.length_cons]
    push_cast
    ring

section Ordered

variable [LinearOrder K] [IsStrictOrderedRing K]

theorem central_self_nonneg (l : List S) : 0 ≤ central f f l := by
  refine List.sum_nonneg fun v hv => ?_
  obtain ⟨x, -, rfl⟩ := List.mem_map.1 hv
  exact mul_self_nonneg _

end Ordered

variable [CharZero K]

theorem length_ne_zero (h : l ≠ []) : (l.length : K) ≠ 0 :=
  Nat.cast_ne_zero.2 fun h0 => h (List.length_eq_zero_iff.1 h0)

theorem length_mul_mean (l : List S) : (l.length : K) * mean f l = total f l := by
  cases l with
  | nil => simp
  | cons x l =>
    exact mul_div_cancel₀ _ (length_ne_zero (List.cons_ne_nil x l))

theorem central_eq (l : List S) :
    central f g l = total (fun x => f x * g x) l - l.length * (mean f l * mean g l) := by
  unfold central
  rw [total_deviations, ← length_mul_mean (f := f), ← length_mul_mean (f := g)]
  ring

theorem mean_append (h : l ≠ []) :
    mean f (l ++ l') = mean f l + (mean f l' - mean f l) * l'.length / (l.length + l'.length) := by
  have hsum : (l.length : K) + l'.length ≠ 0 := by
    have := length_ne_zero (K := K) (List.append_ne_nil_of_left_ne_nil h l')
    rwa [List.length_append, Nat.cast_add] at this
  have hmean : mean f (l ++ l') * (l.length + l'.length) = total f l + total f l' := by
    rw [← total_append, ← length_mul_mean (l ++ l'), List.length_append, Nat.cast_add]
    ring
  rw [eq_div_of_mul_eq hsum hmean, ← length_mul_mean l, ← length_mul_mean l']
  field_simp
  ring

/-- The moment of two lists joined, from theirs. -/
theorem central_append (h : l ≠ []) :
    central f g (l ++ l') = central f g l + (central f g l' +
      (mean f l' - mean f l) * (mean g l' - mean g l) *
        (l.length / (l.length + l'.length)) * l'.length) := by
  have hsum : (l.length : K) + l'.length ≠ 0 := by
    have := length_ne_zero (K := K) (List.append_ne_nil_of_left_ne_nil h l')
    rwa [List.length_append, Nat.cast_add] at this
  rw [central_eq, central_eq, central_eq, total_append, List.length_append, Nat.cast_add,
    mean_append h, mean_append h]
  field_simp
  ring

theorem mean_concat (x : S) (l : List S) :
    mean f (l ++ [x]) = mean f l + (f x - mean f l) / (l.length + 1) := by
  cases l with
  | nil => simp [mean]
  | cons y l =>
    rw [mean_append (List.cons_ne_nil y l)]
    simp [mean]

/-- The moment with one sample more: the deviation from the old mean times the one from the
new. -/
theorem central_concat (x : S) (l : List S) :
    central f g (l ++ [x]) =
      central f g l + (f x - mean f l) * (g x - mean g (l ++ [x])) := by
  have hlen : ((l ++ [x]).length : K) = l.length + 1 := by simp
  have hpos : (l.length : K) + 1 ≠ 0 := Nat.cast_add_one_ne_zero l.length
  rw [central_eq, central_eq, total_append, hlen, mean_concat, mean_concat]
  simp only [total_cons, total_nil, add_zero]
  field_simp
  ring

end Gammaboard.Lib.Moments
