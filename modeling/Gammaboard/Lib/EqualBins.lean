import Mathlib.Algebra.BigOperators.Group.List.Basic
import Mathlib.Algebra.Order.Field.Basic
import Mathlib.Algebra.Order.Floor.Ring
import Mathlib.Tactic.FieldSimp
import Mathlib.Tactic.Linarith
import Mathlib.Tactic.Ring

/-!
# Bins of equal width

A range cut into bins of equal width that follow each other: the parts of it in
the bins add up to its part in all of them, and the bins it meets are those
between the floor of its first and the ceiling of its last place.
-/

namespace Gammaboard.Lib

variable {K : Type} [Field K] [LinearOrder K]

/-- The length of the part of a range in a bin. -/
def overlap (range bin : K × K) : K := max 0 (min range.2 bin.2 - max range.1 bin.1)

/-- The bin of an index. -/
def binAt (start width : K) (index : Nat) : K × K :=
  (start + (index : K) * width, start + ((index : K) + 1) * width)

variable [IsStrictOrderedRing K] {range : K × K} {a b c start width : K}

theorem overlap_eq_clamp (hbin : a ≤ b) (hrange : range.1 ≤ range.2) :
    overlap range (a, b) = max a (min b range.2) - max a (min b range.1) := by
  unfold overlap
  rcases le_total range.2 a with hbefore | hafter
  · have hfirst : range.1 ≤ a := hrange.trans hbefore
    rw [min_eq_left (hbefore.trans hbin), max_eq_right hfirst, min_eq_right (hbefore.trans hbin),
      min_eq_right (hfirst.trans hbin), max_eq_left hbefore, max_eq_left hfirst, sub_self]
    exact max_eq_left (by linarith)
  · rcases le_total b range.1 with hbeyond | hwithin
    · rw [min_eq_right (hbeyond.trans hrange), max_eq_left (hbin.trans hbeyond),
        min_eq_left (hbeyond.trans hrange), min_eq_left hbeyond, sub_self]
      exact max_eq_left (by linarith)
    · have hle : max range.1 a ≤ min range.2 b :=
        max_le (le_min hrange hwithin) (le_min hafter hbin)
      rw [max_eq_right (sub_nonneg.2 hle), min_comm b range.2, max_eq_right (le_min hafter hbin),
        min_eq_right hwithin, max_comm]

theorem overlap_split (hab : a ≤ b) (hbc : b ≤ c) (hrange : range.1 ≤ range.2) :
    overlap range (a, b) + overlap range (b, c) = overlap range (a, c) := by
  have hclamp (x : K) : max a (min b x) + max b (min c x) = max a (min c x) + b := by
    rcases le_total x b with hx | hx
    · rw [min_eq_right hx, min_eq_right (hx.trans hbc), max_eq_left hx]
    · have hmin : b ≤ min c x := le_min hbc hx
      rw [min_eq_left hx, max_eq_right hab, max_eq_right hmin, max_eq_right (hab.trans hmin),
        add_comm]
  rw [overlap_eq_clamp hab hrange, overlap_eq_clamp hbc hrange,
    overlap_eq_clamp (hab.trans hbc) hrange]
  linarith [hclamp range.1, hclamp range.2]

/-- The parts in the bins add up. -/
theorem sum_overlap (hwidth : 0 ≤ width) (hrange : range.1 ≤ range.2) (n : Nat) :
    ((List.range n).map fun index => overlap range (binAt start width index)).sum =
      overlap range (start, start + (n : K) * width) := by
  induction n with
  | zero =>
    have hempty := overlap_eq_clamp (le_refl start) hrange
    rw [Nat.cast_zero, zero_mul, add_zero, hempty]
    simp
  | succ n ih =>
    have hn : (0 : K) ≤ (n : K) * width := mul_nonneg (Nat.cast_nonneg n) hwidth
    rw [List.range_succ, List.map_append, List.sum_append, ih, List.map_singleton,
      List.sum_singleton, binAt, Nat.cast_succ]
    exact overlap_split (by linarith) (by rw [add_one_mul]; linarith) hrange

/-- Only these bins meet the range. -/
theorem index_of_overlap [FloorRing K] (hwidth : 0 < width) {index : Nat}
    (h : max range.1 (binAt start width index).1 < min range.2 (binAt start width index).2) :
    ⌊(range.1 - start) / width⌋.toNat ≤ index ∧ index < ⌈(range.2 - start) / width⌉.toNat := by
  obtain ⟨hfirst, hlast⟩ := max_lt_iff.1 h
  have hbegin : (range.1 - start) / width < (index : K) + 1 := by
    rw [div_lt_iff₀ hwidth]
    have := (lt_min_iff.1 hfirst).2
    unfold binAt at this
    linarith
  have hend : (index : K) < (range.2 - start) / width := by
    rw [lt_div_iff₀ hwidth]
    have := (lt_min_iff.1 hlast).1
    unfold binAt at this
    linarith
  constructor
  · have hfloor : ⌊(range.1 - start) / width⌋ < (index : Int) + 1 := by
      rw [Int.floor_lt]
      push_cast
      exact hbegin
    omega
  · have hceil : (index : Int) < ⌈(range.2 - start) / width⌉ := by
      rw [Int.lt_ceil]
      push_cast
      exact hend
    omega

end Gammaboard.Lib
