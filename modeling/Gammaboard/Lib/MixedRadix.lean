import Mathlib.Algebra.BigOperators.Group.List.Basic
import Mathlib.Algebra.Order.BigOperators.GroupWithZero.List
import Mathlib.Algebra.Order.Ring.Nat
import Mathlib.Data.Set.Function
import Mathlib.Tactic.Common

/-!
# Mixed radix numerals

A number below the product of some sizes is a list of places, one below each
size, of which the last runs fastest.
-/

namespace Gammaboard.Lib

/-- The places of a number; what is above the product is dropped. -/
def places : List Nat → Nat → List Nat
  | [], _ => []
  | s :: sizes, k => k / sizes.prod % s :: places sizes k

/-- The number with the given places. -/
def numeral : List Nat → List Nat → Nat
  | _ :: sizes, d :: digits => d * sizes.prod + numeral sizes digits
  | _, _ => 0

/-- Every place is below its size. -/
def Below (digits sizes : List Nat) : Prop := List.Forall₂ (· < ·) digits sizes

variable {sizes digits : List Nat} {k m : Nat}

theorem Below.pos (h : Below digits sizes) : ∀ s ∈ sizes, 0 < s := by
  induction h with
  | nil => simp
  | @cons d s digits sizes hd _ ih =>
    rw [List.forall_mem_cons]
    exact ⟨by omega, ih⟩

theorem prod_pos (h : ∀ s ∈ sizes, 0 < s) : 0 < sizes.prod := List.prod_pos h

theorem places_below (h : ∀ s ∈ sizes, 0 < s) (k : Nat) : Below (places sizes k) sizes := by
  induction sizes with
  | nil => exact .nil
  | cons s sizes ih =>
    rw [List.forall_mem_cons] at h
    exact .cons (Nat.mod_lt _ h.1) (ih h.2)

theorem places_add_mul (h : ∀ s ∈ sizes, 0 < s) :
    places sizes (m * sizes.prod + k) = places sizes k := by
  induction sizes generalizing m with
  | nil => rfl
  | cons s sizes ih =>
    rw [List.forall_mem_cons] at h
    have hpos := prod_pos h.2
    have hsplit : m * (s :: sizes).prod + k = m * s * sizes.prod + k := by
      rw [List.prod_cons, Nat.mul_assoc]
    have htail := ih h.2 (m := m * s)
    rw [hsplit, places, places, htail]
    congr 1
    rw [Nat.add_comm, Nat.add_mul_div_right _ _ hpos, Nat.add_mul_mod_self_right]

theorem numeral_lt (h : Below digits sizes) : numeral sizes digits < sizes.prod := by
  induction h with
  | nil => exact Nat.one_pos
  | @cons d s digits sizes hd _ ih =>
    rw [numeral, List.prod_cons]
    calc
      d * sizes.prod + numeral sizes digits < d * sizes.prod + sizes.prod := by omega
      _ = (d + 1) * sizes.prod := (Nat.succ_mul d sizes.prod).symm
      _ ≤ s * sizes.prod := Nat.mul_le_mul_right _ hd

theorem places_numeral (h : Below digits sizes) : places sizes (numeral sizes digits) = digits := by
  induction h with
  | nil => rfl
  | @cons d s digits sizes hd hdigits ih =>
    have hlt := numeral_lt hdigits
    rw [numeral, places, places_add_mul (Below.pos hdigits), ih, Nat.add_comm, Nat.add_mul_div_right _ _ (by omega),
      Nat.div_eq_of_lt hlt, Nat.zero_add, Nat.mod_eq_of_lt hd]

theorem numeral_places (h : ∀ s ∈ sizes, 0 < s) : numeral sizes (places sizes k) = k % sizes.prod := by
  induction sizes with
  | nil => exact (Nat.mod_one k).symm
  | cons s sizes ih =>
    rw [List.forall_mem_cons] at h
    rw [places, numeral, ih h.2, List.prod_cons, Nat.mul_comm s, Nat.mod_mul, Nat.mul_comm,
      Nat.add_comm]

/-- The numbers below the product are the choices of a place for each size. -/
theorem places_bijOn (h : ∀ s ∈ sizes, 0 < s) :
    Set.BijOn (places sizes) {k | k < sizes.prod} {digits | Below digits sizes} := by
  refine ⟨fun k _ => places_below h k, fun j hj k hk heq => ?_, fun digits hdigits => ?_⟩
  · have hnumeral := congrArg (numeral sizes) heq
    rwa [numeral_places h, numeral_places h, Nat.mod_eq_of_lt hj, Nat.mod_eq_of_lt hk] at hnumeral
  · exact ⟨numeral sizes digits, numeral_lt hdigits, places_numeral hdigits⟩

end Gammaboard.Lib
