import Mathlib.Data.List.Basic
import Mathlib.Data.List.Forall2
import Mathlib.Tactic.Common

/-!
# Regrouping a flat list

`chunksExact` cuts a list into groups of one size, without the rest. Answers to
the questions of several groups of that size, asked as one list, are regrouped
by it into the answers to each group.
-/

namespace Gammaboard.Lib

variable {α β γ : Type}

/-- `chunks_exact` of a nonzero width. -/
def chunksExact (width : Nat) (l : List α) : List (List α) :=
  (List.range (l.length / width)).map fun i => (l.drop (i * width)).take width

theorem length_chunksExact {width n : Nat} (hwidth : 0 < width) {l : List α}
    (h : l.length = n * width) : (chunksExact width l).length = n := by
  unfold chunksExact
  rw [List.length_map, List.length_range, h, Nat.mul_div_cancel _ hwidth]

theorem getElem?_chunksExact {width n i : Nat} (hwidth : 0 < width) {l : List α}
    (h : l.length = n * width) (hi : i < n) :
    (chunksExact width l)[i]? = some ((l.drop (i * width)).take width) := by
  unfold chunksExact
  rw [List.getElem?_map, h, Nat.mul_div_cancel _ hwidth, List.getElem?_range hi, Option.map_some]

section Groups

variable {f : α → List β} {width : Nat}

theorem length_flatMap_const (hwidth : ∀ a, (f a).length = width) (l : List α) :
    (l.flatMap f).length = l.length * width := by
  induction l with
  | nil => rw [List.flatMap_nil, List.length_nil, List.length_nil, Nat.zero_mul]
  | cons a l ih =>
    rw [List.flatMap_cons, List.length_append, ih, hwidth, List.length_cons, Nat.succ_mul,
      Nat.add_comm]

/-- The answers to the questions of one group. -/
theorem forall₂_group {r : β → γ → Prop} (hwidth : ∀ a, (f a).length = width) {l : List α}
    {answers : List γ} (h : List.Forall₂ r (l.flatMap f) answers) {i : Nat} {a : α}
    (ha : l[i]? = some a) : List.Forall₂ r (f a) ((answers.drop (i * width)).take width) := by
  induction l generalizing answers i with
  | nil => cases ha
  | cons b l ih =>
    rw [List.flatMap_cons] at h
    cases i with
    | zero =>
      have hfirst := List.forall₂_take width h
      rw [List.take_left' (hwidth b)] at hfirst
      obtain rfl := Option.some.inj ha
      rwa [Nat.zero_mul, List.drop_zero]
    | succ i =>
      have hrest := List.forall₂_drop width h
      rw [List.drop_left' (hwidth b)] at hrest
      have hgroup := ih hrest ha
      rwa [List.drop_drop, Nat.add_comm, ← Nat.succ_mul] at hgroup

end Groups

end Gammaboard.Lib
