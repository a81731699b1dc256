import Mathlib.Algebra.BigOperators.Group.List.Basic
import Mathlib.Algebra.Ring.Nat
import Mathlib.Data.List.Count
import Mathlib.Data.List.Induction
import Mathlib.Tactic.Common

/-!
# Counts by place

How many samples of a list belong to each of so many places, as they are counted
one by one: with a sample one count goes up, and two parts add up.
-/

namespace Gammaboard.Lib

variable {α : Type*}

/-- The samples of every place. -/
def counts (n : Nat) (p : Nat → α → Bool) (l : List α) : List Nat :=
  (List.range n).map fun k => l.countP (p k)

variable {n : Nat} {p q : Nat → α → Bool} {l l' : List α} {x : α}

end Gammaboard.Lib
