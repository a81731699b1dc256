import Gammaboard.Lib.OrdMap
import Gammaboard.Lib.Results
import Gammaboard.Lib.Selection
import Gammaboard.Stores.Nodes
import Mathlib.Algebra.Order.Ring.Nat
import Mathlib.Data.List.Infix
import Mathlib.Data.Prod.Lex
import Mathlib.Data.String.Basic
import Mathlib.Tactic.Common

/-!
# Capabilities of nodes

`api/nodes.rs`: when a node satisfies requirements, its score for them, and how
the nodes with the least score are taken. A score is a sum of `u64` and may
overflow.
-/

namespace Gammaboard.Api

open Gammaboard.Lib Gammaboard.Stores

abbrev NodeCapabilities := OrdMap String UInt64

abbrev CapabilityRequirements := OrdMap String UInt64

structure RegisteredNode where
  name : String
  capabilities : NodeCapabilities
  poolAssignment : Option AssignmentTarget
  desiredAssignment : Option AssignmentTarget

inductive Panic where
  | overflow
  | outOfBounds
  | unreachable (message : String)

def addU64 (a b : Nat) : Except Panic Nat := if a + b < 2 ^ 64 then .ok (a + b) else .error .overflow

def subU64 (a b : Nat) : Except Panic Nat := if b ≤ a then .ok (a - b) else .error .overflow

/-- `sum::<u64>()` -/
def sumU64 (values : List Nat) : Except Panic Nat := values.foldlM addU64 0

def capabilitiesSatisfy (capabilities : NodeCapabilities) (requirements : CapabilityRequirements) :
    Bool :=
  requirements.all fun e => (capabilities.get e.1).any (e.2 ≤ ·)

def capabilityWeight (key : String) (value : Nat) : Nat :=
  if "gpu".toList <:+: key.toList ∨ "cuda".toList <:+: key.toList ∨ "madnis".toList <:+: key.toList
  then min (value * 1000) (2 ^ 64 - 1)
  else value

abbrev Score := Nat ×ₗ Nat ×ₗ Nat ×ₗ String

/-- The weights of the capabilities that are not required. -/
def unrequiredWeights (capabilities : NodeCapabilities) (requirements : CapabilityRequirements) :
    List Nat :=
  (capabilities.filter fun e => (requirements.get e.1).isNone).map fun e =>
    capabilityWeight e.1 e.2.toNat

def capabilityScore (capabilities : NodeCapabilities) (requirements : CapabilityRequirements) :
    Except Panic Score := do
  let extra ← requirements.mapM fun e =>
    subU64 ((capabilities.get e.1).getD 0).toNat e.2.toNat
  let extraRequired ← sumU64 extra
  let extraUnrequired ← sumU64 (unrequiredWeights capabilities requirements)
  return toLex (extraRequired, toLex (extraUnrequired, toLex (capabilities.length, "")))

/-! ## Scores without overflow -/

def extraRequired (capabilities : NodeCapabilities) (requirements : CapabilityRequirements) : Nat :=
  (requirements.map fun e => ((capabilities.get e.1).getD 0).toNat - e.2.toNat).sum

def scoreOf (capabilities : NodeCapabilities) (requirements : CapabilityRequirements) : Score :=
  toLex (extraRequired capabilities requirements,
    toLex ((unrequiredWeights capabilities requirements).sum, toLex (capabilities.length, "")))

/-- Both sums of the score are `u64`. -/
def ScoreFits (capabilities : NodeCapabilities) (requirements : CapabilityRequirements) : Prop :=
  extraRequired capabilities requirements < 2 ^ 64 ∧
    (unrequiredWeights capabilities requirements).sum < 2 ^ 64

instance (capabilities : NodeCapabilities) (requirements : CapabilityRequirements) :
    Decidable (ScoreFits capabilities requirements) :=
  inferInstanceAs (Decidable (_ ∧ _))

theorem foldlM_addU64 : ∀ (values : List Nat) (start : Nat), start < 2 ^ 64 →
    values.foldlM addU64 start =
      if start + values.sum < 2 ^ 64 then .ok (start + values.sum) else .error .overflow
  | [], start, h => by
    rw [List.sum_nil, Nat.add_zero, if_pos h]
    rfl
  | v :: values, start, h => by
    rw [List.foldlM_cons, List.sum_cons, ← Nat.add_assoc]
    unfold addU64
    by_cases hv : start + v < 2 ^ 64
    · rw [if_pos hv]
      exact foldlM_addU64 values (start + v) hv
    · rw [if_neg hv, if_neg (by omega)]
      rfl

theorem sumU64_eq (values : List Nat) :
    sumU64 values = if values.sum < 2 ^ 64 then .ok values.sum else .error .overflow := by
  unfold sumU64
  rw [foldlM_addU64 values 0 (by decide), Nat.zero_add]

/-- A node that satisfies the requirements has its score, or a sum of it overflows. -/
theorem capabilityScore_eq {capabilities : NodeCapabilities} {requirements : CapabilityRequirements}
    (h : capabilitiesSatisfy capabilities requirements) :
    capabilityScore capabilities requirements =
      if ScoreFits capabilities requirements then .ok (scoreOf capabilities requirements)
      else .error .overflow := by
  have hextra : ∀ e ∈ requirements,
      subU64 ((capabilities.get e.1).getD 0).toNat e.2.toNat =
        .ok (((capabilities.get e.1).getD 0).toNat - e.2.toNat) := by
    intro e he
    have hsatisfied := List.all_eq_true.1 h e he
    rw [Option.any_eq_true] at hsatisfied
    obtain ⟨value, hvalue, hle⟩ := hsatisfied
    unfold subU64
    rw [hvalue, Option.getD_some, if_pos (UInt64.le_iff_toNat_le.1 (of_decide_eq_true hle))]
  unfold capabilityScore
  rw [mapM_eq_ok hextra]
  show Except.bind (sumU64 _) _ = _
  rw [sumU64_eq]
  by_cases hrequired : extraRequired capabilities requirements < 2 ^ 64
  · have hsum := hrequired
    unfold extraRequired at hsum
    rw [if_pos hsum]
    show Except.bind (sumU64 _) _ = _
    rw [sumU64_eq]
    by_cases hunrequired : (unrequiredWeights capabilities requirements).sum < 2 ^ 64
    · have hfits : ScoreFits capabilities requirements := ⟨hrequired, hunrequired⟩
      rw [if_pos hunrequired, if_pos hfits]
      rfl
    · have hfits : ¬ ScoreFits capabilities requirements := fun hfits => hunrequired hfits.2
      rw [if_neg hunrequired, if_neg hfits]
      rfl
  · have hsum := hrequired
    unfold extraRequired at hsum
    have hfits : ¬ ScoreFits capabilities requirements := fun hfits => hrequired hfits.1
    rw [if_neg hsum, if_neg hfits]
    rfl

end Gammaboard.Api
