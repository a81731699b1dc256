import Mathlib.Data.Finset.Card
import Mathlib.Data.Finset.Range
import Mathlib.Data.Nat.GCD.Basic
import Mathlib.Data.Nat.ModEq
import Mathlib.Data.Set.Function
import Mathlib.Order.Bounds.Basic
import Mathlib.Order.Interval.Set.Defs
import Mathlib.Tactic.Common

/-!
# Strides

The multiples of a stride that is coprime to a number go through all residues of
the number. A search that counts up finds the first coprime stride.
-/

namespace Gammaboard.Lib

variable {n s : Nat}

/-- The multiples of a coprime stride are a permutation of the residues. -/
theorem strided_bijOn (hn : 0 < n) (h : Nat.Coprime s n) :
    Set.BijOn (fun i => i * s % n) (Set.Iio n) (Set.Iio n) := by
  have hmaps : Set.MapsTo (fun i => i * s % n) (Set.Iio n) (Set.Iio n) :=
    fun i _ => Nat.mod_lt _ hn
  have hinj : Set.InjOn (fun i => i * s % n) (Set.Iio n) := by
    intro i hi j hj heq
    have hmod : i ≡ j [MOD n] := Nat.ModEq.cancel_right_of_coprime (Nat.coprime_comm.1 h) heq
    rwa [Nat.ModEq, Nat.mod_eq_of_lt hi, Nat.mod_eq_of_lt hj] at hmod
  refine ⟨hmaps, hinj, ?_⟩
  rw [← Finset.coe_range] at hmaps hinj ⊢
  exact Finset.surjOn_of_injOn_of_card_le _ hmaps hinj le_rfl

/-- The numbers from `start` on that are coprime to `n`. -/
def coprimeFrom (n start : Nat) : Set Nat := {c | start ≤ c ∧ Nat.Coprime c n}

/-- A number above `1` is coprime to the one before it. -/
theorem coprime_pred (hn : 2 ≤ n) : Nat.Coprime (n - 1) n := by
  have h := Nat.coprime_self_add_right (m := n - 1) (n := 1)
  rw [Nat.sub_add_cancel (by omega)] at h
  exact h.2 (Nat.coprime_one_right _)

theorem isLeast_coprimeFrom_self {start : Nat} (h : Nat.Coprime start n) :
    IsLeast (coprimeFrom n start) start :=
  ⟨⟨le_refl _, h⟩, fun _ hc => hc.1⟩

/-- What is not coprime can be left out. -/
theorem isLeast_coprimeFrom_succ {start : Nat} (h : ¬ Nat.Coprime start n)
    (hleast : IsLeast (coprimeFrom n (start + 1)) s) : IsLeast (coprimeFrom n start) s := by
  refine ⟨⟨Nat.le_of_succ_le hleast.1.1, hleast.1.2⟩, fun c hc => ?_⟩
  have hne : start ≠ c := fun heq => h (heq ▸ hc.2)
  exact hleast.2 ⟨Nat.lt_of_le_of_ne hc.1 hne, hc.2⟩

end Gammaboard.Lib
