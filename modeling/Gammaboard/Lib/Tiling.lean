import Mathlib.Algebra.GroupWithZero.Nat
import Mathlib.Data.List.Forall2

/-!
# Tiling a list by pieces

`Tiles fits xs k bs k'`: the pieces `bs` stand for consecutive non-empty parts
of `xs`, the first from position `k`, the last up to position `k'`. A piece need
not be a list, `fits` says what part it stands for.
-/

namespace Gammaboard.Lib

universe u v

variable {α : Type u} {β : Type v} {fits : β → List α → Prop} {xs : List α}

inductive Tiles (fits : β → List α → Prop) (xs : List α) : Nat → List β → Nat → Prop where
  | nil (k : Nat) : Tiles fits xs k [] k
  | cons {k n k' : Nat} {b : β} {bs : List β} : 0 < n → k + n ≤ xs.length →
      fits b ((xs.drop k).take n) → Tiles fits xs (k + n) bs k' → Tiles fits xs k (b :: bs) k'

theorem Tiles.le {k k' : Nat} {bs : List β} (h : Tiles fits xs k bs k') : k ≤ k' := by
  induction h with
  | nil k => exact Nat.le_refl k
  | cons hn _ _ _ ih => omega

theorem Tiles.trans {k k' k'' : Nat} {bs cs : List β} (h : Tiles fits xs k bs k')
    (h' : Tiles fits xs k' cs k'') : Tiles fits xs k (bs ++ cs) k'' := by
  induction h with
  | nil k => exact h'
  | cons hn hle hfit _ ih => exact .cons hn hle hfit (ih h')

theorem Tiles.mono {fits' : β → List α → Prop}
    (hmono : ∀ b part, 0 < part.length → fits b part → fits' b part) {k k' : Nat} {bs : List β}
    (h : Tiles fits xs k bs k') : Tiles fits' xs k bs k' := by
  induction h with
  | nil k => exact .nil k
  | cons hn hle hfit _ ih =>
    refine .cons hn hle (hmono _ _ ?_ hfit) ih
    rw [List.length_take, List.length_drop]
    omega

/-- With a size for every piece that is the length of its part, the positions add the sizes up. -/
theorem Tiles.sum_size (size : β → Nat) (hsize : ∀ b part, fits b part → part.length = size b)
    {k k' : Nat} {bs : List β} (h : Tiles fits xs k bs k') : k + (bs.map size).sum = k' := by
  induction h with
  | nil k => simp
  | @cons k n k' b bs hn hle hfit htail ih =>
    have hlen := hsize _ _ hfit
    rw [List.length_take, List.length_drop] at hlen
    rw [List.map_cons, List.sum_cons]
    omega

/-- The parts the pieces stand for, put end to end, are what lies between the positions. -/
theorem Tiles.parts {k k' : Nat} {bs : List β} (h : Tiles fits xs k bs k') :
    ∃ parts, List.Forall₂ fits bs parts ∧ parts.flatten = (xs.drop k).take (k' - k) := by
  induction h with
  | nil k => exact ⟨[], .nil, by simp⟩
  | @cons k n k' b bs hn hle hfit htail ih =>
    obtain ⟨parts, hparts, hflat⟩ := ih
    refine ⟨(xs.drop k).take n :: parts, .cons hfit hparts, ?_⟩
    have hlater := htail.le
    have hsplit : k' - k = n + (k' - (k + n)) := by omega
    rw [List.flatten_cons, hflat, hsplit, List.take_add, List.drop_drop]

end Gammaboard.Lib
