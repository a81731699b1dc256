import Mathlib.Data.List.MinMax
import Mathlib.Data.List.Perm.Subperm
import Mathlib.Tactic.Common

/-!
# Selections

The least elements of a list are taken one after the other, among those with a
property. A selection of least elements never wastes what another selection
needs, when the key puts the elements nobody else needs first.
-/

namespace Gammaboard.Lib

universe u v

variable {α : Type u} {κ : Type v} [LinearOrder κ]

/-- `taken` are `count` least elements with the property, or all of them. -/
structure Takes (p : α → Bool) (key : α → κ) (count : Nat) (all taken rest : List α) : Prop where
  perm : (taken ++ rest).Perm all
  holds : ∀ a ∈ taken, p a
  length_le : taken.length ≤ count
  full : taken.length = count ∨ ∀ a ∈ rest, ¬ p a
  least : ∀ a ∈ taken, ∀ b ∈ rest, p b → key a ≤ key b

namespace Takes

variable {p q : α → Bool} {key : α → κ} {count : Nat} {all taken rest : List α} {a : α}

theorem zero : Takes p key 0 all [] all where
  perm := List.Perm.refl _
  holds := fun _ h => absurd h List.not_mem_nil
  length_le := le_refl _
  full := .inl rfl
  least := fun _ h => absurd h List.not_mem_nil

/-- Nothing is taken where no element has the property. -/
theorem none (h : ∀ a ∈ all, ¬ p a) : Takes p key count all [] all where
  perm := List.Perm.refl _
  holds := fun _ h => absurd h List.not_mem_nil
  length_le := Nat.zero_le _
  full := .inr h
  least := fun _ h => absurd h List.not_mem_nil

/-- First the least element, then the rest of the selection from what is left. -/
theorem succ {left : List α} (hperm : (a :: left).Perm all) (ha : p a)
    (hleast : ∀ b ∈ all, p b → key a ≤ key b) (h : Takes p key count left taken rest) :
    Takes p key (count + 1) all (a :: taken) rest where
  perm := (h.perm.cons a).trans hperm
  holds := by
    intro b hb
    rcases List.mem_cons.1 hb with rfl | hb
    · exact ha
    · exact h.holds b hb
  length_le := Nat.succ_le_succ h.length_le
  full := by
    rcases h.full with hfull | hfull
    · exact .inl (congrArg Nat.succ hfull)
    · exact .inr hfull
  least := by
    intro b hb c hc hp
    rcases List.mem_cons.1 hb with rfl | hb
    · have hmem : c ∈ left := h.perm.subset (List.mem_append_right _ hc)
      exact hleast c (hperm.subset (List.mem_cons_of_mem _ hmem)) hp
    · exact h.least b hb c hc hp

theorem mem_or (h : Takes p key count all taken rest) (ha : a ∈ all) : a ∈ taken ∨ a ∈ rest :=
  List.mem_append.1 (h.perm.symm.subset ha)

/-- As many are taken as there are, up to the number asked for. -/
theorem length_eq (h : Takes p key count all taken rest) :
    taken.length = min count (all.countP p) := by
  have hcount : all.countP p = taken.length + rest.countP p := by
    rw [← h.perm.countP_eq, List.countP_append, List.countP_eq_length.2 h.holds]
  have hle := h.length_le
  rcases h.full with hfull | hfull
  · omega
  · have hzero : rest.countP p = 0 := List.countP_eq_zero.2 hfull
    omega

/-- What is taken before the elements with `q` leaves as many of these as any two disjoint
selections can have of them. -/
theorem exchange (h : Takes p key count all taken rest)
    (hfirst : ∀ a b, p a → p b → key a ≤ key b → q a → q b) {left right : List α}
    (hsub : (left ++ right).Subperm all) (hleft : ∀ a ∈ left, p a) (hright : ∀ a ∈ right, q a)
    (hlength : taken.length ≤ left.length) : right.length ≤ rest.countP q := by
  by_cases hspent : ∃ a ∈ taken, q a
  · obtain ⟨a, ha, hq⟩ := hspent
    -- everything with `p` that is left over has `q`, so nothing of `p` alone is left
    have hrest : rest.countP q = rest.countP fun b => p b || q b := by
      refine List.countP_congr fun b hb => ?_
      rw [Bool.or_eq_true]
      constructor
      · exact .inr
      · rintro (hp | hq')
        · exact hfirst a b (h.holds a ha) hp (h.least a ha b hb hp) hq
        · exact hq'
    have hall : (all.countP fun b => p b || q b) =
        taken.length + rest.countP fun b => p b || q b := by
      rw [← h.perm.countP_eq, List.countP_append,
        List.countP_eq_length.2 fun b hb => by rw [h.holds b hb, Bool.true_or]]
    have hboth : (left ++ right).countP (fun b => p b || q b) = left.length + right.length := by
      rw [List.countP_eq_length.2, List.length_append]
      intro b hb
      rcases List.mem_append.1 hb with hb | hb
      · rw [hleft b hb, Bool.true_or]
      · rw [hright b hb, Bool.or_true]
    have hle := hsub.countP_le fun b => p b || q b
    omega
  · have hnone : taken.countP q = 0 :=
      List.countP_eq_zero.2 fun a ha hq => hspent ⟨a, ha, hq⟩
    have hall : all.countP q = rest.countP q := by
      rw [← h.perm.countP_eq, List.countP_append, hnone, Nat.zero_add]
    have hsub' : right.Subperm all := (List.sublist_append_right left right).subperm.trans hsub
    have hle := hsub'.countP_le q
    rw [List.countP_eq_length.2 hright] at hle
    omega

/-- With different keys, the elements that are taken are those with few elements below them. -/
theorem mem_taken_iff (h : Takes p key count all taken rest) (hfull : taken.length = count)
    (hkeys : (all.map key).Nodup) (ha : a ∈ all) (hp : p a) :
    a ∈ taken ↔ all.countP (fun b => p b && decide (key b ≤ key a)) ≤ count := by
  have hsplit : ∀ f : α → Bool, all.countP f = taken.countP f + rest.countP f := fun f => by
    rw [← h.perm.countP_eq, List.countP_append]
  have hnodup : ((taken ++ rest).map key).Nodup := (h.perm.map key).nodup_iff.2 hkeys
  rw [List.map_append, List.nodup_append] at hnodup
  rw [hsplit]
  constructor
  · intro hmem
    have hzero : rest.countP (fun b => p b && decide (key b ≤ key a)) = 0 := by
      refine List.countP_eq_zero.2 fun b hb hbelow => ?_
      rw [Bool.and_eq_true, decide_eq_true_eq] at hbelow
      have heq := le_antisymm hbelow.2 (h.least a hmem b hb hbelow.1)
      exact hnodup.2.2 _ (List.mem_map_of_mem hmem) _ (List.mem_map_of_mem hb) heq.symm
    have hle := taken.countP_le_length (p := fun b => p b && decide (key b ≤ key a))
    omega
  · intro hle
    rcases h.mem_or ha with hmem | hmem
    · exact hmem
    · have hall : taken.countP (fun b => p b && decide (key b ≤ key a)) = taken.length := by
        refine List.countP_eq_length.2 fun b hb => ?_
        rw [Bool.and_eq_true, decide_eq_true_eq]
        exact ⟨h.holds b hb, h.least b hb a hmem hp⟩
      have hpos : 0 < rest.countP fun b => p b && decide (key b ≤ key a) := by
        refine List.countP_pos_iff.2 ⟨a, hmem, ?_⟩
        rw [Bool.and_eq_true, decide_eq_true_eq]
        exact ⟨hp, le_refl _⟩
      omega

end Takes

end Gammaboard.Lib
