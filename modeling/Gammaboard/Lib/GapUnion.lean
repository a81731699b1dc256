import Mathlib.Algebra.Order.Field.Basic
import Mathlib.Data.List.Induction
import Mathlib.Data.Set.Insert
import Mathlib.Order.Interval.Set.Defs
import Mathlib.Tactic.Linarith

/-!
# Unions of ranges up to small gaps

The components of a set of points, when points that are at most `gap` apart
are joined: ranges with ends in the set, further than `gap` from each other,
that cover it and have no longer gap inside. There is one list of them.
`insertRange` adds a range to a list of components in place: one pass takes out
every range near the new one, which grows by each.
-/

namespace Gammaboard.Lib

variable {K : Type} [Field K] [LinearOrder K] {gap : K} {points more : Set K} {range : K × K}
  {ranges : List (K × K)}

/-- A range between two points with no longer gap inside. -/
structure Piece (gap : K) (points : Set K) (range : K × K) : Prop where
  ordered : range.1 ≤ range.2
  first : range.1 ∈ points
  last : range.2 ∈ points
  joined : ∀ u v, range.1 ≤ u → v ≤ range.2 → (∀ x ∈ points, ¬ (u < x ∧ x < v)) → v ≤ u + gap

structure Components (gap : K) (points : Set K) (ranges : List (K × K)) : Prop where
  pieces : ∀ range ∈ ranges, Piece gap points range
  apart : ranges.Pairwise fun left right => left.2 + gap < right.1
  covers : ∀ x ∈ points, ∃ range ∈ ranges, range.1 ≤ x ∧ x ≤ range.2

theorem Components.congr (h : Components gap points ranges) (heq : points = more) :
    Components gap more ranges := heq ▸ h

/-- The range with all that is near it, and the ranges that are not. -/
def absorb (gap : K) : K × K → List (K × K) → (K × K) × List (K × K)
  | range, [] => (range, [])
  | range, existing :: ranges =>
    if existing.2 + gap < range.1 ∨ range.2 + gap < existing.1 then
      let absorbed := absorb gap range ranges
      (absorbed.1, existing :: absorbed.2)
    else absorb gap (min range.1 existing.1, max range.2 existing.2) ranges

def insertRange (gap : K) (ranges : List (K × K)) (range : K × K) : List (K × K) :=
  let absorbed := absorb gap range ranges
  (absorbed.2 ++ [absorbed.1]).mergeSort fun left right => decide (left.1 ≤ right.1)

/-! ## Pieces -/

theorem Piece.mono (h : Piece gap points range) (hsub : points ⊆ more) : Piece gap more range where
  ordered := h.ordered
  first := hsub h.first
  last := hsub h.last
  joined u v hu hv hfree := h.joined u v hu hv fun x hx => hfree x (hsub hx)

theorem Piece.of_Icc [IsStrictOrderedRing K] (hgap : 0 ≤ gap) (hle : range.1 ≤ range.2)
    (hsub : Set.Icc range.1 range.2 ⊆ points) : Piece gap points range where
  ordered := hle
  first := hsub ⟨le_refl _, hle⟩
  last := hsub ⟨hle, le_refl _⟩
  joined u v hu hv hfree := by
    by_contra hlong
    have huv : u < v := by linarith
    have hmiddle := left_lt_add_div_two.2 huv
    have hmiddle' := add_div_two_lt_right.2 huv
    exact hfree ((u + v) / 2) (hsub ⟨by linarith, by linarith⟩) ⟨hmiddle, hmiddle'⟩

/-- Two pieces that are near each other are one. -/
theorem Piece.hull [IsStrictOrderedRing K] {left right : K × K} (hleft : Piece gap points left)
    (hright : Piece gap points right) (hnear : left.1 ≤ right.2 + gap)
    (hnear' : right.1 ≤ left.2 + gap) :
    Piece gap points (min left.1 right.1, max left.2 right.2) where
  ordered := le_trans (min_le_left _ _) (le_trans hleft.ordered (le_max_left _ _))
  first := by
    show min left.1 right.1 ∈ points
    rcases min_choice left.1 right.1 with h | h
    · rw [h]
      exact hleft.first
    · rw [h]
      exact hright.first
  last := by
    show max left.2 right.2 ∈ points
    rcases max_choice left.2 right.2 with h | h
    · rw [h]
      exact hleft.last
    · rw [h]
      exact hright.last
  joined u v hu hv hfree := by
    dsimp only at hu hv
    -- inside one of the two, or across both with their ends not inside
    rcases le_or_gt v left.2 with hvl | hvl
    · rcases le_or_gt left.1 u with hul | hul
      · exact hleft.joined u v hul hvl hfree
      · have hur : right.1 ≤ u := (min_le_iff.1 hu).resolve_left (not_le.2 hul)
        rcases le_or_gt v right.2 with hvr | hvr
        · exact hright.joined u v hur hvr hfree
        · have hfirst : v ≤ left.1 := not_lt.1 fun h => hfree left.1 hleft.first ⟨hul, h⟩
          have hlast : right.2 ≤ u := not_lt.1 fun h => hfree right.2 hright.last ⟨h, hvr⟩
          linarith
    · have hvr : v ≤ right.2 := (le_max_iff.1 hv).resolve_left (not_le.2 hvl)
      rcases le_or_gt right.1 u with hur | hur
      · exact hright.joined u v hur hvr hfree
      · have hul : left.1 ≤ u := (min_le_iff.1 hu).resolve_right (not_le.2 hur)
        have hfirst : v ≤ right.1 := not_lt.1 fun h => hfree right.1 hright.first ⟨hur, h⟩
        have hlast : left.2 ≤ u := not_lt.1 fun h => hfree left.2 hleft.last ⟨h, hvl⟩
        linarith

/-! ## One pass -/

theorem absorb_piece [IsStrictOrderedRing K] (hrange : Piece gap points range)
    (hpieces : ∀ existing ∈ ranges, Piece gap points existing) :
    Piece gap points (absorb gap range ranges).1 := by
  induction ranges generalizing range with
  | nil => exact hrange
  | cons existing ranges ih =>
    obtain ⟨hexisting, hpieces⟩ := List.forall_mem_cons.1 hpieces
    unfold absorb
    by_cases hfar : existing.2 + gap < range.1 ∨ range.2 + gap < existing.1
    · rw [if_pos hfar]
      exact ih hrange hpieces
    · obtain ⟨hnear, hnear'⟩ := not_or.1 hfar
      rw [if_neg hfar]
      exact ih (hrange.hull hexisting (not_lt.1 hnear) (not_lt.1 hnear')) hpieces

theorem absorb_sublist : (absorb gap range ranges).2.Sublist ranges := by
  induction ranges generalizing range with
  | nil => exact List.Sublist.refl _
  | cons existing ranges ih =>
    unfold absorb
    by_cases hfar : existing.2 + gap < range.1 ∨ range.2 + gap < existing.1
    · rw [if_pos hfar]
      exact ih.cons_cons _
    · rw [if_neg hfar]
      exact ih.cons _

theorem absorb_grows (range : K × K) (ranges : List (K × K)) :
    (absorb gap range ranges).1.1 ≤ range.1 ∧ range.2 ≤ (absorb gap range ranges).1.2 := by
  induction ranges generalizing range with
  | nil => exact ⟨le_refl _, le_refl _⟩
  | cons existing ranges ih =>
    unfold absorb
    by_cases hfar : existing.2 + gap < range.1 ∨ range.2 + gap < existing.1
    · rw [if_pos hfar]
      exact ih range
    · rw [if_neg hfar]
      obtain ⟨hfirst, hlast⟩ := ih (min range.1 existing.1, max range.2 existing.2)
      exact ⟨le_trans hfirst (min_le_left _ _), le_trans (le_max_left _ _) hlast⟩

theorem absorb_covers (range : K × K) {existing : K × K} (h : existing ∈ ranges) :
    existing ∈ (absorb gap range ranges).2 ∨
      (absorb gap range ranges).1.1 ≤ existing.1 ∧ existing.2 ≤ (absorb gap range ranges).1.2 := by
  induction ranges generalizing range with
  | nil => exact absurd h List.not_mem_nil
  | cons head ranges ih =>
    unfold absorb
    by_cases hfar : head.2 + gap < range.1 ∨ range.2 + gap < head.1
    · rw [if_pos hfar]
      rcases List.mem_cons.1 h with rfl | h
      · exact .inl List.mem_cons_self
      · exact (ih range h).imp_left (List.mem_cons_of_mem _)
    · rw [if_neg hfar]
      rcases List.mem_cons.1 h with rfl | h
      · obtain ⟨hfirst, hlast⟩ := absorb_grows (K := K) (min range.1 existing.1, max range.2 existing.2) ranges
        exact .inr ⟨le_trans hfirst (min_le_right _ _), le_trans (le_max_right _ _) hlast⟩
      · exact ih _ h

/-- What begins after a bound still does. -/
theorem lt_absorb {bound : K} (hrange : bound < range.1)
    (hranges : ∀ existing ∈ ranges, bound < existing.1) : bound < (absorb gap range ranges).1.1 := by
  induction ranges generalizing range with
  | nil => exact hrange
  | cons existing ranges ih =>
    obtain ⟨hexisting, hranges⟩ := List.forall_mem_cons.1 hranges
    unfold absorb
    by_cases hfar : existing.2 + gap < range.1 ∨ range.2 + gap < existing.1
    · rw [if_pos hfar]
      exact ih hrange hranges
    · rw [if_neg hfar]
      exact ih (lt_min hrange hexisting) hranges

theorem absorb_of_far (h : ∀ existing ∈ ranges, range.2 + gap < existing.1) :
    absorb gap range ranges = (range, ranges) := by
  induction ranges with
  | nil => rfl
  | cons existing ranges ih =>
    obtain ⟨hexisting, hranges⟩ := List.forall_mem_cons.1 h
    rw [absorb, if_pos (.inr hexisting), ih hranges]

/-- One pass is enough: what was kept before the range grew is still far from it. -/
theorem absorb_apart [IsStrictOrderedRing K] (hgap : 0 ≤ gap)
    (hordered : ∀ existing ∈ ranges, existing.1 ≤ existing.2)
    (hapart : ranges.Pairwise fun left right => left.2 + gap < right.1) :
    ∀ existing ∈ (absorb gap range ranges).2,
      existing.2 + gap < (absorb gap range ranges).1.1 ∨
        (absorb gap range ranges).1.2 + gap < existing.1 := by
  induction ranges generalizing range with
  | nil => exact fun existing h => absurd h List.not_mem_nil
  | cons head ranges ih =>
    obtain ⟨hhead, hordered⟩ := List.forall_mem_cons.1 hordered
    obtain ⟨hnext, hapart⟩ := List.pairwise_cons.1 hapart
    unfold absorb
    by_cases hfar : head.2 + gap < range.1 ∨ range.2 + gap < head.1
    · rw [if_pos hfar]
      intro existing hmem
      rcases List.mem_cons.1 hmem with rfl | hmem
      · rcases hfar with hbefore | hafter
        · exact .inl (lt_absorb hbefore hnext)
        · have hrest : ∀ later ∈ ranges, range.2 + gap < later.1 := fun later hlater => by
            have := hnext later hlater
            linarith
          rw [absorb_of_far hrest]
          exact .inr hafter
      · exact ih hordered hapart existing hmem
    · rw [if_neg hfar]
      exact ih hordered hapart

/-! ## Insertion -/

theorem mem_insertRange {existing : K × K} : existing ∈ insertRange gap ranges range ↔
    existing ∈ (absorb gap range ranges).2 ∨ existing = (absorb gap range ranges).1 := by
  unfold insertRange
  rw [List.mem_mergeSort, List.mem_append, List.mem_singleton]

theorem components_insertRange [IsStrictOrderedRing K] (hgap : 0 ≤ gap)
    (h : Components gap points ranges) (hrange : range.1 ≤ range.2) :
    Components gap (points ∪ Set.Icc range.1 range.2) (insertRange gap ranges range) := by
  have hpieces : ∀ existing ∈ ranges, Piece gap (points ∪ Set.Icc range.1 range.2) existing :=
    fun existing hmem => (h.pieces existing hmem).mono Set.subset_union_left
  have hmerged := absorb_piece (Piece.of_Icc hgap hrange (Set.subset_union_right (s := points)))
    hpieces
  refine ⟨?_, ?_, ?_⟩
  · intro existing hmem
    rcases mem_insertRange.1 hmem with hkept | rfl
    · exact hpieces existing (absorb_sublist.subset hkept)
    · exact hmerged
  · have hfar : ((absorb gap range ranges).2 ++ [(absorb gap range ranges).1]).Pairwise
        fun left right => left.2 + gap < right.1 ∨ right.2 + gap < left.1 := by
      refine List.pairwise_append.2 ⟨(h.apart.sublist absorb_sublist).imp .inl,
        List.pairwise_singleton _ _, fun existing hkept merged hmem => ?_⟩
      rw [List.mem_singleton.1 hmem]
      exact absorb_apart hgap (fun existing hmem => (h.pieces existing hmem).ordered) h.apart
        existing hkept
    have hsorted := @List.pairwise_mergeSort (K × K) (fun left right => decide (left.1 ≤ right.1))
      (fun a b c hab hbc => decide_eq_true
        (le_trans (of_decide_eq_true hab) (of_decide_eq_true hbc)))
      (fun a b => by
        rw [Bool.or_eq_true, decide_eq_true_iff, decide_eq_true_iff]
        exact le_total a.1 b.1)
      ((absorb gap range ranges).2 ++ [(absorb gap range ranges).1])
    have hfarSorted := ((List.mergeSort_perm _
      fun left right : K × K => decide (left.1 ≤ right.1)).pairwise_iff
        Or.symm).2 hfar
    refine (hsorted.and hfarSorted).imp_of_mem ?_
    rintro left right - hright ⟨hle, hbefore | hafter⟩
    · exact hbefore
    · have hordered : right.1 ≤ right.2 := by
        rcases mem_insertRange.1 hright with hkept | rfl
        · exact (h.pieces right (absorb_sublist.subset hkept)).ordered
        · exact hmerged.ordered
      have := of_decide_eq_true hle
      linarith
  · rintro x (hx | hx)
    · obtain ⟨existing, hmem, hfirst, hlast⟩ := h.covers x hx
      rcases absorb_covers range hmem with hkept | ⟨hfirst', hlast'⟩
      · exact ⟨existing, mem_insertRange.2 (.inl hkept), hfirst, hlast⟩
      · exact ⟨_, mem_insertRange.2 (.inr rfl), le_trans hfirst' hfirst, le_trans hlast hlast'⟩
    · obtain ⟨hfirst, hlast⟩ := absorb_grows range ranges
      exact ⟨_, mem_insertRange.2 (.inr rfl), le_trans hfirst hx.1, le_trans hx.2 hlast⟩

/-- Ranges added one after the other, in any order. -/
theorem components_insertAll [IsStrictOrderedRing K] (hgap : 0 ≤ gap) {inserted : List (K × K)}
    (hinserted : ∀ range ∈ inserted, range.1 ≤ range.2) :
    Components gap {x | ∃ range ∈ inserted, range.1 ≤ x ∧ x ≤ range.2}
      (inserted.foldl (insertRange gap) []) := by
  induction inserted using List.reverseRecOn with
  | nil =>
    exact ⟨fun _ h => absurd h List.not_mem_nil, List.Pairwise.nil,
      fun _ ⟨_, h, _⟩ => absurd h List.not_mem_nil⟩
  | append_singleton inserted range ih =>
    obtain ⟨hbefore, hrange⟩ := List.forall_mem_append.1 hinserted
    have hunion : {x | ∃ r ∈ inserted ++ [range], r.1 ≤ x ∧ x ≤ r.2} =
        {x | ∃ r ∈ inserted, r.1 ≤ x ∧ x ≤ r.2} ∪ Set.Icc range.1 range.2 := by
      ext x
      constructor
      · rintro ⟨r, hmem, hx⟩
        rcases List.mem_append.1 hmem with hmem | hmem
        · exact .inl ⟨r, hmem, hx⟩
        · rw [List.mem_singleton.1 hmem] at hx
          exact .inr hx
      · rintro (⟨r, hmem, hx⟩ | hx)
        · exact ⟨r, List.mem_append_left _ hmem, hx⟩
        · exact ⟨range, List.mem_append_right _ List.mem_cons_self, hx⟩
    rw [List.foldl_append, hunion]
    exact components_insertRange hgap (ih hbefore) (hrange range List.mem_cons_self)

/-! ## There is one list of components -/

theorem Components.head_le [IsStrictOrderedRing K] (hgap : 0 ≤ gap) {head : K × K}
    (h : Components gap points (head :: ranges)) {x : K} (hx : x ∈ points) : head.1 ≤ x := by
  obtain ⟨range, hmem, hfirst, -⟩ := h.covers x hx
  rcases List.mem_cons.1 hmem with rfl | hmem
  · exact hfirst
  · have hnext := (List.pairwise_cons.1 h.apart).1 range hmem
    have hordered := (h.pieces head List.mem_cons_self).ordered
    linarith

theorem Components.tail [IsStrictOrderedRing K] (hgap : 0 ≤ gap) {head : K × K}
    (h : Components gap points (head :: ranges)) :
    Components gap {x | x ∈ points ∧ head.2 < x} ranges := by
  obtain ⟨hnext, hapart⟩ := List.pairwise_cons.1 h.apart
  refine ⟨fun range hmem => ?_, hapart, fun x ⟨hx, hlt⟩ => ?_⟩
  · have hpiece := h.pieces range (List.mem_cons_of_mem _ hmem)
    have hafter : head.2 < range.1 := by linarith [hnext range hmem]
    exact ⟨hpiece.ordered, ⟨hpiece.first, hafter⟩, ⟨hpiece.last, lt_of_lt_of_le hafter hpiece.ordered⟩,
      fun u v hu hv hfree => hpiece.joined u v hu hv fun x hx hux =>
        hfree x ⟨hx, by linarith [hux.1]⟩ hux⟩
  · obtain ⟨range, hmem, hfirst, hlast⟩ := h.covers x hx
    rcases List.mem_cons.1 hmem with rfl | hmem
    · exact absurd hlast (not_le.2 hlt)
    · exact ⟨range, hmem, hfirst, hlast⟩

/-- A piece that begins in the first component ends in it. -/
theorem Components.last_le [IsStrictOrderedRing K] (hgap : 0 ≤ gap) {head other : K × K}
    (h : Components gap points (head :: ranges)) (hother : Piece gap points other)
    (hbegin : other.1 ≤ head.2) : other.2 ≤ head.2 := by
  by_contra hlong
  have htail := h.tail hgap
  obtain ⟨range, hmem, hfirst, -⟩ := htail.covers other.2 ⟨hother.last, not_le.1 hlong⟩
  cases ranges with
  | nil => exact absurd hmem List.not_mem_nil
  | cons next ranges =>
    have hnext : next.1 ≤ other.2 := htail.head_le hgap ⟨hother.last, not_le.1 hlong⟩
    have hgapped := (List.pairwise_cons.1 h.apart).1 next List.mem_cons_self
    have hjoined := hother.joined head.2 next.1 hbegin hnext fun x hx hinside =>
      absurd (htail.head_le hgap ⟨hx, hinside.1⟩) (not_le.2 hinside.2)
    linarith

theorem components_unique [IsStrictOrderedRing K] (hgap : 0 ≤ gap) {left right : List (K × K)}
    (hleft : Components gap points left) (hright : Components gap points right) : left = right := by
  induction left generalizing right points with
  | nil =>
    cases right with
    | nil => rfl
    | cons head right =>
      obtain ⟨range, hmem, -⟩ := hleft.covers head.1 (hright.pieces head List.mem_cons_self).first
      exact absurd hmem List.not_mem_nil
  | cons head left ih =>
    have hhead := hleft.pieces head List.mem_cons_self
    cases right with
    | nil =>
      obtain ⟨range, hmem, -⟩ := hright.covers head.1 hhead.first
      exact absurd hmem List.not_mem_nil
    | cons other right =>
      have hother := hright.pieces other List.mem_cons_self
      have hfirst : head.1 = other.1 :=
        le_antisymm (hleft.head_le hgap hother.first) (hright.head_le hgap hhead.first)
      have hlast : head.2 = other.2 :=
        le_antisymm (hright.last_le hgap hhead (hfirst.le.trans hother.ordered))
          (hleft.last_le hgap hother (hfirst.ge.trans hhead.ordered))
      have hsame : head = other := Prod.ext hfirst hlast
      rw [← hsame] at hright ⊢
      rw [ih (hleft.tail hgap) (hright.tail hgap)]

end Gammaboard.Lib
