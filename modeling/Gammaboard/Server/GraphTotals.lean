import Gammaboard.Server.Graphs
import Mathlib.Algebra.BigOperators.Ring.List
import Mathlib.Algebra.Order.BigOperators.Group.List
import Mathlib.Algebra.Order.Ring.Rat
import Mathlib.Data.Rat.Floor

/-!
# What bins hold

A bin holds sums over the contributions, each with the weight of its part in
the bin, and the components of these parts. Over all bins the sums are those of
the whole range, and a plotted value is a mean of the contributing ones.
-/

namespace Gammaboard.Server

open Gammaboard.Lib Gammaboard.Utils

variable {K : Type} [Field K] [LinearOrder K]

namespace Contribution

/-- The weight of a contribution in a bin, or in the whole range. -/
def weightIn (bin : K × K) (contribution : Contribution K) : K :=
  if contribution.percent.isSome then
    contribution.measuredSeconds * overlap (contribution.start, contribution.stop) bin /
      (contribution.stop - contribution.start)
  else 0

def value (contribution : Contribution K) : K := contribution.percent.getD 0

theorem overlap_eq_clip (bin : K × K) (contribution : Contribution K) :
    overlap (contribution.start, contribution.stop) bin =
      max 0 ((contribution.clip bin).2 - (contribution.clip bin).1) := rfl

end Contribution

/-! ## One bin -/

/-- The bin after some contributions. -/
def binOf (bounds : K × K) (contributions : List (Contribution K)) : Bin K :=
  contributions.foldl (fun bin contribution => addToBin contribution bounds bin) .new

/-- The parts of the contributions that are not empty. -/
def partsIn (bounds : K × K) (contributions : List (Contribution K)) : List (K × K) :=
  (contributions.map (·.clip bounds)).filter fun part => decide (part.1 < part.2)

theorem ranges_binOf (bounds : K × K) (contributions : List (Contribution K)) :
    (binOf bounds contributions).ranges =
      (partsIn bounds contributions).foldl (insertRange 1) [] := by
  induction contributions using List.reverseRecOn with
  | nil => rfl
  | append_singleton contributions contribution ih =>
    unfold binOf partsIn at ih ⊢
    rw [List.foldl_append, List.map_append, List.filter_append, List.foldl_append, ← ih,
      List.foldl_cons, List.foldl_nil, List.map_singleton]
    generalize contributions.foldl (fun bin contribution => addToBin contribution bounds bin)
      Bin.new = bin
    unfold addToBin
    by_cases hempty : (contribution.clip bounds).2 ≤ (contribution.clip bounds).1
    · rw [if_pos hempty, List.filter_cons_of_neg (by simpa using hempty)]
      rfl
    · rw [if_neg hempty, List.filter_cons_of_pos (by simpa using hempty)]
      cases contribution.percent with
      | none => rfl
      | some value => rfl

theorem binOf_concat (bounds : K × K) (contributions : List (Contribution K))
    (contribution : Contribution K) :
    binOf bounds (contributions ++ [contribution]) =
      addToBin contribution bounds (binOf bounds contributions) := by
  unfold binOf
  rw [List.foldl_append]
  rfl

variable [IsStrictOrderedRing K]

theorem weighted_addToBin (contribution : Contribution K) (bounds : K × K) (bin : Bin K) :
    (addToBin contribution bounds bin).weighted =
        bin.weighted + contribution.value * contribution.weightIn bounds ∧
      (addToBin contribution bounds bin).seconds = bin.seconds + contribution.weightIn bounds := by
  have hclip := contribution.overlap_eq_clip bounds
  unfold addToBin Contribution.weightIn Contribution.value
  by_cases hempty : (contribution.clip bounds).2 ≤ (contribution.clip bounds).1
  · rw [if_pos hempty, hclip, max_eq_left (sub_nonpos.2 hempty), mul_zero, zero_div, ite_self,
      mul_zero, add_zero, add_zero]
    exact ⟨rfl, rfl⟩
  · rw [if_neg hempty, hclip, max_eq_right (sub_nonneg.2 (le_of_not_ge hempty))]
    cases contribution.percent with
    | none =>
      rw [Option.isSome_none, if_neg Bool.false_ne_true, mul_zero, add_zero, add_zero]
      exact ⟨rfl, rfl⟩
    | some value => exact ⟨rfl, rfl⟩

theorem weighted_binOf (bounds : K × K) (contributions : List (Contribution K)) :
    (binOf bounds contributions).weighted =
        (contributions.map fun c => c.value * c.weightIn bounds).sum ∧
      (binOf bounds contributions).seconds = (contributions.map (·.weightIn bounds)).sum := by
  induction contributions using List.reverseRecOn with
  | nil => exact ⟨rfl, rfl⟩
  | append_singleton contributions contribution ih =>
    obtain ⟨hweighted, hseconds⟩ := weighted_addToBin contribution bounds
      (binOf bounds contributions)
    rw [binOf_concat, hweighted, hseconds, ih.1, ih.2]
    simp only [List.map_append, List.sum_append, List.map_singleton, List.sum_singleton, and_self]

/-! ## All bins -/

variable [FloorRing K] {bounds : K × K}

/-- A bin takes its part of every contribution; the floor and the ceiling skip empty parts. -/
theorem addInterval_eq (hbounds : bounds.1 < bounds.2) (bins : List (Bin K))
    (contribution : Contribution K) :
    addInterval bounds bins contribution = bins.mapIdx fun index bin =>
      addToBin contribution (binAt bounds.1 (binWidth bounds bins.length) index) bin := by
  unfold addInterval
  refine List.ext_getElem? fun index => ?_
  rw [List.getElem?_mapIdx, List.getElem?_mapIdx]
  cases hbin : bins[index]? with
  | none => rfl
  | some bin =>
    obtain ⟨hindex, -⟩ := List.getElem?_eq_some_iff.1 hbin
    have hwidth : 0 < binWidth bounds bins.length :=
      div_pos (sub_pos.2 hbounds) (Nat.cast_pos.2 (by omega))
    rw [Option.map_some, Option.map_some]
    split_ifs with hin
    · rfl
    · unfold addToBin
      rw [if_pos]
      by_contra hpart
      have := @index_of_overlap K _ _ _ (contribution.start, contribution.stop) _ _ _ hwidth index
        (not_le.1 hpart)
      dsimp only at this
      omega

/-- The bins after some contributions, each on its own. -/
theorem foldl_addInterval (hbounds : bounds.1 < bounds.2) (n : Nat)
    (contributions : List (Contribution K)) :
    contributions.foldl (addInterval bounds) (List.replicate n .new) =
      (List.range n).map fun index =>
        binOf (binAt bounds.1 (binWidth bounds n) index) contributions := by
  induction contributions using List.reverseRecOn with
  | nil =>
    show List.replicate n Bin.new = (List.range n).map fun _ => Bin.new
    rw [List.map_const', List.length_range]
  | append_singleton contributions contribution ih =>
    rw [List.foldl_append, ih, List.foldl_cons, List.foldl_nil, addInterval_eq hbounds,
      List.length_map, List.length_range]
    refine List.ext_getElem? fun index => ?_
    rw [List.getElem?_mapIdx, List.getElem?_map, List.getElem?_map]
    rcases Nat.lt_or_ge index n with hlt | hge
    · rw [List.getElem?_range hlt]
      exact congrArg some (binOf_concat _ _ _).symm
    · rw [List.getElem?_eq_none (by rwa [List.length_range])]
      rfl

/-- The parts of a contribution in the bins add up. -/
theorem sum_weightIn (hbounds : bounds.1 < bounds.2) {n : Nat} (hn : 0 < n)
    {contribution : Contribution K} (hc : contribution.start ≤ contribution.stop) :
    ((List.range n).map fun index =>
      contribution.weightIn (binAt bounds.1 (binWidth bounds n) index)).sum =
        contribution.weightIn bounds := by
  have hwidth : 0 ≤ binWidth bounds n :=
    div_nonneg (sub_nonneg.2 hbounds.le) (Nat.cast_nonneg n)
  have hend : bounds.1 + (n : K) * binWidth bounds n = bounds.2 := by
    unfold binWidth
    rw [mul_div_cancel₀ _ (Nat.cast_ne_zero.2 (by omega))]
    ring
  have hsum := @sum_overlap K _ _ _ (contribution.start, contribution.stop) bounds.1 _ hwidth hc n
  rw [hend] at hsum
  unfold Contribution.weightIn
  split_ifs
  · simp only [div_eq_mul_inv]
    rw [← hsum, ← List.sum_map_mul_left, ← List.sum_map_mul_right]
  · simp

theorem sum_comm {α β : Type} (f : α → β → K) (l : List α) (m : List β) :
    (l.map fun a => (m.map fun b => f a b).sum).sum =
      (m.map fun b => (l.map fun a => f a b).sum).sum := by
  induction m with
  | nil => simp
  | cons b m ih => simp only [List.map_cons, List.sum_cons, List.sum_map_add, ih]

/-- The bins hold together what the range holds. -/
theorem sum_bins (hbounds : bounds.1 < bounds.2) {n : Nat} (hn : 0 < n)
    {contributions : List (Contribution K)} (h : ∀ c ∈ contributions, c.start ≤ c.stop) :
    ((contributions.foldl (addInterval bounds) (List.replicate n .new)).map (·.weighted)).sum =
        (contributions.map fun c => c.value * c.weightIn bounds).sum ∧
      ((contributions.foldl (addInterval bounds) (List.replicate n .new)).map (·.seconds)).sum =
        (contributions.map (·.weightIn bounds)).sum := by
  rw [foldl_addInterval hbounds, List.map_map, List.map_map]
  constructor
  · calc ((List.range n).map fun index =>
          (binOf (binAt bounds.1 (binWidth bounds n) index) contributions).weighted).sum
      _ = ((List.range n).map fun index => (contributions.map fun c =>
            c.value * c.weightIn (binAt bounds.1 (binWidth bounds n) index)).sum).sum :=
        congrArg List.sum (List.map_congr_left fun index _ => (weighted_binOf _ _).1)
      _ = (contributions.map fun c => ((List.range n).map fun index =>
            c.value * c.weightIn (binAt bounds.1 (binWidth bounds n) index)).sum).sum :=
        sum_comm _ _ _
      _ = (contributions.map fun c => c.value * c.weightIn bounds).sum :=
        congrArg List.sum (List.map_congr_left fun c hc => by
          rw [List.sum_map_mul_left, sum_weightIn hbounds hn (h c hc)])
  · calc ((List.range n).map fun index =>
          (binOf (binAt bounds.1 (binWidth bounds n) index) contributions).seconds).sum
      _ = ((List.range n).map fun index => (contributions.map fun c =>
            c.weightIn (binAt bounds.1 (binWidth bounds n) index)).sum).sum :=
        congrArg List.sum (List.map_congr_left fun index _ => (weighted_binOf _ _).2)
      _ = (contributions.map fun c => ((List.range n).map fun index =>
            c.weightIn (binAt bounds.1 (binWidth bounds n) index)).sum).sum :=
        sum_comm _ _ _
      _ = (contributions.map fun c => c.weightIn bounds).sum :=
        congrArg List.sum (List.map_congr_left fun c hc => sum_weightIn hbounds hn (h c hc))

/-! ## Means -/

omit [FloorRing K] in
/-- A weighted mean has a value below it and one above it. -/
theorem exists_le_mean {α : Type} {l : List α} {value weight : α → K}
    (hweight : ∀ a ∈ l, 0 ≤ weight a) (hpos : 0 < (l.map weight).sum) :
    (∃ a ∈ l, 0 < weight a ∧ value a ≤ (l.map fun a => value a * weight a).sum / (l.map weight).sum) ∧
      ∃ a ∈ l, 0 < weight a ∧
        (l.map fun a => value a * weight a).sum / (l.map weight).sum ≤ value a := by
  obtain ⟨mean, hmean⟩ : ∃ mean, mean = (l.map fun a => value a * weight a).sum / (l.map weight).sum :=
    ⟨_, rfl⟩
  have hsum : (l.map fun a => mean * weight a).sum = (l.map fun a => value a * weight a).sum := by
    rw [List.sum_map_mul_left, hmean, div_mul_cancel₀ _ hpos.ne']
  obtain ⟨heavy, hheavy, hheavyPos⟩ : ∃ a ∈ l, 0 < weight a := by
    refine List.exists_lt_of_sum_lt (fun _ => 0) weight ?_
    simpa using hpos
  rw [← hmean]
  constructor
  · by_contra hnone
    push_neg at hnone
    have hlt := List.sum_lt_sum (fun a => mean * weight a) (fun a => value a * weight a)
      (fun a ha => by
        rcases (hweight a ha).eq_or_lt with hzero | hwpos
        · rw [← hzero, mul_zero, mul_zero]
        · exact (mul_lt_mul_of_pos_right (hnone a ha hwpos) hwpos).le)
      ⟨heavy, hheavy, mul_lt_mul_of_pos_right (hnone heavy hheavy hheavyPos) hheavyPos⟩
    exact absurd hsum hlt.ne
  · by_contra hnone
    push_neg at hnone
    have hlt := List.sum_lt_sum (fun a => value a * weight a) (fun a => mean * weight a)
      (fun a ha => by
        rcases (hweight a ha).eq_or_lt with hzero | hwpos
        · rw [← hzero, mul_zero, mul_zero]
        · exact (mul_lt_mul_of_pos_right (hnone a ha hwpos) hwpos).le)
      ⟨heavy, hheavy, mul_lt_mul_of_pos_right (hnone heavy hheavy hheavyPos) hheavyPos⟩
    exact absurd hsum hlt.ne'

omit [FloorRing K] in
theorem weightIn_nonneg {contribution : Contribution K} (hseconds : 0 ≤ contribution.measuredSeconds)
    (hc : contribution.start ≤ contribution.stop) (bin : K × K) : 0 ≤ contribution.weightIn bin := by
  unfold Contribution.weightIn
  split_ifs
  · exact div_nonneg (mul_nonneg hseconds (le_max_left _ _)) (sub_nonneg.2 hc)
  · exact le_refl 0

omit [FloorRing K] in
/-- What weighs in a bin has a value and meets the bin. -/
theorem of_weightIn_pos {contribution : Contribution K} {bin : K × K}
    (h : 0 < contribution.weightIn bin) :
    contribution.percent = some contribution.value ∧
      0 < overlap (contribution.start, contribution.stop) bin := by
  unfold Contribution.weightIn at h
  split_ifs at h with hsome
  · refine ⟨(Option.some_get hsome).symm.trans ?_, ?_⟩
    · unfold Contribution.value
      rw [Option.get_eq_getD]
    · refine lt_of_le_of_ne (le_max_left _ _) fun hzero => ?_
      rw [← hzero, mul_zero, zero_div] at h
      exact lt_irrefl _ h
  · exact absurd h (lt_irrefl _)

omit [FloorRing K] in
/-- The value of a plotted bin lies between values that contribute to it. -/
theorem binOf_between {contributions : List (Contribution K)}
    (h : ∀ c ∈ contributions, 0 ≤ c.measuredSeconds ∧ c.start ≤ c.stop) {bin : K × K}
    (hplotted : (binOf bin contributions).plotted = true) :
    (∃ c ∈ contributions, 0 < c.weightIn bin ∧
        c.value ≤ (binOf bin contributions).weighted / (binOf bin contributions).seconds) ∧
      ∃ c ∈ contributions, 0 < c.weightIn bin ∧
        (binOf bin contributions).weighted / (binOf bin contributions).seconds ≤ c.value := by
  obtain ⟨hweighted, hseconds⟩ := weighted_binOf bin contributions
  have hpos : 0 < (binOf bin contributions).seconds := by
    unfold Bin.plotted at hplotted
    simp only [Bool.not_or, Bool.and_eq_true, Bool.not_eq_true', decide_eq_false_iff_not,
      not_le] at hplotted
    exact hplotted.2
  rw [hseconds] at hpos
  rw [hweighted, hseconds]
  exact exists_le_mean (fun c hc => weightIn_nonneg (h c hc).1 (h c hc).2 bin) hpos

/-! ## Points -/

omit [IsStrictOrderedRing K] [FloorRing K] in
theorem of_mem_finish {bins : List (Bin K)} {point : PlotPoint K} (h : point ∈ finish bins) :
    ∃ bin ∈ bins, bin.plotted = true ∧ point.y = bin.weighted / bin.seconds ∧
      (bin.start = some point.x ∨ bin.stop = point.x) := by
  unfold finish at h
  induction bins using List.reverseRecOn with
  | nil => exact absurd h List.not_mem_nil
  | append_singleton bins bin ih =>
    rw [List.foldl_append, List.foldl_cons, List.foldl_nil] at h
    generalize hplot : bins.foldl plotBin ⟨[], ∅⟩ = plot at h ih
    have hbefore (hmem : point ∈ plot.points) : ∃ b ∈ bins ++ [bin], b.plotted = true ∧
        point.y = b.weighted / b.seconds ∧ (b.start = some point.x ∨ b.stop = point.x) := by
      obtain ⟨b, hb, hrest⟩ := ih hmem
      exact ⟨b, List.mem_append_left _ hb, hrest⟩
    unfold plotBin at h
    cases hplotted : bin.plotted with
    | false =>
      rw [hplotted] at h
      exact hbefore h
    | true =>
      rw [hplotted] at h
      cases hstart : bin.start with
      | none =>
        rw [hstart] at h
        exact hbefore h
      | some start =>
        rw [hstart] at h
        have hself : bin ∈ bins ++ [bin] := List.mem_append_right _ List.mem_cons_self
        rcases List.mem_append.1 h with h | h
        · exact hbefore h
        · rcases List.mem_cons.1 h with rfl | h
          · exact ⟨bin, hself, hplotted, rfl, .inl hstart⟩
          · rw [List.mem_singleton.1 h]
            exact ⟨bin, hself, hplotted, rfl, .inr rfl⟩

end Gammaboard.Server
