import Gammaboard.Evaluation.MomentSplits
import Mathlib.Algebra.BigOperators.Ring.Finset
import Mathlib.Algebra.Order.Ring.Rat
import Mathlib.Data.Rat.Lemmas

/-!
# Estimates over all strata

Samples pushed into the strata of a stratified state and states merged. Every
stratum summarizes the samples with its label; the mean, the covariance and the
pooled estimates of the state are functions of the whole list of samples, up to
its order.
-/

namespace Gammaboard.Evaluation

open Gammaboard.Core Gammaboard.Sampling Gammaboard.Lib

variable {K V S G : Type}

/-- A sample as it is pushed. The native observables of a batch are set with its last sample. -/
structure StratifiedSample (K G : Type) where
  label : Nat
  values : List K
  weight : K
  matched : Bool
  diagnostic : Option (Point K × (List Int × List Int))
  native : Option G

/-- The samples of a stratum. -/
def ofStratum (k : Nat) (l : List (StratifiedSample K G)) : List (StratifiedSample K G) :=
  l.filter (·.label == k)

theorem ofStratum_append (k : Nat) (l l' : List (StratifiedSample K G)) :
    ofStratum k (l ++ l') = ofStratum k l ++ ofStratum k l' := List.filter_append _ _

theorem ofStratum_perm {l l' : List (StratifiedSample K G)} (h : l.Perm l') (k : Nat) :
    (ofStratum k l).Perm (ofStratum k l') := h.filter _

/-- The samples of all strata, stratum by stratum. -/
theorem flatMap_ofStratum_perm {n : Nat} {l : List (StratifiedSample K G)}
    (h : ∀ x ∈ l, x.label < n) : ((List.range n).flatMap (ofStratum · l)).Perm l := by
  induction n generalizing l with
  | zero =>
    cases l with
    | nil => simp
    | cons x l => exact absurd (h x List.mem_cons_self) (Nat.not_lt_zero _)
  | succ n ih =>
    have hbelow : ∀ k ∈ List.range n, ofStratum k l = ofStratum k (l.filter (·.label != n)) := by
      intro k hk
      have hlt := List.mem_range.1 hk
      unfold ofStratum
      rw [List.filter_filter]
      refine List.filter_congr fun x _ => ?_
      by_cases hx : x.label = k
      · have hne : x.label ≠ n := by omega
        simp [hx]
        omega
      · simp [hx]
    have hrest := ih (l := l.filter (·.label != n)) fun x hx => by
      obtain ⟨hmem, hne⟩ := List.mem_filter.1 hx
      have := h x hmem
      simp only [bne_iff_ne, ne_eq] at hne
      omega
    rw [List.range_succ, List.flatMap_append, List.flatMap_congr hbelow]
    have hlast : [n].flatMap (ofStratum · l) = l.filter fun x => !(x.label != n) := by
      simp [ofStratum, bne]
    rw [hlast]
    exact (hrest.append_right _).trans (List.filter_append_perm _ l)

variable [Field K] [LinearOrder K]

/-! ## A validated layout -/

/-- What a layout with a width is. -/
structure ValidLayout (layout : StratifiedLayout K) (width : Nat) : Prop where
  plan : layout.plan.Valid
  probabilities : ∃ p, layout.plan.probabilities = some p
  columns : ∀ (hypot : K → K → K) (values : List K),
    values.length = layout.plan.components.length → (layout.columns hypot values).length = width

theorem validLayout {layout : StratifiedLayout K} {width : Nat}
    (h : layout.validatedWidth = .ok width) : ValidLayout layout width := by
  unfold StratifiedLayout.validatedWidth at h
  obtain ⟨⟨⟩, hplan, h⟩ := bind_eq_ok h
  obtain ⟨⟨⟩, -, h⟩ := bind_eq_ok h
  obtain ⟨⟨⟩, -, h⟩ := bind_eq_ok h
  split at h
  · cases h
  · rename_i hprobabilities
    split at h
    · cases h
    · rename_i hmatches
      refine ⟨StratificationPlan.valid_of_validate hplan, ?_, fun hypot values hvalues => ?_⟩
      · cases hp : layout.plan.probabilities with
        | none => simp [hp] at hprobabilities
        | some p => exact ⟨p, rfl⟩
      · cases h
        unfold StratifiedLayout.columns StratifiedLayout.columnCount
        split
        · rename_i hconfig
          have hcomponents : layout.plan.components = ["real", "imag"] := by
            simpa [StratifiedLayout.layoutMatches, hconfig] using hmatches
          simp [hvalues, hcomponents]
        · simp [hvalues]
        · exact hvalues

/-! ## Accumulations -/

section Accumulate

variable (num : Numerics V S (MomentValues K) G (StratifiedLayout K)) (hypot : K → K → K)
  (emptyNative : G) (layout : StratifiedLayout K)

def ingest (a : StratifiedAccumulatorState (MomentValues K) G (StratifiedLayout K))
    (x : StratifiedSample K G) :
    Except EngineError (StratifiedAccumulatorState (MomentValues K) G (StratifiedLayout K)) := do
  let a ← a.push hypot x.label x.values x.weight x.matched x.diagnostic
  return { a with pooled := x.native.or a.pooled }

/-- Samples pushed into states and the states merged. -/
def accumulate (tree : Accumulation (StratifiedSample K G)) :
    Except EngineError (StratifiedAccumulatorState (MomentValues K) G (StratifiedLayout K)) :=
  tree.run (StratifiedAccumulatorState.new emptyNative layout) (ingest hypot)
    (StratifiedAccumulatorState.merge (withMoments num))

/-- The values of a sample times its weight. -/
def weighted (x : StratifiedSample K G) : List K :=
  (layout.columns hypot x.values).map (· * x.weight)

/-- What a sample contributes to its stratum. -/
def contribution (x : StratifiedSample K G) : List K :=
  (layout.columns hypot x.values).map (· * (x.weight * layout.probability x.label))

/-- The state has the layout, and every stratum summarizes its samples. -/
structure Holds (width : Nat) (l : List (StratifiedSample K G))
    (a : StratifiedAccumulatorState (MomentValues K) G (StratifiedLayout K)) : Prop where
  plan : a.plan = layout
  length : a.strata.length = layout.plan.partition.centers.length
  strata : ∀ k s, a.strata[k]? = some s →
    Summarizes width (contribution hypot layout) (·.matched) (ofStratum k l) s
  labels : ∀ x ∈ l, x.label < layout.plan.partition.centers.length
  weights : ∀ x ∈ l, 0 < x.weight
  widths : ∀ x ∈ l, x.values.length = layout.plan.components.length
  counts : ∀ k, (ofStratum k l).length ≤ PartitionDiagnostics.u64Max

variable {hypot layout} {width : Nat}

/-- The extrema with the diagnostics of a sample. -/
def observed (hypot : K → K → K) (layout : StratifiedLayout K)
    (extrema : List (ContributionExtrema K)) (x : StratifiedSample K G) :
    List (ContributionExtrema K) :=
  match x.diagnostic with
  | none => extrema
  | some (point, assignment) =>
    List.zipWith (fun e value => e.observe value point assignment) extrema
      (contribution hypot layout x)

theorem length_observed {extrema : List (ContributionExtrema K)} {x : StratifiedSample K G}
    (h : (contribution hypot layout x).length = extrema.length) :
    (observed hypot layout extrema x).length = extrema.length := by
  unfold observed
  split
  · rfl
  · rw [List.length_zipWith, h, Nat.min_self]

/-- What `push` does to the stratum and to nothing else. -/
theorem push_inversion {a a' : StratifiedAccumulatorState (MomentValues K) G (StratifiedLayout K)}
    {x : StratifiedSample K G}
    (h : a.push hypot x.label x.values x.weight x.matched x.diagnostic = .ok a') :
    ∃ s s' extrema, a.strata[x.label]? = some s ∧
      x.values.length = a.plan.plan.components.length ∧ 0 < x.weight ∧
      s.push (contribution hypot a.plan x) x.matched = .ok s' ∧
      extrema = observed hypot a.plan s'.moments.extrema x ∧
      a' = { a with strata :=
        a.strata.set x.label { s' with moments := { s'.moments with extrema } } } := by
  unfold StratifiedAccumulatorState.push at h
  split at h
  · cases h
  · rename_i s hs
    split at h
    · cases h
    · rename_i hvalid
      rw [not_or, not_not, not_le] at hvalid
      obtain ⟨s', hs', h⟩ := bind_eq_ok h
      cases h
      exact ⟨s, s', _, hs, hvalid.1, hvalid.2, hs', rfl, rfl⟩

omit [Field K] [LinearOrder K] in
/-- Samples of other strata leave a stratum as it is. -/
theorem ofStratum_singleton_ne {k : Nat} {x : StratifiedSample K G} (h : x.label ≠ k) :
    ofStratum k [x] = [] := by
  simp [ofStratum, h]

omit [Field K] [LinearOrder K] in
theorem ofStratum_of_le {k n : Nat} {l : List (StratifiedSample K G)} (h : ∀ x ∈ l, x.label < n)
    (hk : n ≤ k) : ofStratum k l = [] := by
  refine List.filter_eq_nil_iff.2 fun x hx => ?_
  have := h x hx
  rw [beq_iff_eq]
  omega

omit [LinearOrder K] in
theorem Summarizes.withExtrema {columns : StratifiedSample K G → List K}
    {matched : StratifiedSample K G → Bool} {l : List (StratifiedSample K G)}
    {s : StratumMoments (MomentValues K)} (hs : Summarizes width columns matched l s)
    {extrema : List (ContributionExtrema K)} (h : extrema.length = width) :
    Summarizes width columns matched l { s with moments := { s.moments with extrema } } :=
  ⟨hs.attempts, hs.matched, hs.mean, hs.m2, h⟩

variable [IsStrictOrderedRing K]

theorem holds_ingest (hlayout : ValidLayout layout width)
    {l : List (StratifiedSample K G)} {x : StratifiedSample K G}
    {a a' : StratifiedAccumulatorState (MomentValues K) G (StratifiedLayout K)}
    (ha : Holds hypot layout width l a) (h : ingest hypot a x = .ok a') :
    Holds hypot layout width (l ++ [x]) a' := by
  unfold ingest at h
  obtain ⟨b, hpush, h⟩ := bind_eq_ok h
  cases h
  obtain ⟨s, s', extrema, hs, hvalues, hweight, hs', hextrema, rfl⟩ := push_inversion hpush
  rw [ha.plan] at hvalues hs'
  have hlabel : x.label < a.strata.length := (List.getElem?_eq_some_iff.1 hs).1
  have hsummary := push_summarizes (ha.strata x.label s hs) hs'
  have hcolumns : (contribution hypot layout x).length = width := by
    unfold contribution
    rw [List.length_map, hlayout.columns hypot x.values hvalues]
  have hone : ofStratum x.label [x] = [x] := by simp [ofStratum]
  have hlast : ∀ {P : StratifiedSample K G → Prop}, P x → ∀ y ∈ [x], P y :=
    fun hx y hy => List.mem_singleton.1 hy ▸ hx
  refine ⟨ha.plan, by simp [ha.length], fun k t ht => ?_,
    List.forall_mem_append.2 ⟨ha.labels, hlast (ha.length ▸ hlabel)⟩,
    List.forall_mem_append.2 ⟨ha.weights, hlast hweight⟩,
    List.forall_mem_append.2 ⟨ha.widths, hlast hvalues⟩, fun k => ?_⟩
  · rw [ofStratum_append]
    by_cases hk : x.label = k
    · subst hk
      rw [List.getElem?_set_self hlabel, Option.some.injEq] at ht
      subst ht
      rw [hone]
      refine hsummary.withExtrema ?_
      rw [hextrema, ha.plan, length_observed (by rw [hsummary.extrema, hcolumns]),
        hsummary.extrema]
    · rw [List.getElem?_set_ne hk] at ht
      rw [ofStratum_singleton_ne hk, List.append_nil]
      exact ha.strata k t ht
  · rw [ofStratum_append]
    by_cases hk : x.label = k
    · subst hk
      rw [hone, List.length_append]
      exact ((push_ok (ha.strata x.label s hs)).1 ⟨s', hs'⟩).2
    · rw [ofStratum_singleton_ne hk, List.append_nil]
      exact ha.counts k

omit [IsStrictOrderedRing K] in
theorem mergeStrata_getElem? :
    ∀ {as bs cs : List (StratumMoments (MomentValues K))},
      StratifiedAccumulatorState.mergeStrata (withMoments num) as bs = .ok cs →
      as.length = bs.length → cs.length = as.length ∧ ∀ (k : Nat) c, cs[k]? = some c →
        ∃ a b, as[k]? = some a ∧ bs[k]? = some b ∧
          StratifiedAccumulatorState.mergeStratum (withMoments num) a b = .ok c
  | [], [], cs, h, _ => by
    cases h
    exact ⟨rfl, by simp⟩
  | a :: as, b :: bs, cs, h, hlen => by
    unfold StratifiedAccumulatorState.mergeStrata at h
    obtain ⟨s, hs, h⟩ := bind_eq_ok h
    obtain ⟨rest, hrest, h⟩ := bind_eq_ok h
    cases h
    obtain ⟨ihlen, ih⟩ := mergeStrata_getElem? hrest (by simpa using hlen)
    refine ⟨by simp [ihlen], fun k c hc => ?_⟩
    cases k with
    | zero =>
      cases hc
      exact ⟨a, b, rfl, rfl, hs⟩
    | succ k => exact ih k c (by simpa using hc)

/-- The merged copy, whatever its native observables. -/
theorem holds_merged {l l' : List (StratifiedSample K G)}
    {a b : StratifiedAccumulatorState (MomentValues K) G (StratifiedLayout K)}
    {strata : List (StratumMoments (MomentValues K))} {pooled : Option G}
    (ha : Holds hypot layout width l a) (hb : Holds hypot layout width l' b)
    (hstrata : StratifiedAccumulatorState.mergeStrata (withMoments num) a.strata b.strata =
      .ok strata) : Holds hypot layout width (l ++ l') { a with strata, pooled } := by
  obtain ⟨hlen, hmerged⟩ := mergeStrata_getElem? num hstrata (by rw [ha.length, hb.length])
  refine ⟨ha.plan, hlen.trans ha.length, fun k s hs => ?_,
    List.forall_mem_append.2 ⟨ha.labels, hb.labels⟩,
    List.forall_mem_append.2 ⟨ha.weights, hb.weights⟩,
    List.forall_mem_append.2 ⟨ha.widths, hb.widths⟩, fun k => ?_⟩
  · obtain ⟨s₁, s₂, h₁, h₂, hmerge⟩ := hmerged k s hs
    rw [ofStratum_append]
    exact merge_summarizes (ha.strata k s₁ h₁) (hb.strata k s₂ h₂) hmerge
  · cases hk : strata[k]? with
    | none =>
      rw [ofStratum_append, ofStratum_of_le ha.labels, ofStratum_of_le hb.labels]
      · exact Nat.zero_le _
      all_goals
        rw [List.getElem?_eq_none_iff, hlen, ha.length] at hk
        exact hk
    | some s =>
      obtain ⟨s₁, s₂, h₁, h₂, hmerge⟩ := hmerged k s hk
      have hcount := (merge_ok (ha.strata k s₁ h₁) (hb.strata k s₂ h₂)).1 ⟨s, hmerge⟩
      have hleft := ha.counts k
      have hright := hb.counts k
      rw [ofStratum_append]
      by_cases hl : ofStratum k l = []
      · rwa [hl, List.nil_append]
      · by_cases hl' : ofStratum k l' = []
        · rwa [hl', List.append_nil]
        · exact hcount hl hl'

theorem holds_merge {l l' : List (StratifiedSample K G)}
    {a b c : StratifiedAccumulatorState (MomentValues K) G (StratifiedLayout K)}
    (ha : Holds hypot layout width l a) (hb : Holds hypot layout width l' b)
    (h : a.merge (withMoments num) b = .ok c) : Holds hypot layout width (l ++ l') c := by
  unfold StratifiedAccumulatorState.merge at h
  obtain ⟨⟨⟩, -, h⟩ := bind_eq_ok h
  obtain ⟨⟨⟩, -, h⟩ := bind_eq_ok h
  rw [if_neg (by rw [ha.plan, hb.plan, not_not])] at h
  obtain ⟨strata, hstrata, h⟩ := bind_eq_ok h
  obtain ⟨pooled, -, h⟩ := bind_eq_ok h
  obtain ⟨⟨⟩, -, h⟩ := bind_eq_ok h
  cases h
  exact holds_merged num ha hb hstrata

omit [IsStrictOrderedRing K] in
variable {emptyNative} in
theorem holds_new (hwidth : layout.validatedWidth = .ok width)
    {a : StratifiedAccumulatorState (MomentValues K) G (StratifiedLayout K)}
    (h : StratifiedAccumulatorState.new emptyNative layout = .ok a) :
    Holds hypot layout width [] a := by
  unfold StratifiedAccumulatorState.new at h
  rw [hwidth] at h
  cases h
  refine ⟨rfl, by simp, fun k s hs => ?_, by simp, by simp, by simp, fun k => Nat.zero_le _⟩
  have hmem := List.mem_of_getElem? hs
  rw [List.eq_of_mem_replicate hmem]
  exact new_summarizes

theorem accumulate_keeps (hwidth : layout.validatedWidth = .ok width) :
    Accumulation.Keeps (StratifiedAccumulatorState.new emptyNative layout) (ingest hypot)
      (StratifiedAccumulatorState.merge (withMoments num)) (Holds hypot layout width) where
  init h := holds_new hwidth h
  push ha h := holds_ingest (validLayout hwidth) ha h
  merge ha hb h := holds_merge num ha hb h

/-! ## The estimates of a list of samples -/

section Reference

variable (hypot layout) (width : Nat)

/-- The sum of the means of the strata, once every stratum has a sample. -/
def stratifiedMean (l : List (StratifiedSample K G)) : Option (List K) :=
  let strata := (List.range layout.plan.partition.centers.length).map (ofStratum · l)
  if strata.any (·.isEmpty) then none
  else
    some ((List.range width).map fun i => (strata.map fun samples =>
      Moments.mean (fun x => (contribution hypot layout x).getD i 0) samples).sum)

/-- The sum of the covariances of the means of the strata, once every stratum is ready. -/
def stratifiedCovariance (l : List (StratifiedSample K G)) : Option (List K) :=
  let strata := (List.range layout.plan.partition.centers.length).map (ofStratum · l)
  if strata.any (fun samples => samples.length < 32 || samples.countP (·.matched) < 2) then none
  else
    some ((List.range (width * width)).map fun j => (strata.map fun samples =>
      Moments.central (fun x => (contribution hypot layout x).getD (j / width) 0)
        (fun x => (contribution hypot layout x).getD (j % width) 0) samples /
          (samples.length * (samples.length - 1 : Nat))).sum)

/-- The mean and the standard error of the values times the weights of a list that can be
counted. -/
def plainEstimates (sqrt : K → K) (l : List (StratifiedSample K G)) :
    Option (List (BasicEstimate K)) :=
  if l.length = 0 ∨ PartitionDiagnostics.u64Max < l.length then none
  else
    some ((List.range width).map fun i =>
      { mean := Moments.mean (fun x => (weighted hypot layout x).getD i 0) l
        error :=
          if 2 ≤ l.length then
            some (sqrt (Moments.central (fun x => (weighted hypot layout x).getD i 0)
              (fun x => (weighted hypot layout x).getD i 0) l / (l.length * (l.length - 1 : Nat))))
          else none })

end Reference

omit [LinearOrder K] [IsStrictOrderedRing K] in
/-- Columns added up over a list. -/
theorem foldl_columns {α : Type} (n : Nat) (f : α → Nat → K) (xs : List α) (init : Nat → K) :
    xs.foldl (fun acc x => List.zipWith (· + ·) acc ((List.range n).map (f x)))
        ((List.range n).map init) =
      (List.range n).map fun i => init i + (xs.map (f · i)).sum := by
  induction xs generalizing init with
  | nil => simp
  | cons x xs ih =>
    rw [List.foldl_cons, List.zipWith_map, List.zipWith_self, ih]
    simp [add_assoc]

namespace Holds

variable {l : List (StratifiedSample K G)}
  {a : StratifiedAccumulatorState (MomentValues K) G (StratifiedLayout K)}

omit [IsStrictOrderedRing K] in
/-- What is read off the strata is a function of the samples in them. -/
theorem map_strata (ha : Holds hypot layout width l a) {β : Type}
    (F : Nat → Nat → List K → List K → β) :
    a.strata.map (fun s => F s.attempts s.matched s.moments.mean s.moments.m2) =
      ((List.range layout.plan.partition.centers.length).map (ofStratum · l)).map fun samples =>
        F samples.length (samples.countP (·.matched)) (means width (contribution hypot layout) samples)
          (comoments width (contribution hypot layout) samples) := by
  refine List.ext_getElem (by simp [ha.length]) fun k hk hk' => ?_
  have hs := ha.strata k _ (List.getElem?_eq_getElem (by simpa using hk))
  rw [List.getElem_map, List.getElem_map, List.getElem_map, List.getElem_range, hs.attempts,
    hs.matched, hs.mean, hs.m2]

omit [IsStrictOrderedRing K] in
theorem any_strata (ha : Holds hypot layout width l a) (F : Nat → Nat → Bool) :
    a.strata.any (fun s => F s.attempts s.matched) =
      ((List.range layout.plan.partition.centers.length).map (ofStratum · l)).any fun samples =>
        F samples.length (samples.countP (·.matched)) := by
  have hmap := ha.map_strata fun attempts matched _ _ => F attempts matched
  rw [List.any_eq, List.any_eq]
  have hmem : ∀ b, b ∈ a.strata.map (fun s => F s.attempts s.matched) ↔ _ := fun b => by rw [hmap]
  have htrue := hmem true
  simp only [List.mem_map] at htrue ⊢
  simpa using htrue

omit [IsStrictOrderedRing K] in
theorem head (ha : Holds hypot layout width l a) (hlayout : ValidLayout layout width) :
    ∃ s rest, a.strata = s :: rest ∧ s.moments.mean.length = width ∧
      s.moments.m2.length = width * width := by
  have hpos := List.length_pos_iff.2
    (StratificationConfig.centers_ne_nil hlayout.plan.partition.width)
  rw [← ha.length] at hpos
  obtain ⟨s, rest, hstrata⟩ := List.exists_cons_of_length_pos hpos
  have hs := ha.strata 0 s (by rw [hstrata]; rfl)
  exact ⟨s, rest, hstrata, by rw [hs.mean, length_means], by rw [hs.m2, length_comoments]⟩

omit [IsStrictOrderedRing K] in
/-- The rows of the strata added up. -/
theorem foldl_strata (ha : Holds hypot layout width l a) {n : Nat}
    (F : Nat → Nat → List K → List K → List K) (g : List (StratifiedSample K G) → Nat → K)
    (hF : ∀ samples, F samples.length (samples.countP (·.matched))
      (means width (contribution hypot layout) samples)
      (comoments width (contribution hypot layout) samples) = (List.range n).map (g samples)) :
    a.strata.foldl (fun row s => List.zipWith (· + ·) row
        (F s.attempts s.matched s.moments.mean s.moments.m2)) (List.replicate n 0) =
      (List.range n).map fun i =>
        (((List.range layout.plan.partition.centers.length).map (ofStratum · l)).map (g · i)).sum := by
  have hzero : List.replicate n (0 : K) = (List.range n).map fun _ => 0 := by simp
  calc
    _ = (a.strata.map fun s => F s.attempts s.matched s.moments.mean s.moments.m2).foldl
          (List.zipWith (· + ·)) (List.replicate n 0) := List.foldl_map.symm
    _ = ((List.range layout.plan.partition.centers.length).map (ofStratum · l)).foldl
          (fun row samples => List.zipWith (· + ·) row ((List.range n).map (g samples)))
          ((List.range n).map fun _ => 0) := by
        rw [ha.map_strata, List.foldl_map, hzero]
        simp only [hF]
    _ = _ := by
        rw [foldl_columns]
        simp only [zero_add]

omit [IsStrictOrderedRing K] in
theorem mean (ha : Holds hypot layout width l a) (hlayout : ValidLayout layout width) :
    a.mean = stratifiedMean hypot layout width l := by
  obtain ⟨s, rest, hstrata, hmean, -⟩ := ha.head hlayout
  have hempty := ha.any_strata fun attempts _ => attempts == 0
  have hrow := ha.foldl_strata (n := width) (fun _ _ mean _ => mean)
    (fun samples i => Moments.mean (fun x => (contribution hypot layout x).getD i 0) samples)
    fun _ => rfl
  have hhead : a.strata.head?.elim 0 (·.moments.mean.length) = width := by
    rw [hstrata]
    exact hmean
  unfold StratifiedAccumulatorState.mean stratifiedMean
  rw [hempty, hhead, hrow]
  simp

omit [IsStrictOrderedRing K] in
theorem covariance (ha : Holds hypot layout width l a) (hlayout : ValidLayout layout width) :
    a.covariance = stratifiedCovariance hypot layout width l := by
  obtain ⟨s, rest, hstrata, -, hm2⟩ := ha.head hlayout
  have hready := ha.any_strata fun attempts matched => attempts < 32 || matched < 2
  have hrow := ha.foldl_strata (n := width * width)
    (fun attempts _ _ m2 => m2.map (· / (attempts * (attempts - 1 : Nat))))
    (fun samples j => Moments.central (fun x => (contribution hypot layout x).getD (j / width) 0)
      (fun x => (contribution hypot layout x).getD (j % width) 0) samples /
        (samples.length * (samples.length - 1 : Nat)))
    fun samples => by
      rw [comoments, List.map_map]
      rfl
  have hhead : a.strata.head?.elim 0 (·.moments.m2.length) = width * width := by
    rw [hstrata]
    exact hm2
  have huncertain : (!a.uncertaintyReady) =
      a.strata.any fun s => s.attempts < 32 || s.matched < 2 := by
    unfold StratifiedAccumulatorState.uncertaintyReady StratumMoments.uncertaintyReady
    rw [List.not_all_eq_any_not]
    congr 1
    funext s
    rw [Bool.not_and, ← decide_not, ← decide_not]
    simp only [not_le]
  simp only [List.zipWith_map_right] at hrow
  unfold StratifiedAccumulatorState.covariance stratifiedCovariance
  rw [huncertain, hready, hhead]
  dsimp only
  rw [hrow]

omit [LinearOrder K] [IsStrictOrderedRing K] in
/-- A stratum scaled back by its probability summarizes the values times the weights. -/
theorem group_summarizes {k : Nat} {p : K} {s : StratumMoments (MomentValues K)}
    (hs : Summarizes width (contribution hypot layout) (·.matched) (ofStratum k l) s)
    (hp : p = layout.probability k) (hne : p ≠ 0) :
    Summarizes width (weighted hypot layout) (fun _ => false) (ofStratum k l)
      { attempts := s.attempts
        matched := 0
        moments :=
          { mean := s.moments.mean.map (· / p)
            m2 := s.moments.m2.map (· / p / p)
            extrema := List.replicate width ⟨none, none⟩ } } := by
  have hscaled : ∀ i, ∀ x ∈ ofStratum k l, (contribution hypot layout x).getD i 0 =
      p * (weighted hypot layout x).getD i 0 := by
    intro i x hx
    have hlabel : x.label = k := by simpa [ofStratum] using (List.mem_filter.1 hx).2
    unfold contribution weighted
    rw [List.getD_eq_getElem?_getD, List.getD_eq_getElem?_getD, List.getElem?_map,
      List.getElem?_map, hlabel, ← hp]
    cases (layout.columns hypot x.values)[i]? with
    | none => simp
    | some v =>
      simp only [Option.map_some, Option.getD_some]
      ring
  refine ⟨hs.attempts, by simp, ?_, ?_, by simp⟩
  · dsimp only
    rw [hs.mean, means, means, List.map_map]
    refine List.map_congr_left fun i _ => ?_
    rw [Function.comp_apply, Moments.mean_congr (hscaled i), Moments.mean_mul_left,
      mul_div_cancel_left₀ _ hne]
  · dsimp only
    rw [hs.m2, comoments, comoments, List.map_map]
    refine List.map_congr_left fun j _ => ?_
    rw [Function.comp_apply, Moments.central_congr (hscaled (j / width)) (hscaled (j % width)),
      Moments.central_mul_left]
    field_simp

/-- The strata pooled so far are those of their samples, as long as these can be counted. -/
theorem pool_strata (pairs : List (StratumMoments (MomentValues K) × K)) :
    ∀ (ks : List Nat), List.Forall₂ (fun k pair =>
        Summarizes width (contribution hypot layout) (·.matched) (ofStratum k l) pair.1 ∧
          pair.2 = layout.probability k ∧ pair.2 ≠ 0) ks pairs →
      (∀ k, (ofStratum k l).length ≤ PartitionDiagnostics.u64Max) →
      ∀ {l₀ : List (StratifiedSample K G)} {pooled : StratumMoments (MomentValues K)},
        Summarizes width (weighted hypot layout) (fun _ => false) l₀ pooled →
        l₀.length ≤ PartitionDiagnostics.u64Max →
        let all := l₀ ++ ks.flatMap (ofStratum · l)
        match StratifiedAccumulatorState.pool num width pairs pooled with
        | none => PartitionDiagnostics.u64Max < all.length
        | some pooled => Summarizes width (weighted hypot layout) (fun _ => false) all pooled ∧
            all.length ≤ PartitionDiagnostics.u64Max := by
  induction pairs with
  | nil =>
    intro ks hks _ l₀ pooled hpooled hcount
    cases hks
    simpa [StratifiedAccumulatorState.pool] using ⟨hpooled, hcount⟩
  | cons pair pairs ih =>
    intro ks hks hcounts l₀ pooled hpooled hcount
    cases hks with
    | @cons k _ ks _ hpair hrest =>
      obtain ⟨hs, hp, hne⟩ := hpair
      have hgroup := group_summarizes hs hp hne
      have hok : (∃ u, StratifiedAccumulatorState.mergeStratum (withMoments num) pooled _ = .ok u) ↔ _ :=
        merge_ok hpooled hgroup
      rw [StratifiedAccumulatorState.pool]
      dsimp only
      rw [List.flatMap_cons, ← List.append_assoc]
      cases hmerge : StratifiedAccumulatorState.mergeStratum (withMoments num) pooled _ with
      | error e =>
        rw [hmerge] at hok
        simp only [reduceCtorEq, exists_false, false_iff, not_forall, not_le] at hok
        obtain ⟨-, -, hcount⟩ := hok
        rw [List.length_append]
        omega
      | ok pooled' =>
        have hmerged := merge_summarizes hpooled hgroup hmerge
        refine ih ks hrest hcounts hmerged ?_
        have hbound := hok.1 ⟨pooled', hmerge⟩
        by_cases hl : l₀ = []
        · rw [hl]
          exact hcounts k
        · by_cases hl' : ofStratum k l = []
          · rwa [hl', List.append_nil]
          · exact hbound hl hl'

theorem basicEstimates (ha : Holds hypot layout width l a) (hlayout : ValidLayout layout width)
    (sqrt : K → K) :
    a.basicEstimates num sqrt = plainEstimates hypot layout width sqrt l := by
  obtain ⟨s, rest, hstrata, hmean, -⟩ := ha.head hlayout
  obtain ⟨probabilities, hprobabilities⟩ := hlayout.probabilities
  have hhead : a.strata.head?.elim 0 (·.moments.mean.length) = width := by
    rw [hstrata]
    exact hmean
  have hlen := hlayout.plan.count probabilities hprobabilities
  have hpairs : List.Forall₂ (fun k (pair : StratumMoments (MomentValues K) × K) =>
      Summarizes width (contribution hypot layout) (·.matched) (ofStratum k l) pair.1 ∧
        pair.2 = layout.probability k ∧ pair.2 ≠ 0)
      (List.range layout.plan.partition.centers.length) (a.strata.zip probabilities) := by
    refine List.forall₂_iff_get.2 ⟨by simp [ha.length, hlen], fun k hk hk' => ?_⟩
    have hk₁ : k < a.strata.length := by simpa [ha.length] using hk
    have hk₂ : k < probabilities.length := by simpa [hlen] using hk
    simp only [List.get_eq_getElem, List.getElem_range, List.getElem_zip]
    refine ⟨ha.strata k _ (List.getElem?_eq_getElem hk₁), ?_, ?_⟩
    · rw [StratifiedLayout.probability, hprobabilities, Option.getD_some,
        List.getD_eq_getElem?_getD, List.getElem?_eq_getElem hk₂, Option.getD_some]
    · exact (hlayout.plan.pos probabilities hprobabilities _ (List.getElem_mem hk₂)).ne'
  have hpool := pool_strata num (a.strata.zip probabilities) _ hpairs ha.counts
    (new_summarizes : Summarizes width (weighted hypot layout) (fun _ => false) [] (.new width))
    (Nat.zero_le _)
  have hperm := flatMap_ofStratum_perm ha.labels
  unfold StratifiedAccumulatorState.basicEstimates plainEstimates
  rw [hhead, ha.plan, hprobabilities]
  simp only [Option.bind_eq_bind, Option.bind_some, List.nil_append] at hpool ⊢
  rw [hperm.length_eq] at hpool
  split at hpool
  · rename_i hnone
    rw [hnone, if_pos (.inr hpool)]
    rfl
  · rename_i pooled hsome
    obtain ⟨hpooled, hcount⟩ := hpool
    have hall := hpooled.perm hperm
    rw [hsome, Option.bind_some, hall.attempts, hall.mean, hall.m2]
    by_cases hzero : l.length = 0
    · rw [if_pos hzero, if_pos (.inl hzero)]
    · rw [if_neg hzero, if_neg (by omega), Option.some.injEq]
      refine List.ext_getElem (by simp) fun i hi hi' => ?_
      have h : i < width := by simpa using hi'
      obtain ⟨hj, hdiv, hmod⟩ := diagonal h
      rw [List.getElem_mapIdx, List.getElem_map, List.getElem_range, comoments_getD _ hj, hdiv, hmod,
        max_eq_left (Moments.central_self_nonneg l)]
      simp [means]

omit [IsStrictOrderedRing K] in
theorem sampleCount (ha : Holds hypot layout width l a) : a.sampleCount = l.length := by
  unfold StratifiedAccumulatorState.sampleCount
  have hmap := ha.map_strata fun attempts _ _ _ => (attempts : Int)
  have hlength := (flatMap_ofStratum_perm ha.labels).length_eq
  rw [List.length_flatMap] at hlength
  rw [hmap, List.map_map, ← hlength, Nat.cast_list_sum, List.map_map]
  rfl

omit [IsStrictOrderedRing K] in
/-- A state without native observables is valid while its samples can be counted. -/
theorem validate (ha : Holds hypot layout width l a) (hwidth : layout.validatedWidth = .ok width)
    (hnative : layout.config ≠ .gammaloop) (hpooled : a.pooled = none)
    (hcount : (l.length : Int) ≤ i64Max) : a.validate (withMoments num) = .ok () := by
  have hmoments : ∀ s ∈ a.strata,
      s.moments.mean.length = width ∧ s.moments.m2.length = width * width ∧
        s.moments.extrema.length = width ∧ s.matched ≤ s.attempts := by
    intro s hs
    obtain ⟨k, hk⟩ := List.getElem?_of_mem hs
    have h := ha.strata k s hk
    refine ⟨by rw [h.mean, length_means], by rw [h.m2, length_comoments], h.extrema, ?_⟩
    rw [h.matched, h.attempts]
    exact List.countP_le_length
  unfold StratifiedAccumulatorState.validate
  have hconfig : (layout.config == .gammaloop) = false := by simpa using hnative
  simp only [withMoments, ha.plan, hwidth, Except.map, bind, Except.bind]
  rw [if_neg (by simp [ha.length]), if_neg, if_neg (by rw [ha.sampleCount]; omega), hpooled,
    hconfig]
  simp only [List.any_eq_true, not_exists, not_and]
  intro s hs
  obtain ⟨hmean, hm2, hextrema, hmatched⟩ := hmoments s hs
  simp [hmean, hm2, hextrema, hmatched]

end Holds

/-- A sample that fits the layout and carries no native observables. -/
structure Fits (layout : StratifiedLayout K) (x : StratifiedSample K G) : Prop where
  label : x.label < layout.plan.partition.centers.length
  weight : 0 < x.weight
  values : x.values.length = layout.plan.components.length
  native : x.native = none

/-- The samples fit and can be counted. -/
def Acceptable (layout : StratifiedLayout K) (l : List (StratifiedSample K G)) : Prop :=
  (∀ x ∈ l, Fits layout x) ∧ (l.length : Int) ≤ i64Max

omit [IsStrictOrderedRing K] in
theorem acceptable_append {l l' : List (StratifiedSample K G)} :
    Acceptable layout (l ++ l') ↔ (∀ x ∈ l, Fits layout x) ∧ (∀ x ∈ l', Fits layout x) ∧
      ((l.length + l'.length : Nat) : Int) ≤ i64Max := by
  unfold Acceptable
  rw [List.forall_mem_append, List.length_append, and_assoc]

/-- Without native observables in the samples there are none in the state. -/
def Plain (l : List (StratifiedSample K G))
    (a : StratifiedAccumulatorState (MomentValues K) G (StratifiedLayout K)) : Prop :=
  (∀ x ∈ l, x.native = none) → a.pooled = none

variable (hypot) in
theorem plain_keeps (hwidth : layout.validatedWidth = .ok width)
    (hnative : layout.config ≠ .gammaloop) :
    Accumulation.Keeps (StratifiedAccumulatorState.new emptyNative layout) (ingest hypot)
      (StratifiedAccumulatorState.merge (withMoments num))
      (fun l a => Holds hypot layout width l a ∧ Plain l a) where
  init h := by
    refine ⟨(accumulate_keeps num emptyNative hwidth).init h, fun _ => ?_⟩
    unfold StratifiedAccumulatorState.new at h
    rw [hwidth] at h
    cases h
    exact if_neg hnative
  push := by
    rintro l a x a' ⟨ha, hplain⟩ h
    refine ⟨holds_ingest (validLayout hwidth) ha h, fun hnone => ?_⟩
    rw [List.forall_mem_append] at hnone
    unfold ingest at h
    obtain ⟨b, hpush, h⟩ := bind_eq_ok h
    cases h
    obtain ⟨s, s', extrema, -, -, -, -, -, rfl⟩ := push_inversion hpush
    dsimp only
    rw [hnone.2 x List.mem_cons_self, hplain hnone.1]
    rfl
  merge := by
    rintro l a l' b c ⟨ha, hplain⟩ ⟨hb, -⟩ h
    refine ⟨holds_merge num ha hb h, fun hnone => ?_⟩
    rw [List.forall_mem_append] at hnone
    unfold StratifiedAccumulatorState.merge at h
    obtain ⟨⟨⟩, -, h⟩ := bind_eq_ok h
    obtain ⟨⟨⟩, -, h⟩ := bind_eq_ok h
    rw [if_neg (by rw [ha.plan, hb.plan, not_not])] at h
    obtain ⟨strata, -, h⟩ := bind_eq_ok h
    obtain ⟨pooled, hpooled, h⟩ := bind_eq_ok h
    obtain ⟨⟨⟩, -, h⟩ := bind_eq_ok h
    cases h
    rw [hplain hnone.1] at hpooled
    cases hpooled
    rfl

omit [IsStrictOrderedRing K] in
/-- The counts of a state that is counted as a whole fit its strata. -/
theorem mergeStrata_ok :
    ∀ {as bs : List (StratumMoments (MomentValues K))}, as.length = bs.length →
      (∀ (k : Nat) a b, as[k]? = some a → bs[k]? = some b →
        ∃ c, StratifiedAccumulatorState.mergeStratum (withMoments num) a b = .ok c) →
      ∃ cs, StratifiedAccumulatorState.mergeStrata (withMoments num) as bs = .ok cs
  | [], [], _, _ => ⟨[], rfl⟩
  | a :: as, b :: bs, hlen, h => by
    obtain ⟨c, hc⟩ := h 0 a b rfl rfl
    obtain ⟨cs, hcs⟩ : ∃ cs, StratifiedAccumulatorState.mergeStrata (withMoments num) as bs = .ok cs :=
      mergeStrata_ok (by simpa using hlen) fun k a' b' ha hb => h (k + 1) a' b' (by simpa using ha) (by simpa using hb)
    refine ⟨c :: cs, ?_⟩
    rw [StratifiedAccumulatorState.mergeStrata, hc, hcs]
    rfl

omit [IsStrictOrderedRing K] in
/-- A sample that fits the layout is pushed while its stratum can be counted. -/
theorem ingest_ok (hlayout : ValidLayout layout width) {l : List (StratifiedSample K G)}
    {x : StratifiedSample K G}
    {a : StratifiedAccumulatorState (MomentValues K) G (StratifiedLayout K)}
    (ha : Holds hypot layout width l a) (hlabel : x.label < layout.plan.partition.centers.length)
    (hweight : 0 < x.weight) (hvalues : x.values.length = layout.plan.components.length)
    (hcount : (ofStratum x.label l).length + 1 ≤ PartitionDiagnostics.u64Max) :
    ∃ a', ingest hypot a x = .ok a' := by
  obtain ⟨s, hs⟩ : ∃ s, a.strata[x.label]? = some s :=
    ⟨_, List.getElem?_eq_getElem (ha.length ▸ hlabel)⟩
  have hcolumns : (contribution hypot layout x).length = width := by
    unfold contribution
    rw [List.length_map, hlayout.columns hypot x.values hvalues]
  obtain ⟨s', hs'⟩ := (push_ok (ha.strata x.label s hs)).2 ⟨hcolumns, hcount⟩
  unfold ingest StratifiedAccumulatorState.push
  rw [hs]
  dsimp only
  rw [if_neg (by rw [ha.plan]; exact not_or.2 ⟨not_not.2 hvalues, not_le.2 hweight⟩)]
  unfold contribution at hs'
  rw [ha.plan, hs']
  exact ⟨_, rfl⟩

theorem accumulate_succeeds (hwidth : layout.validatedWidth = .ok width)
    (hnative : layout.config ≠ .gammaloop) :
    Accumulation.Succeeds (StratifiedAccumulatorState.new emptyNative layout) (ingest hypot)
      (StratifiedAccumulatorState.merge (withMoments num))
      (fun l a => Holds hypot layout width l a ∧ Plain l a) (Acceptable layout) where
  left h := by
    obtain ⟨hl, -, hcount⟩ := acceptable_append.1 h
    exact ⟨hl, by omega⟩
  right h := by
    obtain ⟨-, hl', hcount⟩ := acceptable_append.1 h
    exact ⟨hl', by omega⟩
  init _ := by
    unfold StratifiedAccumulatorState.new
    rw [hwidth]
    exact ⟨_, rfl⟩
  push := by
    rintro l a x ⟨ha, -⟩ h
    obtain ⟨-, hx, hcount⟩ := acceptable_append.1 h
    have hfits := hx x List.mem_cons_self
    have hlen : (ofStratum x.label l).length ≤ l.length := List.length_filter_le _ _
    refine ingest_ok (validLayout hwidth) ha hfits.label hfits.weight hfits.values ?_
    simp [i64Max, PartitionDiagnostics.u64Max] at hcount ⊢
    omega
  merge := by
    rintro l a l' b ⟨ha, hpa⟩ ⟨hb, hpb⟩ h
    obtain ⟨hl, hl', hcount⟩ := acceptable_append.1 h
    have hna := hpa fun x hx => (hl x hx).native
    have hnb := hpb fun x hx => (hl' x hx).native
    have hva := ha.validate num hwidth hnative hna (by omega)
    have hvb := hb.validate num hwidth hnative hnb (by omega)
    obtain ⟨cs, hcs⟩ : ∃ cs,
        StratifiedAccumulatorState.mergeStrata (withMoments num) a.strata b.strata = .ok cs := by
      refine mergeStrata_ok num (by rw [ha.length, hb.length]) fun k s t hs ht => ?_
      refine (merge_ok (ha.strata k s hs) (hb.strata k t ht)).2 fun _ _ => ?_
      have hleft : (ofStratum k l).length ≤ l.length := List.length_filter_le _ _
      have hright : (ofStratum k l').length ≤ l'.length := List.length_filter_le _ _
      rw [List.length_append]
      simp [i64Max, PartitionDiagnostics.u64Max] at hcount ⊢
      omega
    have hmerged : Holds hypot layout width (l ++ l') { a with strata := cs, pooled := none } :=
      holds_merged num ha hb hcs
    have hvm := hmerged.validate num hwidth hnative rfl (by rwa [List.length_append])
    refine ⟨{ a with strata := cs, pooled := none }, ?_⟩
    unfold StratifiedAccumulatorState.merge
    rw [hva, hvb, hcs, hna, hnb]
    simp only [bind, Except.bind, StratifiedAccumulatorState.mergePooled]
    rw [if_neg (by rw [ha.plan, hb.plan, not_not]), hvm]
    rfl

/-! ## The estimates do not depend on the split -/

section Perm

variable {l l' : List (StratifiedSample K G)}

omit [Field K] [LinearOrder K] [IsStrictOrderedRing K] in
/-- Figures of the strata that ignore the order of the samples. -/
theorem map_ofStratum_perm (h : l.Perm l') (n : Nat) {β : Type}
    {F : List (StratifiedSample K G) → β} (hF : ∀ {m m'}, m.Perm m' → F m = F m') :
    ((List.range n).map (ofStratum · l)).map F = ((List.range n).map (ofStratum · l')).map F := by
  rw [List.map_map, List.map_map]
  exact List.map_congr_left fun k _ => hF (ofStratum_perm h k)

omit [Field K] [LinearOrder K] [IsStrictOrderedRing K] in
theorem any_ofStratum_perm (h : l.Perm l') (n : Nat) {F : List (StratifiedSample K G) → Bool}
    (hF : ∀ {m m'}, m.Perm m' → F m = F m') :
    ((List.range n).map (ofStratum · l)).any F = ((List.range n).map (ofStratum · l')).any F := by
  have hmap := congrArg (List.any · id) (map_ofStratum_perm h n hF)
  simpa only [List.any_map, Function.id_comp] using hmap

omit [LinearOrder K] [IsStrictOrderedRing K] in
theorem stratifiedMean_perm (h : l.Perm l') :
    stratifiedMean hypot layout width l = stratifiedMean hypot layout width l' := by
  have hempty := any_ofStratum_perm h layout.plan.partition.centers.length
    (F := List.isEmpty) fun hm => by
      rw [Bool.eq_iff_iff, List.isEmpty_iff_length_eq_zero, List.isEmpty_iff_length_eq_zero,
        hm.length_eq]
  unfold stratifiedMean
  dsimp only
  rw [hempty]
  congr 2
  refine List.map_congr_left fun i _ => ?_
  rw [map_ofStratum_perm h layout.plan.partition.centers.length Moments.mean_perm]

omit [LinearOrder K] [IsStrictOrderedRing K] in
theorem stratifiedCovariance_perm (h : l.Perm l') :
    stratifiedCovariance hypot layout width l = stratifiedCovariance hypot layout width l' := by
  have hready := any_ofStratum_perm h layout.plan.partition.centers.length
    (F := fun samples => samples.length < 32 || samples.countP (·.matched) < 2) fun hm => by
      rw [hm.length_eq, hm.countP_eq]
  unfold stratifiedCovariance
  dsimp only
  rw [hready]
  congr 2
  refine List.map_congr_left fun j _ => ?_
  rw [map_ofStratum_perm h layout.plan.partition.centers.length fun hm => by
    rw [Moments.central_perm hm, hm.length_eq]]

omit [LinearOrder K] [IsStrictOrderedRing K] in
theorem plainEstimates_perm (sqrt : K → K) (h : l.Perm l') :
    plainEstimates hypot layout width sqrt l = plainEstimates hypot layout width sqrt l' := by
  unfold plainEstimates
  simp only [h.length_eq, Moments.mean_perm h, Moments.central_perm h]

end Perm

variable (hypot) in
/-- However samples are split, pushed and merged: one stratum accumulates them exactly if each
has a value for each column and they can be counted, and has the moments of the two passes over
the whole list. Over all strata the mean and the covariance are those of the strata's samples, and
the basic estimates the plain mean and standard error of the values times the weights; none of
them depends on the split or on the order. -/
theorem moments_split_invariant (sqrt : K → K) :
    (∀ (width : Nat) (tree : Accumulation (List K × Bool)),
      ((∃ s, accumulateStratum num width tree = .ok s) ↔ Countable width tree.samples) ∧
        ∀ s, accumulateStratum num width tree = .ok s →
          Summarizes width Prod.fst Prod.snd tree.samples s) ∧
      ∀ (layout : StratifiedLayout K) (width : Nat), layout.validatedWidth = .ok width →
        (∀ (tree : Accumulation (StratifiedSample K G)) a,
          accumulate num hypot emptyNative layout tree = .ok a →
            (∀ k s, a.strata[k]? = some s → Summarizes width (contribution hypot layout) (·.matched)
              (ofStratum k tree.samples) s) ∧
            a.mean = stratifiedMean hypot layout width tree.samples ∧
            a.covariance = stratifiedCovariance hypot layout width tree.samples ∧
            a.basicEstimates num sqrt = plainEstimates hypot layout width sqrt tree.samples) ∧
        (∀ (tree tree' : Accumulation (StratifiedSample K G)) a a',
          accumulate num hypot emptyNative layout tree = .ok a →
          accumulate num hypot emptyNative layout tree' = .ok a' →
            tree.samples.Perm tree'.samples →
              a.mean = a'.mean ∧ a.covariance = a'.covariance ∧
                a.basicEstimates num sqrt = a'.basicEstimates num sqrt) ∧
        (layout.config ≠ .gammaloop → ∀ tree : Accumulation (StratifiedSample K G),
          Acceptable layout tree.samples →
            ∃ a, accumulate num hypot emptyNative layout tree = .ok a) := by
  refine ⟨fun width tree => accumulateStratum_ok num width tree, fun layout width hwidth => ?_⟩
  have hlayout := validLayout hwidth
  have hholds : ∀ (tree : Accumulation (StratifiedSample K G)) a,
      accumulate num hypot emptyNative layout tree = .ok a →
        Holds hypot layout width tree.samples a :=
    fun tree a h => (accumulate_keeps num emptyNative hwidth).run h
  refine ⟨fun tree a h => ?_, fun tree tree' a a' h h' hperm => ?_, fun hnative tree hl => ?_⟩
  · have ha := hholds tree a h
    exact ⟨ha.strata, ha.mean hlayout, ha.covariance hlayout, ha.basicEstimates num hlayout sqrt⟩
  · have ha := hholds tree a h
    have ha' := hholds tree' a' h'
    refine ⟨?_, ?_, ?_⟩
    · rw [ha.mean hlayout, ha'.mean hlayout, stratifiedMean_perm hperm]
    · rw [ha.covariance hlayout, ha'.covariance hlayout, stratifiedCovariance_perm hperm]
    · rw [ha.basicEstimates num hlayout, ha'.basicEstimates num hlayout,
        plainEstimates_perm sqrt hperm]
  · exact (accumulate_succeeds num emptyNative hwidth hnative).run
      (plain_keeps num hypot emptyNative hwidth hnative) hl

end Accumulate

/-- Two strata, half of the mass in each, of one component. -/
def pairLayout : StratifiedLayout ℚ where
  plan :=
    { proposalId := "proposal"
      partition := ⟨.rectangular 1 [2] 0, [([0], [1]), ([1], [-1])], none⟩
      probabilities := some [1 / 2, 1 / 2]
      components := ["value"] }
  config := .vector ["value"] (.component "value") none .maxOrder2

/-- No scalars and no native observables. -/
def unitNumerics : Numerics Unit Unit (MomentValues ℚ) Unit (StratifiedLayout ℚ) where
  finite _ := true
  sameConfig _ _ := true
  checkSums _ := .ok ()
  checkSumsWith _ _ := .ok ()
  checkBins _ := .ok ()
  checkBinsWith _ _ := .ok ()
  mergeStats _ _ := ()
  momentsOk _ _ := true
  mergeMoments := MomentValues.merge
  nativeCount _ := 0
  validateNative _ := .ok ()
  validateNativeSamples _ _ := .ok ()
  mergeNative _ _ := ((), none)
  validatePartition _ := .ok ()
  centers _ := 0
  isNative _ := false

/-- One sample a stratum and an empty part. -/
def pairTree : Accumulation (StratifiedSample ℚ Unit) :=
  .merge (.push .new ⟨0, [3], 2, true, none, none⟩)
    (.merge .new (.push .new ⟨1, [-1], 2, true, none, none⟩))

theorem pairLayout_width : pairLayout.validatedWidth = .ok 1 := by
  have hplan : pairLayout.plan.validate = .ok () := by decide +kernel
  have hconfig : pairLayout.config.validate = .ok () := by
    simp [pairLayout, AccumulatorConfig.validate, AccumulatorConfig.components,
      AccumulatorConfig.validateNames, AccumulatorConfig.validateProjection,
      AccumulatorConfig.validateDiscrete, Utils.isBlank, Utils.isWhiteSpace, bind, Except.bind]
  have hpartition : pairLayout.plan.partition.validateAccumulator pairLayout.config = .ok () := by
    decide +kernel
  unfold StratifiedLayout.validatedWidth
  rw [hplan, hconfig, hpartition]
  rfl

theorem pairTree_fits : ∀ x ∈ pairTree.samples, Fits pairLayout x := by
  intro x hx
  simp only [pairTree, Accumulation.samples, List.nil_append, List.singleton_append,
    List.mem_cons, List.not_mem_nil, or_false] at hx
  obtain rfl | rfl := hx
  · exact ⟨by decide, by decide +kernel, rfl, rfl⟩
  · exact ⟨by decide, by decide +kernel, rfl, rfl⟩

theorem moments_split_invariant_pair :
    (∃ s, accumulateStratum unitNumerics 1 (.push .new ([5], true)) = .ok s) ∧
      ∃ a, accumulate unitNumerics max () pairLayout pairTree = .ok a ∧ a.mean = some [2] := by
  have h := moments_split_invariant unitNumerics max () id
  refine ⟨(h.1 1 (.push .new ([5], true))).1.2 ⟨by simp [Accumulation.samples], by decide⟩, ?_⟩
  obtain ⟨hestimates, -, hok⟩ := h.2 pairLayout 1 pairLayout_width
  obtain ⟨a, ha⟩ := hok (by decide) pairTree
    ⟨pairTree_fits, by decide⟩
  refine ⟨a, ha, ?_⟩
  rw [(hestimates pairTree a ha).2.1]
  decide +kernel

end Gammaboard.Evaluation
