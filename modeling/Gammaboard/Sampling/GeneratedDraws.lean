import Gammaboard.Sampling.LatentSlices

/-!
# Generated draws

The batches samplers hand over: rows pushed into the builder, validated arrays
of fixed width, and the generator states of a Havana inference draw. Each
carries the points that were drawn.
-/

namespace Gammaboard.Sampling

open Gammaboard.Core

variable {F R : Type} {sample : R → R × Except String (Point F)}

/-! ## The builder -/

namespace IndexedBatchBuilder

/-- The map points at the discrete parts pushed so far, and so do the two tables that find the
signature of a part again. -/
structure Maps (b : IndexedBatchBuilder F) (discretes : List (List Int)) : Prop where
  map : b.discreteMap.map (b.discreteSignatures[·]?) = discretes.map some
  index : ∀ d place, b.discreteIndex d = some place → b.discreteSignatures[place]? = some d
  empty : ∀ place, b.emptySignature = some place → b.discreteSignatures[place]? = some []

theorem getElem?_extended {signatures : List (List Int)} {place : Nat} {d : List Int}
    (h : signatures[place]? = some d) (new : List Int) :
    (signatures ++ [new])[place]? = some d := by
  rw [List.getElem?_append_left (List.getElem?_eq_some_iff.1 h).1, h]

theorem map_extended {signatures : List (List Int)} {map : List Nat} {discretes : List (List Int)}
    (h : map.map (signatures[·]?) = discretes.map some) (new : List Int) :
    map.map ((signatures ++ [new])[·]?) = discretes.map some := by
  rw [← h]
  apply List.map_congr_left
  intro place hplace
  have hmem : signatures[place]? ∈ discretes.map some := h ▸ List.mem_map_of_mem hplace
  obtain ⟨d, -, hd⟩ := List.mem_map.1 hmem
  rw [getElem?_extended hd.symm, ← hd]

/-- A part found again, or put at the end of the signatures. -/
theorem Maps.pushDiscrete {b : IndexedBatchBuilder F} {discretes : List (List Int)}
    (h : b.Maps discretes) (discrete : List Int) :
    (b.pushDiscrete discrete).Maps (discretes ++ [discrete]) := by
  have hfound : ∀ place, b.discreteSignatures[place]? = some discrete →
      Maps { b with discreteMap := b.discreteMap ++ [place] } (discretes ++ [discrete]) := by
    intro place hplace
    refine ⟨?_, h.index, h.empty⟩
    rw [List.map_append, List.map_append, h.map, List.map_singleton, hplace, List.map_singleton]
  have hnew : (b.discreteMap ++ [b.discreteSignatures.length]).map
      ((b.discreteSignatures ++ [discrete])[·]?) = (discretes ++ [discrete]).map some := by
    rw [List.map_append, List.map_append, map_extended h.map, List.map_singleton,
      List.getElem?_concat_length, List.map_singleton]
  unfold IndexedBatchBuilder.pushDiscrete
  dsimp only
  by_cases hnil : discrete = []
  · subst hnil
    rw [if_pos rfl]
    split
    · rename_i place hempty
      exact hfound place (h.empty place hempty)
    · refine ⟨hnew, fun d place hd => getElem?_extended (h.index d place hd) [], ?_⟩
      intro place hplace
      cases hplace
      exact List.getElem?_concat_length
  · rw [if_neg hnil]
    cases hindex : b.discreteIndex discrete with
    | some place => exact hfound place (h.index discrete place hindex)
    | none =>
      refine ⟨hnew, ?_, fun place hp => getElem?_extended (h.empty place hp) discrete⟩
      intro d place hd
      dsimp only at hd
      split at hd
      · rename_i heq
        cases hd
        rw [heq]
        exact List.getElem?_concat_length
      · exact getElem?_extended (h.index d place hd) discrete

/-- The discrete part leaves the other columns. -/
structure SameColumns (b b' : IndexedBatchBuilder F) : Prop where
  layouts : b'.continuousLayouts = b.continuousLayouts
  values : b'.continuousValues = b.continuousValues
  weights : b'.weights = b.weights

theorem sameColumns_pushDiscrete (discrete : List Int) (b : IndexedBatchBuilder F) :
    SameColumns b (b.pushDiscrete discrete) := by
  unfold IndexedBatchBuilder.pushDiscrete
  dsimp only
  split
  · split <;> exact ⟨rfl, rfl, rfl⟩
  · split <;> exact ⟨rfl, rfl, rfl⟩

theorem maps_new : Maps (new : IndexedBatchBuilder F) [] where
  map := rfl
  index _ _ h := by cases h
  empty _ h := by cases h

/-- The columns hold the points pushed so far. -/
structure Holds (b : IndexedBatchBuilder F) (points : List (Point F)) : Prop where
  maps : b.Maps (points.map (·.discrete))
  layouts : b.continuousLayouts = points.map (·.continuous.length)
  values : b.continuousValues = points.flatMap (·.continuous)
  weights : b.weights.map (fun w => [("sampler_weight", w)]) = points.map (·.weightFactors)

theorem holds_new : Holds (new : IndexedBatchBuilder F) [] := ⟨maps_new, rfl, rfl, rfl⟩

theorem Holds.push {b : IndexedBatchBuilder F} {points : List (Point F)} (h : b.Holds points)
    (discrete : List Int) (continuous : List F) (weight : F) :
    (b.push discrete continuous weight).Holds
      (points ++ [Point.new continuous discrete weight]) := by
  obtain ⟨hlayouts, hvalues, hweights⟩ := sameColumns_pushDiscrete discrete b
  have hmaps := h.maps.pushDiscrete discrete
  unfold IndexedBatchBuilder.push
  constructor
  · rw [List.map_append, List.map_singleton]
    exact ⟨hmaps.map, hmaps.index, hmaps.empty⟩
  · simp [hlayouts, h.layouts, Point.new]
  · simp [hvalues, h.values, Point.new]
  · simp [hweights, h.weights, Point.new]

theorem Holds.rows {b : IndexedBatchBuilder F} {points : List (Point F)} (h : b.Holds points) :
    Rows b.discreteSignatures b.discreteMap b.continuousLayouts b.continuousValues b.weights
      points where
  discrete := by rw [h.maps.map, List.map_map]; rfl
  layouts := h.layouts
  values := h.values
  weights := h.weights

/-- Rows pushed one after the other. -/
def pushAll (b : IndexedBatchBuilder F) (samples : List (List Int × List F × F)) :
    IndexedBatchBuilder F :=
  samples.foldl (fun b row => b.push row.1 row.2.1 row.2.2) b

theorem Holds.pushAll {b : IndexedBatchBuilder F} {points : List (Point F)} (h : b.Holds points)
    (samples : List (List Int × List F × F)) :
    (b.pushAll samples).Holds
      (points ++ samples.map fun row => Point.new row.2.1 row.1 row.2.2) := by
  induction samples generalizing b points with
  | nil => simpa [IndexedBatchBuilder.pushAll] using h
  | cons row samples ih =>
    have hlater := ih (h.push row.1 row.2.1 row.2.2)
    rw [List.append_assoc] at hlater
    exact hlater

/-! ### Arrays of fixed width -/

theorem length_rows {α : Type} (width n : Nat) (xs : List α) : (rows width n xs).length = n := by
  induction n generalizing xs with
  | zero => rfl
  | succ n ih => simp [rows, ih]

theorem flatten_rows {α : Type} {width n : Nat} {xs : List α} (h : xs.length = n * width) :
    (rows width n xs).flatten = xs := by
  induction n generalizing xs with
  | zero =>
    rw [Nat.zero_mul] at h
    rw [List.eq_nil_of_length_eq_zero h]
    rfl
  | succ n ih =>
    have hrest : (xs.drop width).length = n * width := by
      rw [List.length_drop, h, Nat.succ_mul]
      omega
    rw [rows, List.flatten_cons, ih hrest, List.take_append_drop]

theorem length_of_mem_rows {α : Type} {width n : Nat} {xs : List α} (h : xs.length = n * width) :
    (rows width n xs).map List.length = List.replicate n width := by
  induction n generalizing xs with
  | zero => rfl
  | succ n ih =>
    rw [Nat.succ_mul] at h
    have hrest : (xs.drop width).length = n * width := by
      rw [List.length_drop]
      omega
    rw [rows, List.map_cons, ih hrest, List.replicate_succ, List.length_take]
    congr 1
    omega

theorem rows_zero {α : Type} (n : Nat) (xs : List α) : rows 0 n xs = List.replicate n [] := by
  induction n generalizing xs with
  | zero => rfl
  | succ n ih => simp [rows, ih, List.replicate_succ]

/-- The samples of arrays of fixed width. -/
def homogeneousPoints (discreteDims continuousDims : Nat) :
    List Int → List F → List F → List (Point F)
  | _, _, [] => []
  | discrete, continuous, weight :: weights =>
    Point.new (continuous.take continuousDims) (discrete.take discreteDims) weight ::
      homogeneousPoints discreteDims continuousDims (discrete.drop discreteDims)
        (continuous.drop continuousDims) weights

theorem homogeneousPoints_columns (discreteDims continuousDims : Nat) (discrete : List Int)
    (continuous weights : List F) :
    (homogeneousPoints discreteDims continuousDims discrete continuous weights).map (·.discrete) =
        rows discreteDims weights.length discrete ∧
      (homogeneousPoints discreteDims continuousDims discrete continuous weights).map
          (·.continuous) = rows continuousDims weights.length continuous ∧
      (homogeneousPoints discreteDims continuousDims discrete continuous weights).map
          (·.weightFactors) = weights.map fun w => [("sampler_weight", w)] := by
  induction weights generalizing discrete continuous with
  | nil => exact ⟨rfl, rfl, rfl⟩
  | cons weight weights ih =>
    obtain ⟨hdiscrete, hcontinuous, hweights⟩ :=
      ih (discrete.drop discreteDims) (continuous.drop continuousDims)
    refine ⟨?_, ?_, ?_⟩
    · simp only [homogeneousPoints, List.map_cons, hdiscrete, List.length_cons, rows, Point.new]
    · simp only [homogeneousPoints, List.map_cons, hcontinuous, List.length_cons, rows, Point.new]
    · simp only [homogeneousPoints, List.map_cons, hweights, Point.new]

theorem Maps.pushAll {b : IndexedBatchBuilder F} {discretes : List (List Int)}
    (h : b.Maps discretes) (parts : List (List Int)) :
    (parts.foldl (fun b part => b.pushDiscrete part) b).Maps (discretes ++ parts) ∧
      SameColumns b (parts.foldl (fun b part => b.pushDiscrete part) b) := by
  induction parts generalizing b discretes with
  | nil => exact ⟨by simpa using h, rfl, rfl, rfl⟩
  | cons part parts ih =>
    obtain ⟨hmaps, hcolumns⟩ := ih (h.pushDiscrete part)
    have hone := sameColumns_pushDiscrete part b
    rw [List.append_assoc] at hmaps
    exact ⟨hmaps, hcolumns.layouts.trans hone.layouts, hcolumns.values.trans hone.values,
      hcolumns.weights.trans hone.weights⟩

theorem fromHomogeneous_holds {discrete : List Int} {discreteDims continuousDims : Nat}
    {continuousValues weights : List F} (hdiscrete : discrete.length = weights.length * discreteDims)
    (hcontinuous : continuousValues.length = weights.length * continuousDims) :
    ∃ b : IndexedBatchBuilder F,
      (fromHomogeneous discrete discreteDims continuousValues continuousDims weights :
        LatentBatchPayload F R) = b.finish ∧
      b.Holds (homogeneousPoints discreteDims continuousDims discrete continuousValues weights) := by
  obtain ⟨hparts, hrows, hweights⟩ :=
    homogeneousPoints_columns discreteDims continuousDims discrete continuousValues weights
  have hlayouts : List.replicate weights.length continuousDims =
      (homogeneousPoints discreteDims continuousDims discrete continuousValues weights).map
        (·.continuous.length) := by
    rw [← length_of_mem_rows hcontinuous, ← hrows, List.map_map]
    rfl
  have hvalues : continuousValues =
      (homogeneousPoints discreteDims continuousDims discrete continuousValues weights).flatMap
        (·.continuous) := by
    rw [List.flatMap_def, hrows, flatten_rows hcontinuous]
  unfold fromHomogeneous
  dsimp only
  by_cases hdims : discreteDims = 0
  · rw [if_pos hdims]
    refine ⟨_, rfl, ⟨?_, ?_, ?_⟩, hlayouts, hvalues, hweights.symm⟩
    · dsimp only
      rw [hparts, hdims, rows_zero]
      simp
    · intro d place hd
      cases hd
    · intro place hplace
      cases hplace
  · rw [if_neg hdims]
    have hcount : discrete.length / discreteDims = weights.length := by
      rw [hdiscrete, Nat.mul_div_cancel _ (Nat.pos_of_ne_zero hdims)]
    have hstart : Maps
        ({ discreteSignatures := [], discreteIndex := fun _ => none, emptySignature := none,
           discreteMap := [], continuousLayouts := List.replicate weights.length continuousDims,
           continuousValues, weights } : IndexedBatchBuilder F) [] :=
      ⟨rfl, (maps_new (F := F)).index, (maps_new (F := F)).empty⟩
    obtain ⟨hmaps, hcolumns⟩ := hstart.pushAll (rows discreteDims weights.length discrete)
    rw [hcount]
    refine ⟨_, rfl, ?_, ?_, ?_, ?_⟩
    · rw [hparts]
      simpa using hmaps
    · rw [hcolumns.layouts, hlayouts]
    · rw [hcolumns.values]
      exact hvalues
    · rw [hcolumns.weights, hweights]

end IndexedBatchBuilder

/-! ## Havana inference -/

/-- The checkpoints of a draw are the states every stride of its run. -/
theorem rngStates_eq (sample : R → R × Except String (Point F)) (left index : Nat) (rng : R) :
    rngStates sample left index (rngAfter sample index rng) =
      ((List.range ((left + index + (rngCheckpointStride - 1)) / rngCheckpointStride)).drop
        ((index + (rngCheckpointStride - 1)) / rngCheckpointStride)).map
          fun i => rngAfter sample (i * rngCheckpointStride) rng := by
  induction left generalizing index with
  | zero => simp [rngStates]
  | succ left ih =>
    have hnext : (sample (rngAfter sample index rng)).1 = rngAfter sample (index + 1) rng := by
      rw [Nat.add_comm, rngAfter_add]
      rfl
    have hlater := ih (index + 1)
    have htotal : left + (index + 1) = left + 1 + index := by omega
    rw [htotal] at hlater
    unfold rngStates
    rw [hnext]
    dsimp only
    rw [hlater]
    by_cases hcheckpoint : index % rngCheckpointStride = 0
    · rw [if_pos hcheckpoint]
      simp only [rngCheckpointStride] at hcheckpoint ⊢
      have hfirst : (index + 1 + (1024 - 1)) / 1024 = (index + (1024 - 1)) / 1024 + 1 := by omega
      have hlt : (index + (1024 - 1)) / 1024 <
          (List.range ((left + 1 + index + (1024 - 1)) / 1024)).length := by
        rw [List.length_range]
        omega
      have hplace : (index + (1024 - 1)) / 1024 * 1024 = index := by omega
      rw [hfirst, List.drop_eq_getElem_cons hlt, List.map_cons, List.getElem_range, hplace]
    · rw [if_neg hcheckpoint]
      simp only [rngCheckpointStride] at hcheckpoint ⊢
      have hsame : (index + 1 + (1024 - 1)) / 1024 = (index + (1024 - 1)) / 1024 := by omega
      rw [hsame]

theorem drawPoints_length {n : Nat} {rng : R} {points : List (Point F)}
    (h : drawPoints sample n rng = .ok points) : points.length = n := by
  induction n generalizing rng points with
  | zero =>
    cases h
    rfl
  | succ n ih =>
    unfold drawPoints at h
    cases hpoint : (sample rng).2 with
    | error e =>
      simp only [hpoint, bind, Except.bind] at h
      cases h
    | ok point =>
      cases hlater : drawPoints sample n (sample rng).1 with
      | error e =>
        simp only [hpoint, hlater, bind, Except.bind] at h
        cases h
      | ok later =>
        simp only [hpoint, hlater, bind, Except.bind, pure, Except.pure] at h
        cases h
        rw [List.length_cons, ih hlater]

/-! ## Draws -/

/-- The draws samplers generate, with the points drawn. -/
inductive Generated (sample : R → R × Except String (Point F)) :
    LatentBatch (LatentBatchPayload F R) → List (Point F) → Prop where
  | pushed (samples : List (List Int × List F × F)) :
    Generated sample ⟨samples.length, (IndexedBatchBuilder.new.pushAll samples).finish⟩
      (samples.map fun row => Point.new row.2.1 row.1 row.2.2)
  | homogeneous (discrete : List Int) (discreteDims : Nat) (continuousValues : List F)
      (continuousDims : Nat) (weights : List F)
      (hdiscrete : discrete.length = weights.length * discreteDims)
      (hcontinuous : continuousValues.length = weights.length * continuousDims) :
    Generated sample
      ⟨weights.length, IndexedBatchBuilder.fromHomogeneous discrete discreteDims continuousValues
        continuousDims weights⟩
      (IndexedBatchBuilder.homogeneousPoints discreteDims continuousDims discrete continuousValues
        weights)
  | havanaInference (nrSamples : Nat) (rng : R) (points : List (Point F))
      (hpoints : drawPoints sample nrSamples rng = .ok points) :
    Generated sample ⟨nrSamples, .havanaInference (rngStates sample nrSamples 0 rng) 0⟩ points

/-- A generated draw carries the points drawn. -/
theorem Generated.carries {b : LatentBatch (LatentBatchPayload F R)} {points : List (Point F)}
    (h : Generated sample b points) : Carries sample b points := by
  cases h with
  | pushed samples =>
    have hholds := IndexedBatchBuilder.holds_new.pushAll samples
    rw [List.nil_append] at hholds
    exact ⟨List.length_map _, hholds.rows⟩
  | homogeneous discrete discreteDims continuousValues continuousDims weights hdiscrete hcontinuous =>
    obtain ⟨b, hb, hholds⟩ :=
      IndexedBatchBuilder.fromHomogeneous_holds (R := R) hdiscrete hcontinuous
    rw [hb]
    refine ⟨?_, hholds.rows⟩
    have hlen := congrArg List.length
      (IndexedBatchBuilder.homogeneousPoints_columns discreteDims continuousDims discrete
        continuousValues weights).1
    rwa [List.length_map, IndexedBatchBuilder.length_rows] at hlen
  | havanaInference nrSamples rng points hpoints =>
    refine ⟨drawPoints_length hpoints, rng, by decide, ?_, hpoints⟩
    have hstates := rngStates_eq sample nrSamples 0 rng
    simpa [rngAfter, rngCheckpointStride] using hstates

end Gammaboard.Sampling
