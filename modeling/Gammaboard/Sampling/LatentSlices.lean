import Gammaboard.Sampling.LatentPayload
import Mathlib.Data.List.Basic
import Mathlib.Tactic.Common

/-!
# The points of a latent batch

`Carries` says which points a batch stands for, column by column and, for a
Havana inference batch, by the generator run it replays. A batch that carries
points passes its check and materializes to them, a slice of it carries the
slice of the points, and every batch a sampler generates carries the points
that were drawn.
-/

namespace Gammaboard.Sampling

open Gammaboard.Core

variable {F R α : Type} {sample : R → R × Except String (Point F)}

/-- The columns hold the points row by row. -/
structure Rows (discreteSignatures : List (List Int)) (discreteMap continuousLayouts : List Nat)
    (continuousValues weights : List F) (points : List (Point F)) : Prop where
  discrete : discreteMap.map (discreteSignatures[·]?) = points.map fun p => some p.discrete
  layouts : continuousLayouts = points.map (·.continuous.length)
  values : continuousValues = points.flatMap (·.continuous)
  weights : weights.map (fun w => [("sampler_weight", w)]) = points.map (·.weightFactors)

/-- The generator states are those of one run, which draws the points after `offset` samples. -/
def Replays (sample : R → R × Except String (Point F)) (nrSamples : Nat) (rngStates : List R)
    (offset : Nat) (points : List (Point F)) : Prop :=
  ∃ rng, offset < rngCheckpointStride ∧
    rngStates = (List.range ((nrSamples + offset + (rngCheckpointStride - 1)) / rngCheckpointStride)).map
      (fun i => rngAfter sample (i * rngCheckpointStride) rng) ∧
    drawPoints sample nrSamples (rngAfter sample offset rng) = .ok points

/-- The points the batch stands for. -/
def Carries (sample : R → R × Except String (Point F)) (b : LatentBatch (LatentBatchPayload F R))
    (points : List (Point F)) : Prop :=
  points.length = b.nrSamples ∧
    match b.payload with
    | .indexedBatch discreteSignatures discreteMap continuousLayouts continuousValues weights =>
      Rows discreteSignatures discreteMap continuousLayouts continuousValues weights points
    | .havanaInference rngStates offset => Replays sample b.nrSamples rngStates offset points

/-- Where the coordinates of the sample at the position start. -/
def LatentBatchPayload.coordinatesBefore (payload : LatentBatchPayload F R) (position : Nat) : Nat :=
  match payload with
  | .indexedBatch _ _ continuousLayouts _ _ => (continuousLayouts.take position).sum
  | .havanaInference _ _ => 0

theorem range?_of_le {xs : List α} {start n : Nat} (h : start + n ≤ xs.length) :
    range? xs start n = some ((xs.drop start).take n) := if_pos h

theorem indexRange_of_le {xs : List α} {start n : Nat} (h : start + n ≤ xs.length) :
    indexRange xs start n = .ok ((xs.drop start).take n) := by
  unfold indexRange
  rw [range?_of_le h]

/-! ## Indexed batches -/

section Indexed

variable {discreteSignatures : List (List Int)} {discreteMap continuousLayouts : List Nat}
  {continuousValues weights : List F} {points : List (Point F)}

theorem Rows.length_map
    (h : Rows discreteSignatures discreteMap continuousLayouts continuousValues weights points) :
    discreteMap.length = points.length := by
  simpa using congrArg List.length h.discrete

theorem Rows.length_layouts
    (h : Rows discreteSignatures discreteMap continuousLayouts continuousValues weights points) :
    continuousLayouts.length = points.length := by
  simp [h.layouts]

theorem Rows.length_weights
    (h : Rows discreteSignatures discreteMap continuousLayouts continuousValues weights points) :
    weights.length = points.length := by
  simpa using congrArg List.length h.weights

/-- The loop reads the rows off, from the offset of the first on. -/
theorem decodeFrom_rows (sampleIdx offset : Nat) (tail : List F)
    (hmap : discreteMap.map (discreteSignatures[·]?) = points.map fun p => some p.discrete)
    (hweights : weights.map (fun w => [("sampler_weight", w)]) = points.map (·.weightFactors))
    (hvalues : continuousValues.drop offset = points.flatMap (·.continuous) ++ tail)
    (hoffset : offset ≤ continuousValues.length) :
    decodeFrom discreteSignatures continuousValues sampleIdx offset discreteMap
      (points.map (·.continuous.length)) weights =
        .ok (points, offset + (points.map (·.continuous.length)).sum) := by
  induction points generalizing discreteMap weights sampleIdx offset with
  | nil =>
    cases discreteMap with
    | nil => rfl
    | cons i rest => cases hmap
  | cons p points ih =>
    obtain ⟨signatureIdx, map, rfl⟩ : ∃ i map, discreteMap = i :: map := by
      cases discreteMap with
      | nil => cases hmap
      | cons i map => exact ⟨i, map, rfl⟩
    obtain ⟨weight, weights, rfl⟩ : ∃ w ws, weights = w :: ws := by
      cases weights with
      | nil => cases hweights
      | cons w ws => exact ⟨w, ws, rfl⟩
    simp only [List.map_cons, List.cons.injEq] at hmap hweights
    rw [List.flatMap_cons, List.append_assoc] at hvalues
    have hlen := congrArg List.length hvalues
    simp only [List.length_drop, List.length_append] at hlen
    have hfits : offset + p.continuous.length ≤ continuousValues.length := by omega
    have hrow : (continuousValues.drop offset).take p.continuous.length = p.continuous := by
      rw [hvalues, List.take_left']
      rfl
    have hnext : continuousValues.drop (offset + p.continuous.length) =
        points.flatMap (·.continuous) ++ tail := by
      rw [← List.drop_drop, hvalues, List.drop_left']
      rfl
    have hlater := ih (sampleIdx + 1) _ hmap.2 hweights.2 hnext hfits
    rw [List.map_cons]
    unfold decodeFrom
    rw [hmap.1, range?_of_le hfits, hrow]
    dsimp only
    rw [hlater]
    have hpoint : Point.new p.continuous p.discrete weight = p := by
      unfold Point.new
      rw [hweights.1]
    show Except.ok (Point.new p.continuous p.discrete weight :: points, _) = _
    rw [hpoint, List.sum_cons, Nat.add_assoc]

theorem Rows.decode
    (h : Rows discreteSignatures discreteMap continuousLayouts continuousValues weights points) :
    decodeIndexedBatch discreteSignatures discreteMap continuousLayouts continuousValues weights =
      .ok points := by
  have hvalues : continuousValues.drop 0 = points.flatMap (·.continuous) ++ [] := by
    simp [h.values]
  have hdecoded := decodeFrom_rows 0 0 [] h.discrete h.weights hvalues (Nat.zero_le _)
  have hshape : ¬(discreteMap.length ≠ weights.length ∨ continuousLayouts.length ≠ weights.length) := by
    rw [h.length_map, h.length_layouts, h.length_weights]
    simp
  unfold decodeIndexedBatch
  rw [if_neg hshape, h.layouts, hdecoded]
  simp [h.values]

/-- The signatures only grow, and a place given to an index holds its signature. -/
structure Remap.Places (discreteSignatures : List (List Int)) (r : Remap) : Prop where
  holds : ∀ index place, r.remap index = some place →
    r.signatures[place]? = discreteSignatures[index]?
  inside : ∀ index place, r.remap index = some place → place < r.signatures.length

theorem Remap.places_new (discreteSignatures : List (List Int)) :
    Remap.Places discreteSignatures .new where
  holds _ _ h := by cases h
  inside _ _ h := by cases h

/-- The loop over valid indices adds a map that points at the same signatures. -/
theorem Remap.indices_ok {indices : List Nat} {r : Remap}
    (hvalid : ∀ i ∈ indices, i < discreteSignatures.length) (h : r.Places discreteSignatures) :
    ∃ r' maps, Remap.indices discreteSignatures indices r = .ok r' ∧ r'.maps = r.maps ++ maps ∧
      r.signatures <+: r'.signatures ∧
      maps.map (r'.signatures[·]?) = indices.map (discreteSignatures[·]?) := by
  induction indices generalizing r with
  | nil => exact ⟨r, [], rfl, by simp, List.prefix_rfl, rfl⟩
  | cons index rest ih =>
    have hrest := fun i hi => hvalid i (List.mem_cons_of_mem index hi)
    have hin := hvalid index List.mem_cons_self
    have hget := List.getElem?_eq_getElem hin
    unfold Remap.indices
    rw [hget]
    dsimp only
    cases hplace : r.remap index with
    | some place =>
      -- an index met before keeps its place
      have hlater : Remap.Places discreteSignatures { r with maps := r.maps ++ [place] } :=
        ⟨h.holds, h.inside⟩
      obtain ⟨r', maps, hrun, hmaps, hprefix, hsame⟩ := ih hrest hlater
      refine ⟨r', place :: maps, hrun, by simp [hmaps], hprefix, ?_⟩
      rw [List.map_cons, List.map_cons, hsame, ← h.holds index place hplace]
      have hlt := h.inside index place hplace
      obtain ⟨more, hmore⟩ := hprefix
      rw [← hmore, List.getElem?_append_left hlt]
    | none =>
      -- a new index gets the next place
      have hlater : Remap.Places discreteSignatures
          { signatures := r.signatures ++ [discreteSignatures[index]]
            remap := fun i => if i = index then some r.signatures.length else r.remap i
            maps := r.maps ++ [r.signatures.length] } := by
        constructor
        · intro i place hi
          dsimp only at hi ⊢
          split at hi
          · rename_i heq
            cases hi
            rw [List.getElem?_concat_length, heq, hget]
          · rw [List.getElem?_append_left (h.inside i place hi), h.holds i place hi]
        · intro i place hi
          dsimp only at hi ⊢
          rw [List.length_append, List.length_singleton]
          split at hi
          · cases hi
            omega
          · have hlt := h.inside i place hi
            omega
      obtain ⟨r', maps, hrun, hmaps, hprefix, hsame⟩ := ih hrest hlater
      refine ⟨r', r.signatures.length :: maps, hrun, by simp [hmaps],
        (List.prefix_append _ _).trans hprefix, ?_⟩
      rw [List.map_cons, List.map_cons, hsame, hget]
      obtain ⟨more, hmore⟩ := hprefix
      dsimp only at hmore
      rw [← hmore, List.append_assoc, List.getElem?_append_right le_rfl]
      simp

/-- The coordinates of consecutive points lie together. -/
theorem slice_flatMap {β : Type} (f : α → List β) (xs : List α) (start n : Nat) :
    ((xs.flatMap f).drop ((xs.take start).map fun x => (f x).length).sum).take
        (((xs.drop start).take n).map fun x => (f x).length).sum =
      ((xs.drop start).take n).flatMap f := by
  have hsplit : xs = xs.take start ++ ((xs.drop start).take n ++ (xs.drop start).drop n) := by
    rw [List.take_append_drop, List.take_append_drop]
  have hflat := congrArg (List.flatMap f) hsplit
  rw [List.flatMap_append, List.flatMap_append] at hflat
  rw [← List.length_flatMap, ← List.length_flatMap, hflat, List.drop_left' rfl,
    List.take_left' rfl]

/-- A slice of an indexed batch at its coordinate holds the slice of the points. -/
theorem Rows.slice {start n : Nat}
    (h : Rows discreteSignatures discreteMap continuousLayouts continuousValues weights points)
    (hn : start + n ≤ points.length) :
    ∃ signatures map layouts values ws,
      (LatentBatchPayload.indexedBatch (R := R) discreteSignatures discreteMap continuousLayouts
        continuousValues weights).slice start n (continuousLayouts.take start).sum =
          .ok (.indexedBatch signatures map layouts values ws) ∧
      Rows signatures map layouts values ws ((points.drop start).take n) ∧
      values.length = ((continuousLayouts.drop start).take n).sum := by
  have hmap := indexRange_of_le (hn.trans h.length_map.ge)
  have hlayouts := indexRange_of_le (hn.trans h.length_layouts.ge)
  have hweights := indexRange_of_le (hn.trans h.length_weights.ge)
  have hvalid : ∀ i ∈ (discreteMap.drop start).take n, i < discreteSignatures.length := by
    intro i hi
    have hmem : discreteSignatures[i]? ∈ discreteMap.map (discreteSignatures[·]?) :=
      List.mem_map_of_mem (List.mem_of_mem_drop (List.mem_of_mem_take hi))
    rw [h.discrete] at hmem
    obtain ⟨p, -, hp⟩ := List.mem_map.1 hmem
    exact (List.getElem?_eq_some_iff.1 hp.symm).1
  obtain ⟨r, maps, hremap, hmaps, -, hsame⟩ := Remap.indices_ok hvalid (Remap.places_new _)
  have htotal : continuousValues.length = continuousLayouts.sum := by
    rw [h.values, h.layouts, List.length_flatMap]
  have hparts : continuousLayouts.sum = (continuousLayouts.take start).sum +
      (((continuousLayouts.drop start).take n).sum + ((continuousLayouts.drop start).drop n).sum) := by
    rw [← List.sum_append, ← List.sum_append, List.take_append_drop, List.take_append_drop]
  have hvalues : indexRange continuousValues (continuousLayouts.take start).sum
      ((continuousLayouts.drop start).take n).sum =
        .ok (((points.drop start).take n).flatMap (·.continuous)) := by
    rw [indexRange_of_le (by omega), h.values, h.layouts, ← List.map_take, ← List.map_drop,
      ← List.map_take, slice_flatMap]
  refine ⟨r.signatures, r.maps, (continuousLayouts.drop start).take n,
    ((points.drop start).take n).flatMap (·.continuous), (weights.drop start).take n, ?_, ?_, ?_⟩
  · unfold LatentBatchPayload.slice
    simp only [hmap, hremap, hlayouts, hvalues, hweights, bind, Except.bind, pure, Except.pure]
  · have hnew : r.maps = maps := by simpa [Remap.new] using hmaps
    constructor
    · rw [hnew, hsame, List.map_take, List.map_drop, h.discrete, ← List.map_drop, ← List.map_take]
    · rw [h.layouts, ← List.map_drop, ← List.map_take]
    · rfl
    · rw [List.map_take, List.map_drop, h.weights, ← List.map_drop, ← List.map_take]
  · rw [List.length_flatMap, h.layouts, ← List.map_drop, ← List.map_take]

end Indexed

/-! ## Havana inference batches -/

theorem rngAfter_add (m n : Nat) (rng : R) :
    rngAfter sample (m + n) rng = rngAfter sample m (rngAfter sample n rng) :=
  Function.iterate_add_apply _ m n rng

theorem rngAfter_succ (n : Nat) (rng : R) :
    rngAfter sample (n + 1) rng = rngAfter sample n (sample rng).1 := rfl

/-- Drawing from a point of the run on gives the later points. -/
theorem drawPoints_slice {total start n : Nat} {rng : R} {points : List (Point F)}
    (h : drawPoints sample total rng = .ok points) (hn : start + n ≤ total) :
    drawPoints sample n (rngAfter sample start rng) = .ok ((points.drop start).take n) := by
  induction total generalizing start n rng points with
  | zero =>
    obtain ⟨rfl, rfl⟩ : start = 0 ∧ n = 0 := by omega
    rfl
  | succ total ih =>
    unfold drawPoints at h
    dsimp only at h
    cases hpoint : (sample rng).2 with
    | error e =>
      rw [hpoint] at h
      cases h
    | ok point =>
      rw [hpoint] at h
      cases hlater : drawPoints sample total (sample rng).1 with
      | error e =>
        simp only [hlater, bind, Except.bind] at h
        cases h
      | ok later =>
        simp only [hlater, bind, Except.bind, pure, Except.pure] at h
        cases h
        cases start with
        | succ start =>
          rw [rngAfter_succ]
          exact ih hlater (by omega)
        | zero =>
          cases n with
          | zero => rfl
          | succ n =>
            have hshort : drawPoints sample n (sample rng).1 = .ok (later.take n) :=
              @ih 0 n _ _ hlater (by omega)
            show drawPoints sample (n + 1) rng = _
            unfold drawPoints
            simp only [hpoint, hshort, bind, Except.bind, pure, Except.pure]
            rfl

/-- The generator states are those of one run, which is at `rng` after `offset` samples. -/
def Checkpoints (sample : R → R × Except String (Point F)) (nrSamples : Nat) (rngStates : List R)
    (offset : Nat) (rng : R) : Prop :=
  ∃ first, offset < rngCheckpointStride ∧
    rngStates = (List.range ((nrSamples + offset + (rngCheckpointStride - 1)) / rngCheckpointStride)).map
      (fun i => rngAfter sample (i * rngCheckpointStride) first) ∧
    rngAfter sample offset first = rng

theorem replays_iff {nrSamples offset : Nat} {states : List R} {points : List (Point F)} :
    Replays sample nrSamples states offset points ↔
      ∃ rng, Checkpoints sample nrSamples states offset rng ∧
        drawPoints sample nrSamples rng = .ok points := by
  constructor
  · rintro ⟨first, hoffset, hstates, hpoints⟩
    exact ⟨_, ⟨first, hoffset, hstates, rfl⟩, hpoints⟩
  · rintro ⟨_, ⟨first, hoffset, hstates, rfl⟩, hpoints⟩
    exact ⟨first, hoffset, hstates, hpoints⟩

/-- A slice keeps the checkpoints of its samples and starts at its own. -/
theorem Checkpoints.slice (coordinate : Nat) {nrSamples start n offset : Nat} {states : List R}
    {rng : R} (h : Checkpoints sample nrSamples states offset rng)
    (hpos : 0 < n) (hn : start + n ≤ nrSamples) :
    ∃ states' offset',
      (LatentBatchPayload.havanaInference (F := F) states offset).slice start n coordinate =
        .ok (.havanaInference states' offset') ∧
      Checkpoints sample n states' offset' (rngAfter sample start rng) := by
  obtain ⟨first, hoffset, hstates, rfl⟩ := h
  simp only [rngCheckpointStride] at hoffset hstates
  have hlength : states.length = (nrSamples + offset + (1024 - 1)) / 1024 := by
    simp [hstates]
  have hinside : (offset + start) / 1024 +
      ((offset + (start + n) - 1) / 1024 + 1 - (offset + start) / 1024) ≤ states.length := by
    omega
  refine ⟨(states.drop ((offset + start) / 1024)).take
      ((offset + (start + n) - 1) / 1024 + 1 - (offset + start) / 1024),
    (offset + start) % 1024, ?_, ?_⟩
  · unfold LatentBatchPayload.slice
    simp only [rngCheckpointStride, range?_of_le hinside]
  · refine ⟨rngAfter sample ((offset + start) / 1024 * 1024) first, Nat.mod_lt _ (by decide), ?_, ?_⟩
    · have hcount : (offset + (start + n) - 1) / 1024 + 1 - (offset + start) / 1024 =
          (n + (offset + start) % 1024 + (1024 - 1)) / 1024 := by omega
      simp only [rngCheckpointStride, ← hcount]
      apply List.ext_getElem
      · simp only [List.length_take, List.length_drop, List.length_map, List.length_range]
        omega
      · intro i hi hi'
        simp only [List.getElem_take, List.getElem_drop, List.getElem_map, List.getElem_range,
          hstates]
        rw [← rngAfter_add, Nat.add_mul, Nat.add_comm]
    · have hposition : (offset + start) % 1024 + (offset + start) / 1024 * 1024 = start + offset := by
        omega
      rw [← rngAfter_add, hposition, rngAfter_add]

/-- A slice replays the run from the checkpoint before its first sample. -/
theorem Replays.slice (coordinate : Nat) {nrSamples start n offset : Nat} {states : List R}
    {points : List (Point F)} (h : Replays sample nrSamples states offset points)
    (hpos : 0 < n) (hn : start + n ≤ nrSamples) :
    ∃ states' offset',
      (LatentBatchPayload.havanaInference (F := F) states offset).slice start n coordinate =
        .ok (.havanaInference states' offset') ∧
      Replays sample n states' offset' ((points.drop start).take n) := by
  obtain ⟨rng, hcheckpoints, hpoints⟩ := replays_iff.1 h
  obtain ⟨states', offset', hslice, hcheckpoints'⟩ := hcheckpoints.slice coordinate hpos hn
  exact ⟨states', offset', hslice,
    replays_iff.2 ⟨_, hcheckpoints', drawPoints_slice hpoints hn⟩⟩

/-! ## Batches that carry points -/

/-- A batch that carries points passes the check of its layout. -/
theorem Carries.validate {b : LatentBatch (LatentBatchPayload F R)} {points : List (Point F)}
    (h : Carries sample b points) (hpos : 0 < b.nrSamples) : b.validateNrSamples = .ok () := by
  obtain ⟨nrSamples, payload⟩ := b
  obtain ⟨hlen, hpayload⟩ := h
  dsimp only at hlen hpayload hpos
  unfold LatentBatch.validateNrSamples
  dsimp only
  rw [if_neg (by omega)]
  cases payload with
  | indexedBatch discreteSignatures discreteMap continuousLayouts continuousValues weights =>
    have hvalues : continuousValues.length = continuousLayouts.sum := by
      rw [hpayload.values, hpayload.layouts, List.length_flatMap]
    simp [hpayload.length_map, hpayload.length_layouts, hpayload.length_weights, hvalues, hlen]
  | havanaInference states offset =>
    obtain ⟨rng, hoffset, hstates, -⟩ := hpayload
    dsimp only
    rw [if_neg]
    rintro (hle | hne)
    · omega
    · exact hne (by simp [hstates])

/-- A batch materializes to the points it carries. -/
theorem Carries.materialize {b : LatentBatch (LatentBatchPayload F R)} {points : List (Point F)}
    (h : Carries sample b points) (hpos : 0 < b.nrSamples) :
    materializeBatch sample b = .ok points := by
  have hvalid := h.validate hpos
  obtain ⟨nrSamples, payload⟩ := b
  obtain ⟨hlen, hpayload⟩ := h
  dsimp only at hlen hpayload hpos
  unfold materializeBatch
  cases payload with
  | indexedBatch discreteSignatures discreteMap continuousLayouts continuousValues weights =>
    exact hpayload.decode
  | havanaInference states offset =>
    obtain ⟨rng, hoffset, hstates, hpoints⟩ := hpayload
    dsimp only
    rw [hvalid]
    obtain ⟨k, hk⟩ : ∃ k, (nrSamples + offset + (rngCheckpointStride - 1)) / rngCheckpointStride =
        k + 1 := by
      refine ⟨(nrSamples + offset - 1) / 1024, ?_⟩
      simp only [rngCheckpointStride]
      omega
    rw [hk, List.range_succ_eq_map, List.map_cons, Nat.zero_mul] at hstates
    subst hstates
    exact hpoints

/-- A slice at its coordinate carries the slice of the points, and its coordinates lead to the
next slice. -/
theorem Carries.slice {b : LatentBatch (LatentBatchPayload F R)} {points : List (Point F)}
    (h : Carries sample b points) {start n : Nat} (hpos : 0 < n) (hn : start + n ≤ b.nrSamples) :
    ∃ piece, b.sliceAt payloadOps start n (b.payload.coordinatesBefore start) = .ok piece ∧
      piece.nrSamples = n ∧ Carries sample piece ((points.drop start).take n) ∧
      b.payload.coordinatesBefore start + piece.payload.coordinates =
        b.payload.coordinatesBefore (start + n) := by
  obtain ⟨nrSamples, payload⟩ := b
  obtain ⟨hlen, hpayload⟩ := h
  dsimp only at hlen hpayload hn ⊢
  have hpart : ((points.drop start).take n).length = n := by
    rw [List.length_take, List.length_drop]
    omega
  unfold LatentBatch.sliceAt
  rw [if_neg (by dsimp only; omega), if_neg (by omega)]
  cases payload with
  | indexedBatch discreteSignatures discreteMap continuousLayouts continuousValues weights =>
    obtain ⟨signatures, map, layouts, values, ws, hslice, hrows, hcount⟩ :=
      hpayload.slice (R := R) (hn.trans hlen.ge)
    refine ⟨⟨n, .indexedBatch signatures map layouts values ws⟩, ?_, rfl, ⟨hpart, hrows⟩, ?_⟩
    · simp only [payloadOps, LatentBatchPayload.coordinatesBefore, hslice, Except.map]
    · show (continuousLayouts.take start).sum + values.length = (continuousLayouts.take (start + n)).sum
      rw [hcount, List.take_add, List.sum_append]
  | havanaInference states offset =>
    obtain ⟨states', offset', hslice, hreplays⟩ := hpayload.slice 0 hpos hn
    refine ⟨⟨n, .havanaInference states' offset'⟩, ?_, rfl, ⟨hpart, hreplays⟩, rfl⟩
    simp only [payloadOps, LatentBatchPayload.coordinatesBefore, hslice, Except.map]

end Gammaboard.Sampling
