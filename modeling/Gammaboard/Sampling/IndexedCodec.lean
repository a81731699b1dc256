import Gammaboard.Sampling.GeneratedDraws
import Mathlib.Data.List.Nodup

/-!
# Indexed batches, written and read

What the builder writes row by row is read back as the rows, arrays of fixed
width are read as the rows they hold, and a discrete path is stored once.
Columns that do not fit together are refused: the decoder reads a batch exactly
when they do, and no index it forms leaves a column.
-/

namespace Gammaboard.Sampling

open Gammaboard.Core

variable {F R : Type}

/-- The point of a row. -/
def rowPoint (row : List Int × List F × F) : Point F := Point.new row.2.1 row.1 row.2.2

namespace Point

/-- `factor_value`. -/
def factorValue (p : Point F) (label : String) : Option F :=
  (p.weightFactors.find? (·.1 == label)).map (·.2)

@[simp] theorem factorValue_new (continuous : List F) (discrete : List Int) (weight : F) :
    (Point.new continuous discrete weight).factorValue "sampler_weight" = some weight := rfl

end Point

namespace LatentBatchPayload

/-- `as_batch` and `into_batch`. -/
def asBatch : LatentBatchPayload F R → Except String (List (Point F))
  | .indexedBatch discreteSignatures discreteMap continuousLayouts continuousValues weights =>
    decodeIndexedBatch discreteSignatures discreteMap continuousLayouts continuousValues weights
  | .havanaInference _ _ =>
    .error "havana_inference latent payload must be materialized by a materializer"

/-- The discrete paths the payload stores. -/
def signatures : LatentBatchPayload F R → List (List Int)
  | .indexedBatch discreteSignatures _ _ _ _ => discreteSignatures
  | .havanaInference _ _ => []

/-- `from_batch`, a panic for a point without its weight. -/
def fromBatch (points : List (Point F)) : Option (LatentBatchPayload F R) :=
  (points.foldl (fun b p => b.bind fun b =>
    (p.factorValue "sampler_weight").map fun weight => b.push p.discrete p.continuous weight)
    (some .new)).map IndexedBatchBuilder.finish

end LatentBatchPayload

/-! ## The rows read back -/

namespace IndexedBatchBuilder

theorem asBatch_pushAll (samples : List (List Int × List F × F)) :
    ((new.pushAll samples).finish : LatentBatchPayload F R).asBatch = .ok (samples.map rowPoint) := by
  have hholds := holds_new.pushAll samples
  rw [List.nil_append] at hholds
  exact hholds.rows.decode

theorem foldl_fromBatch (samples : List (List Int × List F × F)) (b : IndexedBatchBuilder F) :
    (samples.map rowPoint).foldl (fun b p => b.bind fun b =>
      (p.factorValue "sampler_weight").map fun weight => b.push p.discrete p.continuous weight)
      (some b) = some (b.pushAll samples) := by
  induction samples generalizing b with
  | nil => rfl
  | cons row samples ih => exact ih (b.push row.1 row.2.1 row.2.2)

/-- A batch of points is written as its rows. -/
theorem fromBatch_rows (samples : List (List Int × List F × F)) :
    (LatentBatchPayload.fromBatch (samples.map rowPoint) : Option (LatentBatchPayload F R)) =
      some (new.pushAll samples).finish := by
  unfold LatentBatchPayload.fromBatch
  rw [foldl_fromBatch]
  rfl

/-- The rows of arrays of fixed width. -/
def homogeneousRows (discrete : List Int) (discreteDims : Nat) (continuousValues : List F)
    (continuousDims : Nat) (weights : List F) : List (List Int × List F × F) :=
  (rows discreteDims weights.length discrete).zip
    ((rows continuousDims weights.length continuousValues).zip weights)

theorem map_homogeneousRows (discrete : List Int) (discreteDims : Nat) (continuousValues : List F)
    (continuousDims : Nat) (weights : List F) :
    (homogeneousRows discrete discreteDims continuousValues continuousDims weights).map rowPoint =
      homogeneousPoints discreteDims continuousDims discrete continuousValues weights := by
  induction weights generalizing discrete continuousValues with
  | nil => rfl
  | cons weight weights ih =>
    unfold homogeneousPoints
    rw [← ih]
    rfl

theorem asBatch_fromHomogeneous {discrete : List Int} {discreteDims continuousDims : Nat}
    {continuousValues weights : List F} (hdiscrete : discrete.length = weights.length * discreteDims)
    (hcontinuous : continuousValues.length = weights.length * continuousDims) :
    (fromHomogeneous discrete discreteDims continuousValues continuousDims weights :
        LatentBatchPayload F R).asBatch =
      .ok ((homogeneousRows discrete discreteDims continuousValues continuousDims weights).map
        rowPoint) := by
  obtain ⟨b, hb, hholds⟩ := fromHomogeneous_holds (R := R) hdiscrete hcontinuous
  rw [hb, map_homogeneousRows]
  exact hholds.rows.decode

/-! ## Signatures -/

/-- Every signature is found again, so none is stored a second time. -/
structure Stored (b : IndexedBatchBuilder F) : Prop where
  nodup : b.discreteSignatures.Nodup
  index : ∀ d ∈ b.discreteSignatures, d ≠ [] → (b.discreteIndex d).isSome
  empty : [] ∈ b.discreteSignatures → b.emptySignature.isSome

theorem stored_new : Stored (new : IndexedBatchBuilder F) where
  nodup := List.nodup_nil
  index _ h := by cases h
  empty h := by cases h

theorem Stored.pushDiscrete {b : IndexedBatchBuilder F} (h : b.Stored) (discrete : List Int) :
    (b.pushDiscrete discrete).Stored ∧
      ∀ d, d ∈ (b.pushDiscrete discrete).discreteSignatures →
        d ∈ b.discreteSignatures ∨ d = discrete := by
  unfold IndexedBatchBuilder.pushDiscrete
  dsimp only
  by_cases hnil : discrete = []
  · subst hnil
    rw [if_pos rfl]
    cases hempty : b.emptySignature with
    | some place => exact ⟨⟨h.nodup, h.index, fun _ => rfl⟩, fun d hd => .inl hd⟩
    | none =>
      have hnew : [] ∉ b.discreteSignatures := by
        intro hmem
        have hsome := h.empty hmem
        rw [hempty] at hsome
        cases hsome
      refine ⟨⟨?_, ?_, fun _ => rfl⟩, fun d hd => by simpa using hd⟩
      · exact List.nodup_append.2 ⟨h.nodup, List.nodup_singleton _, by
          intro d hd d' hd' heq
          rw [List.mem_singleton] at hd'
          exact hnew (hd' ▸ heq ▸ hd)⟩
      · intro d hd hne
        rcases List.mem_append.1 hd with hd | hd
        · exact h.index d hd hne
        · exact absurd (List.mem_singleton.1 hd) hne
  · rw [if_neg hnil]
    cases hindex : b.discreteIndex discrete with
    | some place => exact ⟨⟨h.nodup, h.index, h.empty⟩, fun d hd => .inl hd⟩
    | none =>
      have hnew : discrete ∉ b.discreteSignatures := by
        intro hmem
        have hsome := h.index discrete hmem hnil
        rw [hindex] at hsome
        cases hsome
      refine ⟨⟨?_, ?_, ?_⟩, fun d hd => by simpa using hd⟩
      · exact List.nodup_append.2 ⟨h.nodup, List.nodup_singleton _, by
          intro d hd d' hd' heq
          rw [List.mem_singleton] at hd'
          exact hnew (hd' ▸ heq ▸ hd)⟩
      · intro d hd hne
        dsimp only
        split
        · rfl
        · rename_i hother
          rcases List.mem_append.1 hd with hd | hd
          · exact h.index d hd hne
          · exact absurd (List.mem_singleton.1 hd) hother
      · intro hd
        rcases List.mem_append.1 hd with hd | hd
        · exact h.empty hd
        · exact absurd (List.mem_singleton.1 hd).symm hnil

theorem Stored.foldl {b : IndexedBatchBuilder F} (h : b.Stored) (parts : List (List Int)) :
    (parts.foldl (fun b part => b.pushDiscrete part) b).Stored ∧
      ∀ d, d ∈ (parts.foldl (fun b part => b.pushDiscrete part) b).discreteSignatures →
        d ∈ b.discreteSignatures ∨ d ∈ parts := by
  induction parts generalizing b with
  | nil => exact ⟨h, fun d hd => .inl hd⟩
  | cons part parts ih =>
    obtain ⟨hone, hfrom⟩ := h.pushDiscrete part
    obtain ⟨hall, hlater⟩ := ih hone
    refine ⟨hall, fun d hd => ?_⟩
    rcases hlater d hd with hd | hd
    · rcases hfrom d hd with hd | rfl
      · exact .inl hd
      · exact .inr List.mem_cons_self
    · exact .inr (List.mem_cons_of_mem part hd)

/-- The other columns have no part in the signatures. -/
theorem Stored.pushAll {b : IndexedBatchBuilder F} (h : b.Stored)
    (samples : List (List Int × List F × F)) :
    (b.pushAll samples).Stored ∧ ∀ d, d ∈ (b.pushAll samples).discreteSignatures →
      d ∈ b.discreteSignatures ∨ ∃ row ∈ samples, row.1 = d := by
  induction samples generalizing b with
  | nil => exact ⟨h, fun d hd => .inl hd⟩
  | cons row samples ih =>
    obtain ⟨hone, hfrom⟩ := h.pushDiscrete row.1
    have hpush : (b.push row.1 row.2.1 row.2.2).Stored := ⟨hone.nodup, hone.index, hone.empty⟩
    obtain ⟨hall, hlater⟩ := ih hpush
    refine ⟨hall, fun d hd => ?_⟩
    rcases hlater d hd with hd | ⟨later, hlater, rfl⟩
    · rcases hfrom d hd with hd | rfl
      · exact .inl hd
      · exact .inr ⟨row, List.mem_cons_self, rfl⟩
    · exact .inr ⟨later, List.mem_cons_of_mem row hlater, rfl⟩

/-- A part the map points at is a signature. -/
theorem Maps.mem {b : IndexedBatchBuilder F} {discretes : List (List Int)} (h : b.Maps discretes)
    {d : List Int} (hd : d ∈ discretes) : d ∈ b.discreteSignatures := by
  have hmem : some d ∈ b.discreteMap.map (b.discreteSignatures[·]?) :=
    h.map ▸ List.mem_map_of_mem hd
  obtain ⟨place, -, hplace⟩ := List.mem_map.1 hmem
  exact List.mem_of_getElem? hplace

theorem signatures_pushAll (samples : List (List Int × List F × F)) :
    ((new.pushAll samples).finish : LatentBatchPayload F R).signatures.Nodup ∧
      ∀ d, d ∈ ((new.pushAll samples).finish : LatentBatchPayload F R).signatures ↔
        ∃ row ∈ samples, row.1 = d := by
  obtain ⟨hstored, hfrom⟩ := stored_new.pushAll samples
  have hholds := holds_new.pushAll samples
  refine ⟨hstored.nodup, fun d => ⟨fun hd => (hfrom d hd).resolve_left List.not_mem_nil, ?_⟩⟩
  rintro ⟨row, hrow, rfl⟩
  exact hholds.maps.mem (List.mem_map_of_mem (List.mem_map_of_mem hrow))

theorem nodup_fromHomogeneous (discrete : List Int) (discreteDims : Nat)
    (continuousValues : List F) (continuousDims : Nat) (weights : List F) :
    (fromHomogeneous discrete discreteDims continuousValues continuousDims weights :
      LatentBatchPayload F R).signatures.Nodup := by
  unfold fromHomogeneous
  dsimp only
  split
  · exact List.nodup_singleton _
  · have hstart : Stored
        ({ discreteSignatures := [], discreteIndex := fun _ => none, emptySignature := none,
           discreteMap := [], continuousLayouts := List.replicate weights.length continuousDims,
           continuousValues, weights } : IndexedBatchBuilder F) :=
      ⟨(@stored_new F).nodup, (@stored_new F).index, (@stored_new F).empty⟩
    exact (hstart.foldl _).1.nodup

end IndexedBatchBuilder

/-! ## Columns that fit together -/

/-- The columns describe the same samples, every signature exists and every coordinate is used. -/
structure Consistent (discreteSignatures : List (List Int)) (discreteMap continuousLayouts : List Nat)
    (continuousValues weights : List F) : Prop where
  map : discreteMap.length = weights.length
  layouts : continuousLayouts.length = weights.length
  signatures : ∀ i ∈ discreteMap, i < discreteSignatures.length
  values : continuousLayouts.sum = continuousValues.length

section Columns

variable {discreteSignatures : List (List Int)} {discreteMap continuousLayouts : List Nat}
  {continuousValues weights : List F}

theorem range?_isSome {α : Type} {xs : List α} {start n : Nat} :
    (range? xs start n).isSome ↔ start + n ≤ xs.length := by
  unfold range?
  split <;> simp_all

/-- The loop comes to its end when the signatures exist and the coordinates suffice. -/
theorem decodeFrom_ok_iff {sampleIdx offset : Nat} (hmap : discreteMap.length = weights.length)
    (hlayouts : continuousLayouts.length = weights.length) (hoffset : offset ≤ continuousValues.length) :
    (∃ points, decodeFrom discreteSignatures continuousValues sampleIdx offset discreteMap
        continuousLayouts weights = .ok (points, offset + continuousLayouts.sum)) ∧
        (∀ i ∈ discreteMap, i < discreteSignatures.length) ∧
        offset + continuousLayouts.sum ≤ continuousValues.length ∨
      (∃ e, decodeFrom discreteSignatures continuousValues sampleIdx offset discreteMap
        continuousLayouts weights = .error e) ∧
        ¬((∀ i ∈ discreteMap, i < discreteSignatures.length) ∧
          offset + continuousLayouts.sum ≤ continuousValues.length) := by
  induction weights generalizing sampleIdx offset discreteMap continuousLayouts with
  | nil =>
    cases List.eq_nil_of_length_eq_zero hmap
    cases List.eq_nil_of_length_eq_zero hlayouts
    exact .inl ⟨⟨[], rfl⟩, by simp, hoffset⟩
  | cons weight weights ih =>
    obtain ⟨signatureIdx, map, rfl⟩ := List.exists_cons_of_length_eq_add_one hmap
    obtain ⟨continuousLen, layouts, rfl⟩ := List.exists_cons_of_length_eq_add_one hlayouts
    unfold decodeFrom
    rw [List.sum_cons, ← Nat.add_assoc]
    cases hsignature : discreteSignatures[signatureIdx]? with
    | none =>
      refine .inr ⟨⟨_, rfl⟩, fun h => ?_⟩
      have hlt := h.1 signatureIdx List.mem_cons_self
      rw [List.getElem?_eq_none_iff] at hsignature
      omega
    | some discrete =>
      dsimp only
      have hlt : signatureIdx < discreteSignatures.length :=
        (List.getElem?_eq_some_iff.1 hsignature).1
      cases hrange : range? continuousValues offset continuousLen with
      | none =>
        have hout : ¬offset + continuousLen ≤ continuousValues.length := by
          rw [← range?_isSome, hrange]
          simp
        refine .inr ⟨?_, fun h => ?_⟩
        · dsimp only
          split <;> exact ⟨_, rfl⟩
        · omega
      | some continuous =>
        have hin : offset + continuousLen ≤ continuousValues.length := by
          rw [← range?_isSome, hrange]
          rfl
        dsimp only
        rcases @ih map layouts (sampleIdx + 1) (offset + continuousLen) (by simpa using hmap)
            (by simpa using hlayouts) hin with ⟨⟨points, hrun⟩, hsignatures, hvalues⟩ | ⟨⟨e, hrun⟩, hbad⟩
        · rw [hrun]
          exact .inl ⟨⟨_, rfl⟩, List.forall_mem_cons.2 ⟨hlt, hsignatures⟩, hvalues⟩
        · rw [hrun]
          exact .inr ⟨⟨e, rfl⟩, fun h => hbad ⟨(List.forall_mem_cons.1 h.1).2, h.2⟩⟩

/-- The decoder reads exactly the consistent columns. -/
theorem decodeIndexedBatch_ok_iff :
    (∃ points, decodeIndexedBatch discreteSignatures discreteMap continuousLayouts continuousValues
        weights = .ok points) ↔
      Consistent discreteSignatures discreteMap continuousLayouts continuousValues weights := by
  unfold decodeIndexedBatch
  dsimp only
  by_cases hshape : discreteMap.length ≠ weights.length ∨ continuousLayouts.length ≠ weights.length
  · rw [if_pos hshape]
    constructor
    · rintro ⟨points, hpoints⟩
      cases hpoints
    · intro h
      exact absurd hshape (not_or.2 ⟨not_not.2 h.map, not_not.2 h.layouts⟩)
  · rw [if_neg hshape]
    rw [not_or, not_not, not_not] at hshape
    rcases @decodeFrom_ok_iff F discreteSignatures discreteMap continuousLayouts continuousValues
        weights 0 0 hshape.1 hshape.2 (Nat.zero_le _) with
      ⟨⟨points, hrun⟩, hsignatures, hvalues⟩ | ⟨⟨e, hrun⟩, hbad⟩
    · rw [hrun]
      dsimp only
      split
      · rename_i htrailing
        constructor
        · rintro ⟨_, hpoints⟩
          cases hpoints
        · intro h
          have hsum := h.values
          omega
      · rename_i hall
        exact ⟨fun _ => ⟨hshape.1, hshape.2, hsignatures, by omega⟩, fun _ => ⟨points, rfl⟩⟩
    · rw [hrun]
      constructor
      · rintro ⟨_, hpoints⟩
        cases hpoints
      · intro h
        exact absurd ⟨h.signatures, by have hsum := h.values; omega⟩ hbad

/-! ## No index leaves a column -/

/-- The loop of `decode_indexed_batch` with its indices, `none` where one is out of bounds. -/
def decodeByIndex (discreteSignatures : List (List Int)) (discreteMap continuousLayouts : List Nat)
    (continuousValues weights : List F) :
    Nat → Nat → Nat → List (Point F) → Option (Except String (List (Point F) × Nat))
  | 0, _, continuousOffset, points => some (.ok (points, continuousOffset))
  | left + 1, sampleIdx, continuousOffset, points =>
    match discreteMap[sampleIdx]?, continuousLayouts[sampleIdx]?, weights[sampleIdx]? with
    | some signatureIdx, some continuousLen, some weight =>
      match discreteSignatures[signatureIdx]? with
      | none =>
        some (.error
          s!"indexed latent batch discrete_map[{sampleIdx}] points to missing signature {signatureIdx}")
      | some discrete =>
        match range? continuousValues continuousOffset continuousLen with
        | none =>
          if usizeLimit ≤ continuousOffset + continuousLen then
            some (.error "indexed latent batch continuous offset overflow")
          else
            some (.error s!"indexed latent batch continuous values too short for sample {sampleIdx}")
        | some continuous =>
          decodeByIndex discreteSignatures discreteMap continuousLayouts continuousValues weights left
            (sampleIdx + 1) (continuousOffset + continuousLen)
            (points ++ [Point.new continuous discrete weight])
    | _, _, _ => none

/-- From a sample on the indexed loop does what the loop over the columns does. -/
theorem decodeByIndex_eq (hmap : discreteMap.length = weights.length)
    (hlayouts : continuousLayouts.length = weights.length) :
    ∀ {left sampleIdx offset : Nat} {points : List (Point F)}, sampleIdx + left = weights.length →
      decodeByIndex discreteSignatures discreteMap continuousLayouts continuousValues weights left
          sampleIdx offset points =
        some ((decodeFrom discreteSignatures continuousValues sampleIdx offset
          (discreteMap.drop sampleIdx) (continuousLayouts.drop sampleIdx)
          (weights.drop sampleIdx)).map fun r => (points ++ r.1, r.2))
  | 0, sampleIdx, offset, points, hleft => by
    have hend : weights.drop sampleIdx = [] := List.drop_eq_nil_of_le (by omega)
    rw [hend]
    unfold decodeByIndex decodeFrom
    simp [Except.map]
  | left + 1, sampleIdx, offset, points, hleft => by
    have hin : sampleIdx < weights.length := by omega
    have hinMap : sampleIdx < discreteMap.length := by omega
    have hinLayouts : sampleIdx < continuousLayouts.length := by omega
    unfold decodeByIndex decodeFrom
    rw [List.drop_eq_getElem_cons hin, List.drop_eq_getElem_cons hinMap,
      List.drop_eq_getElem_cons hinLayouts, List.getElem?_eq_getElem hin,
      List.getElem?_eq_getElem hinMap, List.getElem?_eq_getElem hinLayouts]
    dsimp only
    cases discreteSignatures[discreteMap[sampleIdx]]? with
    | none => rfl
    | some discrete =>
      dsimp only
      cases range? continuousValues offset continuousLayouts[sampleIdx] with
      | none =>
        dsimp only
        split <;> rfl
      | some continuous =>
        dsimp only
        rw [decodeByIndex_eq hmap hlayouts (by omega)]
        cases decodeFrom discreteSignatures continuousValues (sampleIdx + 1)
            (offset + continuousLayouts[sampleIdx]) (discreteMap.drop (sampleIdx + 1))
            (continuousLayouts.drop (sampleIdx + 1)) (weights.drop (sampleIdx + 1)) with
        | error e => rfl
        | ok r =>
          show some (Except.ok ((points ++ [Point.new continuous discrete weights[sampleIdx]]) ++ r.1,
            r.2)) = _
          rw [List.append_assoc]
          rfl

/-- The columns the loop is entered with never make it leave one. -/
theorem decodeByIndex_columns (hmap : discreteMap.length = weights.length)
    (hlayouts : continuousLayouts.length = weights.length) :
    decodeByIndex discreteSignatures discreteMap continuousLayouts continuousValues weights
        weights.length 0 0 [] =
      some (decodeFrom discreteSignatures continuousValues 0 0 discreteMap continuousLayouts
        weights) := by
  rw [decodeByIndex_eq hmap hlayouts (Nat.zero_add _), List.drop_zero, List.drop_zero,
    List.drop_zero]
  cases decodeFrom discreteSignatures continuousValues 0 0 discreteMap continuousLayouts weights with
  | error e => rfl
  | ok r => rfl

end Columns

/-- Rows written one by one, or as arrays of fixed width, are read back in their order from a
payload that stores each path once; columns are read exactly when they are consistent, and no
others make an index leave its column. -/
theorem indexed_codec :
    (∀ samples : List (List Int × List F × F),
      let payload : LatentBatchPayload F R := (IndexedBatchBuilder.new.pushAll samples).finish
      LatentBatchPayload.fromBatch (samples.map rowPoint) = some payload ∧
        payload.asBatch = .ok (samples.map rowPoint) ∧ payload.signatures.Nodup ∧
        ∀ d, d ∈ payload.signatures ↔ ∃ row ∈ samples, row.1 = d) ∧
    (∀ (discrete : List Int) (discreteDims : Nat) (continuousValues : List F) (continuousDims : Nat)
        (weights : List F), discrete.length = weights.length * discreteDims →
      continuousValues.length = weights.length * continuousDims →
      let payload : LatentBatchPayload F R := IndexedBatchBuilder.fromHomogeneous discrete discreteDims
        continuousValues continuousDims weights
      let samples := IndexedBatchBuilder.homogeneousRows discrete discreteDims continuousValues
        continuousDims weights
      payload.asBatch =
          ((IndexedBatchBuilder.new.pushAll samples).finish : LatentBatchPayload F R).asBatch ∧
        payload.asBatch = .ok (samples.map rowPoint) ∧ payload.signatures.Nodup) ∧
    ∀ (discreteSignatures : List (List Int)) (discreteMap continuousLayouts : List Nat)
        (continuousValues weights : List F),
      (discreteMap.length = weights.length → continuousLayouts.length = weights.length →
        decodeByIndex discreteSignatures discreteMap continuousLayouts continuousValues weights
            weights.length 0 0 [] =
          some (decodeFrom discreteSignatures continuousValues 0 0 discreteMap continuousLayouts
            weights)) ∧
      (¬Consistent discreteSignatures discreteMap continuousLayouts continuousValues weights →
        ∃ e, decodeIndexedBatch discreteSignatures discreteMap continuousLayouts continuousValues
          weights = .error e) := by
  refine ⟨fun samples => ?_, fun discrete discreteDims continuousValues continuousDims weights
    hdiscrete hcontinuous => ?_, fun discreteSignatures discreteMap continuousLayouts
    continuousValues weights => ⟨fun hmap hlayouts => ?_, fun hbad => ?_⟩⟩
  · exact ⟨IndexedBatchBuilder.fromBatch_rows samples, IndexedBatchBuilder.asBatch_pushAll samples,
      IndexedBatchBuilder.signatures_pushAll samples⟩
  · have hread := IndexedBatchBuilder.asBatch_fromHomogeneous (R := R) hdiscrete hcontinuous
    exact ⟨hread.trans (IndexedBatchBuilder.asBatch_pushAll _).symm, hread,
      IndexedBatchBuilder.nodup_fromHomogeneous discrete discreteDims continuousValues
        continuousDims weights⟩
  · exact decodeByIndex_columns hmap hlayouts
  · cases hread : decodeIndexedBatch discreteSignatures discreteMap continuousLayouts
        continuousValues weights with
    | error e => exact ⟨e, rfl⟩
    | ok points => exact absurd (decodeIndexedBatch_ok_iff.1 ⟨points, hread⟩) hbad

end Gammaboard.Sampling
