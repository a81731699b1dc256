import Gammaboard.ProcessApi.Requests

/-!
# A worker reads the rows the host has sent

For every batch of points of the domain, packed with their weights and without.
-/

namespace Gammaboard.ProcessApi

open Gammaboard.Lib
open Gammaboard.Utils (Json DomainJson)
open Gammaboard.Sampling

/-- No vector is longer. -/
structure Fits (points : List (Point F64)) : Prop where
  count : points.length < 2 ^ 63
  discrete : (points.map Point.discrete).flatten.length < 2 ^ 63
  continuous : (points.map Point.continuous).flatten.length < 2 ^ 63

/-- The rows of points, with weights. -/
def batchOf (points : List (Point F64)) (weights : List F64) : Batch :=
  ⟨points.map Point.discrete, points.map Point.continuous, weights⟩

/-- Rows with the total weights of the points, of which none may be zero or infinite. -/
def weightedBatch (totalWeight : Point F64 → F64) (points : List (Point F64)) :
    Except String Batch :=
  if (points.map totalWeight).all usable then .ok (batchOf points (points.map totalWeight))
  else .error "sampling weights must be finite and positive"

section

variable {json : DomainJson} {d : Utils.Domain} {codec : BatchCodec}
  {points : List (Point F64)}

theorem int64_flatten (hvalid : ∀ p ∈ points, ValidPoint d p) :
    ∀ v ∈ (points.map Point.discrete).flatten, -2 ^ 63 ≤ v ∧ v < 2 ^ 63 := by
  intro v hv
  obtain ⟨row, hrow, hmem⟩ := List.mem_flatten.1 hv
  obtain ⟨p, hp, rfl⟩ := List.mem_map.1 hrow
  exact (hvalid p hp).int64 v hmem

theorem usable_ones (n : Nat) : (BatchCodec.ones n).all usable = true := by
  rw [List.all_eq_true]
  intro w hw
  rw [List.eq_of_mem_replicate hw]
  decide

/-! ## Requests for the points -/

theorem request_of {params : Json F64} {weights : List F64} (hvalid : ∀ p ∈ points, ValidPoint d p)
    (hfits : Fits points) (hweights : weights.length = points.length)
    (hcount : params.get? "nr_samples" = some (jsonUsize points.length))
    (hdiscrete : SendsOffsets params "xs_discrete_offsets" d.fixedDiscreteDepth
      (points.map Point.discrete))
    (hcontinuous : SendsOffsets params "xs_continuous_offsets" d.fixedContinuousDims
      (points.map Point.continuous)) : Request d params (batchOf points weights) where
  count := by
    show params.get? "nr_samples" = some (jsonUsize weights.length)
    rw [hcount, hweights]
  small := hweights ▸ hfits.count
  discreteCount := by
    show (points.map Point.discrete).length = weights.length
    rw [List.length_map, hweights]
  continuousCount := by
    show (points.map Point.continuous).length = weights.length
    rw [List.length_map, hweights]
  discreteOffsets := hdiscrete
  continuousOffsets := hcontinuous
  discreteWidth := hasWidth_discrete hvalid
  continuousWidth := hasWidth_continuous hvalid
  discreteTotal := hfits.discrete
  continuousTotal := hfits.continuous

/-- Parameters that were there before the offsets. -/
theorem request_packed {params : OrdMap String (Json F64)} {inputs : PackedEvalInputs}
    {weights : List F64} (hvalid : ∀ p ∈ points, ValidPoint d p) (hfits : Fits points)
    (hweights : weights.length = points.length)
    (hget : OrdMap.get "nr_samples" params = some (jsonUsize points.length) ∧
      OrdMap.get "xs_discrete_offsets" params = none ∧
      OrdMap.get "xs_continuous_offsets" params = none)
    (hd : inputs.xsDiscreteOffsets =
      offsetsSent d.fixedDiscreteDepth (points.map Point.discrete))
    (hc : inputs.xsContinuousOffsets =
      offsetsSent d.fixedContinuousDims (points.map Point.continuous)) :
    Request d (.object (addRequiredOffsets params inputs)) (batchOf points weights) := by
  obtain ⟨hsentd, hsentc⟩ := sendsOffsets_addRequired hget.2.1 hget.2.2 hd hc
  refine request_of hvalid hfits hweights ?_ hsentd hsentc
  rw [get?_addRequired (by decide) (by decide)]
  exact hget.1

/-- What a worker makes of the columns of points, with weights of any kind. -/
theorem decode_points (hs : Session json d codec) (hvalid : ∀ p ∈ points, ValidPoint d p)
    {params : Json F64} {binary : List UInt8} {weighted : Bool} {weights : List F64}
    (hweights : weights.length = points.length) (hrequest : Request d params (batchOf points weights))
    (hcolumns : BatchCodec.binaryColumns binary
      (points.map Point.discrete).flatten.length (points.map Point.continuous).flatten.length
      points.length weighted = .ok (columnsOf points weights)) :
    codec.decode params binary weighted =
      if weights.all usable then .ok (batchOf points weights)
      else .error "sampling weights must be finite and positive" := by
  have hvalidate : codec.validate (batchOf points weights) = _ := validate_eq hs hvalid hweights
  rw [← hweights] at hcolumns
  rw [decode_eq hs hrequest hcolumns, hvalidate]
  cases weights.all usable <;> rfl

/-! ## Packed blocks -/

theorem packed_block (totalWeight : Point F64 → F64) (points : List (Point F64)) (d : Utils.Domain) :
    (packWeights totalWeight points (packEvalInputs points d)).binary =
      (columnsOf points (points.map totalWeight)).bytes := by
  rw [packWeights_binary, packEvalInputs_eq]
  unfold columnsOf Columns.bytes
  dsimp only
  rw [List.flatMap_nil, List.append_nil, List.append_assoc]

theorem decode_evalBatch (hs : Session json d codec) (hvalid : ∀ p ∈ points, ValidPoint d p)
    (hfits : Fits points) (components : List String) :
    codec.decode (evalBatchParams components points.length (packEvalInputs points d))
        (packEvalInputs points d).binary false =
      .ok (batchOf points (BatchCodec.ones points.length)) := by
  have hlength : (BatchCodec.ones points.length).length = points.length := List.length_replicate
  have hget : ∀ key, OrdMap.get key (OrdMap.collect [("nr_samples", jsonUsize points.length),
      ("components", Json.array (components.map .string))]) = _ :=
    fun key => OrdMap.get_collect (by simp [OrdMap.keys])
  have hrequest : Request d (evalBatchParams components points.length (packEvalInputs points d))
      (batchOf points (BatchCodec.ones points.length)) := by
    rw [packEvalInputs_eq]
    exact request_packed hvalid hfits hlength ⟨hget _, hget _, hget _⟩ rfl rfl
  have hblock : (packEvalInputs points d).binary = (columnsOf points []).bytes := by
    rw [packEvalInputs_eq]
  have hdecoded := decode_points hs hvalid hlength hrequest
    (binaryColumns_unweighted (int64_flatten hvalid) points.length)
  rw [if_pos (usable_ones _)] at hdecoded
  rw [hblock]
  exact hdecoded

theorem decode_gammaloop (hs : Session json d codec) (totalWeight : Point F64 → F64)
    (hvalid : ∀ p ∈ points, ValidPoint d p) (hfits : Fits points) (requireTrainingValues : Bool)
    (stratification : Json F64) :
    codec.decode (gammaloopParams requireTrainingValues stratification points.length
        (packWeights totalWeight points (packEvalInputs points d)))
        (packWeights totalWeight points (packEvalInputs points d)).binary true =
      weightedBatch totalWeight points := by
  have hlength : (points.map totalWeight).length = points.length := List.length_map _
  have hget : ∀ key, OrdMap.get key (OrdMap.collect [("nr_samples", jsonUsize points.length),
      ("require_training_values", .bool requireTrainingValues),
      ("stratification", stratification)]) = _ :=
    fun key => OrdMap.get_collect (by simp [OrdMap.keys])
  have hcolumns := binaryColumns_weighted (c := columnsOf points (points.map totalWeight))
    (int64_flatten hvalid)
  have hcount : (columnsOf points (points.map totalWeight)).weights.length = points.length :=
    hlength
  rw [hcount] at hcolumns
  have hrequest : Request d (gammaloopParams requireTrainingValues stratification points.length
      (packWeights totalWeight points (packEvalInputs points d)))
      (batchOf points (points.map totalWeight)) := by
    rw [packEvalInputs_eq]
    exact request_packed hvalid hfits hlength ⟨hget _, hget _, hget _⟩ rfl rfl
  rw [packed_block]
  exact decode_points hs hvalid hlength hrequest hcolumns

/-- An evaluator reads the rows of every batch of points of the domain, in the order they were sent,
whether it is rectangular or ragged. It refuses weights that are not finite and positive, and
nothing else. -/
theorem request_rows_exchanged (hs : Session json d codec) (totalWeight : Point F64 → F64)
    (hvalid : ∀ p ∈ points, ValidPoint d p) (hfits : Fits points) (components : List String)
    (requireTrainingValues : Bool) (stratification : Json F64) :
    codec.decode (evalBatchParams components points.length (packEvalInputs points d))
        (packEvalInputs points d).binary false =
      .ok (batchOf points (BatchCodec.ones points.length)) ∧
    codec.decode (gammaloopParams requireTrainingValues stratification points.length
        (packWeights totalWeight points (packEvalInputs points d)))
        (packWeights totalWeight points (packEvalInputs points d)).binary true =
      weightedBatch totalWeight points :=
  ⟨decode_evalBatch hs hvalid hfits components,
    decode_gammaloop hs totalWeight hvalid hfits requireTrainingValues stratification⟩

end

/-! ## A ragged domain -/

/-- 0.5 -/
def half : F64 := ⟨0x3FE0000000000000⟩

def raggedDomain : Utils.Domain :=
  .discrete (some "k") .stratum
    [(0, .rectangular 1 [2, 3] 1), (4, .discrete none .integrand [(7, .rectangular 0 [] 2)])]

theorem raggedSession :
    Session Domain.raggedJson raggedDomain ⟨Domain.mirror raggedDomain, (none, none)⟩ where
  fits := Domain.raggedJson_fits
  host := rfl
  worker := rfl
  depth w h := by cases h
  dims w h := by cases h

/-- A point on each branch, with one weight factor. -/
def raggedPoints : List (Point F64) := [.new [half] [0, 1, 2] one, .new [half, one] [4, 7] half]

/-- The product of one factor. -/
def singleFactor (point : Point F64) : F64 := ((point.weightFactors.map (·.2)).headD one)

theorem request_rows_exchanged_ragged :
    BatchCodec.decode ⟨Domain.mirror raggedDomain, (none, none)⟩
        (evalBatchParams ["value"] 2 (packEvalInputs raggedPoints raggedDomain))
        (packEvalInputs raggedPoints raggedDomain).binary false =
      .ok (batchOf raggedPoints [one, one]) ∧
    BatchCodec.decode ⟨Domain.mirror raggedDomain, (none, none)⟩
        (gammaloopParams true .null 2
          (packWeights singleFactor raggedPoints (packEvalInputs raggedPoints raggedDomain)))
        (packWeights singleFactor raggedPoints (packEvalInputs raggedPoints raggedDomain)).binary
        true =
      .ok (batchOf raggedPoints [one, half]) := by
  refine request_rows_exchanged raggedSession singleFactor ?_ ⟨by decide, by decide, by decide⟩
    ["value"] true .null
  simp only [raggedPoints, List.forall_mem_cons, List.not_mem_nil, false_implies, implies_true,
    and_true]
  exact ⟨⟨rfl, by decide, by decide⟩, ⟨rfl, by decide, by decide⟩⟩

end Gammaboard.ProcessApi
