import Gammaboard.ProcessApi.BatchCodec
import Gammaboard.ProcessApi.DomainAgreement
import Gammaboard.Sampling.ProcessBatch
import Gammaboard.Sampling.SentDraws

/-!
# What a worker reads of a request

The rows of a batch as the host packs them, with offsets or without. The codec of the worker cuts
them into the same rows, whichever way they came.
-/

namespace Gammaboard.ProcessApi

open Gammaboard.Lib
open Gammaboard.Utils (Json DomainJson)
open Gammaboard.Sampling

/-! ## Widths of valid points -/

theorem common_eq_some {widths : List (Option Nat)} {w : Nat}
    (h : Utils.Domain.common widths = some w) : ∀ x ∈ widths, x = some w := by
  cases widths with
  | nil => cases h
  | cons first rest =>
    unfold Utils.Domain.common at h
    cases first with
    | none => cases h
    | some width =>
      dsimp only [bind, Option.bind] at h
      split at h
      · rename_i hall
        cases h
        intro x hx
        exact eq_of_beq (List.all_eq_true.1 hall x hx)
      · cases h

mutual

/-- Where the domain fixes a width, every leaf has it. -/
theorem widths_of_leafPath : ∀ (d : Utils.Domain) {path : List Int} {dims : Nat},
    d.continuousDimsAtLeafPath path = .ok dims →
      (∀ w, d.fixedDiscreteDepth = some w → path.length = w) ∧
        ∀ w, d.fixedContinuousDims = some w → dims = w
  | .rectangular strataDims discreteCardinalities continuousDims, path, dims, h => by
    rw [Utils.Domain.continuousDimsAtLeafPath, Domain.ite_error_ok, not_not] at h
    rw [Utils.Domain.fixedDiscreteDepth, Utils.Domain.fixedContinuousDims]
    have hdims := ((Domain.rectangularDimsAt_ok h.1).1 h.2).2
    exact ⟨fun w hw => by rw [h.1]; exact Option.some.inj hw,
      fun w hw => hdims.trans (Option.some.inj hw)⟩
  | .discrete axisLabel axisRole branches, [], dims, h => by
    rw [Utils.Domain.continuousDimsAtLeafPath] at h
    cases h
  | .discrete axisLabel axisRole branches, head :: tail, dims, h => by
    rw [Utils.Domain.continuousDimsAtLeafPath, Domain.ite_error_ok] at h
    obtain ⟨hdepths, hdims⟩ := widths_of_branch branches h.2
    rw [Utils.Domain.fixedDiscreteDepth, Utils.Domain.fixedContinuousDims]
    refine ⟨fun w hw => ?_, fun w hw => hdims w (common_eq_some hw)⟩
    split at hw
    · rename_i hempty
      rw [List.isEmpty_iff.1 hempty, Utils.Domain.dimsAtBranch] at h
      cases h.2
    · obtain ⟨depth, hdepth, rfl⟩ := Option.map_eq_some_iff.1 hw
      rw [List.length_cons, hdepths depth (common_eq_some hdepth)]

theorem widths_of_branch : ∀ (branches : List (Nat × Utils.Domain)) {index : Nat} {tail : List Int}
    {dims : Nat}, Utils.Domain.dimsAtBranch branches index tail = .ok dims →
      (∀ w, (∀ x ∈ Utils.Domain.depthsOfBranches branches, x = some w) → tail.length = w) ∧
        ∀ w, (∀ x ∈ Utils.Domain.continuousDimsOfBranches branches, x = some w) → dims = w
  | [], index, tail, dims, h => by
    rw [Utils.Domain.dimsAtBranch] at h
    cases h
  | (label, domain) :: branches, index, tail, dims, h => by
    rw [Utils.Domain.depthsOfBranches, Utils.Domain.continuousDimsOfBranches]
    simp only [List.forall_mem_cons]
    rw [Utils.Domain.dimsAtBranch] at h
    split at h
    · obtain ⟨hdepth, hdims⟩ := widths_of_leafPath domain h
      exact ⟨fun w hw => hdepth w hw.1, fun w hw => hdims w hw.1⟩
    · obtain ⟨hdepth, hdims⟩ := widths_of_branch branches h
      exact ⟨fun w hw => hdepth w hw.2, fun w hw => hdims w hw.2⟩

end

/-! ## Numbers -/

theorem asInt_jsonUsize {n : Nat} (h : n < 2 ^ 64) : asInt (jsonUsize n) = some (n : Int) := by
  have hn : (UInt64.ofNat n).toNat = n := UInt64.toNat_ofNat_of_lt' h
  rw [jsonUsize, asInt, hn]

theorem mapM_asInt {offsets : List Nat} (h : ∀ o ∈ offsets, o < 2 ^ 64) :
    (offsets.map jsonUsize).mapM asInt = some (offsets.map (Nat.cast : Nat → Int)) := by
  induction offsets with
  | nil => rfl
  | cons o offsets ih =>
    rw [List.forall_mem_cons] at h
    rw [List.map_cons, List.mapM_cons, asInt_jsonUsize h.1, ih h.2]
    rfl

theorem bmod_small {n : Nat} (h : n < 2 ^ 63) : (n : Int).bmod (2 ^ 64) = n := by
  have hword : ((2 ^ 64 : Nat) : Int) = 18446744073709551616 := rfl
  rw [Int.bmod_def, hword]
  omega

/-! ## Offsets -/

variable {α : Type}

/-- The rows have the width that the domain fixes, if it does. -/
def HasWidth (width : Option Nat) (rows : List (List α)) : Prop :=
  ∀ w, width = some w → ∀ row ∈ rows, row.length = w

/-- The offsets of the rows, or none where the domain fixes the width. -/
inductive SendsOffsets (params : Json F64) (key : String) (width : Option Nat)
    (rows : List (List α)) : Prop where
  | given (h : params.get? key = some (.array ((Ragged.offsetsFrom 0 rows).map jsonUsize)))
  | omitted (hwidth : width.isSome) (h : params.get? key = none)

section Offsets

variable {params : Json F64} {key : String} {width : Option Nat} {rows : List (List α)}

theorem offset_le_total {o : Nat} (ho : o ∈ Ragged.offsetsFrom 0 rows) : o ≤ rows.flatten.length := by
  have hlast := Ragged.getLast?_offsetsFrom 0 rows
  rw [List.getLast?_eq_some_getLast (Ragged.offsetsFrom_ne_nil 0 rows), Option.some_inj,
    Nat.zero_add] at hlast
  rw [← hlast]
  exact (Ragged.pairwise_offsetsFrom 0 rows).1.rel_getLast_of_rel_getLast_getLast ho le_rfl

/-- The offsets as `int64`. -/
def int64Offsets (rows : List (List α)) : List Int :=
  (Ragged.offsetsFrom 0 rows).map (Nat.cast : Nat → Int)

theorem int64Offsets_uniform {w : Nat} (h : ∀ row ∈ rows, row.length = w) :
    int64Offsets rows = (List.range (rows.length + 1)).map fun (i : Nat) => (i : Int) * (w : Int) := by
  rw [int64Offsets, Ragged.offsetsFrom_eq_uniform h, Ragged.uniform, List.map_map]
  apply List.map_congr_left
  intro i _
  rw [Function.comp_apply, Int.natCast_mul]

theorem asarray_int64Offsets (h : rows.flatten.length < 2 ^ 63) :
    BatchCodec.asarray (int64Offsets rows) = .ok (int64Offsets rows) := by
  have hall : (int64Offsets rows).all isInt64 = true := by
    rw [int64Offsets, List.all_map, List.all_eq_true]
    intro o ho
    have hle := offset_le_total ho
    unfold isInt64
    rw [Function.comp_apply, Bool.and_eq_true, decide_eq_true_iff, decide_eq_true_iff]
    omega
  rw [BatchCodec.asarray, if_pos hall]

theorem not_descends_cast {offsets : List Nat} (h : offsets.Pairwise (· ≤ ·)) :
    ((offsets.map (Nat.cast : Nat → Int)).zip (offsets.map (Nat.cast : Nat → Int)).tail).any
      (fun pair => decide (pair.2 < pair.1)) = false := by
  rw [← List.map_tail, List.zip_map, List.any_map, List.any_eq_false]
  induction offsets with
  | nil => exact fun pair hpair => by cases hpair
  | cons o offsets ih =>
    cases offsets with
    | nil => exact fun pair hpair => by cases hpair
    | cons o' offsets =>
      obtain ⟨hfirst, hrest⟩ := List.pairwise_cons.1 h
      intro pair hpair
      rw [List.tail_cons, List.zip_cons_cons, List.mem_cons] at hpair
      rcases hpair with rfl | hpair
      · have hle := hfirst o' List.mem_cons_self
        simp only [Function.comp_apply, Prod.map, decide_eq_true_eq]
        omega
      · exact ih hrest pair hpair

/-- The offsets a worker uses are those of the rows. -/
theorem offsets_eq (hsends : SendsOffsets params key width rows) (hwidth : HasWidth width rows)
    (htotal : rows.flatten.length < 2 ^ 63) (hsmall : ∀ w, width = some w → w < 2 ^ 63) :
    BatchCodec.offsets params key rows.length (width.map (Nat.cast : Nat → Int)) =
      .ok (int64Offsets rows) := by
  unfold BatchCodec.offsets
  cases hsends with
  | given h =>
    have hbelow : ∀ o ∈ Ragged.offsetsFrom 0 rows, o < 2 ^ 64 := by
      intro o ho
      have := offset_le_total ho
      omega
    have hlength : (int64Offsets rows).length = rows.length + 1 := by
      rw [int64Offsets, List.length_map, Ragged.length_offsetsFrom]
    have hpositive : ¬ (int64Offsets rows).any (· < 0) = true := by
      rw [int64Offsets, List.any_map, List.any_eq_true]
      rintro ⟨o, -, ho⟩
      simp only [Function.comp_apply, decide_eq_true_eq] at ho
      omega
    have hhead : (int64Offsets rows).head? = some 0 := by
      rw [int64Offsets, List.head?_map, Ragged.head?_offsetsFrom]
      rfl
    have hascends := not_descends_cast (Ragged.pairwise_offsetsFrom 0 rows).1
    rw [h]
    dsimp only
    unfold BatchCodec.givenOffsets
    rw [mapM_asInt hbelow, ← int64Offsets]
    dsimp only
    rw [if_neg]
    · cases width with
      | none => exact asarray_int64Offsets htotal
      | some w =>
        dsimp only [Option.map_some]
        rw [if_neg (not_not.2 (int64Offsets_uniform (hwidth w rfl)))]
        exact asarray_int64Offsets htotal
    · rintro (hcount | hneg | hstart | hdescends)
      · exact hcount hlength
      · exact hpositive hneg
      · exact hstart hhead
      · rw [int64Offsets, hascends] at hdescends
        cases hdescends
  | omitted hsome h =>
    obtain ⟨w, rfl⟩ := Option.isSome_iff_exists.1 hsome
    have hw := hsmall w rfl
    rw [h]
    dsimp only [Option.map_some]
    unfold BatchCodec.arange
    rw [if_neg (by omega), int64Offsets_uniform (hwidth w rfl)]
    refine congrArg Except.ok (List.map_congr_left fun i hi => ?_)
    -- the product is below the length of the column, or it is zero
    have hle : i * w ≤ rows.flatten.length := by
      apply offset_le_total
      rw [Ragged.offsetsFrom_eq_uniform (hwidth w rfl), Ragged.uniform]
      exact List.mem_map_of_mem hi
    have hcast : (i : Int) * (w : Int) = ((i * w : Nat) : Int) := (Int.natCast_mul i w).symm
    rw [hcast]
    exact bmod_small (by omega)

theorem getLast?_int64Offsets : (int64Offsets rows).getLast? = some (rows.flatten.length : Int) := by
  rw [int64Offsets, List.getLast?_map, Ragged.getLast?_offsetsFrom, Nat.zero_add]
  rfl

/-- The rows that were put one after the other are cut out again. -/
theorem rows_eq (hwidth : HasWidth width rows) :
    BatchCodec.rows rows.flatten (int64Offsets rows) (width.map (Nat.cast : Nat → Int)) =
      .ok rows := by
  unfold BatchCodec.rows
  rw [if_neg (not_not.2 getLast?_int64Offsets)]
  cases width with
  | none =>
    have hback : (int64Offsets rows).map Int.toNat = Ragged.offsetsFrom 0 rows := by
      rw [int64Offsets, List.map_map]
      exact (List.map_congr_left fun o _ => Int.toNat_natCast o).trans (List.map_id _)
    dsimp only [Option.map_none]
    rw [hback, Ragged.cut_flatten]
  | some w =>
    have hw := hwidth w rfl
    have hcount : (int64Offsets rows).length - 1 = rows.length := by
      rw [int64Offsets, List.length_map, Ragged.length_offsetsFrom, Nat.add_sub_cancel]
    have htotal : rows.flatten.length = rows.length * w := by
      rw [List.length_flatten, List.eq_replicate_of_mem (l := rows.map List.length) (a := w)
        (by simpa using hw), List.sum_replicate_nat, List.length_map]
    dsimp only [Option.map_some]
    rw [Int.toNat_natCast, hcount, BatchCodec.reshape, if_neg (not_not.2 htotal),
      Ragged.cut_flatten_uniform hw]

end Offsets

/-! ## Decoding -/

/-- Host and worker of one domain, in whose widths no vector is too long. -/
structure Session (json : DomainJson) (d : Utils.Domain) (codec : BatchCodec) : Prop where
  fits : json.Fits
  host : Utils.Domain.accept json = .ok d
  worker : BatchCodec.fromDict json = .ok codec
  depth : ∀ w, d.fixedDiscreteDepth = some w → w < 2 ^ 63
  dims : ∀ w, d.fixedContinuousDims = some w → w < 2 ^ 63

/-- A point of the domain, with finite coordinates. -/
structure ValidPoint (d : Utils.Domain) (point : Point F64) : Prop where
  parts : d.validatePointParts point.discrete point.continuous.length = .ok ()
  int64 : ∀ v ∈ point.discrete, -2 ^ 63 ≤ v ∧ v < 2 ^ 63
  finite : ∀ x ∈ point.continuous, x.isFinite = true

/-- A weight a worker accepts. -/
def usable (w : F64) : Bool := w.isFinite && !w.leZero

section Session

variable {json : DomainJson} {d : Utils.Domain} {codec : BatchCodec} {points : List (Point F64)}

theorem Session.agrees (hs : Session json d codec) : Domain.Agrees d codec.domain ∧
    codec.widths = (d.fixedDiscreteDepth.map (Nat.cast : Nat → Int),
      d.fixedContinuousDims.map (Nat.cast : Nat → Int)) := by
  have hworker := hs.worker
  unfold BatchCodec.fromDict at hworker
  obtain ⟨p, hp, hnew⟩ := bind_eq_ok hworker
  have hagrees := (Domain.domains_agree json hs.fits).2 d p hs.host hp
  unfold BatchCodec.new at hnew
  obtain ⟨-, -, hnew⟩ := bind_eq_ok hnew
  rw [hagrees.widths] at hnew
  cases hnew
  exact ⟨hagrees, rfl⟩

theorem ValidPoint.validatePoint (hs : Session json d codec) {point : Point F64}
    (h : ValidPoint d point) :
    codec.domain.validatePoint point.discrete point.continuous.length = .ok () :=
  (hs.agrees.1.points _ _).2 h.parts

theorem hasWidth_discrete (hvalid : ∀ p ∈ points, ValidPoint d p) :
    HasWidth d.fixedDiscreteDepth (points.map Point.discrete) := by
  intro w hw row hrow
  obtain ⟨p, hp, rfl⟩ := List.mem_map.1 hrow
  exact (widths_of_leafPath d (Domain.validatePointParts_ok.1 (hvalid p hp).parts)).1 w hw

theorem hasWidth_continuous (hvalid : ∀ p ∈ points, ValidPoint d p) :
    HasWidth d.fixedContinuousDims (points.map Point.continuous) := by
  intro w hw row hrow
  obtain ⟨p, hp, rfl⟩ := List.mem_map.1 hrow
  exact (widths_of_leafPath d (Domain.validatePointParts_ok.1 (hvalid p hp).parts)).2 w hw

theorem validateArrays_eq {discreteCardinalities : List Int} {continuousDims strataDims : Int}
    {weights : List F64} (hvalid : ∀ p ∈ points, Domain.validatePoint
      (.rectangular discreteCardinalities continuousDims strataDims) p.discrete
        p.continuous.length = .ok () ∧ ∀ x ∈ p.continuous, x.isFinite = true) :
    BatchCodec.validateArrays discreteCardinalities
      ⟨points.map Point.discrete, points.map Point.continuous, weights⟩ = .ok () := by
  unfold BatchCodec.validateArrays
  rw [if_neg, if_neg]
  · rw [List.any_map, List.any_eq_true]
    rintro ⟨p, hp, hout⟩
    have hpoint := (hvalid p hp).1
    rw [Domain.validatePoint, Domain.ite_error_ok, Domain.ite_error_ok] at hpoint
    exact hpoint.2.1 hout
  · rw [Bool.not_eq_true', Bool.not_eq_false, List.all_map, List.all_eq_true]
    exact fun p hp => List.all_eq_true.2 (hvalid p hp).2

theorem validatePoints_eq {domain : Domain} (hvalid : ∀ p ∈ points,
    domain.validatePoint p.discrete p.continuous.length = .ok () ∧
      ∀ x ∈ p.continuous, x.isFinite = true) :
    BatchCodec.validatePoints domain
      ((points.map Point.discrete).zip (points.map Point.continuous)) = .ok () := by
  induction points with
  | nil => rfl
  | cons p points ih =>
    rw [List.forall_mem_cons] at hvalid
    obtain ⟨⟨hpoint, hfinite⟩, hrest⟩ := hvalid
    rw [List.map_cons, List.map_cons, List.zip_cons_cons, BatchCodec.validatePoints, if_neg]
    · rw [hpoint]
      exact ih hrest
    · rw [Bool.not_eq_true', Bool.not_eq_false]
      exact List.all_eq_true.2 hfinite

/-- Of points of the domain a worker only checks the weights. -/
theorem validate_eq (hs : Session json d codec) (hvalid : ∀ p ∈ points, ValidPoint d p)
    {weights : List F64} (hcount : weights.length = points.length) :
    codec.validate ⟨points.map Point.discrete, points.map Point.continuous, weights⟩ =
      if weights.all usable then .ok () else .error "sampling weights must be finite and positive" := by
  have hbad : (weights.any fun w => !w.isFinite || w.leZero) = !weights.all usable := by
    rw [List.not_all_eq_any_not]
    congr 1
    funext w
    rw [usable, Bool.not_and, Bool.not_not]
  have hpoints : ∀ p ∈ points, codec.domain.validatePoint p.discrete p.continuous.length = .ok () ∧
      ∀ x ∈ p.continuous, x.isFinite = true :=
    fun p hp => ⟨(hvalid p hp).validatePoint hs, (hvalid p hp).finite⟩
  have hcoordinates : BatchCodec.validateCoordinates codec.domain
      ⟨points.map Point.discrete, points.map Point.continuous, weights⟩ = .ok () := by
    unfold BatchCodec.validateCoordinates
    split
    · rename_i discreteCardinalities continuousDims strataDims hdomain
      rw [hdomain] at hpoints
      exact validateArrays_eq hpoints
    · exact validatePoints_eq hpoints
  unfold BatchCodec.validate
  dsimp only
  rw [hbad, hcoordinates, if_neg (c := _ ∨ _)]
  · cases weights.all usable <;> rfl
  · rw [List.length_map, List.length_map, hcount]
    omega

/-- The request and what is beside it hold the batch. -/
structure Request (d : Utils.Domain) (params : Json F64) (batch : Batch) : Prop where
  count : params.get? "nr_samples" = some (jsonUsize batch.weights.length)
  small : batch.weights.length < 2 ^ 63
  discreteCount : batch.xsDiscrete.length = batch.weights.length
  continuousCount : batch.xsContinuous.length = batch.weights.length
  discreteOffsets : SendsOffsets params "xs_discrete_offsets" d.fixedDiscreteDepth batch.xsDiscrete
  continuousOffsets :
    SendsOffsets params "xs_continuous_offsets" d.fixedContinuousDims batch.xsContinuous
  discreteWidth : HasWidth d.fixedDiscreteDepth batch.xsDiscrete
  continuousWidth : HasWidth d.fixedContinuousDims batch.xsContinuous
  discreteTotal : batch.xsDiscrete.flatten.length < 2 ^ 63
  continuousTotal : batch.xsContinuous.flatten.length < 2 ^ 63

theorem Request.sampleCount {params : Json F64} {batch : Batch} (h : Request d params batch) :
    BatchCodec.sampleCount params = .ok batch.weights.length := by
  have hsmall := h.small
  unfold BatchCodec.sampleCount
  rw [h.count]
  dsimp only
  rw [asInt_jsonUsize (by omega)]
  dsimp only
  rw [if_neg (by omega), Int.toNat_natCast]

/-- What is decoded of a request is the batch, when it is valid. -/
theorem decode_eq (hs : Session json d codec) {params : Json F64} {binary : List UInt8}
    {weighted : Bool} {batch : Batch} (h : Request d params batch)
    (hcolumns : BatchCodec.binaryColumns binary batch.xsDiscrete.flatten.length
      batch.xsContinuous.flatten.length batch.weights.length weighted =
        .ok ⟨batch.xsDiscrete.flatten, batch.xsContinuous.flatten, batch.weights⟩) :
    codec.decode params binary weighted = (codec.validate batch).map fun _ => batch := by
  have hdiscrete := offsets_eq h.discreteOffsets h.discreteWidth h.discreteTotal hs.depth
  have hcontinuous := offsets_eq h.continuousOffsets h.continuousWidth h.continuousTotal hs.dims
  rw [h.discreteCount] at hdiscrete
  rw [h.continuousCount] at hcontinuous
  unfold BatchCodec.decode
  rw [h.sampleCount, hs.agrees.2]
  dsimp only [bind, Except.bind]
  rw [hdiscrete, hcontinuous]
  dsimp only
  rw [getLast?_int64Offsets, getLast?_int64Offsets, Option.getD_some, Option.getD_some, hcolumns]
  dsimp only
  rw [rows_eq h.discreteWidth, rows_eq h.continuousWidth]
  cases hvalidate : codec.validate batch with
  | error e =>
    show (codec.validate batch).bind (fun _ => Except.ok batch) = _
    rw [hvalidate]
    rfl
  | ok u =>
    show (codec.validate batch).bind (fun _ => Except.ok batch) = _
    rw [hvalidate]
    rfl

end Session

/-! ## Packed requests -/

section Packed

variable {points : List (Point F64)} {d : Utils.Domain}

/-- A loop over the points appends their words, and the offsets of their rows. -/
theorem packColumn_eq {toLeBytes : α → List UInt8} (hwidth : ∀ a, (toLeBytes a).length = 8)
    (column : Point F64 → List α) (points : List (Point F64)) {start : Nat} {binary : List UInt8}
    {offsets : Option (List Nat)} {k : Nat} (hbinary : binary.length = start + k * 8) :
    packColumn toLeBytes column start points binary offsets =
      (binary ++ (points.map column).flatten.flatMap toLeBytes,
        offsets.map (· ++ (Ragged.offsetsFrom k (points.map column)).tail)) := by
  induction points generalizing binary offsets k with
  | nil =>
    rw [packColumn, List.map_nil, List.flatten_nil, List.flatMap_nil, List.append_nil]
    cases offsets with
    | none => rfl
    | some offsets =>
      rw [Option.map_some, Ragged.offsetsFrom, List.tail_cons, List.append_nil]
  | cons p points ih =>
    have hnext : (binary ++ (column p).flatMap toLeBytes).length =
        start + (k + (column p).length) * 8 := by
      rw [List.length_append, hbinary, length_words hwidth]
      omega
    have hoffset : ((binary ++ (column p).flatMap toLeBytes).length - start) / 8 =
        k + (column p).length := by
      rw [hnext]
      omega
    rw [packColumn, ih hnext, hoffset, List.map_cons, List.flatten_cons, List.flatMap_append,
      List.append_assoc, Ragged.offsetsFrom, List.tail_cons]
    cases offsets with
    | none => rfl
    | some offsets =>
      rw [Option.map_some, Option.map_some, Option.map_some, List.append_assoc]
      cases points with
      | nil => rfl
      | cons p' points => rfl

/-- The offsets that are sent: those of the rows, unless the domain fixes their width. -/
def offsetsSent (width : Option Nat) (rows : List (List α)) : Option (List Nat) :=
  if width.isNone then some (Ragged.offsetsFrom 0 rows) else none

theorem requiredOffsets_map (width : Option Nat) (rows : List (List α)) :
    (requiredOffsets width).map (· ++ (Ragged.offsetsFrom 0 rows).tail) = offsetsSent width rows := by
  cases width with
  | some w => rfl
  | none => cases rows <;> rfl

/-- The columns of points, one after the other. -/
def columnsOf (points : List (Point F64)) (weights : List F64) : Columns :=
  ⟨(points.map Point.discrete).flatten, (points.map Point.continuous).flatten, weights⟩

/-- The packed block is the columns, and the offsets are sent for what the domain does not fix. -/
theorem packEvalInputs_eq (points : List (Point F64)) (d : Utils.Domain) :
    packEvalInputs points d =
      ⟨(columnsOf points []).bytes, offsetsSent d.fixedDiscreteDepth (points.map Point.discrete),
        offsetsSent d.fixedContinuousDims (points.map Point.continuous)⟩ := by
  have hdiscrete : packColumn i64ToLeBytes Point.discrete 0 points []
      (requiredOffsets d.fixedDiscreteDepth) = _ :=
    packColumn_eq (k := 0) length_i64ToLeBytes Point.discrete points rfl
  unfold packEvalInputs
  rw [hdiscrete, List.nil_append, requiredOffsets_map]
  dsimp only
  rw [packColumn_eq (k := 0) length_toLeBytes Point.continuous points (by omega),
    requiredOffsets_map]
  unfold columnsOf Columns.bytes
  rw [List.flatMap_nil, List.append_nil]

theorem packWeights_binary (totalWeight : Point F64 → F64) (points : List (Point F64))
    (inputs : PackedEvalInputs) : (packWeights totalWeight points inputs).binary =
      inputs.binary ++ (points.map totalWeight).flatMap F64.toLeBytes := by
  unfold packWeights
  dsimp only
  generalize inputs.binary = binary
  induction points generalizing binary with
  | nil => rw [List.foldl_nil, List.map_nil, List.flatMap_nil, List.append_nil]
  | cons p points ih =>
    rw [List.foldl_cons, ih, List.map_cons, List.flatMap_cons, List.append_assoc]

theorem get?_setOffsets {key key' : String} {offsets : Option (List Nat)}
    {params : OrdMap String (Json F64)} :
    OrdMap.get key' (setOffsets key offsets params) =
      if key = key' then (offsets.map fun offsets => Json.array (offsets.map jsonUsize)).or
        (OrdMap.get key' params) else OrdMap.get key' params := by
  cases offsets with
  | none =>
    show OrdMap.get key' params = _
    split <;> rfl
  | some offsets =>
    show OrdMap.get key' (OrdMap.insert key _ params) = _
    rw [OrdMap.get_insert]
    rfl

theorem sendsOffsets_of_get? {params : Json F64} {key : String} {width : Option Nat}
    {rows : List (List α)} (h : params.get? key =
      (offsetsSent width rows).map fun offsets => Json.array (offsets.map jsonUsize)) :
    SendsOffsets params key width rows := by
  cases width with
  | none => exact .given h
  | some w => exact .omitted rfl h

/-- Parameters with the offsets of the points are a request for them. -/
theorem sendsOffsets_addRequired {params : OrdMap String (Json F64)} {d : Utils.Domain}
    (hdiscrete : OrdMap.get "xs_discrete_offsets" params = none)
    (hcontinuous : OrdMap.get "xs_continuous_offsets" params = none)
    {inputs : PackedEvalInputs} {discreteRows : List (List Int)} {continuousRows : List (List F64)}
    (hd : inputs.xsDiscreteOffsets = offsetsSent d.fixedDiscreteDepth discreteRows)
    (hc : inputs.xsContinuousOffsets = offsetsSent d.fixedContinuousDims continuousRows) :
    SendsOffsets (.object (addRequiredOffsets params inputs)) "xs_discrete_offsets"
        d.fixedDiscreteDepth discreteRows ∧
      SendsOffsets (.object (addRequiredOffsets params inputs)) "xs_continuous_offsets"
        d.fixedContinuousDims continuousRows := by
  constructor
  · apply sendsOffsets_of_get?
    show OrdMap.get _ (setOffsets _ _ (setOffsets _ _ params)) = _
    rw [get?_setOffsets, if_neg (by decide), get?_setOffsets, if_pos rfl, hdiscrete, Option.or_none,
      hd]
  · apply sendsOffsets_of_get?
    show OrdMap.get _ (setOffsets _ _ (setOffsets _ _ params)) = _
    rw [get?_setOffsets, if_pos rfl, get?_setOffsets, if_neg (by decide), hcontinuous,
      Option.or_none, hc]

theorem get?_addRequired {key : String} {params : OrdMap String (Json F64)}
    {inputs : PackedEvalInputs} (hdiscrete : "xs_discrete_offsets" ≠ key)
    (hcontinuous : "xs_continuous_offsets" ≠ key) :
    Json.get? (.object (addRequiredOffsets params inputs)) key = OrdMap.get key params := by
  show OrdMap.get _ (setOffsets _ _ (setOffsets _ _ params)) = _
  rw [get?_setOffsets, if_neg hcontinuous, get?_setOffsets, if_neg hdiscrete]

end Packed

/-! ## The block -/

section Block

/-- The words between two offsets are read from the block. -/
theorem frombuffer_words {fromLeBytes : List UInt8 → α} {toLeBytes : α → List UInt8}
    (hwidth : ∀ a, (toLeBytes a).length = 8) {values : List α}
    (hread : (chunksExact 8 (values.flatMap toLeBytes)).map fromLeBytes = values)
    (before after : List UInt8) :
    BatchCodec.frombuffer fromLeBytes (before ++ (values.flatMap toLeBytes ++ after)) values.length
      before.length = .ok values := by
  have hwords := length_words hwidth values
  unfold BatchCodec.frombuffer
  rw [if_neg]
  · dsimp only
    rw [if_neg (by omega), Int.toNat_natCast, Int.toNat_natCast, List.drop_left, if_neg,
      List.take_left' hwords, hread]
    rw [List.length_append, hwords]
    omega
  · rw [List.length_append]
    omega

theorem frombuffer_last {fromLeBytes : List UInt8 → α} {toLeBytes : α → List UInt8}
    (hwidth : ∀ a, (toLeBytes a).length = 8) {values : List α}
    (hread : (chunksExact 8 (values.flatMap toLeBytes)).map fromLeBytes = values)
    (before : List UInt8) :
    BatchCodec.frombuffer fromLeBytes (before ++ values.flatMap toLeBytes) values.length
      before.length = .ok values := by
  have h := frombuffer_words hwidth hread before []
  rwa [List.append_nil] at h

/-- The block of columns with their weights is read as these columns. -/
theorem binaryColumns_weighted {c : Columns} (hint : ∀ v ∈ c.discrete, -2 ^ 63 ≤ v ∧ v < 2 ^ 63) :
    BatchCodec.binaryColumns c.bytes c.discrete.length c.continuous.length c.weights.length true =
      .ok c := by
  have hlength := c.length_bytes
  have hd := length_words length_i64ToLeBytes c.discrete
  have hc := length_words length_toLeBytes c.continuous
  have hdiscrete := frombuffer_words length_i64ToLeBytes (read_ints hint) []
    (c.continuous.flatMap F64.toLeBytes ++ c.weights.flatMap F64.toLeBytes)
  have hcontinuous := frombuffer_words length_toLeBytes (read_floats c.continuous)
    (c.discrete.flatMap i64ToLeBytes) (c.weights.flatMap F64.toLeBytes)
  have hweights := frombuffer_last length_toLeBytes (read_floats c.weights)
    (c.discrete.flatMap i64ToLeBytes ++ c.continuous.flatMap F64.toLeBytes)
  rw [List.nil_append, List.length_nil, Nat.cast_zero] at hdiscrete
  rw [hd, Nat.cast_mul, Nat.cast_ofNat] at hcontinuous
  rw [List.append_assoc, List.length_append, hd, hc, ← Nat.add_mul, Nat.cast_mul,
    Nat.cast_add, Nat.cast_ofNat] at hweights
  unfold BatchCodec.binaryColumns
  rw [if_neg]
  · unfold Columns.bytes
    rw [if_pos rfl, hdiscrete]
    show (BatchCodec.frombuffer _ _ _ _ >>= fun _ => _) = _
    rw [hcontinuous]
    show (BatchCodec.frombuffer _ _ _ _ >>= fun _ => _) = _
    rw [hweights]
    rfl
  · rw [hlength, if_pos rfl]
    omega

/-- Without weights the block is read as columns of unit weight. -/
theorem binaryColumns_unweighted {discrete : List Int} {continuous : List F64}
    (hint : ∀ v ∈ discrete, -2 ^ 63 ≤ v ∧ v < 2 ^ 63) (n : Nat) :
    BatchCodec.binaryColumns (Columns.bytes ⟨discrete, continuous, []⟩) discrete.length
      continuous.length n false = .ok ⟨discrete, continuous, BatchCodec.ones n⟩ := by
  have hlength := Columns.length_bytes ⟨discrete, continuous, []⟩
  have hd := length_words length_i64ToLeBytes discrete
  have hdiscrete := frombuffer_words length_i64ToLeBytes (read_ints hint) []
    (continuous.flatMap F64.toLeBytes)
  have hcontinuous := frombuffer_last length_toLeBytes (read_floats continuous)
    (discrete.flatMap i64ToLeBytes)
  rw [List.nil_append, List.length_nil, Nat.cast_zero] at hdiscrete
  rw [hd, Nat.cast_mul, Nat.cast_ofNat] at hcontinuous
  unfold BatchCodec.binaryColumns
  rw [if_neg]
  · unfold Columns.bytes
    dsimp only
    rw [List.flatMap_nil, List.append_nil, hdiscrete]
    show (BatchCodec.frombuffer _ _ _ _ >>= fun _ => _) = _
    rw [hcontinuous]
    rfl
  · rw [hlength, if_neg Bool.false_ne_true]
    dsimp only [List.length_nil]
    omega

end Block

end Gammaboard.ProcessApi
