import Gammaboard.Sampling.Raster
import Mathlib.Data.List.Nodup

/-!
# Feedback of a raster sampler

What one feedback changes when no product overflows: the values are recorded in
the order of the raster from the counter on, the counter moves on by their
number, and nothing else of the order changes. It fails only when its source
does or when it does not fit.
-/

namespace Gammaboard.Sampling

open Gammaboard.Core Gammaboard.Lib

variable {F σ : Type} [Zero F] [Add F] [LT F] [DecidableLT F] {setting : RasterSetting F σ}
  {finite : F → Bool} {sampler : PdfRasterSampler F σ} {stride : Nat}

/-- The source answers every request with densities. -/
def DensitySource.Answers (source : DensitySource F σ) (finite : F → Bool) : Prop :=
  ∀ s points, ∃ values next, source.pdfBatch s points = .ok (values, next) ∧
    values.length = points.length ∧ values.any (fun p => p.any fun v => !finite v || decide (v < 0)) = false

/-- Feedback for samples that are left, with the strata of the source. -/
def RasterSetting.Fits (setting : RasterSetting F σ) (finite : F → Bool) (ingested : Nat)
    (feedback : Feedback F) : Prop :=
  ingested + feedback.len ≤ setting.total ∧ ∀ prefixes ∈ setting.prefixes,
    feedback.validate finite = .ok () ∧ ∃ assignments ∈ feedback.strata,
      assignments.prefixes = prefixes ∧ assignments.requested.any (· != 0) = false

/-! ## One feedback -/

/-- No product of an index and the stride overflows. -/
def RasterSetting.ProductsFit (setting : RasterSetting F σ) (stride : Nat) : Prop :=
  (setting.total - 1) * stride < 2 ^ 64

theorem canonicalIndices_eq {total start count : Nat} (hfits : (total - 1) * stride < 2 ^ 64)
    (hle : start + count ≤ total) : canonicalIndices start count total stride =
      .ok ((List.range count).map fun k => rasterIndex total stride (start + k)) := by
  unfold canonicalIndices
  have hmap : ∀ {l : List Nat}, (∀ k ∈ l, start + k < total) →
      l.mapM (fun offset => permutedRasterIndex (start + offset) total stride) =
        .ok (l.map fun k => rasterIndex total stride (start + k)) := by
    intro l
    induction l with
    | nil => exact fun _ => rfl
    | cons k l ih =>
      intro hl
      rw [List.mapM_cons, permutedRasterIndex_eq (hl k List.mem_cons_self) hfits,
        ih fun k hk => hl k (List.mem_cons_of_mem _ hk)]
      rfl
  exact hmap fun k hk => by have := List.mem_range.1 hk; omega

/-- What a feedback changes: the values are recorded in the order of the raster. -/
structure Recorded (setting : RasterSetting F σ) (finite : F → Bool)
    (sampler next : PdfRasterSampler F σ) (values : List F) : Prop where
  room : sampler.ingestedSamples + values.length ≤ setting.total
  nextIndex : next.nextIndex = sampler.nextIndex
  stride : next.stride = sampler.stride
  ingestedSamples : next.ingestedSamples = sampler.ingestedSamples + values.length
  prefixes : next.outputState.strata.map (·.prefixes) = sampler.outputState.strata.map (·.prefixes)
  integrandValues : next.outputState.integrandValues =
    writeAll sampler.outputState.integrandValues
      ((((List.range values.length).map fun k =>
        rasterIndex setting.total sampler.stride (sampler.ingestedSamples + k)).zip values).map
          fun e => (e.1, recorded finite e.2))

theorem liftEngine_cases {α : Type} (x : Except EngineError α) :
    (∃ e, liftEngine x = .error (.engine e) ∧ ∀ a, x ≠ .ok a) ∨
      ∃ a, x = .ok a ∧ liftEngine x = .ok a := by
  cases x with
  | error e => exact .inl ⟨e, rfl, fun a h => by cases h⟩
  | ok a => exact .inr ⟨a, rfl, rfl⟩

omit [Add F] in
variable (setting finite sampler) in
/-- The recording keeps the counters and the strata, and fails only with its source. -/
theorem recordValues_spec (indices : List Nat) (values : List F) :
    (∃ e, setting.recordPdfAdaptationValues finite sampler indices values = .error (.engine e) ∧
      ¬ setting.source.Answers finite) ∨
    ∃ output source, setting.recordPdfAdaptationValues finite sampler indices values =
        .ok { sampler with outputState := output, sourceSampler := source } ∧
      output.strata = sampler.outputState.strata ∧
      output.integrandValues = writeAll sampler.outputState.integrandValues
        ((indices.zip values).map fun e => (e.1, recorded finite e.2)) := by
  unfold RasterSetting.recordPdfAdaptationValues
  dsimp only
  generalize hrequest : List.map (fun e => (setting.geometry.discrete, setting.geometry.pointAt e.1))
    (List.filter (fun e => finite e.2) (indices.zip values)) = request
  have hlength : request.length =
      (List.filter (fun e : Nat × F => finite e.2) (indices.zip values)).length := by
    rw [← hrequest, List.length_map]
  rcases liftEngine_cases (setting.source.pdfBatch sampler.sourceSampler request) with
    ⟨e, herror, hno⟩ | ⟨answer, hok, hlift⟩
  · rw [herror]
    refine .inl ⟨e, rfl, fun hanswers => ?_⟩
    obtain ⟨answered, next, hanswer, -⟩ := hanswers sampler.sourceSampler request
    exact hno _ hanswer
  · rw [hlift]
    show (∃ e, (if answer.1.length ≠ _ then _ else _) = _ ∧ _) ∨
      ∃ output source, (if answer.1.length ≠ _ then _ else _) = _ ∧ _
    by_cases hsize : answer.1.length ≠
        (List.filter (fun e : Nat × F => finite e.2) (indices.zip values)).length
    · rw [if_pos hsize]
      refine .inl ⟨_, rfl, fun hanswers => hsize ?_⟩
      obtain ⟨answered, next, hanswer, hanswered, -⟩ := hanswers sampler.sourceSampler request
      rw [hok, Except.ok.injEq] at hanswer
      rw [hanswer, hanswered, hlength]
    · rw [if_neg hsize]
      exact .inr ⟨_, _, rfl, rfl, rfl⟩

omit [Add F] in
variable (finite) in
theorem ingest_spec (hfits : setting.ProductsFit sampler.stride) (values : List F) :
    (∃ e, setting.ingestPdfAdaptationValues finite sampler values = .error (.engine e) ∧
      ¬ (setting.source.Answers finite ∧ sampler.ingestedSamples + values.length ≤ setting.total)) ∨
    ∃ next, setting.ingestPdfAdaptationValues finite sampler values = .ok next ∧
      Recorded setting finite sampler next values := by
  unfold RasterSetting.ingestPdfAdaptationValues
  by_cases hroom : setting.total < sampler.ingestedSamples + values.length
  · rw [if_pos hroom]
    exact .inl ⟨_, rfl, fun h => by omega⟩
  · rw [if_neg hroom, canonicalIndices_eq hfits (not_lt.1 hroom)]
    rcases recordValues_spec setting finite sampler
      ((List.range values.length).map fun k =>
        rasterIndex setting.total sampler.stride (sampler.ingestedSamples + k)) values with
      ⟨e, herror, hno⟩ | ⟨output, source, hok, hstrata, hvalues⟩
    · refine .inl ⟨e, ?_, fun h => hno h.1⟩
      show Except.bind (setting.recordPdfAdaptationValues finite sampler _ values) _ = _
      rw [herror]
      rfl
    · refine .inr ⟨{ sampler with
        ingestedSamples := sampler.ingestedSamples + values.length
        outputState := output
        sourceSampler := source }, ?_, ⟨not_lt.1 hroom, rfl, rfl, rfl, ?_, hvalues⟩⟩
      · show Except.bind (setting.recordPdfAdaptationValues finite sampler _ values) _ = _
        rw [hok]
        rfl
      · exact congrArg (Option.map (·.prefixes)) hstrata

omit [Add F] in
variable (setting finite) in
/-- The strata of the feedback are recorded, or the source fails. -/
theorem recordStratum_cases (indices : List Nat) (state : List (List (Option F)) × σ)
    (stratum : List Int × Nat) :
    (∃ e, setting.recordStratum finite indices state stratum = .error (.engine e) ∧
      ¬ setting.source.Answers finite) ∨
    ∃ next, setting.recordStratum finite indices state stratum = .ok next := by
  unfold RasterSetting.recordStratum
  generalize hrequest : List.map
    (fun i => (stratum.1 ++ setting.geometry.discrete, setting.geometry.pointAt i)) indices = request
  have hlength : request.length = indices.length := by rw [← hrequest, List.length_map]
  rcases liftEngine_cases (setting.source.pdfBatch state.2 request) with
    ⟨e, herror, hno⟩ | ⟨answer, hok, hlift⟩
  · rw [herror]
    refine .inl ⟨e, rfl, fun hanswers => ?_⟩
    obtain ⟨answered, next, hanswer, -⟩ := hanswers state.2 request
    exact hno _ hanswer
  · rw [hlift]
    show (∃ e, (if answer.1.length ≠ _ ∨ _ then _ else _) = _ ∧ _) ∨
      ∃ next, (if answer.1.length ≠ _ ∨ _ then _ else _) = _
    split
    · rename_i hbad
      refine .inl ⟨_, rfl, fun hanswers => ?_⟩
      obtain ⟨answered, next, hanswer, hanswered, hdensities⟩ := hanswers state.2 request
      rw [hok, Except.ok.injEq] at hanswer
      rw [hanswer, hanswered, hlength, hdensities] at hbad
      simp at hbad
    · exact .inr ⟨_, rfl⟩

omit [Add F] in
variable (setting finite) in
theorem recordStrata_fold (indices : List Nat) :
    ∀ (strata : List (List Int × Nat)) (state : List (List (Option F)) × σ),
      (∃ e, strata.foldlM (setting.recordStratum finite indices) state = .error (.engine e) ∧
        ¬ setting.source.Answers finite) ∨
      ∃ next, strata.foldlM (setting.recordStratum finite indices) state = .ok next
  | [], state => .inr ⟨state, rfl⟩
  | stratum :: strata, state => by
    rw [List.foldlM_cons]
    rcases recordStratum_cases setting finite indices state stratum with
      ⟨e, herror, hno⟩ | ⟨next, hok⟩
    · rw [herror]
      exact .inl ⟨e, rfl, hno⟩
    · rw [hok]
      exact recordStrata_fold indices strata next

omit [Zero F] [Add F] [LT F] [DecidableLT F] in
/-- Valid feedback has finite values, each with the stratum it belongs to. -/
theorem entries_eq {feedback : Feedback F} {assignments : StratumAssignments} {indices : List Nat}
    (hvalid : feedback.validate finite = .ok ()) (hstrata : feedback.strata = some assignments) :
    ((indices.zip feedback.unmaskedValues).zip assignments.actual).map
        (fun e => (e.1.1, some e.1.2)) =
      (indices.zip feedback.unmaskedValues).map fun e => (e.1, recorded finite e.2) := by
  unfold Feedback.validate at hvalid
  split at hvalid
  · cases hvalid
  · rename_i hfinite
    split at hvalid
    · cases hvalid
    · rename_i hbad
      rw [hstrata, Option.any_some] at hbad
      unfold Feedback.badStrata at hbad
      simp only [Bool.or_eq_true, not_or, bne_iff_ne, ne_eq, not_not] at hbad
      have hactual : (indices.zip feedback.unmaskedValues).length ≤ assignments.actual.length := by
        rw [List.length_zip, hbad.1.2]
        exact min_le_right _ _
      have hfst := List.map_fst_zip hactual
      have hsplit : ((indices.zip feedback.unmaskedValues).zip assignments.actual).map
          (fun e => (e.1.1, some e.1.2)) =
            (((indices.zip feedback.unmaskedValues).zip assignments.actual).map Prod.fst).map
              fun e => (e.1, some e.2) := by
        rw [List.map_map]
        rfl
      rw [hsplit, hfst]
      refine List.map_congr_left fun e he => ?_
      have hmem := (List.of_mem_zip he).2
      have hvalue : finite e.2 = true := by
        by_contra hnot
        refine hfinite (List.any_eq_true.2 ⟨e.2, hmem, ?_⟩)
        simpa using hnot
      unfold recorded
      rw [if_pos hvalue]

theorem recordStrata_spec {strata : PdfStrataOutput F} {feedback : Feedback F}
    (hfits : setting.ProductsFit sampler.stride) (hstrata : sampler.outputState.strata = some strata)
    (hvalid : feedback.validate finite = .ok ()) :
    (∃ e, setting.recordStrata finite sampler strata feedback = .error (.engine e) ∧
      ¬ (setting.source.Answers finite ∧ sampler.ingestedSamples + feedback.len ≤ setting.total ∧
        ∃ assignments ∈ feedback.strata, assignments.prefixes = strata.prefixes ∧
          assignments.requested.any (· != 0) = false)) ∨
    ∃ next, setting.recordStrata finite sampler strata feedback = .ok next ∧
      Recorded setting finite sampler next feedback.unmaskedValues := by
  unfold RasterSetting.recordStrata
  cases hassigned : feedback.strata with
  | none =>
    refine .inl ⟨_, rfl, ?_⟩
    rintro ⟨-, -, assignments, hmem, -⟩
    cases hmem
  | some assignments =>
    dsimp only
    by_cases hlayout : assignments.prefixes ≠ strata.prefixes ∨
        assignments.requested.any (· != 0) ∨
          setting.total < sampler.ingestedSamples + feedback.len
    · rw [if_pos hlayout]
      refine .inl ⟨_, rfl, ?_⟩
      rintro ⟨-, hroom, other, ⟨⟩, hprefixes, hrequested⟩
      rcases hlayout with hne | hany | hlt
      · exact hne hprefixes
      · rw [hrequested] at hany
        cases hany
      · omega
    · rw [if_neg hlayout]
      rw [not_or, not_or, not_lt] at hlayout
      rw [canonicalIndices_eq hfits hlayout.2.2]
      rcases recordStrata_fold setting finite ((List.range feedback.len).map fun k =>
          rasterIndex setting.total sampler.stride (sampler.ingestedSamples + k))
          strata.prefixes.zipIdx (strata.pdfValues, sampler.sourceSampler) with
        ⟨e, herror, hno⟩ | ⟨state, hok⟩
      · refine .inl ⟨e, ?_, fun h => hno h.1⟩
        show Except.bind (List.foldlM _ _ _) _ = _
        rw [herror]
        rfl
      · let indices := (List.range feedback.len).map fun k =>
          rasterIndex setting.total sampler.stride (sampler.ingestedSamples + k)
        let entries := (indices.zip feedback.unmaskedValues).zip assignments.actual
        refine .inr ⟨{ sampler with
          ingestedSamples := sampler.ingestedSamples + feedback.len
          outputState :=
            { integrandValues := writeAll sampler.outputState.integrandValues
                (entries.map fun e => (e.1.1, some e.1.2))
              pdfValues := writeAll sampler.outputState.pdfValues
                (entries.map fun e => (e.1.1, RasterSetting.densityAt state.1 e.1.1))
              strata := some { strata with
                pdfValues := state.1
                actualStrata := writeAll strata.actualStrata
                  (entries.map fun e => (e.1.1, some e.2)) } }
          sourceSampler := state.2 }, ?_, ⟨hlayout.2.2, rfl, rfl, rfl, ?_, ?_⟩⟩
        · show Except.bind (List.foldlM _ _ _) _ = _
          rw [hok]
          rfl
        · rw [hstrata]
          rfl
        · exact congrArg (writeAll _) (entries_eq hvalid hassigned)

variable (finite) in
theorem feedback_spec (feedback : Feedback F) (hfits : setting.ProductsFit sampler.stride)
    (hprefixes : sampler.outputState.strata.map (·.prefixes) = setting.prefixes) :
    (∃ e, setting.feedback finite sampler feedback = .error (.engine e) ∧
      ¬ (setting.source.Answers finite ∧ setting.Fits finite sampler.ingestedSamples feedback)) ∨
    ∃ next, setting.feedback finite sampler feedback = .ok next ∧
      Recorded setting finite sampler next feedback.unmaskedValues := by
  unfold RasterSetting.feedback
  cases hstrata : sampler.outputState.strata with
  | none =>
    rcases ingest_spec finite hfits feedback.unmaskedValues with
      ⟨e, herror, hno⟩ | hok
    · exact .inl ⟨e, herror, fun h => hno ⟨h.1, h.2.1⟩⟩
    · exact .inr hok
  | some strata =>
    rw [hstrata, Option.map_some] at hprefixes
    dsimp only
    rcases liftEngine_cases (feedback.validate finite) with ⟨e, herror, hno⟩ | ⟨_, hvalid, hlift⟩
    · rw [herror]
      exact .inl ⟨e, rfl, fun h => hno () (h.2.2 strata.prefixes hprefixes.symm).1⟩
    · rw [hlift]
      rcases recordStrata_spec hfits hstrata hvalid with ⟨e, herror, hno⟩ | hok
      · refine .inl ⟨e, herror, fun h => hno ⟨h.1, h.2.1, ?_⟩⟩
        exact (h.2.2 strata.prefixes hprefixes.symm).2
      · exact .inr hok

end Gammaboard.Sampling
