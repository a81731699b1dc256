import Gammaboard.Sampling.SentDraws

/-!
# The rows of a decoded draw

Decoding does not panic and does not depend on whether uniform offsets are spelled out. The rows
of a column without offsets have the width the domain fixes. Where it fixes none they are empty,
and the batch is accepted all the same.
-/

namespace Gammaboard.Sampling

open Gammaboard.Core Gammaboard.Lib Gammaboard.Utils
open Gammaboard.Runners (Generation)

variable {N R : Type} {domain : Utils.Domain} {maxSamples : Nat} {response : Json N}
  {binary : List UInt8}

/-! ## No panic -/

def NeverPanics {β : Type} (x : Except DecodeFailure β) : Prop :=
  ∀ message, x ≠ .error (.panics message)

theorem neverPanics_ok {β : Type} (b : β) : NeverPanics (.ok b) := fun _ h => by cases h

theorem neverPanics_refuse {β : Type} (message : String) : NeverPanics (refuse message : Except _ β) :=
  fun _ h => by cases h

theorem NeverPanics.bind {β γ : Type} {x : Except DecodeFailure β}
    {f : β → Except DecodeFailure γ} (hx : NeverPanics x) (hf : ∀ b, x = .ok b → NeverPanics (f b)) :
    NeverPanics (x >>= f) := by
  cases x with
  | error e =>
    intro message h
    cases h
    exact hx message rfl
  | ok b => exact hf b rfl

theorem neverPanics_ofReader {β : Type} (read : Except String β) : NeverPanics (ofReader read) := by
  cases read with
  | error e => exact fun _ h => by cases h
  | ok b => exact neverPanics_ok b

theorem neverPanics_parseOffsets {field adapter : String} {valuesLen : Nat} (index previous : Nat)
    {items : List (Json N)} :
    NeverPanics (parseOffsets field adapter valuesLen index previous items) := by
  induction items generalizing index previous with
  | nil => exact neverPanics_ok _
  | cons value items ih =>
    rw [parseOffsets]
    split
    · exact neverPanics_refuse _
    · rename_i offset _
      split
      · exact neverPanics_refuse _
      · split
        · exact neverPanics_refuse _
        · split
          · exact neverPanics_refuse _
          · have hrest := ih (index + 1) offset
            intro message h
            cases hparsed : parseOffsets field adapter valuesLen (index + 1) offset items with
            | error e =>
              rw [hparsed] at h
              cases h
              exact hrest message hparsed
            | ok rest =>
              rw [hparsed] at h
              cases h

theorem neverPanics_offsetsTotalLen {field : String} {n fixedWidth : Nat} :
    NeverPanics (offsetsTotalLen response field n fixedWidth) := by
  unfold offsetsTotalLen
  split
  · split
    · exact neverPanics_ok _
    · exact neverPanics_refuse _
  · exact neverPanics_ok _

theorem neverPanics_parseProcessOffsets {field adapter : String} {n fixedWidth valuesLen : Nat}
    (hn : n + 1 < usizeLimit) (hvalues : valuesLen < usizeMax) :
    NeverPanics (parseProcessOffsets response field n fixedWidth valuesLen adapter) := by
  unfold parseProcessOffsets
  split
  · dsimp only
    split
    · exact neverPanics_refuse _
    · rename_i hlen
      rw [ne_eq, not_not] at hlen
      have htotal : valuesLen = n * fixedWidth := by
        unfold saturatingMul at hlen
        omega
      have hlimit : usizeLimit = usizeMax + 1 := rfl
      rw [fixedOffsets_eq fun index hindex => by
        rw [List.mem_range] at hindex
        have hle : index * fixedWidth ≤ n * fixedWidth := Nat.mul_le_mul_right _ (by omega)
        omega]
      exact neverPanics_ok _
  · split
    · exact neverPanics_refuse _
    · rw [if_neg (by omega)]
      split
      · exact neverPanics_refuse _
      · refine (neverPanics_parseOffsets 0 0).bind fun parsed _ => ?_
        split
        · exact neverPanics_refuse _
        · exact neverPanics_ok _

theorem neverPanics_readColumns {discreteLen continuousLen n : Nat} :
    NeverPanics (readColumns binary discreteLen continuousLen n) := by
  have hchecked : ∀ (index : Nat) (weights : List F64), NeverPanics (checkWeights index weights) := by
    intro index weights
    induction weights generalizing index with
    | nil => exact neverPanics_ok _
    | cons weight weights ih =>
      rw [checkWeights]
      split
      · exact neverPanics_refuse _
      · exact ih (index + 1)
  refine (neverPanics_ofReader _).bind fun _ _ => (neverPanics_ofReader _).bind fun _ _ =>
    (neverPanics_ofReader _).bind fun _ _ => (hchecked _ _).bind fun _ _ => ?_
  split
  · exact neverPanics_refuse _
  · exact neverPanics_ok _

/-- Decoding never panics: the offsets that are used have been checked against the block. -/
theorem neverPanics_decodeGeneration :
    NeverPanics (decodeGeneration domain maxSamples response binary :
      Except DecodeFailure (Generation (LatentBatchPayload F64 R))) := by
  unfold decodeGeneration
  dsimp only
  split
  · exact neverPanics_ok _
  · split
    · exact neverPanics_ok _
    · split
      · unfold decodeBatch
        refine NeverPanics.bind ?_ fun n _ => NeverPanics.bind ?_ fun remaining _ =>
          NeverPanics.bind ?_ fun discreteLen hdiscreteLen => NeverPanics.bind ?_
            fun continuousLen hcontinuousLen => neverPanics_readColumns.bind fun c hc =>
              NeverPanics.bind ?_ fun payload _ => neverPanics_ok _
        · unfold decodeSampleCount
          split
          · exact neverPanics_ok _
          · exact neverPanics_refuse _
        · unfold decodeTrainingRemaining
          split
          · exact neverPanics_ok _
          · exact neverPanics_ok _
          · split
            · exact neverPanics_ok _
            · exact neverPanics_refuse _
        · exact neverPanics_offsetsTotalLen
        · exact neverPanics_offsetsTotalLen
        · obtain ⟨hblock, hfits, -, hdiscrete, hcontinuous, hweights⟩ := readColumns_eq_ok.1 hc
          have hlength := c.length_bytes
          rw [← hblock] at hlength
          have hlimit : usizeLimit = usizeMax + 1 := rfl
          have hwords : 16 ≤ usizeLimit := by decide
          subst hdiscrete hcontinuous hweights
          unfold decodePayload
          dsimp only
          split
          · exact neverPanics_ok _
          · refine (neverPanics_parseProcessOffsets (by omega) (by omega)).bind
              fun discreteOffsets hd => (neverPanics_parseProcessOffsets (by omega)
                (by omega)).bind fun continuousOffsets hco => NeverPanics.bind ?_
                  fun builder _ => neverPanics_ok _
            rw [parseProcessOffsets_eq_ok (by omega) (by omega)] at hd hco
            have hpush := pushRows_eq (s := ⟨c, discreteOffsets, continuousOffsets, none⟩)
              .new (Nat.zero_add _) hd.2 hco.2
            intro message h
            exact absurd (h.symm.trans hpush) (by simp)
      · exact neverPanics_refuse _

/-! ## Widths and uniform offsets -/

/-- The number of discrete coordinates the domain prescribes: its depth, or that of a leaf. -/
def PrescribesDepth (domain : Utils.Domain) (path : List Int) : Prop :=
  match domain.fixedDiscreteDepth with
  | some depth => path.length = depth
  | none => ∃ dims, domain.continuousDimsAtLeafPath path = .ok dims

/-- The number of continuous coordinates the domain prescribes at a path. -/
def PrescribesDims (domain : Utils.Domain) (path : List Int) (width : Nat) : Prop :=
  match domain.fixedContinuousDims with
  | some dims => width = dims
  | none => domain.continuousDimsAtLeafPath path = .ok width

/-- Where the reply gives no offsets, every row has the width the domain prescribes. -/
def PrescribedWidths (domain : Utils.Domain) (response : Json N) (s : Sent) : Prop :=
  (response.get? "xs_discrete_offsets" = none → ∀ row ∈ s.rows, PrescribesDepth domain row.1) ∧
    (response.get? "xs_continuous_offsets" = none →
      ∀ row ∈ s.rows, PrescribesDims domain row.1 row.2.1.length)

/-- The field of one reply is that of the other, or uniform offsets in place of none. -/
def SpellsOut (field : String) (n fixedWidth : Nat) (response response' : Json N) : Prop :=
  response'.get? field = response.get? field ∨
    response.get? field = none ∧ ∃ items, response'.get? field = some (.array items) ∧
      items.map Json.asU64 = (uniformOffsets n fixedWidth).map some

/-- Two replies with the same data, of which the second may give uniform offsets where the first
gives none. -/
structure SameData (domain : Utils.Domain) (response response' : Json N) : Prop where
  rest : ∀ key, key ≠ "xs_discrete_offsets" → key ≠ "xs_continuous_offsets" →
    response'.get? key = response.get? key
  offsets : ∀ n, (response.get? "nr_samples").bind Json.asU64 = some n →
    SpellsOut "xs_discrete_offsets" n (domain.fixedDiscreteDepth.getD 0) response response' ∧
      SpellsOut "xs_continuous_offsets" n (domain.fixedContinuousDims.getD 0) response response'

theorem SpellsOut.offsetsOf {response response' : Json N} {field : String} {n fixedWidth : Nat}
    {offsets : List Nat} (h : SpellsOut field n fixedWidth response response') :
    OffsetsOf response' field n fixedWidth offsets ↔ OffsetsOf response field n fixedWidth offsets := by
  rcases h with h | ⟨hnone, items, hitems, hmap⟩
  · constructor
    · intro hoffsets
      cases hoffsets with
      | given hgiven hitems => exact .given (h.symm.trans hgiven) hitems
      | omitted homitted => exact .omitted (h.symm.trans homitted)
    · intro hoffsets
      cases hoffsets with
      | given hgiven hitems => exact .given (h.trans hgiven) hitems
      | omitted homitted => exact .omitted (h.trans homitted)
  · constructor
    · intro hoffsets
      cases hoffsets with
      | given hgiven hsame =>
        rw [hitems] at hgiven
        cases hgiven
        rw [hmap] at hsame
        rw [← (List.map_injective_iff.2 (Option.some_injective Nat)) hsame]
        exact .omitted hnone
      | omitted homitted =>
        rw [hitems] at homitted
        cases homitted
    · intro hoffsets
      rw [hoffsets.eq_uniform hnone]
      exact .given hitems hmap

theorem SameData.sends {response' : Json N} (h : SameData domain response response') {s : Sent} :
    Sends domain maxSamples response' binary s ↔ Sends domain maxSamples response binary s := by
  have hkind := h.rest "kind" (by decide) (by decide)
  have hcount := h.rest "nr_samples" (by decide) (by decide)
  have htraining := h.rest "training_remaining" (by decide) (by decide)
  constructor
  · intro hs
    have hgiven := hs.count
    rw [hcount] at hgiven
    obtain ⟨hdiscrete, hcontinuous⟩ := h.offsets _ hgiven
    exact ⟨hkind ▸ hs.kind, hgiven, hs.positive, hs.bounded, htraining ▸ hs.training,
      hdiscrete.offsetsOf.1 hs.discreteOffsets, hcontinuous.offsetsOf.1 hs.continuousOffsets,
      hs.discreteRows, hs.continuousRows, hs.valid, hs.block, hs.fits⟩
  · intro hs
    obtain ⟨hdiscrete, hcontinuous⟩ := h.offsets _ hs.count
    exact ⟨hkind ▸ hs.kind, hcount ▸ hs.count, hs.positive, hs.bounded, htraining ▸ hs.training,
      hdiscrete.offsetsOf.2 hs.discreteOffsets, hcontinuous.offsetsOf.2 hs.continuousOffsets,
      hs.discreteRows, hs.continuousRows, hs.valid, hs.block, hs.fits⟩

/-! ## Decoded generations -/

/-- A batch is the rows of a draw the worker has sent: all of the block, with positive and finite
weights and the widths the domain prescribes. The same data with uniform offsets spelled out
decode to the same generation. -/
structure DecodesFaithfully (R : Type) (domain : Utils.Domain) (maxSamples : Nat) (response : Json N)
    (binary : List UInt8) : Prop where
  neverPanics : NeverPanics (decodeGeneration domain maxSamples response binary :
    Except DecodeFailure (Generation (LatentBatchPayload F64 R)))
  batch : ∀ (b : LatentBatch (LatentBatchPayload F64 R)) (trainingRemaining : Option Nat),
    decodeGeneration domain maxSamples response binary = .ok (.batch b trainingRemaining) →
      ∃ s : Sent, Sends domain maxSamples response binary s ∧ b.nrSamples = s.nrSamples ∧
        trainingRemaining = s.trainingRemaining ∧
        b.payload.asBatch = .ok (s.rows.map rowPoint) ∧ PrescribedWidths domain response s
  noBatch : ∀ g : Generation (LatentBatchPayload F64 R), g = .waiting ∨ g = .finished →
    decodeGeneration domain maxSamples response binary = .ok g → binary = []
  sameData : ∀ response', SameData domain response response' →
    ∀ g : Generation (LatentBatchPayload F64 R),
      decodeGeneration domain maxSamples response' binary = .ok g ↔
        decodeGeneration domain maxSamples response binary = .ok g

/-- A draw sent without the offsets of a column has its width fixed by the domain, or the paths of
its rows lead to leaves without continuous coordinates. -/
def WidthsFixed (domain : Utils.Domain) (maxSamples : Nat) (response : Json N)
    (binary : List UInt8) : Prop :=
  ∀ s, Sends domain maxSamples response binary s →
    (response.get? "xs_discrete_offsets" = none → domain.fixedDiscreteDepth.isSome) ∧
      (response.get? "xs_continuous_offsets" = none → domain.fixedContinuousDims.isSome ∨
        ∀ row ∈ s.rows, domain.continuousDimsAtLeafPath row.1 = .ok 0)

theorem length_part_uniform {α : Type} {values : List α} {n width index : Nat}
    (h : Delimits (uniformOffsets n width) n values.length) (hindex : index < n) :
    (Sent.part values (uniformOffsets n width) index).length = width := by
  have htotal := h.total_of_uniform
  have hle : (index + 1) * width ≤ n * width := Nat.mul_le_mul_right _ hindex
  rw [Nat.succ_mul] at hle
  rw [part_uniformOffsets hindex, List.length_take, List.length_drop]
  omega

theorem Sent.mem_rows {s : Sent} {row : List Int × List F64 × F64} (h : row ∈ s.rows) :
    ∃ index < s.nrSamples, row.1 = Sent.part s.columns.discrete s.discreteOffsets index ∧
      row.2.1 = Sent.part s.columns.continuous s.continuousOffsets index := by
  obtain ⟨index, hindex, rfl⟩ := List.mem_mapIdx.1 h
  exact ⟨index, hindex, rfl, rfl⟩

/-- Without its offsets a row has the fixed width, or none. -/
theorem Sends.width {s : Sent} (hs : Sends domain maxSamples response binary s)
    {row : List Int × List F64 × F64} (hrow : row ∈ s.rows) :
    (response.get? "xs_discrete_offsets" = none →
      row.1.length = domain.fixedDiscreteDepth.getD 0) ∧
    (response.get? "xs_continuous_offsets" = none →
      row.2.1.length = domain.fixedContinuousDims.getD 0) := by
  obtain ⟨index, hindex, hdiscrete, hcontinuous⟩ := Sent.mem_rows hrow
  constructor
  · intro hnone
    have huniform := hs.discreteOffsets.eq_uniform hnone
    have hdelimits := hs.discreteRows
    rw [huniform] at hdelimits
    rw [hdiscrete, huniform, length_part_uniform hdelimits hindex]
  · intro hnone
    have huniform := hs.continuousOffsets.eq_uniform hnone
    have hdelimits := hs.continuousRows
    rw [huniform] at hdelimits
    rw [hcontinuous, huniform, length_part_uniform hdelimits hindex]

/-- A domain without a fixed depth has no leaf at the empty path. -/
theorem continuousDimsAtLeafPath_nil (h : domain.fixedDiscreteDepth = none) (dims : Nat) :
    domain.continuousDimsAtLeafPath [] ≠ .ok dims := by
  cases domain with
  | rectangular strataDims discreteCardinalities continuousDims =>
    rw [Utils.Domain.fixedDiscreteDepth] at h
    cases h
  | discrete axisLabel axisRole branches =>
    rw [Utils.Domain.continuousDimsAtLeafPath]
    exact fun h => by cases h

theorem Sends.prescribedWidths {s : Sent} (hs : Sends domain maxSamples response binary s) :
    PrescribedWidths domain response s ↔
      (response.get? "xs_discrete_offsets" = none → domain.fixedDiscreteDepth.isSome) ∧
        (response.get? "xs_continuous_offsets" = none → domain.fixedContinuousDims.isSome ∨
          ∀ row ∈ s.rows, domain.continuousDimsAtLeafPath row.1 = .ok 0) := by
  unfold PrescribedWidths PrescribesDepth PrescribesDims
  refine and_congr (imp_congr_right fun hnone => ?_) (imp_congr_right fun hnone => ?_)
  · cases hdepth : domain.fixedDiscreteDepth with
    | some depth =>
      refine ⟨fun _ => rfl, fun _ row hrow => ?_⟩
      have hwidth := (hs.width hrow).1 hnone
      rwa [hdepth, Option.getD_some] at hwidth
    | none =>
      have hpositive := hs.positive
      obtain ⟨row, hrow⟩ : ∃ row, row ∈ s.rows :=
        List.exists_mem_of_length_pos (by rwa [Sent.length_rows])
      refine ⟨fun h => ?_, fun h => by cases h⟩
      obtain ⟨dims, hdims⟩ := h _ hrow
      have hwidth := (hs.width hrow).1 hnone
      rw [hdepth, Option.getD_none] at hwidth
      rw [List.eq_nil_of_length_eq_zero hwidth] at hdims
      exact absurd hdims (continuousDimsAtLeafPath_nil hdepth dims)
  · cases hdims : domain.fixedContinuousDims with
    | some dims =>
      refine ⟨fun _ => .inl rfl, fun _ row hrow => ?_⟩
      have hwidth := (hs.width hrow).2 hnone
      rwa [hdims, Option.getD_some] at hwidth
    | none =>
      dsimp only
      have hempty : ∀ row ∈ s.rows, row.2.1.length = 0 := by
        intro row hrow
        have hwidth := (hs.width hrow).2 hnone
        rwa [hdims, Option.getD_none] at hwidth
      constructor
      · intro h
        refine .inr fun row hrow => ?_
        rw [h row hrow, hempty row hrow]
      · rintro (h | h) row hrow
        · cases h
        · rw [hempty row hrow]
          exact h row hrow

/-- A generation that is a batch has been sent. -/
theorem decodeGeneration_batch {b : LatentBatch (LatentBatchPayload F64 R)}
    {trainingRemaining : Option Nat} :
    decodeGeneration domain maxSamples response binary = .ok (.batch b trainingRemaining) ↔
      ∃ s : Sent, Sends domain maxSamples response binary s ∧ b = s.batch ∧
        trainingRemaining = s.trainingRemaining := by
  unfold decodeGeneration
  dsimp only
  constructor
  · intro h
    split at h
    · cases h
    · split at h
      · cases h
      · split at h
        · rename_i hkind
          obtain ⟨s, hs, heq⟩ := (decodeBatch_eq_ok hkind).1 h
          cases heq
          exact ⟨s, hs, rfl, rfl⟩
        · cases h
  · rintro ⟨s, hs, rfl, rfl⟩
    have hkind := hs.kind
    rw [if_neg fun h => by rw [hkind] at h; simp at h, if_neg fun h => by rw [hkind] at h; simp at h,
      if_pos hkind]
    exact (decodeBatch_eq_ok hkind).2 ⟨s, hs, rfl⟩

/-- What is no batch is what the reply says, with an empty block. -/
theorem decodeGeneration_noBatch {g : Generation (LatentBatchPayload F64 R)}
    (hg : g = .waiting ∨ g = .finished) :
    decodeGeneration domain maxSamples response binary = .ok g ↔
      (g = .waiting ∧ (response.get? "kind").bind Json.asStr = some "waiting" ∨
        g = .finished ∧ (response.get? "kind").bind Json.asStr = some "finished") ∧
          binary = [] := by
  unfold decodeGeneration
  dsimp only
  split
  · rename_i hwaiting
    constructor
    · intro h
      cases h
      exact ⟨.inl ⟨rfl, hwaiting.1⟩, hwaiting.2⟩
    · rintro ⟨⟨rfl, -⟩ | ⟨rfl, hkind⟩, -⟩
      · rfl
      · rw [hwaiting.1] at hkind
        simp at hkind
  · rename_i hwaiting
    split
    · rename_i hfinished
      constructor
      · intro h
        cases h
        exact ⟨.inr ⟨rfl, hfinished.1⟩, hfinished.2⟩
      · rintro ⟨⟨rfl, hkind⟩ | ⟨rfl, -⟩, -⟩
        · rw [hfinished.1] at hkind
          simp at hkind
        · rfl
    · rename_i hfinished
      have hneither : ¬((g = .waiting ∧ (response.get? "kind").bind Json.asStr = some "waiting" ∨
          g = .finished ∧ (response.get? "kind").bind Json.asStr = some "finished") ∧
            binary = []) := by
        rintro ⟨⟨-, hkind⟩ | ⟨-, hkind⟩, hempty⟩
        · exact hwaiting ⟨hkind, hempty⟩
        · exact hfinished ⟨hkind, hempty⟩
      refine ⟨fun h => ?_, fun h => absurd h hneither⟩
      split at h
      · rename_i hkind
        obtain ⟨s, -, rfl⟩ := (decodeBatch_eq_ok hkind).1 h
        rcases hg with hg | hg <;> cases hg
      · cases h

/-- Spelling uniform offsets out changes no generation. -/
theorem SameData.decodeGeneration {response' : Json N} (h : SameData domain response response')
    (g : Generation (LatentBatchPayload F64 R)) :
    decodeGeneration domain maxSamples response' binary = .ok g ↔
      decodeGeneration domain maxSamples response binary = .ok g := by
  have hkind := h.rest "kind" (by decide) (by decide)
  cases g with
  | batch b trainingRemaining =>
    rw [decodeGeneration_batch, decodeGeneration_batch]
    exact exists_congr fun s => and_congr_left' h.sends
  | waiting => rw [decodeGeneration_noBatch (.inl rfl), decodeGeneration_noBatch (.inl rfl), hkind]
  | finished => rw [decodeGeneration_noBatch (.inr rfl), decodeGeneration_noBatch (.inr rfl), hkind]

/-- Decoding is faithful exactly when no row lacks coordinates: it never panics, and a batch is the
rows that were sent, all of the block, the same with and without uniform offsets; but where a
column comes without offsets and the domain fixes no width, empty rows are accepted. -/
theorem process_batch_decoding (domain : Utils.Domain) (maxSamples : Nat) (response : Json N)
    (binary : List UInt8) :
    DecodesFaithfully R domain maxSamples response binary ↔
      WidthsFixed domain maxSamples response binary := by
  constructor
  · intro h s hs
    obtain ⟨s', hs', -, -, hread, hwidths⟩ := h.batch s.batch s.trainingRemaining
      (decodeGeneration_batch.2 ⟨s, hs, rfl, rfl⟩)
    obtain ⟨hdiscrete, hcontinuous⟩ := hs'.prescribedWidths.1 hwidths
    refine ⟨hdiscrete, fun hnone => (hcontinuous hnone).imp_right fun hleaves row hrow => ?_⟩
    have hread' : (s.batch : LatentBatch (LatentBatchPayload F64 R)).payload.asBatch =
        .ok (s.rows.map rowPoint) := IndexedBatchBuilder.asBatch_pushAll s.rows
    have hpoints : s.rows.map rowPoint = s'.rows.map rowPoint :=
      Except.ok.inj (hread'.symm.trans hread)
    have hmem : rowPoint row ∈ s'.rows.map rowPoint := hpoints ▸ List.mem_map_of_mem hrow
    obtain ⟨row', hrow', heq⟩ := List.mem_map.1 hmem
    have hpath : row'.1 = row.1 := congrArg Point.discrete heq
    rw [← hpath]
    exact hleaves row' hrow'
  · intro h
    refine ⟨neverPanics_decodeGeneration, fun b trainingRemaining hdecoded => ?_,
      fun g hg hdecoded => ((decodeGeneration_noBatch hg).1 hdecoded).2,
      fun response' hsame g => hsame.decodeGeneration g⟩
    obtain ⟨s, hs, rfl, rfl⟩ := decodeGeneration_batch.1 hdecoded
    exact ⟨s, hs, rfl, rfl, IndexedBatchBuilder.asBatch_pushAll s.rows,
      hs.prescribedWidths.2 (h s hs)⟩

/-- A domain with one continuous coordinate on its first branch and two on its second. -/
def branchedDomain : Utils.Domain :=
  .discrete none .integrand [(0, .continuous 1), (1, .continuous 2)]

/-- A sample without continuous coordinates, sent without offsets. -/
def flatReply : Json Nat :=
  .object [("kind", .string "batch"), ("nr_samples", .number (.posInt 1))]

/-- Branch 0 and the weight 1.0. -/
def flatSample : Columns := ⟨[0], [], [⟨0x3FF0000000000000⟩]⟩

theorem sends_flatSample :
    Sends branchedDomain 1 flatReply flatSample.bytes ⟨flatSample, [0, 1], [0, 0], none⟩ where
  kind := by decide
  count := by decide
  positive := by decide
  bounded := by decide
  training := .inl ⟨rfl, .inl rfl⟩
  discreteOffsets := .omitted rfl
  continuousOffsets := .omitted rfl
  discreteRows := ⟨rfl, rfl, by decide, rfl⟩
  continuousRows := ⟨rfl, rfl, by decide, rfl⟩
  valid := ⟨by decide, by decide⟩
  block := rfl
  fits := by decide

/-- The sample is accepted without the coordinate its branch has. -/
theorem ragged_rows_lose_coordinates :
    ¬DecodesFaithfully Nat branchedDomain 1 flatReply flatSample.bytes := by
  intro h
  obtain ⟨s, hs, -, -, hread, hwidths⟩ := h.batch _ _
    (decodeGeneration_batch.2 ⟨_, sends_flatSample, rfl, rfl⟩)
  have hsent := IndexedBatchBuilder.asBatch_pushAll (R := Nat)
    (Sent.rows ⟨flatSample, [0, 1], [0, 0], none⟩)
  have hpoints := Except.ok.inj (hread.symm.trans hsent)
  obtain ⟨row, hrow, heq⟩ : ∃ row ∈ s.rows, rowPoint row = Point.new [] [0] ⟨0x3FF0000000000000⟩ :=
    List.mem_map.1 (hpoints ▸ List.mem_singleton_self _)
  have hpath : row.1 = [0] := congrArg Point.discrete heq
  rcases (hs.prescribedWidths.1 hwidths).2 rfl with hfixed | hleaves
  · cases hfixed
  · have hleaf := hleaves row hrow
    rw [hpath] at hleaf
    cases hleaf

end Gammaboard.Sampling
