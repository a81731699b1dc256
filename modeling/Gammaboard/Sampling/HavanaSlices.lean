import Gammaboard.Sampling.GeneratedDraws
import Mathlib.Algebra.BigOperators.Group.List.Basic

/-!
# Slices of a Havana stream

`HavanaInferenceSampler` of `sampler_aggregator/havana.rs` draws from a fixed grid and keeps every
`RNG_CHECKPOINT_STRIDE`-th state of its generator in place of the points. However its batches are
cut, stored and cut again, a slice replays the samples it stands for, and slices in order replay
the stream.
-/

namespace Gammaboard.Sampling

open Gammaboard.Core

/-- The stored form `W` of a generator; what is stored is read back. -/
structure RngCodec (R W : Type) where
  encode : R → W
  decode : W → Option R
  decode_encode : ∀ rng, decode (encode rng) = some rng

variable {F R W : Type}

/-! ## The sampler -/

structure HavanaInferenceSampler (R : Type) where
  batchesProduced : Nat
  samplesProduced : Nat
  rng : R
  deriving DecidableEq, Repr

namespace HavanaInferenceSampler

def generate (sample : R → R × Except String (Point F)) (maxSamples : Nat)
    (s : HavanaInferenceSampler R) :
    HavanaInferenceSampler R × Except EngineError (LatentBatch (LatentBatchPayload F R)) :=
  if maxSamples = 0 then (s, .error (.invalidInput "max_samples must be positive"))
  else
    ({ batchesProduced := s.batchesProduced + 1
       samplesProduced := s.samplesProduced + maxSamples
       rng := rngAfter sample maxSamples s.rng },
      .ok ⟨maxSamples, .havanaInference (rngStates sample maxSamples 0 s.rng) 0⟩)

/-- A snapshot and a restore; the grid and the domain stay. -/
def restored (codec : RngCodec R W) (s : HavanaInferenceSampler R) :
    Option (HavanaInferenceSampler R) :=
  (codec.decode (codec.encode s.rng)).map fun rng => { s with rng }

end HavanaInferenceSampler

inductive SamplerCall where
  | generate (maxSamples : Nat)
  | restore
  deriving DecidableEq, Repr

/-- The batches of a run of calls and the sampler behind it. -/
def produce (sample : R → R × Except String (Point F)) (codec : RngCodec R W) :
    List SamplerCall → HavanaInferenceSampler R →
      List (LatentBatch (LatentBatchPayload F R)) × HavanaInferenceSampler R
  | [], s => ([], s)
  | .restore :: calls, s => produce sample codec calls ((s.restored codec).getD s)
  | .generate maxSamples :: calls, s =>
    let (s, batch) := s.generate sample maxSamples
    let (batches, s) := produce sample codec calls s
    match batch with
    | .ok batch => (batch :: batches, s)
    | .error _ => (batches, s)

/-! ## Slices -/

/-- A Havana batch stored and read back. -/
def reload (codec : RngCodec R W) (b : LatentBatch (LatentBatchPayload F R)) :
    Option (LatentBatch (LatentBatchPayload F R)) :=
  match b.payload with
  | .havanaInference rngStates offset =>
    ((rngStates.map codec.encode).mapM codec.decode).map fun rngStates =>
      ⟨b.nrSamples, .havanaInference rngStates offset⟩
  | .indexedBatch _ _ _ _ _ => none

/-- A slice of a batch from the sample at the position on, cut and stored any number of times. -/
inductive SliceOf (codec : RngCodec R W) (b : LatentBatch (LatentBatchPayload F R)) :
    Nat → LatentBatch (LatentBatchPayload F R) → Prop where
  | whole : SliceOf codec b 0 b
  | stored {position : Nat} {piece piece' : LatentBatch (LatentBatchPayload F R)}
      (h : SliceOf codec b position piece) (hreload : reload codec piece = some piece') :
      SliceOf codec b position piece'
  | cut {position : Nat} {piece piece' : LatentBatch (LatentBatchPayload F R)}
      (start samples coordinate : Nat) (h : SliceOf codec b position piece)
      (hslice : piece.sliceAt payloadOps start samples coordinate = .ok piece') :
      SliceOf codec b (position + start) piece'

/-- Slices of the batches that follow each other in the stream, from a place to another. -/
inductive InOrder (codec : RngCodec R W) (batches : List (LatentBatch (LatentBatchPayload F R))) :
    Nat → List (LatentBatch (LatentBatchPayload F R)) → Nat → Prop where
  | nil (place : Nat) : InOrder codec batches place [] place
  | cons {k position stop : Nat} {b piece : LatentBatch (LatentBatchPayload F R)}
      {pieces : List (LatentBatch (LatentBatchPayload F R))}
      (hbatch : batches[k]? = some b) (hslice : SliceOf codec b position piece)
      (hpieces : InOrder codec batches
        (((batches.take k).map (·.nrSamples)).sum + position + piece.nrSamples) pieces stop) :
      InOrder codec batches (((batches.take k).map (·.nrSamples)).sum + position) (piece :: pieces)
        stop

/-! ## A batch that replays a run -/

section Replaying

variable {sample : R → R × Except String (Point F)} {codec : RngCodec R W}
  {b piece : LatentBatch (LatentBatchPayload F R)} {rng : R}

/-- The batch holds the checkpoints of a run from the generator on, and the samples before its
first are not more than the given number. -/
def ReplaysFrom (sample : R → R × Except String (Point F)) (b : LatentBatch (LatentBatchPayload F R))
    (rng : R) (before : Nat) : Prop :=
  0 < b.nrSamples ∧ ∃ states offset, b.payload = .havanaInference states offset ∧
    offset ≤ before ∧ Checkpoints sample b.nrSamples states offset rng

theorem replaysFrom_generated (sample : R → R × Except String (Point F)) {n : Nat} (hn : 0 < n)
    (rng : R) :
    ReplaysFrom sample ⟨n, .havanaInference (rngStates sample n 0 rng) 0⟩ rng 0 := by
  have hstates := rngStates_eq sample n 0 rng
  refine ⟨hn, _, 0, rfl, le_rfl, rng, by decide, ?_, rfl⟩
  simpa [rngAfter, rngCheckpointStride] using hstates

theorem reload_havana (codec : RngCodec R W) {n offset : Nat} (states : List R) :
    reload codec (⟨n, .havanaInference states offset⟩ : LatentBatch (LatentBatchPayload F R)) =
      some ⟨n, .havanaInference states offset⟩ := by
  have hread : (states.map codec.encode).mapM codec.decode = some states := by
    induction states with
    | nil => rfl
    | cons rng states ih =>
      rw [List.map_cons, List.mapM_cons, codec.decode_encode, ih]
      rfl
  unfold reload
  dsimp only
  rw [hread]
  rfl

/-- Storing a batch does not change it. -/
theorem ReplaysFrom.reload {before : Nat} (h : ReplaysFrom sample b rng before) :
    reload codec b = some b := by
  obtain ⟨nrSamples, payload⟩ := b
  obtain ⟨-, states, offset, rfl, -⟩ := h
  exact reload_havana codec states

theorem ReplaysFrom.slice {before start n : Nat} (h : ReplaysFrom sample b rng before)
    (hpos : 0 < n) (hn : start + n ≤ b.nrSamples) (coordinate : Nat) :
    ∃ piece, b.sliceAt payloadOps start n coordinate = .ok piece ∧ piece.nrSamples = n ∧
      ReplaysFrom sample piece (rngAfter sample start rng) (before + start) := by
  obtain ⟨nrSamples, payload⟩ := b
  obtain ⟨-, states, offset, rfl, hbefore, hcheckpoints⟩ := h
  dsimp only at hn
  obtain ⟨states', offset', hslice, hcheckpoints'⟩ := hcheckpoints.slice coordinate hpos hn
  refine ⟨⟨n, .havanaInference states' offset'⟩, ?_, rfl, hpos, states', offset', rfl, ?_,
    hcheckpoints'⟩
  · unfold LatentBatch.sliceAt
    rw [if_neg (by dsimp only; omega), if_neg (by omega)]
    simp only [payloadOps, hslice, Except.map]
  · have hoffset : offset' = (offset + start) % rngCheckpointStride := by
      unfold LatentBatchPayload.slice at hslice
      dsimp only at hslice
      split at hslice
      · cases hslice
      · injection hslice with hpayload
        injection hpayload with _ hoffset
        exact hoffset.symm
    have hmod : (offset + start) % rngCheckpointStride ≤ offset + start := Nat.mod_le _ _
    omega

theorem ReplaysFrom.validate {before : Nat} (h : ReplaysFrom sample b rng before) :
    b.validateNrSamples = .ok () := by
  obtain ⟨nrSamples, payload⟩ := b
  obtain ⟨hpos, states, offset, rfl, -, first, hoffset, hstates, -⟩ := h
  dsimp only at hpos hstates
  unfold LatentBatch.validateNrSamples
  dsimp only
  rw [if_neg (by omega), if_neg]
  rintro (hle | hne)
  · omega
  · exact hne (by rw [hstates, List.length_map, List.length_range])

/-- What is materialized are the samples of the run. -/
theorem ReplaysFrom.materialize {before : Nat} (h : ReplaysFrom sample b rng before) :
    materializeBatch sample b = drawPoints sample b.nrSamples rng := by
  have hvalid := h.validate
  obtain ⟨nrSamples, payload⟩ := b
  obtain ⟨hpos, states, offset, rfl, -, first, hoffset, hstates, rfl⟩ := h
  dsimp only at hpos hstates ⊢
  obtain ⟨k, hk⟩ : ∃ k, (nrSamples + offset + (rngCheckpointStride - 1)) / rngCheckpointStride =
      k + 1 := by
    refine ⟨(nrSamples + offset - 1) / 1024, ?_⟩
    simp only [rngCheckpointStride]
    omega
  rw [hk, List.range_succ_eq_map, List.map_cons, Nat.zero_mul] at hstates
  subst hstates
  unfold materializeBatch
  dsimp only
  rw [hvalid]
  rfl

/-- A slice replays the run of its batch from its position on. -/
theorem SliceOf.replays {position : Nat} (h : SliceOf codec b position piece)
    (hb : ReplaysFrom sample b rng 0) :
    ReplaysFrom sample piece (rngAfter sample position rng) position ∧
      position + piece.nrSamples ≤ b.nrSamples := by
  induction h with
  | whole => exact ⟨hb, (Nat.zero_add _).le⟩
  | stored h hreload ih =>
    obtain ⟨hreplays, hwithin⟩ := ih
    rw [hreplays.reload] at hreload
    cases hreload
    exact ⟨hreplays, hwithin⟩
  | @cut position piece piece' start samples coordinate h hslice ih =>
    obtain ⟨hreplays, hwithin⟩ := ih
    have hinside : start + samples ≤ piece.nrSamples ∧ 0 < samples := by
      unfold LatentBatch.sliceAt at hslice
      split at hslice
      · cases hslice
      · split at hslice
        · cases hslice
        · omega
    obtain ⟨part, hpart, hcount, hpiece⟩ := hreplays.slice hinside.2 hinside.1 coordinate
    rw [hslice] at hpart
    cases hpart
    rw [← rngAfter_add, Nat.add_comm start] at hpiece
    exact ⟨hpiece, by omega⟩

end Replaying

/-! ## The stream -/

section Stream

variable {sample : R → R × Except String (Point F)} {codec : RngCodec R W}

theorem drawPoints_succ (sample : R → R × Except String (Point F)) (n : Nat) (rng : R) :
    drawPoints sample (n + 1) rng = (sample rng).2.bind fun point =>
      (drawPoints sample n (sample rng).1).map (point :: ·) := by
  rw [drawPoints]
  dsimp only
  cases (sample rng).2 with
  | error e => rfl
  | ok point =>
    cases drawPoints sample n (sample rng).1 with
    | error e => rfl
    | ok points => rfl

/-- Drawing goes on where it stopped. -/
theorem drawPoints_add (sample : R → R × Except String (Point F)) (m n : Nat) (rng : R) :
    drawPoints sample (m + n) rng = (drawPoints sample m rng).bind fun points =>
      (drawPoints sample n (rngAfter sample m rng)).map (points ++ ·) := by
  induction m generalizing rng with
  | zero =>
    rw [Nat.zero_add]
    change _ = (drawPoints sample n rng).map fun later => [] ++ later
    cases drawPoints sample n rng <;> rfl
  | succ m ih =>
    have hnext : rngAfter sample (m + 1) rng = rngAfter sample m (sample rng).1 := rfl
    rw [Nat.succ_add, drawPoints_succ, drawPoints_succ, ih, hnext]
    cases (sample rng).2 with
    | error e => rfl
    | ok point =>
      simp only [Except.bind]
      cases drawPoints sample m (sample rng).1 with
      | error e => rfl
      | ok points =>
        simp only [Except.bind, Except.map]
        cases drawPoints sample n (rngAfter sample m (sample rng).1) with
        | error e => rfl
        | ok later => rfl

/-- Every batch of a run replays the stream from its place on, and the generator is where the
batches have taken it. -/
theorem produce_replays (calls : List SamplerCall) (s : HavanaInferenceSampler R) :
    (∀ k b, (produce sample codec calls s).1[k]? = some b →
      ReplaysFrom sample b (rngAfter sample
        ((((produce sample codec calls s).1.take k).map (·.nrSamples)).sum) s.rng) 0) ∧
      (produce sample codec calls s).2.rng = rngAfter sample
        (((produce sample codec calls s).1.map (·.nrSamples)).sum) s.rng := by
  induction calls generalizing s with
  | nil => exact ⟨(fun k b h => by cases h), rfl⟩
  | cons call calls ih =>
    cases call with
    | restore =>
      have hrestored : (s.restored codec).getD s = s := by
        unfold HavanaInferenceSampler.restored
        rw [codec.decode_encode]
        rfl
      rw [produce, hrestored]
      exact ih s
    | generate maxSamples =>
      by_cases hzero : maxSamples = 0
      · have hsame : produce sample codec (.generate maxSamples :: calls) s =
            produce sample codec calls s := by
          rw [produce]
          unfold HavanaInferenceSampler.generate
          rw [if_pos hzero]
        rw [hsame]
        exact ih s
      · obtain ⟨s', hs'⟩ : ∃ s', s' = (s.generate sample maxSamples).1 := ⟨_, rfl⟩
        have hrng : s'.rng = rngAfter sample maxSamples s.rng := by
          rw [hs', HavanaInferenceSampler.generate, if_neg hzero]
        have hfirst : produce sample codec (.generate maxSamples :: calls) s =
            (⟨maxSamples, .havanaInference (rngStates sample maxSamples 0 s.rng) 0⟩ ::
              (produce sample codec calls s').1, (produce sample codec calls s').2) := by
          rw [hs', produce]
          unfold HavanaInferenceSampler.generate
          rw [if_neg hzero]
        obtain ⟨hlater, hlast⟩ := ih s'
        rw [hfirst]
        dsimp only
        constructor
        · intro k b hb
          cases k with
          | zero =>
            rw [List.getElem?_cons_zero] at hb
            cases hb
            exact replaysFrom_generated sample (Nat.pos_of_ne_zero hzero) s.rng
          | succ k =>
            rw [List.getElem?_cons_succ] at hb
            have hreplays := hlater k b hb
            rw [hrng, ← rngAfter_add, Nat.add_comm] at hreplays
            exact hreplays
        · rw [hlast, hrng, ← rngAfter_add, List.map_cons, List.sum_cons, Nat.add_comm]

/-- Slices in order are materialized to the samples between their ends. -/
theorem InOrder.materialize {batches pieces : List (LatentBatch (LatentBatchPayload F R))}
    {place stop : Nat} {rng : R} (h : InOrder codec batches place pieces stop)
    (hbatches : ∀ k b, batches[k]? = some b → ReplaysFrom sample b (rngAfter sample
      (((batches.take k).map (·.nrSamples)).sum) rng) 0) :
    place ≤ stop ∧ (pieces.mapM (materializeBatch sample)).map List.flatten =
      drawPoints sample (stop - place) (rngAfter sample place rng) := by
  induction h with
  | nil place =>
    rw [Nat.sub_self]
    exact ⟨le_rfl, rfl⟩
  | @cons k position stop b piece pieces hbatch hslice hpieces ih =>
    obtain ⟨hle, hrest⟩ := ih
    obtain ⟨hreplays, -⟩ := hslice.replays (hbatches k b hbatch)
    rw [← rngAfter_add, Nat.add_comm] at hreplays
    have hfirst := hreplays.materialize
    generalize ((batches.take k).map (·.nrSamples)).sum + position = place at *
    obtain ⟨rest, rfl⟩ : ∃ rest, stop = place + piece.nrSamples + rest :=
      ⟨stop - (place + piece.nrSamples), by omega⟩
    have hcount : place + piece.nrSamples + rest - place = piece.nrSamples + rest := by omega
    have hlater : place + piece.nrSamples + rest - (place + piece.nrSamples) = rest := by omega
    rw [hlater, Nat.add_comm place, rngAfter_add] at hrest
    refine ⟨by omega, ?_⟩
    rw [hcount, drawPoints_add, ← hrest, List.mapM_cons, hfirst]
    cases drawPoints sample piece.nrSamples (rngAfter sample place rng) with
    | error e => rfl
    | ok points =>
      cases pieces.mapM (materializeBatch sample) with
      | error e => rfl
      | ok parts => rfl

end Stream

/-- However the batches of a sampler are cut, stored and cut again, every slice is valid, can be
cut and stored further, and is materialized to the samples it stands for, and slices that follow
each other give the stream the sampler has drawn. -/
theorem havana_slices_replay_stream (sample : R → R × Except String (Point F))
    (codec : RngCodec R W) (calls : List SamplerCall) (s : HavanaInferenceSampler R) :
    let batches := (produce sample codec calls s).1
    (∀ k b, batches[k]? = some b → ∀ position piece, SliceOf codec b position piece →
      position + piece.nrSamples ≤ b.nrSamples ∧ piece.validateNrSamples = .ok () ∧
      (∃ states offset, piece.payload = .havanaInference states offset ∧
        piece.nrSamples + offset ≤ b.nrSamples) ∧
      (∃ piece', reload codec piece = some piece') ∧
      (∀ start n coordinate, 0 < n → start + n ≤ piece.nrSamples →
        ∃ piece', piece.sliceAt payloadOps start n coordinate = .ok piece' ∧
          piece'.nrSamples = n) ∧
      materializeBatch sample piece = drawPoints sample piece.nrSamples (rngAfter sample
        (((batches.take k).map (·.nrSamples)).sum + position) s.rng)) ∧
    (∀ place pieces stop, InOrder codec batches place pieces stop →
      (pieces.mapM (materializeBatch sample)).map List.flatten =
        drawPoints sample (stop - place) (rngAfter sample place s.rng)) ∧
    (produce sample codec calls s).2.rng =
      rngAfter sample ((batches.map (·.nrSamples)).sum) s.rng := by
  intro batches
  obtain ⟨hbatches, hlast⟩ := @produce_replays _ _ _ sample codec calls s
  refine ⟨fun k b hb position piece hslice => ?_, fun place pieces stop hpieces =>
    (hpieces.materialize hbatches).2, hlast⟩
  obtain ⟨hreplays, hwithin⟩ := hslice.replays (hbatches k b hb)
  refine ⟨hwithin, hreplays.validate, ?_, ⟨_, hreplays.reload⟩, ?_, ?_⟩
  · obtain ⟨-, states, offset, hpayload, hoffset, -⟩ := hreplays
    exact ⟨states, offset, hpayload, by omega⟩
  · intro start n coordinate hpos hn
    obtain ⟨piece', hpiece', hcount, -⟩ := hreplays.slice hpos hn coordinate
    exact ⟨piece', hpiece', hcount⟩
  · rw [hreplays.materialize, ← rngAfter_add, Nat.add_comm position]

end Gammaboard.Sampling
