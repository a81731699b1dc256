import Gammaboard.Lib.Tiling
import Gammaboard.Sampling.FeedbackAssembly
import Gammaboard.Sampling.GeneratedDraws

/-!
# Buffered draws are not lost

The saved form of a `GenerationBuffer` and the runs of one draw through it:
`take_batches` with any slots and chunk sizes, feedback and new training groups
in between, and a save and a restore at any point. JSON has no number for a
float that is not finite, so a draw gets through only when its floats are ones
that JSON gives back.
-/

namespace Gammaboard.Sampling

open Gammaboard.Core Gammaboard.Lib

/-! ## The saved form -/

/-- What JSON does to a float: a finite one is written as a number, any number that is read is
finite. The number read need not be the one that was written. -/
structure FloatJson (F J : Type) where
  finite : F → Bool
  write : F → J
  read : J → Option F
  reads : ∀ x, finite x = true → ∃ y, read (write x) = some y
  finite_read : ∀ j y, read j = some y → finite y = true

variable {F J R : Type}

namespace FloatJson

variable (json : FloatJson F J)

def savePayload : LatentBatchPayload F R → LatentBatchPayload J R
  | .indexedBatch discreteSignatures discreteMap continuousLayouts continuousValues weights =>
    .indexedBatch discreteSignatures discreteMap continuousLayouts
      (continuousValues.map json.write) (weights.map json.write)
  | .havanaInference rngStates offset => .havanaInference rngStates offset

/-- The coordinate cursor is skipped. -/
def saveDraw (d : BufferedDraw (LatentBatchPayload F R)) : BufferedDraw (LatentBatchPayload J R) :=
  ⟨⟨d.batch.nrSamples, json.savePayload d.batch.payload⟩, d.nextSample, none, d.trainingRemaining⟩

def saveGroup (group : TrainingGroup F) : TrainingGroup J :=
  ⟨group.samples, ⟨group.feedback.unmaskedValues.map json.write, group.feedback.strata⟩⟩

def save (g : GenerationBuffer F (LatentBatchPayload F R)) :
    GenerationBuffer J (LatentBatchPayload J R) :=
  ⟨g.pending.map json.saveDraw, g.trainingGroups.map json.saveGroup, g.finished⟩

def restorePayload : LatentBatchPayload J R → Option (LatentBatchPayload F R)
  | .indexedBatch discreteSignatures discreteMap continuousLayouts continuousValues weights => do
    let continuousValues ← continuousValues.mapM json.read
    let weights ← weights.mapM json.read
    return .indexedBatch discreteSignatures discreteMap continuousLayouts continuousValues weights
  | .havanaInference rngStates offset => some (.havanaInference rngStates offset)

def restoreDraw (d : BufferedDraw (LatentBatchPayload J R)) :
    Option (BufferedDraw (LatentBatchPayload F R)) := do
  let payload ← json.restorePayload d.batch.payload
  return ⟨⟨d.batch.nrSamples, payload⟩, d.nextSample, none, d.trainingRemaining⟩

def restoreGroup (group : TrainingGroup J) : Option (TrainingGroup F) := do
  let values ← group.feedback.unmaskedValues.mapM json.read
  return ⟨group.samples, ⟨values, group.feedback.strata⟩⟩

/-- `none` when the saved buffer cannot be read. -/
def restore (g : GenerationBuffer J (LatentBatchPayload J R)) :
    Option (GenerationBuffer F (LatentBatchPayload F R)) := do
  let pending ← match g.pending with
    | none => some none
    | some d => (json.restoreDraw d).map some
  let trainingGroups ← g.trainingGroups.mapM json.restoreGroup
  return ⟨pending, trainingGroups, g.finished⟩

/-- JSON gives every coordinate and weight back. A Havana inference payload has none. -/
def Keeps : LatentBatchPayload F R → Prop
  | .indexedBatch _ _ _ continuousValues weights =>
    (∀ x ∈ continuousValues, json.read (json.write x) = some x) ∧
      ∀ w ∈ weights, json.read (json.write w) = some w
  | .havanaInference _ _ => True

def finiteGroup (group : TrainingGroup F) : Bool :=
  group.feedback.unmaskedValues.all json.finite

/-- The number a float becomes. -/
def reread (x : F) : F := (json.read (json.write x)).getD x

theorem mapM_read_write {xs ys : List F} (h : (xs.map json.write).mapM json.read = some ys) :
    ys = xs.map json.reread := by
  induction xs generalizing ys with
  | nil =>
    cases h
    rfl
  | cons x xs ih =>
    rw [List.map_cons, List.mapM_cons] at h
    cases hx : json.read (json.write x) with
    | none => simp [hx] at h
    | some y =>
      cases hxs : (xs.map json.write).mapM json.read with
      | none => simp [hxs] at h
      | some zs =>
        simp only [hx, hxs, Option.bind_eq_bind, Option.bind_some, Option.pure_def,
          Option.some.injEq] at h
        rw [← h, ih hxs, List.map_cons]
        simp [reread, hx]

theorem mapM_read_write_iff {xs : List F} :
    (xs.map json.write).mapM json.read = some xs ↔
      ∀ x ∈ xs, json.read (json.write x) = some x := by
  induction xs with
  | nil => simp
  | cons x xs ih =>
    rw [List.map_cons, List.mapM_cons, List.forall_mem_cons, ← ih]
    cases hx : json.read (json.write x) with
    | none => simp
    | some y =>
      cases hxs : (xs.map json.write).mapM json.read with
      | none => simp
      | some zs => simp

theorem mapM_read_write_finite {xs : List F} (h : xs.all json.finite = true) :
    ∃ ys, (xs.map json.write).mapM json.read = some ys := by
  induction xs with
  | nil => exact ⟨[], rfl⟩
  | cons x xs ih =>
    rw [List.all_cons, Bool.and_eq_true] at h
    obtain ⟨y, hy⟩ := json.reads x h.1
    obtain ⟨ys, hys⟩ := ih h.2
    exact ⟨y :: ys, by simp [List.mapM_cons, hy, hys]⟩

theorem finite_of_mapM_read {js : List J} {ys : List F} (h : js.mapM json.read = some ys) :
    ys.all json.finite = true := by
  induction js generalizing ys with
  | nil =>
    cases h
    rfl
  | cons j js ih =>
    rw [List.mapM_cons] at h
    cases hj : json.read j with
    | none => simp [hj] at h
    | some y =>
      cases hjs : js.mapM json.read with
      | none => simp [hjs] at h
      | some zs =>
        simp only [hj, hjs, Option.bind_eq_bind, Option.bind_some, Option.pure_def,
          Option.some.injEq] at h
        rw [← h, List.all_cons, json.finite_read j y hj, ih hjs]
        rfl

/-- What a payload is restored as. -/
def rereadPayload : LatentBatchPayload F R → LatentBatchPayload F R
  | .indexedBatch signatures map layouts values weights =>
    .indexedBatch signatures map layouts (values.map json.reread) (weights.map json.reread)
  | .havanaInference rngStates offset => .havanaInference rngStates offset

theorem restorePayload_save {payload payload' : LatentBatchPayload F R}
    (h : json.restorePayload (json.savePayload payload) = some payload') :
    payload' = json.rereadPayload payload := by
  cases payload with
  | havanaInference rngStates offset =>
    cases h
    rfl
  | indexedBatch signatures map layouts values weights =>
    simp only [savePayload, restorePayload] at h
    cases hvalues : (values.map json.write).mapM json.read with
    | none => simp [hvalues] at h
    | some values' =>
      cases hweights : (weights.map json.write).mapM json.read with
      | none => simp [hweights] at h
      | some weights' =>
        simp only [hvalues, hweights, Option.bind_eq_bind, Option.bind_some, Option.pure_def,
          Option.some.injEq] at h
        rw [← h, json.mapM_read_write hvalues, json.mapM_read_write hweights]
        rfl

theorem restorePayload_save_iff {payload : LatentBatchPayload F R} :
    json.restorePayload (json.savePayload payload) = some payload ↔ json.Keeps payload := by
  cases payload with
  | havanaInference rngStates offset => exact ⟨fun _ => trivial, fun _ => rfl⟩
  | indexedBatch signatures map layouts values weights =>
    simp only [savePayload, restorePayload, Keeps, ← mapM_read_write_iff]
    cases (values.map json.write).mapM json.read with
    | none => simp
    | some values' =>
      cases (weights.map json.write).mapM json.read with
      | none => simp
      | some weights' => simp

theorem restoreGroups_save {groups : List (TrainingGroup F)}
    (h : groups.all json.finiteGroup = true) :
    ∃ groups', (groups.map json.saveGroup).mapM json.restoreGroup = some groups' := by
  induction groups with
  | nil => exact ⟨[], rfl⟩
  | cons group groups ih =>
    rw [List.all_cons, Bool.and_eq_true] at h
    obtain ⟨values, hvalues⟩ := json.mapM_read_write_finite h.1
    obtain ⟨groups', hgroups⟩ := ih h.2
    refine ⟨⟨group.samples, ⟨values, group.feedback.strata⟩⟩ :: groups', ?_⟩
    have hgroup : json.restoreGroup (json.saveGroup group) =
        some ⟨group.samples, ⟨values, group.feedback.strata⟩⟩ := by
      simp [restoreGroup, saveGroup, hvalues]
    simp [List.mapM_cons, hgroup, hgroups]

theorem finite_of_restoreGroups {groups : List (TrainingGroup J)} {groups' : List (TrainingGroup F)}
    (h : groups.mapM json.restoreGroup = some groups') :
    groups'.all json.finiteGroup = true := by
  induction groups generalizing groups' with
  | nil =>
    cases h
    rfl
  | cons group groups ih =>
    rw [List.mapM_cons] at h
    cases hvalues : group.feedback.unmaskedValues.mapM json.read with
    | none => simp [restoreGroup, hvalues] at h
    | some values =>
      cases hgroups : groups.mapM json.restoreGroup with
      | none => simp [hgroups] at h
      | some groups'' =>
        simp only [restoreGroup, hvalues, hgroups, Option.bind_eq_bind, Option.bind_some,
          Option.pure_def, Option.some.injEq] at h
        rw [← h, List.all_cons, ih hgroups, Bool.and_true]
        exact json.finite_of_mapM_read hvalues

/-- A restored buffer is the one saved, its payload and feedback read again. -/
structure Restores (g g' : GenerationBuffer F (LatentBatchPayload F R)) : Prop where
  gone : g.pending = none → g'.pending = none
  left : ∀ d, g.pending = some d → ∃ payload,
    json.restorePayload (json.savePayload d.batch.payload) = some payload ∧
      g'.pending = some ⟨⟨d.batch.nrSamples, payload⟩, d.nextSample, none, d.trainingRemaining⟩
  finite : g'.trainingGroups.all json.finiteGroup = true

theorem restores_of_restore {g g' : GenerationBuffer F (LatentBatchPayload F R)}
    (h : json.restore (json.save g) = some g') : json.Restores g g' := by
  obtain ⟨pending, groups, finished⟩ := g
  simp only [restore, save] at h
  cases pending with
  | none =>
    cases hgroups : (groups.map json.saveGroup).mapM json.restoreGroup with
    | none => simp [hgroups] at h
    | some groups' =>
      simp only [Option.map_none, hgroups, Option.bind_eq_bind, Option.bind_some, Option.pure_def,
        Option.some.injEq] at h
      subst h
      exact ⟨fun _ => rfl, (fun d hd => by cases hd), json.finite_of_restoreGroups hgroups⟩
  | some d =>
    cases hpayload : json.restorePayload (json.savePayload d.batch.payload) with
    | none => simp [restoreDraw, saveDraw, hpayload] at h
    | some payload =>
      cases hgroups : (groups.map json.saveGroup).mapM json.restoreGroup with
      | none => simp [hgroups] at h
      | some groups' =>
        simp only [Option.map_some, restoreDraw, saveDraw, hpayload, hgroups, Option.bind_eq_bind,
          Option.bind_some, Option.pure_def, Option.some.injEq] at h
        subst h
        refine ⟨(fun hnone => by cases hnone), fun d' hd' => ?_, json.finite_of_restoreGroups hgroups⟩
        cases hd'
        exact ⟨payload, hpayload, rfl⟩

/-- A buffer can be read back when JSON gives its draw back and its feedback is finite. -/
theorem restore_save {g : GenerationBuffer F (LatentBatchPayload F R)}
    (hpending : ∀ d, g.pending = some d → json.Keeps d.batch.payload)
    (hgroups : g.trainingGroups.all json.finiteGroup = true) :
    ∃ g', json.restore (json.save g) = some g' := by
  obtain ⟨pending, groups, finished⟩ := g
  obtain ⟨groups', hgroups'⟩ := json.restoreGroups_save hgroups
  cases pending with
  | none => exact ⟨⟨none, groups', finished⟩, by simp [restore, save, hgroups']⟩
  | some d =>
    have hpayload := json.restorePayload_save_iff.2 (hpending d rfl)
    exact ⟨⟨some ⟨⟨d.batch.nrSamples, d.batch.payload⟩, d.nextSample, none, d.trainingRemaining⟩,
      groups', finished⟩, by simp [restore, save, restoreDraw, saveDraw, hpayload, hgroups']⟩

end FloatJson

/-! ## One draw in the buffer -/

section Draw

variable {sample : R → R × Except String (Point F)} {draw : LatentBatch (LatentBatchPayload F R)}
  {points : List (Point F)}

/-- The draw is in the buffer with its cursor at the position, or is gone with the position at
its end. -/
structure At (draw : LatentBatch (LatentBatchPayload F R)) (position : Nat)
    (g : GenerationBuffer F (LatentBatchPayload F R)) : Prop where
  ended : g.pending = none → position = draw.nrSamples
  batch : ∀ d, g.pending = some d → d.batch = draw
  cursor : ∀ d, g.pending = some d → d.nextSample = position
  inside : ∀ d, g.pending = some d → position < draw.nrSamples
  coordinate : ∀ d c, g.pending = some d → d.nextCoordinate = some c →
    c = draw.payload.coordinatesBefore position

theorem At.gone {g : GenerationBuffer F (LatentBatchPayload F R)} (h : g.pending = none) :
    At draw draw.nrSamples g where
  ended _ := rfl
  batch _ hd := by simp [h] at hd
  cursor _ hd := by simp [h] at hd
  inside _ hd := by simp [h] at hd
  coordinate _ _ hd := by simp [h] at hd

theorem At.left {g : GenerationBuffer F (LatentBatchPayload F R)}
    {d : BufferedDraw (LatentBatchPayload F R)} (h : g.pending = some d) (hbatch : d.batch = draw)
    (hinside : d.nextSample < draw.nrSamples)
    (hc : ∀ c, d.nextCoordinate = some c → c = draw.payload.coordinatesBefore d.nextSample) :
    At draw d.nextSample g where
  ended hnone := by simp [h] at hnone
  batch d' hd := by
    cases h.symm.trans hd
    exact hbatch
  cursor d' hd := by
    cases h.symm.trans hd
    rfl
  inside _ _ := hinside
  coordinate d' c hd := by
    cases h.symm.trans hd
    exact hc c

/-- A coordinate cursor that was lost is computed again. -/
theorem checkedCoordinate_eq {d : BufferedDraw (LatentBatchPayload F R)}
    (hcarries : Carries sample d.batch points) (hn : d.nextSample < d.batch.nrSamples)
    (hc : ∀ c, d.nextCoordinate = some c → c = d.batch.payload.coordinatesBefore d.nextSample) :
    GenerationBuffer.checkedCoordinate payloadOps d =
      .ok (d.batch.payload.coordinatesBefore d.nextSample) := by
  unfold GenerationBuffer.checkedCoordinate
  cases hcursor : d.nextCoordinate with
  | some c =>
    rw [hc c hcursor]
  | none =>
    have hvalid := hcarries.validate (by omega)
    have hstart : d.batch.payload.coordinateStart d.nextSample =
        some (d.batch.payload.coordinatesBefore d.nextSample) := by
      obtain ⟨hlen, hpayload⟩ := hcarries
      cases hp : d.batch.payload with
      | havanaInference states offset => rfl
      | indexedBatch discreteSignatures discreteMap continuousLayouts continuousValues weights =>
        rw [hp] at hpayload
        have hle : 0 + d.nextSample ≤ continuousLayouts.length := by
          rw [hpayload.length_layouts]
          omega
        simp only [LatentBatchPayload.coordinateStart, range?_of_le hle, List.drop_zero,
          Option.map_some, LatentBatchPayload.coordinatesBefore]
    simp only [payloadOps, hvalid, hstart]

/-- The pieces of one call: they tile the draw from the cursor on, none larger than the chunk,
and there is one whenever there is a slot and a sample left. -/
structure Cut (sample : R → R × Except String (Point F)) (points : List (Point F))
    (slots chunkSize position position' : Nat) (pieces : List (LatentBatch (LatentBatchPayload F R))) :
    Prop where
  tiles : Tiles (Carries sample) points position pieces position'
  chunk : ∀ b ∈ pieces, b.nrSamples ≤ chunkSize
  moves : 0 < slots → position < points.length → position < position'

theorem cut_eq (hcarries : Carries sample draw points) {chunkSize : Nat} (hchunk : 0 < chunkSize)
    (slots : Nat) {d : BufferedDraw (LatentBatchPayload F R)} (hbatch : d.batch = draw)
    (hle : d.nextSample ≤ draw.nrSamples)
    (hc : d.nextCoordinate = some (draw.payload.coordinatesBefore d.nextSample)) :
    ∃ d' pieces, GenerationBuffer.cut payloadOps chunkSize slots
        (draw.payload.coordinatesBefore d.nextSample) d = (d', .ok pieces) ∧
      d'.batch = draw ∧ d'.nextSample ≤ draw.nrSamples ∧
      d'.nextCoordinate = some (draw.payload.coordinatesBefore d'.nextSample) ∧
      Cut sample points slots chunkSize d.nextSample d'.nextSample pieces := by
  induction slots generalizing d with
  | zero =>
    exact ⟨d, [], rfl, hbatch, hle, hc, .nil _, by simp, fun h => absurd h (Nat.lt_irrefl 0)⟩
  | succ slots ih =>
    have hlen := hcarries.1
    unfold GenerationBuffer.cut
    dsimp only
    rw [hbatch]
    by_cases hdone : min chunkSize (draw.nrSamples - d.nextSample) = 0
    · rw [if_pos hdone]
      refine ⟨d, [], rfl, hbatch, hle, hc, .nil _, by simp, fun _ hlt => ?_⟩
      omega
    · rw [if_neg hdone]
      have hfits : d.nextSample + min chunkSize (draw.nrSamples - d.nextSample) ≤ draw.nrSamples := by
        omega
      obtain ⟨piece, hslice, hsize, hpiece, hcoordinate⟩ :=
        hcarries.slice (Nat.pos_of_ne_zero hdone) hfits
      rw [hslice]
      dsimp only
      have hnext : draw.payload.coordinatesBefore d.nextSample +
          payloadOps.coordinates piece.payload = draw.payload.coordinatesBefore
            (d.nextSample + min chunkSize (draw.nrSamples - d.nextSample)) := hcoordinate
      rw [hnext]
      obtain ⟨d', pieces, hcut, hbatch', hle', hc', htiles, hchunks, -⟩ :=
        ih (d := { d with
          batch := draw
          nextSample := d.nextSample + min chunkSize (draw.nrSamples - d.nextSample)
          nextCoordinate := some (draw.payload.coordinatesBefore
            (d.nextSample + min chunkSize (draw.nrSamples - d.nextSample))) }) rfl hfits rfl
      dsimp only at hcut htiles
      rw [hcut]
      refine ⟨d', piece :: pieces, rfl, hbatch', hle', hc', ?_, ?_, fun _ _ => ?_⟩
      · exact .cons (Nat.pos_of_ne_zero hdone) (by omega) hpiece htiles
      · rintro b hb
        rcases List.mem_cons.1 hb with rfl | hb
        · omega
        · exact hchunks b hb
      · have hlater := htiles.le
        omega

/-- A call with a chunk size cuts pieces off the draw and moves its cursor behind them. -/
theorem At.takeBatches {position chunkSize : Nat} {g : GenerationBuffer F (LatentBatchPayload F R)}
    (h : At draw position g) (hcarries : Carries sample draw points) (hle : position ≤ draw.nrSamples)
    (hchunk : 0 < chunkSize) (slots : Nat) :
    ∃ position' pieces, (g.takeBatches payloadOps slots chunkSize).2 = .ok pieces ∧
      At draw position' (g.takeBatches payloadOps slots chunkSize).1 ∧
      position' ≤ draw.nrSamples ∧ Cut sample points slots chunkSize position position' pieces := by
  have hlen := hcarries.1
  unfold GenerationBuffer.takeBatches
  rw [if_neg (by omega)]
  cases hpending : g.pending with
  | none =>
    have hended := h.ended hpending
    refine ⟨position, [], rfl, h, hle, .nil _, by simp, fun _ hlt => ?_⟩
    omega
  | some d =>
    have hbatch := h.batch d hpending
    have hinside := h.inside d hpending
    have hcoordinate := fun c => h.coordinate d c hpending
    have hcursor := h.cursor d hpending
    subst hcursor hbatch
    dsimp only
    rw [checkedCoordinate_eq hcarries hinside hcoordinate]
    dsimp only
    by_cases hwhole : 0 < slots ∧ d.nextSample = 0 ∧ d.batch.nrSamples ≤ chunkSize
    · -- the whole draw fits into one piece and leaves without a copy
      rw [if_pos hwhole]
      obtain ⟨hslots, hstart, hfits⟩ := hwhole
      have htake : (points.drop 0).take d.batch.nrSamples = points := by
        rw [List.drop_zero, ← hlen, List.take_length]
      have htiles : Tiles (Carries sample) points 0 [d.batch] (0 + d.batch.nrSamples) :=
        .cons (by omega) (by omega) (by rw [htake]; exact hcarries) (.nil _)
      rw [Nat.zero_add] at htiles
      rw [hstart]
      refine ⟨d.batch.nrSamples, [d.batch], rfl, .gone rfl, le_rfl, htiles, ?_, fun _ _ => by omega⟩
      rintro b hb
      rw [List.mem_singleton.1 hb]
      exact hfits
    · rw [if_neg hwhole, if_neg (by omega)]
      obtain ⟨d', pieces, hcut, hbatch', hle', hc', hpieces⟩ :=
        cut_eq hcarries hchunk slots
          (d := { d with nextCoordinate := some (d.batch.payload.coordinatesBefore d.nextSample) })
          rfl hle rfl
      dsimp only at hcut hpieces
      rw [hcut]
      dsimp only
      refine ⟨d'.nextSample, pieces, rfl, ?_, hle', hpieces⟩
      by_cases hend : d'.nextSample = d'.batch.nrSamples
      · rw [if_pos hend, hend, hbatch']
        exact .gone rfl
      · rw [if_neg hend]
        rw [hbatch'] at hend
        refine .left rfl hbatch' (by omega) fun c hc => ?_
        rw [hc'] at hc
        cases hc
        rfl

end Draw

/-! ## Runs -/

/-- What happens to a buffer that holds a draw: pieces are taken, the buffer is saved and
restored, and training groups come and go. -/
inductive BufferEvent (F : Type) where
  | take (slots chunkSize : Nat)
  | restore
  | record (samples : Nat)
  | feedback (values : Feedback F)
  deriving DecidableEq, Repr

/-- The buffer with the calls of `take_batches` so far, their chunk sizes and answers. -/
structure Dispatch (F R : Type) where
  buffer : GenerationBuffer F (LatentBatchPayload F R)
  calls : List (Nat × Except EngineError (List (LatentBatch (LatentBatchPayload F R))))
  deriving DecidableEq, Repr

namespace Dispatch

/-- The batches of a call. -/
def produced {P : Type} : Nat × Except EngineError (List (LatentBatch P)) → List (LatentBatch P)
  | (_, .ok pieces) => pieces
  | (_, .error _) => []

def batches (s : Dispatch F R) : List (LatentBatch (LatentBatchPayload F R)) :=
  s.calls.flatMap produced

def emitted (s : Dispatch F R) : Nat := (s.batches.map (·.nrSamples)).sum

/-- `none` when the saved buffer cannot be read. -/
def step (json : FloatJson F J) (s : Dispatch F R) : BufferEvent F → Option (Dispatch F R)
  | .take slots chunkSize =>
    let (buffer, answer) := s.buffer.takeBatches payloadOps slots chunkSize
    some ⟨buffer, s.calls ++ [(chunkSize, answer)]⟩
  | .restore => (json.restore (json.save s.buffer)).map fun buffer => { s with buffer }
  | .record samples => some { s with buffer := s.buffer.recordDraw samples }
  | .feedback values => some { s with buffer := (s.buffer.acceptInPlace json.finite values).1 }

def run (json : FloatJson F J) (s : Dispatch F R) (events : List (BufferEvent F)) :
    Option (Dispatch F R) :=
  events.foldlM (step json) s

/-- Calls that have a slot and a chunk size. -/
def working : List (BufferEvent F) → Nat
  | [] => 0
  | .take slots chunkSize :: rest => (if 0 < slots ∧ 0 < chunkSize then 1 else 0) + working rest
  | _ :: rest => working rest

end Dispatch

/-- The buffers the sampler runner can have: draws are buffered and recorded, pieces taken,
feedback is accepted, and the buffer may be restored. -/
inductive Reached (json : FloatJson F J) : GenerationBuffer F (LatentBatchPayload F R) → Prop where
  | empty : Reached json .empty
  | bufferDraw {g g'} (batch : LatentBatch (LatentBatchPayload F R)) (training : Option Nat) :
    Reached json g → g.bufferDraw payloadOps batch training = .ok g' → Reached json g'
  | record {g} (samples : Nat) : Reached json g → Reached json (g.recordDraw samples)
  | take {g} (slots chunkSize : Nat) :
    Reached json g → Reached json (g.takeBatches payloadOps slots chunkSize).1
  | feedback {g} (values : Feedback F) :
    Reached json g → Reached json (g.acceptInPlace json.finite values).1
  | restore {g g'} : Reached json g → json.restore (json.save g) = some g' → Reached json g'

/-- Nothing of the draw is lost, changed or repeated in the batches produced so far: they are
consecutive parts of it from the first sample on, put end to end they decode to its samples, no
call made a batch above its chunk size or failed for another reason than a chunk size of zero,
and the buffer is empty once all samples are out and not before. -/
structure Lossless (sample : R → R × Except String (Point F))
    (draw : LatentBatch (LatentBatchPayload F R)) (points : List (Point F)) (s : Dispatch F R) :
    Prop where
  answered : ∀ c ∈ s.calls, 0 < c.1 → ∃ pieces, c.2 = .ok pieces ∧ ∀ b ∈ pieces, b.nrSamples ≤ c.1
  refused : ∀ c ∈ s.calls, c.1 = 0 → c.2 = .error (.engine "evaluator chunk size is zero")
  contiguous : Tiles (fun b part => materializeBatch sample b = .ok part ∧ part.length = b.nrSamples)
    points 0 s.batches s.emitted
  decoded : ∃ parts, List.Forall₂ (fun b part => materializeBatch sample b = .ok part) s.batches parts ∧
    parts.flatten = points.take s.emitted
  cursor : ∀ d, s.buffer.pending = some d → d.batch = draw ∧ d.nextSample = s.emitted
  ended : s.buffer.pending = none ↔ s.emitted = draw.nrSamples

/-! ### Finite feedback -/

section Finite

variable {json : FloatJson F J} {g g' : GenerationBuffer F (LatentBatchPayload F R)}

theorem append_finite {f other f' : Feedback F} (h : f.append json.finite other = .ok f')
    (hf : f.unmaskedValues.all json.finite = true) :
    f'.unmaskedValues.all json.finite = true := by
  have hother : other.unmaskedValues.all json.finite = true :=
    List.all_eq_true.2 (Feedback.append_ok_iff.1 ⟨f', h⟩).1.1
  have hvalues : f'.unmaskedValues = other.unmaskedValues ∨
      f'.unmaskedValues = f.unmaskedValues ++ other.unmaskedValues := by
    unfold Feedback.append at h
    split at h
    · cases h
    · split at h
      · cases h
        exact .inl rfl
      · split at h
        · cases h
          exact .inr rfl
        · split at h
          · cases h
            exact .inr rfl
          · cases h
        · cases h
  rcases hvalues with heq | heq
  · rw [heq, hother]
  · rw [heq, List.all_append, hf, hother]
    rfl

theorem acceptInPlace_finite (values : Feedback F)
    (hg : g.trainingGroups.all json.finiteGroup = true) :
    (g.acceptInPlace json.finite values).1.trainingGroups.all json.finiteGroup = true := by
  rw [GenerationBuffer.acceptInPlace_eq]
  cases haccept : g.acceptFeedback json.finite values with
  | error e => exact hg
  | ok accepted =>
    unfold GenerationBuffer.acceptFeedback at haccept
    cases hgroups : g.trainingGroups with
    | nil =>
      rw [hgroups] at haccept
      cases haccept
    | cons group rest =>
      rw [hgroups, List.all_cons, Bool.and_eq_true] at hg
      rw [hgroups] at haccept
      dsimp only at haccept
      split at haccept
      · cases haccept
      · split at haccept
        · cases haccept
        · rename_i feedback happend
          split at haccept
          · cases haccept
            exact hg.2
          · cases haccept
            exact Bool.and_eq_true_iff.2 ⟨append_finite happend hg.1, hg.2⟩

theorem takeBatches_trainingGroups (slots chunkSize : Nat)
    (g : GenerationBuffer F (LatentBatchPayload F R)) :
    (g.takeBatches payloadOps slots chunkSize).1.trainingGroups = g.trainingGroups := by
  unfold GenerationBuffer.takeBatches
  split
  · rfl
  · split
    · rfl
    · split
      · rfl
      · dsimp only
        split
        · rfl
        · split
          · rfl
          · split <;> rfl

theorem Reached.finite (h : Reached json g) : g.trainingGroups.all json.finiteGroup = true := by
  induction h with
  | empty => rfl
  | bufferDraw batch training _ hdraw ih =>
    unfold GenerationBuffer.bufferDraw at hdraw
    split at hdraw
    · cases hdraw
    · split at hdraw
      · cases hdraw
      · cases hdraw
        exact ih
  | record samples _ ih =>
    simp only [GenerationBuffer.recordDraw, List.all_append, ih, Bool.true_and]
    rfl
  | take slots chunkSize _ ih => rw [takeBatches_trainingGroups, ih]
  | feedback values _ ih => exact acceptInPlace_finite values ih
  | restore _ hrestore ih =>
    exact (json.restores_of_restore hrestore).finite

end Finite

/-! ### Every run -/

namespace Dispatch

variable {json : FloatJson F J} {sample : R → R × Except String (Point F)}
  {draw : LatentBatch (LatentBatchPayload F R)} {points : List (Point F)}

/-- The batches produced tile the draw up to the position, where its cursor is. -/
structure Inv (json : FloatJson F J) (sample : R → R × Except String (Point F))
    (draw : LatentBatch (LatentBatchPayload F R)) (points : List (Point F)) (position : Nat)
    (s : Dispatch F R) : Prop where
  at_ : At draw position s.buffer
  inside : position ≤ draw.nrSamples
  tiles : Tiles (Carries sample) points 0 s.batches position
  answered : ∀ c ∈ s.calls, 0 < c.1 → ∃ pieces, c.2 = .ok pieces ∧ ∀ b ∈ pieces, b.nrSamples ≤ c.1
  refused : ∀ c ∈ s.calls, c.1 = 0 → c.2 = .error (.engine "evaluator chunk size is zero")
  finite : s.buffer.trainingGroups.all json.finiteGroup = true

theorem Inv.take {position : Nat} {s : Dispatch F R} (h : Inv json sample draw points position s)
    (hcarries : Carries sample draw points) (slots chunkSize : Nat) :
    ∃ s' position', step json s (.take slots chunkSize) = some s' ∧
      Inv json sample draw points position' s' ∧
      (position' = draw.nrSamples ∨
        position + working [BufferEvent.take (F := F) slots chunkSize] ≤ position') := by
  by_cases hchunk : chunkSize = 0
  · -- refused, and the buffer stays
    subst hchunk
    refine ⟨_, position, rfl, ?_, .inr (by simp [working])⟩
    refine ⟨h.at_, h.inside, ?_, ?_, ?_, h.finite⟩
    · simpa [batches, produced] using h.tiles
    · rintro c hc hpos
      rcases List.mem_append.1 hc with hc | hc
      · exact h.answered c hc hpos
      · cases List.mem_singleton.1 hc
        exact absurd hpos (Nat.lt_irrefl 0)
    · rintro c hc hzero
      rcases List.mem_append.1 hc with hc | hc
      · exact h.refused c hc hzero
      · cases List.mem_singleton.1 hc
        rfl
  · have hpos := Nat.pos_of_ne_zero hchunk
    obtain ⟨position', pieces, hanswer, hat, hinside, hcut⟩ :=
      h.at_.takeBatches hcarries h.inside hpos slots
    refine ⟨⟨(s.buffer.takeBatches payloadOps slots chunkSize).1,
      s.calls ++ [(chunkSize, (s.buffer.takeBatches payloadOps slots chunkSize).2)]⟩, position', rfl,
      ⟨hat, hinside, ?_, ?_, ?_, ?_⟩, ?_⟩
    · have htiles := h.tiles.trans hcut.tiles
      simpa [batches, produced, hanswer] using htiles
    · rintro c hc hpositive
      rcases List.mem_append.1 hc with hc | hc
      · exact h.answered c hc hpositive
      · cases List.mem_singleton.1 hc
        exact ⟨pieces, hanswer, hcut.chunk⟩
    · rintro c hc hzero
      rcases List.mem_append.1 hc with hc | hc
      · exact h.refused c hc hzero
      · cases List.mem_singleton.1 hc
        exact absurd hzero hchunk
    · show (s.buffer.takeBatches payloadOps slots chunkSize).1.trainingGroups.all _ = true
      rw [takeBatches_trainingGroups, h.finite]
    · have hlen := hcarries.1
      have hlater := hcut.tiles.le
      have hmoves := hcut.moves
      by_cases hslots : 0 < slots
      · by_cases hopen : position < draw.nrSamples
        · have hlt := hmoves hslots (by omega)
          simp only [working, hslots, hpos, and_self, if_true]
          omega
        · exact .inl (by omega)
      · simp only [working, hslots, false_and, if_false]
        omega

/-- A draw that JSON gives back only loses its coordinate cursor. -/
theorem At.restored {position : Nat} {g g' : GenerationBuffer F (LatentBatchPayload F R)}
    (h : At draw position g) (hdraw : json.Keeps draw.payload) (hg : json.Restores g g') :
    At draw position g' := by
  cases hpending : g.pending with
  | none =>
    rw [h.ended hpending]
    exact .gone (hg.gone hpending)
  | some d =>
    have hbatch := h.batch d hpending
    have hinside := h.inside d hpending
    have hcursor := h.cursor d hpending
    subst hcursor hbatch
    obtain ⟨payload, hpayload, hrestored⟩ := hg.left d hpending
    rw [json.restorePayload_save_iff.2 hdraw] at hpayload
    cases hpayload
    have hleft := At.left hrestored rfl hinside (fun c hc => by cases hc)
    exact hleft

theorem At.congr {position : Nat} {g g' : GenerationBuffer F (LatentBatchPayload F R)}
    (h : At draw position g) (hg : g'.pending = g.pending) : At draw position g' where
  ended hp := h.ended (hg ▸ hp)
  batch d hd := h.batch d (hg ▸ hd)
  cursor d hd := h.cursor d (hg ▸ hd)
  inside d hd := h.inside d (hg ▸ hd)
  coordinate d c hd := h.coordinate d c (hg ▸ hd)

theorem acceptInPlace_pending (values : Feedback F) (g : GenerationBuffer F (LatentBatchPayload F R)) :
    (g.acceptInPlace json.finite values).1.pending = g.pending := by
  rw [GenerationBuffer.acceptInPlace_eq]
  cases haccept : g.acceptFeedback json.finite values with
  | error e => rfl
  | ok accepted => exact GenerationBuffer.acceptFeedback_pending haccept

/-- Every step of a draw that JSON gives back keeps the invariant, and a call with a slot and a chunk size
moves on. -/
theorem Inv.step {position : Nat} {s : Dispatch F R} (h : Inv json sample draw points position s)
    (hcarries : Carries sample draw points) (hdraw : json.Keeps draw.payload)
    (e : BufferEvent F) :
    ∃ s' position', step json s e = some s' ∧ Inv json sample draw points position' s' ∧
      (position' = draw.nrSamples ∨ position + working [e] ≤ position') := by
  cases e with
  | take slots chunkSize => exact h.take hcarries slots chunkSize
  | restore =>
    have hpending : ∀ d, s.buffer.pending = some d → json.Keeps d.batch.payload := by
      rintro d hd
      rw [h.at_.batch d hd]
      exact hdraw
    obtain ⟨buffer, hbuffer⟩ := json.restore_save hpending h.finite
    have hrestores := json.restores_of_restore hbuffer
    refine ⟨{ s with buffer }, position, ?_, ⟨At.restored h.at_ hdraw hrestores, h.inside, h.tiles,
      h.answered, h.refused, hrestores.finite⟩, .inr le_rfl⟩
    unfold Dispatch.step
    dsimp only
    rw [hbuffer]
    rfl
  | record samples =>
    refine ⟨_, position, rfl, ⟨At.congr h.at_ rfl, h.inside, h.tiles, h.answered, h.refused, ?_⟩,
      .inr le_rfl⟩
    simp only [GenerationBuffer.recordDraw, List.all_append, h.finite, Bool.true_and]
    rfl
  | feedback values =>
    exact ⟨_, position, rfl, ⟨At.congr h.at_ (acceptInPlace_pending values s.buffer), h.inside,
      h.tiles, h.answered, h.refused, acceptInPlace_finite values h.finite⟩, .inr le_rfl⟩

theorem Inv.run {position : Nat} {s : Dispatch F R} (h : Inv json sample draw points position s)
    (hcarries : Carries sample draw points) (hdraw : json.Keeps draw.payload)
    (events : List (BufferEvent F)) :
    ∃ s' position', run json s events = some s' ∧ Inv json sample draw points position' s' ∧
      (position' = draw.nrSamples ∨ position + working events ≤ position') := by
  induction events generalizing position s with
  | nil => exact ⟨s, position, rfl, h, .inr le_rfl⟩
  | cons e events ih =>
    obtain ⟨s', position', hstep, hs', hmoved⟩ := h.step hcarries hdraw e
    obtain ⟨s'', position'', hrun, hs'', hlater⟩ := ih hs'
    refine ⟨s'', position'', ?_, hs'', ?_⟩
    · unfold Dispatch.run
      rw [List.foldlM_cons, hstep]
      exact hrun
    · have hsum : working (e :: events) = working [e] + working events := by
        cases e <;> simp [working]
      have hinside := hs''.inside
      rcases hlater with hend | hlater
      · exact .inl hend
      · rcases hmoved with hend | hmoved
        · exact .inl (by omega)
        · exact .inr (by omega)

theorem Inv.emitted {position : Nat} {s : Dispatch F R}
    (h : Inv json sample draw points position s) : s.emitted = position := by
  have hsum := h.tiles.sum_size (·.nrSamples) fun b part hfit => hfit.1
  rw [Nat.zero_add] at hsum
  exact hsum

theorem Inv.lossless {position : Nat} {s : Dispatch F R}
    (h : Inv json sample draw points position s) : Lossless sample draw points s := by
  have hemitted := h.emitted
  have htiles : Tiles (fun b part => materializeBatch sample b = .ok part ∧
      part.length = b.nrSamples) points 0 s.batches s.emitted := by
    rw [hemitted]
    refine h.tiles.mono fun b part hpos hfit => ⟨hfit.materialize ?_, hfit.1⟩
    rw [← hfit.1]
    exact hpos
  refine ⟨h.answered, h.refused, htiles, ?_, fun d hd => ?_, fun hnone => ?_, fun hend => ?_⟩
  · obtain ⟨parts, hparts, hflat⟩ := htiles.parts
    exact ⟨parts, hparts.imp fun _ _ hfit => hfit.1, by simpa using hflat⟩
  · rw [hemitted]
    exact ⟨h.at_.batch d hd, h.at_.cursor d hd⟩
  · rw [hemitted]
    exact h.at_.ended hnone
  · cases hpending : s.buffer.pending with
    | none => rfl
    | some d =>
      have hlt := h.at_.inside d hpending
      omega

/-! ### A draw that JSON changes -/

/-- The points with every float read again. -/
def rereadPoint (json : FloatJson F J) (p : Point F) : Point F :=
  ⟨p.continuous.map json.reread, p.discrete,
    p.weightFactors.map fun factor => (factor.1, json.reread factor.2)⟩

/-- The restored payload carries the points read again, so they are the points of the draw only
if JSON gave every float back. -/
theorem carries_reread (json : FloatJson F J) (hcarries : Carries sample draw points) :
    ∃ points', Carries sample ⟨draw.nrSamples, json.rereadPayload draw.payload⟩ points' ∧
      (points' = points → json.rereadPayload draw.payload = draw.payload) := by
  obtain ⟨hlen, hpayload⟩ := hcarries
  cases hp : draw.payload with
  | havanaInference states offset =>
    rw [hp] at hpayload
    exact ⟨points, ⟨hlen, hpayload⟩, fun _ => rfl⟩
  | indexedBatch signatures map layouts values weights =>
    rw [hp] at hpayload
    have hrows : Rows signatures map layouts (values.map json.reread) (weights.map json.reread)
        (points.map (rereadPoint json)) := by
      constructor
      · rw [hpayload.discrete, List.map_map]
        rfl
      · rw [hpayload.layouts, List.map_map]
        apply List.map_congr_left
        intro p _
        simp [rereadPoint]
      · rw [hpayload.values, List.map_flatMap, List.flatMap_map]
        rfl
      · have hfactors := congrArg (List.map (List.map fun factor : String × F =>
          (factor.1, json.reread factor.2))) hpayload.weights
        rw [List.map_map, List.map_map] at hfactors
        rw [List.map_map, List.map_map]
        exact hfactors
    refine ⟨points.map (rereadPoint json), ⟨by simpa using hlen, hrows⟩, fun hsame => ?_⟩
    rw [hsame] at hrows
    have hvalues : values.map json.reread = values := hrows.values.trans hpayload.values.symm
    have hweights : weights.map json.reread = weights := by
      have hinj : Function.Injective fun w : F => [("sampler_weight", w)] := by
        rintro v w hvw
        cases hvw
        rfl
      exact List.map_injective_iff.2 hinj (hrows.weights.trans hpayload.weights.symm)
    simp only [FloatJson.rereadPayload, hvalues, hweights]

/-- A buffer that is restored and then emptied gives the draw out as JSON gives it back. -/
theorem keeps_of_lossless {g : GenerationBuffer F (LatentBatchPayload F R)} {training : Option Nat}
    (hcarries : Carries sample draw points) (hpos : 0 < draw.nrSamples)
    (hg : g.pending = some ⟨draw, 0, some 0, training⟩) {s : Dispatch F R}
    (hrun : run json ⟨g, []⟩ [.restore, .take 1 draw.nrSamples] = some s)
    (hs : Lossless sample draw points s) : json.Keeps draw.payload := by
  obtain ⟨points', hcarries', hsame⟩ := carries_reread json hcarries
  unfold Dispatch.run at hrun
  rw [List.foldlM_cons] at hrun
  unfold Dispatch.step at hrun
  dsimp only at hrun
  cases hrestore : json.restore (json.save g) with
  | none => simp [hrestore] at hrun
  | some g' =>
    obtain ⟨payload, hpayload, hrestored⟩ := (json.restores_of_restore hrestore).left _ hg
    have hreread := json.restorePayload_save hpayload
    dsimp only at hpayload hrestored hreread
    rw [← hreread] at hcarries' hsame
    have hwhole : g'.takeBatches payloadOps 1 draw.nrSamples =
        ({ g' with pending := none }, .ok [⟨draw.nrSamples, payload⟩]) := by
      have hcoordinate := checkedCoordinate_eq
        (d := ⟨⟨draw.nrSamples, payload⟩, 0, none, training⟩) hcarries' hpos
        (fun c hc => by cases hc)
      unfold GenerationBuffer.takeBatches
      rw [if_neg (by omega), hrestored]
      dsimp only
      rw [hcoordinate]
      dsimp only
      rw [if_pos ⟨Nat.one_pos, rfl, le_rfl⟩]
    simp only [hrestore, Option.map_some, Option.bind_eq_bind, Option.bind_some, List.foldlM_cons,
      List.foldlM_nil, hwhole, Option.pure_def, Option.some.injEq] at hrun
    subst hrun
    obtain ⟨parts, hparts, hflat⟩ := hs.decoded
    have hemitted : emitted (F := F) ⟨{ g' with pending := none },
        [(draw.nrSamples, .ok [⟨draw.nrSamples, payload⟩])]⟩ = points.length := by
      simp [emitted, batches, produced, hcarries.1]
    rw [List.nil_append, hemitted, List.take_length] at hflat
    obtain ⟨part, rest, hpart, hrest, rfl⟩ := List.forall₂_cons_left_iff.1 hparts
    cases hrest
    rw [hcarries'.materialize hpos] at hpart
    cases hpart
    have hkept := hsame (by simpa using hflat)
    rw [← json.restorePayload_save_iff, hpayload, hkept]

/-- A generated draw goes through the buffer without loss, whatever the slots and chunk sizes
and wherever the buffer is saved and restored, if and only if JSON gives its floats back. -/
theorem lossless_iff_keeps {g g' : GenerationBuffer F (LatentBatchPayload F R)}
    {training : Option Nat} (hdraw : Generated sample draw points) (hg : Reached json g)
    (hbuffer : g.bufferDraw payloadOps draw training = .ok g') :
    (∀ events, ∃ s, run json ⟨g', []⟩ events = some s ∧ Lossless sample draw points s ∧
        (draw.nrSamples ≤ working events → s.buffer.pending = none)) ↔ json.Keeps draw.payload := by
  have hcarries := hdraw.carries
  have hpending : g'.pending = some ⟨draw, 0, some 0, training⟩ ∧ 0 < draw.nrSamples := by
    unfold GenerationBuffer.bufferDraw at hbuffer
    split at hbuffer
    · cases hbuffer
    · cases hvalid : draw.validateNrSamples with
      | error e => simp [payloadOps, hvalid] at hbuffer
      | ok u =>
        simp only [payloadOps, hvalid] at hbuffer
        cases hbuffer
        refine ⟨rfl, Nat.pos_of_ne_zero fun hzero => ?_⟩
        simp [LatentBatch.validateNrSamples, hzero] at hvalid
  constructor
  · intro hall
    obtain ⟨s, hrun, hs, -⟩ := hall [.restore, .take 1 draw.nrSamples]
    exact keeps_of_lossless hcarries hpending.2 hpending.1 hrun hs
  · intro hkeeps events
    have hstart : Inv json sample draw points 0 ⟨g', []⟩ :=
      { at_ := .left hpending.1 rfl hpending.2 (fun c hc => by
          cases hc
          cases draw.payload <;> simp [LatentBatchPayload.coordinatesBefore])
        inside := Nat.zero_le _
        tiles := .nil 0
        answered := fun c hc => by cases hc
        refused := fun c hc => by cases hc
        finite := (hg.bufferDraw draw training hbuffer).finite }
    obtain ⟨s, position, hrun, hinv, hmoved⟩ := hstart.run hcarries hkeeps events
    refine ⟨s, hrun, hinv.lossless, fun hworking => ?_⟩
    have hinside := hinv.inside
    rw [hinv.lossless.ended, hinv.emitted]
    omega

/-- Integers and one float that is not a number, which JSON writes as `null`. -/
def intJson : FloatJson (Option Int) (Option Int) where
  finite x := x.isSome
  write x := x
  read j := j.map some
  reads x hx := by
    obtain ⟨n, rfl⟩ := Option.isSome_iff_exists.1 hx
    exact ⟨some n, rfl⟩
  finite_read j y h := by
    obtain ⟨n, -, rfl⟩ := Option.map_eq_some_iff.1 h
    rfl

/-- A draw of two samples with the two first coordinates. -/
def twoSamples (x y : Option Int) : LatentBatch (LatentBatchPayload (Option Int) Nat) :=
  ⟨2, .indexedBatch [[0], [1]] [0, 1] [1, 2] [x, y, some 5] [some 1, some 3]⟩

theorem generated_twoSamples (sample : Nat → Nat × Except String (Point (Option Int)))
    (x y : Option Int) :
    Generated sample (twoSamples x y)
      [Point.new [x] [0] (some 1), Point.new [y, some 5] [1] (some 3)] :=
  .pushed [([0], [x], some 1), ([1], [y, some 5], some 3)]

theorem lossless_twoSamples :
    let sample : Nat → Nat × Except String (Point (Option Int)) := fun rng => (rng, .error "")
    let g : GenerationBuffer (Option Int) (LatentBatchPayload (Option Int) Nat) :=
      ⟨some ⟨twoSamples (some 7) (some 8), 0, some 0, none⟩, [], false⟩
    ∃ s, run intJson ⟨g, []⟩ [.take 1 1, .restore, .take 3 1] = some s ∧
      Lossless sample (twoSamples (some 7) (some 8))
        [Point.new [some 7] [0] (some 1), Point.new [some 8, some 5] [1] (some 3)] s ∧
      (2 ≤ working [BufferEvent.take (F := Option Int) 1 1, .restore, .take 3 1] →
        s.buffer.pending = none) :=
  (lossless_iff_keeps (generated_twoSamples _ (some 7) (some 8)) .empty rfl).2
    ⟨by decide, by decide⟩ [.take 1 1, .restore, .take 3 1]

/-- A coordinate that is not a number is written as `null`, and the buffer cannot be restored
with the rest of its draw. -/
theorem not_lossless_notNumber :
    let sample : Nat → Nat × Except String (Point (Option Int)) := fun rng => (rng, .error "")
    let g : GenerationBuffer (Option Int) (LatentBatchPayload (Option Int) Nat) :=
      ⟨some ⟨twoSamples (some 7) none, 0, some 0, none⟩, [], false⟩
    ¬∀ events, ∃ s, run intJson ⟨g, []⟩ events = some s ∧
      Lossless sample (twoSamples (some 7) none)
        [Point.new [some 7] [0] (some 1), Point.new [none, some 5] [1] (some 3)] s := by
  intro sample g h
  obtain ⟨s, hrun, -⟩ := h [.take 1 1, .restore]
  have hlost : run intJson ⟨g, []⟩ [.take 1 1, .restore] = none := rfl
  rw [hlost] at hrun
  cases hrun

end Dispatch

end Gammaboard.Sampling
