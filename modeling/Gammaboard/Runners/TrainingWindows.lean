import Gammaboard.Lib.Results
import Gammaboard.Runners.AggregatorSteps
import Gammaboard.Sampling.OutstandingFeedback

/-!
# Training windows

The chunks of training draws over the life of a queue. A sampler trains on one window
after the other; a window may come in several draws, and a draw is cut in as many ticks
as it takes. The queue keeps a count of what a window has left beside the one of the
generation buffer, and sizes the chunks of a window when that count has to grow.
-/

namespace Gammaboard.Sampling.GenerationBuffer

open Gammaboard.Core

variable {V P : Type}

/-! ## The buffer -/

/-- The draw in the buffer has samples left and lies within its window. -/
def Within (g : GenerationBuffer V P) : Prop :=
  ∀ draw ∈ g.pending, draw.nextSample < draw.batch.nrSamples ∧
    ∀ n ∈ draw.trainingRemaining, draw.batch.nrSamples ≤ n

/-- What is cut off a draw is taken off its window; an exhausted draw leaves the buffer. -/
theorem takeBatches_window {g g' : GenerationBuffer V P} {ops : PayloadOps P}
    {slots chunkSize : Nat} {pieces : List (LatentBatch P)} (hg : g.Within)
    (h : g.takeBatches ops slots chunkSize = (g', .ok pieces)) :
    g'.Within ∧ ∀ draw ∈ g'.pending, ∃ before ∈ g.pending,
      draw.trainingRemaining = before.trainingRemaining ∧
        before.nextSample + (pieces.map (·.nrSamples)).sum = draw.nextSample := by
  unfold takeBatches at h
  split at h
  · cases h
  · split at h
    · rename_i hnone
      cases h
      exact ⟨hg, fun draw hdraw => by rw [hnone] at hdraw; cases hdraw⟩
    · rename_i draw hpending
      obtain ⟨hopen, hwithin⟩ := hg draw hpending
      split at h
      · cases h
      · rename_i coordinate _
        dsimp only at h
        split at h
        · cases h
          exact ⟨(fun draw hdraw => by cases hdraw), (fun draw hdraw => by cases hdraw)⟩
        · split at h
          · cases h
          · have hcuts := cut_cuts ops chunkSize slots coordinate
              { draw with nextCoordinate := some coordinate } (by dsimp only; omega)
            generalize cut ops chunkSize slots coordinate
              { draw with nextCoordinate := some coordinate } = out at hcuts h
            obtain ⟨draw', cutPieces⟩ := out
            cases cutPieces with
            | error e => cases h
            | ok cutPieces =>
              cases h
              obtain ⟨hbatch, hremaining, hbelow, -, hsamples⟩ := hcuts
              dsimp only at hbatch hremaining hbelow hsamples
              refine ⟨fun d hd => ?_, fun d hd => ?_⟩
              · dsimp only at hd
                split at hd
                · cases hd
                · rename_i hleft
                  cases hd
                  rw [hbatch] at hleft
                  rw [hbatch, hremaining]
                  exact ⟨by omega, hwithin⟩
              · dsimp only at hd
                split at hd
                · cases hd
                · cases hd
                  exact ⟨draw, hpending, hremaining, hsamples _ rfl⟩

theorem cut_le (ops : PayloadOps P) (chunkSize slots coordinate : Nat) (draw : BufferedDraw P)
    {pieces : List (LatentBatch P)} (h : (cut ops chunkSize slots coordinate draw).2 = .ok pieces) :
    (pieces.map (·.nrSamples)).sum ≤ slots * chunkSize := by
  induction slots generalizing coordinate draw pieces with
  | zero =>
    unfold cut at h
    cases h
    exact Nat.zero_le _
  | succ slots ih =>
    unfold cut at h
    dsimp only at h
    split at h
    · cases h
      exact Nat.zero_le _
    · split at h
      · cases h
      · rename_i piece hpiece
        have hsize := sliceAt_nrSamples hpiece
        obtain ⟨rest, hrest, rfl⟩ := Lib.map_eq_ok h
        have hle := ih _ _ hrest
        rw [List.map_cons, List.sum_cons, hsize, Nat.add_mul, Nat.one_mul]
        omega

/-- No more is taken than the slots hold. -/
theorem takeBatches_le {g g' : GenerationBuffer V P} {ops : PayloadOps P}
    {slots chunkSize : Nat} {pieces : List (LatentBatch P)}
    (h : g.takeBatches ops slots chunkSize = (g', .ok pieces)) :
    (pieces.map (·.nrSamples)).sum ≤ slots * chunkSize := by
  unfold takeBatches at h
  split at h
  · cases h
  · split at h
    · cases h
      exact Nat.zero_le _
    · rename_i draw hpending
      split at h
      · cases h
      · rename_i coordinate _
        dsimp only at h
        split at h
        · rename_i hwhole
          cases h
          have hslots : chunkSize ≤ slots * chunkSize := Nat.le_mul_of_pos_left _ hwhole.1
          simpa using hwhole.2.2.trans hslots
        · split at h
          · cases h
          · have hle : ∀ ps, (cut ops chunkSize slots coordinate
                { draw with nextCoordinate := some coordinate }).2 = .ok ps →
                  (ps.map (·.nrSamples)).sum ≤ slots * chunkSize :=
              fun ps hps => cut_le ops chunkSize slots coordinate _ hps
            generalize cut ops chunkSize slots coordinate
              { draw with nextCoordinate := some coordinate } = out at hle h
            obtain ⟨draw', cutPieces⟩ := out
            cases cutPieces with
            | error e => cases h
            | ok cutPieces =>
              cases h
              exact hle _ rfl

end Gammaboard.Sampling.GenerationBuffer

namespace Gammaboard.Runners

open Gammaboard.Core Gammaboard.Stores Gammaboard.Sampling Gammaboard.Evaluation

variable {V P A M C Res : Type}

/-- The largest chunk of a window that has so many samples when its chunks are sized. -/
def windowCap (evaluators samples : Nat) : Nat :=
  max ((samples + (evaluators * 4 - 1)) / (evaluators * 4)) minBatchSize

theorem minBatchSize_le_windowCap (evaluators samples : Nat) :
    16 ≤ windowCap evaluators samples := le_max_right _ _

namespace TrainingBatchSizing

/-- Whether a call computes the cap. -/
def recomputes (s : TrainingBatchSizing) (remaining evaluators : Nat) : Bool :=
  s.previousRemaining.all (· < remaining) || s.evaluators != evaluators

variable {s : TrainingBatchSizing} {target remaining evaluators : Nat}

theorem batchSize_some (hremaining : 0 < remaining) (hevaluators : 0 < evaluators) :
    s.batchSize target (some remaining) evaluators =
      let cap := if s.recomputes remaining evaluators then some (windowCap evaluators remaining) else s.cap
      (⟨some remaining, evaluators, cap⟩, min target (cap.getD target)) := by
  unfold batchSize
  dsimp only
  rw [if_pos ⟨hremaining, hevaluators⟩]
  rfl

end TrainingBatchSizing

/-! ## The queue -/

namespace SamplerQueue

variable {q : SamplerQueue P C Res}

theorem pump_sizing (slots : Nat) (src : IdSource) (q : SamplerQueue P C Res) :
    (pump slots src q).2.trainingBatchSizing = q.trainingBatchSizing ∧
      (pump slots src q).2.cachedActiveEvaluatorCount = q.cachedActiveEvaluatorCount := by
  induction slots generalizing src q with
  | zero => exact ⟨rfl, rfl⟩
  | succ slots ih =>
    unfold pump
    split
    · exact ⟨rfl, rfl⟩
    · exact ih _ _

/-- The batches are taken off what the window had left. -/
theorem ingest_sizing (batches : List (EvaluationBatch P C)) (requiresFeedback : Bool)
    (src : IdSource) (q : SamplerQueue P C Res) :
    (q.ingest batches requiresFeedback src).2.trainingBatchSizing =
        { q.trainingBatchSizing with
          previousRemaining := q.trainingBatchSizing.previousRemaining.map
            (· - (batches.map (·.samples.nrSamples)).sum) } ∧
      (q.ingest batches requiresFeedback src).2.cachedActiveEvaluatorCount =
        q.cachedActiveEvaluatorCount :=
  pump_sizing _ _ _

end SamplerQueue

/-! ## Runs -/

/-- A runner with the window its training draws belong to: its size, what of it has not been cut,
what the initial round trip has cut from it, and what it had left when its chunks were sized
first. -/
structure Windowed (V P A M C : Type) where
  runner : SamplerAggregatorRunner V P A M C
  size : Nat
  left : Nat
  trip : Nat
  first : Option Nat

namespace Windowed

/-- The samples that training draws still have to be cut into. -/
def generation (w : Windowed V P A M C) : GenerationBuffer V P := w.runner.runtimeState.generation

def sizing (w : Windowed V P A M C) : TrainingBatchSizing := w.runner.queue.trainingBatchSizing

/-- A window begins with the first draw after the one before is exhausted. -/
def drawn (w : Windowed V P A M C) (r : SamplerAggregatorRunner V P A M C) : Windowed V P A M C :=
  match r.runtimeState.generation.trainingRemaining with
  | none => ⟨r, 0, 0, 0, none⟩
  | some n => if w.left = 0 then ⟨r, n, n, 0, none⟩ else { w with runner := r }

/-- Pieces of a training draw belong to the window. -/
def sent (w : Windowed V P A M C) (r : SamplerAggregatorRunner V P A M C) : Windowed V P A M C :=
  if w.generation.requiresFeedback then
    let cut := w.generation.pendingSamples - r.runtimeState.generation.pendingSamples
    if w.runner.runtimeState.accumulatorCheckpointState = .needsInitialRoundTrip then
      { w with runner := r, left := w.left - cut, trip := cut }
    else { w with runner := r, left := w.left - cut, first := w.first.or (some w.left) }
  else { w with runner := r }

end Windowed

/-- A draw goes on with the window that is left, or begins one when nothing is left. -/
def Successive (left : Nat) : Option Nat → Prop
  | none => left = 0
  | some n => left = 0 ∨ n = left

variable (kit : Kit V P A M C) (evaluators : Nat)

/-- What may happen to a window: the sampler draws from it, pieces of the draw are sent, or
something that touches neither the draw nor the sizing, while the evaluators stay as many. -/
inductive WindowStep : Windowed V P A M C → Windowed V P A M C → Prop
  | draw {w : Windowed V P A M C} {maxSamples : Nat} {r : SamplerAggregatorRunner V P A M C}
      (empty : w.generation.pending = none)
      (h : SamplerAggregatorRunner.generateDraw kit maxSamples w.runner = (r, none))
      (successive : Successive w.left r.runtimeState.generation.trainingRemaining) :
      WindowStep w (w.drawn r)
  | send {w : Windowed V P A M C} {src src' : IdSource} {r : SamplerAggregatorRunner V P A M C}
      {count : Nat × Bool} (pending : w.generation.hasPending = true)
      (h : SamplerAggregatorRunner.enqueueSlots kit src w.runner = (src', r, .ok count)) :
      WindowStep w (w.sent r)
  | other {w : Windowed V P A M C} {r : SamplerAggregatorRunner V P A M C}
      (pending : r.runtimeState.generation.pending = w.generation.pending)
      (sizing : r.queue.trainingBatchSizing = w.sizing)
      (cached : r.queue.cachedActiveEvaluatorCount = some evaluators)
      (state : r.runtimeState.accumulatorCheckpointState = .needsInitialRoundTrip →
        w.runner.runtimeState.accumulatorCheckpointState = .needsInitialRoundTrip) :
      WindowStep w { w with runner := r }

/-- A runner with a new queue, and with what a restored draw has left as its first window. -/
structure WindowStart (w : Windowed V P A M C) : Prop where
  queue : w.sizing = .initial
  cached : w.runner.queue.cachedActiveEvaluatorCount = some evaluators
  within : w.generation.Within
  size : w.size = w.generation.trainingRemaining.getD 0
  left : w.left = w.size
  trip : w.trip = 0
  first : w.first = none

inductive WindowRun : Windowed V P A M C → Prop
  | start {w : Windowed V P A M C} (h : WindowStart evaluators w) : WindowRun w
  | step {w w' : Windowed V P A M C} (h : WindowRun w) (hstep : WindowStep kit evaluators w w') :
      WindowRun w'

/-! ## The invariant -/

/-- The count of the queue is in step with what the window has left. -/
structure InStep (w : Windowed V P A M C) : Prop where
  cached : w.runner.queue.cachedActiveEvaluatorCount = some evaluators
  within : w.generation.Within
  left : w.generation.pending.isSome → w.generation.trainingRemaining.getD 0 = w.left
  untrained : ∀ draw ∈ w.generation.pending, draw.trainingRemaining = none → w.first = none
  sized : ∀ s ∈ w.first, s + w.trip = w.size ∧
    w.sizing = ⟨some w.left, evaluators, some (windowCap evaluators s)⟩
  unsized : w.first = none → w.left + w.trip = w.size ∧ w.sizing.previousRemaining.getD 0 = 0
  trip : w.trip ≤ minBatchSize
  before : w.runner.runtimeState.accumulatorCheckpointState = .needsInitialRoundTrip →
    w.trip = 0 ∧ w.first = none

variable {kit evaluators} {w w' : Windowed V P A M C}

theorem WindowStart.inStep (h : WindowStart evaluators w) : InStep evaluators w where
  cached := h.cached
  within := h.within
  left := fun _ => by rw [h.left, h.size]
  untrained := fun _ _ _ => h.first
  sized := fun s hs => by rw [h.first] at hs; cases hs
  unsized := fun _ => by
    rw [h.trip, h.left, h.queue]
    exact ⟨rfl, rfl⟩
  trip := by
    rw [h.trip]
    exact Nat.zero_le _
  before := fun _ => ⟨h.trip, h.first⟩

/-- What a successful draw leaves in the buffer and in the queue. -/
theorem generateDraw_ok {maxSamples : Nat} {r r' : SamplerAggregatorRunner V P A M C}
    (h : SamplerAggregatorRunner.generateDraw kit maxSamples r = (r', none)) :
    r'.queue = r.queue ∧
      r'.runtimeState.accumulatorCheckpointState = r.runtimeState.accumulatorCheckpointState ∧
      ∃ batch remaining, r'.runtimeState.generation.pending = some ⟨batch, 0, some 0, remaining⟩ ∧
        0 < batch.nrSamples ∧ ∀ n ∈ remaining, batch.nrSamples ≤ n := by
  unfold SamplerAggregatorRunner.generateDraw at h
  split at h
  · cases h
  · cases h
  · cases h
  · rename_i sampler batch remaining _
    dsimp only at h
    split at h
    · cases h
    · rename_i hbatch
      simp only [not_or, not_lt] at hbatch
      obtain ⟨hpos, -, hremaining⟩ := hbatch
      split at h
      · cases h
      · rename_i generation hbuffer
        unfold GenerationBuffer.bufferDraw at hbuffer
        split at hbuffer
        · cases hbuffer
        · split at hbuffer
          · cases hbuffer
          · cases hbuffer
            cases h
            refine ⟨rfl, rfl, batch, remaining, ?_, Nat.pos_of_ne_zero hpos, fun n hn => ?_⟩
            · dsimp only
              split <;> rfl
            · rw [hn] at hremaining
              simpa using hremaining

theorem InStep.draw (hw : InStep evaluators w) {maxSamples : Nat}
    {r : SamplerAggregatorRunner V P A M C}
    (h : SamplerAggregatorRunner.generateDraw kit maxSamples w.runner = (r, none))
    (hsuccessive : Successive w.left r.runtimeState.generation.trainingRemaining) :
    InStep evaluators (w.drawn r) := by
  obtain ⟨hqueue, hstate, batch, remaining, hpending, hpos, hle⟩ := generateDraw_ok h
  have hwithin : r.runtimeState.generation.Within := by
    intro draw hdraw
    rw [hpending] at hdraw
    cases hdraw
    exact ⟨hpos, hle⟩
  have htraining : r.runtimeState.generation.trainingRemaining = remaining := by
    unfold GenerationBuffer.trainingRemaining
    rw [hpending]
    simp
  have hzero : w.left = 0 → w.sizing.previousRemaining.getD 0 = 0 := by
    intro hleft
    cases hfirst : w.first with
    | none => exact (hw.unsized hfirst).2
    | some s =>
      rw [(hw.sized s hfirst).2]
      exact hleft
  unfold Windowed.drawn
  rw [htraining] at hsuccessive ⊢
  have hcached : r.queue.cachedActiveEvaluatorCount = some evaluators := by
    rw [hqueue]
    exact hw.cached
  have hsizing : r.queue.trainingBatchSizing = w.sizing := by
    rw [hqueue]
    rfl
  cases remaining with
  | none =>
    have hleft : w.left = 0 := hsuccessive
    refine ⟨hcached, hwithin, fun _ => ?_, fun _ _ _ => rfl, (fun s hs => by cases hs),
      fun _ => ⟨rfl, ?_⟩, Nat.zero_le _, fun _ => ⟨rfl, rfl⟩⟩
    · show r.runtimeState.generation.trainingRemaining.getD 0 = 0
      rw [htraining]
      rfl
    · show r.queue.trainingBatchSizing.previousRemaining.getD 0 = 0
      rw [hsizing]
      exact hzero hleft
  | some n =>
    dsimp only
    have hn : r.runtimeState.generation.trainingRemaining.getD 0 = n := by
      rw [htraining]
      rfl
    split
    · rename_i hleft
      refine ⟨hcached, hwithin, fun _ => hn, fun _ _ _ => rfl, (fun s hs => by cases hs),
        fun _ => ⟨rfl, ?_⟩, Nat.zero_le _, fun _ => ⟨rfl, rfl⟩⟩
      show r.queue.trainingBatchSizing.previousRemaining.getD 0 = 0
      rw [hsizing]
      exact hzero hleft
    · rename_i hleft
      have hsame : n = w.left := hsuccessive.resolve_left hleft
      refine ⟨hcached, hwithin, fun _ => hn.trans hsame, fun draw hdraw hnone => ?_, fun s hs => ?_,
        fun hfirst => ?_, hw.trip, fun hneeds => hw.before (hstate.symm.trans hneeds)⟩
      · have hdraw : r.runtimeState.generation.pending = some draw := hdraw
        rw [hpending] at hdraw
        cases hdraw
        cases hnone
      · obtain ⟨hsum, hsized⟩ := hw.sized s hs
        exact ⟨hsum, hsizing.trans hsized⟩
      · obtain ⟨hsum, hunsized⟩ := hw.unsized hfirst
        refine ⟨hsum, ?_⟩
        show r.queue.trainingBatchSizing.previousRemaining.getD 0 = 0
        rw [hsizing]
        exact hunsized

/-- What has been sent when it succeeds. -/
theorem enqueueGenerated_ok {slots chunkSize : Nat} {src src' : IdSource}
    {r r' : SamplerAggregatorRunner V P A M C} {count : Nat}
    (h : SamplerAggregatorRunner.enqueueGenerated kit slots chunkSize src r = (src', r', .ok count)) :
    ∃ pieces, r.runtimeState.generation.takeBatches kit.sampler.payload slots chunkSize =
        (r'.runtimeState.generation, .ok pieces) ∧
      r'.queue.trainingBatchSizing = { r.queue.trainingBatchSizing with
        previousRemaining := r.queue.trainingBatchSizing.previousRemaining.map
          (· - (pieces.map (·.nrSamples)).sum) } ∧
      r'.queue.cachedActiveEvaluatorCount = r.queue.cachedActiveEvaluatorCount ∧
      r'.runtimeState.accumulatorCheckpointState = r.runtimeState.accumulatorCheckpointState := by
  unfold SamplerAggregatorRunner.enqueueGenerated at h
  dsimp only at h
  split at h
  · cases h
  · rename_i generation pieces htake
    have hingest := SamplerQueue.ingest_sizing
      (pieces.map fun b => (⟨b, kit.sampler.request r.observableState⟩ : EvaluationBatch P C))
      r.runtimeState.generation.requiresFeedback src r.queue
    rw [List.map_map] at hingest
    cases h
    exact ⟨pieces, htake, hingest.1, hingest.2, rfl⟩

/-- How a draw is cut: by the round trip, or in chunks of the size of the queue. -/
theorem enqueueSlots_ok {src src' : IdSource} {r r' : SamplerAggregatorRunner V P A M C}
    {count : Nat × Bool}
    (h : SamplerAggregatorRunner.enqueueSlots kit src r = (src', r', .ok count)) :
    ∃ slots chunkSize sizing pieces,
      r.runtimeState.generation.takeBatches kit.sampler.payload slots chunkSize =
        (r'.runtimeState.generation, .ok pieces) ∧
      r'.queue.trainingBatchSizing = { sizing with
        previousRemaining := sizing.previousRemaining.map (· - (pieces.map (·.nrSamples)).sum) } ∧
      r'.queue.cachedActiveEvaluatorCount = r.queue.cachedActiveEvaluatorCount ∧
      r'.runtimeState.accumulatorCheckpointState ≠ .needsInitialRoundTrip ∧
      (if r.runtimeState.accumulatorCheckpointState = .needsInitialRoundTrip then
        slots = 1 ∧ chunkSize = minBatchSize ∧ sizing = r.queue.trainingBatchSizing
      else sizing = (r.queue.productionBatchSize
        r.runtimeState.generation.trainingRemaining).1.trainingBatchSizing) := by
  unfold SamplerAggregatorRunner.enqueueSlots at h
  dsimp only at h
  split at h
  · rename_i hneeds
    generalize hsent : SamplerAggregatorRunner.enqueueGenerated kit 1 minBatchSize src
      { r with runtimeState := { r.runtimeState with
          accumulatorCheckpointState := .waitingForInitialRoundTrip } } = sent at h
    obtain ⟨src₁, r₁, result⟩ := sent
    cases result with
    | error e => cases h
    | ok n =>
      cases h
      obtain ⟨pieces, htake, hsizing, hcached, hstate⟩ := enqueueGenerated_ok hsent
      refine ⟨1, minBatchSize, _, pieces, htake, hsizing, hcached, ?_, ?_⟩
      · rw [hstate]
        exact fun h => by cases h
      · rw [if_pos hneeds]
        exact ⟨rfl, rfl, rfl⟩
  · rename_i hneeds
    generalize hsent : SamplerAggregatorRunner.enqueueGenerated kit r.queue.config.maxBatchesPerTick
      (r.queue.productionBatchSize r.runtimeState.generation.trainingRemaining).2 src
      { r with queue :=
          (r.queue.productionBatchSize r.runtimeState.generation.trainingRemaining).1 } = sent at h
    obtain ⟨src₁, r₁, result⟩ := sent
    cases result with
    | error e => cases h
    | ok n =>
      cases h
      obtain ⟨pieces, htake, hsizing, hcached, hstate⟩ := enqueueGenerated_ok hsent
      refine ⟨_, _, _, pieces, htake, hsizing, hcached, ?_, ?_⟩
      · rw [hstate]
        exact hneeds
      · rw [if_neg hneeds]

/-- A call that sizes the chunks of a window computes the cap when it is the first one. -/
theorem InStep.batchSize (hw : InStep evaluators w) (hevaluators : 0 < evaluators)
    (hleft : 0 < w.left) (target : Nat) :
    w.sizing.batchSize target (some w.left) evaluators =
      (⟨some w.left, evaluators, some (windowCap evaluators (w.first.getD w.left))⟩,
        min target (windowCap evaluators (w.first.getD w.left))) ∧
    (w.sizing.recomputes w.left evaluators = true ↔ w.first = none) := by
  rw [TrainingBatchSizing.batchSize_some hleft hevaluators]
  cases hfirst : w.first with
  | none =>
    obtain ⟨-, hunsized⟩ := hw.unsized hfirst
    have hrecomputes : w.sizing.recomputes w.left evaluators = true := by
      unfold TrainingBatchSizing.recomputes
      cases hprevious : w.sizing.previousRemaining with
      | none => rfl
      | some n =>
        rw [hprevious, Option.getD_some] at hunsized
        rw [hunsized, Option.all_some, decide_eq_true hleft]
        rfl
    rw [hrecomputes]
    exact ⟨rfl, fun _ => rfl, fun _ => rfl⟩
  | some s =>
    obtain ⟨-, hsized⟩ := hw.sized s hfirst
    have hkept : w.sizing.recomputes w.left evaluators = false := by
      rw [hsized]
      simp [TrainingBatchSizing.recomputes]
    rw [hkept]
    refine ⟨?_, (fun h => by cases h), (fun h => by cases h)⟩
    dsimp only
    rw [if_neg Bool.false_ne_true, hsized]
    rfl

theorem InStep.send (hw : InStep evaluators w) (hevaluators : 0 < evaluators)
    {src src' : IdSource} {r : SamplerAggregatorRunner V P A M C} {count : Nat × Bool}
    (hpending : w.generation.hasPending = true)
    (h : SamplerAggregatorRunner.enqueueSlots kit src w.runner = (src', r, .ok count)) :
    InStep evaluators (w.sent r) := by
  obtain ⟨slots, chunkSize, sizing, pieces, htake, hsizing, hcached, hstate, hcase⟩ :=
    enqueueSlots_ok h
  have hcached' := hcached.trans hw.cached
  obtain ⟨draw, hdraw⟩ := Option.isSome_iff_exists.1 hpending
  obtain ⟨hopen, hin⟩ := hw.within draw hdraw
  have hleft := hw.left hpending
  obtain ⟨hwithin, hrest⟩ := GenerationBuffer.takeBatches_window hw.within htake
  have hsum := (GenerationBuffer.takeBatches_samples kit.sampler.payload slots chunkSize
    w.runner.runtimeState.generation).1 pieces (by rw [htake])
  rw [htake] at hsum
  have hbefore : w.generation.pendingSamples = draw.batch.nrSamples - draw.nextSample := by
    unfold GenerationBuffer.pendingSamples
    rw [hdraw]
    rfl
  have hcut : w.generation.pendingSamples - r.runtimeState.generation.pendingSamples =
      (pieces.map (·.nrSamples)).sum := by
    have hsum : (pieces.map (·.nrSamples)).sum + r.runtimeState.generation.pendingSamples =
      w.generation.pendingSamples := hsum
    omega
  have hremaining : w.generation.trainingRemaining = draw.trainingRemaining.map (· - draw.nextSample) := by
    unfold GenerationBuffer.trainingRemaining
    rw [hdraw]
    rfl
  have hfeedback : w.generation.requiresFeedback = draw.trainingRemaining.isSome := by
    unfold GenerationBuffer.requiresFeedback
    rw [hdraw]
    rfl
  have hback : ∀ d ∈ r.runtimeState.generation.pending, d.trainingRemaining = draw.trainingRemaining ∧
      draw.nextSample + (pieces.map (·.nrSamples)).sum = d.nextSample := by
    intro d hd
    obtain ⟨before, hmem, hsame, hnext⟩ := hrest d hd
    have hmem : w.generation.pending = some before := hmem
    obtain rfl := Option.some.inj (hdraw.symm.trans hmem)
    exact ⟨hsame, hnext⟩
  unfold Windowed.sent
  rw [hfeedback]
  cases htraining : draw.trainingRemaining with
  | none =>
    have hfirst := hw.untrained draw hdraw htraining
    obtain ⟨hwhole, hunsized⟩ := hw.unsized hfirst
    have hzero : w.left = 0 := by
      rw [← hleft, hremaining, htraining]
      rfl
    have hprevious : r.queue.trainingBatchSizing.previousRemaining.getD 0 = 0 := by
      split at hcase
      · obtain ⟨-, -, rfl⟩ := hcase
        rw [hsizing]
        have hunsized : w.runner.queue.trainingBatchSizing.previousRemaining.getD 0 = 0 := hunsized
        cases hp : w.runner.queue.trainingBatchSizing.previousRemaining with
        | none => rfl
        | some m =>
          rw [hp, Option.getD_some] at hunsized
          rw [Option.map_some, Option.getD_some, hunsized, Nat.zero_sub]
      · have hnone : w.runner.runtimeState.generation.trainingRemaining = none := by
          rw [htraining] at hremaining
          exact hremaining
        rw [hsizing, hcase, hnone]
        rfl
    refine ⟨hcached', hwithin, fun hsome => ?_, fun _ _ _ => hfirst, fun s hs => ?_,
      fun _ => ⟨hwhole, hprevious⟩, hw.trip, fun hneeds => absurd hneeds hstate⟩
    · obtain ⟨d, hd⟩ := Option.isSome_iff_exists.1 hsome
      obtain ⟨hsame, -⟩ := hback d hd
      show r.runtimeState.generation.trainingRemaining.getD 0 = w.left
      have hd : r.runtimeState.generation.pending = some d := hd
      unfold GenerationBuffer.trainingRemaining
      rw [hd, hzero]
      simp [hsame, htraining]
    · have hs : w.first = some s := hs
      rw [hfirst] at hs
      cases hs
  | some n =>
    have hn : draw.batch.nrSamples ≤ n := hin n htraining
    have hleft : n - draw.nextSample = w.left := by
      rw [← hleft, hremaining, htraining]
      rfl
    have hgo : w.runner.runtimeState.generation.trainingRemaining = some w.left := by
      rw [← hleft]
      rw [htraining] at hremaining
      exact hremaining
    have hnext : ∀ d ∈ r.runtimeState.generation.pending,
        r.runtimeState.generation.trainingRemaining.getD 0 =
          w.left - (pieces.map (·.nrSamples)).sum := by
      intro d hd
      obtain ⟨hsame, hsum⟩ := hback d hd
      have hd : r.runtimeState.generation.pending = some d := hd
      unfold GenerationBuffer.trainingRemaining
      rw [hd, Option.bind_some, hsame, htraining]
      show n - d.nextSample = _
      omega
    have htrained : ∀ d ∈ r.runtimeState.generation.pending, d.trainingRemaining ≠ none := by
      intro d hd
      rw [(hback d hd).1, htraining]
      exact Option.some_ne_none n
    rw [Option.isSome_some, if_pos rfl]
    dsimp only
    rw [hcut]
    split
    · rename_i hneeds
      rw [if_pos hneeds] at hcase
      obtain ⟨rfl, rfl, rfl⟩ := hcase
      obtain ⟨htrip, hfirst⟩ := hw.before hneeds
      obtain ⟨hwhole, hunsized⟩ := hw.unsized hfirst
      have hle := GenerationBuffer.takeBatches_le htake
      refine ⟨hcached', hwithin, fun hsome => ?_, fun d hd hnone => absurd hnone (htrained d hd),
        fun s hs => ?_, fun _ => ⟨?_, ?_⟩, ?_, fun hneeds => absurd hneeds hstate⟩
      · obtain ⟨d, hd⟩ := Option.isSome_iff_exists.1 hsome
        exact hnext d hd
      · have hs : w.first = some s := hs
        rw [hfirst] at hs
        cases hs
      · show w.left - (pieces.map (·.nrSamples)).sum + (pieces.map (·.nrSamples)).sum = w.size
        have hfits : (pieces.map (·.nrSamples)).sum ≤ w.left := by
          rw [← hcut, hbefore]
          omega
        omega
      · show r.queue.trainingBatchSizing.previousRemaining.getD 0 = 0
        rw [hsizing]
        have hunsized : w.runner.queue.trainingBatchSizing.previousRemaining.getD 0 = 0 := hunsized
        cases hp : w.runner.queue.trainingBatchSizing.previousRemaining with
        | none => rfl
        | some m =>
          rw [hp, Option.getD_some] at hunsized
          rw [Option.map_some, Option.getD_some, hunsized, Nat.zero_sub]
      · show (pieces.map (·.nrSamples)).sum ≤ minBatchSize
        omega
    · rename_i hneeds
      rw [if_neg hneeds, hgo] at hcase
      have hsized : sizing = ⟨some w.left, evaluators,
          some (windowCap evaluators (w.first.getD w.left))⟩ := by
        rw [hcase]
        unfold SamplerQueue.productionBatchSize
        dsimp only
        rw [hw.cached, Option.getD_some]
        exact congrArg Prod.fst (hw.batchSize hevaluators (by omega) _).1
      have hfirst : w.first.or (some w.left) = some (w.first.getD w.left) := by
        cases w.first <;> rfl
      refine ⟨hcached', hwithin, fun hsome => ?_, fun d hd hnone => absurd hnone (htrained d hd),
        fun s hs => ⟨?_, ?_⟩, fun hnone => ?_, hw.trip, fun hneeds => absurd hneeds hstate⟩
      · obtain ⟨d, hd⟩ := Option.isSome_iff_exists.1 hsome
        exact hnext d hd
      · have hs : w.first.or (some w.left) = some s := hs
        rw [hfirst] at hs
        obtain rfl := Option.some.inj hs
        show w.first.getD w.left + w.trip = w.size
        cases hwf : w.first with
        | none => exact (hw.unsized hwf).1
        | some s => exact (hw.sized s hwf).1
      · have hs : w.first.or (some w.left) = some s := hs
        rw [hfirst] at hs
        obtain rfl := Option.some.inj hs
        show r.queue.trainingBatchSizing = _
        rw [hsizing, hsized]
        rfl
      · have hnone : w.first.or (some w.left) = none := hnone
        rw [hfirst] at hnone
        cases hnone

theorem InStep.step (hw : InStep evaluators w) (hevaluators : 0 < evaluators)
    (h : WindowStep kit evaluators w w') : InStep evaluators w' := by
  cases h with
  | draw empty h successive => exact hw.draw h successive
  | send pending h => exact hw.send hevaluators pending h
  | @other r pending sizing cached state =>
    have htraining : r.runtimeState.generation.trainingRemaining =
        w.generation.trainingRemaining := by
      unfold GenerationBuffer.trainingRemaining
      rw [pending]
    refine ⟨cached, fun draw hdraw => hw.within draw (pending ▸ hdraw), fun hsome => ?_,
      fun draw hdraw => hw.untrained draw (pending ▸ hdraw), fun s hs => ?_, fun hfirst => ?_, hw.trip,
      fun hneeds => hw.before (state hneeds)⟩
    · show r.runtimeState.generation.trainingRemaining.getD 0 = w.left
      rw [htraining]
      exact hw.left (pending ▸ hsome)
    · obtain ⟨hsum, hsized⟩ := hw.sized s hs
      exact ⟨hsum, sizing.trans hsized⟩
    · obtain ⟨hsum, hunsized⟩ := hw.unsized hfirst
      refine ⟨hsum, ?_⟩
      show r.queue.trainingBatchSizing.previousRemaining.getD 0 = 0
      rw [sizing]
      exact hunsized

theorem WindowRun.inStep (h : WindowRun kit evaluators w) (hevaluators : 0 < evaluators) :
    InStep evaluators w := by
  induction h with
  | start h => exact h.inStep
  | step h hstep ih => exact ih.step hevaluators hstep

/-! ## The cap of a window -/

/-- What holds of the sizing whenever a window is cut. -/
structure CutEvenly (evaluators : Nat) (w : Windowed V P A M C) : Prop where
  /-- While a training draw is in the buffer, it has left what its window has left. -/
  remaining : w.generation.requiresFeedback = true →
    w.generation.trainingRemaining = some w.left ∧ 0 < w.left
  /-- A call computes the cap when it is the first one of its window and only then. -/
  recomputes : w.generation.requiresFeedback = true →
    (w.sizing.recomputes w.left evaluators = true ↔ w.first = none)
  /-- From then on the cap is the one of what the window had left at that call. -/
  cap : ∀ s ∈ w.first, w.sizing.previousRemaining = some w.left ∧
    w.sizing.cap = some (windowCap evaluators s)
  chunk : w.generation.requiresFeedback = true →
    (w.runner.queue.productionBatchSize w.generation.trainingRemaining).2 =
      min w.runner.queue.checkpoint.batchSizeCurrent (windowCap evaluators (w.first.getD w.left)) ∧
    (w.runner.queue.productionBatchSize w.generation.trainingRemaining).1.trainingBatchSizing.cap =
      some (windowCap evaluators (w.first.getD w.left))
  /-- That is all of the window but what the initial round trip has cut from it. -/
  whole : ∀ s ∈ w.first, s + w.trip = w.size
  untouched : w.first = none → w.left + w.trip = w.size
  trip : w.trip ≤ 16
  least : ∀ s, 16 ≤ windowCap evaluators s

/-- Until a window is exhausted it stays sized. -/
theorem WindowStep.first_kept (h : WindowStep kit evaluators w w') (hw : InStep evaluators w)
    (hleft : 0 < w.left) {s : Nat} (hs : w.first = some s) : w'.first = some s := by
  cases h with
  | @draw maxSamples r empty h successive =>
    unfold Windowed.drawn
    cases hremaining : r.runtimeState.generation.trainingRemaining with
    | none =>
      rw [hremaining] at successive
      have hzero : w.left = 0 := successive
      omega
    | some n =>
      dsimp only
      rw [if_neg (by omega)]
      exact hs
  | @send src src' r count pending h =>
    unfold Windowed.sent
    dsimp only
    split
    · split
      · exact hs
      · show w.first.or (some w.left) = some s
        rw [hs]
        rfl
    · exact hs
  | other pending sizing cached state => exact hs

theorem cut_evenly (hevaluators : 0 < evaluators) (h : WindowRun kit evaluators w) :
    CutEvenly evaluators w := by
  have hw := h.inStep hevaluators
  have hremaining : w.generation.requiresFeedback = true →
      w.generation.trainingRemaining = some w.left ∧ 0 < w.left := by
    intro hfeedback
    unfold GenerationBuffer.requiresFeedback at hfeedback
    obtain ⟨draw, hdraw, htraining⟩ := (Option.any_eq_true _ _).1 hfeedback
    obtain ⟨n, hn⟩ := Option.isSome_iff_exists.1 htraining
    obtain ⟨hopen, hin⟩ := hw.within draw hdraw
    have hle := hin n hn
    have hgo : w.generation.trainingRemaining = some (n - draw.nextSample) := by
      unfold GenerationBuffer.trainingRemaining
      rw [hdraw, Option.bind_some, hn]
      rfl
    have hleft := hw.left (by rw [hdraw]; rfl)
    rw [hgo, Option.getD_some] at hleft
    exact ⟨hleft ▸ hgo, by omega⟩
  refine ⟨hremaining, fun hfeedback => ?_, fun s hs => ?_, fun hfeedback => ?_,
    fun s hs => (hw.sized s hs).1, fun hfirst => (hw.unsized hfirst).1, hw.trip,
    minBatchSize_le_windowCap evaluators⟩
  · exact (hw.batchSize hevaluators (hremaining hfeedback).2 0).2
  · rw [(hw.sized s hs).2]
    exact ⟨rfl, rfl⟩
  · obtain ⟨hgo, hpos⟩ := hremaining hfeedback
    have hsize := (hw.batchSize hevaluators hpos w.runner.queue.checkpoint.batchSizeCurrent).1
    have hsize : w.runner.queue.trainingBatchSizing.batchSize _ _ _ = _ := hsize
    unfold SamplerQueue.productionBatchSize
    dsimp only
    rw [hgo, hw.cached, Option.getD_some, hsize]
    exact ⟨rfl, rfl⟩

/-- Over successive windows and with the same evaluators, the cap of the chunks is computed once a
window, at its first call, from what the window has left then, and kept until it is exhausted. -/
theorem training_windows (hevaluators : 0 < evaluators) (h : WindowRun kit evaluators w) :
    CutEvenly evaluators w ∧
      ∀ w', WindowStep kit evaluators w w' → 0 < w.left → ∀ s ∈ w.first,
        w'.first = some s ∧ w'.sizing.cap = w.sizing.cap := by
  have hcut := cut_evenly hevaluators h
  refine ⟨hcut, fun w' hstep hleft s hs => ?_⟩
  have hfirst := hstep.first_kept (h.inStep hevaluators) hleft hs
  refine ⟨hfirst, ?_⟩
  rw [((cut_evenly hevaluators (h.step hstep)).cap s hfirst).2, (hcut.cap s hs).2]

/-! ## The initial round trip -/

/-- A sampler of windows of 1040 samples. -/
def windowSampler : SamplerOps Unit Unit Unit Unit Unit where
  finite _ := true
  payload := ⟨fun _ => .ok (), fun _ n => some n, fun _ _ _ _ => .ok (), fun _ => 0⟩
  request _ := ()
  generate m limit := (m, .ok (.batch ⟨limit, ()⟩ (some 1040)))
  feedback m _ := (m, none)
  snapshot m := (m, .ok m)
  kindStr _ := "empty"
  uncertaintyReady _ := false
  estimateForStop _ := .ok none
  reaches _ _ := false
  stopTarget := "default mean"

def windowKit : Kit Unit Unit Unit Unit Unit :=
  ⟨windowSampler, ⟨fun _ _ => ((), none), fun _ => .ok (), fun _ => 0, fun _ => false,
    fun _ h => by cases h⟩⟩

/-- A new queue with four evaluators. -/
def newRunner : SamplerAggregatorRunner Unit Unit Unit Unit Unit where
  task := ⟨1, none, none⟩
  nrProducedSamples := 0
  nrCompletedSamples := 0
  sampler := ()
  observableState := ()
  runtimeState := .initial
  queue := { SamplerQueue.new 1 1 ⟨4096, 4096, some 100, 1, 16, 2, 4⟩ ⟨none, none, 100⟩ [] [] with
    cachedActiveEvaluatorCount := some 4 }
  waitingForCampaignBudget := false
  campaignManaged := some false
  merged := []
  fed := []

def noIds : IdSource := ⟨⟨0, 0, 0⟩, fun _ => 0, 0⟩

def newWindow : Windowed Unit Unit Unit Unit Unit := ⟨newRunner, 0, 0, 0, none⟩

/-- The window with its only draw. -/
def drawnWindow : Windowed Unit Unit Unit Unit Unit :=
  newWindow.drawn (SamplerAggregatorRunner.generateDraw windowKit 1040 newRunner).1

/-- After the round trip has been sent. -/
def trippedWindow : Windowed Unit Unit Unit Unit Unit :=
  drawnWindow.sent (SamplerAggregatorRunner.enqueueSlots windowKit noIds drawnWindow.runner).2.1

/-- The batch of the round trip is back. -/
def readyWindow : Windowed Unit Unit Unit Unit Unit :=
  { trippedWindow with
    runner := { trippedWindow.runner with
      runtimeState := { trippedWindow.runner.runtimeState with
        accumulatorCheckpointState := .ready } } }

/-- After the first chunk. -/
def cutWindow : Windowed Unit Unit Unit Unit Unit :=
  readyWindow.sent (SamplerAggregatorRunner.enqueueSlots windowKit noIds readyWindow.runner).2.1

theorem windowRun_cut : WindowRun windowKit 4 cutWindow := by
  have hstart : WindowRun windowKit 4 newWindow :=
    .start ⟨rfl, rfl, (fun draw hdraw => by cases hdraw), rfl, rfl, rfl, rfl⟩
  have hdraw : SamplerAggregatorRunner.generateDraw windowKit 1040 newWindow.runner =
      ((SamplerAggregatorRunner.generateDraw windowKit 1040 newRunner).1, none) := rfl
  have hdrawn : WindowRun windowKit 4 drawnWindow := hstart.step (.draw rfl hdraw (.inl rfl))
  have htripped : WindowRun windowKit 4 trippedWindow := hdrawn.step (.send rfl rfl)
  have hready : WindowRun windowKit 4 readyWindow :=
    htripped.step (.other rfl rfl rfl fun h => by cases h)
  exact hready.step (.send rfl rfl)

theorem training_windows_cut : CutEvenly 4 cutWindow ∧
    ∀ w', WindowStep windowKit 4 cutWindow w' → 0 < cutWindow.left → ∀ s ∈ cutWindow.first,
      w'.first = some s ∧ w'.sizing.cap = cutWindow.sizing.cap :=
  training_windows (by decide) windowRun_cut

/-- The window has 1040 samples, but its cap is that of the 1024 after the round trip. -/
theorem round_trip_cap : ¬∀ w, WindowRun windowKit 4 w → ∀ s ∈ w.first,
    w.sizing.cap = some (windowCap 4 w.size) := by
  intro h
  have hcap := h cutWindow windowRun_cut 1024 rfl
  have hsize : cutWindow.size = 1040 := rfl
  have hsized : cutWindow.sizing.cap = some 64 := rfl
  rw [hsize, hsized] at hcap
  exact absurd hcap (by decide)

end Gammaboard.Runners
