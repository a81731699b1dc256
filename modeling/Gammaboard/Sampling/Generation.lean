import Gammaboard.Core.Errors
import Mathlib.Algebra.GroupWithZero.Nat
import Mathlib.Algebra.Order.Group.Nat
import Mathlib.Data.List.Lex
import Mathlib.Tactic.Common

/-!
# Latent batches, feedback and the generation buffer

`sampling/latent_batch.rs`, `sampling/feedback.rs` and
`sampling/generation.rs`: a sampler's draw is buffered, cut into evaluator work
units, and the feedback of its fragments is put together again in order. The
values are those of any float type with a test for finiteness, the payload is
any type that can be cut.
-/

namespace Gammaboard.Sampling

open Gammaboard.Core

variable {V P : Type}

/-! ## Feedback -/

structure StratumAssignments where
  prefixes : List (List Int)
  requested : List Nat
  actual : List Nat
  deriving DecidableEq, Repr

structure Feedback (V : Type) where
  unmaskedValues : List V
  strata : Option StratumAssignments
  deriving DecidableEq, Repr

namespace Feedback

def empty : Feedback V := ⟨[], none⟩

def len (f : Feedback V) : Nat := f.unmaskedValues.length

/-- Two neighbouring prefixes are out of order or nested. -/
def badNeighbours : List (List Int) → Bool
  | a :: b :: rest => decide (b ≤ a) || a.isPrefixOf b || badNeighbours (b :: rest)
  | _ => false

/-- The stratum metadata does not fit `len` values. -/
def badStrata (len : Nat) (s : StratumAssignments) : Bool :=
  s.prefixes.isEmpty || s.prefixes.any (fun p => p.isEmpty || p.any (· < 0))
    || badNeighbours s.prefixes || s.requested.length != len || s.actual.length != len
    || (s.requested ++ s.actual).any (fun k => decide (s.prefixes.length ≤ k))

def validate (finite : V → Bool) (f : Feedback V) : Except EngineError Unit :=
  if f.unmaskedValues.any (fun v => !finite v) then .error (.eval "non-finite training feedback")
  else if f.strata.any (badStrata f.len) then
    .error (.eval "invalid feedback stratum assignments")
  else .ok ()

/-- Put a fragment after the fragments before it; a rejected fragment changes nothing. -/
def append (finite : V → Bool) (f other : Feedback V) : Except EngineError (Feedback V) :=
  match other.validate finite with
  | .error e => .error e
  | .ok () =>
    if f.len = 0 then .ok other
    else
      match f.strata, other.strata with
      | none, none => .ok ⟨f.unmaskedValues ++ other.unmaskedValues, none⟩
      | some a, some b =>
        if a.prefixes = b.prefixes then
          .ok ⟨f.unmaskedValues ++ other.unmaskedValues,
            some ⟨a.prefixes, a.requested ++ b.requested, a.actual ++ b.actual⟩⟩
        else .error (.eval "inconsistent feedback stratum layout within a draw")
      | _, _ => .error (.eval "inconsistent feedback stratum layout within a draw")

/-- A fragment adds its values. -/
theorem len_append {finite : V → Bool} {f other both : Feedback V} (h : f.append finite other = .ok both) :
    both.len = f.len + other.len := by
  unfold append at h
  split at h
  · cases h
  · split at h
    · rename_i hempty
      cases h
      omega
    · split at h
      · cases h
        exact List.length_append
      · split at h
        · cases h
          exact List.length_append
        · cases h
      · cases h

end Feedback

/-! ## Latent batches -/

structure LatentBatch (P : Type) where
  nrSamples : Nat
  payload : P
  deriving DecidableEq, Repr

/-- What a payload offers: the check of its layout, the coordinate a sample starts at, the
samples cut out of it, and the coordinates of a piece. -/
structure PayloadOps (P : Type) where
  validateNrSamples : LatentBatch P → Except String Unit
  coordinateStart : P → Nat → Option Nat
  slice : P → Nat → Nat → Nat → Except String P
  coordinates : P → Nat

/-- `slice_at`. -/
def LatentBatch.sliceAt (ops : PayloadOps P) (b : LatentBatch P) (start samples coordinate : Nat) :
    Except String (LatentBatch P) :=
  if b.nrSamples < start + samples then .error "generated batch slice out of bounds"
  else if samples = 0 then .error "generated batch slice is empty"
  else (ops.slice b.payload start samples coordinate).map fun payload => ⟨samples, payload⟩

/-! ## The buffer -/

structure BufferedDraw (P : Type) where
  batch : LatentBatch P
  nextSample : Nat
  /-- Not saved: `none` after a restore, until the batch has been checked again. -/
  nextCoordinate : Option Nat
  trainingRemaining : Option Nat
  deriving DecidableEq, Repr

structure TrainingGroup (V : Type) where
  samples : Nat
  feedback : Feedback V
  deriving DecidableEq, Repr

structure GenerationBuffer (V P : Type) where
  pending : Option (BufferedDraw P)
  trainingGroups : List (TrainingGroup V)
  finished : Bool
  deriving DecidableEq, Repr

namespace GenerationBuffer

def empty : GenerationBuffer V P := ⟨none, [], false⟩

def hasPending (g : GenerationBuffer V P) : Bool := g.pending.isSome

def trainingRemaining (g : GenerationBuffer V P) : Option Nat :=
  g.pending.bind fun draw => draw.trainingRemaining.map (· - draw.nextSample)

def requiresFeedback (g : GenerationBuffer V P) : Bool :=
  g.pending.any (·.trainingRemaining.isSome)

def pendingSamples (g : GenerationBuffer V P) : Nat :=
  g.pending.elim 0 fun draw => draw.batch.nrSamples - draw.nextSample

def hasOutstanding (g : GenerationBuffer V P) : Bool :=
  g.pending.isSome || !g.trainingGroups.isEmpty

def bufferDraw (ops : PayloadOps P) (batch : LatentBatch P) (trainingRemaining : Option Nat)
    (g : GenerationBuffer V P) : Except EngineError (GenerationBuffer V P) :=
  if g.pending.isSome then .error (.engine "cannot overwrite an undispatched draw")
  else
    match ops.validateNrSamples batch with
    | .error e => .error (.engine e)
    | .ok () => .ok { g with pending := some ⟨batch, 0, some 0, trainingRemaining⟩ }

def recordDraw (samples : Nat) (g : GenerationBuffer V P) : GenerationBuffer V P :=
  { g with trainingGroups := g.trainingGroups ++ [⟨samples, .empty⟩] }

/-- The loop of `take_batches`: at most `slots` pieces from the cursor. The draw comes back
with its cursor moved also when a piece fails. -/
def cut (ops : PayloadOps P) (chunkSize : Nat) :
    Nat → Nat → BufferedDraw P → BufferedDraw P × Except EngineError (List (LatentBatch P))
  | 0, _, draw => (draw, .ok [])
  | slots + 1, coordinate, draw =>
    let size := min chunkSize (draw.batch.nrSamples - draw.nextSample)
    if size = 0 then (draw, .ok [])
    else
      match draw.batch.sliceAt ops draw.nextSample size coordinate with
      | .error e => (draw, .error (.engine e))
      | .ok piece =>
        let coordinate := coordinate + ops.coordinates piece.payload
        let (draw, rest) := cut ops chunkSize slots coordinate
          { draw with nextSample := draw.nextSample + size, nextCoordinate := some coordinate }
        (draw, rest.map (piece :: ·))

/-- The coordinate cursor, recomputed after a restore. -/
def checkedCoordinate (ops : PayloadOps P) (draw : BufferedDraw P) : Except EngineError Nat :=
  match draw.nextCoordinate with
  | some c => .ok c
  | none =>
    match ops.validateNrSamples draw.batch with
    | .error e => .error (.engine e)
    | .ok () =>
      match ops.coordinateStart draw.batch.payload draw.nextSample with
      | none => .error (.engine "invalid buffered generation cursor")
      | some c => .ok c

def takeBatches (ops : PayloadOps P) (slots chunkSize : Nat) (g : GenerationBuffer V P) :
    GenerationBuffer V P × Except EngineError (List (LatentBatch P)) :=
  if chunkSize = 0 then (g, .error (.engine "evaluator chunk size is zero"))
  else
    match g.pending with
    | none => (g, .ok [])
    | some draw =>
      match checkedCoordinate ops draw with
      | .error e => (g, .error e)
      | .ok coordinate =>
        let draw := { draw with nextCoordinate := some coordinate }
        if 0 < slots ∧ draw.nextSample = 0 ∧ draw.batch.nrSamples ≤ chunkSize then
          ({ g with pending := none }, .ok [draw.batch])
        else if draw.batch.nrSamples ≤ draw.nextSample then
          ({ g with pending := some draw }, .error (.engine "invalid buffered generation cursor"))
        else
          let (draw, pieces) := cut ops chunkSize slots coordinate draw
          match pieces with
          | .error e => ({ g with pending := some draw }, .error e)
          | .ok pieces =>
            ({ g with pending := if draw.nextSample = draw.batch.nrSamples then none else some draw },
              .ok pieces)

/-- Exactly one draw's feedback once all its fragments have arrived; a rejected fragment
changes nothing. -/
def acceptFeedback (finite : V → Bool) (values : Feedback V) (g : GenerationBuffer V P) :
    Except EngineError (GenerationBuffer V P × Option (Feedback V)) :=
  match g.trainingGroups with
  | [] => .error (.engine "training result has no matching generated batch")
  | group :: rest =>
    if group.samples - group.feedback.len < values.len then
      .error (.engine "training result crosses a generation boundary")
    else
      match group.feedback.append finite values with
      | .error e => .error e
      | .ok feedback =>
        if feedback.len = group.samples then .ok ({ g with trainingGroups := rest }, some feedback)
        else .ok ({ g with trainingGroups := { group with feedback } :: rest }, none)

/-- What a save and a restore do to the buffer. -/
def restored (g : GenerationBuffer V P) : GenerationBuffer V P :=
  { g with pending := g.pending.map fun draw => { draw with nextCoordinate := none } }

/-- Feedback does not touch the buffered draw. -/
theorem acceptFeedback_pending {finite : V → Bool} {values : Feedback V}
    {g g' : GenerationBuffer V P} {assembled : Option (Feedback V)}
    (h : g.acceptFeedback finite values = .ok (g', assembled)) : g'.pending = g.pending := by
  unfold acceptFeedback at h
  split at h
  · cases h
  · split at h
    · cases h
    · split at h
      · cases h
      · split at h <;> cases h <;> rfl

/-! ### Samples -/

theorem sliceAt_nrSamples {ops : PayloadOps P} {b piece : LatentBatch P}
    {start samples coordinate : Nat} (h : b.sliceAt ops start samples coordinate = .ok piece) :
    piece.nrSamples = samples := by
  unfold LatentBatch.sliceAt at h
  split at h
  · cases h
  · split at h
    · cases h
    · cases hs : ops.slice b.payload start samples coordinate with
      | error e =>
        rw [hs] at h
        cases h
      | ok payload =>
        rw [hs] at h
        cases h
        rfl

/-- The cursor of the draw moves inside the draw, by the samples of the pieces. -/
structure Cuts (draw draw' : BufferedDraw P) (pieces : Except EngineError (List (LatentBatch P))) :
    Prop where
  batch : draw'.batch = draw.batch
  trainingRemaining : draw'.trainingRemaining = draw.trainingRemaining
  below : draw'.nextSample ≤ draw.batch.nrSamples
  above : draw.nextSample ≤ draw'.nextSample
  samples : ∀ cut, pieces = .ok cut →
    draw.nextSample + (cut.map (·.nrSamples)).sum = draw'.nextSample

theorem cut_cuts (ops : PayloadOps P) (chunkSize slots coordinate : Nat) (draw : BufferedDraw P)
    (hdraw : draw.nextSample ≤ draw.batch.nrSamples) :
    Cuts draw (cut ops chunkSize slots coordinate draw).1
      (cut ops chunkSize slots coordinate draw).2 := by
  induction slots generalizing coordinate draw with
  | zero =>
    unfold cut
    exact ⟨rfl, rfl, hdraw, le_rfl, (fun pieces hp => by cases hp; simp)⟩
  | succ slots ih =>
    unfold cut
    dsimp only
    split
    · exact ⟨rfl, rfl, hdraw, le_rfl, (fun pieces hp => by cases hp; simp)⟩
    · split
      · exact ⟨rfl, rfl, hdraw, le_rfl, fun pieces hp => by cases hp⟩
      · rename_i piece hpiece
        have hsize := sliceAt_nrSamples hpiece
        have hstep := ih (coordinate + ops.coordinates piece.payload)
          { draw with
            nextSample := draw.nextSample +
              min chunkSize (draw.batch.nrSamples - draw.nextSample)
            nextCoordinate := some (coordinate + ops.coordinates piece.payload) } (by
              dsimp only
              omega)
        refine ⟨hstep.batch, hstep.trainingRemaining, hstep.below,
          (Nat.le_add_right _ _).trans hstep.above, fun pieces hp => ?_⟩
        dsimp only at hp
        cases hrest : (cut ops chunkSize slots (coordinate + ops.coordinates piece.payload)
          { draw with
            nextSample := draw.nextSample +
              min chunkSize (draw.batch.nrSamples - draw.nextSample)
            nextCoordinate := some (coordinate + ops.coordinates piece.payload) }).2 with
        | error e =>
          rw [hrest] at hp
          cases hp
        | ok rest =>
          rw [hrest] at hp
          cases hp
          have hsum := hstep.samples rest hrest
          dsimp only at hsum ⊢
          rw [List.map_cons, List.sum_cons, hsize, ← hsum]
          omega

/-- The pieces taken and what is left are the samples of the draw; a draw that cannot be cut
leaves no more than it had. -/
theorem takeBatches_samples (ops : PayloadOps P) (slots chunkSize : Nat)
    (g : GenerationBuffer V P) :
    (∀ pieces, (g.takeBatches ops slots chunkSize).2 = .ok pieces →
      (pieces.map (·.nrSamples)).sum + (g.takeBatches ops slots chunkSize).1.pendingSamples =
        g.pendingSamples) ∧
      (g.takeBatches ops slots chunkSize).1.pendingSamples ≤ g.pendingSamples := by
  unfold takeBatches
  split
  · exact ⟨(fun pieces hp => by cases hp), le_rfl⟩
  · split
    · exact ⟨(fun pieces hp => by cases hp; simp), le_rfl⟩
    · rename_i draw hpending
      have hbefore : g.pendingSamples = draw.batch.nrSamples - draw.nextSample := by
        simp [pendingSamples, hpending]
      rw [hbefore]
      split
      · exact ⟨(fun pieces hp => by cases hp), hbefore.le⟩
      · rename_i coordinate _
        dsimp only
        split
        · rename_i hwhole
          refine ⟨fun pieces hp => ?_, Nat.zero_le _⟩
          cases hp
          simp [pendingSamples, hwhole.2.1]
        · split
          · exact ⟨(fun pieces hp => by cases hp), le_rfl⟩
          · rename_i hopen
            have hcuts := cut_cuts ops chunkSize slots coordinate
              { draw with nextCoordinate := some coordinate } (by dsimp only; omega)
            generalize cut ops chunkSize slots coordinate
              { draw with nextCoordinate := some coordinate } = out at hcuts
            obtain ⟨draw', pieces⟩ := out
            obtain ⟨hbatch, -, hbelow, habove, hsamples⟩ := hcuts
            dsimp only at hbatch hbelow habove hsamples ⊢
            have hleft : ({ g with pending := some draw' } : GenerationBuffer V P).pendingSamples =
                draw.batch.nrSamples - draw'.nextSample := by
              simp [pendingSamples, hbatch]
            cases pieces with
            | error e =>
              refine ⟨(fun pieces hp => by cases hp), ?_⟩
              dsimp only
              rw [hleft]
              omega
            | ok pieces =>
              have hsum := hsamples pieces rfl
              have hnext : ({ g with
                  pending := if draw'.nextSample = draw'.batch.nrSamples then none else some draw' } :
                    GenerationBuffer V P).pendingSamples =
                  draw.batch.nrSamples - draw'.nextSample := by
                split
                · rename_i hdone
                  rw [hbatch] at hdone
                  simp [pendingSamples, hdone]
                · exact hleft
              dsimp only
              rw [hnext]
              refine ⟨fun pieces' hp => ?_, by omega⟩
              cases hp
              omega

end GenerationBuffer

end Gammaboard.Sampling
