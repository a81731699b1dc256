import Gammaboard.Sampling.Generation

/-!
# The feedback a generation buffer waits for

Of the draws that ask for feedback the buffer knows two parts: the samples that
are still to be cut and those whose values have not come back. Cutting moves
samples from the first part into pieces, accepting feedback takes them from the
second, draw by draw in order.
-/

namespace Gammaboard.Sampling

open Gammaboard.Core

variable {V P : Type}

/-! ## Pieces -/

/-- The samples of pieces that ask for feedback. -/
def feedbackSamples (pieces : List (Nat × Bool)) : Nat :=
  (pieces.map fun x => if x.2 then x.1 else 0).sum

@[simp] theorem feedbackSamples_nil : feedbackSamples [] = 0 := rfl

@[simp] theorem feedbackSamples_append (a b : List (Nat × Bool)) :
    feedbackSamples (a ++ b) = feedbackSamples a + feedbackSamples b := by
  simp [feedbackSamples]

/-- Pieces of one draw. -/
theorem feedbackSamples_draw (sizes : List Nat) (requiresFeedback : Bool) :
    feedbackSamples (sizes.map fun n => (n, requiresFeedback)) =
      if requiresFeedback then sizes.sum else 0 := by
  induction sizes with
  | nil => cases requiresFeedback <;> rfl
  | cons n rest ih =>
    simp only [feedbackSamples, List.map_cons, List.sum_cons] at ih ⊢
    rw [ih]
    cases requiresFeedback <;> rfl

namespace GenerationBuffer

/-- The samples still to be cut whose draw asks for feedback. -/
def uncutFeedback (g : GenerationBuffer V P) : Nat := if g.requiresFeedback then g.pendingSamples else 0

/-- The samples of the recorded draws whose values have not come back. -/
def missingFeedback (g : GenerationBuffer V P) : Nat :=
  (g.trainingGroups.map fun group => group.samples - group.feedback.len).sum

/-- The sizes of the draws whose feedback is outstanding. -/
def owed (g : GenerationBuffer V P) : List Nat := g.trainingGroups.map (·.samples)

/-- The draw in the buffer has samples left, and no recorded draw is complete. -/
structure Unfinished (g : GenerationBuffer V P) : Prop where
  draw : ∀ draw ∈ g.pending, draw.nextSample < draw.batch.nrSamples
  groups : ∀ group ∈ g.trainingGroups, group.feedback.len < group.samples

variable {g g' : GenerationBuffer V P}

/-- While a draw is recorded, feedback is missing. -/
theorem Unfinished.owed_nil (h : g.Unfinished) (hmissing : g.missingFeedback = 0) :
    g.owed = [] := by
  unfold owed
  cases hgroups : g.trainingGroups with
  | nil => rfl
  | cons group rest =>
    have hopen := h.groups group (by simp [hgroups])
    simp only [missingFeedback, hgroups, List.map_cons, List.sum_cons] at hmissing
    omega

theorem uncutFeedback_of_none (h : g.pending = none) : g.uncutFeedback = 0 := by
  simp [uncutFeedback, requiresFeedback, h]

/-- Only the buffered draw is still to be cut. -/
theorem uncutFeedback_congr (h : g'.pending = g.pending) : g'.uncutFeedback = g.uncutFeedback := by
  obtain ⟨pending, groups, finished⟩ := g
  obtain ⟨pending', groups', finished'⟩ := g'
  cases h
  rfl

/-! ## Cutting -/

/-- What taking pieces leaves. -/
structure Taken (g g' : GenerationBuffer V P) (slots : Nat) (pieces : List (LatentBatch P)) :
    Prop where
  finished : g'.finished = g.finished
  groups : g'.trainingGroups = g.trainingGroups
  unfinished : g'.Unfinished
  uncut : feedbackSamples (pieces.map fun b => (b.nrSamples, g.requiresFeedback)) +
    g'.uncutFeedback = g.uncutFeedback
  positive : ∀ b ∈ pieces, 0 < b.nrSamples
  nonempty : g.hasPending = true → 0 < slots → pieces ≠ []

/-- Every piece has samples, and while the draw has some and there is a slot there is a piece. -/
theorem cut_pieces (ops : PayloadOps P) {chunkSize : Nat} (hchunk : 0 < chunkSize)
    (slots coordinate : Nat) (draw : BufferedDraw P) {pieces : List (LatentBatch P)}
    (h : (cut ops chunkSize slots coordinate draw).2 = .ok pieces) :
    (∀ b ∈ pieces, 0 < b.nrSamples) ∧
      (0 < slots → draw.nextSample < draw.batch.nrSamples → pieces ≠ []) := by
  induction slots generalizing coordinate draw pieces with
  | zero =>
    unfold cut at h
    cases h
    simp
  | succ slots ih =>
    unfold cut at h
    dsimp only at h
    split at h
    · rename_i hempty
      cases h
      refine ⟨by simp, fun _ hopen => ?_⟩
      omega
    · rename_i hsize
      split at h
      · cases h
      · rename_i piece hpiece
        generalize hrest : cut ops chunkSize slots (coordinate + ops.coordinates piece.payload)
          { draw with
            nextSample := draw.nextSample +
              min chunkSize (draw.batch.nrSamples - draw.nextSample)
            nextCoordinate := some (coordinate + ops.coordinates piece.payload) } = out at h
        obtain ⟨draw', rest⟩ := out
        cases rest with
        | error e => cases h
        | ok rest =>
          cases h
          refine ⟨fun b hb => ?_, fun _ _ => List.cons_ne_nil _ _⟩
          rcases List.mem_cons.1 hb with rfl | hb
          · rw [sliceAt_nrSamples hpiece]
            omega
          · exact (ih _ _ (congrArg Prod.snd hrest)).1 b hb

theorem takeBatches_taken {ops : PayloadOps P} {slots chunkSize : Nat}
    {pieces : List (LatentBatch P)} (hg : g.Unfinished)
    (h : g.takeBatches ops slots chunkSize = (g', .ok pieces)) : Taken g g' slots pieces := by
  have hsum := (takeBatches_samples ops slots chunkSize g).1 pieces (by rw [h])
  rw [h] at hsum
  dsimp only at hsum
  have huncut : g'.pending = none ∨ g'.requiresFeedback = g.requiresFeedback →
      feedbackSamples (pieces.map fun b => (b.nrSamples, g.requiresFeedback)) + g'.uncutFeedback =
        g.uncutFeedback := by
    intro hrest
    have hpieces := feedbackSamples_draw (pieces.map (·.nrSamples)) g.requiresFeedback
    rw [List.map_map] at hpieces
    rw [show (pieces.map fun b => (b.nrSamples, g.requiresFeedback)) =
      pieces.map ((fun n => (n, g.requiresFeedback)) ∘ (·.nrSamples)) from rfl, hpieces]
    rcases hrest with hnone | hsame
    · have hzero : g'.pendingSamples = 0 := by simp [pendingSamples, hnone]
      rw [uncutFeedback_of_none hnone, uncutFeedback]
      split <;> omega
    · unfold uncutFeedback
      rw [hsame]
      split <;> omega
  unfold takeBatches at h
  split at h
  · cases h
  · rename_i hchunk
    split at h
    · rename_i hnone
      cases h
      refine ⟨rfl, rfl, hg, huncut (.inl hnone), by simp, fun hpending => ?_⟩
      simp [hasPending, hnone] at hpending
    · rename_i draw hpending
      have hopen := hg.draw draw hpending
      split at h
      · cases h
      · rename_i coordinate _
        dsimp only at h
        split at h
        · cases h
          refine ⟨rfl, rfl, ⟨by simp, hg.groups⟩, huncut (.inl rfl), ?_, fun _ _ => by simp⟩
          intro b hb
          rw [List.mem_singleton.1 hb]
          omega
        · split at h
          · cases h
          · have hcuts := cut_cuts ops chunkSize slots coordinate
              { draw with nextCoordinate := some coordinate } (by dsimp only; omega)
            have hpieces := fun ps (hps : _ = Except.ok ps) =>
              cut_pieces ops (Nat.pos_of_ne_zero hchunk) slots coordinate
                { draw with nextCoordinate := some coordinate } hps
            generalize cut ops chunkSize slots coordinate
              { draw with nextCoordinate := some coordinate } = out at hcuts hpieces h
            obtain ⟨draw', cutPieces⟩ := out
            cases cutPieces with
            | error e => cases h
            | ok cutPieces =>
              cases h
              obtain ⟨hpositive, hnonempty⟩ := hpieces _ rfl
              obtain ⟨hbatch, hremaining, hbelow, -, -⟩ := hcuts
              dsimp only at hbatch hremaining hbelow
              refine ⟨rfl, rfl, ⟨fun d hd => ?_, hg.groups⟩, huncut ?_, hpositive,
                fun _ hslots => hnonempty hslots hopen⟩
              · dsimp only at hd
                split at hd
                · cases hd
                · rename_i hleft
                  cases hd
                  rw [hbatch] at hleft ⊢
                  omega
              · dsimp only
                split
                · exact .inl rfl
                · refine .inr ?_
                  simp [requiresFeedback, hpending, hremaining]

/-! ## Drawing -/

/-- A draw that asks for feedback is recorded, and all of it is still to be cut. -/
theorem bufferDraw_unfinished {ops : PayloadOps P} {batch : LatentBatch P}
    {trainingRemaining : Option Nat} (hg : g.Unfinished) (hbatch : 0 < batch.nrSamples)
    (h : g.bufferDraw ops batch trainingRemaining = .ok g') :
    let recorded := if trainingRemaining.isSome then g'.recordDraw batch.nrSamples else g'
    recorded.Unfinished ∧ recorded.hasPending = true ∧ recorded.finished = g.finished ∧
      recorded.owed =
        (if trainingRemaining.isSome then g.owed ++ [batch.nrSamples] else g.owed) ∧
      recorded.uncutFeedback + g.missingFeedback = g.uncutFeedback + recorded.missingFeedback := by
  unfold bufferDraw at h
  split at h
  · cases h
  · rename_i hnone
    have hpending : g.pending = none := by simpa using hnone
    split at h
    · cases h
    · cases h
      have hbefore := uncutFeedback_of_none hpending
      cases trainingRemaining with
      | none =>
        refine ⟨⟨?_, hg.groups⟩, rfl, rfl, rfl, ?_⟩
        · intro draw hdraw
          cases hdraw
          exact hbatch
        · rw [hbefore]
          simp [uncutFeedback, requiresFeedback, missingFeedback]
      | some remaining =>
        refine ⟨⟨?_, ?_⟩, rfl, rfl, ?_, ?_⟩
        · intro draw hdraw
          cases hdraw
          exact hbatch
        · intro group hgroup
          rcases List.mem_append.1 hgroup with hgroup | hgroup
          · exact hg.groups group hgroup
          · rw [List.mem_singleton.1 hgroup]
            exact hbatch
        · simp [recordDraw, owed]
        · rw [hbefore]
          simp [uncutFeedback, requiresFeedback, missingFeedback, recordDraw, pendingSamples,
            Feedback.empty, Feedback.len]
          omega

/-! ## Accepting -/

/-- Accepted values are no longer missing; they complete the first draw or none. -/
theorem acceptFeedback_missing {finite : V → Bool} {values : Feedback V}
    {assembled : Option (Feedback V)} (hg : g.Unfinished)
    (h : g.acceptFeedback finite values = .ok (g', assembled)) :
    g'.Unfinished ∧ g'.pending = g.pending ∧ g'.finished = g.finished ∧
      g.missingFeedback = values.len + g'.missingFeedback ∧
      (assembled.elim [] fun all => [all.len]) ++ g'.owed = g.owed := by
  unfold acceptFeedback at h
  split at h
  · cases h
  · rename_i group rest hgroups
    have hopen := hg.groups group (by simp [hgroups])
    have hrest : ∀ other ∈ rest, other.feedback.len < other.samples :=
      fun other hother => hg.groups other (by simp [hgroups, hother])
    split at h
    · cases h
    · split at h
      · cases h
      · rename_i feedback happend
        have hlen := Feedback.len_append happend
        split at h
        · rename_i hfull
          cases h
          refine ⟨⟨hg.draw, hrest⟩, rfl, rfl, ?_, ?_⟩
          · simp only [missingFeedback, hgroups, List.map_cons, List.sum_cons]
            omega
          · simp [owed, hgroups, hfull]
        · rename_i hpart
          cases h
          refine ⟨⟨hg.draw, fun other hother => ?_⟩, rfl, rfl, ?_, ?_⟩
          · rcases List.mem_cons.1 hother with rfl | hother
            · dsimp only
              omega
            · exact hrest other hother
          · simp only [missingFeedback, hgroups, List.map_cons, List.sum_cons]
            omega
          · simp [owed, hgroups]

/-! ## Saving -/

/-- A restored buffer waits for the same feedback. -/
theorem restored_unfinished (hg : g.Unfinished) :
    g.restored.Unfinished ∧ g.restored.uncutFeedback = g.uncutFeedback := by
  refine ⟨⟨fun draw hdraw => ?_, hg.groups⟩, ?_⟩
  · obtain ⟨draw, hpending, rfl⟩ := Option.map_eq_some_iff.1 hdraw
    exact hg.draw draw hpending
  · unfold uncutFeedback requiresFeedback pendingSamples restored
    cases g.pending <;> rfl

end GenerationBuffer

end Gammaboard.Sampling
