import Gammaboard.Lib.Run
import Gammaboard.Lib.WindowedTraining
import Gammaboard.Sampling.FeedbackAssembly
import Gammaboard.Sampling.Havana

/-!
# Havana training goes window by window

The sampler is a learner in the sense of `Lib.WindowedTraining`: no draw crosses a window, the
grid is updated when a window is full, and the grid and the generator depend on the feedback told
for each sample only, not on the draws, the fragments or the restores it came by.
-/

namespace Gammaboard.Sampling

open Gammaboard.Core Gammaboard.Lib Gammaboard.Runners

variable {F G R J : Type}

/-! ## The grid as a learner -/

section

variable (kit : HavanaKit F G R J)

/-- `current_training_rate` as a function of the samples ingested. -/
def trainingRate (f : FloatOps F) (initial final : F) (target ingested : Nat) : F :=
  let progress := f.div (f.ofNat (min ingested target)) (f.ofNat target)
  if f.le initial f.zero || f.le final f.zero then f.add initial (f.mul (f.sub final initial) progress)
  else f.mul initial (f.pow (f.div final initial) progress)

theorem currentTrainingRate_eq (f : FloatOps F) (s : HavanaSampler F G R) :
    s.currentTrainingRate f = trainingRate f s.initialTrainingRate s.finalTrainingRate
      s.stopTrainingAfterNSamples s.samplesIngested := rfl

def observeSample (g : G) (sample : GridSample F) (eval : F) : Except EngineError G :=
  match kit.addTrainingSample g sample (kit.float.div eval sample.getWeight) with
  | .error err => .error (.engine err)
  | .ok g => .ok g

/-- The grid under training towards `target` samples. -/
def learner (initial final : F) (target : Nat) : Learner G R (GridSample F) F EngineError where
  sample := kit.sample
  observe := observeSample kit
  update := fun g ingested =>
    let rate := trainingRate kit.float initial final target ingested
    kit.update g rate rate
  sample_observe := by
    intro g g' s v h r
    unfold observeSample at h
    split at h
    · cases h
    · rename_i hadd
      cases h
      exact kit.sample_addTrainingSample hadd r

variable {kit} {initial final : F} {target : Nat} {g : G}

theorem drawSamples_draws {domain : Domain} {n : Nat} {r r' : R}
    {builder builder' : IndexedBatchBuilder F} {samples : List (GridSample F)}
    (h : HavanaSampler.drawSamples kit domain g n r builder = .ok (samples, r', builder')) :
    (learner kit initial final target).draws g n r = (samples, r') := by
  induction n generalizing r builder samples with
  | zero =>
    cases h
    rfl
  | succ n ih =>
    unfold HavanaSampler.drawSamples at h
    cases hparts : sampleComponents (kit.sample g r).1 with
    | error e =>
      simp only [hparts, bind, Except.bind] at h
      cases h
    | ok parts =>
      obtain ⟨discrete, continuous, weight⟩ := parts
      simp only [hparts, bind, Except.bind] at h
      cases hpath : mapDiscretePath true domain discrete with
      | error e =>
        rw [hpath] at h
        cases h
      | ok path =>
        rw [hpath] at h
        dsimp only at h
        cases hrest : HavanaSampler.drawSamples kit domain g n (kit.sample g r).2
            (builder.push path continuous weight) with
        | error e =>
          rw [hrest] at h
          cases h
        | ok drawn =>
          obtain ⟨later, rng, b⟩ := drawn
          rw [hrest] at h
          cases h
          have hih := ih hrest
          show ((kit.sample g r).1 :: ((learner kit initial final target).draws g n _).1,
            ((learner kit initial final target).draws g n _).2) = _
          rw [show ((learner kit initial final target).sample g r).2 = (kit.sample g r).2 from rfl,
            hih]

theorem addTrainingSamples_observeAll (values : List F) (samples : List (GridSample F)) :
    HavanaSampler.addTrainingSamples kit g (values.zip samples) =
      (learner kit initial final target).observeAll g (samples.zip values) := by
  induction values generalizing g samples with
  | nil =>
    rw [List.zip_nil_right]
    rfl
  | cons v values ih =>
    cases samples with
    | nil => rfl
    | cons s samples =>
      rw [List.zip_cons_cons, List.zip_cons_cons]
      unfold HavanaSampler.addTrainingSamples Learner.observeAll
      have hobserve : (learner kit initial final target).observe g s v =
          observeSample kit g s v := rfl
      rw [hobserve]
      unfold observeSample
      cases kit.addTrainingSample g s (kit.float.div v s.getWeight) with
      | error e => rfl
      | ok g' => exact ih samples

end

/-! ## Feedback in fragments -/

section

variable {zero : F} {finite : F → Bool}

/-- There is a stratum assignment for every value. -/
def Feedback.Aligned (f : Feedback F) : Prop :=
  ∀ strata, f.strata = some strata →
    strata.requested.length = f.len ∧ strata.actual.length = f.len

theorem Feedback.aligned_of_validate {f : Feedback F} (h : f.validate finite = .ok ()) :
    f.Aligned := by
  intro strata hs
  obtain ⟨hrequested, hactual, -⟩ :=
    Feedback.badStrata_eq_false ((Feedback.validate_eq_ok_iff.1 h).2 strata hs)
  exact ⟨hrequested, hactual⟩

theorem Feedback.length_values {f : Feedback F} (h : f.Aligned) :
    (f.values zero).length = f.len := by
  unfold Feedback.values
  cases hs : f.strata with
  | none => rfl
  | some strata =>
    obtain ⟨hrequested, hactual⟩ := h strata hs
    unfold Feedback.len at hrequested hactual
    simp [hrequested, hactual, Feedback.len]

/-- A draw that is put together counts what its fragments count. -/
theorem Feedback.values_append (zero : F) {f other both : Feedback F} (hf : f.Aligned)
    (h : f.append finite other = .ok both) :
    both.Aligned ∧ both.values zero = f.values zero ++ other.values zero := by
  unfold Feedback.append at h
  cases hvalid : other.validate finite with
  | error e =>
    rw [hvalid] at h
    cases h
  | ok u =>
    have hother := Feedback.aligned_of_validate hvalid
    rw [hvalid] at h
    dsimp only at h
    split at h
    · rename_i hempty
      cases h
      have hnil : f.values zero = [] := by
        apply List.length_eq_zero_iff.1
        rw [Feedback.length_values hf, hempty]
      exact ⟨hother, by rw [hnil, List.nil_append]⟩
    · split at h
      · rename_i hs hs'
        cases h
        refine ⟨(fun strata hstrata => by cases hstrata), ?_⟩
        simp [Feedback.values, hs, hs']
      · rename_i a b hs hs'
        split at h
        · cases h
          obtain ⟨hra, haa⟩ := hf a hs
          obtain ⟨hrb, hab⟩ := hother b hs'
          unfold Feedback.len at hra haa hrb hab
          refine ⟨fun strata hstrata => ?_, ?_⟩
          · cases hstrata
            simp [Feedback.len, hra, haa, hrb, hab]
          · simp only [Feedback.values, hs, hs']
            rw [List.zip_append hra.symm, List.zip_append (by simp [hra, haa]), List.map_append]
        · cases h
      · cases h

end

/-! ## One sampler -/

/-- What a training run is started with. -/
structure HavanaCourse (F G R : Type) where
  domain : Domain
  samplesForUpdate : Nat
  target : Nat
  initialTrainingRate : F
  finalTrainingRate : F
  grid : G
  rng : R
  update_pos : 0 < samplesForUpdate
  target_le : target ≤ usizeMax

section

variable (kit : HavanaKit F G R J) (c : HavanaCourse F G R)

/-- The learner of the course. -/
def HavanaCourse.learner : Learner G R (GridSample F) F EngineError :=
  Sampling.learner kit c.initialTrainingRate c.finalTrainingRate c.target

/-- The sampler after it was told the values: it stands in a window of the course. -/
structure HavanaSampler.Inv (s : HavanaSampler F G R) (told : List F) : Prop where
  domain : s.domain = c.domain
  samplesForUpdate : s.samplesForUpdate = c.samplesForUpdate
  target : s.stopTrainingAfterNSamples = c.target
  initial : s.initialTrainingRate = c.initialTrainingRate
  final : s.finalTrainingRate = c.finalTrainingRate
  produced : s.samplesProduced = s.samplesIngested + s.pendingTrainingSampleCount
  within : s.samplesProduced ≤ c.target
  nonempty : ∀ samples ∈ s.pendingTrainingSamples, samples ≠ []
  ingested : s.samplesIngested = told.length
  amid : ∃ vs ws, told = vs ++ ws ∧ vs.length = s.samplesIngested / c.samplesForUpdate * c.samplesForUpdate ∧
    (c.learner kit).Amid c.samplesForUpdate c.grid c.rng (s.samplesIngested / c.samplesForUpdate)
      vs ws s.grid s.rng s.pendingTrainingSamples.flatten

variable {kit c} {s s' : HavanaSampler F G R} {told : List F}

namespace HavanaSampler

theorem pendingTrainingSampleCount_eq (s : HavanaSampler F G R) :
    s.pendingTrainingSampleCount = s.pendingTrainingSamples.flatten.length :=
  List.length_flatten.symm

/-- The window the sampler stands in starts at a multiple of the update size. -/
theorem Inv.window (h : s.Inv kit c told) :
    s.samplesProduced ≤ (s.samplesIngested / c.samplesForUpdate + 1) * c.samplesForUpdate := by
  obtain ⟨vs, ws, htold, hvs, hamid⟩ := h.amid
  have hlen := congrArg List.length htold
  rw [List.length_append, ← h.ingested, hvs] at hlen
  have hinside := hamid.inside
  rw [h.produced, pendingTrainingSampleCount_eq, Nat.succ_mul]
  omega

/-- The saturating arithmetic is exact: what is left of the window and of the target. -/
theorem Inv.remaining (h : s.Inv kit c told) :
    s.trainingWindowSamplesRemaining = min (c.target - s.samplesProduced)
      ((s.samplesIngested / c.samplesForUpdate + 1) * c.samplesForUpdate - s.samplesProduced) := by
  have hle := c.target_le
  have hwithin := h.within
  have hinflight : saturatingAdd s.samplesIngested s.pendingTrainingSampleCount =
      s.samplesProduced := by
    unfold saturatingAdd
    rw [← h.produced]
    omega
  unfold trainingWindowSamplesRemaining remainingTrainingSamplesToProduce
  rw [hinflight, h.target, h.samplesForUpdate]
  dsimp only
  split
  · omega
  · rename_i hleft
    have hk : s.samplesIngested / c.samplesForUpdate ≤ s.samplesProduced := by
      rw [h.produced]
      exact Nat.le_trans (Nat.div_le_self _ _) (Nat.le_add_right _ _)
    have hsucc : saturatingAdd (s.samplesIngested / c.samplesForUpdate) 1 =
        s.samplesIngested / c.samplesForUpdate + 1 := by
      unfold saturatingAdd
      omega
    unfold saturatingMul
    rw [hsucc]
    omega

/-- What a request for a draw answers. -/
inductive Answers (s : HavanaSampler F G R) (maxSamples : Nat) :
    HavanaSampler F G R → Generation (LatentBatchPayload F R) → Prop where
  | finished (reached : s.samplesProduced = s.stopTrainingAfterNSamples) :
      Answers s maxSamples s .finished
  | waiting (left : s.samplesProduced < s.stopTrainingAfterNSamples)
      (pending : 0 < s.pendingTrainingSampleCount)
      (full : s.samplesProduced =
        (s.samplesIngested / s.samplesForUpdate + 1) * s.samplesForUpdate) :
      Answers s maxSamples s .waiting
  | batch (batch : LatentBatch (LatentBatchPayload F R)) (remaining : Nat)
      (samples : List (GridSample F)) (rng : R)
      (pos : 0 < batch.nrSamples) (le_max : batch.nrSamples ≤ maxSamples)
      (le_remaining : batch.nrSamples ≤ remaining)
      (within : s.samplesProduced + batch.nrSamples ≤ s.stopTrainingAfterNSamples)
      (inside : s.samplesProduced + batch.nrSamples ≤
        (s.samplesIngested / s.samplesForUpdate + 1) * s.samplesForUpdate)
      (length : samples.length = batch.nrSamples) :
      Answers s maxSamples
        { s with
          rng
          pendingTrainingSamples := s.pendingTrainingSamples ++ [samples]
          batchesProduced := s.batchesProduced + 1
          samplesProduced := s.samplesProduced + batch.nrSamples }
        (.batch batch (some remaining))

theorem Inv.draw (h : s.Inv kit c told) {n : Nat} {samples : List (GridSample F)} {rng : R}
    (hdraws : (c.learner kit).draws s.grid n s.rng = (samples, rng)) (hlength : samples.length = n)
    (hpos : 0 < n) (hwithin : s.samplesProduced + n ≤ c.target)
    (hinside : s.samplesProduced + n ≤
      (s.samplesIngested / c.samplesForUpdate + 1) * c.samplesForUpdate) :
    Inv kit c { s with
      rng
      pendingTrainingSamples := s.pendingTrainingSamples ++ [samples]
      batchesProduced := s.batchesProduced + 1
      samplesProduced := s.samplesProduced + n } told where
  domain := h.domain
  samplesForUpdate := h.samplesForUpdate
  target := h.target
  initial := h.initial
  final := h.final
  produced := by
    show s.samplesProduced + n = s.samplesIngested + pendingTrainingSampleCount _
    have hcount := h.produced
    unfold pendingTrainingSampleCount at hcount ⊢
    rw [List.map_append, List.sum_append, List.map_singleton, List.sum_singleton, hlength]
    omega
  within := hwithin
  nonempty := by
    intro xs hxs
    rcases List.mem_append.1 hxs with hxs | hxs
    · exact h.nonempty xs hxs
    · rw [List.mem_singleton.1 hxs]
      rintro rfl
      simp at hlength
      omega
  ingested := h.ingested
  amid := by
    obtain ⟨vs, ws, htold, hvs, hamid⟩ := h.amid
    refine ⟨vs, ws, htold, hvs, ?_⟩
    have hlen := congrArg List.length htold
    rw [List.length_append, ← h.ingested, hvs] at hlen
    rw [Nat.succ_mul, h.produced, pendingTrainingSampleCount_eq] at hinside
    have hmore := hamid.draw (n := n) (by omega)
    rw [hdraws] at hmore
    show (c.learner kit).Amid _ _ _ _ vs ws s.grid rng (s.pendingTrainingSamples ++ [samples]).flatten
    rw [List.flatten_append, List.flatten_singleton]
    exact hmore

/-- A draw stays in the window, and keeps the sampler in it. -/
theorem Inv.generate (h : s.Inv kit c told) {maxSamples : Nat}
    {generation : Generation (LatentBatchPayload F R)}
    (hok : s.generate kit maxSamples = .ok (s', generation)) :
    Answers s maxSamples s' generation ∧ s'.Inv kit c told := by
  unfold HavanaSampler.generate at hok
  split at hok
  · cases hok
  · rename_i hpos
    split at hok
    · rename_i hdone
      cases hok
      have hwithin := h.within
      rw [← h.target] at hwithin
      exact ⟨.finished (by omega), h⟩
    · rename_i hleft
      rw [h.target] at hleft
      dsimp only at hok
      rw [h.remaining] at hok
      split at hok
      · rename_i hzero
        cases hok
        have hwindow := h.window
        have hfull : s.samplesProduced =
            (s.samplesIngested / c.samplesForUpdate + 1) * c.samplesForUpdate := by omega
        refine ⟨.waiting (by rw [h.target]; omega) ?_ (by rw [h.samplesForUpdate]; exact hfull), h⟩
        have hlt := Nat.lt_mul_div_succ s.samplesIngested c.update_pos
        rw [Nat.mul_comm, ← hfull, h.produced] at hlt
        omega
      · rename_i hsome
        obtain ⟨n, hn⟩ : ∃ n, n = min (min (c.target - s.samplesProduced)
          ((s.samplesIngested / c.samplesForUpdate + 1) * c.samplesForUpdate - s.samplesProduced))
            maxSamples := ⟨_, rfl⟩
        rw [← hn] at hok
        cases hdraw : drawSamples kit s.domain s.grid n s.rng IndexedBatchBuilder.new with
        | error e =>
          rw [hdraw] at hok
          cases hok
        | ok drawn =>
          obtain ⟨samples, rng, builder⟩ := drawn
          rw [hdraw] at hok
          cases hok
          have hdraws : (c.learner kit).draws s.grid n s.rng = (samples, rng) :=
            drawSamples_draws hdraw
          have hlength : samples.length = n := by
            have := Learner.length_draws (L := c.learner kit) (m := s.grid) (r := s.rng) n
            rw [hdraws] at this
            exact this
          refine ⟨.batch ⟨n, builder.finish⟩ _ samples rng ?_ ?_ ?_ ?_ ?_ hlength, ?_⟩
          · show 0 < n
            omega
          · show n ≤ maxSamples
            omega
          · show n ≤ _
            omega
          · show s.samplesProduced + n ≤ s.stopTrainingAfterNSamples
            rw [h.target]
            omega
          · show s.samplesProduced + n ≤ _
            rw [h.samplesForUpdate]
            omega
          · exact h.draw hdraws hlength (by omega) (by omega) (by omega)

/-- What the feedback `xs` for a draw does to the grid: its samples are added, and a window that
is now full updates it, once. -/
inductive Trained (kit : HavanaKit F G R J) (s s' : HavanaSampler F G R)
    (xs : List (F × GridSample F)) : Prop where
  | inside (same : s'.samplesIngested / s.samplesForUpdate = s.samplesIngested / s.samplesForUpdate)
      (added : addTrainingSamples kit s.grid xs = .ok s'.grid)
  | full (g : G) (complete : s'.samplesIngested =
        (s.samplesIngested / s.samplesForUpdate + 1) * s.samplesForUpdate)
      (added : addTrainingSamples kit s.grid xs = .ok g)
      (updated : s'.grid =
        kit.update g (s'.currentTrainingRate kit.float) (s'.currentTrainingRate kit.float))

/-- The feedback of the draw in front, taken. -/
structure Fed (kit : HavanaKit F G R J) (s s' : HavanaSampler F G R) (values : List F)
    (samples : List (GridSample F)) : Prop where
  front : s.pendingTrainingSamples = samples :: s'.pendingTrainingSamples
  length : values.length = samples.length
  ingested : s'.samplesIngested = s.samplesIngested + values.length
  produced : s'.samplesProduced = s.samplesProduced
  trained : Trained kit s s' (values.zip samples)

/-- The state after the samples were added, before the grid is updated. -/
theorem feedback_eq (h : s.Inv kit c told) {f : Feedback F} {samples : List (GridSample F)}
    {pending : List (List (GridSample F))} (hpending : s.pendingTrainingSamples = samples :: pending)
    (hlength : (f.values kit.float.zero).length = samples.length)
    (hok : s.feedback kit f = .ok s') :
    ∃ g, addTrainingSamples kit s.grid ((f.values kit.float.zero).zip samples) = .ok g ∧
      s' = { s with
        grid := updates kit
          (trainingRate kit.float c.initialTrainingRate c.finalTrainingRate c.target
            (s.samplesIngested + samples.length))
          ((s.samplesIngested + samples.length) / c.samplesForUpdate -
            s.samplesIngested / c.samplesForUpdate) g
        pendingTrainingSamples := pending
        batchesIngested := s.batchesIngested + 1
        samplesIngested := s.samplesIngested + samples.length } := by
  have hcount : samples.length ≤ s.pendingTrainingSampleCount := by
    unfold pendingTrainingSampleCount
    rw [hpending, List.map_cons, List.sum_cons]
    omega
  have hproduced := h.produced
  have hwithin := h.within
  have hle := c.target_le
  have hpos : 0 < samples.length :=
    List.length_pos_iff.2 (h.nonempty samples (hpending ▸ List.mem_cons_self))
  have htrain : min s.remainingTrainingSamples samples.length = samples.length := by
    unfold remainingTrainingSamples
    rw [h.target]
    omega
  have hadd : saturatingAdd s.samplesIngested samples.length =
      s.samplesIngested + samples.length := by
    unfold saturatingAdd
    omega
  have htake : ((f.values kit.float.zero).zip samples).take samples.length =
      (f.values kit.float.zero).zip samples := by
    apply List.take_of_length_le
    rw [List.length_zip, hlength, Nat.min_self]
  unfold HavanaSampler.feedback at hok
  rw [hpending] at hok
  simp only [hlength, ne_eq, not_true_eq_false, if_false, htrain, htake, hadd] at hok
  cases hsum : addTrainingSamples kit s.grid ((f.values kit.float.zero).zip samples) with
  | error e =>
    rw [hsum] at hok
    cases hok
  | ok g =>
    rw [hsum] at hok
    cases hok
    refine ⟨g, rfl, ?_⟩
    rw [currentTrainingRate_eq]
    simp only [updateCount, if_pos hpos, h.samplesForUpdate, h.initial, h.final, h.target]

theorem Inv.feedback (h : s.Inv kit c told) {f : Feedback F} (hok : s.feedback kit f = .ok s') :
    ∃ samples, Fed kit s s' (f.values kit.float.zero) samples ∧
      s'.Inv kit c (told ++ f.values kit.float.zero) := by
  cases hpending : s.pendingTrainingSamples with
  | nil =>
    unfold HavanaSampler.feedback at hok
    rw [hpending] at hok
    cases hok
  | cons samples pending =>
    have hlength : (f.values kit.float.zero).length = samples.length := by
      unfold HavanaSampler.feedback at hok
      rw [hpending] at hok
      dsimp only at hok
      split at hok
      · cases hok
      · rename_i hne
        exact not_not.1 hne
    obtain ⟨g, hadded, hs'⟩ := feedback_eq h hpending hlength hok
    generalize f.values kit.float.zero = values at hlength hadded
    refine ⟨samples, ?_⟩
    have hpos : 0 < samples.length :=
      List.length_pos_iff.2 (h.nonempty samples (hpending ▸ List.mem_cons_self))
    have hcount := h.produced
    rw [pendingTrainingSampleCount_eq, hpending, List.flatten_cons, List.length_append] at hcount
    obtain ⟨vs, ws, htold, hvs, hamid⟩ := h.amid
    have hlen := congrArg List.length htold
    rw [List.length_append, ← h.ingested, hvs] at hlen
    have hobserved : (c.learner kit).observeAll s.grid
        (s.pendingTrainingSamples.flatten.zip values) = .ok g := by
      rw [hpending, List.flatten_cons, zip_append_longer (Nat.le_of_eq hlength)]
      exact (addTrainingSamples_observeAll values samples).symm.trans hadded
    have hfits : values.length ≤ s.pendingTrainingSamples.flatten.length := by
      rw [hpending, List.flatten_cons, List.length_append]
      omega
    have hstep := hamid.observe hfits hobserved
    rw [hpending, List.flatten_cons, hlength, List.drop_left] at hstep
    have hproduced : s.samplesProduced =
        s.samplesIngested + samples.length + (pending.map List.length).sum := by
      rw [hcount, List.length_flatten]
      omega
    have hsub : ∀ xs ∈ pending, xs ≠ [] := fun xs hxs =>
      h.nonempty xs (hpending ▸ List.mem_cons_of_mem _ hxs)
    have htotal : s.samplesIngested + samples.length = (told ++ values).length := by
      rw [List.length_append, ← h.ingested, hlength]
    rcases hstep with ⟨hbelow, hnext⟩ | ⟨hfull, hlast, hnext⟩
    · -- the window stays open
      have hdiv : (s.samplesIngested + samples.length) / c.samplesForUpdate =
          s.samplesIngested / c.samplesForUpdate := by
        apply Nat.div_eq_of_lt_le
        · omega
        · rw [Nat.succ_mul]
          omega
      rw [hdiv, Nat.sub_self] at hs'
      subst hs'
      refine ⟨⟨hpending, hlength, by rw [hlength], rfl, ?_⟩, ?_⟩
      · exact .inside (by rw [h.samplesForUpdate]; exact hdiv) hadded
      refine ⟨h.domain, h.samplesForUpdate, h.target, h.initial, h.final, hproduced, h.within, hsub,
        htotal, vs, ws ++ values, ?_, ?_, ?_⟩
      · rw [htold, List.append_assoc]
      · show vs.length = (s.samplesIngested + samples.length) / c.samplesForUpdate * _
        rw [hdiv, hvs]
      · show (c.learner kit).Amid _ _ _ ((s.samplesIngested + samples.length) / _) _ _ _ _ _
        rw [hdiv]
        exact hnext
    · -- the window is full
      have hend : s.samplesIngested + samples.length =
          (s.samplesIngested / c.samplesForUpdate + 1) * c.samplesForUpdate := by
        rw [Nat.succ_mul]
        omega
      have hdiv : (s.samplesIngested + samples.length) / c.samplesForUpdate =
          s.samplesIngested / c.samplesForUpdate + 1 := by
        rw [hend, Nat.mul_div_cancel _ c.update_pos]
      rw [hdiv, Nat.add_sub_cancel_left] at hs'
      have hnil : pending.flatten = [] := by
        apply List.length_eq_zero_iff.1
        rw [List.length_append] at hlast
        omega
      subst hs'
      refine ⟨⟨hpending, hlength, by rw [hlength], rfl, ?_⟩, ?_⟩
      · apply Trained.full g (by rw [h.samplesForUpdate]; exact hend) hadded
        rw [currentTrainingRate_eq, h.initial, h.final, h.target]
        rfl
      refine ⟨h.domain, h.samplesForUpdate, h.target, h.initial, h.final, hproduced, h.within, hsub,
        htotal, vs ++ (ws ++ values), [], ?_, ?_, ?_⟩
      · rw [htold, List.append_nil, List.append_assoc]
      · show _ = (s.samplesIngested + samples.length) / c.samplesForUpdate * _
        rw [hdiv, List.length_append, List.length_append, Nat.succ_mul]
        omega
      · show (c.learner kit).Amid _ _ _ ((s.samplesIngested + samples.length) / _) _ _ _ _
          pending.flatten
        rw [hdiv, hnil, hend]
        exact hnext

end HavanaSampler

/-! ## A session -/

/-- The values a fragment brings. -/
def SessionEvent.values (zero : F) : SessionEvent F → List F
  | .fragment values => values.values zero
  | .generate _ => []
  | .restore _ => []

/-- Only the draw in front has fragments already, `part`, and some of it is missing. -/
inductive Waits (zero : F) : List (TrainingGroup F) → List F → Prop where
  | none : Waits zero [] []
  | front (group : TrainingGroup F) (rest : List (TrainingGroup F))
      (aligned : group.feedback.Aligned) (missing : group.feedback.len < group.samples)
      (untouched : ∀ g ∈ rest, g.feedback = .empty) :
      Waits zero (group :: rest) (group.feedback.values zero)

theorem waits_untouched {zero : F} {groups : List (TrainingGroup F)}
    (huntouched : ∀ g ∈ groups, g.feedback = .empty) (hpos : ∀ g ∈ groups, 0 < g.samples) :
    Waits zero groups [] := by
  cases groups with
  | nil => exact .none
  | cons group rest =>
    have hempty := huntouched group List.mem_cons_self
    have haligned : group.feedback.Aligned := by
      rw [hempty]
      intro strata hs
      cases hs
    have hmissing : group.feedback.len < group.samples := by
      rw [hempty]
      exact hpos group List.mem_cons_self
    have h : Waits zero (group :: rest) (group.feedback.values zero) :=
      .front group rest haligned hmissing fun g hg => huntouched g (List.mem_cons_of_mem _ hg)
    rw [hempty] at h
    exact h

theorem Waits.of_cons {zero : F} {group : TrainingGroup F} {rest : List (TrainingGroup F)}
    {part : List F} (h : Waits zero (group :: rest) part) :
    group.feedback.Aligned ∧ group.feedback.len < group.samples ∧
      (∀ g ∈ rest, g.feedback = .empty) ∧ group.feedback.values zero = part := by
  cases h with
  | front _ _ aligned missing untouched => exact ⟨aligned, missing, untouched, rfl⟩

theorem Waits.record {zero : F} {groups : List (TrainingGroup F)} {part : List F}
    (h : Waits zero groups part) {n : Nat} (hn : 0 < n) :
    Waits zero (groups ++ [⟨n, .empty⟩]) part := by
  cases h with
  | none =>
    apply waits_untouched
    · intro g hg
      rw [List.mem_singleton.1 hg]
    · intro g hg
      rw [List.mem_singleton.1 hg]
      exact hn
  | front group rest aligned missing untouched =>
    refine .front group (rest ++ [⟨n, .empty⟩]) aligned missing fun g hg => ?_
    rcases List.mem_append.1 hg with hg | hg
    · exact untouched g hg
    · rw [List.mem_singleton.1 hg]

/-- A session after fragments with the values `fed`: the values of whole draws were told. -/
structure HavanaSession.Inv (kit : HavanaKit F G R J) (c : HavanaCourse F G R)
    (s : HavanaSession F G R) (fed : List F) : Prop where
  groups : s.buffer.trainingGroups.map (·.samples) =
    s.sampler.pendingTrainingSamples.map List.length
  told : ∃ told part, fed = told ++ part ∧ s.sampler.Inv kit c told ∧
    Waits kit.float.zero s.buffer.trainingGroups part

/-- What one event of a session does to the sampler. -/
def HavanaSession.Moves (kit : HavanaKit F G R J) (s s' : HavanaSession F G R) :
    SessionEvent F → Prop
  | .generate maxSamples => ∃ generation, s.sampler.Answers maxSamples s'.sampler generation
  | .fragment _ => s'.sampler = s.sampler ∨ ∃ values samples, s.sampler.Fed kit s'.sampler values samples
  | .restore _ => s'.sampler = s.sampler

/-- The course is the one of the parameters. -/
structure HavanaCourse.Of (c : HavanaCourse F G R) (params : HavanaSamplerParams F)
    (domain : Domain) : Prop where
  domain : c.domain = domain
  samplesForUpdate : c.samplesForUpdate = params.samplesForUpdate.toNat
  initial : c.initialTrainingRate = params.initialTrainingRate
  final : c.finalTrainingRate = params.finalTrainingRate

namespace HavanaSession

variable {s s' : HavanaSession F G R} {fed : List F} {params : HavanaSamplerParams F}
  {domain : Domain}

theorem advance_generate (h : s.Inv kit c fed) {maxSamples : Nat}
    (hok : s.advance kit params domain (.generate maxSamples) = .ok s') :
    s'.Inv kit c fed ∧ s.Moves kit s' (.generate maxSamples) := by
  obtain ⟨told, part, hfed, hinv, hwaits⟩ := h.told
  simp only [advance] at hok
  cases hgenerate : s.sampler.generate kit maxSamples with
  | error e =>
    rw [hgenerate] at hok
    cases hok
  | ok answer =>
    obtain ⟨sampler, generation⟩ := answer
    obtain ⟨hanswers, hnext⟩ := hinv.generate hgenerate
    rw [hgenerate] at hok
    cases hanswers with
    | finished reached =>
      cases hok
      exact ⟨⟨h.groups, told, part, hfed, hnext, hwaits⟩, _, .finished reached⟩
    | waiting left pending full =>
      cases hok
      exact ⟨⟨h.groups, told, part, hfed, hnext, hwaits⟩, _, .waiting left pending full⟩
    | batch batch remaining samples rng pos le_max le_remaining within inside length =>
      cases hok
      refine ⟨⟨?_, told, part, hfed, hnext, hwaits.record pos⟩, _,
        .batch batch remaining samples rng pos le_max le_remaining within inside length⟩
      show (s.buffer.trainingGroups ++ [(⟨batch.nrSamples, .empty⟩ : TrainingGroup F)]).map
          (·.samples) = (s.sampler.pendingTrainingSamples ++ [samples]).map List.length
      rw [List.map_append, List.map_append, h.groups, List.map_singleton, List.map_singleton, length]

theorem advance_fragment (h : s.Inv kit c fed) {values : Feedback F}
    (hok : s.advance kit params domain (.fragment values) = .ok s') :
    s'.Inv kit c (fed ++ values.values kit.float.zero) ∧ s.Moves kit s' (.fragment values) := by
  obtain ⟨told, part, hfed, hinv, hwaits⟩ := h.told
  have hgroups := h.groups
  simp only [advance] at hok
  cases haccept : s.buffer.acceptFeedback kit.float.isFinite values with
  | error e =>
    rw [haccept] at hok
    cases hok
  | ok accepted =>
    rw [haccept] at hok
    unfold GenerationBuffer.acceptFeedback at haccept
    cases hfront : s.buffer.trainingGroups with
    | nil =>
      rw [hfront] at haccept
      cases haccept
    | cons group rest =>
      rw [hfront] at haccept hwaits hgroups
      obtain ⟨haligned, hmissing, huntouched, rfl⟩ := hwaits.of_cons
      dsimp only at haccept
      split at haccept
      · cases haccept
      · rename_i hroom
        cases happend : group.feedback.append kit.float.isFinite values with
        | error e =>
          rw [happend] at haccept
          cases haccept
        | ok both =>
          rw [happend] at haccept
          dsimp only at haccept
          obtain ⟨hboth, hvalues⟩ := Feedback.values_append kit.float.zero haligned happend
          have hnow : fed ++ values.values kit.float.zero = told ++ both.values kit.float.zero := by
            rw [hfed, hvalues, List.append_assoc]
          rw [hnow]
          split at haccept
          · -- the draw is whole
            cases haccept
            cases hfeedback : s.sampler.feedback kit both with
            | error e =>
              dsimp only [bind, Except.bind] at hok
              rw [hfeedback] at hok
              cases hok
            | ok sampler =>
              dsimp only [bind, Except.bind] at hok
              rw [hfeedback] at hok
              cases hok
              obtain ⟨samples, hfed', hnext⟩ := hinv.feedback hfeedback
              rw [hfed'.front] at hgroups
              have hrest := (List.cons.inj hgroups).2
              have hpos : ∀ g ∈ rest, 0 < g.samples := by
                intro g hg
                have hmem : g.samples ∈ sampler.pendingTrainingSamples.map List.length :=
                  hrest ▸ List.mem_map_of_mem hg
                obtain ⟨xs, hxs, hlen⟩ := List.mem_map.1 hmem
                rw [← hlen]
                exact List.length_pos_iff.2 (hnext.nonempty xs hxs)
              refine ⟨⟨hrest, _, [], (List.append_nil _).symm, hnext, ?_⟩, .inr ⟨_, samples, hfed'⟩⟩
              exact waits_untouched huntouched hpos
          · -- some of it is missing
            rename_i hpart
            cases haccept
            cases hok
            have hlen := Feedback.len_append happend
            have hopen : both.len < group.samples := by omega
            refine ⟨⟨hgroups, told, _, rfl, hinv, ?_⟩, .inl rfl⟩
            exact Waits.front { group with feedback := both } rest hboth hopen huntouched

theorem advance_restore (h : s.Inv kit c fed) (hc : c.Of params domain)
    {licence : Except String Unit}
    (hok : s.advance kit params domain (.restore licence) = .ok s') :
    s'.Inv kit c fed ∧ s.Moves kit s' (.restore licence) := by
  obtain ⟨told, part, hfed, hinv, hwaits⟩ := h.told
  simp only [advance, HavanaSampler.snapshot] at hok
  cases hwrite : kit.toValue s.sampler.toSnapshot with
  | error e =>
    rw [hwrite] at hok
    cases hok
  | ok raw =>
    rw [hwrite] at hok
    dsimp only [bind, Except.bind] at hok
    cases hread : kit.fromValue raw with
    | error e =>
      rw [hread] at hok
      cases hok
    | ok snapshot =>
      rw [hread] at hok
      dsimp only at hok
      obtain rfl := kit.fromValue_toValue hwrite hread
      cases hrestored : HavanaSampler.fromSnapshot kit licence params s.sampler.toSnapshot domain with
      | error e =>
        rw [hrestored] at hok
        cases hok
      | ok sampler =>
        rw [hrestored] at hok
        cases hok
        have hsame : sampler = s.sampler := by
          unfold HavanaSampler.fromSnapshot at hrestored
          split at hrestored
          · cases hrestored
          · cases hparams : validateHavanaSamplerParams kit.float params with
            | error e =>
              rw [hparams] at hrestored
              cases hrestored
            | ok u =>
              rw [hparams] at hrestored
              dsimp only [bind, Except.bind] at hrestored
              split at hrestored
              · cases hrestored
              · cases hgrid : kit.validateGridDomain s.sampler.toSnapshot.grid domain with
                | error e =>
                  rw [hgrid] at hrestored
                  cases hrestored
                | ok u =>
                  rw [hgrid] at hrestored
                  cases hrestored
                  exact HavanaSampler.ext (hc.domain.symm.trans hinv.domain.symm) rfl rfl rfl rfl
                    (hc.samplesForUpdate.symm.trans hinv.samplesForUpdate.symm) rfl
                    (hc.initial.symm.trans hinv.initial.symm) (hc.final.symm.trans hinv.final.symm)
                    rfl rfl rfl
        subst hsame
        exact ⟨⟨h.groups, told, part, hfed, hinv, hwaits⟩, rfl⟩

/-- An event keeps the session in the course, until it fails. -/
theorem step_inv (hc : c.Of params domain) (e : SessionEvent F)
    (h : s.failed = none → s.Inv kit c fed)
    (hlives : (s.step kit params domain e).failed = none) :
    (s.step kit params domain e).Inv kit c (fed ++ e.values kit.float.zero) ∧
      s.Moves kit (s.step kit params domain e) e ∧ s.failed = none := by
  cases hfailed : s.failed with
  | some err =>
    unfold step at hlives
    rw [hfailed] at hlives
    dsimp only at hlives
    rw [hfailed] at hlives
    cases hlives
  | none =>
    have hinv := h hfailed
    unfold step at hlives ⊢
    rw [hfailed] at hlives ⊢
    dsimp only at hlives ⊢
    cases hadvance : s.advance kit params domain e with
    | error err =>
      rw [hadvance] at hlives
      cases hlives
    | ok s' =>
      dsimp only
      cases e with
      | generate maxSamples =>
        obtain ⟨hnext, hmoves⟩ := advance_generate hinv hadvance
        exact ⟨(List.append_nil fed).symm ▸ hnext, hmoves, rfl⟩
      | fragment values =>
        obtain ⟨hnext, hmoves⟩ := advance_fragment hinv hadvance
        exact ⟨hnext, hmoves, rfl⟩
      | restore licence =>
        obtain ⟨hnext, hmoves⟩ := advance_restore hinv hc hadvance
        exact ⟨(List.append_nil fed).symm ▸ hnext, hmoves, rfl⟩

theorem run_inv (hc : c.Of params domain) (es : List (SessionEvent F))
    (h : s.failed = none → s.Inv kit c fed)
    (hlives : (run (step kit params domain) s es).failed = none) :
    (run (step kit params domain) s es).Inv kit c
      (fed ++ es.flatMap (·.values kit.float.zero)) := by
  induction es generalizing s fed with
  | nil =>
    rw [List.flatMap_nil, List.append_nil]
    exact h hlives
  | cons e es ih =>
    rw [List.flatMap_cons, ← List.append_assoc]
    exact ih (fun hnext => (step_inv hc e h hnext).1) hlives

end HavanaSession

end

/-! ## Training -/

/-- The values brought by the fragments of the events, sample by sample. -/
def feedbackValues (zero : F) (es : List (SessionEvent F)) : List F :=
  es.flatMap (·.values zero)

/-- A new sampler starts a course. -/
theorem start_inv {kit : HavanaKit F G R J} {params : HavanaSamplerParams F} {domain : Domain}
    {target : UInt64} {sampler : HavanaSampler F G R}
    (hnew : HavanaSampler.fromParamsAndDomain kit params domain target = .ok sampler) :
    ∃ c : HavanaCourse F G R, c.Of params domain ∧ c.target = target.toNat ∧
      (HavanaSession.start sampler).Inv kit c [] := by
  unfold HavanaSampler.fromParamsAndDomain at hnew
  cases hparams : validateHavanaSamplerParams kit.float params with
  | error e =>
    rw [hparams] at hnew
    cases hnew
  | ok u =>
    rw [hparams] at hnew
    dsimp only [bind, Except.bind] at hnew
    split at hnew
    · cases hnew
    · cases hgrid : kit.buildHavanaGrid domain params with
      | error e =>
        rw [hgrid] at hnew
        cases hnew
      | ok grid =>
        rw [hgrid] at hnew
        cases hnew
        have hupdate : params.samplesForUpdate ≠ 0 := by
          intro hzero
          unfold validateHavanaSamplerParams at hparams
          split at hparams
          · cases hparams
          · cases hparams
        have hpos : 0 < params.samplesForUpdate.toNat := by
          apply Nat.pos_of_ne_zero
          intro hzero
          exact hupdate (UInt64.toNat_inj.1 hzero)
        have hle : target.toNat ≤ usizeMax := by
          have := target.toNat_lt
          unfold usizeMax
          omega
        let c : HavanaCourse F G R :=
          ⟨domain, params.samplesForUpdate.toNat, target.toNat, params.initialTrainingRate,
            params.finalTrainingRate, grid, kit.newRng params.seed, hpos, hle⟩
        refine ⟨c, ⟨rfl, rfl, rfl, rfl⟩, rfl, rfl, [], [], rfl, ?_, .none⟩
        refine ⟨rfl, rfl, rfl, rfl, rfl, rfl, Nat.zero_le _, ?_, rfl, [], [], rfl, ?_, ?_⟩
        · intro samples hsamples
          cases hsamples
        · show 0 = 0 / _ * _
          rw [Nat.zero_div, Nat.zero_mul]
        · show (c.learner kit).Amid _ _ _ (0 / _) [] [] grid _ []
          rw [Nat.zero_div]
          exact Learner.amid_start hpos

open HavanaSession in
/-- **Training goes window by window.** Until the session fails, every event does to the sampler
what `Moves` says, and no more samples are pending or ingested than the target. And two sessions
that have ingested as many samples with the same value for each of them have the same grid, and
if as many samples were drawn the same generator. -/
theorem trains_in_windows (kit : HavanaKit F G R J) (params : HavanaSamplerParams F)
    (domain : Domain) (target : UInt64) (sampler : HavanaSampler F G R)
    (hnew : HavanaSampler.fromParamsAndDomain kit params domain target = .ok sampler) :
    (∀ es e,
      let s := run (step kit params domain) (start sampler) es
      let s' := step kit params domain s e
      s'.failed = none →
        s.Moves kit s' e ∧
        s'.sampler.samplesIngested + s'.sampler.pendingTrainingSampleCount ≤ target.toNat ∧
        s'.sampler.stopTrainingAfterNSamples = target.toNat ∧
        s'.sampler.samplesForUpdate = params.samplesForUpdate.toNat) ∧
    ∀ es es',
      let s := run (step kit params domain) (start sampler) es
      let s' := run (step kit params domain) (start sampler) es'
      s.failed = none → s'.failed = none →
      s.sampler.samplesIngested = s'.sampler.samplesIngested →
      (feedbackValues kit.float.zero es).take s.sampler.samplesIngested =
        (feedbackValues kit.float.zero es').take s.sampler.samplesIngested →
      s.sampler.grid = s'.sampler.grid ∧
        (s.sampler.samplesProduced = s'.sampler.samplesProduced → s.sampler.rng = s'.sampler.rng) := by
  obtain ⟨c, hc, htarget, hstart⟩ := start_inv hnew
  have hrun : ∀ es, (run (step kit params domain) (start sampler) es).failed = none →
      (run (step kit params domain) (start sampler) es).Inv kit c
        (feedbackValues kit.float.zero es) := by
    intro es hlives
    exact run_inv hc es (fun _ => hstart) hlives
  constructor
  · intro es e s s' hlives
    obtain ⟨hnext, hmoves, -⟩ := step_inv hc e (hrun es) hlives
    obtain ⟨told, part, -, hinv, -⟩ := hnext.told
    refine ⟨hmoves, ?_, hinv.target.trans htarget, hinv.samplesForUpdate.trans hc.samplesForUpdate⟩
    rw [← htarget]
    exact hinv.produced ▸ hinv.within
  · intro es es' s s' hlives hlives' hingested hvalues
    obtain ⟨told, part, hfed, hinv, -⟩ := (hrun es hlives).told
    obtain ⟨told', part', hfed', hinv', -⟩ := (hrun es' hlives').told
    have hsame : told = told' := by
      rw [hfed, hfed', hinv.ingested, List.take_left] at hvalues
      rw [hvalues]
      apply List.take_left'
      rw [← hinv.ingested, hingested, hinv'.ingested]
    obtain ⟨vs, ws, htold, -, hamid⟩ := hinv.amid
    obtain ⟨vs', ws', htold', -, hamid'⟩ := hinv'.amid
    obtain ⟨hgrid, hrng⟩ := hamid.unique hamid' (by rw [← htold, ← htold', hsame])
    refine ⟨hgrid, fun hproduced => (hrng ?_).1⟩
    rw [hinv.produced, hinv'.produced, hingested] at hproduced
    rw [← HavanaSampler.pendingTrainingSampleCount_eq, ← HavanaSampler.pendingTrainingSampleCount_eq]
    exact Nat.add_left_cancel hproduced

/-! ### A small grid -/

def intFloat : FloatOps Int where
  isFinite _ := true
  lt a b := decide (a < b)
  le a b := decide (a ≤ b)
  zero := 0
  ofNat n := n
  add := (· + ·)
  sub := (· - ·)
  mul := (· * ·)
  div := (· / ·)
  pow a _ := a

/-- One number to sample around and the sum of the values since the last update. -/
def sumKit : HavanaKit Int (Int × Int) Nat (HavanaSamplerSnapshot Int (Int × Int) Nat) where
  float := intFloat
  newRng seed := seed.toNat
  buildHavanaGrid _ _ := .ok (0, 0)
  validateGridDomain _ _ := .ok ()
  sample g r := (.continuous 1 [g.1 + r], r + 1)
  addTrainingSample g _ x := .ok (g.1, g.2 + x)
  update g _ _ := (g.1 + g.2, 0)
  toValue s := .ok s
  fromValue s := .ok s
  sample_addTrainingSample h r := by
    cases h
    rfl
  fromValue_toValue h h' := by
    cases h
    cases h'
    rfl

def sumParams : HavanaSamplerParams Int := ⟨7, 1, 2, 0, 0⟩

def sumSampler : HavanaSampler Int (Int × Int) Nat :=
  .new (.rectangular 0 [] 1) (0, 0) 7 2 4 0 0

open HavanaSession in
/-- A window sample by sample, with a restore in between, and the same window in one draw. -/
theorem trains_twoSamples :
    let s := run (step sumKit sumParams (.rectangular 0 [] 1)) (start sumSampler)
      [.generate 1, .fragment ⟨[5], none⟩, .restore (.ok ()), .generate 9, .fragment ⟨[6], none⟩]
    let s' := run (step sumKit sumParams (.rectangular 0 [] 1)) (start sumSampler)
      [.generate 8, .fragment ⟨[5], none⟩, .fragment ⟨[6], none⟩]
    s.sampler.grid = s'.sampler.grid ∧
      (s.sampler.samplesProduced = s'.sampler.samplesProduced → s.sampler.rng = s'.sampler.rng) :=
  (trains_in_windows sumKit sumParams (.rectangular 0 [] 1) 4 sumSampler rfl).2 _ _ rfl rfl rfl rfl

end Gammaboard.Sampling
