import Gammaboard.Sampling.RasterFeedback
import Mathlib.Algebra.Order.Ring.Rat
import Mathlib.Data.List.Induction

/-!
# Runs of a raster sampler

A run draws samples, feeds values back, saves the sampler and restores it. The
`i`-th sample is drawn at the pixel of index `i` in the order of the raster, and
the `i`-th value is recorded there, in every run of a raster whose products fit.
`produced` and `fed` are what has been drawn and fed back so far; nothing reads
them.
-/

namespace Gammaboard.Sampling

open Gammaboard.Core Gammaboard.Lib

/-- What is saved, with what had been drawn and fed back. -/
structure SavedRaster (F : Type) where
  snapshot : PdfRasterSnapshot F
  produced : List (RasterPoint F)
  fed : List F

structure RasterRun (F σ : Type) where
  sampler : PdfRasterSampler F σ
  produced : List (RasterPoint F)
  fed : List F
  saved : List (SavedRaster F)

inductive RasterEvent (F : Type) where
  | draw (maxSamples : Nat)
  | feed (feedback : Feedback F)
  | save
  /-- From one of the snapshots that were saved. -/
  | restore (index : Nat)

namespace RasterSetting

variable {F σ : Type} [Zero F] [Add F] [LT F] [DecidableLT F] (setting : RasterSetting F σ)
  (finite : F → Bool)

def step (run : RasterRun F σ) : RasterEvent F → Except RasterError (RasterRun F σ)
  | .draw maxSamples =>
    (setting.generate run.sampler maxSamples).map fun drawn =>
      { run with sampler := drawn.2, produced := run.produced ++ drawn.1 }
  | .feed feedback =>
    (setting.feedback finite run.sampler feedback).map fun sampler =>
      { run with sampler := sampler, fed := run.fed ++ feedback.unmaskedValues }
  | .save =>
    .ok { run with saved := run.saved ++ [⟨run.sampler.snapshot, run.produced, run.fed⟩] }
  | .restore index =>
    match run.saved[index]? with
    | none => .ok run
    | some saved =>
      (setting.fromSnapshot saved.snapshot).map fun sampler =>
        { run with sampler := sampler, produced := saved.produced, fed := saved.fed }

/-- The run of a new sampler. -/
def runOf (events : List (RasterEvent F)) : Except RasterError (RasterRun F σ) := do
  let sampler ← setting.fromParamsAndSnapshot
  events.foldlM (setting.step finite) ⟨sampler, [], [], []⟩

end RasterSetting

section Runs

variable {F σ : Type} [Zero F] [Add F] [LT F] [DecidableLT F]

/-- The samples have the coordinates of the pixels in the order of the raster, and these hold their
values; the other pixels hold nothing. -/
structure Aligned (setting : RasterSetting F σ) (finite : F → Bool) (order : Nat → Nat)
    (values : List (Option F)) (produced : List (RasterPoint F)) (fed : List F) : Prop where
  drawn : ∀ i point, produced[i]? = some point →
    point = (setting.geometry.pointAt (order i), setting.evaluationDiscrete)
  held : ∀ i value, fed[i]? = some value → values[order i]? = some (recorded finite value)
  untouched : ∀ pixel < setting.total, (∀ i < fed.length, order i ≠ pixel) →
    values[pixel]? = some none

/-- The raster is scanned in an order, without an overflow, and its feedback is aligned. -/
structure Scans (setting : RasterSetting F σ) (finite : F → Bool) (stride : Nat)
    (order : Nat → Nat) : Prop where
  found : coprimeStride setting.total = some stride
  coprime : Nat.Coprime stride setting.total
  index : ∀ i < setting.total, permutedRasterIndex i setting.total stride = .ok (order i)
  permutation : Set.BijOn order (Set.Iio setting.total) (Set.Iio setting.total)
  /-- Only the source, or a request that does not fit, ends a run. -/
  ends : ∀ events, (∃ run, setting.runOf finite events = .ok run) ∨
    ∃ e, setting.runOf finite events = .error (.engine e)
  serves : setting.source.Answers finite → ∀ events run, setting.runOf finite events = .ok run →
    (∀ n, 0 < n → ∃ next, setting.step finite run (.draw n) = .ok next) ∧
      ∀ feedback, setting.Fits finite run.fed.length feedback →
        ∃ next, setting.step finite run (.feed feedback) = .ok next
  aligned : ∀ events run, setting.runOf finite events = .ok run →
    Aligned setting finite order run.sampler.outputState.integrandValues run.produced run.fed
  complete : ∀ events run, setting.runOf finite events = .ok run → run.fed.length = setting.total →
    ∀ pixel < setting.total, ∃ i < setting.total, order i = pixel ∧ ∃ value, run.fed[i]? = some value ∧
      run.sampler.outputState.integrandValues[pixel]? = some (recorded finite value)

/-! ## The invariant -/

/-- The counters of a sampler are those of its run. -/
structure Counted (setting : RasterSetting F σ) (stride : Nat) (snapshot : PdfRasterSnapshot F)
    (produced : List (RasterPoint F)) (fed : List F) : Prop where
  stride : snapshot.stride = stride
  nextIndex : snapshot.nextIndex = produced.length
  ingestedSamples : snapshot.ingestedSamples = fed.length
  drawnRoom : produced.length ≤ setting.total
  fedRoom : fed.length ≤ setting.total
  values : snapshot.outputState.integrandValues.length = setting.total
  prefixes : snapshot.outputState.strata.map (·.prefixes) = setting.prefixes

structure Kept (setting : RasterSetting F σ) (finite : F → Bool) (stride : Nat)
    (snapshot : PdfRasterSnapshot F) (produced : List (RasterPoint F)) (fed : List F) : Prop where
  counted : Counted setting stride snapshot produced fed
  aligned : Aligned setting finite (rasterIndex setting.total stride)
    snapshot.outputState.integrandValues produced fed

structure RunKept (setting : RasterSetting F σ) (finite : F → Bool) (stride : Nat)
    (run : RasterRun F σ) : Prop where
  current : Kept setting finite stride run.sampler.snapshot run.produced run.fed
  saved : ∀ s ∈ run.saved, Kept setting finite stride s.snapshot s.produced s.fed

variable {setting : RasterSetting F σ} {finite : F → Bool} {sampler : PdfRasterSampler F σ}
  {stride : Nat}

omit [Zero F] [Add F] [LT F] [DecidableLT F] in
/-- A draw gives the next samples in the order of the raster. -/
theorem generate_spec {maxSamples : Nat} (hfits : setting.ProductsFit sampler.stride)
    (hroom : sampler.nextIndex ≤ setting.total) :
    (∃ e, setting.generate sampler maxSamples = .error (.engine e) ∧ maxSamples = 0) ∨
    ∃ points, setting.generate sampler maxSamples =
        .ok (points, { sampler with nextIndex := sampler.nextIndex + points.length }) ∧
      sampler.nextIndex + points.length ≤ setting.total ∧
        ∀ k point, points[k]? = some point → point =
          (setting.geometry.pointAt
            (rasterIndex setting.total sampler.stride (sampler.nextIndex + k)),
              setting.evaluationDiscrete) := by
  unfold RasterSetting.generate
  by_cases hzero : maxSamples = 0
  · rw [if_pos hzero]
    exact .inl ⟨_, rfl, hzero⟩
  · rw [if_neg hzero]
    by_cases hend : sampler.nextIndex = setting.total
    · rw [if_pos hend]
      exact .inr ⟨[], rfl, hroom, fun k point h => by cases h⟩
    · rw [if_neg hend]
      unfold RasterSetting.produceRasterBatch
      dsimp only
      rw [if_neg (by omega), canonicalIndices_eq hfits (by omega)]
      refine .inr ⟨((List.range (min maxSamples (setting.total - sampler.nextIndex))).map fun k =>
        rasterIndex setting.total sampler.stride (sampler.nextIndex + k)).map fun index =>
          (setting.geometry.pointAt index, setting.evaluationDiscrete), ?_, ?_, ?_⟩
      · rw [List.length_map, List.length_map, List.length_range]
        rfl
      · rw [List.length_map, List.length_map, List.length_range]
        omega
      · intro k point hpoint
        rw [List.map_map, List.getElem?_map, Option.map_eq_some_iff] at hpoint
        obtain ⟨offset, hoffset, rfl⟩ := hpoint
        obtain ⟨hlt, hget⟩ := List.getElem?_eq_some_iff.1 hoffset
        rw [List.getElem_range] at hget
        rw [← hget]
        rfl

omit [Zero F] [Add F] [LT F] [DecidableLT F] in
/-- The values of a feedback lie where their samples were drawn. -/
theorem aligned_feed {order : Nat → Nat} {values : List (Option F)}
    {produced : List (RasterPoint F)} {fed more : List F}
    (horder : Set.BijOn order (Set.Iio setting.total) (Set.Iio setting.total))
    (h : Aligned setting finite order values produced fed) (hlength : values.length = setting.total)
    (hroom : fed.length + more.length ≤ setting.total) :
    Aligned setting finite order
      (writeAll values ((((List.range more.length).map fun k => order (fed.length + k)).zip more).map
        fun e => (e.1, recorded finite e.2))) produced (fed ++ more) := by
  have hfirst : (((((List.range more.length).map fun k => order (fed.length + k)).zip more).map
      fun e => (e.1, recorded finite e.2)).map (·.1)) =
        (List.range more.length).map fun k => order (fed.length + k) := by
    have hfst : (((List.range more.length).map fun k => order (fed.length + k)).zip more).map Prod.fst =
        (List.range more.length).map fun k => order (fed.length + k) :=
      List.map_fst_zip (by rw [List.length_map, List.length_range])
    rw [List.map_map]
    exact hfst
  have hlt : ∀ k < more.length, fed.length + k ∈ Set.Iio setting.total := fun k hk => by
    show fed.length + k < setting.total
    omega
  have hnodup : ((List.range more.length).map fun k => order (fed.length + k)).Nodup := by
    refine List.Nodup.map_on ?_ List.nodup_range
    intro i hi j hj heq
    have := horder.2.1 (hlt i (List.mem_range.1 hi)) (hlt j (List.mem_range.1 hj)) heq
    omega
  refine ⟨h.drawn, fun i value hvalue => ?_, fun pixel hpixel hothers => ?_⟩
  · by_cases hi : i < fed.length
    · rw [List.getElem?_append_left hi] at hvalue
      rw [getElem?_writeAll_of_notMem]
      · exact h.held i value hvalue
      · rw [hfirst]
        rintro hmem
        obtain ⟨k, hk, heq⟩ := List.mem_map.1 hmem
        have hk' := List.mem_range.1 hk
        have := horder.2.1 (hlt k hk') (show i ∈ Set.Iio setting.total by
          show i < setting.total
          omega) heq
        omega
    · rw [List.getElem?_append_right (not_lt.1 hi)] at hvalue
      obtain ⟨hk, hget⟩ := List.getElem?_eq_some_iff.1 hvalue
      have hmem : (order i, value) ∈
          ((List.range more.length).map fun k => order (fed.length + k)).zip more := by
        refine List.mem_iff_getElem?.2 ⟨i - fed.length, ?_⟩
        rw [List.getElem?_zip_eq_some]
        refine ⟨?_, hvalue⟩
        rw [List.getElem?_map, List.getElem?_range hk, Option.map_some,
          Nat.add_sub_cancel' (not_lt.1 hi)]
      refine getElem?_writeAll (by rwa [hfirst]) ?_ _
        (List.mem_map_of_mem (f := fun e : Nat × F => (e.1, recorded finite e.2)) hmem)
      intro e he
      have hindex := List.mem_map_of_mem (f := fun e : Nat × Option F => e.1) he
      rw [hfirst] at hindex
      obtain ⟨k, hk, heq⟩ := List.mem_map.1 hindex
      rw [← heq, hlength]
      exact horder.1 (hlt k (List.mem_range.1 hk))
  · rw [getElem?_writeAll_of_notMem]
    · refine h.untouched pixel hpixel fun i hi => hothers i ?_
      rw [List.length_append]
      omega
    · rw [hfirst]
      intro hmem
      obtain ⟨k, hk, heq⟩ := List.mem_map.1 hmem
      refine hothers (fed.length + k) ?_ heq
      rw [List.length_append]
      have := List.mem_range.1 hk
      omega

/-- The events a run serves, when its source answers. -/
def Served (setting : RasterSetting F σ) (finite : F → Bool) (run : RasterRun F σ) :
    RasterEvent F → Prop
  | .draw maxSamples => 0 < maxSamples
  | .feed feedback =>
    setting.source.Answers finite ∧ setting.Fits finite run.fed.length feedback
  | .save => True
  | .restore _ => True

omit [Zero F] [Add F] [LT F] [DecidableLT F] in
/-- A restored sampler has the state that was saved. -/
theorem snapshot_fromSnapshot (hstride : coprimeStride setting.total = some stride)
    (snapshot : PdfRasterSnapshot F) :
    ∃ sampler, setting.fromSnapshot snapshot = .ok sampler ∧ sampler.snapshot = snapshot := by
  unfold RasterSetting.fromSnapshot RasterSetting.fromParamsAndSnapshot
  rw [hstride]
  exact ⟨_, rfl, rfl⟩

/-- Every event keeps the invariant, and one that is served does not fail. -/
theorem step_kept {run : RasterRun F σ} (hfits : setting.ProductsFit stride)
    (horder : Set.BijOn (rasterIndex setting.total stride) (Set.Iio setting.total)
      (Set.Iio setting.total))
    (hstride : coprimeStride setting.total = some stride) (h : RunKept setting finite stride run)
    (event : RasterEvent F) :
    (∃ e, setting.step finite run event = .error (.engine e) ∧ ¬ Served setting finite run event) ∨
      ∃ next, setting.step finite run event = .ok next ∧ RunKept setting finite stride next := by
  have hcounted := h.current.counted
  have haligned := h.current.aligned
  have hown : run.sampler.stride = stride := hcounted.stride
  cases event with
  | draw maxSamples =>
    have hroom : run.sampler.nextIndex ≤ setting.total := by
      rw [show run.sampler.nextIndex = _ from hcounted.nextIndex]
      exact hcounted.drawnRoom
    unfold RasterSetting.step
    dsimp only
    rcases generate_spec (hown ▸ hfits) hroom with ⟨e, herror, hzero⟩ | ⟨points, hok, hnext, hpoints⟩
    · rw [herror]
      exact .inl ⟨e, rfl, fun hserved => by
        change 0 < maxSamples at hserved
        omega⟩
    · rw [hok]
      refine .inr ⟨_, rfl, ⟨⟨⟨hcounted.stride, ?_, hcounted.ingestedSamples, ?_, hcounted.fedRoom,
        hcounted.values, hcounted.prefixes⟩, ⟨?_, haligned.held, haligned.untouched⟩⟩, h.saved⟩⟩
      · show run.sampler.nextIndex + points.length = (run.produced ++ points).length
        rw [List.length_append, show run.sampler.nextIndex = _ from hcounted.nextIndex]
      · have hdrawn : run.sampler.nextIndex = run.produced.length := hcounted.nextIndex
        show (run.produced ++ points).length ≤ setting.total
        rw [List.length_append]
        omega
      · intro i point hpoint
        by_cases hi : i < run.produced.length
        · rw [List.getElem?_append_left hi] at hpoint
          exact haligned.drawn i point hpoint
        · rw [List.getElem?_append_right (not_lt.1 hi)] at hpoint
          have heq := hpoints _ point hpoint
          rwa [hown, show run.sampler.nextIndex = _ from hcounted.nextIndex,
            Nat.add_sub_cancel' (not_lt.1 hi)] at heq
  | feed feedback =>
    unfold RasterSetting.step
    dsimp only
    rcases feedback_spec finite feedback (hown ▸ hfits) hcounted.prefixes with ⟨e, herror, hno⟩ | ⟨next, hok, hrecorded⟩
    · rw [herror]
      refine .inl ⟨e, rfl, fun hserved => hno ?_⟩
      rw [show run.sampler.ingestedSamples = _ from hcounted.ingestedSamples]
      exact hserved
    · rw [hok]
      have hingested : run.sampler.ingestedSamples = run.fed.length := hcounted.ingestedSamples
      have hroom := hrecorded.room
      have hvalues := hrecorded.integrandValues
      rw [hingested] at hroom
      rw [hingested, hown] at hvalues
      refine .inr ⟨_, rfl, ⟨⟨⟨?_, ?_, ?_, hcounted.drawnRoom, ?_, ?_, ?_⟩, ?_⟩, h.saved⟩⟩
      · exact hrecorded.stride.trans hown
      · exact hrecorded.nextIndex.trans hcounted.nextIndex
      · show next.ingestedSamples = (run.fed ++ feedback.unmaskedValues).length
        rw [List.length_append, hrecorded.ingestedSamples, hingested]
      · rw [List.length_append]
        exact hroom
      · show next.outputState.integrandValues.length = setting.total
        rw [hvalues, length_writeAll]
        exact hcounted.values
      · exact hrecorded.prefixes.trans hcounted.prefixes
      · show Aligned setting finite _ next.outputState.integrandValues run.produced _
        rw [hvalues]
        exact aligned_feed horder haligned hcounted.values hroom
  | save =>
    refine .inr ⟨_, rfl, ⟨h.current, fun s hs => ?_⟩⟩
    rcases List.mem_append.1 hs with hs | hs
    · exact h.saved s hs
    · rw [List.mem_singleton.1 hs]
      exact h.current
  | restore index =>
    unfold RasterSetting.step
    dsimp only
    cases hsaved : run.saved[index]? with
    | none => exact .inr ⟨run, rfl, h⟩
    | some saved =>
      obtain ⟨sampler, hrestore, hsnapshot⟩ := snapshot_fromSnapshot hstride saved.snapshot
      dsimp only
      rw [hrestore]
      refine .inr ⟨_, rfl, ⟨?_, h.saved⟩⟩
      show Kept setting finite stride sampler.snapshot saved.produced saved.fed
      rw [hsnapshot]
      exact h.saved saved (List.mem_of_getElem? hsaved)

omit [Zero F] [Add F] [LT F] [DecidableLT F] in
/-- A new sampler has drawn and recorded nothing. -/
theorem fromParams_kept (finite : F → Bool) (hstride : coprimeStride setting.total = some stride) :
    ∃ sampler, setting.fromParamsAndSnapshot = .ok sampler ∧
      RunKept setting finite stride ⟨sampler, [], [], []⟩ := by
  unfold RasterSetting.fromParamsAndSnapshot
  rw [hstride]
  refine ⟨_, rfl, ⟨⟨⟨rfl, rfl, rfl, Nat.zero_le _, Nat.zero_le _, ?_, ?_⟩, ⟨?_, ?_, ?_⟩⟩, ?_⟩⟩
  · exact List.length_replicate
  · show (setting.prefixes.map _).map _ = _
    rw [Option.map_map]
    exact congrFun Option.map_id _
  · intro i point hpoint
    cases hpoint
  · intro i value hvalue
    cases hvalue
  · intro pixel hpixel _
    exact List.getElem?_replicate_of_lt hpixel
  · intro s hs
    cases hs

variable (finite) in
/-- Every run keeps the invariant, or ends in an engine error. -/
theorem runOf_kept (hfits : setting.ProductsFit stride)
    (horder : Set.BijOn (rasterIndex setting.total stride) (Set.Iio setting.total)
      (Set.Iio setting.total))
    (hstride : coprimeStride setting.total = some stride) (events : List (RasterEvent F)) :
    (∃ e, setting.runOf finite events = .error (.engine e)) ∨
      ∃ run, setting.runOf finite events = .ok run ∧ RunKept setting finite stride run := by
  obtain ⟨sampler, hsampler, hkept⟩ := fromParams_kept finite hstride
  unfold RasterSetting.runOf
  rw [hsampler]
  show (∃ e, events.foldlM (setting.step finite) _ = _) ∨
    ∃ run, events.foldlM (setting.step finite) _ = _ ∧ _
  induction events using List.reverseRecOn with
  | nil => exact .inr ⟨_, rfl, hkept⟩
  | append_singleton events event ih =>
    rw [List.foldlM_append]
    rcases ih with ⟨e, herror⟩ | ⟨run, hok, hrun⟩
    · rw [herror]
      exact .inl ⟨e, rfl⟩
    · rw [hok]
      show (∃ e, [event].foldlM (setting.step finite) run = _) ∨
        ∃ run', [event].foldlM (setting.step finite) run = _ ∧ _
      rw [List.foldlM_cons]
      rcases step_kept hfits horder hstride hrun event with ⟨e, herror, -⟩ | ⟨next, hnext, hkept⟩
      · rw [herror]
        exact .inl ⟨e, rfl⟩
      · rw [hnext]
        exact .inr ⟨next, rfl, hkept⟩

omit [Zero F] [Add F] [LT F] [DecidableLT F] in
/-- After the last value, every pixel holds its own. -/
theorem Kept.complete {snapshot : PdfRasterSnapshot F} {produced : List (RasterPoint F)}
    {fed : List F} (h : Kept setting finite stride snapshot produced fed)
    (horder : Set.BijOn (rasterIndex setting.total stride) (Set.Iio setting.total)
      (Set.Iio setting.total))
    (hfed : fed.length = setting.total) {pixel : Nat} (hpixel : pixel < setting.total) :
    ∃ i < setting.total, rasterIndex setting.total stride i = pixel ∧ ∃ value, fed[i]? = some value ∧
      snapshot.outputState.integrandValues[pixel]? = some (recorded finite value) := by
  obtain ⟨i, hi, hindex⟩ := horder.2.2 (show pixel ∈ Set.Iio setting.total from hpixel)
  have hlt : i < fed.length := by
    rw [hfed]
    exact hi
  have hvalue : fed[i]? = some fed[i] := List.getElem?_eq_getElem hlt
  have hheld := h.aligned.held i _ hvalue
  rw [hindex] at hheld
  exact ⟨i, hi, hindex, _, hvalue, hheld⟩

/-- Where the products fit, the raster is scanned in the order of its stride. -/
theorem scans_of_productsFit (finite : F → Bool) (hpos : 0 < setting.total)
    (hstride : coprimeStride setting.total = some stride)
    (hcoprime : Nat.Coprime stride setting.total) (hfits : setting.ProductsFit stride) :
    Scans setting finite stride (rasterIndex setting.total stride) := by
  have horder : Set.BijOn (rasterIndex setting.total stride) (Set.Iio setting.total)
      (Set.Iio setting.total) := strided_bijOn hpos hcoprime
  have hkept : ∀ events run, setting.runOf finite events = .ok run →
      RunKept setting finite stride run := by
    intro events run hrun
    rcases runOf_kept finite hfits horder hstride events with
      ⟨e, herror⟩ | ⟨run', hok, hkept⟩
    · rw [herror] at hrun
      cases hrun
    · rw [hrun, Except.ok.injEq] at hok
      rwa [hok]
  have hserved : ∀ events run, setting.runOf finite events = .ok run → ∀ event,
      Served setting finite run event → ∃ next, setting.step finite run event = .ok next := by
    intro events run hrun event hevent
    rcases step_kept hfits horder hstride (hkept events run hrun) event with
      ⟨e, -, hno⟩ | ⟨next, hnext, -⟩
    · exact absurd hevent hno
    · exact ⟨next, hnext⟩
  refine
    { found := hstride
      coprime := hcoprime
      index := fun i hi => permutedRasterIndex_eq hi hfits
      permutation := horder
      ends := fun events => ?_
      serves := fun hanswers events run hrun => ⟨fun n hn => ?_, fun feedback hfeedback => ?_⟩
      aligned := fun events run hrun => (hkept events run hrun).current.aligned
      complete := fun events run hrun hfed pixel hpixel =>
        (hkept events run hrun).current.complete horder hfed hpixel }
  · rcases runOf_kept finite hfits horder hstride events with herror | ⟨run, hok, -⟩
    · exact .inr herror
    · exact .inl ⟨run, hok⟩
  · exact hserved events run hrun (.draw n) hn
  · exact hserved events run hrun (.feed feedback) ⟨hanswers, hfeedback⟩

/-- The last sample is indexed, so its product is a `usize`. -/
theorem Scans.productsFit {order : Nat → Nat} (h : Scans setting finite stride order)
    (hpos : 0 < setting.total) : setting.ProductsFit stride := by
  by_contra hover
  have hlast := h.index (setting.total - 1) (by omega)
  rw [permutedRasterIndex_last (not_lt.1 hover)] at hlast
  cases hlast

end Runs

/-! ## The rasters of accepted geometries -/

section Accepted

variable {F σ : Type} [Zero F] [Add F] [Sub F] [Mul F] [Div F] [LT F] [DecidableLT F] [BEq F]
  [NatCast F] [OfScientific F] {ops : NormOps F} {setting : RasterSetting F σ}

/-- An accepted raster is scanned in a permutation, and its feedback is aligned, exactly when the
product of the last index and the first coprime stride is a `usize`. -/
theorem scans_iff (finite : F → Bool) (h : Accepted ops setting.geometry) :
    (∃ stride order, Scans setting finite stride order) ↔
      ∀ stride, IsLeast (coprimeFrom setting.total (firstCandidate setting.total)) stride →
        (setting.total - 1) * stride < 2 ^ 64 := by
  have hpos : 0 < setting.total := h.nrPoints.1
  obtain ⟨found, hfound, hcoprime, hleast⟩ := coprimeStride_spec hpos
  constructor
  · rintro ⟨stride, order, hscans⟩ other hother
    by_cases hone : setting.total < 2
    · have hzero : setting.total - 1 = 0 := by omega
      rw [hzero, Nat.zero_mul]
      omega
    · have hsame : found = stride := Option.some.inj (hfound.symm.trans hscans.found)
      have heq : other = stride := by
        rw [← hsame]
        exact hother.unique (hleast (not_lt.1 hone))
      rw [heq]
      exact hscans.productsFit hpos
  · intro hall
    refine ⟨found, _, scans_of_productsFit finite hpos hfound hcoprime ?_⟩
    unfold RasterSetting.ProductsFit
    by_cases hone : setting.total < 2
    · have hzero : setting.total - 1 = 0 := by omega
      rw [hzero, Nat.zero_mul]
      omega
    · exact hall found (hleast (not_lt.1 hone))

end Accepted

/-- A line on one axis, with so many points. -/
def unitLine (count : Nat) : LineRasterGeometry Rat := ⟨[0], [1], ⟨0, 1, count⟩, []⟩

/-- Its raster, with a source that knows no densities. -/
def unitLineSetting (count : Nat) : RasterSetting Rat Unit :=
  ⟨(unitLine count).raster, none, ⟨(), fun s points => .ok (points.map fun _ => none, s)⟩⟩

def plainOps : NormOps Rat := ⟨fun _ => true, id, id⟩

theorem scans_three : ∃ stride order, Scans (unitLineSetting 3) (fun _ => true) stride order := by
  have haccepted : Accepted plainOps (unitLineSetting 3).geometry :=
    .line (unitLine 3) (by decide +kernel) (by decide)
  refine (scans_iff (fun _ => true) haccepted).2 fun stride hstride => ?_
  have hle : stride ≤ 1 := hstride.2 ⟨by decide, by decide⟩
  show (3 - 1) * stride < 2 ^ 64
  omega

/-- With `2 ^ 33` points, the product of the last index overflows. -/
theorem long_line_overflows : Accepted plainOps (unitLineSetting (2 ^ 33)).geometry ∧
    ¬ ∃ stride order, Scans (unitLineSetting (2 ^ 33)) (fun _ => true) stride order := by
  refine ⟨Accepted.line (unitLine (2 ^ 33)) (by decide +kernel) (by decide), ?_⟩
  rintro ⟨stride, order, hscans⟩
  obtain ⟨found, hfound, -, hleast⟩ := coprimeStride_spec (show 0 < 2 ^ 33 by decide)
  have hsame : found = stride := Option.some.inj (hfound.symm.trans hscans.found)
  have hfirst : 5308871000 ≤ firstCandidate (2 ^ 33) := by decide
  have hle : firstCandidate (2 ^ 33) ≤ found := (hleast (by decide)).1.1
  have hfits : (2 ^ 33 - 1) * stride < 2 ^ 64 := hscans.productsFit (by decide)
  omega

end Gammaboard.Sampling
