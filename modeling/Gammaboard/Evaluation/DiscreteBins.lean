import Gammaboard.Evaluation.ScalarSplits
import Gammaboard.Utils.Text

/-!
# Discrete bins of a split list

A scalar accumulator and its bins as they follow from the list of samples. A
sample with a new path is left out when there are as many bins as there may be,
but a merge takes the bins of both parts. So the bins do not depend on how the
list was split exactly when those of the whole list fit.
-/

namespace Gammaboard.Evaluation

open Gammaboard.Core Gammaboard.Sampling Gammaboard.Lib

variable {K M G L : Type} [Field K] [LinearOrder K]

/-! ## Bins -/

/-- The bin of the first sample of a path. -/
def newBin (x : ScalarSample K) : DiscreteProjectionBinState (ScalarSums K) :=
  ⟨x.point.discrete, ⟨1, ScalarSums.plain.accept x⟩⟩

def addToBin (bin : DiscreteProjectionBinState (ScalarSums K)) (x : ScalarSample K) :
    DiscreteProjectionBinState (ScalarSums K) :=
  { bin with state := ⟨bin.state.count + 1, bin.state.stats.accept x⟩ }

/-- The key of a sample's bin. -/
def ScalarSample.binKey (x : ScalarSample K) : String := discreteBinKey x.point.discrete

/-- The samples that belong into a bin. -/
def binned (l : List (ScalarSample K)) : List (ScalarSample K) :=
  l.filter fun x => x.point.discrete ≠ []

/-- The bins of a list, however many. -/
def binsOf (l : List (ScalarSample K)) :
    List (String × DiscreteProjectionBinState (ScalarSums K)) :=
  Tally.tally ScalarSample.binKey newBin addToBin (binned l)

variable {l l' : List (ScalarSample K)} {x y : ScalarSample K}

theorem foldl_addToBin (bin : DiscreteProjectionBinState (ScalarSums K))
    (l : List (ScalarSample K)) :
    l.foldl addToBin bin =
      ⟨bin.discrete, ⟨bin.state.count + l.length, l.foldl ScalarSums.accept bin.state.stats⟩⟩ := by
  induction l generalizing bin with
  | nil => simp
  | cons x l ih =>
    rw [List.foldl_cons, ih]
    simp only [addToBin, List.foldl_cons, List.length_cons]
    congr 2
    push_cast
    omega

/-- Two parts of a bin. -/
theorem mergeInPlace_foldl (l : List (ScalarSample K)) (x y : ScalarSample K)
    (l' : List (ScalarSample K)) :
    (l.foldl addToBin (newBin x)).mergeInPlace (l'.foldl addToBin (newBin y)) =
      (l ++ y :: l').foldl addToBin (newBin x) := by
  have hplain : l'.foldl ScalarSums.accept (ScalarSums.plain.accept y) =
      ScalarSums.ofList none .maxOrder2 (y :: l') := rfl
  have hmoments : (l.foldl ScalarSums.accept (ScalarSums.plain.accept x)).moments = .maxOrder2 :=
    (ScalarSums.foldl_accept_kept _ _).2.1.trans ScalarSums.accept_moments
  rw [foldl_addToBin, foldl_addToBin, foldl_addToBin]
  unfold DiscreteProjectionBinState.mergeInPlace newBin
  dsimp only
  rw [hplain, ScalarSums.mergePlain_ofList hmoments, List.foldl_append, List.length_append,
    List.length_cons]
  congr 2
  push_cast
  omega

theorem mergeBin_eq : mergeBin (F := K) = Tally.mergeEntry DiscreteProjectionBinState.mergeInPlace := by
  funext bins e
  unfold mergeBin Tally.mergeEntry
  cases OrdMap.get e.1 bins <;> rfl

/-- The bins of two parts are merged to those of the list. -/
theorem mergeBins_binsOf (l l' : List (ScalarSample K)) :
    (binsOf l').foldl mergeBin (binsOf l) = binsOf (l ++ l') := by
  unfold binsOf binned
  rw [mergeBin_eq, Tally.merge_tally mergeInPlace_foldl, List.filter_append]

theorem binsOf_concat : binsOf (l ++ [x]) =
    if x.point.discrete = [] then binsOf l
    else Tally.upsert ScalarSample.binKey newBin addToBin (binsOf l) x := by
  unfold binsOf binned
  rw [List.filter_append]
  split
  · rename_i hpath
    rw [List.filter_cons_of_neg (by simpa using hpath), List.filter_nil, List.append_nil]
  · rename_i hpath
    rw [List.filter_cons_of_pos (by simpa using hpath), List.filter_nil, Tally.tally_concat]

theorem ascending_binsOf : OrdMap.Ascending (binsOf l) := Tally.ascending_tally _

/-- A new path takes a new bin. -/
theorem length_binsOf_concat : (binsOf (l ++ [x])).length =
    if x.point.discrete = [] ∨ x.binKey ∈ OrdMap.keys (binsOf l) then (binsOf l).length
    else (binsOf l).length + 1 := by
  rw [binsOf_concat]
  by_cases hpath : x.point.discrete = []
  · rw [if_pos hpath, if_pos (.inl hpath)]
  · rw [if_neg hpath]
    unfold Tally.upsert
    by_cases hkey : x.binKey ∈ OrdMap.keys (binsOf l)
    · rw [if_pos (.inr hkey)]
      cases OrdMap.get x.binKey (binsOf l) <;>
        exact (OrdMap.length_insert ascending_binsOf).trans (if_pos hkey)
    · rw [if_neg (not_or.2 ⟨hpath, hkey⟩), OrdMap.get_eq_none.2 hkey]
      exact (OrdMap.length_insert ascending_binsOf).trans (if_neg hkey)

/-- A bin holds samples of the list, in a plain accumulator. -/
theorem bin_of_mem {e : String × DiscreteProjectionBinState (ScalarSums K)} (he : e ∈ binsOf l) :
    ∃ own : List (ScalarSample K), own.length ≤ l.length ∧ e.2.state.count = own.length ∧
      e.2.state.stats = ScalarSums.ofList none .maxOrder2 own := by
  have hget := OrdMap.get_eq_some_of_mem (Tally.ascending_tally _) he
  rw [Tally.get_tally] at hget
  have hlen : ((binned l).filter fun x => x.binKey = e.1).length ≤ l.length :=
    (List.length_filter_le _ _).trans (List.length_filter_le _ _)
  refine ⟨_, hlen, ?_⟩
  revert hget
  cases (binned l).filter fun x => x.binKey = e.1 with
  | nil => rintro ⟨⟩
  | cons x own =>
    intro hget
    have hbin := Option.some.inj hget
    rw [foldl_addToBin] at hbin
    rw [← hbin]
    refine ⟨?_, rfl⟩
    show (1 : Int) + own.length = _
    rw [List.length_cons]
    push_cast
    omega

/-! ## The accumulator of a list -/

/-- The accumulator of the samples of a list, with a bin for every path. -/
def scalarOf (discreteProjections : Option DiscreteProjectionConfig)
    (moments : AccumulatorMomentConfig) (l : List (ScalarSample K)) :
    ScalarAccumulatorState (ScalarSums K) :=
  ⟨l.length, { ScalarSums.ofList discreteProjections moments l with discreteBins := binsOf l }⟩

/-- `ingest_scalar`, with the details of a sample. -/
def ScalarAccumulatorState.ingest (a : ScalarAccumulatorState (ScalarSums K)) (x : ScalarSample K) :
    Except EngineError (ScalarAccumulatorState (ScalarSums K)) :=
  a.addSample x.value x.point x.stratum

section ScalarOf

variable {discreteProjections : Option DiscreteProjectionConfig} {moments : AccumulatorMomentConfig}

/-- The bins are no part of the sums. -/
theorem ScalarSums.accept_withBins (s : ScalarSums K)
    (bins : List (String × DiscreteProjectionBinState (ScalarSums K))) :
    ({ s with discreteBins := bins } : ScalarSums K).accept x =
      { s.accept x with discreteBins := bins } := by
  rw [accept_eq, accept_eq]
  rfl

/-- The bins take a sample of a path as long as there is room. -/
theorem ScalarSums.upsertDiscreteBin_binsOf {s : ScalarSums K} (hbins : s.discreteBins = binsOf l)
    (hpath : x.point.discrete ≠ []) (hcount : (l.length : Int) < i64Max)
    (hroom : (binsOf (l ++ [x])).length ≤ discreteProjectionMaxTotalBins) :
    s.upsertDiscreteBin x.value x.point x.stratum =
      .ok { s with discreteBins := binsOf (l ++ [x]) } := by
  rw [length_binsOf_concat] at hroom
  rw [binsOf_concat, if_neg hpath]
  unfold upsertDiscreteBin Tally.upsert
  dsimp only
  rw [hbins]
  cases hget : OrdMap.get (discreteBinKey x.point.discrete) (binsOf l) with
  | none =>
    have hkey : x.binKey ∉ OrdMap.keys (binsOf l) := OrdMap.get_eq_none.1 hget
    rw [if_neg (not_or.2 ⟨hpath, hkey⟩)] at hroom
    dsimp only
    rw [if_neg (by omega),
      ScalarAccumulatorState.addPlainSample_ok (show (0 : Int) < i64Max by decide)]
    unfold ScalarSample.binKey
    rw [hget]
    rfl
  | some bin =>
    obtain ⟨own, hown, hlen, -⟩ := bin_of_mem (OrdMap.mem_of_get hget)
    dsimp only
    rw [ScalarAccumulatorState.addPlainSample_ok (by dsimp only at hlen; omega)]
    unfold ScalarSample.binKey
    rw [hget]
    rfl

/-- A sample is taken as long as the count and the bins have room. -/
theorem ingest_scalarOf (hcount : (l.length : Int) < i64Max)
    (hroom : (binsOf (l ++ [x])).length ≤ discreteProjectionMaxTotalBins) :
    (scalarOf discreteProjections moments l).ingest x =
      .ok (scalarOf discreteProjections moments (l ++ [x])) := by
  have hstate : scalarOf discreteProjections moments (l ++ [x]) =
      ⟨(l.length : Int) + 1, { (ScalarSums.ofList discreteProjections moments l).accept x with
        discreteBins := binsOf (l ++ [x]) }⟩ := by
    unfold scalarOf
    rw [ScalarSums.ofList_concat, List.length_append, List.length_singleton]
    rfl
  unfold ScalarAccumulatorState.ingest ScalarAccumulatorState.addSample
    ScalarAccumulatorState.sumsWithSample
  rw [if_neg (by show ¬i64Max < (l.length : Int) + 1; omega)]
  simp only [bind, Except.bind]
  by_cases hpath : x.point.discrete = []
  · rw [if_pos hpath, hstate, binsOf_concat, if_pos hpath, ← ScalarSums.accept_withBins]
    rfl
  · rw [if_neg hpath, ScalarSums.upsertDiscreteBin_binsOf (l := l) rfl hpath hcount hroom, hstate,
      ← ScalarSums.accept_withBins]
    rfl

/-- The samples of a list, one after the other. -/
def ingestAll (a : ScalarAccumulatorState (ScalarSums K)) (l : List (ScalarSample K)) :
    Except EngineError (ScalarAccumulatorState (ScalarSums K)) :=
  l.foldlM (·.ingest ·) a

theorem length_binsOf_le : (binsOf l).length ≤ (binsOf (l ++ l')).length := by
  induction l' using List.reverseRecOn with
  | nil => rw [List.append_nil]
  | append_singleton l' x ih =>
    rw [← List.append_assoc, length_binsOf_concat]
    split
    · exact ih
    · omega

/-- The samples of a list are taken as long as the count and the bins have room. -/
theorem ingestAll_scalarOf (hcount : (l'.length : Int) ≤ i64Max)
    (hroom : (binsOf l').length ≤ discreteProjectionMaxTotalBins) :
    ingestAll (scalarOf discreteProjections moments []) l' =
      .ok (scalarOf discreteProjections moments l') := by
  unfold ingestAll
  induction l' using List.reverseRecOn with
  | nil => rfl
  | append_singleton l x ih =>
    rw [List.length_append, List.length_singleton] at hcount
    have hprev := ih (by push_cast at hcount; omega) (length_binsOf_le.trans hroom)
    rw [List.foldlM_append, hprev]
    show ((scalarOf discreteProjections moments l).ingest x >>= pure) = _
    rw [ingest_scalarOf (by push_cast at hcount; omega) hroom]
    rfl

end ScalarOf

/-! ## Merges of parts -/

section Merge

variable {discreteProjections : Option DiscreteProjectionConfig} {moments : AccumulatorMomentConfig}
  {num : Numerics K (ScalarSums K) M G L}

theorem validate_ofList {count : Int} (h : 0 ≤ count) :
    (ScalarSums.ofList discreteProjections moments l).validate (fun _ => true) count = .ok () := by
  refine ScalarSums.validate_ok_iff.2 ⟨ScalarSums.checkSums_ok_iff.2 ?_, h, ?_⟩
  · exact fun _ _ => ⟨rfl, rfl, rfl⟩
  · rw [show (ScalarSums.ofList discreteProjections moments l).discreteBins = [] from
      (ScalarSums.foldl_accept_kept _ _).2.2.1]
    exact fun e he => absurd he List.not_mem_nil

theorem validate_scalarOf :
    (scalarOf discreteProjections moments l).validate (withScalars (fun _ => true) num) = .ok () := by
  refine validate_withScalars.2 (ScalarSums.validate_ok_iff.2
    ⟨ScalarSums.checkSums_ok_iff.2 fun _ _ => ⟨rfl, rfl, rfl⟩, Int.natCast_nonneg _, ?_⟩)
  intro e he
  obtain ⟨own, -, hcount, hstats⟩ := bin_of_mem he
  rw [hcount, hstats]
  exact validate_ofList (Int.natCast_nonneg _)

/-- Bins of two parts pass their check. -/
theorem validateMergeBins_binsOf (h : (l.length : Int) + l'.length ≤ i64Max) :
    validateMergeBins (fun _ => true) (binsOf l) (binsOf l') = .ok () := by
  refine validateMergeBins_ok_iff.2 fun e he current hcurrent => ?_
  obtain ⟨own, hown, hcount, hstats⟩ := bin_of_mem (OrdMap.mem_of_get hcurrent)
  obtain ⟨other, hother, hcount', hstats'⟩ := bin_of_mem he
  dsimp only at hcount hstats
  rw [hcount, hstats, hcount', hstats']
  have hkept := ScalarSums.foldl_accept_kept (ScalarSums.new none .maxOrder2) own
  have hkept' := ScalarSums.foldl_accept_kept (ScalarSums.new none .maxOrder2) other
  refine ScalarSums.validateMerge_ok_iff.2 ⟨⟨hkept.1.trans hkept'.1.symm,
    hkept.2.1.trans hkept'.2.1.symm⟩, validate_ofList (Int.natCast_nonneg _),
    validate_ofList (Int.natCast_nonneg _), ScalarSums.checkSumsWith_ok_iff.2 ?_, by omega, ?_⟩
  · exact fun _ _ => ⟨rfl, rfl, rfl⟩
  · rw [show (ScalarSums.ofList none .maxOrder2 other).discreteBins = [] from hkept'.2.2.1]
    rfl

/-- Accumulators of two parts can be merged. -/
theorem validateMerge_scalarOf (h : (l.length : Int) + l'.length ≤ i64Max) :
    (scalarOf discreteProjections moments l).validateMerge (withScalars (fun _ => true) num)
      (scalarOf discreteProjections moments l') = .ok () := by
  have hkept := ScalarSums.foldl_accept_kept (ScalarSums.new discreteProjections moments) l
  have hkept' := ScalarSums.foldl_accept_kept (ScalarSums.new discreteProjections moments) l'
  have hconfig : ScalarSums.sameConfig (scalarOf discreteProjections moments l).stats
      (scalarOf discreteProjections moments l').stats = true := by
    unfold ScalarSums.sameConfig
    rw [Bool.and_eq_true, beq_iff_eq, beq_iff_eq]
    exact ⟨hkept.1.trans hkept'.1.symm, hkept.2.1.trans hkept'.2.1.symm⟩
  unfold ScalarAccumulatorState.validateMerge
  rw [if_neg (by simpa [withScalars] using hconfig), validate_scalarOf, validate_scalarOf]
  refine bind_unit_ok_iff.2 ⟨rfl, bind_unit_ok_iff.2 ⟨rfl, bind_unit_ok_iff.2 ⟨?_, ?_⟩⟩⟩
  · show ScalarSums.checkSumsWith (fun _ => true) (scalarOf discreteProjections moments l).stats
      (scalarOf discreteProjections moments l').stats = .ok ()
    exact ScalarSums.checkSumsWith_ok_iff.2 fun _ _ => ⟨rfl, rfl, rfl⟩
  · have hcount : ¬i64Max < (scalarOf discreteProjections moments l).count +
        (scalarOf discreteProjections moments l').count := not_lt.2 h
    rw [if_neg hcount]
    exact validateMergeBins_binsOf h

theorem ScalarSums.foldl_accept_withBins (s : ScalarSums K)
    (bins : List (String × DiscreteProjectionBinState (ScalarSums K))) :
    l.foldl accept ({ s with discreteBins := bins } : ScalarSums K) =
      { l.foldl accept s with discreteBins := bins } := by
  induction l generalizing s with
  | nil => rfl
  | cons x l ih => rw [List.foldl_cons, accept_withBins, ih, List.foldl_cons]

theorem ScalarSums.merge_eq {s t : ScalarSums K} (hs : s.discreteBinsOverflowCount = 0)
    (ht : t.discreteBinsOverflowCount = 0) :
    s.merge t = { s.mergePlain t with discreteBins := t.discreteBins.foldl mergeBin s.discreteBins } := by
  obtain ⟨⟩ := s
  obtain ⟨⟩ := t
  cases hs
  cases ht
  rfl

/-- Merged accumulators of two parts are the accumulator of the list. -/
theorem mergePlain_scalarOf :
    (scalarOf discreteProjections moments l).mergePlain (withScalars (fun _ => true) num)
      (scalarOf discreteProjections moments l') = scalarOf discreteProjections moments (l ++ l') := by
  have hkept := ScalarSums.foldl_accept_kept (ScalarSums.new discreteProjections moments) l
  have hkept' := ScalarSums.foldl_accept_kept (ScalarSums.new discreteProjections moments) l'
  have hmerge := ScalarSums.merge_eq
    (show (scalarOf discreteProjections moments l).stats.discreteBinsOverflowCount = 0 from
      hkept.2.2.2)
    (show (scalarOf discreteProjections moments l').stats.discreteBinsOverflowCount = 0 from
      hkept'.2.2.2)
  show (⟨(l.length : Int) + l'.length, ScalarSums.merge _ _⟩ : ScalarAccumulatorState _) = _
  rw [hmerge]
  unfold scalarOf
  dsimp only
  rw [List.length_append, Nat.cast_add, mergeBins_binsOf]
  congr 1
  have hplain : ({ ScalarSums.ofList discreteProjections moments l with
        discreteBins := binsOf l } : ScalarSums K).mergePlain
      (ScalarSums.ofList discreteProjections moments l') =
      l'.foldl ScalarSums.accept { ScalarSums.ofList discreteProjections moments l with
        discreteBins := binsOf l } :=
    ScalarSums.mergePlain_ofList hkept.2.1
  rw [ScalarSums.foldl_accept_withBins] at hplain
  show ({ ScalarSums.mergePlain { ScalarSums.ofList discreteProjections moments l with
      discreteBins := binsOf l } (ScalarSums.ofList discreteProjections moments l') with
      discreteBins := binsOf (l ++ l') } : ScalarSums K) = _
  rw [hplain]
  unfold ScalarSums.ofList
  rw [List.foldl_append]

end Merge

/-! ## Batches -/

section Batches

variable (num : Numerics K (ScalarSums K) M G L)
  (discreteProjections : Option DiscreteProjectionConfig) (moments : AccumulatorMomentConfig)

/-- Every batch is ingested into an accumulator of its own and merged in order. -/
def mergeBatches (a : ScalarAccumulatorState (ScalarSums K)) :
    List (List (ScalarSample K)) → Except EngineError (ScalarAccumulatorState (ScalarSums K))
  | [] => .ok a
  | batch :: batches => do
    let b ← ingestAll ⟨0, .new discreteProjections moments⟩ batch
    match a.mergeInto (withScalars (fun _ => true) num) b with
    | (merged, none) => mergeBatches merged batches
    | (_, some e) => .error e

/-- The keys, the paths, the counts and the sums of the bins. -/
def binProjections (a : ScalarAccumulatorState (ScalarSums K)) :
    List (String × List Int × Int × List K) :=
  a.stats.discreteBins.map fun e => (e.1, e.2.discrete, e.2.state.count, e.2.state.stats.sums)

/-- The samples can be ingested, and however they are cut into batches the bins are the same and
no more than there may be. -/
def BatchingIndependent (l : List (ScalarSample K)) : Prop :=
  ∃ whole, ingestAll ⟨0, .new discreteProjections moments⟩ l = .ok whole ∧
    ∀ batches : List (List (ScalarSample K)), batches.flatten = l → ∃ merged,
      mergeBatches num discreteProjections moments ⟨0, .new discreteProjections moments⟩ batches =
          .ok merged ∧
        binProjections merged = binProjections whole ∧
        merged.stats.discreteBins.length ≤ discreteProjectionMaxTotalBins

/-- The discrete paths of a list, each once. -/
def distinctPaths (l : List (ScalarSample K)) : List (List Int) :=
  ((l.map (·.point.discrete)).filter (· ≠ [])).dedup

variable {num discreteProjections moments}

/-- There is a bin for every path: the key of a path tells it from the others. -/
theorem length_binsOf : (binsOf l).length = (distinctPaths l).length := by
  have hpaths : (binned l).map ScalarSample.binKey =
      ((l.map (·.point.discrete)).filter (· ≠ [])).map discreteBinKey := by
    unfold binned ScalarSample.binKey
    rw [List.filter_map, List.map_map]
    rfl
  refine (Tally.length_tally _).trans ?_
  rw [hpaths]
  unfold distinctPaths
  have hne : ∀ path ∈ ((l.map (·.point.discrete)).filter (· ≠ [])).dedup, path ≠ [] := by
    intro path hpath
    simpa using (List.mem_filter.1 (List.mem_dedup.1 hpath)).2
  have hnodup := (List.nodup_dedup ((l.map (·.point.discrete)).filter (· ≠ []))).map_on
    fun path hpath path' hpath' hkey =>
      Utils.joinInts_injective (hne path hpath) (hne path' hpath') hkey
  have hperm := (List.perm_ext_iff_of_nodup (List.nodup_dedup
    (((l.map (·.point.discrete)).filter (· ≠ [])).map discreteBinKey)) hnodup).2 fun key => by
      simp only [List.mem_dedup, List.mem_map]
      rfl
  rw [hperm.length_eq, List.length_map]

theorem scalarOf_nil : scalarOf discreteProjections moments [] =
    (⟨0, .new discreteProjections moments⟩ : ScalarAccumulatorState (ScalarSums K)) := rfl

theorem mergeInto_scalarOf (h : (l.length : Int) + l'.length ≤ i64Max) :
    (scalarOf discreteProjections moments l).mergeInto (withScalars (fun _ => true) num)
      (scalarOf discreteProjections moments l') =
      (scalarOf discreteProjections moments (l ++ l'), none) := by
  unfold ScalarAccumulatorState.mergeInto
  rw [validateMerge_scalarOf h, mergePlain_scalarOf]

/-- Batches whose own bins fit are merged to the accumulator of all their samples. -/
theorem mergeBatches_scalarOf {batches : List (List (ScalarSample K))}
    (hcount : (l.length : Int) + batches.flatten.length ≤ i64Max)
    (hroom : ∀ batch ∈ batches, (binsOf batch).length ≤ discreteProjectionMaxTotalBins) :
    mergeBatches num discreteProjections moments (scalarOf discreteProjections moments l) batches =
      .ok (scalarOf discreteProjections moments (l ++ batches.flatten)) := by
  induction batches generalizing l with
  | nil =>
    rw [List.flatten_nil, List.append_nil]
    rfl
  | cons batch batches ih =>
    rw [List.forall_mem_cons] at hroom
    rw [List.flatten_cons, List.length_append] at hcount
    push_cast at hcount
    have hbatch : ingestAll ⟨0, .new discreteProjections moments⟩ batch =
        .ok (scalarOf discreteProjections moments batch) :=
      ingestAll_scalarOf (by omega) hroom.1
    have hrest := @ih (l ++ batch) (by rw [List.length_append]; push_cast; omega) hroom.2
    unfold mergeBatches
    simp only [hbatch, bind, Except.bind]
    rw [mergeInto_scalarOf (by omega)]
    dsimp only
    rw [hrest, List.append_assoc, List.flatten_cons]

/-- A part has no more bins than the list. -/
theorem length_binsOf_part {batch : List (ScalarSample K)} (h : ∀ x ∈ batch, x ∈ l) :
    (binsOf batch).length ≤ (binsOf l).length := by
  rw [length_binsOf, length_binsOf]
  refine List.Nodup.length_le_of_subset (List.nodup_dedup _) fun path hpath => ?_
  obtain ⟨hmem, hne⟩ := List.mem_filter.1 (List.mem_dedup.1 hpath)
  obtain ⟨x, hx, rfl⟩ := List.mem_map.1 hmem
  exact List.mem_dedup.2 (List.mem_filter.2 ⟨List.mem_map_of_mem (h x hx), hne⟩)

theorem length_binsOf_singleton : (binsOf [x]).length ≤ 1 := by
  rw [length_binsOf]
  refine ((List.dedup_sublist _).length_le).trans ?_
  exact List.length_filter_le _ _

/-- A batch for every sample never meets the cap. -/
theorem fits_of_batchingIndependent (hcount : (l.length : Int) ≤ i64Max)
    (h : BatchingIndependent num discreteProjections moments l) :
    (distinctPaths l).length ≤ discreteProjectionMaxTotalBins := by
  obtain ⟨whole, -, h⟩ := h
  have hflatten : (l.map fun x => [x]).flatten = l := by
    rw [← List.flatMap_def, List.flatMap_singleton']
  obtain ⟨merged, hmerged, -, hlen⟩ := h (l.map fun x => [x]) hflatten
  have hsingles : ∀ batch ∈ l.map (fun x => [x]),
      (binsOf batch).length ≤ discreteProjectionMaxTotalBins := by
    intro batch hbatch
    obtain ⟨x, -, rfl⟩ := List.mem_map.1 hbatch
    exact length_binsOf_singleton.trans (by decide)
  rw [← scalarOf_nil, mergeBatches_scalarOf (by rw [hflatten]; simpa using hcount) hsingles,
    hflatten, List.nil_append] at hmerged
  rw [← length_binsOf]
  rw [← Except.ok.inj hmerged] at hlen
  exact hlen

end Batches

/-- The bins of a list of samples do not depend on how it is cut into batches, and stay as few as
they should, exactly when there are no more paths than bins. -/
theorem batching_independent_iff (num : Numerics K (ScalarSums K) M G L)
    (discreteProjections : Option DiscreteProjectionConfig) (moments : AccumulatorMomentConfig)
    {l : List (ScalarSample K)} (hcount : (l.length : Int) ≤ i64Max) :
    BatchingIndependent num discreteProjections moments l ↔
      (distinctPaths l).length ≤ discreteProjectionMaxTotalBins := by
  refine ⟨fits_of_batchingIndependent hcount, fun hroom => ?_⟩
  rw [← length_binsOf] at hroom
  refine ⟨scalarOf discreteProjections moments l, ingestAll_scalarOf hcount hroom,
    fun batches hbatches => ⟨scalarOf discreteProjections moments l, ?_, rfl, hroom⟩⟩
  subst hbatches
  rw [← scalarOf_nil, ← List.nil_append batches.flatten]
  refine mergeBatches_scalarOf (by rw [List.length_nil]; push_cast; omega) fun batch hbatch =>
    (length_binsOf_part fun x hx => List.mem_flatten.2 ⟨batch, hbatch, hx⟩).trans hroom

/-- Samples of weight and value one on the first so many paths of one axis. -/
def pathSamples (n : Nat) : List (ScalarSample ℚ) :=
  (List.range n).map fun i : Nat => ⟨1, ⟨[], [(i : Int)], []⟩, none⟩

theorem batching_independent_two :
    BatchingIndependent partitionNumerics none .maxOrder2 (pathSamples 2) :=
  (batching_independent_iff partitionNumerics none .maxOrder2
    (show ((pathSamples 2).length : Int) ≤ i64Max by decide)).2 (by decide)

theorem distinctPaths_pathSamples (n : Nat) : (distinctPaths (pathSamples n)).length = n := by
  have hpaths : (pathSamples n).map (·.point.discrete) =
      (List.range n).map fun i : Nat => [(i : Int)] := by
    unfold pathSamples
    rw [List.map_map]
    rfl
  have hnodup : ((List.range n).map fun i : Nat => [(i : Int)]).Nodup :=
    List.nodup_range.map fun i j h => by simpa using h
  unfold distinctPaths
  rw [hpaths, List.filter_eq_self.2, hnodup.dedup, List.length_map, List.length_range]
  intro path hpath
  obtain ⟨i, -, rfl⟩ := List.mem_map.1 hpath
  rfl

/-- One path more than there may be bins: batches of one sample each are merged to a bin for every
path. -/
theorem bins_exceed_cap :
    ¬∀ l : List (ScalarSample ℚ), (l.length : Int) ≤ i64Max →
      BatchingIndependent partitionNumerics none .maxOrder2 l := by
  intro h
  have hlen : ((pathSamples 4097).length : Int) ≤ i64Max := by
    unfold pathSamples
    rw [List.length_map, List.length_range]
    decide
  have hfits := fits_of_batchingIndependent hlen (h (pathSamples 4097) hlen)
  rw [distinctPaths_pathSamples] at hfits
  exact absurd hfits (by decide)

end Gammaboard.Evaluation
