import Gammaboard.Evaluation.DiscreteBins

/-!
# Adding samples in place

`add_sample_with_details` with its checks and the state it leaves behind when one
of them fails: the sums are checked first, then the bin of the sample is found or
made and takes the sample, and the sums are set last. A bin that was just made
never refuses the sample that passed the first check, so a rejected sample leaves
everything as it was.
-/

namespace Gammaboard.Evaluation

open Gammaboard.Core Gammaboard.Sampling Gammaboard.Lib

variable {K M G L : Type} [Field K] [LinearOrder K]

/-- Which numbers are finite; zero is. -/
structure Finiteness (K : Type) [Zero K] where
  finite : K → Bool
  zero : finite 0 = true

def Finiteness.all : Finiteness K := ⟨fun _ => true, rfl⟩

/-- The state a step leaves, unless the step fails. -/
def taken {α : Type} : α × Option EngineError → Except EngineError α
  | (state, none) => .ok state
  | (_, some e) => .error e

theorem taken_replaced {α : Type} (state : α) (r : Except EngineError α) :
    taken (replaced state r) = r := by
  cases r <;> rfl

/-- A merge that is rejected leaves the accumulator as it was. -/
theorem ScalarAccumulatorState.mergeInto_error {V S : Type} {num : Numerics V S M G L}
    {a b c : ScalarAccumulatorState S} {e : EngineError} (h : a.mergeInto num b = (c, some e)) :
    c = a := by
  unfold mergeInto at h
  split at h
  · exact (Prod.mk.inj h).1.symm
  · cases (Prod.mk.inj h).2

/-! ## Sums -/

namespace ScalarSums

/-- What a sample adds to the sums. -/
def addends (s : ScalarSums K) (x : ScalarSample K) : List K :=
  let weighted := x.value * |x.point.totalWeight|
  let square := weighted * weighted
  match s.moments with
  | .maxOrder4 => [weighted, |weighted|, square, square * weighted, square * square]
  | .maxOrder2 => [weighted, |weighted|, square, 0, 0]

def setSums (s : ScalarSums K) : List K → ScalarSums K
  | [sumWeightedValue, sumAbs, sumSq, sumCu, sumFour] =>
    { s with sumWeightedValue, sumAbs, sumSq, sumCu, sumFour }
  | _ => s

variable {s : ScalarSums K} {x : ScalarSample K}

/-- The sums checked, when they are finite, are those with the sample. -/
theorem setSums_checked {finite : K → Bool} {sums : List K}
    (h : checkedSums finite sumNames s.sums (s.addends x) = .ok sums) :
    s.setSums sums = s.withSample x.value x.point := by
  have heq : ∀ {names : List String} {lefts rights sums : List K},
      names.length = lefts.length → checkedSums finite names lefts rights = .ok sums →
        sums = List.zipWith (· + ·) lefts rights := by
    intro names
    induction names with
    | nil =>
      intro lefts rights sums hlen h
      obtain rfl := List.length_eq_zero_iff.1 hlen.symm
      exact (Except.ok.inj h).symm
    | cons name names ih =>
      intro lefts rights sums hlen h
      cases lefts with
      | nil => cases hlen
      | cons left lefts =>
        cases rights with
        | nil => exact (Except.ok.inj h).symm
        | cons right rights =>
          unfold checkedSums at h
          split at h
          · cases h
          · cases hrest : checkedSums finite names lefts rights with
            | error e =>
              rw [hrest] at h
              cases h
            | ok rest =>
              rw [hrest] at h
              rw [← Except.ok.inj h, ih (by simpa using hlen) hrest]
              rfl
  rw [heq rfl h]
  obtain ⟨_, moments⟩ := s
  cases moments <;> rfl

end ScalarSums

namespace ScalarAccumulatorState

variable (fin : Finiteness K)

/-- `sums_with_sample`. -/
def checkedSample (a : ScalarAccumulatorState (ScalarSums K)) (x : ScalarSample K) :
    Except EngineError (List K) :=
  if i64Max < a.count + 1 then .error (.eval "sample count overflow")
  else checkedSums fin.finite sumNames a.stats.sums (a.stats.addends x)

/-- `accept_sample`. -/
def acceptSums (a : ScalarAccumulatorState (ScalarSums K)) (sums : List K) (x : ScalarSample K) :
    ScalarAccumulatorState (ScalarSums K) :=
  a.acceptSample (a.stats.setSums sums) x.value x.point x.stratum

/-- `add_plain_sample`. -/
def addPlainSampleInto (a : ScalarAccumulatorState (ScalarSums K)) (x : ScalarSample K) :
    ScalarAccumulatorState (ScalarSums K) × Option EngineError :=
  match a.checkedSample fin x with
  | .error e => (a, some e)
  | .ok sums => (a.acceptSums sums x, none)

variable {fin} {a c : ScalarAccumulatorState (ScalarSums K)} {x : ScalarSample K}

theorem addPlainSampleInto_error {e : EngineError}
    (h : a.addPlainSampleInto fin x = (c, some e)) : c = a := by
  unfold addPlainSampleInto at h
  split at h
  · exact (Prod.mk.inj h).1.symm
  · cases (Prod.mk.inj h).2

theorem checkedSample_all : a.checkedSample .all x =
    if i64Max < a.count + 1 then .error (.eval "sample count overflow")
    else .ok (List.zipWith (· + ·) a.stats.sums (a.stats.addends x)) := by
  unfold checkedSample ScalarSums.addends
  cases a.stats.moments <;> rfl

theorem addPlainSampleInto_all : a.addPlainSampleInto .all x =
    replaced a (a.addPlainSample x.value x.point x.stratum) := by
  unfold addPlainSampleInto addPlainSample sumsWithSample
  cases hchecked : a.checkedSample .all x with
  | error e =>
    rw [checkedSample_all] at hchecked
    split at hchecked
    · rename_i hcount
      rw [if_pos hcount, ← Except.error.inj hchecked]
      rfl
    · cases hchecked
  | ok sums =>
    unfold checkedSample at hchecked
    split at hchecked
    · cases hchecked
    · rename_i hcount
      rw [if_neg hcount]
      show (a.acceptSample (a.stats.setSums sums) x.value x.point x.stratum, none) = _
      rw [ScalarSums.setSums_checked hchecked]
      rfl

end ScalarAccumulatorState

/-! ## Bins -/

section Bins

variable (fin : Finiteness K)

/-- The sample into the entry of a key. -/
def fillEntry (key : String) (x : ScalarSample K) :
    List (String × DiscreteProjectionBinState (ScalarSums K)) →
      List (String × DiscreteProjectionBinState (ScalarSums K)) × Option EngineError
  | [] => ([], none)
  | (own, bin) :: rest =>
    if own = key then
      let (state, e) := bin.state.addPlainSampleInto fin x
      ((own, { bin with state }) :: rest, e)
    else
      let (rest, e) := fillEntry key x rest
      ((own, bin) :: rest, e)

/-- `upsert_scalar_discrete_bin`: the entry is made before it takes the sample. -/
def ScalarSums.upsertInto (s : ScalarSums K) (x : ScalarSample K) :
    ScalarSums K × Option EngineError :=
  let key := discreteBinKey x.point.discrete
  match OrdMap.get key s.discreteBins with
  | none =>
    if discreteProjectionMaxTotalBins ≤ s.discreteBins.length then
      ({ s with discreteBinsOverflowCount := s.discreteBinsOverflowCount + 1 }, none)
    else
      let (discreteBins, e) := fillEntry fin key x
        (OrdMap.insert key ⟨x.point.discrete, ⟨0, .plain⟩⟩ s.discreteBins)
      ({ s with discreteBins }, e)
  | some _ =>
    let (discreteBins, e) := fillEntry fin key x s.discreteBins
    ({ s with discreteBins }, e)

/-- `add_sample_with_details`. -/
def ScalarAccumulatorState.addSampleInto (a : ScalarAccumulatorState (ScalarSums K))
    (x : ScalarSample K) : ScalarAccumulatorState (ScalarSums K) × Option EngineError :=
  match a.checkedSample fin x with
  | .error e => (a, some e)
  | .ok sums =>
    if x.point.discrete = [] then (a.acceptSums sums x, none)
    else
      match a.stats.upsertInto fin x with
      | (stats, some e) => (⟨a.count, stats⟩, some e)
      | (stats, none) => (ScalarAccumulatorState.acceptSums ⟨a.count, stats⟩ sums x, none)

variable {fin} {key : String} {x : ScalarSample K}
  {bins bins' : List (String × DiscreteProjectionBinState (ScalarSums K))}
  {a c : ScalarAccumulatorState (ScalarSums K)} {e : EngineError}

/-- The entry that refused the sample is as before. -/
theorem fillEntry_error (h : fillEntry fin key x bins = (bins', some e)) :
    bins' = bins ∧ ∃ bin, OrdMap.get key bins = some bin ∧
      bin.state.addPlainSampleInto fin x = (bin.state, some e) := by
  induction bins generalizing bins' with
  | nil => cases (Prod.mk.inj h).2
  | cons entry bins ih =>
    obtain ⟨own, bin⟩ := entry
    unfold fillEntry at h
    rw [OrdMap.get_cons]
    split at h
    · rename_i hkey
      cases hadd : bin.state.addPlainSampleInto fin x with
      | mk state err =>
        rw [hadd] at h
        obtain ⟨hbins, herror⟩ := Prod.mk.inj h
        rw [show err = some e from herror] at hadd
        obtain rfl := ScalarAccumulatorState.addPlainSampleInto_error hadd
        exact ⟨hbins.symm, bin, if_pos hkey, hadd⟩
    · rename_i hkey
      cases hfill : fillEntry fin key x bins with
      | mk rest err =>
        rw [hfill] at h
        obtain ⟨hbins, herror⟩ := Prod.mk.inj h
        rw [show err = some e from herror] at hfill
        obtain ⟨hrest, found, hget, hfound⟩ := ih hfill
        rw [hrest] at hbins
        exact ⟨hbins.symm, found, (if_neg hkey).trans hget, hfound⟩

/-- A plain accumulator takes what passed the check of another one: its sums are what the sample
adds. -/
theorem checkedSample_plain {sums : List K} (h : a.checkedSample fin x = .ok sums) :
    ∃ own, (⟨0, .plain⟩ : ScalarAccumulatorState (ScalarSums K)).checkedSample fin x = .ok own := by
  unfold ScalarAccumulatorState.checkedSample at h ⊢
  split at h
  · cases h
  · have hlen : (a.stats.addends x).length = a.stats.sums.length := by
      unfold ScalarSums.addends
      cases a.stats.moments <;> rfl
    have hnames : sumNames.length = a.stats.sums.length := rfl
    have hfinite := (checkedSums_ok_iff hnames hlen).1 ⟨sums, h⟩
    have hcount : ¬i64Max < (0 : Int) + 1 := by decide
    have hplain : sumNames.length = (ScalarSums.plain : ScalarSums K).sums.length := rfl
    have hadds : ((ScalarSums.plain : ScalarSums K).addends x).length =
        (ScalarSums.plain : ScalarSums K).sums.length := rfl
    rw [if_neg hcount]
    refine (checkedSums_ok_iff hplain hadds).2 ?_
    have hadded : ∀ v ∈ (a.stats.addends x).take 3, fin.finite v = true := by
      intro v hv
      obtain ⟨i, hi, rfl⟩ := List.getElem_of_mem (List.mem_of_mem_take hv)
      have hzip : i < (a.stats.sums.zip (a.stats.addends x)).length := by
        rw [List.length_zip]
        omega
      have hmem := List.getElem_mem hzip
      rw [List.getElem_zip] at hmem
      exact (hfinite _ hmem).2.1
    have htake : (a.stats.addends x).take 3 = ((ScalarSums.plain : ScalarSums K).addends x).take 3 := by
      unfold ScalarSums.addends
      cases a.stats.moments <;> rfl
    rw [htake] at hadded
    simp only [ScalarSums.addends, ScalarSums.plain, ScalarSums.new, List.take_succ_cons,
      List.take_zero, List.forall_mem_cons] at hadded
    simp only [ScalarSums.addends, ScalarSums.plain, ScalarSums.new, ScalarSums.sums,
      List.zip_cons_cons, List.forall_mem_cons, zero_add, fin.zero, true_and, and_self]
    simp [hadded]

/-- A sample that is rejected leaves the accumulator as it was. -/
theorem addSampleInto_error (h : a.addSampleInto fin x = (c, some e)) : c = a := by
  unfold ScalarAccumulatorState.addSampleInto at h
  cases hchecked : a.checkedSample fin x with
  | error e' =>
    rw [hchecked] at h
    exact (Prod.mk.inj h).1.symm
  | ok sums =>
    rw [hchecked] at h
    dsimp only at h
    by_cases hpath : x.point.discrete = []
    · rw [if_pos hpath] at h
      cases (Prod.mk.inj h).2
    · rw [if_neg hpath] at h
      cases hupsert : a.stats.upsertInto fin x with
      | mk stats err =>
        rw [hupsert] at h
        cases err with
        | none => cases (Prod.mk.inj h).2
        | some e' =>
          rw [← (Prod.mk.inj h).1]
          suffices hstats : stats = a.stats by rw [hstats]
          unfold ScalarSums.upsertInto at hupsert
          dsimp only at hupsert
          cases hget : OrdMap.get (discreteBinKey x.point.discrete) a.stats.discreteBins with
          | none =>
            rw [hget] at hupsert
            dsimp only at hupsert
            split at hupsert
            · cases (Prod.mk.inj hupsert).2
            · -- the new entry would have to refuse the sample
              obtain ⟨-, herror⟩ := Prod.mk.inj hupsert
              obtain ⟨-, bin, hbin, hrefused⟩ := fillEntry_error (Prod.ext rfl herror)
              rw [OrdMap.get_insert, if_pos rfl] at hbin
              rw [← Option.some.inj hbin] at hrefused
              obtain ⟨own, hown⟩ := checkedSample_plain hchecked
              unfold ScalarAccumulatorState.addPlainSampleInto at hrefused
              dsimp only at hrefused
              rw [hown] at hrefused
              cases (Prod.mk.inj hrefused).2
          | some bin =>
            rw [hget] at hupsert
            cases hfill : fillEntry fin (discreteBinKey x.point.discrete) x a.stats.discreteBins with
            | mk bins err =>
              rw [hfill] at hupsert
              obtain ⟨hbins, herror⟩ := Prod.mk.inj hupsert
              rw [show err = some e' from herror] at hfill
              obtain ⟨rfl, -⟩ := fillEntry_error hfill
              rw [← hbins]
              cases a.stats
              rfl

/-! ## Without overflows -/

/-- The entry of a key in a map is replaced. -/
theorem fillEntry_eq (hascending : OrdMap.Ascending bins)
    {bin : DiscreteProjectionBinState (ScalarSums K)} (hget : OrdMap.get key bins = some bin) :
    fillEntry fin key x bins =
      (OrdMap.insert key { bin with state := (bin.state.addPlainSampleInto fin x).1 } bins,
        (bin.state.addPlainSampleInto fin x).2) := by
  induction bins with
  | nil => cases hget
  | cons entry bins ih =>
    obtain ⟨own, found⟩ := entry
    obtain ⟨hlt, hrest⟩ := List.pairwise_cons.1 hascending
    rw [OrdMap.get_cons] at hget
    unfold fillEntry
    by_cases hkey : own = key
    · subst hkey
      rw [if_pos rfl] at hget
      obtain rfl := Option.some.inj hget
      rw [if_pos rfl, OrdMap.insert, if_neg (lt_irrefl own), if_pos rfl]
    · rw [if_neg hkey] at hget
      have hmem : key ∈ OrdMap.keys bins := OrdMap.isSome_get.1 (by rw [hget]; rfl)
      rw [if_neg hkey, ih hrest hget, OrdMap.insert, if_pos (hlt key hmem)]

theorem upsertInto_all {s : ScalarSums K} (h : OrdMap.Ascending s.discreteBins) :
    s.upsertInto .all x = replaced s (s.upsertDiscreteBin x.value x.point x.stratum) := by
  unfold ScalarSums.upsertInto ScalarSums.upsertDiscreteBin
  dsimp only
  cases hget : OrdMap.get (discreteBinKey x.point.discrete) s.discreteBins with
  | none =>
    dsimp only
    by_cases hfull : discreteProjectionMaxTotalBins ≤ s.discreteBins.length
    · rw [if_pos hfull, if_pos hfull]
      rfl
    · rw [if_neg hfull, if_neg hfull, fillEntry_eq h.insert (OrdMap.get_insert.trans (if_pos rfl)),
        ScalarAccumulatorState.addPlainSampleInto_all,
        ScalarAccumulatorState.addPlainSample_ok (show (0 : Int) < i64Max by decide)]
      dsimp only [replaced, bind, Except.bind, pure, Except.pure]
      have hinsert : ∀ bin bin' : DiscreteProjectionBinState (ScalarSums K),
          OrdMap.insert (discreteBinKey x.point.discrete) bin
              (OrdMap.insert (discreteBinKey x.point.discrete) bin' s.discreteBins) =
            OrdMap.insert (discreteBinKey x.point.discrete) bin s.discreteBins := by
        intro bin bin'
        refine h.insert.insert.ext h.insert fun i => ?_
        rw [OrdMap.get_insert, OrdMap.get_insert, OrdMap.get_insert]
        split <;> rfl
      rw [hinsert]
  | some bin =>
    dsimp only
    rw [fillEntry_eq h hget, ScalarAccumulatorState.addPlainSampleInto_all]
    cases hadd : bin.state.addPlainSample x.value x.point x.stratum with
    | ok state => rfl
    | error e =>
      have hsame : OrdMap.insert (discreteBinKey x.point.discrete) bin s.discreteBins =
          s.discreteBins := by
        refine h.insert.ext h fun i => ?_
        rw [OrdMap.get_insert]
        split
        · rename_i hi
          rw [← hi, hget]
        · rfl
      dsimp only [replaced, bind, Except.bind]
      rw [hsame]
      cases s
      rfl

/-- The bins do not depend on the sums. -/
theorem upsertDiscreteBin_setSums (s : ScalarSums K) (sums : List K) :
    (s.setSums sums).upsertDiscreteBin x.value x.point x.stratum =
      (s.upsertDiscreteBin x.value x.point x.stratum).map (·.setSums sums) := by
  have hset : ∀ (discreteBins : List (String × DiscreteProjectionBinState (ScalarSums K)))
      (overflow : Nat),
      ({ s with discreteBins, discreteBinsOverflowCount := overflow } : ScalarSums K).setSums sums =
        { s.setSums sums with discreteBins, discreteBinsOverflowCount := overflow } := by
    intro discreteBins overflow
    unfold ScalarSums.setSums
    split <;> rfl
  have hbins : (s.setSums sums).discreteBins = s.discreteBins := by
    unfold ScalarSums.setSums
    split <;> rfl
  have hoverflow : (s.setSums sums).discreteBinsOverflowCount = s.discreteBinsOverflowCount := by
    unfold ScalarSums.setSums
    split <;> rfl
  unfold ScalarSums.upsertDiscreteBin
  dsimp only
  rw [hbins, hoverflow]
  cases OrdMap.get (discreteBinKey x.point.discrete) s.discreteBins with
  | none =>
    dsimp only
    split
    · exact congrArg Except.ok (hset _ _).symm
    · rw [ScalarAccumulatorState.addPlainSample_ok (show (0 : Int) < i64Max by decide)]
      exact congrArg Except.ok (hset _ _).symm
  | some bin =>
    dsimp only
    cases bin.state.addPlainSample x.value x.point x.stratum with
    | error e => rfl
    | ok state => exact congrArg Except.ok (hset _ _).symm

/-- Where every number is finite the sample is added as to a copy. -/
theorem addSampleInto_all (h : OrdMap.Ascending a.stats.discreteBins) :
    a.addSampleInto .all x = replaced a (a.ingest x) := by
  unfold ScalarAccumulatorState.addSampleInto ScalarAccumulatorState.ingest
    ScalarAccumulatorState.addSample ScalarAccumulatorState.sumsWithSample
  cases hchecked : a.checkedSample .all x with
  | error e =>
    rw [ScalarAccumulatorState.checkedSample_all] at hchecked
    split at hchecked
    · rename_i hcount
      rw [if_pos hcount, ← Except.error.inj hchecked]
      rfl
    · cases hchecked
  | ok sums =>
    unfold ScalarAccumulatorState.checkedSample at hchecked
    split at hchecked
    · cases hchecked
    · rename_i hcount
      have hset := ScalarSums.setSums_checked hchecked
      rw [if_neg hcount]
      dsimp only [bind, Except.bind]
      by_cases hpath : x.point.discrete = []
      · rw [if_pos hpath, if_pos hpath]
        unfold ScalarAccumulatorState.acceptSums
        rw [hset]
        rfl
      · rw [if_neg hpath, if_neg hpath, upsertInto_all h, ← hset, upsertDiscreteBin_setSums]
        cases a.stats.upsertDiscreteBin x.value x.point x.stratum with
        | error e => rfl
        | ok stats => rfl

end Bins

end Gammaboard.Evaluation
