import Gammaboard.Server.GraphTotals

/-!
# Graphs and summaries agree

Both are functions of the intervals between consecutive reports of one worker,
the graphs through their bins. After any reports the bins of a trace hold
together what its summary holds, the ranges of a bin are the components of what
was observed of it, and every point is a mean of what contributes to its bin.
-/

namespace Gammaboard.Server

open Gammaboard.Lib Gammaboard.Utils

variable {K : Type} [Field K] [LinearOrder K]

/-! ## The intervals -/

def workerOf (row : Json K) : Option String := (row.get "worker_id").asStr

/-- Every report of a worker, with its role, and the report of that worker just before; `seen` is
what came before, the last first. -/
def consecutive (seen : List (Json K × Bool)) :
    List (Json K × Bool) → List (Json K × Json K × Bool)
  | [] => []
  | report :: reports =>
    ((seen.find? fun earlier => earlier.2 == report.2 && (workerOf report.1).isSome &&
        workerOf earlier.1 == workerOf report.1).map fun earlier =>
          (earlier.1, report.1, report.2)).toList ++ consecutive (report :: seen) reports

/-- An interval and its times. -/
structure Observed (K : Type) where
  interval : Interval K
  start : K
  stop : K

/-- Two reports with equal node, epoch and task, between which time in the range has passed. -/
def observedBetween (parseTime : String → Option Int) (bounds : K × K)
    (reports : Json K × Json K × Bool) : Option (Observed K) :=
  if identity reports.1 ≠ none ∧ identity reports.1 = identity reports.2.1 then
    match timestamp parseTime reports.1, timestamp parseTime reports.2.1 with
    | some start, some stop =>
      if start < stop ∧ bounds.1 < (stop : K) ∧ (start : K) < bounds.2 then
        let interval : Interval K :=
          { first := reports.1
            last := reports.2.1
            seconds := ((stop : K) - (start : K)) / (millisPerSecond : K)
            evaluator := reports.2.2 }
        some { interval, start := (start : K), stop := (stop : K) }
      else none
    | _, _ => none
  else none

def observedIn (parseTime : String → Option Int) (bounds : K × K) (reports : List (Json K × Bool)) :
    List (Observed K) :=
  (consecutive [] reports).filterMap (observedBetween parseTime bounds)

namespace Trace

def takes : Trace → Interval K → Bool
  | busy evaluator _, interval => evaluator == interval.evaluator
  | rate, interval => !interval.evaluator

def value : Trace → Interval K → Option K
  | busy _ lane, interval => interval.count.bind fun _ => interval.busyPercent lane
  | rate, interval => interval.count.map (· / interval.seconds)

def weight : Trace → Interval K → K
  | busy _ _, interval => interval.busySeconds.getD interval.seconds
  | rate, interval => interval.seconds

/-- The intervals of a trace. -/
def of (trace : Trace) (observed : List (Observed K)) : List (Observed K) :=
  observed.filter fun o => trace.takes o.interval

def contribution (trace : Trace) (group : Nat) (o : Observed K) : Contribution K :=
  { start := o.start, stop := o.stop, percent := trace.value o.interval,
    measuredSeconds := trace.weight o.interval, group }

end Trace

def Measurements.mean (measurements : Measurements K) : Trace → Mean K
  | .busy evaluator lane => measurements.busy evaluator lane
  | .rate => measurements.rate

namespace Graphs

/-- The graphs after some reports. -/
def after [FloorRing K] (parseTime : String → Option Int) (bounds : K × K)
    (reports : List (Json K × Bool)) : Graphs K :=
  reports.foldl (fun graphs report => graphs.observe parseTime report.1 report.2) (new bounds)

end Graphs

/-! ## The reports of a worker -/

theorem consecutive_append (seen reports more : List (Json K × Bool)) :
    consecutive seen (reports ++ more) =
      consecutive seen reports ++ consecutive (reports.reverse ++ seen) more := by
  induction reports generalizing seen with
  | nil => rfl
  | cons report reports ih =>
    rw [List.cons_append, consecutive, ih, consecutive, List.append_assoc, List.reverse_cons,
      List.append_assoc]
    rfl

/-- What the map of previous reports holds. -/
def lastReport (reports : List (Json K × Bool)) (evaluator : Bool) (worker : String) :
    Option (Json K) :=
  (reports.reverse.find? fun earlier =>
    earlier.2 == evaluator && workerOf earlier.1 == some worker).map (·.1)

theorem observedIn_concat (parseTime : String → Option Int) (bounds : K × K)
    (reports : List (Json K × Bool)) (report : Json K × Bool) :
    observedIn parseTime bounds (reports ++ [report]) =
      observedIn parseTime bounds reports ++
        (((workerOf report.1).bind (lastReport reports report.2)).bind fun previous =>
          observedBetween parseTime bounds (previous, report.1, report.2)).toList := by
  unfold observedIn
  rw [consecutive_append, List.filterMap_append, List.append_nil]
  congr 1
  unfold consecutive consecutive
  rw [List.append_nil]
  cases hworker : workerOf report.1 with
  | none =>
    have hnone : (reports.reverse.find? fun earlier => earlier.2 == report.2 &&
        (none : Option String).isSome && workerOf earlier.1 == none) = none :=
      List.find?_eq_none.2 fun earlier _ => by simp
    rw [hnone]
    rfl
  | some worker =>
    unfold lastReport
    have hsame : (reports.reverse.find? fun earlier => earlier.2 == report.2 &&
        (some worker).isSome && workerOf earlier.1 == some worker) =
          reports.reverse.find? fun earlier =>
            earlier.2 == report.2 && workerOf earlier.1 == some worker :=
      congrArg (List.find? · reports.reverse) (funext fun earlier => by
        rw [Option.isSome_some, Bool.and_true])
    rw [hsame, Option.bind_some]
    cases reports.reverse.find? fun earlier =>
        earlier.2 == report.2 && workerOf earlier.1 == some worker with
    | none => rfl
    | some earlier =>
      rw [Option.map_some, Option.map_some, Option.toList_some, List.filterMap_cons,
        List.filterMap_nil, Option.bind_some]
      cases observedBetween parseTime bounds (earlier.1, report.1, report.2) <;> rfl

theorem workerKey_inj {evaluator evaluator' : Bool} {worker worker' : String} :
    workerKey evaluator worker = workerKey evaluator' worker' ↔
      evaluator = evaluator' ∧ worker = worker' := by
  unfold workerKey
  rw [toLex_inj, Prod.mk.injEq]

theorem lastReport_concat (reports : List (Json K × Bool)) (report : Json K × Bool)
    (evaluator : Bool) (worker : String) :
    lastReport (reports ++ [report]) evaluator worker =
      if report.2 = evaluator ∧ workerOf report.1 = some worker then some report.1
      else lastReport reports evaluator worker := by
  unfold lastReport
  rw [List.reverse_append, List.reverse_singleton, List.singleton_append, List.find?_cons]
  by_cases h : report.2 = evaluator ∧ workerOf report.1 = some worker
  · rw [if_pos h, h.1, h.2]
    simp
  · have hfalse : (report.2 == evaluator && workerOf report.1 == some worker) = false := by
      rw [Bool.eq_false_iff]
      exact fun htrue => h (by simpa using htrue)
    rw [if_neg h, hfalse]

/-! ## One interval -/

/-- The weight of an interval in the summaries. -/
def Trace.share (trace : Trace) (bounds : K × K) (o : Observed K) : K :=
  trace.weight o.interval * (overlap (o.start, o.stop) bounds / (o.stop - o.start))

/-- One more interval in the bins and in the summary of every trace that takes it. -/
structure Takes [FloorRing K] (bounds : K × K) (o : Observed K) (group : Nat)
    (before after : Graphs K) : Prop where
  kept : after.bounds = before.bounds ∧ after.previous = before.previous
  bins : ∀ trace : Trace, after.bins trace =
    if trace.takes o.interval then addInterval bounds (before.bins trace) (trace.contribution group o)
    else before.bins trace
  mean : ∀ trace : Trace, after.measurements.mean trace =
    if trace.takes o.interval then
      (before.measurements.mean trace).add (trace.value o.interval) (trace.share bounds o)
    else before.measurements.mean trace

variable [IsStrictOrderedRing K] [FloorRing K] {parseTime : String → Option Int} {bounds : K × K}

omit [FloorRing K] in
theorem millisPerSecond_pos : (0 : K) < (millisPerSecond : K) := Nat.cast_pos.2 (by decide)

theorem observeInterval_takes (hbounds : bounds.1 < bounds.2) {graphs : Graphs K}
    (hgraphs : graphs.bounds = bounds) {previous row : Json K} {evaluator : Bool} (group : Nat)
    (hidentity : identity previous ≠ none ∧ identity previous = identity row) :
    match observedBetween parseTime bounds (previous, row, evaluator) with
    | none => graphs.observeInterval parseTime previous row evaluator group = graphs
    | some o =>
      Takes bounds o group graphs (graphs.observeInterval parseTime previous row evaluator group) := by
  unfold observedBetween Graphs.observeInterval
  rw [if_pos hidentity]
  cases timestamp parseTime previous with
  | none => rfl
  | some start =>
    cases timestamp parseTime row with
    | none => rfl
    | some stop =>
      dsimp only
      rw [hgraphs]
      by_cases hinside : start < stop ∧ bounds.1 < (stop : K) ∧ (start : K) < bounds.2
      · obtain ⟨htimes, hafter, hbefore⟩ := hinside
        have hlt : (start : K) < (stop : K) := Int.cast_lt.2 htimes
        have hmeasured : ¬ (((stop : K) - (start : K)) / (millisPerSecond : K) ≤ 0 ∨ (stop : K) ≤ bounds.1 ∨
            bounds.2 ≤ (start : K)) := by
          rintro (hseconds | hstop | hstart)
          · exact absurd (div_pos (sub_pos.2 hlt) millisPerSecond_pos) (not_lt.2 hseconds)
          · exact absurd hafter (not_lt.2 hstop)
          · exact absurd hbefore (not_lt.2 hstart)
        have hoverlap : min (stop : K) bounds.2 - max (start : K) bounds.1 =
            overlap ((start : K), (stop : K)) bounds :=
          (max_eq_right (sub_nonneg.2
            (max_lt (lt_min hlt hbefore) (lt_min hafter hbounds)).le)).symm
        rw [if_neg hmeasured, if_pos ⟨htimes, hafter, hbefore⟩, hoverlap]
        refine ⟨⟨hgraphs.symm, rfl⟩, fun trace => ?_, fun trace => ?_⟩
        · cases evaluator <;> rcases trace with ⟨_ | _, _ | _⟩ | _ <;> rfl
        · cases evaluator <;> rcases trace with ⟨_ | _, _ | _⟩ | _ <;> rfl
      · have hskipped : ((stop : K) - (start : K)) / (millisPerSecond : K) ≤ 0 ∨ (stop : K) ≤ bounds.1 ∨
            bounds.2 ≤ (start : K) := by
          by_contra hmeasured
          obtain ⟨hseconds, hrest⟩ := not_or.1 hmeasured
          obtain ⟨hafter, hbefore⟩ := not_or.1 hrest
          refine hinside ⟨?_, not_le.1 hafter, not_le.1 hbefore⟩
          by_contra hle
          have hle' : (stop : K) ≤ (start : K) := Int.cast_le.2 (not_lt.1 hle)
          exact hseconds (div_nonpos_of_nonpos_of_nonneg (sub_nonpos.2 hle') millisPerSecond_pos.le)
        rw [if_pos hskipped, if_neg hinside]

/-! ## A run -/

/-- The contributions of a trace are its intervals, each in some group. -/
def Contributes (trace : Trace) : List (Observed K) → List (Contribution K) → Prop :=
  List.Forall₂ fun o contribution => ∃ group, contribution = trace.contribution group o

/-- The summary of a trace after some intervals. -/
def summary (trace : Trace) (bounds : K × K) (observed : List (Observed K)) : Mean K :=
  observed.foldl (fun mean o => mean.add (trace.value o.interval) (trace.share bounds o)) .new

/-- The bins and the summaries are those of the intervals observed. -/
structure Holds (bounds : K × K) (observed : List (Observed K)) (graphs : Graphs K) : Prop where
  range : graphs.bounds = bounds
  bins : ∀ trace : Trace, ∃ contributions, Contributes trace (trace.of observed) contributions ∧
    graphs.bins trace =
      contributions.foldl (addInterval bounds) (List.replicate displayBins .new)
  mean : ∀ trace : Trace,
    graphs.measurements.mean trace = summary trace bounds (trace.of observed)

omit [IsStrictOrderedRing K] [FloorRing K] in
theorem Trace.of_concat (trace : Trace) (observed : List (Observed K)) (o : Observed K) :
    trace.of (observed ++ [o]) =
      trace.of observed ++ if trace.takes o.interval then [o] else [] := by
  unfold Trace.of
  rw [List.filter_append, List.filter_singleton]
  cases trace.takes o.interval <;> rfl

omit [IsStrictOrderedRing K] in
theorem Holds.takes {observed : List (Observed K)} {graphs after : Graphs K}
    (h : Holds bounds observed graphs) {o : Observed K} {group : Nat}
    (htakes : Takes bounds o group graphs after) : Holds bounds (observed ++ [o]) after := by
  refine ⟨htakes.kept.1.trans h.range, fun trace => ?_, fun trace => ?_⟩
  · obtain ⟨contributions, hcontributes, hbins⟩ := h.bins trace
    rw [htakes.bins trace, hbins, Trace.of_concat]
    cases trace.takes o.interval with
    | true =>
      refine ⟨contributions ++ [trace.contribution group o],
        List.rel_append hcontributes (.cons ⟨group, rfl⟩ .nil), ?_⟩
      rw [List.foldl_append]
      rfl
    | false =>
      rw [if_neg Bool.false_ne_true, if_neg Bool.false_ne_true, List.append_nil]
      exact ⟨contributions, hcontributes, rfl⟩
  · rw [htakes.mean trace, h.mean trace, Trace.of_concat]
    unfold summary
    rw [List.foldl_append]
    cases trace.takes o.interval with
    | true => rfl
    | false => rfl

structure Follows (parseTime : String → Option Int) (bounds : K × K)
    (reports : List (Json K × Bool)) (graphs : Graphs K) : Prop where
  holds : Holds bounds (observedIn parseTime bounds reports) graphs
  previous : ∀ evaluator worker,
    OrdMap.get (workerKey evaluator worker) graphs.previous = lastReport reports evaluator worker

/-- What an interval adds to the graphs, given the two reports. -/
theorem Holds.observeInterval (parseTime : String → Option Int) (hbounds : bounds.1 < bounds.2)
    {observed : List (Observed K)} {graphs : Graphs K} (h : Holds bounds observed graphs)
    {previous row : Json K} (evaluator : Bool) (group : Nat) (hidentity : identity previous ≠ none ∧ identity previous = identity row) :
    Holds bounds
        (observed ++ (observedBetween parseTime bounds (previous, row, evaluator)).toList)
        (graphs.observeInterval parseTime previous row evaluator group) ∧
      (graphs.observeInterval parseTime previous row evaluator group).previous =
        graphs.previous := by
  have htakes := @observeInterval_takes K _ _ _ _ parseTime bounds hbounds graphs h.range previous row
    evaluator group hidentity
  cases hbetween : observedBetween parseTime bounds (previous, row, evaluator) with
  | none =>
    rw [hbetween] at htakes
    dsimp only at htakes
    rw [htakes, Option.toList_none, List.append_nil]
    exact ⟨h, rfl⟩
  | some o =>
    rw [hbetween] at htakes
    exact ⟨h.takes htakes, htakes.kept.2⟩

theorem Follows.observe (hbounds : bounds.1 < bounds.2) {reports : List (Json K × Bool)}
    {graphs : Graphs K} (h : Follows parseTime bounds reports graphs) (report : Json K × Bool) :
    Follows parseTime bounds (reports ++ [report])
      (graphs.observe parseTime report.1 report.2) := by
  unfold Graphs.observe
  cases hworker : (report.1.get "worker_id").asStr with
  | none =>
    have hnone : workerOf report.1 = none := hworker
    refine ⟨?_, fun evaluator worker => ?_⟩
    · rw [observedIn_concat, hnone, Option.bind_none, Option.bind_none, Option.toList_none,
        List.append_nil]
      exact h.holds
    · rw [lastReport_concat, hnone, if_neg (fun hsame => by cases hsame.2)]
      exact h.previous evaluator worker
  | some worker =>
    have hsome : workerOf report.1 = some worker := hworker
    have hprevious (evaluator : Bool) (worker' : String) :
        OrdMap.get (workerKey evaluator worker')
          (OrdMap.insert (workerKey report.2 worker) report.1 graphs.previous) =
            lastReport (reports ++ [report]) evaluator worker' := by
      rw [OrdMap.get_insert, lastReport_concat, hsome, h.previous]
      simp only [workerKey_inj, Option.some.injEq]
    have hbefore := h.previous report.2 worker
    dsimp only
    rw [hbefore]
    cases hlast : lastReport reports report.2 worker with
    | none =>
      refine ⟨?_, hprevious⟩
      rw [observedIn_concat, hsome, Option.bind_some, hlast, Option.bind_none, Option.toList_none,
        List.append_nil]
      exact ⟨h.holds.range, h.holds.bins, h.holds.mean⟩
    | some previous =>
      have hconcat : observedIn parseTime bounds (reports ++ [report]) =
          observedIn parseTime bounds reports ++
            (observedBetween parseTime bounds (previous, report.1, report.2)).toList := by
        rw [observedIn_concat, hsome, Option.bind_some, hlast, Option.bind_some]
      dsimp only
      by_cases hskip : identity previous = none ∨ identity previous ≠ identity report.1
      · rw [if_pos hskip]
        refine ⟨?_, hprevious⟩
        rw [hconcat, observedBetween, if_neg (fun hsame => hskip.elim hsame.1 (absurd hsame.2)),
          Option.toList_none, List.append_nil]
        exact ⟨h.holds.range, h.holds.bins, h.holds.mean⟩
      · have hidentity : identity previous ≠ none ∧ identity previous = identity report.1 :=
          ⟨fun hnone => hskip (.inl hnone), by_contra fun hne => hskip (.inr hne)⟩
        rw [if_neg hskip]
        cases OrdMap.get (workerKey report.2 worker) graphs.groups with
        | some group =>
          have hkept : Holds bounds (observedIn parseTime bounds reports)
              { graphs with previous :=
                  OrdMap.insert (workerKey report.2 worker) report.1 graphs.previous } :=
            ⟨h.holds.range, h.holds.bins, h.holds.mean⟩
          obtain ⟨hholds, hsame⟩ := hkept.observeInterval parseTime hbounds report.2 group hidentity
          exact ⟨hconcat ▸ hholds, fun evaluator worker' => by
            dsimp only
            rw [hsame]
            exact hprevious evaluator worker'⟩
        | none =>
          have hkept : Holds bounds (observedIn parseTime bounds reports)
              { graphs with
                previous := OrdMap.insert (workerKey report.2 worker) report.1 graphs.previous
                nextGroup := graphs.nextGroup + 1
                groups := OrdMap.insert (workerKey report.2 worker) (graphs.nextGroup + 1)
                  graphs.groups } :=
            ⟨h.holds.range, h.holds.bins, h.holds.mean⟩
          obtain ⟨hholds, hsame⟩ := hkept.observeInterval parseTime hbounds report.2
            (graphs.nextGroup + 1) hidentity
          exact ⟨hconcat ▸ hholds, fun evaluator worker' => by
            dsimp only
            rw [hsame]
            exact hprevious evaluator worker'⟩

theorem after_follows (parseTime : String → Option Int) (hbounds : bounds.1 < bounds.2) (reports : List (Json K × Bool)) :
    Follows parseTime bounds reports (Graphs.after parseTime bounds reports) := by
  induction reports using List.reverseRecOn with
  | nil =>
    refine ⟨⟨rfl, fun trace => ⟨[], .nil, rfl⟩, fun trace => ?_⟩, fun evaluator worker => rfl⟩
    cases trace <;> rfl
  | append_singleton reports report ih =>
    unfold Graphs.after at ih ⊢
    rw [List.foldl_append]
    exact ih.observe hbounds report

/-! ## Main result -/

/-- What an interval weighs in the bins and in the summary of a trace. -/
def Trace.weightIn (trace : Trace) (bin : K × K) (o : Observed K) : K :=
  (trace.contribution 0 o).weightIn bin

/-- The bins of a trace hold together what its summary holds, which is that of the intervals
between consecutive reports of one worker; the ranges of a bin are the components of what was
observed of it, in whatever order; and every point lies between values that contribute to its
bin. -/
structure Agrees (bounds : K × K) (observed : List (Observed K)) (graphs : Graphs K)
    (trace : Trace) : Prop where
  weighted : ((graphs.bins trace).map (·.weighted)).sum = (graphs.measurements.mean trace).total
  seconds : ((graphs.bins trace).map (·.seconds)).sum = (graphs.measurements.mean trace).weight
  total : (graphs.measurements.mean trace).total = ((trace.of observed).map fun o =>
    ((trace.value o.interval).getD 0) * trace.weightIn bounds o).sum
  weight : (graphs.measurements.mean trace).weight =
    ((trace.of observed).map (trace.weightIn bounds)).sum
  ranges : ∀ index bin, (graphs.bins trace)[index]? = some bin →
    Components 1 {x | ∃ o ∈ trace.of observed,
      0 < overlap (o.start, o.stop) (binAt bounds.1 (binWidth bounds displayBins) index) ∧
        max o.start (binAt bounds.1 (binWidth bounds displayBins) index).1 ≤ x ∧
          x ≤ min o.stop (binAt bounds.1 (binWidth bounds displayBins) index).2} bin.ranges
  anyOrder : ∀ contributions : List (Contribution K),
    (contributions.map fun c => (c.start, c.stop)).Perm
      ((trace.of observed).map fun o => (o.start, o.stop)) →
    (contributions.foldl (addInterval bounds) (List.replicate displayBins .new)).map (·.ranges) =
      (graphs.bins trace).map (·.ranges)
  plotted : ∀ point ∈ finish (graphs.bins trace), ∃ index bin,
    (graphs.bins trace)[index]? = some bin ∧ (bin.start = some point.x ∨ bin.stop = point.x) ∧
      (∃ o ∈ trace.of observed, ∃ value, trace.value o.interval = some value ∧ value ≤ point.y ∧
        0 < overlap (o.start, o.stop) (binAt bounds.1 (binWidth bounds displayBins) index)) ∧
      ∃ o ∈ trace.of observed, ∃ value, trace.value o.interval = some value ∧ point.y ≤ value ∧
        0 < overlap (o.start, o.stop) (binAt bounds.1 (binWidth bounds displayBins) index)

omit [IsStrictOrderedRing K] [FloorRing K] in
theorem summary_eq (trace : Trace) (bounds : K × K) (observed : List (Observed K)) :
    (summary trace bounds observed).total = (observed.map fun o =>
        ((trace.value o.interval).getD 0) * trace.weightIn bounds o).sum ∧
      (summary trace bounds observed).weight = (observed.map (trace.weightIn bounds)).sum := by
  induction observed using List.reverseRecOn with
  | nil => exact ⟨rfl, rfl⟩
  | append_singleton observed o ih =>
    have hsummary : summary trace bounds (observed ++ [o]) =
        (summary trace bounds observed).add (trace.value o.interval) (trace.share bounds o) := by
      unfold summary
      rw [List.foldl_append]
      rfl
    rw [hsummary, List.map_append, List.map_append, List.sum_append, List.sum_append, ← ih.1, ← ih.2,
      List.map_singleton, List.map_singleton, List.sum_singleton, List.sum_singleton]
    unfold Trace.weightIn Contribution.weightIn Trace.contribution Trace.share Mean.add
    cases trace.value o.interval with
    | none =>
      rw [Option.isSome_none, if_neg Bool.false_ne_true, mul_zero, add_zero, add_zero]
      exact ⟨rfl, rfl⟩
    | some value =>
      rw [Option.isSome_some, if_pos rfl, mul_div_assoc]
      exact ⟨rfl, rfl⟩

omit [FloorRing K] in
theorem pos_of_observedIn {reports : List (Json K × Bool)} {o : Observed K}
    (h : o ∈ observedIn parseTime bounds reports) :
    o.start < o.stop ∧ 0 < o.interval.seconds := by
  obtain ⟨pair, -, hpair⟩ := List.mem_filterMap.1 h
  unfold observedBetween at hpair
  split_ifs at hpair with hidentity
  cases hstart : timestamp parseTime pair.1 with
  | none =>
    rw [hstart] at hpair
    cases hpair
  | some start =>
    cases hstop : timestamp parseTime pair.2.1 with
    | none =>
      rw [hstart, hstop] at hpair
      cases hpair
    | some stop =>
      rw [hstart, hstop] at hpair
      dsimp only at hpair
      split_ifs at hpair with hinside
      cases hpair
      have hlt : (start : K) < (stop : K) := Int.cast_lt.2 hinside.1
      exact ⟨hlt, div_pos (sub_pos.2 hlt) millisPerSecond_pos⟩

omit [IsStrictOrderedRing K] [FloorRing K] in
theorem Trace.weight_nonneg (trace : Trace) {interval : Interval K} (h : 0 < interval.seconds) :
    0 ≤ trace.weight interval := by
  cases trace with
  | rate => exact h.le
  | busy evaluator lane =>
    show 0 ≤ interval.busySeconds.getD interval.seconds
    unfold Interval.busySeconds
    cases interval.delta ["busy", "elapsed_seconds"] with
    | none => exact h.le
    | some seconds =>
      rw [Option.filter_some]
      split_ifs with hpos
      · exact (of_decide_eq_true hpos).le
      · exact h.le

omit [IsStrictOrderedRing K] [FloorRing K] in
/-- What does not depend on the groups is the same for the contributions and the intervals. -/
theorem Contributes.map_eq {trace : Trace} {observed : List (Observed K)}
    {contributions : List (Contribution K)} (h : Contributes trace observed contributions)
    {β : Type} {f : Contribution K → β} {g : Observed K → β}
    (hf : ∀ group o, f (trace.contribution group o) = g o) :
    contributions.map f = observed.map g := by
  induction h with
  | nil => rfl
  | cons hhead _ ih =>
    obtain ⟨group, rfl⟩ := hhead
    rw [List.map_cons, List.map_cons, ih, hf]

omit [IsStrictOrderedRing K] [FloorRing K] in
theorem Contributes.of_mem {trace : Trace} {observed : List (Observed K)}
    {contributions : List (Contribution K)} (h : Contributes trace observed contributions)
    {contribution : Contribution K} (hmem : contribution ∈ contributions) :
    ∃ o ∈ observed, ∃ group, contribution = trace.contribution group o := by
  induction h with
  | nil => exact absurd hmem List.not_mem_nil
  | cons hhead _ ih =>
    rcases List.mem_cons.1 hmem with rfl | hmem
    · exact ⟨_, List.mem_cons_self, hhead⟩
    · obtain ⟨o, ho, hgroup⟩ := ih hmem
      exact ⟨o, List.mem_cons_of_mem _ ho, hgroup⟩

omit [FloorRing K] in
/-- The ranges of a bin are the components of the parts of the times in it. -/
theorem components_binOf (bin : K × K) (contributions : List (Contribution K))
    {times : List (K × K)} (htimes : (contributions.map fun c => (c.start, c.stop)).Perm times) :
    Components 1 {x | ∃ time ∈ times, 0 < overlap time bin ∧ max time.1 bin.1 ≤ x ∧
      x ≤ min time.2 bin.2} (binOf bin contributions).ranges := by
  have hordered : ∀ part ∈ partsIn bin contributions, part.1 ≤ part.2 := fun part hpart =>
    (of_decide_eq_true (List.mem_filter.1 hpart).2 : part.1 < part.2).le
  have hpoints : {x | ∃ time ∈ times, 0 < overlap time bin ∧ max time.1 bin.1 ≤ x ∧
      x ≤ min time.2 bin.2} = {x | ∃ part ∈ partsIn bin contributions, part.1 ≤ x ∧ x ≤ part.2} := by
    ext x
    constructor
    · rintro ⟨time, htime, hoverlap, hx⟩
      obtain ⟨c, hc, rfl⟩ := List.mem_map.1 (htimes.mem_iff.2 htime)
      refine ⟨c.clip bin, List.mem_filter.2 ⟨List.mem_map_of_mem hc, decide_eq_true ?_⟩, hx⟩
      exact sub_pos.1 ((lt_max_iff.1 hoverlap).resolve_left (lt_irrefl 0))
    · rintro ⟨part, hpart, hx⟩
      obtain ⟨hpart, hlt⟩ := List.mem_filter.1 hpart
      obtain ⟨c, hc, rfl⟩ := List.mem_map.1 hpart
      exact ⟨(c.start, c.stop), htimes.mem_iff.1 (List.mem_map_of_mem hc),
        lt_max_of_lt_right (sub_pos.2 (of_decide_eq_true hlt)), hx⟩
  rw [ranges_binOf, hpoints]
  exact components_insertAll zero_le_one hordered

/-- Graphs and summaries agree after any reports, in any range. -/
theorem graphs_agree (parseTime : String → Option Int) (bounds : K × K)
    (hbounds : bounds.1 < bounds.2) (reports : List (Json K × Bool)) (trace : Trace) :
    Agrees bounds (observedIn parseTime bounds reports) (Graphs.after parseTime bounds reports)
      trace := by
  have h := (after_follows parseTime hbounds reports).holds
  obtain ⟨contributions, hcontributes, hbins⟩ := h.bins trace
  obtain ⟨htotal, hweight⟩ := summary_eq trace bounds (trace.of (observedIn parseTime bounds reports))
  have hpos : ∀ c ∈ contributions, 0 ≤ c.measuredSeconds ∧ c.start ≤ c.stop := fun c hc => by
    obtain ⟨o, ho, group, rfl⟩ := hcontributes.of_mem hc
    obtain ⟨hlt, hseconds⟩ := pos_of_observedIn (List.mem_filter.1 ho).1
    exact ⟨trace.weight_nonneg hseconds, hlt.le⟩
  have hsums := sum_bins hbounds (n := displayBins) (by decide) fun c hc => (hpos c hc).2
  have hvalues : (contributions.map fun c => c.value * c.weightIn bounds) =
      (trace.of (observedIn parseTime bounds reports)).map fun o =>
        ((trace.value o.interval).getD 0) * trace.weightIn bounds o :=
    hcontributes.map_eq fun _ _ => rfl
  have hweights : contributions.map (·.weightIn bounds) =
      (trace.of (observedIn parseTime bounds reports)).map (trace.weightIn bounds) :=
    hcontributes.map_eq fun _ _ => rfl
  have htimes : (contributions.map fun c => (c.start, c.stop)) =
      (trace.of (observedIn parseTime bounds reports)).map fun o => (o.start, o.stop) :=
    hcontributes.map_eq fun _ _ => rfl
  have hbin {index : Nat} {bin : Bin K}
      (hindex : ((Graphs.after parseTime bounds reports).bins trace)[index]? = some bin) :
      bin = binOf (binAt bounds.1 (binWidth bounds displayBins) index) contributions := by
    rw [hbins, foldl_addInterval hbounds, List.getElem?_map] at hindex
    obtain ⟨i, hi, rfl⟩ := Option.map_eq_some_iff.1 hindex
    obtain ⟨-, rfl⟩ := List.getElem?_eq_some_iff.1 hi
    rw [List.getElem_range]
  rw [← h.mean trace] at htotal hweight
  exact
    { weighted := by rw [htotal, hbins, hsums.1, hvalues]
      seconds := by rw [hweight, hbins, hsums.2, hweights]
      total := htotal
      weight := hweight
      ranges := fun index bin hindex => by
        have hcomponents := components_binOf
          (binAt bounds.1 (binWidth bounds displayBins) index) contributions (.of_eq htimes)
        rw [← hbin hindex] at hcomponents
        refine hcomponents.congr (Set.ext fun x => ?_)
        constructor
        · rintro ⟨time, htime, hx⟩
          obtain ⟨o, ho, rfl⟩ := List.mem_map.1 htime
          exact ⟨o, ho, hx⟩
        · rintro ⟨o, ho, hx⟩
          exact ⟨(o.start, o.stop), List.mem_map_of_mem ho, hx⟩
      anyOrder := fun reordered hperm => by
        rw [hbins, foldl_addInterval hbounds, foldl_addInterval hbounds, List.map_map, List.map_map]
        refine List.map_congr_left fun index _ => ?_
        exact components_unique zero_le_one (components_binOf _ reordered hperm)
          (components_binOf _ contributions (.of_eq htimes))
      plotted := fun point hpoint => by
        obtain ⟨bin, hmem, hplotted, hy, hx⟩ := of_mem_finish hpoint
        obtain ⟨index, hindex⟩ := List.mem_iff_getElem?.1 hmem
        have hsame := hbin hindex
        rw [hsame] at hplotted
        obtain ⟨⟨low, hlow, hlowPos, hle⟩, high, hhigh, hhighPos, hge⟩ := binOf_between hpos hplotted
        obtain ⟨hlowValue, hlowIn⟩ := of_weightIn_pos hlowPos
        obtain ⟨hhighValue, hhighIn⟩ := of_weightIn_pos hhighPos
        obtain ⟨lowest, hlowest, _, rfl⟩ := hcontributes.of_mem hlow
        obtain ⟨highest, hhighest, _, rfl⟩ := hcontributes.of_mem hhigh
        rw [← hsame, ← hy] at hle hge
        exact ⟨index, bin, hindex, hx, ⟨lowest, hlowest, _, hlowValue, hle, hlowIn⟩,
          highest, hhighest, _, hhighValue, hge, hhighIn⟩ }

/-- A report of an evaluator, at a time and with its counters. -/
def evaluatorReport (time : String) (elapsed compute : ℚ) (epoch : String) : Json ℚ :=
  .object [("created_at", .string time),
    ("metrics", .object
      [("busy", .object
        [("compute_seconds", .number (.float compute)),
          ("elapsed_seconds", .number (.float elapsed)), ("io_seconds", .number (.float 0))]),
        ("epoch", .string epoch), ("node_uuid", .string "node"),
        ("samples_evaluated", .number (.float elapsed)), ("task_id", .string "task")]),
    ("worker_id", .string "worker")]

/-- The times of the reports below. -/
def reportTime (time : String) : Option Int :=
  [("1970-01-01T00:00:00Z", 0), ("1970-01-01T00:00:01Z", 1000),
    ("1970-01-01T00:00:02Z", 2000)].lookup time

/-- A worker that is busy for four fifths of a second and then starts anew. -/
def restartedReports : List (Json ℚ × Bool) :=
  [(evaluatorReport "1970-01-01T00:00:00Z" 0 0 "one", true),
    (evaluatorReport "1970-01-01T00:00:01Z" 1 (4 / 5) "one", true),
    (evaluatorReport "1970-01-01T00:00:02Z" 2 1 "two", true)]

theorem graphs_agree_restarted :
    ((Graphs.after reportTime ((0 : ℚ), 2000) restartedReports).measurements.mean
        (.busy true .compute)).total = 80 ∧
      Agrees ((0 : ℚ), 2000) (observedIn reportTime (0, 2000) restartedReports)
        (Graphs.after reportTime (0, 2000) restartedReports) (.busy true .compute) :=
  ⟨by decide +kernel, graphs_agree reportTime (0, 2000) (by norm_num) restartedReports
    (.busy true .compute)⟩

end Gammaboard.Server
