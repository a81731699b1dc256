import Gammaboard.Lib.OrdMap
import Gammaboard.Utils.Json
import Mathlib.Algebra.Order.Field.Basic
import Mathlib.Algebra.Order.Ring.Int
import Mathlib.Data.Prod.Lex
import Mathlib.Data.String.Basic

/-!
# Interval summaries

What is measured between two reports of a worker are differences of its
counters. The summaries add up these differences, each with the part of its
interval that lies in the selected range. Numbers are exact.
-/

namespace Gammaboard.Server

open Gammaboard.Lib Gammaboard.Utils

variable {K : Type} [Field K] [LinearOrder K]

/-! ## Reports -/

def finite (value : Json K) : Option K := value.asF64.filter fun v => decide (0 ≤ v)

def data (row : Json K) : Json K := row.get "metrics"

def epoch (row : Json K) : Option String := ((data row).get "epoch").asStr

/-- The worker, its node, its epoch and its task. -/
def identity (row : Json K) : Option (String × String × String × String) := do
  let metrics := data row
  let worker ← (row.get "worker_id").asStr
  let node ← (metrics.get "node_uuid").asStr
  let epoch ← epoch row
  let task ← (metrics.get "task_id").asStr
  return (worker, node, epoch, task)

/-- The instant of a report in milliseconds; the parser of date-times is that of its crate. -/
def timestamp (parseTime : String → Option Int) (row : Json K) : Option Int := do
  parseTime (← (row.get "created_at").asStr)

def millisPerSecond : Nat := 1000

structure Interval (K : Type) where
  first : Json K
  last : Json K
  seconds : K
  evaluator : Bool

/-- What a worker is busy with. -/
inductive BusyLane where
  | compute
  | io
deriving DecidableEq, Repr

/-- The counter of a lane, below `busy`. -/
def BusyLane.secondsKey : BusyLane → String
  | .compute => "compute_seconds"
  | .io => "io_seconds"

namespace Interval

variable (interval : Interval K)

/-- Both counters of a lane come from one clock, up to rounding. -/
def tolerance : K := 1 / ((10 ^ 9 : Nat) : K)

/-- The difference of a counter; integers are subtracted as such. -/
def delta (path : List String) : Option K := do
  let first ← (data interval.first).pointer path
  let last ← (data interval.last).pointer path
  match first.asI64, last.asI64 with
  | some a, some b => if 0 ≤ b - a ∧ b - a < 2 ^ 63 then some ((b - a : Int) : K) else none
  | _, _ =>
    let a ← finite first
    let b ← finite last
    if a ≤ b then some (b - a) else none

def busySeconds : Option K :=
  (interval.delta ["busy", "elapsed_seconds"]).filter fun seconds => decide (0 < seconds)

def busyPercent (lane : BusyLane) : Option K := do
  let seconds ← interval.busySeconds
  let busy ← interval.delta ["busy", lane.secondsKey]
  if busy ≤ seconds + tolerance then some (100 * min (busy / seconds) 1) else none

/-- The counter of the samples of a role. -/
def count : Option K :=
  interval.delta [if interval.evaluator then "samples_evaluated" else "completed_samples_total"]

end Interval

/-! ## Summaries -/

structure Mean (K : Type) where
  total : K
  weight : K
  invalid : Bool

def Mean.new : Mean K := { total := 0, weight := 0, invalid := false }

def Mean.add (mean : Mean K) (value : Option K) (weight : K) : Mean K :=
  match value with
  | some value => { mean with total := mean.total + value * weight, weight := mean.weight + weight }
  | none => { mean with invalid := true }

def Mean.value (mean : Mean K) : Option K :=
  if !mean.invalid ∧ 0 < mean.weight then some (mean.total / mean.weight) else none

structure Worker (K : Type) where
  busy : BusyLane → Mean K
  seconds : K
  samples : K
  costs : List (Option K)
  invalid : Bool

def costKeys : List String :=
  ["evaluate_seconds", "materialize_seconds", "fetch_wait_seconds", "submit_seconds",
    "submit_wait_seconds"]

def Worker.new : Worker K :=
  { busy := fun _ => .new, seconds := 0, samples := 0, costs := costKeys.map fun _ => some 0,
    invalid := false }

/-- The paths of `SAMPLER_TIMINGS`. -/
def samplerTimings : List (List String) :=
  (["eval_ms_per_batch", "eval_ms_per_sample", "produce_ms_per_sample",
    "training_ingest_ms_per_sample", "completed_training_ingest_ms", "completed_merge_ingest_ms",
    "persist_accumulator_ms", "completed_delete_ms", "reclaim_ms"].map fun key => ["sampler", key]) ++
  (["fetch_completed_ms", "insert_bundle_ms", "insert_bundle_ms_per_batch",
    "insert_bundle_serialize_ms", "insert_bundle_db_batches_ms", "insert_bundle_db_inputs_ms",
    "insert_bundle_commit_ms"].map fun key => ["queue", "rolling", key])

abbrev WorkerKey := Bool ×ₗ String

def workerKey (evaluator : Bool) (worker : String) : WorkerKey := toLex (evaluator, worker)

structure Measurements (K : Type) where
  /-- By whether the role is that of an evaluator, and by lane. -/
  busy : Bool → BusyLane → Mean K
  rate : Mean K
  workers : OrdMap WorkerKey (Worker K)
  /-- The timings of a path that has none are zero. -/
  timings : List String → Nat × K

namespace Measurements

def new : Measurements K :=
  { busy := fun _ _ => .new, rate := .new, workers := [], timings := fun _ => (0, 0) }

def u64Max : Nat := 2 ^ 64 - 1

/-- One timing of a report, where it has both numbers. -/
def addTiming (last : Json K) (timings : List String → Nat × K) (path : List String) :
    List String → Nat × K :=
  let metric := ((data last).pointer path).getD .null
  match (metric.get "count").asU64, finite (metric.get "total") with
  | some n, some total =>
    Function.update timings path
      (min ((timings path).1 + n) u64Max, (timings path).2 + total)
  | _, _ => timings

/-- The report names its worker: only such intervals are observed. -/
def observe (measurements : Measurements K) (interval : Interval K) (fraction : K) (whole : Bool) :
    Measurements K :=
  let key := workerKey interval.evaluator (((interval.last.get "worker_id").asStr).getD "")
  let entry := (OrdMap.get key measurements.workers).getD .new
  let count := interval.count
  let seconds := interval.seconds * fraction
  let value (lane : BusyLane) := count.bind fun _ => interval.busyPercent lane
  let weight := interval.busySeconds.getD interval.seconds * fraction
  let costs :=
    if interval.evaluator then
      List.zipWith (fun cost key => (cost.bind fun total =>
        (interval.delta ["cumulative", key]).map fun delta => total + delta * fraction))
        entry.costs costKeys
    else entry.costs
  let entry : Worker K :=
    { busy := fun lane => (entry.busy lane).add (value lane) weight
      seconds := entry.seconds + seconds
      samples := entry.samples + count.getD 0 * fraction
      costs
      invalid := entry.invalid || count.isNone }
  { busy := fun evaluator lane =>
      if evaluator = interval.evaluator then (measurements.busy evaluator lane).add (value lane) weight
      else measurements.busy evaluator lane
    rate :=
      if interval.evaluator then measurements.rate
      else measurements.rate.add (count.map (· / interval.seconds)) seconds
    workers := OrdMap.insert key entry measurements.workers
    timings :=
      -- only complete reporting intervals: these observations are reset when they are published
      if !interval.evaluator ∧ whole ∧ count.isSome then
        samplerTimings.foldl (addTiming interval.last) measurements.timings
      else measurements.timings }

end Measurements

end Gammaboard.Server
