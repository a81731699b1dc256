import Gammaboard.Lib.EqualBins
import Gammaboard.Lib.GapUnion
import Gammaboard.Server.Measurements
import Mathlib.Data.Finset.Insert

/-!
# Performance graphs

Activity traces, averaged over reporting worker-time in display bins of equal
width. Every interval between two reports of one worker is cut at the bounds of
the bins and weighted by the measured seconds; each bin keeps the union of what
was observed of it. Times are milliseconds.
-/

namespace Gammaboard.Server

open Gammaboard.Lib Gammaboard.Utils

variable {K : Type} [Field K] [LinearOrder K]

structure Bin (K : Type) where
  weighted : K
  seconds : K
  invalid : Bool
  identities : Finset Nat
  ranges : List (K × K)
  start : Option K
  stop : K

def Bin.new : Bin K :=
  { weighted := 0, seconds := 0, invalid := false, identities := ∅, ranges := [], start := none,
    stop := 0 }

/-- The arguments of `add_interval` besides the bins and their bounds. -/
structure Contribution (K : Type) where
  start : K
  stop : K
  percent : Option K
  measuredSeconds : K
  group : Nat

/-- The part of a contribution in a bin. -/
def Contribution.clip (contribution : Contribution K) (bin : K × K) : K × K :=
  (max contribution.start bin.1, min contribution.stop bin.2)

/-- The loop body of `add_interval`. -/
def addToBin (contribution : Contribution K) (bounds : K × K) (bin : Bin K) : Bin K :=
  let part := contribution.clip bounds
  if part.2 ≤ part.1 then bin
  else
    let bin :=
      { bin with
        identities := insert contribution.group bin.identities
        ranges := insertRange 1 bin.ranges part
        start := some ((bin.start.map (min · part.1)).getD part.1)
        stop := max bin.stop part.2 }
    match contribution.percent with
    | some value =>
      let weight := contribution.measuredSeconds * (part.2 - part.1) /
        (contribution.stop - contribution.start)
      { bin with weighted := bin.weighted + value * weight, seconds := bin.seconds + weight }
    | none => { bin with invalid := true }

/-- The width of one of so many bins. -/
def binWidth (bounds : K × K) (bins : Nat) : K := (bounds.2 - bounds.1) / (bins : K)

def addInterval [FloorRing K] (bounds : K × K) (bins : List (Bin K))
    (contribution : Contribution K) : List (Bin K) :=
  let width := binWidth bounds bins.length
  let first := min ⌊(contribution.start - bounds.1) / width⌋.toNat bins.length
  let last := min ⌈(contribution.stop - bounds.1) / width⌉.toNat bins.length
  bins.mapIdx fun index bin =>
    if first ≤ index ∧ index < last then addToBin contribution (binAt bounds.1 width index) bin
    else bin

/-! ## Points -/

structure PlotPoint (K : Type) where
  x : K
  y : K
  breakBefore : Option Bool

/-- The points so far, and the identities of the bin before, where it was plotted. -/
structure Plot (K : Type) where
  points : List (PlotPoint K)
  previous : Finset Nat

/-- Whether a bin is one range of measured time. -/
def Bin.plotted (bin : Bin K) : Bool :=
  !(bin.invalid || bin.ranges.length != 1 || decide (bin.seconds ≤ 0))

/-- The loop body of `finish`. -/
def plotBin (plot : Plot K) (bin : Bin K) : Plot K :=
  if !bin.plotted then { plot with previous := ∅ }
  else
    match bin.start with
    | none => plot
    | some start =>
      let gap := plot.previous ≠ bin.identities ∨
        (plot.points.getLast?.all fun last => decide (1 < start - last.x)) = true
      let value := bin.weighted / bin.seconds
      { points := plot.points ++
          [{ x := start, y := value, breakBefore := if gap then some true else none },
            { x := bin.stop, y := value, breakBefore := none }]
        previous := bin.identities }

def finish (bins : List (Bin K)) : List (PlotPoint K) := (bins.foldl plotBin ⟨[], ∅⟩).points

/-! ## Reports -/

def displayBins : Nat := 600

inductive Trace where
  | busy (evaluator : Bool) (lane : BusyLane)
  | rate
deriving DecidableEq, Repr

structure Cadence (K : Type) where
  intervals : Nat
  totalSeconds : K

structure Graphs (K : Type) where
  bounds : K × K
  bins : Trace → List (Bin K)
  previous : OrdMap WorkerKey (Json K)
  groups : OrdMap WorkerKey Nat
  nextGroup : Nat
  cadence : Bool → Cadence K
  measurements : Measurements K

namespace Graphs

def new (bounds : K × K) : Graphs K :=
  { bounds
    bins := fun _ => List.replicate displayBins .new
    previous := []
    groups := []
    nextGroup := 0
    cadence := fun _ => ⟨0, 0⟩
    measurements := .new }

variable [FloorRing K] (parseTime : String → Option Int)

def observeInterval (graphs : Graphs K) (previous row : Json K) (evaluator : Bool) (group : Nat) :
    Graphs K :=
  match timestamp parseTime previous, timestamp parseTime row with
  | some fromTime, some toTime =>
    let start : K := (fromTime : K)
    let stop : K := (toTime : K)
    let seconds := (stop - start) / (millisPerSecond : K)
    if seconds ≤ 0 ∨ stop ≤ graphs.bounds.1 ∨ graphs.bounds.2 ≤ start then graphs
    else
      let interval : Interval K := { first := previous, last := row, seconds, evaluator }
      let overlap := min stop graphs.bounds.2 - max start graphs.bounds.1
      let measurements := graphs.measurements.observe interval (overlap / (stop - start))
        (decide (graphs.bounds.1 ≤ start ∧ stop ≤ graphs.bounds.2))
      let count := interval.count
      let cadence := Function.update graphs.cadence evaluator
        ⟨(graphs.cadence evaluator).intervals + 1, (graphs.cadence evaluator).totalSeconds + seconds⟩
      let bins := [BusyLane.compute, .io].foldl (fun bins lane =>
        Function.update bins (.busy evaluator lane)
          (addInterval graphs.bounds (bins (.busy evaluator lane))
            { start, stop, percent := count.bind fun _ => interval.busyPercent lane,
              measuredSeconds := interval.busySeconds.getD seconds, group })) graphs.bins
      let bins :=
        if evaluator then bins
        else Function.update bins .rate (addInterval graphs.bounds (bins .rate)
          { start, stop, percent := count.map (· / seconds), measuredSeconds := seconds, group })
      { graphs with bins, cadence, measurements }
  | _, _ => graphs

/-- Reports arrive by role in the order of their times. -/
def observe (graphs : Graphs K) (row : Json K) (evaluator : Bool) : Graphs K :=
  match (row.get "worker_id").asStr with
  | none => graphs
  | some worker =>
    let key := workerKey evaluator worker
    let before := OrdMap.get key graphs.previous
    let graphs := { graphs with previous := OrdMap.insert key row graphs.previous }
    match before with
    | none => graphs
    | some previous =>
      if identity previous = none ∨ identity previous ≠ identity row then
        { graphs with groups := OrdMap.erase key graphs.groups }
      else
        match OrdMap.get key graphs.groups with
        | some group => graphs.observeInterval parseTime previous row evaluator group
        | none =>
          let group := graphs.nextGroup + 1
          { graphs with nextGroup := group, groups := OrdMap.insert key group graphs.groups }.observeInterval
            parseTime previous row evaluator group

end Graphs

end Gammaboard.Server
