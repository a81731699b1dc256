import Gammaboard.Core.Errors
import Gammaboard.Lib.Results
import Gammaboard.Utils.Json
import Mathlib.Data.List.Sort

/-!
# Stage snapshots

`stores/queries/aggregation.rs`: the `run_stage_snapshots` table and its query for the latest
snapshot of a run before a sequence number. The table has no constraint on how many rows
share a sequence number.
-/

namespace Gammaboard.Utils.Json

def isNull {F : Type} : Json F → Bool
  | null => true
  | _ => false

end Gammaboard.Utils.Json

namespace Gammaboard.Sampling

open Gammaboard.Core Gammaboard.Utils

/-- `SamplerConfig`, without the parameters of a sampler. -/
inductive SamplerConfig where
  | naiveMonteCarlo
  | rasterPlane
  | rasterLine
  | pdfAdaptationRasterPlane
  | pdfAdaptationRasterLine
  | havanaTraining
  | havanaInference
  | processSampler
deriving DecidableEq, Repr

/-- `compatibility.rs` -/
def MODEL_VERSION : Nat := 5

/-- Without its stratification, materializer and transforms. -/
structure SamplingConfig where
  sampler : SamplerConfig
deriving DecidableEq, Repr

structure SavedSampler (F : Type) where
  version : Nat
  config : SamplingConfig
  state : Json F

namespace SavedSampler

variable {F : Type}

def validate (saved : SavedSampler F) : Except EngineError Unit :=
  if saved.version ≠ MODEL_VERSION || saved.state.isNull then
    .error (.build "unsupported or empty saved sampler state")
  else .ok ()

def containsHavanaGrid (saved : SavedSampler F) : Bool :=
  saved.validate.isOk &&
    (saved.config.sampler == .havanaTraining || saved.config.sampler == .havanaInference) &&
    (saved.state.get? "grid").isSome

end SavedSampler

end Gammaboard.Sampling

namespace Gammaboard.Stores

open Gammaboard.Core Gammaboard.Lib Gammaboard.Sampling Gammaboard.Utils

variable {F : Type} {A : Type} {E : Type} {T : Type}

/-- A row of `run_stage_snapshots`. -/
structure RunStageSnapshotRow (F : Type) where
  id : Int
  runId : Int
  taskId : Option Int
  name : String
  sequenceNr : Option Int
  queueEmpty : Bool
  samplerSnapshot : Option (Json F)
  observableState : Option (Json F)
  evaluator : Option (Json F)
  batchTransforms : Json F

structure RunStageSnapshot (F A E T : Type) where
  id : Option Int
  runId : Int
  taskId : Option Int
  name : String
  sequenceNr : Option Int
  queueEmpty : Bool
  samplerSnapshot : Option (SavedSampler F)
  observableState : Option A
  evaluator : Option E
  batchTransforms : List T

/-- It has a sampler snapshot that contains a grid. -/
def RunStageSnapshot.hasHavanaGrid (snapshot : RunStageSnapshot F A E T) : Bool :=
  snapshot.samplerSnapshot.any SavedSampler.containsHavanaGrid

/-- How the payload columns are read, with the texts of the errors. -/
structure Decoders (F A E T : Type) where
  savedSampler : Json F → Except String (SavedSampler F)
  accumulatorState : Json F → Except String A
  evaluatorConfig : Json F → Except String E
  batchTransforms : Json F → Except String (List T)
  /-- The text of `sqlx::Error::Protocol`. -/
  protocol : String → String

namespace Decoders

variable (decoders : Decoders F A E T)

/-- One payload column; `StoreError::from` makes a protocol error one of the database. -/
def column {α : Type} (field : String) (decode : Json F → Except String α) (payload : Json F) :
    Except StoreError α :=
  (decode payload).mapError fun err => .database
    (decoders.protocol ("failed to decode " ++ field ++ " from run_stage_snapshots: " ++ err))

def optionalColumn {α : Type} (field : String) (decode : Json F → Except String α) :
    Option (Json F) → Except StoreError (Option α)
  | none => .ok none
  | some payload => (decoders.column field decode payload).map some

end Decoders

/-- `TryFrom<RunStageSnapshotRow> for RunStageSnapshot` -/
def RunStageSnapshotRow.tryInto (decoders : Decoders F A E T) (row : RunStageSnapshotRow F) :
    Except StoreError (RunStageSnapshot F A E T) := do
  let samplerSnapshot ←
    decoders.optionalColumn "sampler_snapshot" decoders.savedSampler row.samplerSnapshot
  let observableState ←
    decoders.optionalColumn "observable_state" decoders.accumulatorState row.observableState
  let evaluator ← decoders.optionalColumn "evaluator" decoders.evaluatorConfig row.evaluator
  let batchTransforms ←
    decoders.column "batch_transforms" decoders.batchTransforms row.batchTransforms
  return {
    id := some row.id, runId := row.runId, taskId := row.taskId, name := row.name
    sequenceNr := row.sequenceNr, queueEmpty := row.queueEmpty, samplerSnapshot
    observableState, evaluator, batchTransforms }

/-- `run_stage_snapshots`, with its primary key. -/
structure StageSnapshotTable (F : Type) where
  rows : List (RunStageSnapshotRow F)
  keys : (rows.map (·.id)).Nodup

namespace RunStageSnapshotRow

/-- `ORDER BY sequence_nr DESC NULLS LAST, id DESC` -/
def isFirst (a b : RunStageSnapshotRow F) : Bool :=
  match a.sequenceNr, b.sequenceNr with
  | some m, some n => n < m || n == m && b.id ≤ a.id
  | some _, none => true
  | none, some _ => false
  | none, none => b.id ≤ a.id

theorem isFirst_total (a b : RunStageSnapshotRow F) : a.isFirst b ∨ b.isFirst a := by
  cases ha : a.sequenceNr <;> cases hb : b.sequenceNr <;> simp [isFirst, ha, hb] <;> omega

theorem isFirst_trans {a b c : RunStageSnapshotRow F} (hab : a.isFirst b) (hbc : b.isFirst c) :
    a.isFirst c := by
  cases ha : a.sequenceNr <;> cases hb : b.sequenceNr <;> cases hc : c.sequenceNr <;>
    simp_all [isFirst] <;> omega

instance : Std.Total fun a b : RunStageSnapshotRow F => a.isFirst b := ⟨isFirst_total⟩

instance : IsTrans (RunStageSnapshotRow F) fun a b => a.isFirst b := ⟨fun _ _ _ => isFirst_trans⟩

/-- The `WHERE` clause. -/
def isBefore (runId sequenceNr : Int) (row : RunStageSnapshotRow F) : Bool :=
  row.runId == runId && row.queueEmpty && row.sequenceNr.all fun n => decide (n < sequenceNr)

end RunStageSnapshotRow

def getLatestStageSnapshotBeforeSequence (decoders : Decoders F A E T)
    (table : StageSnapshotTable F) (runId sequenceNr : Int) :
    Except StoreError (Option (RunStageSnapshot F A E T)) :=
  let row := ((table.rows.filter (RunStageSnapshotRow.isBefore runId sequenceNr)).insertionSort
    fun a b => a.isFirst b).head?
  match row with
  | none => .ok none
  | some row => (row.tryInto decoders).map some

/-! ## What the query returns -/

variable {decoders : Decoders F A E T} {table : StageSnapshotTable F} {runId sequenceNr n : Int}
  {row other : RunStageSnapshotRow F} {snapshot : RunStageSnapshot F A E T}

theorem RunStageSnapshotRow.tryInto_sequenceNr (h : row.tryInto decoders = .ok snapshot) :
    snapshot.sequenceNr = row.sequenceNr := by
  unfold tryInto at h
  obtain ⟨_, -, h⟩ := bind_eq_ok h
  obtain ⟨_, -, h⟩ := bind_eq_ok h
  obtain ⟨_, -, h⟩ := bind_eq_ok h
  obtain ⟨_, -, h⟩ := bind_eq_ok h
  cases h
  rfl

/-- A queue-empty row of the run with the sequence number. -/
structure StageSnapshotTable.At (table : StageSnapshotTable F) (runId n : Int)
    (row : RunStageSnapshotRow F) : Prop where
  mem : row ∈ table.rows
  run : row.runId = runId
  queueEmpty : row.queueEmpty
  sequence : row.sequenceNr = some n

/-- The one of them that was saved last. -/
structure StageSnapshotTable.LastAt (table : StageSnapshotTable F) (runId n : Int)
    (row : RunStageSnapshotRow F) : Prop extends table.At runId n row where
  last : ∀ other, table.At runId n other → other.id ≤ row.id

namespace StageSnapshotTable

theorem LastAt.unique (h : table.LastAt runId n row)
    (hother : table.LastAt runId n other) : row = other :=
  List.inj_on_of_nodup_map table.keys h.mem hother.mem
    (le_antisymm (hother.last row h.toAt) (h.last other hother.toAt))

/-- The row that the query reads. -/
structure LatestBefore (table : StageSnapshotTable F) (runId sequenceNr : Int)
    (row : RunStageSnapshotRow F) : Prop where
  mem : row ∈ table.rows
  before : row.isBefore runId sequenceNr
  greatest : ∀ other ∈ table.rows, other.isBefore runId sequenceNr → row.isFirst other

theorem isBefore_of_at (h : table.At runId n row) (hn : n < sequenceNr) :
    row.isBefore runId sequenceNr := by
  simp [RunStageSnapshotRow.isBefore, h.run, h.queueEmpty, h.sequence, hn]

/-- The query reads one row, or there is none to read. -/
theorem getLatestStageSnapshotBeforeSequence_cases (decoders : Decoders F A E T)
    (table : StageSnapshotTable F) (runId sequenceNr : Int) :
    (getLatestStageSnapshotBeforeSequence decoders table runId sequenceNr = .ok none ∧
      ∀ row ∈ table.rows, ¬ row.isBefore runId sequenceNr) ∨
    ∃ row, table.LatestBefore runId sequenceNr row ∧
      getLatestStageSnapshotBeforeSequence decoders table runId sequenceNr =
        (row.tryInto decoders).map some := by
  unfold getLatestStageSnapshotBeforeSequence
  have hperm := List.perm_insertionSort (fun a b : RunStageSnapshotRow F => a.isFirst b)
    (table.rows.filter (RunStageSnapshotRow.isBefore runId sequenceNr))
  have hsorted := List.pairwise_insertionSort (fun a b : RunStageSnapshotRow F => a.isFirst b)
    (table.rows.filter (RunStageSnapshotRow.isBefore runId sequenceNr))
  cases hrows : (table.rows.filter (RunStageSnapshotRow.isBefore runId sequenceNr)).insertionSort
      fun a b => a.isFirst b with
  | nil =>
    rw [hrows] at hperm
    refine .inl ⟨rfl, fun row hrow hbefore => ?_⟩
    exact List.not_mem_nil (hperm.mem_iff.2 (List.mem_filter.2 ⟨hrow, hbefore⟩))
  | cons row rest =>
    rw [hrows] at hperm hsorted
    obtain ⟨hmem, hbefore⟩ := List.mem_filter.1 (hperm.mem_iff.1 List.mem_cons_self)
    refine .inr ⟨row, ⟨hmem, hbefore, fun other hother hb => ?_⟩, rfl⟩
    rcases List.mem_cons.1 (hperm.mem_iff.2 (List.mem_filter.2 ⟨hother, hb⟩)) with rfl | hrest
    · exact (RunStageSnapshotRow.isFirst_total other other).elim id id
    · exact List.rel_of_pairwise_cons hsorted hrest

namespace LatestBefore

/-- With a sequence number, it is the last one saved there. -/
theorem lastAt (h : table.LatestBefore runId sequenceNr row) (hn : row.sequenceNr = some n) :
    n < sequenceNr ∧ table.LastAt runId n row := by
  have hbefore := h.before
  simp only [RunStageSnapshotRow.isBefore, hn, Bool.and_eq_true, beq_iff_eq, Option.all_some,
    decide_eq_true_eq] at hbefore
  obtain ⟨⟨hrun, hempty⟩, hlt⟩ := hbefore
  refine ⟨hlt, ⟨h.mem, hrun, hempty, hn⟩, fun other hother => ?_⟩
  have hfirst := h.greatest other hother.mem (isBefore_of_at hother hlt)
  simp [RunStageSnapshotRow.isFirst, hn, hother.sequence] at hfirst
  omega

/-- No row between the one that is read and the sequence number asked for. -/
theorem at_le (h : table.LatestBefore runId sequenceNr row) (hother : table.At runId n other)
    (hn : n < sequenceNr) : ∃ m, row.sequenceNr = some m ∧ n ≤ m := by
  have hfirst := h.greatest other hother.mem (isBefore_of_at hother hn)
  cases hm : row.sequenceNr with
  | none => simp [RunStageSnapshotRow.isFirst, hm, hother.sequence] at hfirst
  | some m =>
    simp [RunStageSnapshotRow.isFirst, hm, hother.sequence] at hfirst
    exact ⟨m, rfl, by omega⟩

end LatestBefore

end StageSnapshotTable

end Gammaboard.Stores
