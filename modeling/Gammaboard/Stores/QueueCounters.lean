import Gammaboard.Lib.ChangeLog
import Gammaboard.Lib.Run
import Gammaboard.Stores.WorkQueue
import Mathlib.Algebra.Order.BigOperators.Group.List

/-!
# The queue counters of a run

`run_batch_queue_counters` and `sync_run_batch_queue_counters` of the schema: a
row of counters for each run, kept by a deferred row trigger on `batches`. A
transaction changes the tables first, the trigger fires at its commit, once for
each changed row in the order of the changes, with the old and the new row of
that change. Transactions that touch the same row commit one after the other,
so the committed ones form a sequence.
-/

namespace Gammaboard.Stores

open Gammaboard.Lib

/-! ## Tables -/

/-- The columns of `batches` the trigger reads. -/
structure QueueRow where
  id : Int
  runId : Int
  taskId : Int
  batchSize : Int
  status : BatchStatus
  deriving DecidableEq, Repr

inductive QueueColumn where
  | totalBatches
  | totalSamples
  | pendingBatches
  | claimedBatches
  | completedBatches
  | failedBatches
  deriving DecidableEq, Repr

def QueueColumn.all : List QueueColumn :=
  [.totalBatches, .totalSamples, .pendingBatches, .claimedBatches, .completedBatches, .failedBatches]

/-- A row of `run_batch_queue_counters`. -/
abbrev QueueCounters := QueueColumn → Int

/-- `runs` has serial ids, never given out twice. -/
structure CountedQueue where
  runs : List Int
  nextRun : Int
  rows : List QueueRow
  counters : Int → Option QueueCounters

namespace CountedQueue

def init : CountedQueue := ⟨[], 1, [], fun _ => none⟩

/-! ## Statements -/

inductive Statement where
  | insertRun
  | insertBatch (row : QueueRow)
  /-- `UPDATE batches SET status = ...`, several rows in table order. -/
  | updateStatus (selected : QueueRow → Bool) (status : QueueRow → BatchStatus)
  /-- Rows deleted directly or with their task. -/
  | deleteBatches (selected : QueueRow → Bool)
  /-- Runs deleted with the runs they spawned; their batches and counters go with them. -/
  | deleteRuns (selected : Int → Bool)

/-- The tables after a statement and the changed rows of `batches`, `none` when a key is
violated. -/
def statement (db : CountedQueue) : Statement → Option (CountedQueue × List (Change QueueRow))
  | .insertRun =>
    some ({ db with runs := db.runs ++ [db.nextRun], nextRun := db.nextRun + 1 }, [])
  | .insertBatch row =>
    if row.runId ∈ db.runs ∧ ∀ r ∈ db.rows, r.id ≠ row.id then
      some ({ db with rows := db.rows ++ [row] }, [.insert row])
    else none
  | .updateStatus selected status =>
    some ({ db with
        rows := db.rows.map fun r => if selected r then { r with status := status r } else r },
      (db.rows.filter selected).map fun r => .update r { r with status := status r })
  | .deleteBatches selected =>
    some ({ db with rows := db.rows.filter fun r => !selected r },
      (db.rows.filter selected).map .delete)
  | .deleteRuns selected =>
    some ({ db with
        runs := db.runs.filter fun run => !selected run
        rows := db.rows.filter fun r => !selected r.runId
        counters := fun run => if selected run then none else db.counters run },
      (db.rows.filter fun r => selected r.runId).map .delete)

def statements (db : CountedQueue) : List Statement → Option (CountedQueue × List (Change QueueRow))
  | [] => some (db, [])
  | s :: rest => do
    let (db, log) ← db.statement s
    let (db, more) ← db.statements rest
    return (db, log ++ more)

/-! ## The trigger -/

/-- `CASE WHEN row.status = ... THEN 1 ELSE 0 END`, 0 where there is no row. -/
def flag (status : BatchStatus) (row : Option QueueRow) : Int :=
  if row.any (·.status == status) then 1 else 0

def samples (row : Option QueueRow) : Int := row.elim 0 (·.batchSize)

/-- `OLD` and `NEW` of a change. -/
def oldNew : Change QueueRow → Option QueueRow × Option QueueRow
  | .insert new => (none, some new)
  | .update old new => (some old, some new)
  | .delete old => (some old, none)

/-- `target_run_id`. -/
def targetRun : Change QueueRow → Int
  | .insert new => new.runId
  | .update _ new => new.runId
  | .delete old => old.runId

/-- The columns after `UPDATE run_batch_queue_counters SET ...`. -/
def updated (change : Change QueueRow) (c : QueueCounters) : QueueCounters :=
  let (old, new) := oldNew change
  fun
  | .totalBatches =>
    c .totalBatches +
      match change with
      | .insert _ => 1
      | .delete _ => -1
      | .update _ _ => 0
  | .totalSamples => c .totalSamples + samples new - samples old
  | .pendingBatches => c .pendingBatches + flag .pending new - flag .pending old
  | .claimedBatches => c .claimedBatches + flag .claimed new - flag .claimed old
  | .completedBatches => c .completedBatches + flag .completed new - flag .completed old
  | .failedBatches => c .failedBatches + flag .failed new - flag .failed old

/-- The `CHECK` of every column. -/
def nonneg (c : QueueCounters) : Bool := QueueColumn.all.all fun column => decide (0 ≤ c column)

/-- One firing of `sync_run_batch_queue_counters`, `none` when a `CHECK` fails. The row is
created if the run exists; without a row the update changes nothing. -/
def fire (runs : List Int) (counters : Int → Option QueueCounters) (change : Change QueueRow) :
    Option (Int → Option QueueCounters) :=
  let target := targetRun change
  let counters : Int → Option QueueCounters :=
    if target ∈ runs ∧ counters target = none then
      fun run => if run = target then some (fun _ => 0) else counters run
    else counters
  match counters target with
  | none => some counters
  | some c =>
    if nonneg (updated change c) then
      some fun run => if run = target then some (updated change c) else counters run
    else none

def fireAll (runs : List Int) (counters : Int → Option QueueCounters)
    (log : List (Change QueueRow)) : Option (Int → Option QueueCounters) :=
  log.foldlM (fire runs) counters

/-- A transaction that ends in a commit; one that fails is rolled back. -/
def transaction (db : CountedQueue) (body : List Statement) : CountedQueue :=
  match db.statements body with
  | none => db
  | some (db', log) =>
    match fireAll db'.runs db'.counters log with
    | none => db
    | some counters => { db' with counters }

/-- The tables after a sequence of committed transactions. -/
def committed (transactions : List (List Statement)) : CountedQueue :=
  run transaction init transactions

/-- `get_batch_queue_counts` of a run: the completed batches are counted, the others read off the
counters. -/
def getBatchQueueCounts (db : CountedQueue) (runId : Int) (completedAfter : Option Int) :
    BatchQueueCounts :=
  let c := (db.counters runId).getD fun _ => 0
  { pending := c .pendingBatches
    claimed := c .claimedBatches
    completed := db.rows.countP fun r =>
      r.runId == runId && r.status == .completed && decide (completedAfter.getD 0 < r.id)
    failed := c .failedBatches }

/-! ## Counting -/

/-- What the counters of a run should be: its rows of every status and their samples. -/
def queueCounts (run : Int) (rows : List QueueRow) : QueueCounters
  | .totalBatches => (rows.filter (·.runId == run)).length
  | .totalSamples => ((rows.filter (·.runId == run)).map (·.batchSize)).sum
  | .pendingBatches => rows.countP fun r => r.runId == run && r.status == .pending
  | .claimedBatches => rows.countP fun r => r.runId == run && r.status == .claimed
  | .completedBatches => rows.countP fun r => r.runId == run && r.status == .completed
  | .failedBatches => rows.countP fun r => r.runId == run && r.status == .failed

/-- What one row counts for a run. -/
def weight (run : Int) (r : QueueRow) : QueueCounters :=
  if r.runId = run then
    fun
    | .totalBatches => 1
    | .totalSamples => r.batchSize
    | .pendingBatches => flag .pending (some r)
    | .claimedBatches => flag .claimed (some r)
    | .completedBatches => flag .completed (some r)
    | .failedBatches => flag .failed (some r)
  else 0

theorem queueCounts_eq_total (run : Int) (rows : List QueueRow) :
    queueCounts run rows = total (weight run) rows := by
  induction rows with
  | nil =>
    funext column
    cases column <;> rfl
  | cons r rows ih =>
    have hsplit : total (weight run) (r :: rows) = weight run r + total (weight run) rows := by
      simp [total]
    rw [hsplit, ← ih]
    funext column
    by_cases hrun : r.runId = run
    · cases column with
      | totalBatches =>
        simp [queueCounts, weight, hrun]
        omega
      | totalSamples => simp [queueCounts, weight, hrun]
      | pendingBatches | claimedBatches | completedBatches | failedBatches =>
        cases hstatus : r.status <;> simp [queueCounts, weight, hrun, hstatus, flag, add_comm]
    · cases column <;> simp [queueCounts, weight, hrun]

/-- Sizes that are sample counts make every count a natural number. -/
theorem queueCounts_nonneg {run : Int} {rows : List QueueRow} (h : ∀ r ∈ rows, 0 ≤ r.batchSize)
    (column : QueueColumn) : 0 ≤ queueCounts run rows column := by
  cases column with
  | totalSamples =>
    apply List.sum_nonneg
    rintro n hn
    obtain ⟨r, hr, rfl⟩ := List.mem_map.1 hn
    exact h r (List.mem_of_mem_filter hr)
  | totalBatches | pendingBatches | claimedBatches | completedBatches | failedBatches =>
    exact Int.natCast_nonneg _

/-- The trigger moves the counters of the run by the delta of the change. -/
theorem updated_eq {change : Change QueueRow} {run : Int} (c : QueueCounters)
    (hold : ∀ r, (oldNew change).1 = some r → r.runId = run)
    (hnew : ∀ r, (oldNew change).2 = some r → r.runId = run) :
    updated change c = c + change.delta (weight run) := by
  funext column
  cases change with
  | insert new =>
    have hrun := hnew new rfl
    cases column <;> simp [updated, oldNew, Change.delta, weight, hrun, flag, samples]
  | update old new =>
    have hrun := hnew new rfl
    have hrun' := hold old rfl
    cases column <;> simp [updated, oldNew, Change.delta, weight, hrun, hrun', flag, samples] <;> omega
  | delete old =>
    have hrun' := hold old rfl
    cases column <;> simp [updated, oldNew, Change.delta, weight, hrun', flag, samples] <;> omega

/-! ## Bodies of transactions -/

/-- What the keys of the schema guarantee, inside a transaction too. -/
structure Shape (db : CountedQueue) : Prop where
  member : ∀ r ∈ db.rows, r.runId ∈ db.runs
  fresh : ∀ run ∈ db.runs, run < db.nextRun
  gone : ∀ run, run ∉ db.runs → db.counters run = none

/-- The change is about one run and rewrites neither its id nor its size. -/
def SameRun : Change QueueRow → Prop
  | .update old new => new.runId = old.runId ∧ new.batchSize = old.batchSize
  | _ => True

/-- What a body does before the commit: the log replays the rows, and the counters of the runs
that are left have not moved. -/
structure Executes (db db' : CountedQueue) (log : List (Change QueueRow)) : Prop where
  replays : Replays db.rows log db'.rows
  sameRun : ∀ change ∈ log, SameRun change
  nextRun : db.nextRun ≤ db'.nextRun
  runs : ∀ run ∈ db'.runs, run ∈ db.runs ∨ db.nextRun ≤ run
  counters : ∀ run ∈ db'.runs, db'.counters run = db.counters run

theorem statement_executes {db db' : CountedQueue} {s : Statement} {log : List (Change QueueRow)}
    (hdb : Shape db) (h : db.statement s = some (db', log)) :
    Shape db' ∧ Executes db db' log := by
  cases s with
  | insertRun =>
    cases h
    refine ⟨⟨fun r hr => List.mem_append_left _ (hdb.member r hr), ?_, ?_⟩,
      ⟨.nil _, (fun c hc => by cases hc), by dsimp only; omega, ?_, fun _ _ => rfl⟩⟩
    · rintro run hrun
      rcases List.mem_append.1 hrun with hrun | hrun
      · have hlt := hdb.fresh run hrun
        dsimp only
        omega
      · rw [List.mem_singleton.1 hrun]
        dsimp only
        omega
    · rintro run hrun
      exact hdb.gone run fun hmem => hrun (List.mem_append_left _ hmem)
    · rintro run hrun
      rcases List.mem_append.1 hrun with hrun | hrun
      · exact .inl hrun
      · exact .inr (List.mem_singleton.1 hrun).ge
  | insertBatch row =>
    simp only [statement] at h
    split at h
    · rename_i hkeys
      cases h
      refine ⟨⟨?_, hdb.fresh, hdb.gone⟩,
        ⟨?_, fun c hc => ?_, le_rfl, fun _ hrun => .inl hrun, fun _ _ => rfl⟩⟩
      · rintro r hr
        rcases List.mem_append.1 hr with hr | hr
        · exact hdb.member r hr
        · rw [List.mem_singleton.1 hr]
          exact hkeys.1
      · have hinsert : Replays (db.rows ++ []) [.insert row] (db.rows ++ [row]) := .insert (.nil _)
        rwa [List.append_nil] at hinsert
      · rw [List.mem_singleton.1 hc]
        trivial
    · cases h
  | updateStatus selected status =>
    cases h
    refine ⟨⟨?_, hdb.fresh, hdb.gone⟩,
      ⟨?_, fun c hc => ?_, le_rfl, fun _ hrun => .inl hrun, fun _ _ => rfl⟩⟩
    · rintro r' hr'
      obtain ⟨r, hr, rfl⟩ := List.mem_map.1 hr'
      have hmember := hdb.member r hr
      split
      · exact hmember
      · exact hmember
    · exact replays_update selected (fun r => { r with status := status r }) [] db.rows
    · obtain ⟨r, -, rfl⟩ := List.mem_map.1 hc
      exact ⟨rfl, rfl⟩
  | deleteBatches selected =>
    cases h
    refine ⟨⟨fun r hr => hdb.member r (List.mem_of_mem_filter hr), hdb.fresh, hdb.gone⟩,
      ⟨replays_delete selected [] db.rows, fun c hc => ?_, le_rfl, fun _ hrun => .inl hrun,
        fun _ _ => rfl⟩⟩
    obtain ⟨r, -, rfl⟩ := List.mem_map.1 hc
    trivial
  | deleteRuns selected =>
    cases h
    refine ⟨⟨?_, fun run hrun => hdb.fresh run (List.mem_of_mem_filter hrun), ?_⟩,
      ⟨replays_delete (fun r : QueueRow => selected r.runId) [] db.rows, fun c hc => ?_, le_rfl,
        fun _ hrun => .inl (List.mem_of_mem_filter hrun), ?_⟩⟩
    · rintro r hr
      obtain ⟨hr, hkept⟩ := List.mem_filter.1 hr
      exact List.mem_filter.2 ⟨hdb.member r hr, hkept⟩
    · rintro run hrun
      by_cases hsel : selected run = true
      · exact if_pos hsel
      · dsimp only
        rw [if_neg hsel]
        exact hdb.gone run fun hmem => hrun (List.mem_filter.2 ⟨hmem, by simp [hsel]⟩)
    · obtain ⟨r, -, rfl⟩ := List.mem_map.1 hc
      trivial
    · rintro run hrun
      obtain ⟨-, hkept⟩ := List.mem_filter.1 hrun
      exact if_neg (by simpa using hkept)

theorem statements_executes {db db' : CountedQueue} {body : List Statement}
    {log : List (Change QueueRow)} (hdb : Shape db) (h : db.statements body = some (db', log)) :
    Shape db' ∧ Executes db db' log := by
  induction body generalizing db log with
  | nil =>
    cases h
    exact ⟨hdb, .nil _, (fun c hc => by cases hc), le_rfl, fun _ hrun => .inl hrun, fun _ _ => rfl⟩
  | cons s rest ih =>
    unfold statements at h
    cases hs : db.statement s with
    | none => simp [hs] at h
    | some first =>
      obtain ⟨mid, log₁⟩ := first
      cases hrest : mid.statements rest with
      | none => simp [hs, hrest] at h
      | some later =>
        obtain ⟨last, log₂⟩ := later
        simp only [hs, hrest, Option.bind_eq_bind, Option.bind_some, Option.pure_def,
          Option.some.injEq, Prod.mk.injEq] at h
        obtain ⟨rfl, rfl⟩ := h
        obtain ⟨hmid, hfirst⟩ := statement_executes hdb hs
        obtain ⟨hlast, hlater⟩ := ih hmid hrest
        have hnext := hfirst.nextRun
        refine ⟨hlast, hfirst.replays.trans hlater.replays, ?_, hnext.trans hlater.nextRun, ?_, ?_⟩
        · rintro change hc
          rcases List.mem_append.1 hc with hc | hc
          · exact hfirst.sameRun change hc
          · exact hlater.sameRun change hc
        · rintro run hrun
          rcases hlater.runs run hrun with hmem | hnew
          · exact hfirst.runs run hmem
          · exact .inr (hnext.trans hnew)
        · rintro run hrun
          rw [hlater.counters run hrun]
          by_cases hmem : run ∈ mid.runs
          · exact hfirst.counters run hmem
          · -- created later, so it had no counters
            have hnew := (hlater.runs run hrun).resolve_left hmem
            rw [hmid.gone run hmem, hdb.gone run]
            rintro hold
            have hlt := hdb.fresh run hold
            omega

/-! ## Firing -/

/-- The counters of the runs count these rows. -/
structure Counted (runs : List Int) (counters : Int → Option QueueCounters)
    (rows : List QueueRow) : Prop where
  counts : ∀ run ∈ runs, (counters run).getD (fun _ => 0) = queueCounts run rows
  gone : ∀ run, run ∉ runs → counters run = none

theorem oldNew_runId {change : Change QueueRow} (h : SameRun change) :
    (∀ r, (oldNew change).1 = some r → r.runId = targetRun change) ∧
      ∀ r, (oldNew change).2 = some r → r.runId = targetRun change := by
  cases change with
  | insert new =>
    refine ⟨(fun r hr => by cases hr), fun r hr => ?_⟩
    cases hr
    rfl
  | update old new =>
    refine ⟨fun r hr => ?_, fun r hr => ?_⟩
    · cases hr
      exact h.1.symm
    · cases hr
      rfl
  | delete old =>
    refine ⟨fun r hr => ?_, (fun r hr => by cases hr)⟩
    cases hr
    rfl

theorem delta_of_ne {change : Change QueueRow} (h : SameRun change) {run : Int}
    (hne : run ≠ targetRun change) : change.delta (weight run) = 0 := by
  cases change with
  | insert new =>
    have hnew : new.runId ≠ run := fun heq => hne heq.symm
    simp [Change.delta, weight, hnew]
  | update old new =>
    have hold : old.runId ≠ run := fun heq => hne (heq.symm.trans h.1.symm)
    have hnew : new.runId ≠ run := fun heq => hne heq.symm
    simp [Change.delta, weight, hold, hnew]
  | delete old =>
    have hold : old.runId ≠ run := fun heq => hne heq.symm
    simp [Change.delta, weight, hold]

/-- A firing that is not refused makes the counters count the rows after the change, and with
sizes that are sample counts none is refused. -/
theorem Counted.fire {runs : List Int} {counters : Int → Option QueueCounters}
    {rows rows' : List QueueRow} {change : Change QueueRow} (h : Counted runs counters rows)
    (hreplay : Replays rows [change] rows') (hchange : SameRun change) :
    (∀ counters', fire runs counters change = some counters' → Counted runs counters' rows') ∧
      ((∀ r ∈ rows', 0 ≤ r.batchSize) → ∃ counters', fire runs counters change = some counters') := by
  have hdelta : ∀ run, queueCounts run rows' = queueCounts run rows + change.delta (weight run) := by
    intro run
    rw [queueCounts_eq_total, queueCounts_eq_total]
    exact hreplay.total_one (weight run)
  obtain ⟨hold, hnew⟩ := oldNew_runId hchange
  have hupdated := fun c => updated_eq c hold hnew
  unfold CountedQueue.fire
  dsimp only
  by_cases hrun : targetRun change ∈ runs
  · -- the row of counters is there or is created
    obtain ⟨c, hc, hcounters⟩ : ∃ c, c = queueCounts (targetRun change) rows ∧
        (if targetRun change ∈ runs ∧ counters (targetRun change) = none then
          fun run => if run = targetRun change then some (fun _ => 0) else counters run
        else counters) = fun run => if run = targetRun change then some c else counters run := by
      have hcounts := h.counts _ hrun
      by_cases hnone : counters (targetRun change) = none
      · refine ⟨fun _ => 0, ?_, if_pos ⟨hrun, hnone⟩⟩
        rw [hnone] at hcounts
        exact hcounts
      · obtain ⟨c, hsome⟩ := Option.ne_none_iff_exists'.1 hnone
        rw [hsome] at hcounts
        refine ⟨c, hcounts, ?_⟩
        rw [if_neg fun hboth => hnone hboth.2]
        funext run
        by_cases heq : run = targetRun change
        · rw [if_pos heq, heq, hsome]
        · rw [if_neg heq]
    rw [hcounters]
    dsimp only
    rw [if_pos rfl]
    dsimp only
    rw [hupdated, hc, ← hdelta]
    constructor
    · intro counters' hfire
      split at hfire
      · cases hfire
        constructor
        · rintro run hmem
          by_cases heq : run = targetRun change
          · rw [if_pos heq, heq]
            rfl
          · rw [if_neg heq, if_neg heq, h.counts run hmem, hdelta, delta_of_ne hchange heq, add_zero]
        · rintro run hmem
          have hne : run ≠ targetRun change := by
            rintro rfl
            exact hmem hrun
          rw [if_neg hne, if_neg hne]
          exact h.gone run hmem
      · cases hfire
    · intro hsizes
      have hcheck : nonneg (queueCounts (targetRun change) rows') = true := by
        unfold nonneg
        rw [List.all_eq_true]
        rintro column -
        exact decide_eq_true (queueCounts_nonneg hsizes column)
      exact ⟨_, if_pos hcheck⟩
  · -- the run is deleted: there is nothing to update
    rw [if_neg fun hboth => hrun hboth.1, h.gone _ hrun]
    dsimp only
    refine ⟨fun counters' hfire => ?_, fun _ => ⟨counters, rfl⟩⟩
    cases hfire
    refine ⟨fun run hmem => ?_, h.gone⟩
    have hne : run ≠ targetRun change := by
      rintro rfl
      exact hrun hmem
    rw [h.counts run hmem, hdelta, delta_of_ne hchange hne, add_zero]

/-- The firings so far make the counters count the rows after the changes so far. -/
theorem Counted.fireAll {runs : List Int} {counters : Int → Option QueueCounters}
    {rows rows' : List QueueRow} {log : List (Change QueueRow)} (h : Counted runs counters rows)
    (hreplay : Replays rows log rows') (hlog : ∀ change ∈ log, SameRun change) :
    (∀ counters', fireAll runs counters log = some counters' → Counted runs counters' rows') ∧
      ((∀ r ∈ rows, 0 ≤ r.batchSize) →
        (∀ change ∈ log, ∀ r, change.puts = some r → 0 ≤ r.batchSize) →
          ∃ counters', fireAll runs counters log = some counters') := by
  induction log generalizing counters rows with
  | nil =>
    rw [hreplay.eq_of_nil]
    refine ⟨fun counters' hfire => ?_, fun _ _ => ⟨counters, rfl⟩⟩
    cases hfire
    exact h
  | cons change log ih =>
    have hcons : Replays rows ([change] ++ log) rows' := hreplay
    obtain ⟨mid, hone, hrest⟩ := hcons.split
    have hchange := hlog change List.mem_cons_self
    have hlater := fun c hc => hlog c (List.mem_cons_of_mem change hc)
    obtain ⟨hcounted, hfires⟩ := h.fire hone hchange
    unfold CountedQueue.fireAll
    rw [List.foldlM_cons]
    constructor
    · intro counters' hfire
      cases hfirst : CountedQueue.fire runs counters change with
      | none => simp [hfirst] at hfire
      | some next =>
        simp only [hfirst, Option.bind_eq_bind, Option.bind_some] at hfire
        exact (ih (hcounted next hfirst) hrest hlater).1 counters' hfire
    · intro hrows hputs
      have hmid : ∀ r ∈ mid, 0 ≤ r.batchSize := by
        refine hone.all hrows fun c hc => ?_
        rw [List.mem_singleton.1 hc]
        exact hputs change List.mem_cons_self
      obtain ⟨next, hfirst⟩ := hfires hmid
      obtain ⟨counters', hfire⟩ := (ih (hcounted next hfirst) hrest hlater).2 hmid fun c hc =>
        hputs c (List.mem_cons_of_mem change hc)
      exact ⟨counters', by simp only [hfirst, Option.bind_eq_bind, Option.bind_some]; exact hfire⟩

/-! ## Sequences of transactions -/

/-- The counters count the queue, and stay within their checks. -/
structure Inv (db : CountedQueue) : Prop where
  shape : Shape db
  counted : Counted db.runs db.counters db.rows
  checked : ∀ run c, db.counters run = some c → nonneg c = true

theorem inv_init : Inv init where
  shape := ⟨(fun _ hr => by cases hr), (fun _ hrun => by cases hrun), fun _ _ => rfl⟩
  counted := ⟨(fun _ hrun => by cases hrun), fun _ _ => rfl⟩
  checked := fun _ _ hc => by cases hc

/-- When the trigger starts firing, the counters still count the rows before the body, for the
runs there are now. -/
theorem Inv.start {db db' : CountedQueue} {log : List (Change QueueRow)} (h : Inv db)
    (hdb' : Shape db') (hbody : Executes db db' log) : Counted db'.runs db'.counters db.rows := by
  refine ⟨fun run hrun => ?_, hdb'.gone⟩
  rw [hbody.counters run hrun]
  rcases hbody.runs run hrun with hold | hnew
  · exact h.counted.counts run hold
  · -- a run of this transaction has no counters and no rows yet
    have hfresh : run ∉ db.runs := fun hmem => by
      have hlt := h.shape.fresh run hmem
      omega
    have hrows : ∀ r ∈ db.rows, r.runId ≠ run := fun r hr heq =>
      hfresh (heq ▸ h.shape.member r hr)
    rw [h.shape.gone run hfresh, queueCounts_eq_total]
    have hzero : ∀ w ∈ db.rows.map (weight run), w = 0 := by
      rintro w hw
      obtain ⟨r, hr, rfl⟩ := List.mem_map.1 hw
      exact if_neg (hrows r hr)
    exact (List.sum_eq_zero hzero).symm

/-- A firing leaves no negative counter behind. -/
theorem checked_fireAll {runs : List Int} {counters counters' : Int → Option QueueCounters}
    {log : List (Change QueueRow)} (h : ∀ run c, counters run = some c → nonneg c = true)
    (hfire : fireAll runs counters log = some counters') :
    ∀ run c, counters' run = some c → nonneg c = true := by
  induction log generalizing counters with
  | nil =>
    cases hfire
    exact h
  | cons change log ih =>
    unfold CountedQueue.fireAll at hfire
    rw [List.foldlM_cons] at hfire
    cases hfirst : fire runs counters change with
    | none => simp [hfirst] at hfire
    | some next =>
      simp only [hfirst, Option.bind_eq_bind, Option.bind_some] at hfire
      refine ih ?_ hfire
      have hcreated : ∀ run c, (if targetRun change ∈ runs ∧ counters (targetRun change) = none then
          fun run => if run = targetRun change then some (fun _ => 0) else counters run
          else counters) run = some c → nonneg c = true := by
        intro run c hc
        split at hc
        · dsimp only at hc
          split at hc
          · cases hc
            rfl
          · exact h run c hc
        · exact h run c hc
      unfold CountedQueue.fire at hfirst
      dsimp only at hfirst
      split at hfirst
      · cases hfirst
        exact hcreated
      · split at hfirst
        · rename_i hcheck
          cases hfirst
          intro run c hc
          dsimp only at hc
          split at hc
          · cases hc
            exact hcheck
          · exact hcreated run c hc
        · cases hfirst

theorem Executes.checked {db db' : CountedQueue} {log : List (Change QueueRow)} (h : Inv db)
    (hdb' : Shape db') (hbody : Executes db db' log) :
    ∀ run c, db'.counters run = some c → nonneg c = true := by
  intro run c hc
  by_cases hrun : run ∈ db'.runs
  · rw [hbody.counters run hrun] at hc
    exact h.checked run c hc
  · rw [hdb'.gone run hrun] at hc
    cases hc

theorem Inv.transaction {db : CountedQueue} (h : Inv db) (body : List Statement) :
    Inv (db.transaction body) := by
  unfold CountedQueue.transaction
  cases hbody : db.statements body with
  | none => exact h
  | some outcome =>
    obtain ⟨db', log⟩ := outcome
    obtain ⟨hshape, hexecutes⟩ := statements_executes h.shape hbody
    dsimp only
    cases hfire : CountedQueue.fireAll db'.runs db'.counters log with
    | none => exact h
    | some counters =>
      have hcounted := ((h.start hshape hexecutes).fireAll hexecutes.replays
        hexecutes.sameRun).1 counters hfire
      exact ⟨⟨hshape.member, hshape.fresh, hcounted.gone⟩, hcounted,
        checked_fireAll (hexecutes.checked h hshape) hfire⟩

theorem inv_run (transactions : List (List Statement)) : Inv (committed transactions) :=
  run_invariant' (fun _ body h => h.transaction body) transactions inv_init

/-- The size of an inserted batch is a sample count. -/
def Statement.Sized : Statement → Prop
  | .insertBatch row => 0 ≤ row.batchSize
  | _ => True

theorem statement_sized {db db' : CountedQueue} {s : Statement} {log : List (Change QueueRow)}
    (h : db.statement s = some (db', log)) (hrows : ∀ r ∈ db.rows, 0 ≤ r.batchSize) (hs : s.Sized) :
    (∀ r ∈ db'.rows, 0 ≤ r.batchSize) ∧
      ∀ change ∈ log, ∀ r, change.puts = some r → 0 ≤ r.batchSize := by
  cases s with
  | insertRun =>
    cases h
    exact ⟨hrows, fun change hc => by cases hc⟩
  | insertBatch row =>
    simp only [statement] at h
    split at h
    · cases h
      constructor
      · rintro r hr
        rcases List.mem_append.1 hr with hr | hr
        · exact hrows r hr
        · rw [List.mem_singleton.1 hr]
          exact hs
      · rintro change hc r hr
        rw [List.mem_singleton.1 hc] at hr
        cases hr
        exact hs
    · cases h
  | updateStatus selected status =>
    cases h
    constructor
    · rintro r' hr'
      obtain ⟨r, hr, rfl⟩ := List.mem_map.1 hr'
      have hsize := hrows r hr
      split
      · exact hsize
      · exact hsize
    · rintro change hc r' hr'
      obtain ⟨r, hr, rfl⟩ := List.mem_map.1 hc
      cases hr'
      exact hrows r (List.mem_of_mem_filter hr)
  | deleteBatches selected =>
    cases h
    refine ⟨fun r hr => hrows r (List.mem_of_mem_filter hr), fun change hc r hr => ?_⟩
    obtain ⟨r', -, rfl⟩ := List.mem_map.1 hc
    cases hr
  | deleteRuns selected =>
    cases h
    refine ⟨fun r hr => hrows r (List.mem_of_mem_filter hr), fun change hc r hr => ?_⟩
    obtain ⟨r', -, rfl⟩ := List.mem_map.1 hc
    cases hr

theorem statements_sized {db db' : CountedQueue} {body : List Statement}
    {log : List (Change QueueRow)} (h : db.statements body = some (db', log))
    (hrows : ∀ r ∈ db.rows, 0 ≤ r.batchSize) (hbody : ∀ s ∈ body, s.Sized) :
    (∀ r ∈ db'.rows, 0 ≤ r.batchSize) ∧
      ∀ change ∈ log, ∀ r, change.puts = some r → 0 ≤ r.batchSize := by
  induction body generalizing db log with
  | nil =>
    cases h
    exact ⟨hrows, fun change hc => by cases hc⟩
  | cons s rest ih =>
    unfold statements at h
    cases hs : db.statement s with
    | none => simp [hs] at h
    | some first =>
      obtain ⟨mid, log₁⟩ := first
      cases hrest : mid.statements rest with
      | none => simp [hs, hrest] at h
      | some later =>
        obtain ⟨last, log₂⟩ := later
        simp only [hs, hrest, Option.bind_eq_bind, Option.bind_some, Option.pure_def,
          Option.some.injEq, Prod.mk.injEq] at h
        obtain ⟨rfl, rfl⟩ := h
        obtain ⟨hmid, hlog₁⟩ := statement_sized hs hrows (hbody s List.mem_cons_self)
        obtain ⟨hlast, hlog₂⟩ := ih hrest hmid fun s' hs' => hbody s' (List.mem_cons_of_mem s hs')
        refine ⟨hlast, fun change hc => ?_⟩
        rcases List.mem_append.1 hc with hc | hc
        · exact hlog₁ change hc
        · exact hlog₂ change hc

theorem transaction_sized {db : CountedQueue} {body : List Statement}
    (hrows : ∀ r ∈ db.rows, 0 ≤ r.batchSize) (hbody : ∀ s ∈ body, s.Sized) :
    ∀ r ∈ (db.transaction body).rows, 0 ≤ r.batchSize := by
  unfold CountedQueue.transaction
  cases hstatements : db.statements body with
  | none => exact hrows
  | some outcome =>
    obtain ⟨db', log⟩ := outcome
    dsimp only
    cases CountedQueue.fireAll db'.runs db'.counters log with
    | none => exact hrows
    | some counters => exact (statements_sized hstatements hrows hbody).1

theorem sized_run {transactions : List (List Statement)}
    (h : ∀ t ∈ transactions, ∀ s ∈ t, s.Sized) :
    ∀ r ∈ (committed transactions).rows, 0 ≤ r.batchSize := by
  have hstep : ∀ (db : CountedQueue) (body : List Statement), (∀ r ∈ db.rows, 0 ≤ r.batchSize) →
      (∀ s ∈ body, s.Sized) → ∀ r ∈ (db.transaction body).rows, 0 ≤ r.batchSize :=
    fun _ _ => transaction_sized
  exact run_invariant (I := fun db : CountedQueue => ∀ r ∈ db.rows, 0 ≤ r.batchSize) hstep
    (fun r hr => by cases hr) (along_of_forall _ h)

/-- After every sequence of transactions the counters of a run are its queue, counted. Within
the commit of the next transaction, after any firing of the trigger, no counter is negative, and
as long as batch sizes are sample counts no firing is refused by a check. -/
theorem counters_eq_queue (transactions : List (List Statement)) :
    (∀ runId ∈ (committed transactions).runs,
      ((committed transactions).counters runId).getD (fun _ => 0) =
        queueCounts runId (committed transactions).rows) ∧
    ∀ body db fired later, (committed transactions).statements body = some (db, fired ++ later) →
      (∀ counters, fireAll db.runs db.counters fired = some counters →
        ∀ runId c column, counters runId = some c → 0 ≤ c column) ∧
      ((∀ t ∈ body :: transactions, ∀ s ∈ t, s.Sized) →
        ∃ counters, fireAll db.runs db.counters fired = some counters) := by
  have hinv := inv_run transactions
  refine ⟨hinv.counted.counts, ?_⟩
  rintro body db fired later hbody
  obtain ⟨hshape, hexecutes⟩ := statements_executes hinv.shape hbody
  obtain ⟨mid, hfired, -⟩ := hexecutes.replays.split
  constructor
  · intro counters hfire runId c column hc
    have hcheck := checked_fireAll (hexecutes.checked hinv hshape) hfire runId c hc
    unfold nonneg at hcheck
    rw [List.all_eq_true] at hcheck
    have hcolumn := hcheck column (by cases column <;> decide)
    simpa using hcolumn
  · intro hsized
    have hrows := sized_run fun t ht => hsized t (List.mem_cons_of_mem _ ht)
    have hlog := (statements_sized hbody hrows (hsized body List.mem_cons_self)).2
    have hsame : ∀ change ∈ fired, SameRun change := fun change hc =>
      hexecutes.sameRun change (List.mem_append_left _ hc)
    exact ((hinv.start hshape hexecutes).fireAll hfired hsame).2 hrows fun change hc =>
      hlog change (List.mem_append_left _ hc)

/-- The counts a run reports are those of its rows. -/
theorem getBatchQueueCounts_eq (transactions : List (List Statement)) {runId : Int}
    (hrun : runId ∈ (committed transactions).runs) (completedAfter : Option Int) :
    (committed transactions).getBatchQueueCounts runId completedAfter =
      { pending := (committed transactions).rows.countP fun r =>
          r.runId == runId && r.status == .pending
        claimed := (committed transactions).rows.countP fun r =>
          r.runId == runId && r.status == .claimed
        completed := (committed transactions).rows.countP fun r =>
          r.runId == runId && r.status == .completed && decide (completedAfter.getD 0 < r.id)
        failed := (committed transactions).rows.countP fun r =>
          r.runId == runId && r.status == .failed } := by
  have hcounts := (inv_run transactions).counted.counts runId hrun
  unfold CountedQueue.getBatchQueueCounts
  dsimp only
  rw [hcounts]
  rfl

end CountedQueue

/-! ## The work queue statements -/

section WorkQueue

variable {In Res : Type} {accept : BatchRow In Res → Res → Prop} {rows rows' : List (BatchRow In Res)}

/-- The columns of a batch the trigger reads. -/
def BatchRow.queueRow (r : BatchRow In Res) : QueueRow :=
  ⟨r.id, r.runId, r.taskId, r.batchSize, r.status⟩

/-- The statements of evaluators rewrite statuses in place, so they are bodies of the kind the
counters follow. -/
theorem updateStatus_of_touched (h : Touched accept rows rows') (hids : (rows.map (·.id)).Nodup) :
    ∃ status : QueueRow → BatchStatus, ∀ db : CountedQueue, db.rows = rows.map (·.queueRow) →
      ∃ log, db.statement (.updateStatus (fun _ => true) status) =
        some ({ db with rows := rows'.map (·.queueRow) }, log) := by
  have hstatus : ∃ status : QueueRow → BatchStatus,
      (rows.map (·.queueRow)).map (fun r => { r with status := status r }) =
        rows'.map (·.queueRow) := by
    induction h with
    | nil => exact ⟨(·.status), rfl⟩
    | @cons r r' rows rows' hr _ ih =>
      rw [List.map_cons, List.nodup_cons] at hids
      obtain ⟨status, hrest⟩ := ih hids.2
      refine ⟨fun q => if q.id = r.id then r'.status else status q, ?_⟩
      have hsame := hr.sameBatch
      have hhead : { r.queueRow with
          status := if r.queueRow.id = r.id then r'.status else status r.queueRow } = r'.queueRow := by
        rw [if_pos (show r.queueRow.id = r.id from rfl)]
        simp only [BatchRow.queueRow, hsame.id, hsame.runId, hsame.taskId, hsame.batchSize]
      have htail : (rows.map (·.queueRow)).map (fun q =>
          { q with status := if q.id = r.id then r'.status else status q }) =
            rows'.map (·.queueRow) := by
        rw [← hrest]
        apply List.map_congr_left
        rintro q hq
        obtain ⟨x, hx, rfl⟩ := List.mem_map.1 hq
        have hne : x.queueRow.id ≠ r.id := fun heq => hids.1 (heq ▸ List.mem_map_of_mem hx)
        rw [if_neg hne]
      rw [List.map_cons, List.map_cons, List.map_cons, hhead, htail]
  obtain ⟨status, hrows⟩ := hstatus
  refine ⟨status, fun db hdb => ⟨(db.rows.filter fun _ => true).map fun r =>
    .update r { r with status := status r }, ?_⟩⟩
  simp only [CountedQueue.statement, if_true]
  rw [← hrows, ← hdb]

end WorkQueue

end Gammaboard.Stores
