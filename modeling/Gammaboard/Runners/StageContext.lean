import Gammaboard.Stores.StageSnapshots

/-!
# Stage contexts

`runners/stage_context.rs`: the search for the latest stage of a run with a Havana grid. It
asks for the latest stage before a sequence number and goes on before the number of the
stage it got, so it reads one row for each sequence number.
-/

namespace Gammaboard.Runners

open Gammaboard.Core Gammaboard.Lib Gammaboard.Sampling Gammaboard.Stores Gammaboard.Utils

variable {F A E T : Type}

/-- `find_latest_havana_snapshot_before_sequence` with at most so many queries; `none` where they
do not suffice. -/
def findLatestHavanaSnapshotBeforeSequence
    (loadLatestStageSnapshotBeforeSequence :
      Int → Except StoreError (Option (RunStageSnapshot F A E T))) :
    Nat → Int → Option (Except StoreError (Option (RunStageSnapshot F A E T)))
  | 0, _ => none
  | queries + 1, searchSeq =>
    match loadLatestStageSnapshotBeforeSequence searchSeq with
    | .error e => some (.error e)
    | .ok none => some (.ok none)
    | .ok (some snapshot) =>
      if snapshot.hasHavanaGrid then some (.ok (some snapshot))
      else
        let prevSeq := snapshot.sequenceNr.getD 0
        if prevSeq ≤ 0 then some (.ok none)
        else findLatestHavanaSnapshotBeforeSequence loadLatestStageSnapshotBeforeSequence queries
          prevSeq

/-! ## The stages with a grid -/

section

variable (decoders : Decoders F A E T) (table : StageSnapshotTable F) (runId : Int)

/-- The search over the table. -/
def search (queries : Nat) (sequenceNr : Int) :
    Option (Except StoreError (Option (RunStageSnapshot F A E T))) :=
  findLatestHavanaSnapshotBeforeSequence
    (getLatestStageSnapshotBeforeSequence decoders table runId) queries sequenceNr

/-- The snapshot is one of the run's queue-empty stages with the number, and has a grid. -/
def GridStage (n : Int) (snapshot : RunStageSnapshot F A E T) : Prop :=
  ∃ row, table.At runId n row ∧ row.tryInto decoders = .ok snapshot ∧ snapshot.hasHavanaGrid

/-- The greatest positive sequence number before the given one with a grid. -/
structure GreatestGrid (sequenceNr n : Int) : Prop where
  pos : 0 < n
  lt : n < sequenceNr
  grid : ∃ snapshot, GridStage decoders table runId n snapshot
  greatest : ∀ m, n < m → m < sequenceNr → ∀ snapshot, ¬ GridStage decoders table runId m snapshot

/-- The search ends, and finds the stage with the grid where there is one. -/
def Complete (sequenceNr : Int) : Prop :=
  (∃ queries, (search decoders table runId queries sequenceNr).isSome) ∧
    ∀ n, GreatestGrid decoders table runId sequenceNr n → ∃ queries snapshot,
      search decoders table runId queries sequenceNr = some (.ok (some snapshot)) ∧
        GridStage decoders table runId n snapshot

/-- The stage saved last with the number has the grid, and the ones saved last with a number
after it can be read. -/
def LastSavedHolds (sequenceNr n : Int) : Prop :=
  (∃ row snapshot, table.LastAt runId n row ∧ row.tryInto decoders = .ok snapshot ∧
      snapshot.hasHavanaGrid) ∧
    ∀ m row, n < m → m < sequenceNr → table.LastAt runId m row →
      ∃ snapshot, row.tryInto decoders = .ok snapshot

end

variable {decoders : Decoders F A E T} {table : StageSnapshotTable F} {runId sequenceNr n : Int}

/-! ## One query -/

/-- One turn of the loop, on the row that is read. -/
theorem search_succ {row : RunStageSnapshotRow F} {snapshot : RunStageSnapshot F A E T}
    {queries : Nat} (hquery : getLatestStageSnapshotBeforeSequence decoders table runId sequenceNr =
      (row.tryInto decoders).map some) (hread : row.tryInto decoders = .ok snapshot) :
    search decoders table runId (queries + 1) sequenceNr =
      if snapshot.hasHavanaGrid then some (.ok (some snapshot))
      else if row.sequenceNr.getD 0 ≤ 0 then some (.ok none)
      else search decoders table runId queries (row.sequenceNr.getD 0) := by
  rw [hread] at hquery
  simp only [search, findLatestHavanaSnapshotBeforeSequence]
  rw [hquery]
  simp only [Except.map]
  rw [RunStageSnapshotRow.tryInto_sequenceNr hread]

/-- The search ends: the number it searches before decreases and stays positive. -/
theorem search_isSome (decoders : Decoders F A E T) (table : StageSnapshotTable F) (runId : Int) :
    ∀ (queries : Nat) (sequenceNr : Int), sequenceNr.toNat < queries →
      (search decoders table runId queries sequenceNr).isSome := by
  intro queries
  induction queries with
  | zero => intro sequenceNr h; omega
  | succ queries ih =>
    intro sequenceNr h
    rcases StageSnapshotTable.getLatestStageSnapshotBeforeSequence_cases decoders table runId
        sequenceNr with ⟨hquery, -⟩ | ⟨row, hrow, hquery⟩
    · simp [search, findLatestHavanaSnapshotBeforeSequence, hquery]
    · cases hread : row.tryInto decoders with
      | error e =>
        rw [hread] at hquery
        simp [search, findLatestHavanaSnapshotBeforeSequence, hquery, Except.map]
      | ok snapshot =>
        rw [search_succ hquery hread]
        split
        · rfl
        · split
          · rfl
          · rename_i hprev
            apply ih
            cases hn : row.sequenceNr with
            | none => rw [hn] at hprev; simp at hprev
            | some n =>
              have hlt := (hrow.lastAt hn).1
              rw [hn, Option.getD_some] at hprev
              rw [Option.getD_some]
              omega

theorem GreatestGrid.before {m : Int} (h : GreatestGrid decoders table runId sequenceNr n)
    (hnm : n < m) (hm : m < sequenceNr) : GreatestGrid decoders table runId m n where
  pos := h.pos
  lt := hnm
  grid := h.grid
  greatest := fun k hnk hkm => h.greatest k hnk (hkm.trans hm)

theorem LastSavedHolds.before {m : Int} (h : LastSavedHolds decoders table runId sequenceNr n)
    (hm : m < sequenceNr) : LastSavedHolds decoders table runId m n :=
  ⟨h.1, fun k row hnk hkm => h.2 k row hnk (hkm.trans hm)⟩

/-- Where the stage saved last holds the grid, the search reaches it. -/
theorem search_finds (queries : Nat) :
    ∀ sequenceNr : Int, sequenceNr.toNat < queries →
      GreatestGrid decoders table runId sequenceNr n →
      LastSavedHolds decoders table runId sequenceNr n →
      ∃ snapshot, search decoders table runId queries sequenceNr = some (.ok (some snapshot)) ∧
        GridStage decoders table runId n snapshot := by
  induction queries with
  | zero => intro sequenceNr h; omega
  | succ queries ih =>
    intro sequenceNr hqueries hgreatest hlast
    obtain ⟨_, gridRow, hat, -, -⟩ := hgreatest.grid
    rcases StageSnapshotTable.getLatestStageSnapshotBeforeSequence_cases decoders table runId
        sequenceNr with ⟨-, hnone⟩ | ⟨row, hrow, hquery⟩
    · exact absurd (StageSnapshotTable.isBefore_of_at hat hgreatest.lt) (hnone gridRow hat.mem)
    · obtain ⟨m, hm, hnm⟩ := hrow.at_le hat hgreatest.lt
      obtain ⟨hlt, hlastAt⟩ := hrow.lastAt hm
      rcases lt_or_eq_of_le hnm with hnm | rfl
      · -- a stage without a grid: the search goes on before its number
        obtain ⟨snapshot, hread⟩ := hlast.2 m row hnm hlt hlastAt
        have hno : ¬ snapshot.hasHavanaGrid := fun hgrid =>
          hgreatest.greatest m hnm hlt snapshot ⟨row, hlastAt.toAt, hread, hgrid⟩
        have hpos := hgreatest.pos
        rw [search_succ hquery hread, if_neg hno, hm, Option.getD_some, if_neg (by omega)]
        exact ih m (by omega) (hgreatest.before hnm hlt) (hlast.before hlt)
      · obtain ⟨last, snapshot, hlastRow, hread, hgrid⟩ := hlast.1
        obtain rfl := hlastAt.unique hlastRow
        refine ⟨snapshot, ?_, row, hlastAt.toAt, hread, hgrid⟩
        rw [search_succ hquery hread, if_pos hgrid]

/-- A stage that the search returns was saved last, and so were those it went past. -/
theorem lastSavedHolds_of_search (queries : Nat) {snapshot : RunStageSnapshot F A E T}
    (hstage : GridStage decoders table runId n snapshot) :
    ∀ sequenceNr : Int,
      search decoders table runId queries sequenceNr = some (.ok (some snapshot)) →
      LastSavedHolds decoders table runId sequenceNr n := by
  induction queries with
  | zero => intro sequenceNr h; cases h
  | succ queries ih =>
    intro sequenceNr h
    rcases StageSnapshotTable.getLatestStageSnapshotBeforeSequence_cases decoders table runId
        sequenceNr with ⟨hquery, -⟩ | ⟨row, hrow, hquery⟩
    · rw [search, findLatestHavanaSnapshotBeforeSequence, hquery] at h
      cases h
    · cases hread : row.tryInto decoders with
      | error e =>
        rw [hread] at hquery
        rw [search, findLatestHavanaSnapshotBeforeSequence, hquery] at h
        cases h
      | ok stage =>
        rw [search_succ hquery hread] at h
        split at h
        · rename_i hgrid
          cases h
          obtain ⟨gridRow, hat, hgridRead, -⟩ := hstage
          have hn : row.sequenceNr = some n := by
            rw [← RunStageSnapshotRow.tryInto_sequenceNr hread,
              RunStageSnapshotRow.tryInto_sequenceNr hgridRead, hat.sequence]
          refine ⟨⟨row, snapshot, (hrow.lastAt hn).2, hread, hgrid⟩, fun m other hnm hm hother => ?_⟩
          obtain ⟨k, hk, hmk⟩ := hrow.at_le hother.toAt hm
          rw [hn] at hk
          cases hk
          omega
        · split at h
          · cases h
          · rename_i hprev
            cases hm : row.sequenceNr with
            | none =>
              rw [hm] at hprev
              exact absurd (le_refl _) hprev
            | some m =>
              rw [hm, Option.getD_some] at h
              have hlast := ih m h
              refine ⟨hlast.1, fun k other hnk hk hother => ?_⟩
              obtain ⟨_, hk', hkm⟩ := hrow.at_le hother.toAt hk
              rw [hm] at hk'
              cases hk'
              rcases lt_or_eq_of_le hkm with hkm | rfl
              · exact hlast.2 k other hnk hkm hother
              · obtain rfl := hother.unique (hrow.lastAt hm).2
                exact ⟨stage, hread⟩

/-- The search always ends. It finds the grid at the greatest sequence number that has one if
and only if the stage saved last with that number holds it and the stages saved last after it
can be read. -/
theorem find_latest_havana_snapshot (decoders : Decoders F A E T) (table : StageSnapshotTable F)
    (runId sequenceNr : Int) :
    (search decoders table runId (sequenceNr.toNat + 1) sequenceNr).isSome ∧
    (Complete decoders table runId sequenceNr ↔
      ∀ n, GreatestGrid decoders table runId sequenceNr n →
        LastSavedHolds decoders table runId sequenceNr n) := by
  have hends := search_isSome decoders table runId (sequenceNr.toNat + 1) sequenceNr (by omega)
  refine ⟨hends, ?_, ?_⟩
  · rintro ⟨-, hfinds⟩ n hgreatest
    obtain ⟨queries, snapshot, hsearch, hstage⟩ := hfinds n hgreatest
    exact lastSavedHolds_of_search queries hstage sequenceNr hsearch
  · intro hlast
    refine ⟨⟨_, hends⟩, fun n hgreatest => ?_⟩
    obtain ⟨snapshot, hsearch, hstage⟩ := search_finds (sequenceNr.toNat + 1) sequenceNr
      (by omega) hgreatest (hlast n hgreatest)
    exact ⟨_, snapshot, hsearch, hstage⟩

/-! ## Two stages with one sequence number -/

/-- A saved sampler read from its JSON, without the parameters of its configuration. -/
def savedSamplerOfJson (payload : Json Int) : Except String (SavedSampler Int) :=
  match (payload.get "version").asU64, ((payload.get "config").get "kind").asStr with
  | some version, some kind =>
    if kind = "havana_training" then
      .ok { version, config := ⟨.havanaTraining⟩, state := payload.get "state" }
    else if kind = "naive_monte_carlo" then
      .ok { version, config := ⟨.naiveMonteCarlo⟩, state := payload.get "state" }
    else .error ("unknown variant " ++ kind)
  | _, _ => .error "missing field"

/-- The other columns of the two stages are empty. -/
def plainDecoders : Decoders Int Unit Unit Unit where
  savedSampler := savedSamplerOfJson
  accumulatorState := fun _ => .ok ()
  evaluatorConfig := fun _ => .ok ()
  batchTransforms := fun _ => .ok []
  protocol := fun message => "encountered unexpected or invalid data: " ++ message

def samplerJson (kind : String) (state : Json Int) : Json Int :=
  .object [("config", .object [("kind", .string kind)]), ("state", state),
    ("version", .number (.posInt 5))]

def stageRow (id : Int) (name : String) (sampler : Json Int) : RunStageSnapshotRow Int where
  id := id
  runId := 7
  taskId := none
  name := name
  sequenceNr := some 1
  queueEmpty := true
  samplerSnapshot := some sampler
  observableState := none
  evaluator := none
  batchTransforms := .array []

/-- A trained grid, and after it a stage without one at the same sequence number. -/
def siblings : StageSnapshotTable Int where
  rows := [stageRow 1 "training" (samplerJson "havana_training" (.object [("grid", .array [])])),
    stageRow 2 "plain" (samplerJson "naive_monte_carlo" (.object [("seed", .null)]))]
  keys := by decide

/-- The search before sequence number 2 reads the stage without a grid, goes on before sequence
number 1 and misses the trained grid. -/
theorem siblings_missed :
    (search plainDecoders siblings 7 2 2).map (·.toOption.map (·.isSome)) = some (some false) ∧
      ¬ Complete plainDecoders siblings 7 2 := by
  refine ⟨by decide, fun h => ?_⟩
  have hgreatest : GreatestGrid plainDecoders siblings 7 2 1 :=
    ⟨by decide, by decide, ⟨_, stageRow 1 "training" _, ⟨List.mem_cons_self, rfl, rfl, rfl⟩, rfl,
      by decide⟩, fun m hm hlt => by omega⟩
  obtain ⟨queries, snapshot, hsearch, hstage⟩ := h.2 1 hgreatest
  obtain ⟨⟨row, last, hlast, hread, hgrid⟩, -⟩ :=
    lastSavedHolds_of_search queries hstage 2 hsearch
  have hle := hlast.last (stageRow 2 "plain" _)
    ⟨List.mem_cons_of_mem _ List.mem_cons_self, rfl, rfl, rfl⟩
  rcases List.mem_pair.1 hlast.mem with rfl | rfl
  · exact absurd hle (by decide)
  · cases hread
    exact absurd hgrid (by decide)

end Gammaboard.Runners
