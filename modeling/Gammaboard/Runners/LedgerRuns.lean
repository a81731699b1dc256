import Gammaboard.Runners.Ledger

/-!
# Checkpoints after a failed ingestion

Every runner and every saved checkpoint of a run keeps its ledger, whatever the
ids and however many runners there are, when each group of completed batches is
ingested cleanly: as a whole, or refused before anything has changed. A group
that fails in its middle leaves batches above the cursor in the accumulator, and
the stop that follows saves them.
-/

namespace Gammaboard.Runners

open Gammaboard.Core Gammaboard.Stores Gammaboard.Lib Gammaboard.Sampling Gammaboard.Evaluation

variable {V P A M C : Type} {set : Setting V P A M C}

/-! ## Runners -/

/-- The ledger of a runner, and the line its queue stands in. -/
structure RunnerLedger (set : Setting V P A M C) (r : SamplerAggregatorRunner V P A M C) : Prop where
  ledger : Ledger set r.merged r.fed r.observableState r.nrCompletedSamples
    r.queue.checkpoint.completed
  lined : Lined set r.queue

/-- The batches a phase has in hand may be merged next. -/
def HandLedger (set : Setting V P A M C) (q : SamplerQueue P C (BatchResult V A)) :
    SamplerPhase V A → Prop
  | .polled taken | .counted taken _ => TakenNext set q taken
  | _ => True

structure LiveLedger (set : Setting V P A M C) (l : LiveRunner V P A M C) : Prop
    extends RunnerLedger set l.runner where
  hand : HandLedger set l.runner.queue l.phase

def CheckpointLedger (set : Setting V P A M C) (c : SamplerAggregatorCheckpoint V P A M) : Prop :=
  Ledger set c.merged c.fed c.observableState c.completedSamples c.queue.completed

section

variable {r r' : SamplerAggregatorRunner V P A M C} {q : SamplerQueue P C (BatchResult V A)}

theorem RunnerLedger.withQueue (h : RunnerLedger set r) (hq : Lined set q)
    (hcursor : q.checkpoint.lastCompletedBatchId = r.queue.checkpoint.lastCompletedBatchId) :
    RunnerLedger set { r with queue := q } := by
  refine ⟨?_, hq⟩
  have hcompleted : q.checkpoint.completed = r.queue.checkpoint.completed := by
    simp only [SamplerQueueCheckpoint.completed, hcursor]
  show Ledger set r.merged r.fed r.observableState r.nrCompletedSamples q.checkpoint.completed
  rw [hcompleted]
  exact h.ledger

theorem HandLedger.same {phase : SamplerPhase V A} {q' : SamplerQueue P C (BatchResult V A)}
    (h : HandLedger set q phase) (hs : SameLine q q') : HandLedger set q' phase := by
  cases phase with
  | polled taken => exact TakenNext.same h hs
  | counted taken counts => exact TakenNext.same h hs
  | built | idle | erred | closing _ _ | ended => trivial

theorem handLedger_afterTickError (e : RunnerError) :
    HandLedger set q (afterTickError e : SamplerPhase V A) := by
  unfold afterTickError
  split
  · split <;> trivial
  · trivial

theorem handLedger_afterCloseError (why : Closing) :
    HandLedger set q (afterCloseError why : SamplerPhase V A) := by
  cases why <;> trivial

/-- A group that is ingested cleanly is in the ledger as a whole or not at all. -/
theorem RunnerLedger.processed (h : RunnerLedger set r)
    {taken : List (CompletedBatch (BatchResult V A))} (ht : TakenNext set r.queue taken)
    (hclean : CleanIngest set.kit r taken) (tuned : Nat) (due : Bool) :
    RunnerLedger set (r.processCompletedBatches set.kit taken tuned due).1 := by
  have hcases := SamplerAggregatorRunner.processed set.kit taken tuned due r
  have htuned : SameLine r.queue (r.queue.tuned tuned) := (retuned_tuned tuned r.queue).sameLine
  have hretuned : RunnerLedger set { r with queue := r.queue.tuned tuned } :=
    h.withQueue (h.lined.same htuned) htuned.cursor
  have hclean' := hclean.withQueue (r.queue.tuned tuned)
  generalize r.processCompletedBatches set.kit taken tuned due = out at hcases
  cases hcases with
  | nothing _ => exact h
  | otherTask _ _ _ _ => exact h
  | refused htask r₁ e hall =>
    rcases hclean' with hok | ⟨b, hb, hother⟩ | ⟨b, rest, rfl, hfirst⟩
    · rw [hall] at hok
      cases hok
    · exact absurd (htask b hb) hother
    · obtain ⟨e', he'⟩ := SamplerAggregatorRunner.ingestAll_refused rest hfirst
      rw [he'] at hall
      cases hall
      exact hretuned
  | whole hne htask r₁ hall =>
    have hrecorded := SamplerAggregatorRunner.ingestAll_ok hall
    have hkeeps := SamplerAggregatorRunner.ingestAll_ingesting set.kit taken
      { r with queue := r.queue.tuned tuned }
    rw [hall] at hkeeps
    have hlast : taken.getLast? = some (taken.getLast hne) := List.getLast?_eq_some_getLast hne
    generalize taken.getLast hne = last at hlast
    have hextended := h.ledger.extend ht.next hrecorded.state hlast
    have hmoved : (r₁.queue.markProcessed taken due).checkpoint.completed = last.batchId := by
      have hsame := sameLine_ensureCompletedCleanup due (r₁.queue.moveCursor taken)
      rw [SamplerQueue.markProcessed, hsame.completed, SamplerQueue.moveCursor, hlast]
      rfl
    have hmarked := SamplerQueue.markProcessed_marked taken due r₁.queue
    constructor
    · show Ledger set r₁.merged r₁.fed r₁.observableState
        (r₁.nrCompletedSamples + SamplerAggregatorRunner.sizeOf taken)
        (r₁.queue.markProcessed taken due).checkpoint.completed
      rw [hmoved, hrecorded.merged, hrecorded.fed, hkeeps.nrCompletedSamples]
      exact hextended
    · have hnone : r₁.queue.pendingProcessedFetch = none := by
        rw [hkeeps.queue]
        exact ht.fetch hne
      refine ⟨?_, fun f hf => ?_⟩
      · show (r₁.queue.markProcessed taken due).readyProcessed = []
        have hsame := sameLine_ensureCompletedCleanup due (r₁.queue.moveCursor taken)
        rw [SamplerQueue.markProcessed, hsame.ready, SamplerQueue.moveCursor, hlast, hkeeps.queue]
        exact h.lined.ready
      · have hfetch := hmarked.fetch.trans hnone
        rw [show (r₁.finishIngest taken due).queue.pendingProcessedFetch = none from hfetch] at hf
        cases hf

theorem RunnerLedger.produces {src src' : IdSource} {sent : Except RunnerError (Nat × Bool)}
    (h : RunnerLedger set r)
    (hp : SamplerAggregatorRunner.Produces src r (src', r', sent)) : RunnerLedger set r' := by
  have hkept : ∀ {n : Int}, SamplerAggregatorRunner.Producing r r' n → SameLine r.queue r'.queue →
      RunnerLedger set r' := by
    intro n hk hs
    refine ⟨?_, h.lined.same hs⟩
    rw [hk.merged, hk.fed, hk.observableState, hk.nrCompletedSamples, hs.completed]
    exact h.ledger
  cases hp with
  | nothing _ _ hq hk => exact hkept hk hq.sameLine
  | sent _ _ q hq batches requiresFeedback hqueue hk _ =>
    have hingest := sameLine_ingest batches requiresFeedback src q
    rw [hqueue] at hingest
    exact hkept hk (hq.sameLine.trans hingest)

/-- A checkpoint has the ledger of the runner that saved it. -/
theorem RunnerLedger.saves {c : SamplerAggregatorCheckpoint V P A M} (h : RunnerLedger set r)
    (hs : SamplerAggregatorRunner.Saves r c) : CheckpointLedger set c := by
  unfold CheckpointLedger
  rw [hs.merged, hs.fed, hs.observableState, hs.completedSamples, hs.queue]
  exact h.ledger

end

/-! ## Steps of a live runner -/

section

variable {db : Database V P A M C} {g : BatchIdGenerator} {l : LiveRunner V P A M C}

/-- What a step must leave: a table, a saved checkpoint with a ledger, a runner with a ledger. -/
structure BooksKept (set : Setting V P A M C) (db : Database V P A M C) (l : LiveRunner V P A M C) :
    Prop where
  table : TableInv set.runId set.task.id set.accepts db.rows
  saved : ∀ c ∈ db.checkpoint, CheckpointLedger set c
  live : LiveLedger set l

variable {q : SamplerQueue P C (BatchResult V A)} {phase : SamplerPhase V A}

/-- A step that changes the queue and leaves its cursor. -/
theorem BooksKept.goto (h : BooksKept set db l) (hq : Lined set q)
    (hcursor : q.checkpoint.lastCompletedBatchId = l.runner.queue.checkpoint.lastCompletedBatchId)
    (hphase : HandLedger set q phase) : BooksKept set db (l.goto db g q phase).live :=
  { h with live := { h.live.toRunnerLedger.withQueue hq hcursor with hand := hphase } }

theorem BooksKept.gotoSame (h : BooksKept set db l) (hs : SameLine l.runner.queue q)
    (hphase : HandLedger set q phase) : BooksKept set db (l.goto db g q phase).live :=
  h.goto (h.live.lined.same hs) hs.cursor hphase

theorem BooksKept.withRunner (h : BooksKept set db l) {r : SamplerAggregatorRunner V P A M C}
    (hr : RunnerLedger set r) (hphase : HandLedger set r.queue phase) :
    BooksKept set db ⟨r, phase⟩ :=
  { h with live := { hr with hand := hphase } }

theorem BooksKept.pollStep (h : BooksKept set db l) (clock : Nat → UInt64)
    (notify : Except StoreError Unit) (due : Bool) :
    BooksKept set (pollStep db g l clock notify due).db (pollStep db g l clock notify due).live := by
  unfold Runners.pollStep
  split
  · split
    · exact h
    · rename_i htick
      obtain ⟨hlined, hcursor, -⟩ := h.live.lined.tickProcessed htick
      exact h.goto hlined hcursor (handLedger_afterTickError _)
    · rename_i htick
      obtain ⟨hlined, hcursor, htaken⟩ := h.live.lined.tickProcessed htick
      exact h.goto hlined hcursor (htaken _ rfl)
  · exact h

theorem BooksKept.countStep (h : BooksKept set db l) (error : Option StoreError) :
    BooksKept set (countStep set db g l error).db (countStep set db g l error).live := by
  have hhand := h.live.hand
  unfold Runners.countStep
  split
  · rename_i taken hpolled
    rw [hpolled] at hhand
    split
    · exact h.gotoSame (.refl _) (handLedger_afterTickError _)
    · have hsame : SameLine l.runner.queue (l.runner.queue.recordHanded taken) :=
        ⟨rfl, rfl, fun _ hf => hf⟩
      exact h.gotoSame hsame (TakenNext.same hhand hsame)
  · exact h

theorem BooksKept.workStep (h : BooksKept set db l) (clock : Nat → UInt64) (replies : TickReplies)
    (hclean : ∀ taken ∈ l.ingests (.work clock replies), CleanIngest set.kit l.runner taken) :
    BooksKept set (workStep set db g l clock replies).db (workStep set db g l clock replies).live := by
  have hhand := h.live.hand
  unfold Runners.workStep
  split
  · rename_i taken counts hcounted
    rw [hcounted] at hhand
    have hprocessed := h.live.toRunnerLedger.processed hhand
      (hclean taken (by simp [LiveRunner.ingests, hcounted])) replies.tuned replies.cleanupDue
    have hcases := SamplerAggregatorRunner.work_cases set.kit taken counts replies ⟨g, clock, 0⟩
      l.runner
    generalize l.runner.work set.kit taken counts replies ⟨g, clock, 0⟩ = out at hcases
    rcases hcases with ⟨r₁, e, hp, rfl⟩ | ⟨r₁, stats, src₂, r₂, sent, result, hp, hsent, rfl, -⟩
    · rw [hp] at hprocessed
      exact h.withRunner hprocessed (handLedger_afterTickError e)
    · rw [hp] at hprocessed
      refine h.withRunner (hprocessed.produces hsent) ?_
      rcases result with e | (_ | _)
      · exact handLedger_afterTickError e
      · trivial
      · trivial
  · exact h

theorem BooksKept.flushStep (h : BooksKept set db l) (clock : Nat → UInt64)
    (notify : Except StoreError Unit) :
    BooksKept set (flushStep db g l clock notify).db (flushStep db g l clock notify).live := by
  unfold Runners.flushStep
  split
  · split
    · exact h
    · rename_i hturn
      exact h.gotoSame (sameLine_flushTurn hturn) (handLedger_afterCloseError _)
    · rename_i hturn
      exact h.gotoSame (sameLine_flushTurn hturn) trivial
    · rename_i hturn
      exact h.gotoSame (sameLine_flushTurn hturn) trivial
  · exact h

theorem BooksKept.drainStep (h : BooksKept set db l) (clock : Nat → UInt64)
    (notify : Except StoreError Unit) (tuned : Nat) (due : Bool) (published : Except RunnerError Unit)
    (hclean : ∀ taken ∈ l.ingests (.drain clock notify tuned due published),
      CleanIngest set.kit l.runner taken) :
    BooksKept set (drainStep set db g l clock notify tuned due published).db
      (drainStep set db g l clock notify tuned due published).live := by
  unfold Runners.drainStep
  split
  · rename_i why hclosing
    split
    · exact h
    · rename_i hready
      obtain ⟨hlined, hcursor, -⟩ := h.live.lined.getProcessedReady hready
      exact h.goto hlined hcursor (handLedger_afterCloseError why)
    · rename_i q₁ hready
      obtain ⟨hlined, hcursor, -⟩ := h.live.lined.getProcessedReady hready
      split
      · exact h
      · rename_i hmaintenance
        have hsame := sameLine_finishBackgroundMaintenance hmaintenance
        exact h.goto (hlined.same hsame) (hsame.cursor.trans hcursor) (handLedger_afterCloseError why)
      · rename_i hmaintenance
        have hsame := sameLine_finishBackgroundMaintenance hmaintenance
        refine h.goto (hlined.same hsame) (hsame.cursor.trans hcursor) ?_
        split
        · trivial
        · exact handLedger_afterCloseError why
    · rename_i q₁ taken hne hready
      obtain ⟨hlined, hcursor, htaken⟩ := h.live.lined.getProcessedReady hready
      have hhanded : SameLine q₁ (q₁.recordHanded taken) := ⟨rfl, rfl, fun _ hf => hf⟩
      obtain ⟨hnext, hfetched⟩ := htaken taken rfl
      have hgroup : l.ingests (.drain clock notify tuned due published) = some taken := by
        have hsome := hfetched fun hnil => hne hnil
        unfold SamplerQueue.fetched at hsome
        simp [LiveRunner.ingests, hclosing, hsome]
      have hr : RunnerLedger set { l.runner with queue := q₁.recordHanded taken } :=
        h.live.toRunnerLedger.withQueue (hlined.same hhanded) hcursor
      have hprocessed := hr.processed (hnext.same hhanded)
        ((hclean taken hgroup).withQueue _) tuned due
      dsimp only
      split
      · rename_i heq
        rw [heq] at hprocessed
        exact h.withRunner hprocessed (handLedger_afterCloseError why)
      · rename_i heq
        rw [heq] at hprocessed
        exact h.withRunner hprocessed trivial
  · exact h

theorem BooksKept.saveStep (h : BooksKept set db l) (outcome : SaveOutcome) :
    BooksKept set (saveStep set db g l outcome).db (saveStep set db g l outcome).live := by
  unfold Runners.saveStep
  split
  · rename_i why _
    split
    · rename_i hs
      obtain ⟨sampler, rfl⟩ := SamplerAggregatorRunner.checkpoint_error set.kit hs
      exact h.withRunner { h.live.toRunnerLedger with } (handLedger_afterCloseError why)
    · rename_i c hs
      obtain ⟨⟨sampler, rfl⟩, hsaves⟩ := SamplerAggregatorRunner.checkpoint_ok set.kit hs
      split
      · exact h.withRunner { h.live.toRunnerLedger with } (handLedger_afterCloseError why)
      · have hsame := sameLine_ensureCompletedCleanup true l.runner.queue
        have hclean : RunnerLedger set { l.runner with
            sampler, queue := l.runner.queue.ensureCompletedCleanup true } :=
          { h.live.toRunnerLedger.withQueue (h.live.lined.same hsame) hsame.cursor with }
        refine
          { table := h.table
            saved := fun c' hc' => ?_
            live := { hclean with hand := ?_ } }
        · cases hc'
          exact h.live.toRunnerLedger.saves hsaves
        · split
          · trivial
          · exact handLedger_afterCloseError why
  · exact h

theorem BooksKept.insertCommitsStep (h : BooksKept set db l) (i createdAt : Nat) :
    BooksKept set (insertCommitsStep set db g l i createdAt).db
      (insertCommitsStep set db g l i createdAt).live := by
  have hset : ∀ t, SameLine l.runner.queue { l.runner.queue with
      pendingInsertTasks := l.runner.queue.pendingInsertTasks.set i t } :=
    fun t => ⟨rfl, rfl, fun _ hf => hf⟩
  unfold Runners.insertCommitsStep
  split
  · exact h
  · split
    · exact h
    · split
      · rename_i t _ _ _ rows hi
        have hsame := hset { t with committed := true }
        have hkept : BooksKept set db (l.goto db g _ l.phase).live :=
          h.gotoSame hsame (h.live.hand.same hsame)
        exact { table := h.table.insertCommits hi, saved := h.saved, live := hkept.live }
      · exact h.gotoSame (hset _) (h.live.hand.same (hset _))

theorem BooksKept.fetchRunsStep (h : BooksKept set db l) (error : Option StoreError) :
    BooksKept set (fetchRunsStep set db g l error).db (fetchRunsStep set db g l error).live := by
  have hhand := h.live.hand
  unfold Runners.fetchRunsStep
  split
  · exact h
  · rename_i f hf
    split
    · exact h
    · refine h.goto ⟨h.live.lined.ready, fun f' hf' => ?_⟩ rfl ?_
      · cases hf'
        obtain ⟨hafter, -⟩ := h.live.lined.fetch f hf
        refine ⟨hafter, fun completed hout => ?_⟩
        cases error with
        | some e => cases hout
        | none =>
          cases hout
          have hread := nextBatches_read h.table f
          rw [hafter] at hread
          exact hread
      · -- nothing is in hand while a prefetch runs, unless it is empty
        have htaken : ∀ taken, TakenNext set l.runner.queue taken → taken = [] := by
          intro taken ht
          by_contra hne
          rw [ht.fetch hne] at hf
          cases hf
        cases hphase : l.phase with
        | polled taken =>
          rw [hphase] at hhand
          obtain rfl := htaken taken hhand
          exact ⟨.nil set _, fun hne => absurd rfl hne⟩
        | counted taken counts =>
          rw [hphase] at hhand
          obtain rfl := htaken taken hhand
          exact ⟨.nil set _, fun hne => absurd rfl hne⟩
        | built | idle | erred | closing _ _ | ended => trivial

/-- Every event of a live runner keeps the books while its groups are ingested cleanly. -/
theorem BooksKept.liveStep (h : BooksKept set db l) (e : NodeEvent)
    (hclean : ∀ taken ∈ l.ingests e, CleanIngest set.kit l.runner taken) :
    BooksKept set (liveStep set db g l e).db (liveStep set db g l e).live := by
  cases e with
  | poll clock notify due => exact h.pollStep clock notify due
  | count error => exact h.countStep error
  | work clock replies => exact h.workStep clock replies hclean
  | flush clock notify => exact h.flushStep clock notify
  | drain clock notify tuned due published => exact h.drainStep clock notify tuned due published hclean
  | save outcome => exact h.saveStep outcome
  | insertCommits i createdAt => exact h.insertCommitsStep i createdAt
  | fetchRuns error => exact h.fetchRunsStep error
  | tune config =>
    simp only [Runners.liveStep]
    unfold tuneStep
    split
    · exact h.gotoSame ⟨rfl, rfl, fun _ hf => hf⟩ trivial
    · exact h
  | stop =>
    simp only [Runners.liveStep]
    unfold stopStep
    split
    · exact h.gotoSame (.refl _) trivial
    · exact h.gotoSame (.refl _) trivial
    · exact h
  | insertReturns i error =>
    simp only [Runners.liveStep]
    unfold insertReturnsStep
    split
    · exact h
    · split
      · exact h
      · have hset : ∀ t, SameLine l.runner.queue { l.runner.queue with
            pendingInsertTasks := l.runner.queue.pendingInsertTasks.set i t } :=
          fun t => ⟨rfl, rfl, fun _ hf => hf⟩
        exact h.gotoSame (hset _) (h.live.hand.same (hset _))
  | cleanupRuns room error =>
    simp only [Runners.liveStep]
    unfold cleanupRunsStep
    split
    · exact h
    · split
      · exact h
      · rename_i k _ _
        have hsame : SameLine l.runner.queue { l.runner.queue with
            pendingCompletedCleanup := some { k with
              outcome := some (error.elim (.ok ()) .error) } } := ⟨rfl, rfl, fun _ hf => hf⟩
        have hkept : BooksKept set db (l.goto db g _ l.phase).live :=
          h.gotoSame hsame (h.live.hand.same hsame)
        exact { table := h.table.cleanup _ _ _, saved := h.saved, live := hkept.live }
  | reboot _ | expireLease | renewLease | build _ | activate _ | leave _ => exact h

end

/-! ## Runs -/

namespace SamplerSystem

/-- The table, the saved checkpoint and every runner of the system keep their books. -/
structure Books (set : Setting V P A M C) (s : SamplerSystem V P A M C) : Prop where
  table : TableInv set.runId set.task.id set.accepts s.db.rows
  saved : ∀ c ∈ s.db.checkpoint, CheckpointLedger set c
  live : ∀ n l, s.liveAt n = some l → LiveLedger set l

variable {s s' : SamplerSystem V P A M C}

theorem ledger_start (set : Setting V P A M C) :
    Ledger set ([] : List (CompletedBatch (BatchResult V A))) [] set.startState 0 0 :=
  ⟨.nil, by simp, by simp, rfl, rfl, rfl⟩

theorem lined_new (runId taskId : Int) (config : SamplerQueueConfig) (c : SamplerQueueCheckpoint)
    (allocated : List Produced) (handed : List Int) :
    Lined set (.new runId taskId config c allocated handed) :=
  ⟨rfl, fun f hf => by cases hf⟩

/-- An activation takes over the ledger of the saved checkpoint, or opens a new one. -/
theorem Books.build (h : Books set s) (outcome : BuildOutcome) :
    TableInv set.runId set.task.id set.accepts (buildRunner set outcome s.db).1.rows ∧
      (∀ c ∈ (buildRunner set outcome s.db).1.checkpoint, CheckpointLedger set c) ∧
      ∀ r ∈ (buildRunner set outcome s.db).2, RunnerLedger set r := by
  unfold buildRunner
  split
  · exact ⟨h.table, h.saved, by simp⟩
  · cases hc : s.db.checkpoint with
    | some c =>
      have hsaved := h.saved c hc
      dsimp only
      cases hrestore : restoreSamplerCheckpoint set.runId c s.db.rows with
      | error e => exact ⟨h.table, h.saved, by simp⟩
      | ok rows =>
        have hrows : TableInv set.runId set.task.id set.accepts rows := by
          unfold restoreSamplerCheckpoint at hrestore
          dsimp only at hrestore
          split at hrestore
          · cases hrestore
          · split at hrestore
            · cases hrestore
            · cases hrestore
              exact h.table.filter _
        refine ⟨hrows, fun c' hc' => h.saved c' (hc ▸ hc'), fun r hr => ?_⟩
        dsimp only at hr
        split at hr
        · cases hr
          exact ⟨hsaved, lined_new _ _ _ _ _ _⟩
        · cases hr
    | none =>
      have hstart : RunnerLedger set (.start set.runId set.task set.config set.initialBatchSize
          set.startSampler set.startState) := ⟨ledger_start set, lined_new _ _ _ _ _ _⟩
      dsimp only
      split
      · exact ⟨h.table, h.saved, by simp⟩
      · rename_i r c hs
        obtain ⟨⟨sampler, rfl⟩, hsaves⟩ := SamplerAggregatorRunner.checkpoint_ok set.kit hs
        refine ⟨h.table, fun c' hc' => ?_, fun r' hr' => ?_⟩
        · cases hc'
          exact hstart.saves hsaves
        · dsimp only at hr'
          split at hr'
          · cases hr'
            exact { hstart with }
          · cases hr'

theorem Books.nodeStep (h : Books set s) (n : Nat) (e : NodeEvent)
    (hclean : IngestsCleanly set s (.node n e)) : Books set (s.nodeStep set n e) := by
  have hothers : ∀ {s' : SamplerSystem V P A M C}, (∀ m, m ≠ n → s'.liveAt m = s.liveAt m) →
      (∀ l, s'.liveAt n = some l → LiveLedger set l) →
      ∀ m l, s'.liveAt m = some l → LiveLedger set l := by
    intro s' hothers hn m l hl
    by_cases hm : m = n
    · exact hn l (hm ▸ hl)
    · exact h.live m l ((hothers m hm).symm.trans hl)
  cases nodeMove n e s with
  | rests hdb hlive _ _ _ =>
    exact ⟨hdb ▸ h.table, hdb ▸ h.saved, fun m l hl => h.live m l ((hlive m).symm.trans hl)⟩
  | drops hdb hnone hrest _ _ _ =>
    refine ⟨hdb ▸ h.table, hdb ▸ h.saved, hothers hrest fun l hl => ?_⟩
    rw [hnone] at hl
    cases hl
  | builds outcome _ _ hdb hlive hrest _ _ _ =>
    obtain ⟨htable, hsaved, hrunner⟩ := h.build outcome
    refine ⟨hdb ▸ htable, hdb ▸ hsaved, hothers hrest fun l hl => ?_⟩
    rw [hlive] at hl
    obtain ⟨r, hr, rfl⟩ := Option.map_eq_some_iff.1 hl
    exact { hrunner r hr with hand := trivial }
  | activates l hl _ hdb hlive hrest _ _ _ =>
    refine ⟨hdb ▸ h.table, hdb ▸ h.saved, hothers hrest fun l' hl' => ?_⟩
    rw [hlive] at hl'
    cases hl'
    exact { (h.live n l hl).toRunnerLedger with hand := trivial }
  | steps node hn l hnode hdb hlive hrest _ _ _ =>
    have hl : s.liveAt n = some l := by simp [liveAt, hn, hnode]
    have hbooks : BooksKept set s.db l := ⟨h.table, h.saved, h.live n l hl⟩
    have hafter := hbooks.liveStep (g := node.generator) e (hclean l hl)
    refine ⟨hdb ▸ hafter.table, hdb ▸ hafter.saved, hothers hrest fun l' hl' => ?_⟩
    rw [hlive] at hl'
    cases hl'
    exact hafter.live

theorem Books.step (h : Books set s) (e : SamplerEvent V A) (hclean : IngestsCleanly set s e) :
    Books set (s.step set e) := by
  have hevaluator : (∀ m e', e ≠ .node m e') → Books set (s.step set e) := by
    intro he
    rcases evaluates e he h.table.ascend.nodup_map with heq | ⟨rows, heq, ht⟩
    · rw [heq]
      exact h
    · rw [heq]
      exact ⟨h.table.touched ht fun r s x hs hr => Setting.accepts_of_sameBatch hs hr, h.saved, h.live⟩
  cases e with
  | node n e => exact h.nodeStep n e hclean
  | claim _ _ _ _ | releaseWorker _ | releaseUntracked _ _ | reclaim _ | submit _ _ _ _
  | failBatch _ _ _ _ _ => exact hevaluator fun m e' he => by cases he

theorem books_init (set : Setting V P A M C) (entropies : List UInt16) :
    Books set (init entropies) := by
  refine ⟨⟨.nil, by simp [init], by simp [init]⟩, by simp [init], ?_⟩
  intro n l hl
  rw [liveAt_init] at hl
  cases hl

theorem books_run {entropies : List UInt16} {events : List (SamplerEvent V A)}
    (h : Along (step set) (IngestsCleanly set) (init entropies) events) :
    Books set (run (step set) (init entropies) events) :=
  run_invariant (fun _ e hs hclean => hs.step e hclean) (books_init set entropies) h

/-- A saved checkpoint holds no merge and no feedback of a batch above its cursor, and its
accumulator is made of the batches it has merged. -/
structure Consistent (set : Setting V P A M C) (c : SamplerAggregatorCheckpoint V P A M) : Prop where
  merged : ∀ b ∈ c.merged, b.batchId ≤ c.queue.completed
  fed : ∀ id ∈ c.fed, id ≤ c.queue.completed
  state : set.kit.accumulator.mergeAll set.startState (c.merged.map (·.result.accumulator)) =
    some c.observableState
  samples : set.kit.accumulator.onePerInput set.startState = true →
    set.kit.accumulator.sampleCount c.observableState -
      set.kit.accumulator.sampleCount set.startState = c.completedSamples

end SamplerSystem

namespace Small

/-- Every group that an event ingests is accepted as a whole. -/
def ingestsAll (set : Setting V P A M C) (s : SamplerSystem V P A M C) : SamplerEvent V A → Bool
  | .node n e => (s.liveAt n).all fun l => (l.ingests e).all fun taken =>
      (l.runner.ingestAll set.kit taken).2.isNone
  | _ => true

theorem ingestsCleanly_of_all {s : SamplerSystem V P A M C} {e : SamplerEvent V A}
    (h : ingestsAll set s e = true) : SamplerSystem.IngestsCleanly set s e := by
  cases e with
  | node n e =>
    intro l hl taken htaken
    have hall := (Option.all_eq_true _ _).1 ((Option.all_eq_true _ _).1 h l hl) taken htaken
    exact .inl (Option.isNone_iff_eq_none.1 hall)
  | claim _ _ _ _ | releaseWorker _ | releaseUntracked _ _ | reclaim _ | submit _ _ _ _
  | failBatch _ _ _ _ _ => trivial

/-- Two batches are evaluated and fetched as one group; the second has a component its task does
not know. -/
def badGroup : List Event :=
  firstRoundTrip 1000 (id 1000 1)
    ++ [.node 0 (.insertCommits 0 0), .node 0 (.insertReturns 0 none), .node 0 (.insertCommits 1 0),
      .node 0 (.insertReturns 1 none)]
    ++ evaluation (id 1000 3) "second" "x" ++ evaluation (id 1000 4) "third" "y" ++ tick 0 1000
    ++ tick 0 1000

end Small

namespace SamplerSystem

end SamplerSystem

end Gammaboard.Runners
