import Gammaboard.Runners.SamplerRuns

/-!
# What is handed over, and when a task is complete

The prefetcher hands the batches of a task to the aggregator in the order of
their ids, each one once and none left out, and a tick that reports the task as
complete has ingested all of them. Both rest on ids that ascend; the second
also on there being no failed batch, which the counters of open work leave out.
-/

namespace Gammaboard.Runners

open Gammaboard.Core Gammaboard.Stores Gammaboard.Lib Gammaboard.Sampling Gammaboard.Evaluation

variable {V P A M C : Type} {set : Setting V P A M C}

/-! ## The order of the batches handed over -/

/-- The ids handed over are the first of all ids given, in ascending order; the cursor has passed
no other id, and a prefetch reads the completed batches that come next, as many as its limit and
its bound allow. -/
structure InOrder (set : Setting V P A M C)
    (rows : List (BatchRow (EvaluationBatch P C) (BatchResult V A)))
    (q : SamplerQueue P C (BatchResult V A)) : Prop where
  sequence : q.handed <+: (q.allocated.map (·.id)).insertionSort (· ≤ ·)
  passed : ∀ p ∈ q.allocated, p.id ≤ q.checkpoint.completed → p.id ∈ q.handed
  reads : ∀ f ∈ q.pendingProcessedFetch, (f.read set.runId set.task.id rows).map (·.produced) =
    (q.ahead.take f.limit).takeWhile fun p =>
      decide (p.id < f.beforeBatchId) && isCompletedRow rows p

theorem LiveInv.handed_eq {rows : List (BatchRow (EvaluationBatch P C) (BatchResult V A))}
    {c : SamplerAggregatorCheckpoint V P A M} {l : LiveRunner V P A M C}
    (h : LiveInv set rows c l) :
    ∃ extra, l.runner.queue.handed = l.runner.queue.passed.map (·.id) ++ extra ∧
      extra <+: l.runner.queue.ahead.map (·.id) := by
  have hphase := h.phase
  have hhanded := h.handed
  cases hl : l.phase with
  | built | idle | polled _ =>
    rw [hl] at hhanded
    exact ⟨[], by rw [List.append_nil]; exact hhanded, List.nil_prefix⟩
  | counted taken counts =>
    rw [hl] at hphase hhanded
    obtain ⟨extra, heq, hprefix, -⟩ := hphase.1.inHand hhanded
    exact ⟨extra, heq, hprefix⟩
  | erred | closing _ _ | ended =>
    rw [hl] at hhanded
    obtain ⟨extra, heq, hprefix, -⟩ := hhanded
    exact ⟨extra, heq, hprefix⟩

theorem LiveSafe.inOrder {db : Database V P A M C} {c : SamplerAggregatorCheckpoint V P A M}
    {l : LiveRunner V P A M C} (h : LiveSafe set db c l) : InOrder set db.rows l.runner.queue := by
  have hascend := h.live.queue.ascend
  obtain ⟨extra, hhanded, hextra⟩ := h.live.handed_eq
  constructor
  case sequence =>
    have hsorted : (l.runner.queue.allocated.map (·.id)).Pairwise (· ≤ ·) :=
      List.pairwise_map.2 (hascend.imp fun hlt => hlt.le)
    have hsplit : l.runner.queue.passed ++ l.runner.queue.ahead = l.runner.queue.allocated :=
      hascend.settled_append_frontier
    rw [hsorted.insertionSort_eq, hhanded, ← hsplit, List.map_append]
    exact (List.prefix_append_right_inj _).2 hextra
  case passed =>
    intro p hp hle
    rw [hhanded]
    exact List.mem_append_left _ (List.mem_map_of_mem (mem_settled.2 ⟨hp, hle⟩))
  case reads => exact fun f hf => h.live.queue.read_eq h.table hf

namespace SamplerSystem

/-- **Ordered completion.** In every run whose runners are built alone and whose ids ascend, every
runner has been handed its batches in order. -/
theorem inOrder_of_idsAscend (set : Setting V P A M C) (entropies : List UInt16)
    (events : List (SamplerEvent V A))
    (h : Along (step set) (fun s e => Exclusive s e ∧ IdsAscend s e) (init entropies) events) :
    ∀ n l, (run (step set) (init entropies) events).liveAt n = some l →
      InOrder set (run (step set) (init entropies) events).db.rows l.runner.queue := by
  intro n l hl
  obtain ⟨m, hm⟩ := holds_run h
  have hsafe := hm.safe
  by_cases hnm : n = m
  · rw [← hnm, hl] at hsafe
    cases hsafe with
    | live c l hlive => exact hlive.inOrder
  · rw [hm.alone n hnm] at hl
    cases hl

open Runners.Small in
theorem inOrder_clockOnward :
    ∃ l, (run (step (setting 3 16)) (init [7]) clockOnward).liveAt 0 = some l ∧
      InOrder (setting 3 16) (run (step (setting 3 16)) (init [7]) clockOnward).db.rows
        l.runner.queue := by
  have hlive : ((run (step (setting 3 16)) (init [7]) clockOnward).liveAt 0).isSome = true := by
    decide +kernel
  obtain ⟨l, hl⟩ := Option.isSome_iff_exists.1 hlive
  exact ⟨l, hl, inOrder_of_idsAscend (setting 3 16) [7] clockOnward (by decide +kernel) 0 l hl⟩

open Runners.Small in
/-- The clock of the restarted process is behind: it gives a batch an id that the cursor has
passed. -/
theorem not_inOrder_clockRollback :
    Along (step (setting 3 16)) Exclusive (init [7]) clockRollback ∧
      ¬ ∀ n l, (run (step (setting 3 16)) (init [7]) clockRollback).liveAt n = some l →
        InOrder (setting 3 16) (run (step (setting 3 16)) (init [7]) clockRollback).db.rows
          l.runner.queue := by
  refine ⟨by decide +kernel, fun h => ?_⟩
  have hskipped : ((run (step (setting 3 16)) (init [7]) clockRollback).liveAt 0).any (fun l =>
      l.runner.queue.allocated.any fun p =>
        decide (p.id ≤ l.runner.queue.checkpoint.completed) &&
          !l.runner.queue.handed.contains p.id) = true := by
    decide +kernel
  obtain ⟨l, hl, hany⟩ := (Option.any_eq_true _ _).1 hskipped
  obtain ⟨p, hp, htest⟩ := List.any_eq_true.1 hany
  simp only [Bool.and_eq_true, decide_eq_true_eq, Bool.not_eq_eq_eq_not, Bool.not_true] at htest
  have hmem := (h 0 l hl).passed p hp htest.1
  rw [← List.contains_iff_mem, htest.2] at hmem
  cases hmem

end SamplerSystem

/-! ## Complete tasks -/

/-- Every batch produced has been ingested, and no draw or feedback is outstanding. -/
structure Drained (r : SamplerAggregatorRunner V P A M C) : Prop where
  ingested : r.queue.passed = r.queue.allocated
  buffered : r.queue.pendingInsert = []
  samples : r.nrCompletedSamples = r.nrProducedSamples
  outstanding : r.runtimeState.generation.hasOutstanding = false

theorem openCount_eq_zero {counts : BatchQueueCounts} {taken produced : Nat}
    (hpending : 0 ≤ counts.pending) (hclaimed : 0 ≤ counts.claimed)
    (hcompleted : (taken : Int) ≤ counts.completed)
    (h : (({ counts with completed := counts.completed - taken } : BatchQueueCounts).openCount
      + produced).toNat = 0) :
    counts.pending = 0 ∧ counts.claimed = 0 ∧ counts.completed = taken ∧ produced = 0 := by
  simp only [BatchQueueCounts.openCount] at h
  omega

/-- What a positive terminal check has seen. -/
theorem SamplerAggregatorRunner.checkTickTerminalState_true {kit : Kit V P A M C}
    {counts : BatchQueueCounts} {completedBatches producedBatches : Nat} {wants : Bool}
    {r : SamplerAggregatorRunner V P A M C}
    (h : checkTickTerminalState kit counts completedBatches producedBatches wants r = .ok true) :
    (counts.openCount + producedBatches).toNat = 0 ∧
      r.runtimeState.generation.hasOutstanding = false := by
  unfold checkTickTerminalState at h
  dsimp only at h
  split at h
  · cases h
  · split at h
    · cases h
    · simp only [Except.ok.injEq, Bool.and_eq_true, beq_iff_eq, Bool.not_eq_eq_eq_not,
        Bool.not_true] at h
      exact ⟨h.1.2, h.2⟩

/-- With everything inserted and no batch sent, production gives no ids. -/
theorem SamplerAggregatorRunner.Produces.rests {src src' : IdSource}
    {r r' : SamplerAggregatorRunner V P A M C} {wants : Bool}
    (h : Produces src r (src', r', .ok (0, wants))) (hq : r.queue.pendingInsert = []) :
    r'.queue.allocated = r.queue.allocated ∧ r'.queue.pendingInsert = [] := by
  generalize hsent : (Except.ok (0, wants) : Except RunnerError (Nat × Bool)) = result at h
  cases h with
  | nothing _ _ hretuned _ =>
    obtain ⟨-, -, -, -, hgiven, -, hbuffer, -, -, -⟩ := hretuned.kept
    exact ⟨hgiven, hbuffer.trans hq⟩
  | sent _ _ q hretuned batches requiresFeedback hqueue _ _ =>
    obtain ⟨-, -, -, -, hgiven, -, hbuffer, -, -, -⟩ := hretuned.kept
    have hnil : batches = [] := by
      simp only [Except.ok.injEq, Prod.mk.injEq] at hsent
      exact List.length_eq_zero_iff.1 hsent.1.symm
    subst hnil
    obtain ⟨hempty, -, hsame⟩ := SamplerQueue.ingest_nil requiresFeedback src (hbuffer.trans hq)
    rw [hqueue] at hempty hsame
    exact ⟨hsame.trans hgiven, hempty⟩

/-- A tick that reports the task as complete has drained it, unless a batch has failed. -/
theorem LiveSafe.drained_iff {db : Database V P A M C} {c : SamplerAggregatorCheckpoint V P A M}
    {l : LiveRunner V P A M C} (h : LiveSafe set db c l) {g : BatchIdGenerator}
    {clock : Nat → UInt64} {replies : TickReplies}
    {taken : List (CompletedBatch (BatchResult V A))} {counts : BatchQueueCounts}
    (hl : l.phase = .counted taken counts)
    (hids : SamplerSystem.NextIdsAscend g l.runner.queue clock)
    (hdone : (l.runner.work set.kit taken counts replies ⟨g, clock, 0⟩).2.2 = .ok true) :
    Drained (l.runner.work set.kit taken counts replies ⟨g, clock, 0⟩).2.1 ↔
      counts.failed = 0 := by
  have hphase := h.live.phase
  rw [hl] at hphase
  obtain ⟨htaken, hcounted⟩ := hphase
  have hgives : Gives g (.work clock replies) l.runner.queue
      (Runners.workStep set db g l clock replies).live.runner.queue := workStep_gives clock replies
  have habove := hgives.idsAbove fun _ hclock => by
    cases hclock
    exact hids
  have hcases := SamplerAggregatorRunner.work_cases set.kit taken counts replies ⟨g, clock, 0⟩
    l.runner
  unfold Runners.workStep at habove
  rw [hl] at habove
  dsimp only at habove
  generalize l.runner.work set.kit taken counts replies ⟨g, clock, 0⟩ = out at hcases hdone habove ⊢
  rcases hcases with ⟨r₁, e, -, rfl⟩ | ⟨r₁, stats, src₂, r₂, sent, result, hp, hsent, rfl, hcheck⟩
  · cases hdone
  obtain ⟨producedBatches, wants, rfl, hterminal⟩ := hcheck hdone
  obtain ⟨hopen, houtstanding⟩ :=
    SamplerAggregatorRunner.checkTickTerminalState_true hterminal
  obtain ⟨hr₁, hprocessed⟩ := h.live.toRunnerInv.processed h.table.ascend htaken _ _ hp
  obtain ⟨hpassed, hahead, hstats⟩ := hprocessed.ok stats rfl
  have hfresh : ∀ new, r₂.queue.allocated = r₁.queue.allocated ++ new → FreshIds r₁.queue new :=
    fun new hnew => (habove.fresh new (hprocessed.allocated ▸ hnew)).transport h.live.queue hr₁.queue
      hprocessed.allocated hprocessed.fetch
  obtain ⟨hr₂, hproduced⟩ := hr₁.produces hsent hfresh
  rw [hstats] at hopen
  obtain ⟨hpending, hclaimed, hcompleted, rfl⟩ :=
    openCount_eq_zero hcounted.pending hcounted.claimed hcounted.completed hopen
  constructor
  · intro hdrained
    by_contra hfailed
    obtain ⟨p, hp, hnot⟩ := hcounted.stuck hfailed
    rw [hahead] at hp
    have hp₁ : p ∈ r₁.queue.ahead := (List.mem_append.1 hp).resolve_left hnot
    have hp₂ : p ∈ r₂.queue.ahead := hproduced.ahead.subset hp₁
    obtain ⟨hgiven, hlt⟩ := mem_frontier.1 hp₂
    rw [← hdrained.ingested] at hgiven
    exact absurd (mem_settled.1 hgiven).2 (not_le.2 hlt)
  · intro hfailed
    obtain ⟨hflushed, hlength⟩ := hcounted.drained hpending hclaimed hfailed
    obtain ⟨hgiven, hbuffer⟩ := hsent.rests (hprocessed.buffer.trans hflushed.buffer)
    have hall : taken.map (·.produced) = l.runner.queue.ahead :=
      htaken.front.isPrefix.eq_of_length (by rw [List.length_map]; omega)
    have hingested : r₂.queue.passed = r₂.queue.allocated := by
      rw [hproduced.passed, hpassed, hall, hgiven, hprocessed.allocated]
      exact h.live.queue.ascend.settled_append_frontier
    refine ⟨hingested, hbuffer, ?_, houtstanding⟩
    have hzero : r₂.queue.bufferedSamples = 0 := by
      simp [SamplerQueue.bufferedSamples, SamplerQueue.sizes, hbuffer]
    rw [hr₂.completed, hr₂.produced, hingested, hzero, add_zero]

namespace SamplerSystem

/-- How node `n` ends its tick: the counters it has read, its runner and its answer. -/
def tickEnd (set : Setting V P A M C) (s : SamplerSystem V P A M C) (n : Nat) (clock : Nat → UInt64)
    (replies : TickReplies) :
    Option (BatchQueueCounts × SamplerAggregatorRunner V P A M C × Except RunnerError Bool) :=
  s.nodes[n]?.bind fun node => node.live.bind fun l =>
    match l.phase with
    | .counted taken counts =>
      some (counts, (l.runner.work set.kit taken counts replies ⟨node.generator, clock, 0⟩).2)
    | _ => none

/-- **Complete tasks are drained.** In every run whose runners are built alone and whose ids
ascend, a tick that reports the task as complete has drained it exactly when its counters show no
failed batch. -/
theorem drained_iff_of_idsAscend (set : Setting V P A M C) (entropies : List UInt16)
    (events : List (SamplerEvent V A)) (n : Nat) (clock : Nat → UInt64) (replies : TickReplies)
    (h : Along (step set) (fun s e => Exclusive s e ∧ IdsAscend s e) (init entropies)
      (events ++ [.node n (.work clock replies)])) :
    ∀ counts r, tickEnd set (run (step set) (init entropies) events) n clock replies =
        some (counts, r, .ok true) →
      (Drained r ↔ counts.failed = 0) := by
  intro counts r hend
  obtain ⟨node, hnode, hend⟩ := Option.bind_eq_some_iff.1 hend
  obtain ⟨l, hl, hend⟩ := Option.bind_eq_some_iff.1 hend
  obtain ⟨hevents, hlast⟩ := (along_append _).1 h
  have hids := hlast.1.2 node hnode l hl clock rfl
  have hat : (run (step set) (init entropies) events).liveAt n = some l := by
    unfold liveAt
    rw [hnode]
    exact hl
  obtain ⟨m, hm⟩ := holds_run hevents
  have hsafe := hm.safe
  split at hend
  · rename_i taken counts' hphase
    simp only [Option.some.injEq, Prod.mk.injEq] at hend
    obtain ⟨rfl, hr⟩ := hend
    by_cases hnm : n = m
    · rw [← hnm, hat] at hsafe
      cases hsafe with
      | live c l hlive =>
        have hiff := hlive.drained_iff hphase hids (by rw [hr])
        rw [hr] at hiff
        exact hiff
    · rw [hm.alone n hnm] at hat
      cases hat
  · cases hend

end SamplerSystem

namespace Small

/-- A task of one batch, up to its last tick. -/
def oneBatch : List Event :=
  activation 0 ++ tick 0 1000 ++ insertion 0 ++ evaluation (id 1000 1) "first" "x" ++ tick 0 1000
    ++ tickBegins 0 1000

/-- A task of two batches, the second of which fails for good, up to its last tick. -/
def failedBatch : List Event :=
  firstRoundTrip 1000 (id 1000 1) ++ insertion 0
    ++ [claim "second", .failBatch (id 1000 3) "uuid" "second" "not finite" 1] ++ tickBegins 0 1000

end Small

namespace SamplerSystem

open Runners.Small in
theorem drained_oneBatch :
    ∃ counts r, tickEnd (setting 1 16) (run (step (setting 1 16)) (init [7]) oneBatch) 0
        (fun _ => 1000) replies = some (counts, r, .ok true) ∧
      (Drained r ↔ counts.failed = 0) := by
  have hend : (tickEnd (setting 1 16) (run (step (setting 1 16)) (init [7]) oneBatch) 0
      (fun _ => 1000) replies).any (fun out => out.2.2.toOption == some true) = true := by
    decide +kernel
  obtain ⟨⟨counts, r, answer⟩, hsome, hdone⟩ := (Option.any_eq_true _ _).1 hend
  cases answer with
  | error e => cases hdone
  | ok done =>
    obtain rfl : done = true := by simpa [Except.toOption] using hdone
    exact ⟨counts, r, hsome, drained_iff_of_idsAscend (setting 1 16) [7] oneBatch 0
      (fun _ => 1000) replies (by decide +kernel) counts r hsome⟩

open Runners.Small in
/-- The task is reported as complete with one of its two batches ingested. -/
theorem not_drained_failedBatch :
    Along (step (setting 1 32)) (fun s e => Exclusive s e ∧ IdsAscend s e) (init [7])
        (failedBatch ++ [.node 0 (.work (fun _ => 1000) replies)]) ∧
      ∃ counts r, tickEnd (setting 1 32) (run (step (setting 1 32)) (init [7]) failedBatch) 0
          (fun _ => 1000) replies = some (counts, r, .ok true) ∧ ¬ Drained r := by
  refine ⟨by decide +kernel, ?_⟩
  have hend : (tickEnd (setting 1 32) (run (step (setting 1 32)) (init [7]) failedBatch) 0
      (fun _ => 1000) replies).any (fun out => (out.2.2.toOption == some true) &&
        decide (out.2.1.nrCompletedSamples ≠ out.2.1.nrProducedSamples)) = true := by
    decide +kernel
  obtain ⟨⟨counts, r, answer⟩, hsome, htest⟩ := (Option.any_eq_true _ _).1 hend
  simp only [Bool.and_eq_true, decide_eq_true_eq] at htest
  obtain ⟨hdone, hsamples⟩ := htest
  cases answer with
  | error e => cases hdone
  | ok done =>
    obtain rfl : done = true := by simpa [Except.toOption] using hdone
    exact ⟨counts, r, hsome, fun h => hsamples h.samples⟩

end SamplerSystem

end Gammaboard.Runners
