import Gammaboard.Runners.SamplerRuns

/-!
# The saved checkpoint can be restored

In every state of a run whose runners are built alone and whose ids ascend, the
saved checkpoint finds its queued work in the table. A runner that is built
while another is left takes rows away from the checkpoint the other will save;
ids that fall below the production boundary are lost to the next recovery.
-/

namespace Gammaboard.Runners

open Gammaboard.Core Gammaboard.Stores Gammaboard.Lib Gammaboard.Sampling Gammaboard.Evaluation

variable {V P A M C : Type}

/-! ## Recovery -/

/-- The rows the checkpoint's runner has produced and not ingested are all there, their samples
are those the recovery expects, and the recovery accepts. -/
structure SamplerAggregatorCheckpoint.Restorable (runId : Int)
    (rows : List (BatchRow (EvaluationBatch P C) (BatchResult V A)))
    (c : SamplerAggregatorCheckpoint V P A M) : Prop where
  present : (queuedRows runId c rows).map (·.produced) = c.allocated.filter fun p =>
    decide (c.queue.completed < p.id) && decide (p.id ≤ c.queue.produced)
  samples : retainedSamples runId c rows = c.producedSamples - c.completedSamples
  accepted : (restoreSamplerCheckpoint runId c rows).isOk = true

namespace SamplerSystem

/-- The saved checkpoint, if there is one, can be restored. -/
def Restorable (set : Setting V P A M C) (s : SamplerSystem V P A M C) : Prop :=
  ∀ c ∈ s.db.checkpoint, SamplerAggregatorCheckpoint.Restorable set.runId s.db.rows c

variable {set : Setting V P A M C} {s : SamplerSystem V P A M C}
  {db : Database V P A M C} {live : Option (LiveRunner V P A M C)}

theorem restorable_of_tablesSafe {c : SamplerAggregatorCheckpoint V P A M}
    (h : TablesSafe set db c) : SamplerAggregatorCheckpoint.Restorable set.runId db.rows c := by
  have htable : TableInv set.runId c.taskId set.accepts db.rows := h.task ▸ h.table
  refine ⟨?_, h.saved.retainedSamples htable, ?_⟩
  · rw [h.saved.queuedRows htable]
    refine List.filter_congr fun p hp => ?_
    simp [h.saved.le_produced hp]
  · rw [h.saved.restore htable]
    rfl

theorem restorable_of_safe (h : Safe set db live) :
    ∀ c ∈ db.checkpoint, SamplerAggregatorCheckpoint.Restorable set.runId db.rows c := by
  intro c hc
  cases h with
  | fresh hnone _ =>
    rw [hnone] at hc
    cases hc
  | saved c' h =>
    rw [h.checkpoint] at hc
    cases hc
    exact restorable_of_tablesSafe h
  | live c' l h =>
    rw [h.checkpoint] at hc
    cases hc
    exact restorable_of_tablesSafe h.toTablesSafe

/-- **Recovery.** With one live sampler aggregator at a time, the saved checkpoint stays
restorable in every run whose ids ascend. -/
theorem restorable_of_idsAscend (set : Setting V P A M C) (entropies : List UInt16)
    (events : List (SamplerEvent V A))
    (h : Along (step set) (fun s e => Exclusive s e ∧ IdsAscend s e) (init entropies) events) :
    (run (step set) (init entropies) events).Restorable set := by
  obtain ⟨n, hn⟩ := holds_run h
  exact restorable_of_safe hn.safe

open Runners.Small in
/-- A restart that finds its checkpoint, produces and saves again. -/
theorem restorable_clockOnward :
    (run (step (setting 3 16)) (init [7]) clockOnward).Restorable (setting 3 16) :=
  restorable_of_idsAscend (setting 3 16) [7] clockOnward (by decide +kernel)

theorem not_restorable_of_refused {s : SamplerSystem V P A M C}
    (h : s.db.checkpoint.any
      (fun c => !(restoreSamplerCheckpoint set.runId c s.db.rows).isOk) = true) :
    ¬ s.Restorable set := by
  intro hs
  obtain ⟨c, hc, hrefused⟩ := (Option.any_eq_true _ _).1 h
  rw [(hs c hc).accepted] at hrefused
  cases hrefused

open Runners.Small in
/-- The clock of the restarted process is behind: the last checkpoint is refused. -/
theorem not_restorable_clockRollback :
    Along (step (setting 3 16)) Exclusive (init [7]) clockRollback ∧
      ¬ (run (step (setting 3 16)) (init [7]) clockRollback).Restorable (setting 3 16) :=
  ⟨by decide +kernel, not_restorable_of_refused (by decide +kernel)⟩

/-! ## One writer -/

/-- The saved checkpoint can be restored, everything written since the slot was last acquired
was written by the node that acquired it, and that node's runner saved or restored the
checkpoint. -/
structure SingleWriter (set : Setting V P A M C) (s : SamplerSystem V P A M C) : Prop where
  restorable : s.Restorable set
  writes : ∀ w ∈ s.writes, s.activated = some w.1
  keeper : ∀ n ∈ s.activated, (s.liveAt n).isSome = true → s.keeper = some n

/-- **One writer.** In every run whose runners are built alone and whose ids ascend, there is a
single effective writer. -/
theorem singleWriter_of_exclusive (set : Setting V P A M C) (entropies : List UInt16)
    (events : List (SamplerEvent V A))
    (h : Along (step set) (fun s e => Exclusive s e ∧ IdsAscend s e) (init entropies) events) :
    SingleWriter set (run (step set) (init entropies) events) := by
  obtain ⟨n, hn⟩ := holds_run h
  refine ⟨restorable_of_safe hn.safe, hn.writes, ?_⟩
  intro m hm hsome
  obtain ⟨l, hl⟩ := Option.isSome_iff_exists.1 hsome
  by_cases hmn : m = n
  · subst hmn
    exact hn.keeper l hl
  · rw [hn.alone m hmn] at hl
    cases hl

end SamplerSystem

namespace Small

/-- Node 0 stops before node 1 takes over. -/
def handover : List Event :=
  activation 0 ++ tick 0 1000 ++ insertion 0 ++ stop 0 1000 ++ [.node 0 (.leave true)]
    ++ activation 1 ++ tick 1 2000

/-- The lease of node 0 expires in a tick. Node 1 builds its runner, which deletes the rows of
node 0, and acquires the slot. Then node 0 stops and saves. -/
def takeover : List Event :=
  activation 0 ++ tick 0 1000 ++ insertion 0 ++ [.node 0 .expireLease] ++ activation 1 ++ stop 0 1000

end Small

namespace SamplerSystem

open Runners.Small in
theorem singleWriter_handover :
    SingleWriter (setting 3 16) (run (step (setting 3 16)) (init [7, 8]) handover) :=
  singleWriter_of_exclusive (setting 3 16) [7, 8] handover (by decide +kernel)

open Runners.Small in
/-- The superseded node saves after the new one has the slot, and a checkpoint whose rows are
gone. -/
theorem not_singleWriter_takeover :
    Along (step (setting 3 16)) IdsAscend (init [7, 8]) takeover ∧
      ¬ (run (step (setting 3 16)) (init [7, 8]) takeover).Restorable (setting 3 16) ∧
      ¬ SingleWriter (setting 3 16) (run (step (setting 3 16)) (init [7, 8]) takeover) := by
  have hlost : ¬ (run (step (setting 3 16)) (init [7, 8]) takeover).Restorable (setting 3 16) :=
    not_restorable_of_refused (by decide +kernel)
  have hwrites : (run (step (setting 3 16)) (init [7, 8]) takeover).writes = [(0, .checkpoint)] := by
    decide +kernel
  have hslot : (run (step (setting 3 16)) (init [7, 8]) takeover).activated = some 1 := by
    decide +kernel
  refine ⟨by decide +kernel, hlost, fun h => ?_⟩
  have hzero := h.writes (0, .checkpoint) (by rw [hwrites]; simp)
  rw [hslot] at hzero
  cases hzero

end SamplerSystem

end Gammaboard.Runners
