import Gammaboard.Runners.IdSupply

/-!
# Runs of the sampler system

The invariant of the whole system: at most one node has a runner, and that
runner is safe with the tables. It is kept by every event under two conditions,
that a runner is built only when no other is left (`Exclusive`) and that ids
ascend (`IdsAscend`). The recovery of a saved checkpoint, the single writer, the
order in which batches are handed over and the end of a task all follow.
-/

namespace Gammaboard.Runners

open Gammaboard.Core Gammaboard.Stores Gammaboard.Lib Gammaboard.Sampling Gammaboard.Evaluation

variable {V P A M C : Type} {set : Setting V P A M C} {db db' : Database V P A M C}

/-! ## The tables and the runner -/

/-- The tables are safe with the runner of the run, if there is one. -/
inductive Safe (set : Setting V P A M C) (db : Database V P A M C) :
    Option (LiveRunner V P A M C) → Prop where
  | fresh (h : db.checkpoint = none) (hrows : db.rows = []) : Safe set db none
  | saved (c : SamplerAggregatorCheckpoint V P A M) (h : TablesSafe set db c) : Safe set db none
  | live (c : SamplerAggregatorCheckpoint V P A M) (l : LiveRunner V P A M C)
      (h : LiveSafe set db c l) : Safe set db (some l)

/-- A runner may be lost at any time. -/
theorem Safe.drop {live : Option (LiveRunner V P A M C)} (h : Safe set db live) :
    Safe set db none := by
  cases h with
  | fresh h hrows => exact .fresh h hrows
  | saved c h => exact .saved c h
  | live c l h => exact .saved c h.toTablesSafe

theorem Safe.table {live : Option (LiveRunner V P A M C)} (h : Safe set db live) :
    TableInv set.runId set.task.id set.accepts db.rows := by
  cases h with
  | fresh h hrows => exact hrows ▸ ⟨.nil, by simp, by simp⟩
  | saved c h => exact h.table
  | live c l h => exact h.table

theorem Setting.accepts_of_sameBatch
    {r s : BatchRow (EvaluationBatch P C) (BatchResult V A)} {x : BatchResult V A}
    (h : r.SameBatch s) (hr : set.accepts r x) : set.accepts s x := by
  unfold Setting.accepts at hr ⊢
  rw [h.batchSize, h.requiresTrainingValues]
  exact hr

/-- What evaluators do to the table. -/
theorem Safe.touched {live : Option (LiveRunner V P A M C)} (h : Safe set db live)
    (hc : db'.checkpoint = db.checkpoint) (ht : Touched set.accepts db.rows db'.rows) :
    Safe set db' live := by
  have hu := undisturbed_of_touched ht
  have htable := h.table.touched ht fun r s x hs hr => Setting.accepts_of_sameBatch hs hr
  cases h with
  | fresh h hrows =>
    refine .fresh (hc.trans h) ?_
    rw [hrows] at ht
    exact List.forall₂_nil_left_iff.1 ht
  | saved c h =>
    exact .saved c ⟨htable, hc.trans h.checkpoint, h.task, h.saved.undisturbed (hu.mono fun _ _ _ => trivial)⟩
  | live c l h =>
    have hahead : Undisturbed (fun r => l.runner.queue.checkpoint.completed < r.id) db.rows
        db'.rows := hu.mono fun _ _ _ => trivial
    exact .live c l
      { table := htable
        checkpoint := hc.trans h.checkpoint
        task := h.task
        saved := h.saved.undisturbed (hu.mono fun _ _ _ => trivial)
        live :=
          { h.live with
            queue := h.live.queue.undisturbed hahead
            phase := h.live.phase.moved (.refl _) fun taken hf => hf.undisturbed hahead } }

/-- A queue of a run that has produced nothing. -/
theorem queueInv_new {c : SamplerAggregatorCheckpoint V P A M} (runId taskId : Int)
    (config : SamplerQueueConfig) (batchSize : Nat) (hgiven : c.allocated = [])
    (hlast : c.queue.lastProducedBatchId = none) (hcursor : c.queue.lastCompletedBatchId = none) :
    QueueInv ([] : List (BatchRow (EvaluationBatch P C) (BatchResult V A))) c
      (.new runId taskId config ⟨none, none, batchSize⟩ [] []) where
  ascend := .nil
  positive := by simp [SamplerQueue.new]
  last := rfl
  cursor := ⟨le_rfl, le_rfl⟩
  ready := rfl
  tasks := fun t ht => by cases ht
  disjoint := .nil
  known := by simp
  below := by simp
  cover := by simp [SamplerQueue.ahead, SamplerQueue.new]
  fetch := fun f hf => by cases hf
  fence := fun _ => rfl
  cleanup := fun k hk => by cases hk
  saved := by rw [hgiven]; exact List.nil_prefix
  savedCursor := by rw [SamplerQueueCheckpoint.completed, hcursor]; exact le_rfl
  savedBoundary := by rw [SamplerQueueCheckpoint.produced, hlast]; exact le_rfl

/-- An activation restores the saved checkpoint, or starts and saves the first one. -/
theorem Safe.build (h : Safe set db none) (outcome : BuildOutcome) :
    Safe set (buildRunner set outcome db).1
      ((buildRunner set outcome db).2.map fun r => ⟨r, .built⟩) := by
  unfold buildRunner
  split
  · exact h
  cases h with
  | saved c h =>
    obtain ⟨htable, hcheckpoint, htask, hsaved⟩ := h
    have htable' : TableInv set.runId c.taskId set.accepts db.rows := htask ▸ htable
    have hrestore := hsaved.restore htable'
    obtain ⟨hkept, hqueue⟩ := hsaved.resume set.runId set.task.id set.config
    simp only [hcheckpoint, hrestore]
    have hdb : TablesSafe set
        ⟨db.rows.filter fun r => decide (r.id ≤ c.queue.produced), some c, db.accepted⟩ c :=
      ⟨htable.filter _, rfl, htask, hkept⟩
    split
    · refine .live c _
        { hdb with
          live :=
            { queue := hqueue, runId := rfl, taskId := rfl, task := rfl
              produced := ?_, total := rfl, completed := hsaved.completedSamples
              phase := ⟨rfl, rfl, rfl⟩, handed := hsaved.handed } }
      exact hsaved.producedSamples.trans (add_zero _).symm
    · exact .saved c hdb
  | fresh h hrows =>
    simp only [h]
    split
    · exact .fresh h hrows
    · rename_i r c hs
      obtain ⟨⟨sampler, rfl⟩, hsaves⟩ := SamplerAggregatorRunner.checkpoint_ok set.kit hs
      have hsaved : SavedInv db.rows c := by
        rw [hrows]
        refine savedInv_nil hsaves.allocated ?_ ?_ ?_ hsaves.completedSamples ?_
        · rw [hsaves.queue]; rfl
        · rw [hsaves.queue]; rfl
        · rw [SamplerAggregatorCheckpoint.producedSamples, hsaves.runtimeState]; rfl
        · rw [hsaves.handed]; rfl
      have hdb : TablesSafe set { db with checkpoint := some c } c :=
        ⟨hrows ▸ ⟨.nil, by simp, by simp⟩, rfl, hsaves.taskId, hsaved⟩
      split
      · refine .live c _
          { hdb with
            live :=
              { queue := ?_, runId := rfl, taskId := rfl, task := rfl, produced := rfl, total := rfl
                completed := rfl, phase := ⟨rfl, rfl, rfl⟩, handed := rfl } }
        show QueueInv db.rows c _
        rw [hrows]
        exact queueInv_new _ _ _ _ hsaves.allocated (by rw [hsaves.queue]; rfl)
          (by rw [hsaves.queue]; rfl)
      · exact .saved c hdb

/-! ## What an event does -/

section

variable {l : LiveRunner V P A M C} {g : BatchIdGenerator}

/-- What a step of a runner leaves in the tables: no result is accepted, no batch is completed,
and at most the runner's own checkpoint is saved. -/
structure TablesKept (db db' : Database V P A M C) (r : SamplerAggregatorRunner V P A M C) : Prop where
  accepted : db'.accepted = db.accepted
  completed : ∀ x ∈ db'.rows, x.status = .completed → x ∈ db.rows
  checkpoint : db'.checkpoint = db.checkpoint ∨
    ∃ c, db'.checkpoint = some c ∧ SamplerAggregatorRunner.Saves r c

theorem TablesKept.refl (db : Database V P A M C) (r : SamplerAggregatorRunner V P A M C) :
    TablesKept db db r :=
  ⟨rfl, fun _ hx _ => hx, .inl rfl⟩

theorem liveStep_tables (e : NodeEvent) :
    TablesKept db (liveStep set db g l e).db l.runner := by
  cases e with
  | save outcome =>
    simp only [liveStep]
    unfold saveStep
    split
    · split
      · exact .refl db _
      · rename_i hs
        obtain ⟨-, hsaves⟩ := SamplerAggregatorRunner.checkpoint_ok set.kit hs
        split
        · exact .refl db _
        · exact ⟨rfl, fun _ hx _ => hx, .inr ⟨_, rfl, hsaves⟩⟩
    · exact .refl db _
  | insertCommits i createdAt =>
    simp only [liveStep]
    unfold insertCommitsStep
    split
    · exact .refl db _
    · split
      · exact .refl db _
      · split
        · rename_i t _ _ _ rows hi
          refine ⟨rfl, fun x hx hstatus => ?_, .inl rfl⟩
          obtain ⟨rfl, -, -⟩ := insertBatches_ok hi
          rcases mem_foldr_insertRow.1 hx with hnew | hold
          · obtain ⟨b, -, rfl⟩ := List.mem_map.1 hnew
            cases hstatus
          · exact hold
        · exact .refl db _
  | cleanupRuns room error =>
    simp only [liveStep]
    unfold cleanupRunsStep
    split
    · exact .refl db _
    · split
      · exact .refl db _
      · refine ⟨rfl, fun x hx _ => ?_, .inl rfl⟩
        exact (cleanupConsumedCompletedBatches_sublist _ _ _ _ _).subset hx
  | poll clock notify due =>
    simp only [liveStep]
    unfold pollStep
    split
    · split <;> exact .refl db _
    · exact .refl db _
  | count error =>
    simp only [liveStep]
    unfold countStep
    split
    · split <;> exact .refl db _
    · exact .refl db _
  | work clock replies =>
    simp only [liveStep]
    unfold workStep
    split <;> exact .refl db _
  | flush clock notify =>
    simp only [liveStep]
    unfold flushStep
    split
    · split <;> exact .refl db _
    · exact .refl db _
  | drain clock notify tuned due published =>
    simp only [liveStep]
    unfold drainStep
    split
    · split
      · exact .refl db _
      · exact .refl db _
      · split <;> exact .refl db _
      · dsimp only
        split <;> exact .refl db _
    · exact .refl db _
  | insertReturns i error =>
    simp only [liveStep]
    unfold insertReturnsStep
    split
    · exact .refl db _
    · split <;> exact .refl db _
  | fetchRuns error =>
    simp only [liveStep]
    unfold fetchRunsStep
    split
    · exact .refl db _
    · split <;> exact .refl db _
  | tune config =>
    simp only [liveStep]
    unfold tuneStep
    split <;> exact .refl db _
  | stop =>
    simp only [liveStep]
    unfold stopStep
    split <;> exact .refl db _
  | reboot _ | expireLease | renewLease | build _ | activate _ | leave _ => exact .refl db _

end

namespace SamplerSystem

variable {s s' : SamplerSystem V P A M C}

/-- An evaluator's event rewrites rows in place. -/
theorem evaluates (e : SamplerEvent V A) (he : ∀ n e', e ≠ .node n e')
    (hn : (s.db.rows.map (·.id)).Nodup) :
    s.step set e = s ∨ ∃ rows, s.step set e = { s with db := s.db.withRows rows } ∧
      Touched set.accepts s.db.rows rows := by
  cases e with
  | node n e => exact absurd rfl (he n e)
  | claim v locked uuid token => exact .inr ⟨_, rfl, touched_claimBatch v _ _ uuid token hn⟩
  | releaseWorker uuid => exact .inr ⟨_, rfl, touched_releaseClaimedBatchesForWorker _ uuid _⟩
  | releaseUntracked uuid tokens => exact .inr ⟨_, rfl, touched_releaseUntrackedClaims _ uuid tokens _⟩
  | reclaim v => exact .inr ⟨_, rfl, touched_reclaimAbandonedBatches v _ _⟩
  | failBatch batchId uuid token lastError max =>
    exact .inr ⟨_, rfl, touched_failBatch batchId uuid token lastError max hn⟩
  | submit batchId uuid token result =>
    show { s with db := s.db.submit set.kit batchId uuid token result } = s ∨ ∃ rows,
      { s with db := s.db.submit set.kit batchId uuid token result } =
        { s with db := s.db.withRows rows } ∧ Touched set.accepts s.db.rows rows
    unfold Database.submit
    split
    · exact .inl rfl
    · rename_i r hr
      split
      · exact .inl rfl
      · rename_i hvalid
        obtain ⟨hmem, hid, -⟩ := ownedRow_some hr
        refine .inr ⟨_, rfl, touched_submitBatchResults batchId uuid token result hn ?_⟩
        intro r' hr' hid'
        rw [List.inj_on_of_nodup_map hn hr' hmem (hid'.trans hid.symm)]
        exact hvalid

/-- What an event of node `n` does: nothing to the runners, the loss of a runner, an activation
in its two steps, or one step of the node's runner. -/
inductive NodeMove (set : Setting V P A M C) (s : SamplerSystem V P A M C) (n : Nat)
    (e : NodeEvent) (s' : SamplerSystem V P A M C) : Prop where
  | rests (hdb : s'.db = s.db) (hlive : ∀ m, s'.liveAt m = s.liveAt m)
      (hwrites : s'.writes = s.writes) (hactivated : s'.activated = s.activated)
      (hkeeper : s'.keeper = s.keeper)
  | drops (hdb : s'.db = s.db) (hlive : s'.liveAt n = none)
      (hothers : ∀ m, m ≠ n → s'.liveAt m = s.liveAt m) (hwrites : s'.writes = s.writes)
      (hactivated : s'.activated = s.activated) (hkeeper : s'.keeper = s.keeper)
  | builds (outcome : BuildOutcome) (he : e = .build outcome) (hnone : s.liveAt n = none)
      (hdb : s'.db = (buildRunner set outcome s.db).1)
      (hlive : s'.liveAt n = (buildRunner set outcome s.db).2.map fun r => ⟨r, .built⟩)
      (hothers : ∀ m, m ≠ n → s'.liveAt m = s.liveAt m) (hwrites : s'.writes = s.writes)
      (hactivated : s'.activated = s.activated)
      (hkeeper : (s'.liveAt n).isSome → s'.keeper = some n)
  | activates (l : LiveRunner V P A M C) (hl : s.liveAt n = some l) (hphase : l.phase = .built)
      (hdb : s'.db = s.db) (hlive : s'.liveAt n = some { l with phase := .idle })
      (hothers : ∀ m, m ≠ n → s'.liveAt m = s.liveAt m) (hwrites : s'.writes = [])
      (hactivated : s'.activated = some n) (hkeeper : s'.keeper = s.keeper)
  | steps (node : SamplerNode V P A M C) (hn : s.nodes[n]? = some node)
      (l : LiveRunner V P A M C) (hl : node.live = some l)
      (hdb : s'.db = (liveStep set s.db node.generator l e).db)
      (hlive : s'.liveAt n = some (liveStep set s.db node.generator l e).live)
      (hothers : ∀ m, m ≠ n → s'.liveAt m = s.liveAt m)
      (hwrites : s'.writes =
        s.writes ++ ((liveStep set s.db node.generator l e).write.map fun w => (n, w)).toList)
      (hactivated : s'.activated = s.activated)
      (hkeeper : s'.keeper = some n ∨ s'.keeper = s.keeper)

/-- Writing back a node changes its runner only. -/
theorem liveAt_set {n : Nat} {node node' : SamplerNode V P A M C}
    {live : Option (LiveRunner V P A M C)} (hn : s.nodes[n]? = some node)
    (hnodes : s'.nodes = s.nodes.set n node') (hlive : node'.live = live) : s'.liveAt n = live := by
  obtain ⟨hlt, -⟩ := List.getElem?_eq_some_iff.1 hn
  unfold liveAt
  rw [hnodes]
  simp [hlt, hlive]

theorem liveAt_set_ne {n : Nat} {node' : SamplerNode V P A M C}
    (hnodes : s'.nodes = s.nodes.set n node') : ∀ m, m ≠ n → s'.liveAt m = s.liveAt m := by
  intro m hm
  unfold liveAt
  rw [hnodes, List.getElem?_set_ne hm.symm]

theorem liveAt_clearExpired (s : SamplerSystem V P A M C) (m : Nat) :
    liveAt { s with nodes := clearExpired s.nodes } m = s.liveAt m := by
  unfold liveAt clearExpired
  rw [List.getElem?_map]
  cases s.nodes[m]? <;> rfl

/-- `set_current_assignment` activates the runner or loses it. -/
theorem activate_move {n : Nat} (lost : Bool) {node : SamplerNode V P A M C}
    (hn : s.nodes[n]? = some node) {l : LiveRunner V P A M C} (hl : s.liveAt n = some l)
    (hphase : l.phase = .built) : NodeMove set s n (.activate lost) (s.activate n lost node l) := by
  have hcleared : ({ s with nodes := clearExpired s.nodes } : SamplerSystem V P A M C).nodes[n]? =
      some { node with active := node.active && node.leased } := by
    simp [clearExpired, hn]
  have hothers : ∀ {s' : SamplerSystem V P A M C} {node' : SamplerNode V P A M C},
      s'.nodes = (clearExpired s.nodes).set n node' → ∀ m, m ≠ n → s'.liveAt m = s.liveAt m :=
    fun hnodes m hm => Eq.trans
      (@liveAt_set_ne _ _ _ _ _ { s with nodes := clearExpired s.nodes } _ n _ hnodes m hm)
      (liveAt_clearExpired s m)
  unfold activate
  dsimp only
  split
  · exact .drops rfl (liveAt_set hcleared rfl rfl) (hothers rfl) rfl rfl rfl
  · exact .activates l hl hphase rfl (liveAt_set hcleared rfl rfl) (hothers rfl) rfl rfl rfl

theorem nodeMove (n : Nat) (e : NodeEvent) (s : SamplerSystem V P A M C) :
    NodeMove set s n e (s.nodeStep set n e) := by
  unfold nodeStep
  cases hn : s.nodes[n]? with
  | none => exact .rests rfl (fun _ => rfl) rfl rfl rfl
  | some node =>
    have hat : s.liveAt n = node.live := by simp [liveAt, hn]
    have hsame : ∀ {s' : SamplerSystem V P A M C} {node' : SamplerNode V P A M C},
        s'.nodes = s.nodes.set n node' → node'.live = node.live → ∀ m, s'.liveAt m = s.liveAt m := by
      intro s' node' hnodes hlive m
      by_cases hm : m = n
      · rw [hm, liveAt_set hn hnodes hlive, hat]
      · exact liveAt_set_ne hnodes m hm
    dsimp only
    split
    · exact .rests rfl (hsame rfl rfl) rfl rfl rfl
    · exact .rests rfl (hsame rfl rfl) rfl rfl rfl
    · exact .rests rfl (hsame rfl rfl) rfl rfl rfl
    · rename_i outcome hlive
      refine .builds outcome rfl (hat.trans hlive) rfl (liveAt_set hn rfl rfl) (liveAt_set_ne rfl)
        rfl rfl fun hsome => if_pos ?_
      rw [liveAt_set hn rfl rfl, Option.isSome_map] at hsome
      exact hsome
    · rename_i lost l hlive
      split
      · rename_i hphase
        exact activate_move lost hn (hat.trans hlive) hphase
      · exact .rests rfl (fun _ => rfl) rfl rfl rfl
    · exact .drops rfl (liveAt_set hn rfl rfl) (liveAt_set_ne rfl) rfl rfl rfl
    · rename_i l _ _ _ _ hlive
      refine .steps node hn l hlive rfl (liveAt_set hn rfl rfl) (liveAt_set_ne rfl) rfl rfl ?_
      dsimp only
      split
      · exact .inl rfl
      · exact .inr rfl
    · exact .rests rfl (fun _ => rfl) rfl rfl rfl

/-! ## The invariant -/

/-- A runner that has not acquired the slot writes nothing and waits for it. -/
theorem liveStep_built (db : Database V P A M C) (g : BatchIdGenerator) {l : LiveRunner V P A M C}
    (hphase : l.phase = .built) (hq : l.runner.queue.Flushed) (e : NodeEvent) :
    (liveStep set db g l e).write = none ∧ (liveStep set db g l e).live.phase = .built := by
  cases e with
  | tune config => simp [liveStep, tuneStep, hphase, LiveRunner.unchanged]
  | poll clock notify due => simp [liveStep, pollStep, hphase, LiveRunner.unchanged]
  | count error => simp [liveStep, countStep, hphase, LiveRunner.unchanged]
  | work clock replies => simp [liveStep, workStep, hphase, LiveRunner.unchanged]
  | stop => simp [liveStep, stopStep, hphase, LiveRunner.unchanged]
  | flush clock notify => simp [liveStep, flushStep, hphase, LiveRunner.unchanged]
  | drain clock notify tuned due published =>
    simp [liveStep, drainStep, hphase, LiveRunner.unchanged]
  | save outcome => simp [liveStep, saveStep, hphase, LiveRunner.unchanged]
  | insertCommits i createdAt =>
    simp [liveStep, insertCommitsStep, hq.tasks, hphase, LiveRunner.unchanged]
  | insertReturns i error =>
    simp [liveStep, insertReturnsStep, hq.tasks, hphase, LiveRunner.unchanged]
  | fetchRuns error =>
    show (fetchRunsStep set db g l error).write = none ∧
      (fetchRunsStep set db g l error).live.phase = .built
    unfold fetchRunsStep
    split
    · exact ⟨rfl, hphase⟩
    · split <;> exact ⟨rfl, hphase⟩
  | cleanupRuns room error =>
    show (cleanupRunsStep set db g l room error).write = none ∧
      (cleanupRunsStep set db g l room error).live.phase = .built
    unfold cleanupRunsStep
    split
    · exact ⟨rfl, hphase⟩
    · split <;> exact ⟨rfl, hphase⟩
  | reboot _ | expireLease | renewLease | build _ | activate _ | leave _ => exact ⟨rfl, hphase⟩

/-- Only node `n` can have a runner; it is safe with the tables, saved or restored the
checkpoint last, and unless it still waits for the slot it holds it. -/
structure Holds (set : Setting V P A M C) (s : SamplerSystem V P A M C) (n : Nat) : Prop where
  alone : ∀ m, m ≠ n → s.liveAt m = none
  safe : Safe set s.db (s.liveAt n)
  writes : ∀ w ∈ s.writes, s.activated = some w.1
  keeper : ∀ l, s.liveAt n = some l → s.keeper = some n
  activated : ∀ l, s.liveAt n = some l → l.phase = .built ∨ s.activated = some n

theorem liveAt_init (entropies : List UInt16) (n : Nat) :
    (init entropies : SamplerSystem V P A M C).liveAt n = none := by
  unfold liveAt init
  rw [List.getElem?_map]
  cases entropies[n]? <;> rfl

theorem holds_init (set : Setting V P A M C) (entropies : List UInt16) :
    Holds set (init entropies) 0 := by
  refine ⟨fun m _ => liveAt_init entropies m, ?_, by simp [init], ?_, ?_⟩
  · rw [liveAt_init]
    exact .fresh rfl rfl
  · intro l hl
    rw [liveAt_init] at hl
    cases hl
  · intro l hl
    rw [liveAt_init] at hl
    cases hl

/-- An event that touches no runner. -/
theorem Holds.rests {n : Nat} (h : Holds set s n) (hlive : ∀ m, s'.liveAt m = s.liveAt m)
    (hsafe : Safe set s'.db (s.liveAt n)) (hwrites : s'.writes = s.writes)
    (hactivated : s'.activated = s.activated) (hkeeper : s'.keeper = s.keeper) :
    Holds set s' n where
  alone := fun m hm => (hlive m).trans (h.alone m hm)
  safe := hlive n ▸ hsafe
  writes := by
    rw [hwrites, hactivated]
    exact h.writes
  keeper := by
    rw [hlive n, hkeeper]
    exact h.keeper
  activated := by
    rw [hlive n, hactivated]
    exact h.activated

theorem Holds.nodeStep {n : Nat} (h : Holds set s n) (m : Nat) (e : NodeEvent)
    (hexclusive : Exclusive s (.node m e : SamplerEvent V A))
    (hids : IdsAscend s (.node m e)) : ∃ n', Holds set (s.nodeStep set m e) n' := by
  have honly : ∀ l, s.liveAt m = some l → m = n := by
    intro l hl
    by_contra hne
    rw [h.alone m hne] at hl
    cases hl
  cases nodeMove m e s with
  | rests hdb hlive hwrites hactivated hkeeper =>
    exact ⟨n, h.rests hlive (hdb ▸ h.safe) hwrites hactivated hkeeper⟩
  | drops hdb hlive hothers hwrites hactivated hkeeper =>
    by_cases hm : m = n
    · subst hm
      refine ⟨m, ⟨fun k hk => (hothers k hk).trans (h.alone k hk), ?_, ?_, ?_, ?_⟩⟩
      · rw [hdb, hlive]
        exact h.safe.drop
      · rw [hwrites, hactivated]
        exact h.writes
      · intro l hl
        rw [hlive] at hl
        cases hl
      · intro l hl
        rw [hlive] at hl
        cases hl
    · refine ⟨n, h.rests (fun k => ?_) (hdb ▸ h.safe) hwrites hactivated hkeeper⟩
      by_cases hk : k = m
      · rw [hk, hlive, h.alone m hm]
      · exact hothers k hk
  | builds outcome he hnone hdb hlive hothers hwrites hactivated hkeeper =>
    subst he
    have hothers' : ∀ k, k ≠ m → s.liveAt k = none := by
      intro k hk
      by_cases hlt : k < s.nodes.length
      · exact Option.isNone_iff_eq_none.1 (hexclusive rfl k hlt hk)
      · simp [liveAt, List.getElem?_eq_none (not_lt.1 hlt)]
    have hsafe : Safe set s.db none := h.safe.drop
    refine ⟨m, ⟨fun k hk => (hothers k hk).trans (hothers' k hk), ?_, ?_, ?_, ?_⟩⟩
    · rw [hdb, hlive]
      exact hsafe.build outcome
    · rw [hwrites, hactivated]
      exact h.writes
    · intro l hl
      exact hkeeper (by rw [hl]; rfl)
    · intro l hl
      rw [hlive] at hl
      obtain ⟨r, -, rfl⟩ := Option.map_eq_some_iff.1 hl
      exact .inl rfl
  | activates l hl hphase hdb hlive hothers hwrites hactivated hkeeper =>
    obtain rfl := honly l hl
    refine ⟨m, ⟨fun k hk => (hothers k hk).trans (h.alone k hk), ?_, ?_, ?_, ?_⟩⟩
    · rw [hdb, hlive]
      have hsafe := h.safe
      rw [hl] at hsafe
      cases hsafe with
      | live c l hlive =>
        have hhanded := hlive.live.handed
        rw [hphase] at hhanded
        exact .live c _ (hlive.withRunner hlive.live.toRunnerInv trivial hhanded)
    · rw [hwrites]
      simp
    · rw [hkeeper]
      exact fun _ _ => h.keeper l hl
    · exact fun _ _ => .inr hactivated
  | steps node hn l hnode hdb hlive hothers hwrites hactivated hkeeper =>
    have hl : s.liveAt m = some l := by simp [liveAt, hn, hnode]
    obtain rfl := honly l hl
    have hsafe := h.safe
    rw [hl] at hsafe
    cases hsafe with
    | live c l hsafe =>
      have hgives : Gives node.generator e l.runner.queue
          (liveStep set s.db node.generator l e).live.runner.queue := liveStep_gives e
      obtain ⟨c', hafter⟩ := hsafe.liveStep e (hgives.idsAbove (hids node hn l hnode))
      -- a runner that waits for the slot has inserted everything, and starts nothing
      have hbuilt : l.phase = .built → (liveStep set s.db node.generator l e).write = none ∧
          (liveStep set s.db node.generator l e).live.phase = .built := by
        intro hphase
        have hflushed := hsafe.live.phase
        rw [hphase] at hflushed
        exact liveStep_built s.db node.generator hphase hflushed e
      refine ⟨m, ⟨fun k hk => (hothers k hk).trans (h.alone k hk), ?_, ?_, ?_, ?_⟩⟩
      · rw [hdb, hlive]
        exact .live c' _ hafter
      · rw [hwrites, hactivated]
        intro w hw
        rcases List.mem_append.1 hw with hw | hw
        · exact h.writes w hw
        · obtain ⟨kind, hkind, rfl⟩ := Option.map_eq_some_iff.1 (Option.mem_toList.1 hw)
          rcases h.activated l hl with hphase | hactive
          · rw [(hbuilt hphase).1] at hkind
            cases hkind
          · exact hactive
      · intro l' hl'
        rcases hkeeper with hkeeper | hkeeper
        · exact hkeeper
        · exact hkeeper.trans (h.keeper l hl)
      · intro l' hl'
        rw [hlive] at hl'
        cases hl'
        rcases h.activated l hl with hphase | hactive
        · exact .inl (hbuilt hphase).2
        · exact .inr (hactivated.trans hactive)

/-- Every event keeps the invariant: a runner is built only when no other is left, and ids
ascend. -/
theorem Holds.step {n : Nat} (h : Holds set s n) (e : SamplerEvent V A)
    (hexclusive : Exclusive s e) (hids : IdsAscend s e) :
    ∃ n', Holds set (s.step set e) n' := by
  have hevaluator : (∀ m e', e ≠ .node m e') → ∃ n', Holds set (s.step set e) n' := by
    intro he
    rcases evaluates e he h.safe.table.ascend.nodup_map with heq | ⟨rows, heq, ht⟩
    · exact ⟨n, by rw [heq]; exact h⟩
    · refine ⟨n, ?_⟩
      rw [heq]
      exact h.rests (fun _ => rfl) (h.safe.touched rfl ht) rfl rfl rfl
  cases e with
  | node m e => exact h.nodeStep m e hexclusive hids
  | claim _ _ _ _ | releaseWorker _ | releaseUntracked _ _ | reclaim _ | submit _ _ _ _
  | failBatch _ _ _ _ _ => exact hevaluator fun m e' he => by cases he

/-- Every run whose runners are built alone and whose ids ascend keeps the invariant. -/
theorem holds_run {entropies : List UInt16} {events : List (SamplerEvent V A)}
    (h : Along (step set) (fun s e => Exclusive s e ∧ IdsAscend s e) (init entropies) events) :
    ∃ n, Holds set (run (step set) (init entropies) events) n := by
  refine run_invariant (I := fun s => ∃ n, Holds set s n) ?_ ⟨0, holds_init set entropies⟩ h
  rintro s e ⟨n, hs⟩ ⟨hexclusive, hids⟩
  exact hs.step e hexclusive hids

end SamplerSystem

/-! ## A small setting

For concrete runs: full vectors of one component, and a sampler that draws a fixed number of
times. Batches have 16 samples.
-/

namespace Small

abbrev Accumulator := AccumulatorState Int Unit Unit Unit Unit

abbrev Event := SamplerEvent Int Accumulator

def numerics : Numerics Int Unit Unit Unit Unit where
  finite _ := true
  sameConfig _ _ := true
  checkSums _ := .ok ()
  checkSumsWith _ _ := .ok ()
  checkBins _ := .ok ()
  checkBinsWith _ _ := .ok ()
  mergeStats _ _ := ()
  momentsOk _ _ := true
  mergeMoments _ _ _ _ := ()
  nativeCount _ := 0
  validateNative _ := .ok ()
  validateNativeSamples _ _ := .ok ()
  mergeNative _ _ := ((), none)
  validatePartition _ := .ok ()
  centers _ := 1
  isNative _ := false

/-- `draws` draws of `size` samples each, then the end. -/
def sampler (draws size : Nat) : SamplerOps Int Unit Accumulator Nat Unit where
  finite _ := true
  payload := ⟨fun _ => .ok (), fun _ n => some n, fun _ _ _ _ => .ok (), fun _ => 0⟩
  request _ := ()
  generate drawn limit :=
    if drawn < draws then (drawn + 1, .ok (.batch ⟨min limit size, ()⟩ none))
    else (drawn, .ok .finished)
  feedback drawn _ := (drawn, none)
  snapshot drawn := (drawn, .ok drawn)
  kindStr := AccumulatorState.kindStr
  uncertaintyReady _ := false
  estimateForStop _ := .ok none
  reaches _ _ := false
  stopTarget := "mean"

def vector (component : String) (values : List Int) : Accumulator :=
  .fullVector ⟨[component], values⟩

def setting (draws size : Nat) : Setting Int Unit Accumulator Nat Unit where
  kit := ⟨sampler draws size, AccumulatorState.ops numerics⟩
  runId := 1
  task := ⟨1, some 1000, none⟩
  config := ⟨16, 64, some 16, 4, 1, 2, 4⟩
  initialBatchSize := 16
  startSampler := 0
  startState := vector "x" []

/-- The id with this millisecond and counter of a process with entropy 7. -/
def id (millis counter : Int) : Int := millis * 2 ^ 22 + 7 * 2 ^ 6 + counter

/-! ### Stretches of a run -/

def activation (n : Nat) : List Event := [.node n (.build .runs), .node n (.activate false)]

def replies : TickReplies := ⟨16, false, ⟨.ok 2, .ok none⟩, .ok ()⟩

/-- The running prefetch ends, and a tick begins. -/
def tickBegins (n : Nat) (now : UInt64) : List Event :=
  [.node n (.fetchRuns none), .node n (.poll (fun _ => now) (.ok ()) false), .node n (.count none)]

def tick (n : Nat) (now : UInt64) : List Event :=
  tickBegins n now ++ [.node n (.work (fun _ => now) replies)]

/-- The first insert task commits and ends. -/
def insertion (n : Nat) : List Event :=
  [.node n (.insertCommits 0 0), .node n (.insertReturns 0 none)]

def claim (token : String) : Event :=
  .claim ⟨[⟨"evaluator", "uuid", some 1, some .evaluator, 10⟩], 0⟩ [] "uuid" token

/-- An evaluator claims the batch and submits a result with this component. -/
def evaluation (batchId : Int) (token component : String) : List Event :=
  [claim token, .submit batchId "uuid" token ⟨none, vector component (List.replicate 16 1)⟩]

/-- A stop that saves. -/
def stop (n : Nat) (now : UInt64) : List Event :=
  [.node n .stop, .node n (.flush (fun _ => now) (.ok ())),
    .node n (.drain (fun _ => now) (.ok ()) 16 false (.ok ())), .node n (.save .saved)]

/-- Node 0 activates, and its first batch is evaluated and ingested. -/
def firstRoundTrip (now : UInt64) (batchId : Int) : List Event :=
  activation 0 ++ tick 0 now ++ insertion 0 ++ evaluation batchId "first" "x" ++ tick 0 now
    ++ tick 0 now

/-- Node 0 stops with one batch ingested and one queued. Its next process restores the
checkpoint with a clock one second behind, produces another batch and stops. -/
def clockRollback : List Event :=
  firstRoundTrip 2000 (id 2000 1) ++ insertion 0 ++ stop 0 2000
    ++ [.node 0 (.leave true), .node 0 (.reboot 7)] ++ activation 0 ++ tick 0 1000 ++ insertion 0
    ++ stop 0 1000

/-- The same with a clock that goes on. -/
def clockOnward : List Event :=
  firstRoundTrip 2000 (id 2000 1) ++ insertion 0 ++ stop 0 2000
    ++ [.node 0 (.leave true), .node 0 (.reboot 7)] ++ activation 0 ++ tick 0 3000 ++ insertion 0
    ++ stop 0 3000

end Small

end Gammaboard.Runners
