import Gammaboard.Runners.LedgerRuns

/-!
# Every batch is counted once

`Merges` is what an event adds to the accumulator of a runner: a group of
batches that its cursor passes. With one runner at a time, ascending ids and
groups that are ingested cleanly, a runner has merged the accepted results of
exactly the batches its cursor has passed; those above the cursor of the saved
checkpoint are what it has added to it.
-/

namespace Gammaboard.Runners

open Gammaboard.Core Gammaboard.Stores Gammaboard.Lib Gammaboard.Sampling Gammaboard.Evaluation

variable {V P A M C : Type} {set : Setting V P A M C}

/-! ## What a step merges -/

/-- The group is merged, and the cursor passes it. -/
structure Merges (r r' : SamplerAggregatorRunner V P A M C)
    (group : List (CompletedBatch (BatchResult V A))) : Prop where
  merged : r'.merged = r.merged ++ group
  cursor : r'.queue.checkpoint.completed =
    (group.getLast?.map (·.batchId)).getD r.queue.checkpoint.completed

section

variable {r r' r'' : SamplerAggregatorRunner V P A M C}
  {group : List (CompletedBatch (BatchResult V A))}

/-- Nothing is merged while the cursor rests. -/
theorem Merges.nothing (hmerged : r'.merged = r.merged)
    (hcursor : r'.queue.checkpoint.lastCompletedBatchId =
      r.queue.checkpoint.lastCompletedBatchId) : Merges r r' [] := by
  refine ⟨by rw [hmerged, List.append_nil], ?_⟩
  simp only [SamplerQueueCheckpoint.completed, hcursor]
  rfl

theorem Merges.then_nothing (h : Merges r r' group) (h' : Merges r' r'' []) :
    Merges r r'' group :=
  ⟨by rw [h'.merged, h.merged, List.append_nil], h'.cursor.trans h.cursor⟩

/-- A group that is ingested cleanly is merged as a whole or not at all. -/
theorem processed_merges {taken : List (CompletedBatch (BatchResult V A))}
    (hclean : CleanIngest set.kit r taken) (tuned : Nat) (due : Bool) :
    ∃ group, (group = [] ∨ group = taken) ∧
      Merges r (r.processCompletedBatches set.kit taken tuned due).1 group := by
  have hcases := SamplerAggregatorRunner.processed set.kit taken tuned due r
  have hclean' := hclean.withQueue (r.queue.tuned tuned)
  generalize r.processCompletedBatches set.kit taken tuned due = out at hcases
  cases hcases with
  | nothing _ => exact ⟨[], .inl rfl, .nothing rfl rfl⟩
  | otherTask _ _ _ _ => exact ⟨[], .inl rfl, .nothing rfl rfl⟩
  | refused htask r₁ e hall =>
    rcases hclean' with hok | ⟨b, hb, hother⟩ | ⟨b, rest, rfl, hfirst⟩
    · rw [hall] at hok
      cases hok
    · exact absurd (htask b hb) hother
    · obtain ⟨e', he'⟩ := SamplerAggregatorRunner.ingestAll_refused rest hfirst
      rw [he'] at hall
      cases hall
      exact ⟨[], .inl rfl, .nothing rfl rfl⟩
  | whole hne htask r₁ hall =>
    have hrecorded := SamplerAggregatorRunner.ingestAll_ok hall
    have hlast : taken.getLast? = some (taken.getLast hne) := List.getLast?_eq_some_getLast hne
    refine ⟨taken, .inr rfl, hrecorded.merged, ?_⟩
    show (r₁.queue.markProcessed taken due).checkpoint.completed = _
    have hsame := sameLine_ensureCompletedCleanup due (r₁.queue.moveCursor taken)
    rw [SamplerQueue.markProcessed, hsame.completed, SamplerQueue.moveCursor, hlast]
    rfl

theorem Merges.produces {src src' : IdSource} {sent : Except RunnerError (Nat × Bool)}
    (hp : SamplerAggregatorRunner.Produces src r (src', r', sent)) : Merges r r' [] := by
  cases hp with
  | nothing _ _ hq hk => exact .nothing hk.merged hq.sameLine.cursor
  | sent _ _ q hq batches requiresFeedback hqueue hk _ =>
    have hingest := sameLine_ingest batches requiresFeedback src q
    rw [hqueue] at hingest
    exact .nothing hk.merged (hingest.cursor.trans hq.sameLine.cursor)

end

section

variable {db : Database V P A M C} {c : SamplerAggregatorCheckpoint V P A M}
  {l : LiveRunner V P A M C} {g : BatchIdGenerator}

/-- An event of a runner merges completed rows at the front of the batches ahead of it. -/
def EventMerges (db : Database V P A M C) (l l' : LiveRunner V P A M C) : Prop :=
  ∃ group, Front db.rows l.runner.queue.ahead group ∧ Merges l.runner l'.runner group

theorem EventMerges.nothing {l' : LiveRunner V P A M C}
    (h : Merges l.runner l'.runner []) : EventMerges db l l' :=
  ⟨[], ⟨List.nil_prefix, by simp⟩, h⟩

theorem EventMerges.same {l' : LiveRunner V P A M C} (hmerged : l'.runner.merged = l.runner.merged)
    (hs : SameLine l.runner.queue l'.runner.queue) : EventMerges db l l' :=
  .nothing (.nothing hmerged hs.cursor)

theorem EventMerges.refl : EventMerges db l l := .same rfl (.refl _)

/-- A group in hand is merged cleanly. -/
theorem EventMerges.group {l' : LiveRunner V P A M C} {r : SamplerAggregatorRunner V P A M C}
    {taken group : List (CompletedBatch (BatchResult V A))}
    (hfront : Front db.rows l.runner.queue.ahead taken) (hgroup : group = [] ∨ group = taken)
    (hbefore : Merges l.runner r []) (h : Merges r l'.runner group) : EventMerges db l l' := by
  have hmerges : Merges l.runner l'.runner group := by
    refine ⟨by rw [h.merged, hbefore.merged, List.append_nil], ?_⟩
    rw [h.cursor, hbefore.cursor]
    rfl
  rcases hgroup with rfl | rfl
  · exact .nothing hmerges
  · exact ⟨group, hfront, hmerges⟩

theorem workStep_merges (h : LiveSafe set db c l) (clock : Nat → UInt64) (replies : TickReplies)
    (hclean : ∀ taken ∈ l.ingests (.work clock replies), CleanIngest set.kit l.runner taken) :
    EventMerges db l (workStep set db g l clock replies).live := by
  have hphase := h.live.phase
  unfold workStep
  split
  · rename_i taken counts hcounted
    rw [hcounted] at hphase
    obtain ⟨group, hgroup, hprocessed⟩ := processed_merges
      (hclean taken (by simp [LiveRunner.ingests, hcounted])) replies.tuned replies.cleanupDue
    have hcases := SamplerAggregatorRunner.work_cases set.kit taken counts replies ⟨g, clock, 0⟩
      l.runner
    generalize l.runner.work set.kit taken counts replies ⟨g, clock, 0⟩ = out at hcases
    have hresting : Merges l.runner l.runner [] := .nothing rfl rfl
    rcases hcases with ⟨r₁, e, hp, rfl⟩ | ⟨r₁, stats, src₂, r₂, sent, result, hp, hsent, rfl, -⟩
    · rw [hp] at hprocessed
      exact .group hphase.1.front hgroup hresting hprocessed
    · rw [hp] at hprocessed
      exact .group hphase.1.front hgroup hresting (hprocessed.then_nothing (.produces hsent))
  · exact .refl

theorem drainStep_merges (h : LiveSafe set db c l) (hl : Lined set l.runner.queue)
    (clock : Nat → UInt64) (notify : Except StoreError Unit) (tuned : Nat) (due : Bool)
    (published : Except RunnerError Unit)
    (hclean : ∀ taken ∈ l.ingests (.drain clock notify tuned due published),
      CleanIngest set.kit l.runner taken) :
    EventMerges db l (drainStep set db g l clock notify tuned due published).live := by
  unfold drainStep
  split
  · rename_i why hclosing
    split
    · exact .refl
    · rename_i hready
      exact .nothing (.nothing rfl (hl.getProcessedReady hready).2.1)
    · rename_i q₁ hready
      obtain ⟨-, hcursor, -⟩ := hl.getProcessedReady hready
      split
      · exact .refl
      · rename_i hmaintenance
        exact .nothing (.nothing rfl
          ((sameLine_finishBackgroundMaintenance hmaintenance).cursor.trans hcursor))
      · rename_i hmaintenance
        exact .nothing (.nothing rfl
          ((sameLine_finishBackgroundMaintenance hmaintenance).cursor.trans hcursor))
    · rename_i q₁ taken hne hready
      obtain ⟨-, hcursor, htaken⟩ := hl.getProcessedReady hready
      have hsome := (htaken taken rfl).2 fun hnil => hne hnil
      unfold SamplerQueue.fetched at hsome
      have hgroup : l.ingests (.drain clock notify tuned due published) = some taken := by
        simp [LiveRunner.ingests, hclosing, hsome]
      -- what the prefetch has come back with was at the front
      obtain ⟨f, hf, hout⟩ := Option.bind_eq_some_iff.1 hsome
      have hfront := (h.live.queue.fetch f hf).result taken hout
      have hclean' : CleanIngest set.kit { l.runner with queue := q₁.recordHanded taken } taken :=
        (hclean taken hgroup).withQueue _
      obtain ⟨group, hin, hprocessed⟩ := processed_merges hclean' tuned due
      have hbefore : Merges l.runner { l.runner with queue := q₁.recordHanded taken } [] :=
        .nothing rfl hcursor
      dsimp only
      split
      · rename_i heq
        rw [heq] at hprocessed
        exact .group hfront hin hbefore hprocessed
      · rename_i heq
        rw [heq] at hprocessed
        exact .group hfront hin hbefore hprocessed
  · exact .refl

/-- Every event merges a group at the front, or nothing. -/
theorem liveStep_merges (h : LiveSafe set db c l) (hl : Lined set l.runner.queue) (e : NodeEvent)
    (hclean : ∀ taken ∈ l.ingests e, CleanIngest set.kit l.runner taken) :
    EventMerges db l (liveStep set db g l e).live := by
  cases e with
  | work clock replies => exact workStep_merges h clock replies hclean
  | drain clock notify tuned due published =>
    exact drainStep_merges h hl clock notify tuned due published hclean
  | poll clock notify due =>
    simp only [liveStep]
    unfold pollStep
    split
    · split
      · exact .refl
      · rename_i htick
        exact .nothing (.nothing rfl (hl.tickProcessed htick).2.1)
      · rename_i htick
        exact .nothing (.nothing rfl (hl.tickProcessed htick).2.1)
    · exact .refl
  | count error =>
    simp only [liveStep]
    unfold countStep
    split
    · split
      · exact .same rfl (.refl _)
      · exact .nothing (.nothing rfl rfl)
    · exact .refl
  | flush clock notify =>
    simp only [liveStep]
    unfold flushStep
    split
    · split
      · exact .refl
      · rename_i hturn
        exact .same rfl (sameLine_flushTurn hturn)
      · rename_i hturn
        exact .same rfl (sameLine_flushTurn hturn)
      · rename_i hturn
        exact .same rfl (sameLine_flushTurn hturn)
    · exact .refl
  | save outcome =>
    simp only [liveStep]
    unfold saveStep
    split
    · split
      · rename_i hs
        obtain ⟨sampler, rfl⟩ := SamplerAggregatorRunner.checkpoint_error set.kit hs
        exact .same rfl (.refl _)
      · rename_i hs
        obtain ⟨⟨sampler, rfl⟩, -⟩ := SamplerAggregatorRunner.checkpoint_ok set.kit hs
        split
        · exact .same rfl (.refl _)
        · exact .same rfl (sameLine_ensureCompletedCleanup true _)
    · exact .refl
  | insertCommits i createdAt =>
    simp only [liveStep]
    unfold insertCommitsStep
    split
    · exact .refl
    · split
      · exact .refl
      · split <;> exact .nothing (.nothing rfl rfl)
  | insertReturns i error =>
    simp only [liveStep]
    unfold insertReturnsStep
    split
    · exact .refl
    · split
      · exact .refl
      · exact .nothing (.nothing rfl rfl)
  | fetchRuns error =>
    simp only [liveStep]
    unfold fetchRunsStep
    split
    · exact .refl
    · split
      · exact .refl
      · exact .nothing (.nothing rfl rfl)
  | cleanupRuns room error =>
    simp only [liveStep]
    unfold cleanupRunsStep
    split
    · exact .refl
    · split
      · exact .refl
      · exact .nothing (.nothing rfl rfl)
  | tune config =>
    simp only [liveStep]
    unfold tuneStep
    split
    · exact .nothing (.nothing rfl rfl)
    · exact .refl
  | stop =>
    simp only [liveStep]
    unfold stopStep
    split
    · exact .same rfl (.refl _)
    · exact .same rfl (.refl _)
    · exact .refl
  | reboot _ | expireLease | renewLease | build _ | activate _ | leave _ => exact .refl

end

/-! ## What has been merged -/

section

variable {rows : List (BatchRow (EvaluationBatch P C) (BatchResult V A))}
  {db db' : Database V P A M C} {c : SamplerAggregatorCheckpoint V P A M}
  {q q' : SamplerQueue P C (BatchResult V A)} {r : SamplerAggregatorRunner V P A M C}

/-- The cursor has passed the group, whatever ids have been given. -/
theorem QueueInv.passed_group (h : QueueInv rows c q)
    {group : List (CompletedBatch (BatchResult V A))} (hf : Front rows q.ahead group)
    (hcursor : q'.checkpoint.completed =
      (group.getLast?.map (·.batchId)).getD q.checkpoint.completed)
    {new : List Produced} (hgiven : q'.allocated = q.allocated ++ new) (hnew : FreshIds q new) :
    q'.passed = q.passed ++ group.map (·.produced) := by
  obtain ⟨rest, hrest⟩ := hf.isPrefix
  unfold SamplerQueue.passed
  rw [hcursor, hgiven, settled_append]
  cases hlast : group.getLast? with
  | none =>
    have habove : ∀ p ∈ new, q.checkpoint.completed < p.id :=
      fun p hp => h.cursor.2.trans_lt (hnew.above hp)
    rw [List.getLast?_eq_none_iff.1 hlast]
    show settled Produced.id q.checkpoint.completed q.allocated ++
      settled Produced.id q.checkpoint.completed new = _
    rw [settled_eq_nil habove]
    rfl
  | some last =>
    have hend : (group.map (·.produced)).getLast? = some last.produced := by
      rw [List.getLast?_map, hlast]
      rfl
    have hmem : last.produced ∈ q.allocated := by
      have hahead : last.produced ∈ q.ahead :=
        hrest ▸ List.mem_append_left _ (List.mem_of_getLast? hend)
      exact (mem_frontier.1 hahead).1
    have habove : ∀ p ∈ new, last.produced.id < p.id :=
      fun p hp => (h.le_produced hmem).trans_lt (hnew.above hp)
    obtain ⟨hpassed, -⟩ := h.ascend.advance hrest.symm hend
    show settled Produced.id last.produced.id q.allocated ++
      settled Produced.id last.produced.id new = _
    rw [settled_eq_nil habove, List.append_nil, hpassed]

/-- The batches merged are these, with their accepted results. -/
structure MergedOnce (accepted : Int → Option (BatchResult V A))
    (merged : List (CompletedBatch (BatchResult V A))) (batches : List Produced) : Prop where
  produced : merged.map (·.produced) = batches
  result : ∀ b ∈ merged, accepted b.batchId = some b.result

theorem MergedOnce.nil (accepted : Int → Option (BatchResult V A)) : MergedOnce accepted [] [] :=
  ⟨rfl, by simp⟩

theorem MergedOnce.append {accepted : Int → Option (BatchResult V A)}
    {merged group : List (CompletedBatch (BatchResult V A))} {batches : List Produced}
    (h : MergedOnce accepted merged batches)
    (hg : ∀ b ∈ group, accepted b.batchId = some b.result) :
    MergedOnce accepted (merged ++ group) (batches ++ group.map (·.produced)) := by
  refine ⟨by rw [List.map_append, h.produced], fun b hb => ?_⟩
  rcases List.mem_append.1 hb with hb | hb
  · exact h.result b hb
  · exact hg b hb

theorem MergedOnce.congr {accepted accepted' : Int → Option (BatchResult V A)}
    {merged : List (CompletedBatch (BatchResult V A))} {batches : List Produced}
    (h : MergedOnce accepted merged batches)
    (heq : ∀ p ∈ batches, accepted' p.id = accepted p.id) : MergedOnce accepted' merged batches := by
  refine ⟨h.produced, fun b hb => ?_⟩
  have hmem : b.produced ∈ batches := h.produced ▸ List.mem_map_of_mem hb
  exact (heq _ hmem).trans (h.result b hb)

/-- The results of the batches, in order. -/
theorem MergedOnce.accepted_eq {accepted : Int → Option (BatchResult V A)}
    {merged : List (CompletedBatch (BatchResult V A))} {batches : List Produced}
    (h : MergedOnce accepted merged batches) :
    batches.map (fun p => accepted p.id) = (merged.map (·.result)).map some := by
  rw [← h.produced, List.map_map, List.map_map]
  exact List.map_congr_left fun b hb => h.result b hb

/-- Completed rows carry their accepted result. -/
def RowsAccepted (db : Database V P A M C) : Prop :=
  ∀ x ∈ db.rows, x.status = .completed → db.accepted x.id = x.result

/-- Completed rows at the front carry the accepted results. -/
theorem RowsAccepted.front (h : RowsAccepted db) {ahead : List Produced}
    {group : List (CompletedBatch (BatchResult V A))} (hf : Front db.rows ahead group) :
    ∀ b ∈ group, db.accepted b.batchId = some b.result := by
  intro b hb
  obtain ⟨x, hx, hstatus, hrow⟩ := hf.fromRows b hb
  have haccepted := h x hx hstatus
  unfold BatchRow.toCompleted at hrow
  obtain ⟨result, hresult, rfl⟩ := Option.map_eq_some_iff.1 hrow
  exact haccepted.trans hresult

theorem RowsAccepted.kept (h : RowsAccepted db) (hk : TablesKept db db' r) : RowsAccepted db' := by
  intro x hx hstatus
  rw [hk.accepted]
  exact h x (hk.completed x hx hstatus) hstatus

/-- The result of a completed batch stays while evaluators work on the table. -/
theorem RowsAccepted.withRows_eq (h : RowsAccepted db) (ht : Touched set.accepts db.rows rows)
    {id : Int} (hdone : ∀ x ∈ db.rows, x.id = id → x.status = .completed) :
    (db.withRows rows).accepted id = db.accepted id := by
  unfold Database.withRows
  dsimp only
  split
  · rename_i x hx
    have hx' := List.find?_some hx
    simp only [Bool.and_eq_true, beq_iff_eq] at hx'
    obtain ⟨y, hy, hchange⟩ := ht.backward (List.mem_of_find?_eq_some hx)
    have hid : y.id = id := hchange.sameBatch.id.symm.trans hx'.1
    have hstatus := hdone y hy hid
    rw [hchange.eq_of_completed hstatus, ← hid]
    exact (h y hy hstatus).symm
  · rfl

theorem rowsAccepted_withRows (hrows : Ascends BatchRow.id rows) :
    RowsAccepted (db.withRows rows) := by
  intro x hx hstatus
  show (db.withRows rows).accepted x.id = x.result
  unfold Database.withRows
  dsimp only
  split
  · rename_i y hy
    have hy' := List.find?_some hy
    simp only [Bool.and_eq_true, beq_iff_eq] at hy'
    rw [hrows.eq_of_key (List.mem_of_find?_eq_some hy) hx hy'.1]
  · rename_i hnone
    have hx' := List.find?_eq_none.1 hnone x hx
    simp [hstatus] at hx'

end

/-! ## Runs -/

theorem Safe.savedInv {db : Database V P A M C}
    {live : Option (LiveRunner V P A M C)} (h : Safe set db live) :
    ∀ c ∈ db.checkpoint, SavedInv db.rows c := by
  intro c hc
  cases h with
  | fresh hnone _ =>
    rw [hnone] at hc
    cases hc
  | saved c' h =>
    rw [h.checkpoint] at hc
    cases hc
    exact h.saved
  | live c' l h =>
    rw [h.checkpoint] at hc
    cases hc
    exact h.saved

namespace SamplerSystem

variable {s s' : SamplerSystem V P A M C}

/-- Every runner has merged the batches its cursor has passed, and so has the saved checkpoint,
from which the runner goes on. -/
structure Accounting (s : SamplerSystem V P A M C) : Prop where
  rows : RowsAccepted s.db
  saved : ∀ c ∈ s.db.checkpoint,
    MergedOnce s.db.accepted c.merged (settled Produced.id c.queue.completed c.allocated)
  live : ∀ n l, s.liveAt n = some l →
    MergedOnce s.db.accepted l.runner.merged l.runner.queue.passed
  base : ∀ n l, s.liveAt n = some l → ∀ c ∈ s.db.checkpoint, c.merged <+: l.runner.merged

theorem Holds.liveSafe {n m : Nat} (h : Holds set s n) {l : LiveRunner V P A M C}
    (hl : s.liveAt m = some l) : m = n ∧ ∃ c, LiveSafe set s.db c l := by
  have hm : m = n := by
    by_contra hne
    rw [h.alone m hne] at hl
    cases hl
  subst hm
  have hsafe := h.safe
  rw [hl] at hsafe
  cases hsafe with
  | live c l hsafe => exact ⟨rfl, c, hsafe⟩

/-- Evaluators complete batches above the cursor only. -/
theorem Accounting.touched {n : Nat} (h : Accounting s) (hn : Holds set s n)
    {rows : List (BatchRow (EvaluationBatch P C) (BatchResult V A))}
    (ht : Touched set.accepts s.db.rows rows) :
    Accounting { s with db := s.db.withRows rows } where
  rows := rowsAccepted_withRows (hn.safe.table.touched ht
    fun r s x hs hr => Setting.accepts_of_sameBatch hs hr).ascend
  saved := by
    intro c hc
    refine (h.saved c hc).congr fun p hp => h.rows.withRows_eq ht fun x hx hid => ?_
    exact (hn.safe.savedInv c hc).below x hx (hid ▸ (mem_settled.1 hp).2)
  live := by
    intro m l hl
    obtain ⟨-, c, hsafe⟩ := hn.liveSafe hl
    refine (h.live m l hl).congr fun p hp => h.rows.withRows_eq ht fun x hx hid => ?_
    exact hsafe.live.queue.below x hx (hid ▸ (mem_settled.1 hp).2)
  base := h.base

/-- An activation goes on from the saved checkpoint, or starts with nothing. -/
theorem Accounting.build (set : Setting V P A M C) (h : Accounting s) (outcome : BuildOutcome) :
    (∀ c ∈ (buildRunner set outcome s.db).1.checkpoint,
      MergedOnce s.db.accepted c.merged (settled Produced.id c.queue.completed c.allocated)) ∧
    (∀ r ∈ (buildRunner set outcome s.db).2, MergedOnce s.db.accepted r.merged r.queue.passed ∧
      ∀ c ∈ (buildRunner set outcome s.db).1.checkpoint, c.merged <+: r.merged) ∧
    (buildRunner set outcome s.db).1.accepted = s.db.accepted ∧
      ∀ x ∈ (buildRunner set outcome s.db).1.rows, x ∈ s.db.rows := by
  unfold buildRunner
  split
  · exact ⟨h.saved, by simp, rfl, fun _ hx => hx⟩
  · cases hc : s.db.checkpoint with
    | some c =>
      have hsaved := h.saved c hc
      dsimp only
      cases hrestore : restoreSamplerCheckpoint set.runId c s.db.rows with
      | error e => exact ⟨h.saved, by simp, rfl, fun _ hx => hx⟩
      | ok rows =>
        refine ⟨fun c' hc' => ?_, fun r hr => ?_, rfl, fun x hx => ?_⟩
        · exact h.saved c' (hc ▸ hc')
        · dsimp only at hr ⊢
          split at hr
          · cases hr
            refine ⟨hsaved, fun c' hc' => ?_⟩
            cases hc'
            exact List.prefix_rfl
          · cases hr
        · unfold restoreSamplerCheckpoint at hrestore
          dsimp only at hrestore hx
          split at hrestore
          · cases hrestore
          · split at hrestore
            · cases hrestore
            · cases hrestore
              exact (List.mem_filter.1 hx).1
    | none =>
      dsimp only
      split
      · exact ⟨h.saved, by simp, rfl, fun _ hx => hx⟩
      · rename_i r c hs
        obtain ⟨⟨sampler, rfl⟩, hsaves⟩ := SamplerAggregatorRunner.checkpoint_ok set.kit hs
        have hmerged : c.merged = [] := hsaves.merged
        refine ⟨fun c' hc' => ?_, fun r' hr' => ?_, rfl, fun _ hx => hx⟩
        · cases hc'
          rw [hmerged, hsaves.allocated]
          exact .nil _
        · dsimp only at hr' ⊢
          split at hr'
          · cases hr'
            refine ⟨.nil _, fun c' hc' => ?_⟩
            cases hc'
            rw [hmerged]
            exact List.nil_prefix
          · cases hr'

theorem Accounting.nodeStep {n : Nat} (h : Accounting s) (hn : Holds set s n) (hbooks : Books set s)
    (m : Nat) (e : NodeEvent) (hexclusive : Exclusive s (.node m e : SamplerEvent V A))
    (hids : IdsAscend s (.node m e)) (hclean : IngestsCleanly set s (.node m e)) :
    Accounting (s.nodeStep set m e) := by
  cases nodeMove m e s with
  | rests hdb hlive _ _ _ =>
    refine ⟨hdb ▸ h.rows, hdb ▸ h.saved, fun k l hl => ?_, fun k l hl => ?_⟩
    · exact hdb ▸ h.live k l ((hlive k).symm.trans hl)
    · exact hdb ▸ h.base k l ((hlive k).symm.trans hl)
  | drops hdb hnone hothers _ _ _ =>
    have hback : ∀ k l, (s.nodeStep set m e).liveAt k = some l → s.liveAt k = some l := by
      intro k l hl
      by_cases hk : k = m
      · rw [hk, hnone] at hl
        cases hl
      · exact (hothers k hk).symm.trans hl
    refine ⟨hdb ▸ h.rows, hdb ▸ h.saved, fun k l hl => ?_, fun k l hl => ?_⟩
    · exact hdb ▸ h.live k l (hback k l hl)
    · exact hdb ▸ h.base k l (hback k l hl)
  | builds outcome he hnone hdb hlive hothers _ _ _ =>
    subst he
    obtain ⟨hsaved, hrunner, haccepted, hrows⟩ := h.build set outcome
    have honly : ∀ k l, (s.nodeStep set m (.build outcome)).liveAt k = some l →
        ∃ r, (buildRunner set outcome s.db).2 = some r ∧ l = ⟨r, .built⟩ := by
      intro k l hl
      by_cases hk : k = m
      · rw [hk, hlive] at hl
        obtain ⟨r, hr, rfl⟩ := Option.map_eq_some_iff.1 hl
        exact ⟨r, hr, rfl⟩
      · rw [hothers k hk] at hl
        by_cases hlt : k < s.nodes.length
        · have hisNone := hexclusive rfl k hlt hk
          rw [hl] at hisNone
          cases hisNone
        · rw [liveAt, List.getElem?_eq_none (not_lt.1 hlt)] at hl
          cases hl
    refine ⟨fun x hx hstatus => ?_, fun c hc => ?_, fun k l hl => ?_, fun k l hl => ?_⟩
    · rw [hdb] at hx ⊢
      rw [haccepted]
      exact h.rows x (hrows x hx) hstatus
    · rw [hdb] at hc ⊢
      rw [haccepted]
      exact hsaved c hc
    · obtain ⟨r, hr, rfl⟩ := honly k l hl
      rw [hdb, haccepted]
      exact (hrunner r hr).1
    · obtain ⟨r, hr, rfl⟩ := honly k l hl
      rw [hdb]
      exact (hrunner r hr).2
  | activates l hl hphase hdb hlive hothers _ _ _ =>
    have hback : ∀ k l', (s.nodeStep set m e).liveAt k = some l' →
        ∃ l₀, s.liveAt k = some l₀ ∧ l'.runner = l₀.runner := by
      intro k l' hl'
      by_cases hk : k = m
      · rw [hk, hlive] at hl'
        cases hl'
        exact ⟨l, hk ▸ hl, rfl⟩
      · exact ⟨l', (hothers k hk).symm.trans hl', rfl⟩
    refine ⟨hdb ▸ h.rows, hdb ▸ h.saved, fun k l' hl' => ?_, fun k l' hl' => ?_⟩
    · obtain ⟨l₀, hl₀, heq⟩ := hback k l' hl'
      rw [hdb, heq]
      exact h.live k l₀ hl₀
    · obtain ⟨l₀, hl₀, heq⟩ := hback k l' hl'
      rw [hdb, heq]
      exact h.base k l₀ hl₀
  | steps node hnode l hlive' hdb hlive hothers _ _ _ =>
    have hl : s.liveAt m = some l := by simp [liveAt, hnode, hlive']
    obtain ⟨rfl, c, hsafe⟩ := hn.liveSafe hl
    have hbefore := h.live m l hl
    have hkept : TablesKept s.db (liveStep set s.db node.generator l e).db l.runner :=
      liveStep_tables e
    have hevent : EventMerges s.db l (liveStep set s.db node.generator l e).live :=
      liveStep_merges hsafe (hbooks.live m l hl).lined e (hclean l hl)
    obtain ⟨group, hfront, hmerges⟩ := hevent
    have hgives : Gives node.generator e l.runner.queue
        (liveStep set s.db node.generator l e).live.runner.queue := liveStep_gives e
    have hids' := hgives.idsAbove (hids node hnode l hlive')
    obtain ⟨new, hgiven, -⟩ := hgives
    have hpassed := hsafe.live.queue.passed_group hfront hmerges.cursor hgiven
      (hids'.fresh new hgiven)
    have honly : ∀ k l', (s.nodeStep set m e).liveAt k = some l' →
        l' = (liveStep set s.db node.generator l e).live := by
      intro k l' hl'
      by_cases hk : k = m
      · rw [hk, hlive] at hl'
        cases hl'
        rfl
      · rw [hothers k hk, hn.alone k hk] at hl'
        cases hl'
    refine ⟨hdb ▸ h.rows.kept hkept, fun c' hc' => ?_, fun k l' hl' => ?_, fun k l' hl' c' hc' => ?_⟩
    · rw [hdb] at hc' ⊢
      rw [hkept.accepted]
      rcases hkept.checkpoint with hsame | ⟨c'', hc'', hsaves⟩
      · exact h.saved c' (hsame ▸ hc')
      · rw [hc''] at hc'
        cases hc'
        rw [hsaves.merged, hsaves.queue, hsaves.allocated]
        exact hbefore
    · rw [honly k l' hl', hdb, hkept.accepted, hmerges.merged, hpassed]
      exact hbefore.append (h.rows.front hfront)
    · rw [honly k l' hl', hmerges.merged]
      rw [hdb] at hc'
      rcases hkept.checkpoint with hsame | ⟨c'', hc'', hsaves⟩
      · exact (h.base m l hl c' (hsame ▸ hc')).trans (List.prefix_append ..)
      · rw [hc''] at hc'
        cases hc'
        rw [hsaves.merged]
        exact List.prefix_append ..

theorem Accounting.step {n : Nat} (h : Accounting s) (hn : Holds set s n) (hbooks : Books set s)
    (e : SamplerEvent V A) (hexclusive : Exclusive s e) (hids : IdsAscend s e)
    (hclean : IngestsCleanly set s e) : Accounting (s.step set e) := by
  have hevaluator : (∀ m e', e ≠ .node m e') → Accounting (s.step set e) := by
    intro he
    rcases evaluates e he hn.safe.table.ascend.nodup_map with heq | ⟨rows, heq, ht⟩
    · rw [heq]
      exact h
    · rw [heq]
      exact h.touched hn ht
  cases e with
  | node m e => exact h.nodeStep hn hbooks m e hexclusive hids hclean
  | claim _ _ _ _ | releaseWorker _ | releaseUntracked _ _ | reclaim _ | submit _ _ _ _
  | failBatch _ _ _ _ _ => exact hevaluator fun m e' he => by cases he

theorem accounting_init (entropies : List UInt16) :
    Accounting (init entropies : SamplerSystem V P A M C) := by
  refine ⟨by simp [RowsAccepted, init], by simp [init], fun n l hl => ?_, fun n l hl => ?_⟩
  · rw [liveAt_init] at hl
    cases hl
  · rw [liveAt_init] at hl
    cases hl

/-- The conditions of a run that counts every batch once: a runner is built alone, ids ascend,
and groups are ingested cleanly. -/
def Regular (set : Setting V P A M C) (s : SamplerSystem V P A M C) (e : SamplerEvent V A) : Prop :=
  Exclusive s e ∧ IdsAscend s e ∧ IngestsCleanly set s e

theorem accounting_run {entropies : List UInt16} {events : List (SamplerEvent V A)}
    (h : Along (step set) (Regular set) (init entropies) events) :
    (∃ n, Holds set (run (step set) (init entropies) events) n) ∧
      Books set (run (step set) (init entropies) events) ∧
      Accounting (run (step set) (init entropies) events) := by
  refine run_invariant (I := fun s => (∃ n, Holds set s n) ∧ Books set s ∧ Accounting s) ?_
    ⟨⟨0, holds_init set entropies⟩, books_init set entropies, accounting_init entropies⟩ h
  rintro s e ⟨⟨n, hn⟩, hbooks, haccounting⟩ ⟨hexclusive, hids, hclean⟩
  exact ⟨hn.step e hexclusive hids, hbooks.step e hclean,
    haccounting.step hn hbooks e hexclusive hids hclean⟩

/-! ## Exactly once -/

/-- `state'` is `state` merged with the accepted results of these batches, in this order. -/
def MergedFrom (set : Setting V P A M C) (db : Database V P A M C) (state state' : A)
    (batches : List Produced) : Prop :=
  ∃ results : List (BatchResult V A),
    batches.map (fun p => db.accepted p.id) = results.map some ∧
      set.kit.accumulator.mergeAll state (results.map (·.accumulator)) = some state'

/-- The batches between the cursor of a checkpoint and that of a runner. -/
def ingestedSince (c : SamplerAggregatorCheckpoint V P A M)
    (r : SamplerAggregatorRunner V P A M C) : List Produced :=
  r.queue.allocated.filter fun p =>
    decide (c.queue.completed < p.id) && decide (p.id ≤ r.queue.checkpoint.completed)

/-- The accumulator of the runner is that of the checkpoint with every batch since counted once,
in ascending order; what it has merged are the batches up to its cursor, none of them twice and
none that the checkpoint had merged missing. -/
structure CountedOnce (set : Setting V P A M C) (db : Database V P A M C)
    (c : SamplerAggregatorCheckpoint V P A M) (r : SamplerAggregatorRunner V P A M C) : Prop where
  ascend : ((ingestedSince c r).map (·.id)).Pairwise (· < ·)
  accumulator : MergedFrom set db c.observableState r.observableState (ingestedSince c r)
  samples : r.nrCompletedSamples = c.completedSamples + samples (ingestedSince c r)
  merged : r.merged.map (·.batchId) =
    (r.queue.allocated.filter fun p => decide (p.id ≤ r.queue.checkpoint.completed)).map (·.id)
  once : (r.merged.map (·.batchId)).Nodup
  kept : c.merged <+: r.merged

/-- Every runner has counted each batch since the saved checkpoint once, and the checkpoint every
batch of the task up to its cursor. -/
structure ExactlyOnce (set : Setting V P A M C) (s : SamplerSystem V P A M C) : Prop where
  saved : ∀ c ∈ s.db.checkpoint, MergedFrom set s.db set.startState c.observableState
    (c.allocated.filter fun p => decide (p.id ≤ c.queue.completed))
  live : ∀ n l, s.liveAt n = some l →
    ∃ c, s.db.checkpoint = some c ∧ CountedOnce set s.db c l.runner

/-- What has been given since the save lies above the boundary of the checkpoint. -/
theorem given_above {c : SamplerAggregatorCheckpoint V P A M} {db : Database V P A M C}
    {l : LiveRunner V P A M C} (h : LiveSafe set db c l) {new : List Produced}
    (hnew : c.allocated ++ new = l.runner.queue.allocated) :
    ∀ p ∈ new, c.queue.produced < p.id := by
  intro p hp
  have hascend := h.live.queue.ascend
  have hpositive := h.live.queue.positive p (hnew ▸ List.mem_append_right _ hp)
  unfold SamplerQueueCheckpoint.produced
  rw [h.saved.last]
  cases hlast : c.allocated.getLast? with
  | none => exact hpositive
  | some last =>
    rw [← hnew] at hascend
    exact (List.pairwise_append.1 hascend).2.2 last (List.mem_of_getLast? hlast) p hp

/-- The checkpoint's cursor splits the batches the runner has passed. -/
theorem passed_eq_append {c : SamplerAggregatorCheckpoint V P A M} {db : Database V P A M C}
    {l : LiveRunner V P A M C} (h : LiveSafe set db c l) :
    l.runner.queue.passed =
      settled Produced.id c.queue.completed c.allocated ++ ingestedSince c l.runner := by
  have hqueue := h.live.queue
  obtain ⟨new, hnew⟩ := hqueue.saved
  have hsplit := hqueue.ascend.settled.settled_append_frontier (c := c.queue.completed)
    (l := l.runner.queue.passed)
  have hafter : frontier Produced.id c.queue.completed l.runner.queue.passed =
      ingestedSince c l.runner := by
    unfold Lib.frontier SamplerQueue.passed settled ingestedSince
    rw [List.filter_filter]
  have hbefore : settled Produced.id c.queue.completed l.runner.queue.passed =
      settled Produced.id c.queue.completed c.allocated := by
    have hbelow : settled Produced.id c.queue.completed l.runner.queue.passed =
        settled Produced.id c.queue.completed l.runner.queue.allocated := by
      unfold SamplerQueue.passed settled
      rw [List.filter_filter]
      refine List.filter_congr fun p _ => ?_
      have hcursor := hqueue.savedCursor
      rw [Bool.and_eq_left_iff_imp]
      simp only [decide_eq_true_eq]
      omega
    have habove : ∀ p ∈ new, c.queue.completed < p.id :=
      fun p hp => h.saved.cursor.2.trans_lt (given_above h hnew p hp)
    rw [hbelow, ← hnew, settled_append, settled_eq_nil habove, List.append_nil]
  rw [← hsplit, hafter, hbefore]

theorem countedOnce {n : Nat} {s : SamplerSystem V P A M C} (hbooks : Books set s)
    (h : Accounting s) {c : SamplerAggregatorCheckpoint V P A M} {l : LiveRunner V P A M C}
    (hl : s.liveAt n = some l) (hsafe : LiveSafe set s.db c l) : CountedOnce set s.db c l.runner := by
  have hlive := h.live n l hl
  obtain ⟨gained, hgained⟩ := h.base n l hl c hsafe.checkpoint
  have hsplit := passed_eq_append hsafe
  have hmerged := h.saved c hsafe.checkpoint
  have hledger := (hbooks.live n l hl).ledger
  have hsince : gained.map (·.produced) = ingestedSince c l.runner := by
    have hall := hlive.produced
    rw [← hgained, List.map_append, hmerged.produced, hsplit] at hall
    exact List.append_cancel_left hall
  have hids : l.runner.merged.map (·.batchId) = l.runner.queue.passed.map (·.id) := by
    rw [← hlive.produced, List.map_map]
    rfl
  refine
    { ascend := ?ascend
      accumulator := ⟨gained.map (·.result), ?results, ?merge⟩
      samples := ?samples
      merged := hids
      once := hledger.ascend.nodup_map
      kept := ⟨gained, hgained⟩ }
  case ascend =>
    exact List.pairwise_map.2 (hsafe.live.queue.ascend.sublist List.filter_sublist)
  case results =>
    rw [← hsince, List.map_map, List.map_map]
    refine List.map_congr_left fun b hb => hlive.result b ?_
    exact hgained ▸ List.mem_append_right _ hb
  case merge =>
    have hstate := hledger.state
    rw [← hgained, List.map_append, AccumulatorOps.mergeAll_append,
      (hbooks.saved c hsafe.checkpoint).state] at hstate
    rw [List.map_map]
    exact hstate
  case samples =>
    rw [hsafe.live.completed, hsplit, samples_append, hsafe.saved.completedSamples]

/-- **Exactly once.** In every run whose runners are built alone, whose ids ascend and whose
groups are ingested cleanly, every state counts each batch once. -/
theorem exactlyOnce_of_regular (set : Setting V P A M C) (entropies : List UInt16)
    (events : List (SamplerEvent V A))
    (h : Along (step set) (Regular set) (init entropies) events) :
    ExactlyOnce set (run (step set) (init entropies) events) := by
  obtain ⟨⟨n, hn⟩, hbooks, haccounting⟩ := accounting_run h
  refine ⟨fun c hc => ?_, fun m l hl => ?_⟩
  · have hmerged := haccounting.saved c hc
    refine ⟨c.merged.map (·.result), ?_, ?_⟩
    · exact hmerged.accepted_eq
    · rw [List.map_map]
      exact (hbooks.saved c hc).state
  · obtain ⟨-, c, hsafe⟩ := hn.liveSafe hl
    exact ⟨c, hsafe.checkpoint, countedOnce hbooks haccounting hl hsafe⟩

open Runners.Small in
theorem exactlyOnce_clockOnward :
    ExactlyOnce (setting 3 16) (run (step (setting 3 16)) (init [7]) clockOnward) :=
  exactlyOnce_of_regular (setting 3 16) [7] clockOnward
    (Along.mono _ (fun s e h => ⟨h.1, h.2.1, ingestsCleanly_of_all h.2.2⟩) (by decide +kernel :
      Along (step (setting 3 16)) (fun s e => Exclusive s e ∧ IdsAscend s e ∧
        ingestsAll (setting 3 16) s e = true) (init [7]) clockOnward))

open Runners.Small in
/-- After the group that failed, the accumulator holds a batch above the cursor. -/
theorem not_exactlyOnce_badGroup :
    ¬ ExactlyOnce (setting 1 48) (run (step (setting 1 48)) (init [7]) badGroup) := by
  intro h
  have hahead : ((run (step (setting 1 48)) (init [7]) badGroup).liveAt 0).any
      (fun l => l.runner.merged.any fun b =>
        decide (l.runner.queue.checkpoint.completed < b.batchId)) = true := by
    decide +kernel
  obtain ⟨l, hl, hany⟩ := (Option.any_eq_true _ _).1 hahead
  obtain ⟨b, hb, hlt⟩ := List.any_eq_true.1 hany
  obtain ⟨c, -, hcounted⟩ := h.live 0 l hl
  have hmem : b.batchId ∈ l.runner.merged.map (·.batchId) := List.mem_map_of_mem hb
  rw [hcounted.merged] at hmem
  obtain ⟨p, hp, hid⟩ := List.mem_map.1 hmem
  have hle := of_decide_eq_true (List.mem_filter.1 hp).2
  exact absurd (hid ▸ hle) (not_le.2 (of_decide_eq_true hlt))

end SamplerSystem

end Gammaboard.Runners
