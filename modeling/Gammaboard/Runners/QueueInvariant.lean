import Gammaboard.Lib.Cursor
import Gammaboard.Runners.Queue
import Gammaboard.Stores.Recovery
import Mathlib.Data.List.Flatten

/-!
# What a sampler queue keeps

`QueueInv` relates a live queue to the table and to the saved checkpoint: the
ids ascend, every id above the completion cursor is a row or belongs to an
insert still running, and what a prefetch returns is the front of the ids above
the cursor. There is one lemma for each operation of the queue and each
statement of the database.
-/

namespace Gammaboard.Runners

open Gammaboard.Core Gammaboard.Stores Gammaboard.Lib Gammaboard.Sampling Gammaboard.Evaluation

variable {V P A M C Res : Type}

/-- The batches above the completion cursor. -/
def SamplerQueue.ahead (q : SamplerQueue P C Res) : List Produced :=
  frontier Produced.id q.checkpoint.completed q.allocated

/-- What the prefetch has come back with. -/
def SamplerQueue.fetched (q : SamplerQueue P C Res) :
    Option (Except StoreError (List (CompletedBatch Res))) :=
  q.pendingProcessedFetch.bind (·.outcome)

/-- Everything has been inserted, and no insert has failed. -/
structure SamplerQueue.Flushed (q : SamplerQueue P C Res) : Prop where
  buffer : q.pendingInsert = []
  tasks : q.pendingInsertTasks = []
  error : q.insertError = none

/-- The batches the completion cursor has passed. -/
def SamplerQueue.passed (q : SamplerQueue P C Res) : List Produced :=
  settled Produced.id q.checkpoint.completed q.allocated

section

variable (rows : List (BatchRow (EvaluationBatch P C) Res)) (c : SamplerAggregatorCheckpoint V P A M)

/-- The completed batches are the first of the batches `ahead` of the cursor, as the table has
them. -/
structure Front (ahead : List Produced) (completed : List (CompletedBatch Res)) : Prop where
  isPrefix : completed.map (·.produced) <+: ahead
  fromRows : ∀ b ∈ completed, ∃ r ∈ rows, r.status = .completed ∧ r.toCompleted = some b

/-- An insert task of a queue with these ids and this cursor. -/
structure TaskInv (allocated : List Produced) (cursor : Int)
    (t : PendingInsertTask (EvaluationBatch P C)) : Prop where
  nonempty : t.batches ≠ []
  ascend : Ascends Produced.id t.produced
  sub : ∀ p ∈ t.produced, p ∈ allocated
  unsaved : ∀ p ∈ t.produced, c.queue.produced < p.id
  running : t.committed = false → ∀ p ∈ t.produced, cursor < p.id ∧ ∀ r ∈ rows, r.id ≠ p.id
  finished : t.outcome = some (.ok ()) → t.committed = true

/-- A prefetch of a queue with this cursor and these insert tasks. -/
structure FetchInv (ahead : List Produced) (lastCompleted : Option Int)
    (tasks : List (PendingInsertTask (EvaluationBatch P C))) (f : PendingProcessedFetch Res) :
    Prop where
  after : f.afterBatchId = lastCompleted
  bound : ∀ t ∈ tasks, t.committed = false → ∀ p ∈ t.produced, f.beforeBatchId ≤ p.id
  result : ∀ completed, f.outcome = some (.ok completed) → Front rows ahead completed

structure QueueInv (q : SamplerQueue P C Res) : Prop where
  ascend : Ascends Produced.id q.allocated
  positive : ∀ p ∈ q.allocated, 0 < p.id
  last : q.checkpoint.lastProducedBatchId = q.allocated.getLast?.map (·.id)
  cursor : 0 ≤ q.checkpoint.completed ∧ q.checkpoint.completed ≤ q.checkpoint.produced
  ready : q.readyProcessed = []
  tasks : ∀ t ∈ q.pendingInsertTasks, TaskInv rows c q.allocated q.checkpoint.completed t
  disjoint : (q.pendingInsertTasks.flatMap (·.produced)).Pairwise fun a b => a.id ≠ b.id
  known : ∀ r ∈ rows, r.produced ∈ q.allocated
  below : ∀ r ∈ rows, r.id ≤ q.checkpoint.completed → r.status = .completed
  cover : q.insertError = none → ∀ p ∈ q.ahead,
    (∃ r ∈ rows, r.produced = p) ∨ ∃ t ∈ q.pendingInsertTasks, t.committed = false ∧ p ∈ t.produced
  fetch : ∀ f ∈ q.pendingProcessedFetch,
    FetchInv rows q.ahead q.checkpoint.lastCompletedBatchId q.pendingInsertTasks f
  fence : q.insertError ≠ none → q.pendingProcessedFetch = none
  cleanup : ∀ k ∈ q.pendingCompletedCleanup, k.upToBatchId ≤ q.checkpoint.completed
  saved : c.allocated <+: q.allocated
  savedCursor : c.queue.completed ≤ q.checkpoint.completed
  savedBoundary : c.queue.produced ≤ q.checkpoint.produced

end

variable {rows : List (BatchRow (EvaluationBatch P C) Res)} {c : SamplerAggregatorCheckpoint V P A M}
  {q : SamplerQueue P C Res}


/-! ## Ids -/

/-- Ascending ids end with the largest one. -/
theorem le_lastId {given : List Produced} (h : Ascends Produced.id given) {p : Produced}
    (hp : p ∈ given) : p.id ≤ (given.getLast?.map (·.id)).getD 0 := by
  cases hlast : given.getLast? with
  | none => simp [List.getLast?_eq_none_iff.1 hlast] at hp
  | some last =>
    obtain ⟨init, rfl⟩ := List.getLast?_eq_some_iff.1 hlast
    rcases List.mem_append.1 hp with hp | hp
    · exact ((List.pairwise_append.1 h).2.2 p hp last (by simp)).le
    · rw [List.mem_singleton.1 hp]
      exact le_rfl

/-- Every id that has been given is at most the production boundary. -/
theorem QueueInv.le_produced (h : QueueInv rows c q) {p : Produced} (hp : p ∈ q.allocated) :
    p.id ≤ q.checkpoint.produced := by
  unfold SamplerQueueCheckpoint.produced
  rw [h.last]
  exact le_lastId h.ascend hp

/-- The ids of the new tasks ascend from the production boundary and from the boundary a
running prefetch has reserved. -/
structure FreshIds (q : SamplerQueue P C Res) (new : List Produced) : Prop where
  ascend : (q.checkpoint.produced :: new.map (·.id)).Pairwise (· < ·)
  reserved : ∀ f ∈ q.pendingProcessedFetch, ∀ p ∈ new, f.beforeBatchId ≤ p.id

theorem FreshIds.above {new : List Produced} (h : FreshIds q new) {p : Produced} (hp : p ∈ new) :
    q.checkpoint.produced < p.id :=
  (List.pairwise_cons.1 h.ascend).1 _ (List.mem_map_of_mem hp)

theorem FreshIds.ascends {new : List Produced} (h : FreshIds q new) : Ascends Produced.id new :=
  List.pairwise_map.1 (List.pairwise_cons.1 h.ascend).2

/-! ## Starting inserts -/

theorem ahead_append {q' : SamplerQueue P C Res} {new : List Produced}
    (hc : q'.checkpoint.lastCompletedBatchId = q.checkpoint.lastCompletedBatchId)
    (ha : q'.allocated = q.allocated ++ new) (hnew : ∀ p ∈ new, q.checkpoint.completed < p.id) :
    q'.ahead = q.ahead ++ new := by
  have hcompleted : q'.checkpoint.completed = q.checkpoint.completed := by
    simp only [SamplerQueueCheckpoint.completed, hc]
  unfold SamplerQueue.ahead
  rw [hcompleted, ha, frontier_append, frontier_eq_self hnew]

/-- Completed batches stay at the front while the cursor rests and ids are added. -/
theorem Front.extend {completed : List (CompletedBatch Res)} {ahead ahead' : List Produced}
    (h : Front rows ahead completed) (hahead : ahead <+: ahead') : Front rows ahead' completed :=
  ⟨h.isPrefix.trans hahead, h.fromRows⟩

/-- The pump keeps the invariant when its ids are fresh. -/
theorem QueueInv.pumped (h : QueueInv rows c q) {q' : SamplerQueue P C Res}
    {added : List (PendingInsertTask (EvaluationBatch P C))} (hp : q.Pumped q' added)
    (hf : FreshIds q (added.flatMap (·.produced))) : QueueInv rows c q' := by
  have habove : ∀ p ∈ added.flatMap (·.produced), q.checkpoint.completed < p.id :=
    fun p hp => h.cursor.2.trans_lt (hf.above hp)
  have heq := hp.eq
  have hahead : q'.ahead = q.ahead ++ added.flatMap (·.produced) := by
    refine ahead_append ?_ ?_ habove <;> rw [heq]
  have hcompleted : q'.checkpoint.completed = q.checkpoint.completed := by rw [heq]; rfl
  have hallocated : q'.allocated = q.allocated ++ added.flatMap (·.produced) := by rw [heq]
  have htasks : q'.pendingInsertTasks = q.pendingInsertTasks ++ added := by rw [heq]
  have hlast : q'.checkpoint.lastProducedBatchId = q'.allocated.getLast?.map (·.id) := by
    rw [hallocated, heq, List.getLast?_append, Option.map_or, h.last]
  have hboundary : q.checkpoint.produced ≤ q'.checkpoint.produced := by
    have hproduced : q'.checkpoint.produced =
        (((added.flatMap (·.produced)).getLast?.map (·.id)).or
          q.checkpoint.lastProducedBatchId).getD 0 := by
      rw [SamplerQueueCheckpoint.produced, hlast, hallocated, List.getLast?_append, Option.map_or,
        ← h.last]
    rw [hproduced]
    cases hnew : (added.flatMap (·.produced)).getLast? with
    | none => exact le_rfl
    | some p =>
      exact (hf.above (List.mem_of_getLast? hnew)).le
  refine
    { ascend := ?ascend, positive := ?positive, last := hlast
      cursor := ⟨hcompleted ▸ h.cursor.1, (hcompleted ▸ h.cursor.2).trans hboundary⟩
      ready := by rw [heq]; exact h.ready
      tasks := ?tasks, disjoint := ?disjoint, known := ?known
      below := by rw [hcompleted]; exact h.below
      cover := ?cover, fetch := ?fetch
      fence := by rw [heq]; exact h.fence
      cleanup := by rw [hcompleted, heq]; exact h.cleanup
      saved := hallocated ▸ h.saved.trans (List.prefix_append ..)
      savedCursor := hcompleted ▸ h.savedCursor
      savedBoundary := h.savedBoundary.trans hboundary }
  case ascend =>
    rw [hallocated]
    exact h.ascend.append hf.ascends fun x hx y hy => (h.le_produced hx).trans_lt (hf.above hy)
  case positive =>
    rw [hallocated]
    intro p hp
    rcases List.mem_append.1 hp with hp | hp
    · exact h.positive p hp
    · exact h.cursor.1.trans_lt (habove p hp)
  case tasks =>
    rw [htasks]
    intro t ht
    rcases List.mem_append.1 ht with ht | ht
    · have hold := h.tasks t ht
      exact { hold with
        sub := fun p hp => hallocated ▸ List.mem_append_left _ (hold.sub p hp)
        running := hcompleted ▸ hold.running }
    · have hsub : ∀ p ∈ t.produced, p ∈ added.flatMap (·.produced) :=
        fun p hp => List.mem_flatMap.2 ⟨t, ht, hp⟩
      obtain ⟨hne, hcommitted, houtcome⟩ := hp.started t ht
      refine
        { nonempty := hne
          ascend := hf.ascends.sublist <| by
            rw [List.flatMap_def]
            exact List.sublist_flatten_of_mem (List.mem_map_of_mem ht)
          sub := fun p hp => hallocated ▸ List.mem_append_right _ (hsub p hp)
          unsaved := fun p hp => h.savedBoundary.trans_lt (hf.above (hsub p hp))
          running := fun _ p hp => ⟨hcompleted ▸ habove p (hsub p hp), fun r hr hid => ?_⟩
          finished := fun hfin => by rw [houtcome] at hfin; cases hfin }
      have hle : r.id ≤ q.checkpoint.produced := h.le_produced (h.known r hr)
      have hlt := hf.above (hsub p hp)
      omega
  case disjoint =>
    rw [htasks, List.flatMap_append]
    refine List.pairwise_append.2 ⟨h.disjoint, hf.ascends.imp fun hab => hab.ne, ?_⟩
    intro x hx y hy
    obtain ⟨t, ht, hx⟩ := List.mem_flatMap.1 hx
    exact ((h.le_produced ((h.tasks t ht).sub x hx)).trans_lt (hf.above hy)).ne
  case known => exact fun r hr => hallocated ▸ List.mem_append_left _ (h.known r hr)
  case cover =>
    rw [hahead, htasks]
    intro hfenced p hp'
    rcases List.mem_append.1 hp' with hp' | hnew
    · rcases h.cover (by rw [heq] at hfenced; exact hfenced) p hp' with hrow | ⟨t, ht, hrun, hpt⟩
      · exact .inl hrow
      · exact .inr ⟨t, List.mem_append_left _ ht, hrun, hpt⟩
    · obtain ⟨t, ht, hpt⟩ := List.mem_flatMap.1 hnew
      exact .inr ⟨t, List.mem_append_right _ ht, (hp.started t ht).2.1, hpt⟩
  case fetch =>
    intro f hfetch
    rw [heq] at hfetch
    have hold := h.fetch f hfetch
    refine
      { after := by rw [heq]; exact hold.after
        bound := ?_
        result := fun completed hres => (hold.result completed hres).extend ?_ }
    · rw [htasks]
      intro t ht hrun p hp
      rcases List.mem_append.1 ht with ht | ht
      · exact hold.bound t ht hrun p hp
      · exact hf.reserved f hfetch p (List.mem_flatMap.2 ⟨t, ht, hp⟩)
    · rw [hahead]
      exact List.prefix_append ..

/-- While the cursor rests and fresh ids are given, what is ahead only grows. -/
theorem QueueInv.grown (h : QueueInv rows c q) {q' : SamplerQueue P C Res} (sent : Int)
    (hcursor : q'.checkpoint.lastCompletedBatchId = q.checkpoint.lastCompletedBatchId)
    (hgrown : ∃ new, q'.allocated = q.allocated ++ new ∧
      q.bufferedSamples + sent = samples new + q'.bufferedSamples)
    (hfresh : ∀ new, q'.allocated = q.allocated ++ new → FreshIds q new) :
    q'.passed = q.passed ∧ q.ahead <+: q'.ahead ∧
      samples q'.allocated + q'.bufferedSamples =
        samples q.allocated + q.bufferedSamples + sent := by
  obtain ⟨new, hgiven, hsum⟩ := hgrown
  have habove : ∀ p ∈ new, q.checkpoint.completed < p.id :=
    fun p hp => h.cursor.2.trans_lt ((hfresh new hgiven).above hp)
  have hcompleted : q'.checkpoint.completed = q.checkpoint.completed := by
    simp only [SamplerQueueCheckpoint.completed, hcursor]
  refine ⟨?_, ahead_append hcursor hgiven habove ▸ List.prefix_append .., ?_⟩
  · unfold SamplerQueue.passed
    rw [hcompleted, hgiven, settled_append, settled_eq_nil habove, List.append_nil]
  · rw [hgiven, samples_append]
    omega

/-! ## Frames -/

/-- What the queue's own operations leave alone: the cursor rests, the record of what has been
handed over too, and ids are only added, for batches of the buffer. -/
structure Moved (q q' : SamplerQueue P C Res) : Prop where
  runId : q'.runId = q.runId
  taskId : q'.taskId = q.taskId
  handed : q'.handed = q.handed
  cursor : q'.checkpoint.lastCompletedBatchId = q.checkpoint.lastCompletedBatchId
  grown : ∃ new, q'.allocated = q.allocated ++ new ∧
    q.bufferedSamples = samples new + q'.bufferedSamples

/-- A step that gives no ids. -/
structure Kept (q q' : SamplerQueue P C Res) : Prop where
  runId : q'.runId = q.runId
  taskId : q'.taskId = q.taskId
  handed : q'.handed = q.handed
  checkpoint : q'.checkpoint = q.checkpoint
  allocated : q'.allocated = q.allocated
  pendingInsert : q'.pendingInsert = q.pendingInsert
  fetch : ∀ f ∈ q'.pendingProcessedFetch, f ∈ q.pendingProcessedFetch

theorem Moved.refl (q : SamplerQueue P C Res) : Moved q q :=
  ⟨rfl, rfl, rfl, rfl, [], by simp, by simp⟩

theorem Moved.trans {q q' q'' : SamplerQueue P C Res} (h : Moved q q') (h' : Moved q' q'') :
    Moved q q'' := by
  obtain ⟨new, hnew, hsum⟩ := h.grown
  obtain ⟨new', hnew', hsum'⟩ := h'.grown
  refine ⟨h'.runId.trans h.runId, h'.taskId.trans h.taskId, h'.handed.trans h.handed,
    h'.cursor.trans h.cursor, new ++ new', ?_, ?_⟩
  · rw [hnew', hnew, List.append_assoc]
  · rw [samples_append]
    omega

theorem Kept.refl (q : SamplerQueue P C Res) : Kept q q :=
  ⟨rfl, rfl, rfl, rfl, rfl, rfl, fun _ hf => hf⟩

theorem Kept.trans {q q' q'' : SamplerQueue P C Res} (h : Kept q q') (h' : Kept q' q'') :
    Kept q q'' :=
  ⟨h'.runId.trans h.runId, h'.taskId.trans h.taskId, h'.handed.trans h.handed,
    h'.checkpoint.trans h.checkpoint, h'.allocated.trans h.allocated,
    h'.pendingInsert.trans h.pendingInsert, fun f hf => h.fetch f (h'.fetch f hf)⟩

theorem Kept.fetch_none {q q' : SamplerQueue P C Res} (h : Kept q q')
    (hf : q.pendingProcessedFetch = none) : q'.pendingProcessedFetch = none := by
  cases hq : q'.pendingProcessedFetch with
  | none => rfl
  | some f =>
    have := h.fetch f hq
    rw [hf] at this
    cases this

theorem Kept.unfetched (q : SamplerQueue P C Res) :
    Kept q { q with pendingProcessedFetch := none } :=
  ⟨rfl, rfl, rfl, rfl, rfl, rfl, by simp⟩

theorem Kept.moved {q q' : SamplerQueue P C Res} (h : Kept q q') : Moved q q' :=
  ⟨h.runId, h.taskId, h.handed, by rw [h.checkpoint], [], by simp [h.allocated],
    by simp [SamplerQueue.bufferedSamples, h.pendingInsert]⟩

theorem SamplerQueue.Pumped.moved {q q' : SamplerQueue P C Res}
    {added : List (PendingInsertTask (EvaluationBatch P C))} (h : q.Pumped q' added) :
    Moved q q' := by
  refine ⟨?_, ?_, ?_, ?_, added.flatMap (·.produced), ?_, h.samples⟩ <;> rw [h.eq]

theorem FreshIds.kept {q q' : SamplerQueue P C Res} {new : List Produced} (h : FreshIds q new)
    (hk : Kept q q') : FreshIds q' new :=
  ⟨hk.checkpoint ▸ h.ascend, fun f hf => h.reserved f (hk.fetch f hf)⟩

theorem Kept.fetched {q q' : SamplerQueue P C Res} (h : Kept q q')
    {completed : List (CompletedBatch Res)} (hf : q'.fetched = some (.ok completed)) :
    q.fetched = some (.ok completed) := by
  obtain ⟨f, hfetch, hout⟩ := Option.bind_eq_some_iff.1 hf
  exact Option.bind_eq_some_iff.2 ⟨f, h.fetch f hfetch, hout⟩

theorem SamplerQueue.Pumped.fetch {q q' : SamplerQueue P C Res}
    {added : List (PendingInsertTask (EvaluationBatch P C))} (h : q.Pumped q' added) :
    q'.pendingProcessedFetch = q.pendingProcessedFetch := by
  rw [h.eq]

theorem SamplerQueue.Pumped.fetched {q q' : SamplerQueue P C Res}
    {added : List (PendingInsertTask (EvaluationBatch P C))} (h : q.Pumped q' added) :
    q'.fetched = q.fetched := by
  unfold SamplerQueue.fetched
  rw [h.fetch]

/-- A queue with nothing to insert starts nothing. -/
theorem SamplerQueue.Flushed.pumped {q q' : SamplerQueue P C Res} (hq : q.Flushed)
    {added : List (PendingInsertTask (EvaluationBatch P C))} (h : q.Pumped q' added) :
    q'.Flushed := by
  obtain ⟨rfl, hbuffer⟩ := h.emptied hq.buffer
  refine ⟨hbuffer, ?_, ?_⟩ <;> rw [h.eq]
  · simpa using hq.tasks
  · exact hq.error

/-! ## Collecting inserts -/

theorem failure_eq_none {t : PendingInsertTask (EvaluationBatch P C)} (h : t.failure = none)
    (hf : t.isFinished = true) : t.outcome = some (.ok ()) := by
  unfold PendingInsertTask.failure at h
  unfold PendingInsertTask.isFinished at hf
  cases ho : t.outcome with
  | none => simp [ho] at hf
  | some result =>
    cases result with
    | ok u => rfl
    | error e => simp [ho] at h

/-- Finished tasks without an error have committed, so nothing is lost with them. -/
theorem QueueInv.collected (h : QueueInv rows c q)
    (hok : q.pendingInsertTasks.findSome? (·.failure) = none) :
    QueueInv rows c
      { q with pendingInsertTasks := q.pendingInsertTasks.filter (!·.isFinished) } := by
  refine
    { h with
      tasks := fun t ht => h.tasks t (List.mem_filter.1 ht).1
      disjoint := ?disjoint
      cover := ?cover
      fetch := fun f hf =>
        { h.fetch f hf with
          bound := fun t ht => (h.fetch f hf).bound t (List.mem_filter.1 ht).1 } }
  case disjoint => exact h.disjoint.sublist (List.filter_sublist.flatMap _)
  case cover =>
    intro hfenced p hp
    rcases h.cover hfenced p hp with hrow | ⟨t, ht, hrun, hpt⟩
    · exact .inl hrow
    · refine .inr ⟨t, List.mem_filter.2 ⟨ht, ?_⟩, hrun, hpt⟩
      by_contra hfin
      have hfailure := List.findSome?_eq_none_iff.1 hok t ht
      have hcommitted := (h.tasks t ht).finished (failure_eq_none hfailure (by simpa using hfin))
      rw [hrun] at hcommitted
      cases hcommitted

/-- The fence gives up every background task. -/
theorem QueueInv.fenced (h : QueueInv rows c q) (e : StoreError) :
    QueueInv rows c (q.fenced e) :=
  { h with
    tasks := fun t ht => absurd ht List.not_mem_nil
    disjoint := .nil
    cover := fun hfenced => absurd hfenced (by simp [SamplerQueue.fenced])
    fetch := fun f hf => absurd hf (by simp [SamplerQueue.fenced])
    fence := fun _ => rfl
    cleanup := fun k hk => absurd hk (by simp [SamplerQueue.fenced]) }

theorem QueueInv.drainFinishedInsert (h : QueueInv rows c q) {notify : Except StoreError Unit}
    {q' : SamplerQueue P C Res} {result : Except StoreError Unit}
    (hd : q.drainFinishedInsert notify = some (q', result)) :
    QueueInv rows c q' ∧ Kept q q' ∧ (result = .ok () → q'.insertError = none) := by
  unfold SamplerQueue.drainFinishedInsert at hd
  split at hd
  · cases hd
    exact ⟨h, ⟨rfl, rfl, rfl, rfl, rfl, rfl, fun _ hf => hf⟩, fun hr => by cases hr⟩
  · rename_i hfenced
    split at hd
    · split at hd
      · cases hd
        refine ⟨h.fenced _, ⟨rfl, rfl, rfl, rfl, rfl, rfl, ?_⟩, fun hr => by cases hr⟩
        simp [SamplerQueue.fenced]
      · cases hd
    · rename_i hok
      cases hd
      exact ⟨h.collected hok, ⟨rfl, rfl, rfl, rfl, rfl, rfl, fun _ hf => hf⟩, fun _ => hfenced⟩

theorem SamplerQueue.Flushed.drainFinishedInsert (h : q.Flushed) {notify : Except StoreError Unit}
    {q' : SamplerQueue P C Res} {result : Except StoreError Unit}
    (hd : q.drainFinishedInsert notify = some (q', result)) : q'.Flushed := by
  simp only [SamplerQueue.drainFinishedInsert, h.error, h.tasks, List.findSome?_nil,
    List.filter_nil, Option.some.injEq, Prod.mk.injEq] at hd
  obtain ⟨rfl, -⟩ := hd
  exact ⟨h.buffer, rfl, rfl⟩

/-- `flush` ends with everything inserted. -/
theorem QueueInv.flushTurn (h : QueueInv rows c q) {notify : Except StoreError Unit}
    {src src' : IdSource} {q' : SamplerQueue P C Res} {result : Except StoreError Bool}
    (hf : q.flushTurn notify src = some (src', q', result))
    (hfresh : ∀ new, q'.allocated = q.allocated ++ new → FreshIds q new) :
    QueueInv rows c q' ∧ Moved q q' ∧
      (q.pendingProcessedFetch = none → q'.pendingProcessedFetch = none) ∧
      (result = .ok true → q'.Flushed) := by
  unfold SamplerQueue.flushTurn at hf
  split at hf
  · cases hf
  · rename_i q₁ e hd
    cases hf
    obtain ⟨hq₁, hkept, -⟩ := h.drainFinishedInsert hd
    exact ⟨hq₁, hkept.moved, hkept.fetch_none, fun hr => by cases hr⟩
  · rename_i q₁ hd
    obtain ⟨hq₁, hkept, hok⟩ := h.drainFinishedInsert hd
    split at hf
    · rename_i hempty
      cases hf
      simp only [Bool.and_eq_true, List.isEmpty_iff] at hempty
      exact ⟨hq₁, hkept.moved, hkept.fetch_none, fun _ => ⟨hempty.2, hempty.1, hok rfl⟩⟩
    · obtain ⟨added, hpumped, hstarts⟩ := q₁.ensureInsertPump_pumped src
      generalize q₁.ensureInsertPump src = pumped at hf hpumped
      obtain ⟨src₂, q₂⟩ := pumped
      simp only [Option.some.injEq, Prod.mk.injEq] at hf
      obtain ⟨-, rfl, rfl⟩ := hf
      change q₁.Pumped q₂ added at hpumped
      have hgiven : q₂.allocated = q.allocated ++ added.flatMap (·.produced) := by
        rw [hpumped.eq, hkept.allocated]
      refine ⟨hq₁.pumped hpumped ((hfresh _ hgiven).kept hkept), hkept.moved.trans hpumped.moved,
        fun hnone => hpumped.fetch.trans (hkept.fetch_none hnone), fun hr => ?_⟩
      have htasks : q₂.pendingInsertTasks = [] := by simpa using hr
      have hnone : q₁.pendingInsertTasks ++ added = [] := by rw [hpumped.eq] at htasks; exact htasks
      obtain ⟨hold, hnew⟩ := List.append_eq_nil_iff.1 hnone
      have hbuffer : q₁.pendingInsert = [] := by
        by_contra hne
        exact hstarts hold hne hnew
      exact SamplerQueue.Flushed.pumped ⟨hbuffer, hold, hok rfl⟩ hpumped

/-! ## Collecting completed batches -/

theorem Front.nil {ahead : List Produced} : Front rows ahead [] :=
  ⟨List.nil_prefix, fun _ hb => absurd hb List.not_mem_nil⟩

/-- Nothing of the prefetch is left once it has been given up. -/
theorem QueueInv.unfetched (h : QueueInv rows c q) :
    QueueInv rows c { q with pendingProcessedFetch := none } :=
  { h with
    fetch := fun f hf => absurd hf (by simp)
    fence := fun _ => rfl }

theorem QueueInv.withReady (h : QueueInv rows c q) :
    QueueInv rows c { q with readyProcessed := [] } := { h with ready := rfl }

theorem QueueInv.ofReady (h : QueueInv rows c { q with readyProcessed := [] })
    (hr : q.readyProcessed = []) : QueueInv rows c q := { h with ready := hr }

theorem Kept.drainFinishedProcessedFetch {q' : SamplerQueue P C Res}
    {result : Except StoreError Unit} (hd : q.drainFinishedProcessedFetch = (q', result)) :
    Kept q q' := by
  unfold SamplerQueue.drainFinishedProcessedFetch at hd
  split at hd
  · cases hd
    exact .refl q
  · split at hd
    · cases hd
      exact .refl q
    · cases hd
      exact .unfetched q
    · cases hd
      exact ⟨rfl, rfl, rfl, rfl, rfl, rfl, by simp⟩

/-- A prefetch that has finished gives the front of the batches ahead. -/
theorem QueueInv.drainFinishedProcessedFetch (h : QueueInv rows c q) {q' : SamplerQueue P C Res}
    {result : Except StoreError Unit} (hd : q.drainFinishedProcessedFetch = (q', result)) :
    QueueInv rows c { q' with readyProcessed := [] } ∧ q'.insertError = q.insertError ∧
      (result = .ok () → Front rows q'.ahead q'.readyProcessed ∧
        (q'.readyProcessed ≠ [] → q'.pendingProcessedFetch = none ∧
          q.fetched = some (.ok q'.readyProcessed))) ∧
      ∀ e, result = .error e → q'.readyProcessed = [] := by
  have hready := h.ready
  unfold SamplerQueue.drainFinishedProcessedFetch at hd
  split at hd
  · cases hd
    exact ⟨h.withReady, rfl, fun _ => by simp [hready, Front.nil], fun _ _ => hready⟩
  · rename_i fetch hfetch
    split at hd
    · cases hd
      exact ⟨h.withReady, rfl, fun _ => by simp [hready, Front.nil], fun _ _ => hready⟩
    · cases hd
      exact ⟨h.unfetched.withReady, rfl, (fun hr => by cases hr), fun _ _ => hready⟩
    · rename_i completed hres
      cases hd
      refine ⟨h.unfetched.withReady, rfl, fun _ => ?_, fun _ he => by cases he⟩
      rw [hready, List.nil_append]
      exact ⟨(h.fetch fetch hfetch).result completed hres, fun _ => ⟨rfl, by simp [SamplerQueue.fetched, hfetch, hres]⟩⟩

/-- What a collection of completed batches leaves: the batches it returns are the first ahead of
the cursor, and no other prefetch is running when there are any. -/
structure Collected (rows : List (BatchRow (EvaluationBatch P C) Res))
    (c : SamplerAggregatorCheckpoint V P A M) (q q' : SamplerQueue P C Res)
    (result : Except StoreError (List (CompletedBatch Res))) : Prop where
  inv : QueueInv rows c q'
  moved : Moved q q'
  front : ∀ completed, result = .ok completed → q'.insertError = none ∧
    Front rows q'.ahead completed ∧ (completed ≠ [] → q'.pendingProcessedFetch = none)

theorem QueueInv.settleProcessed (h : QueueInv rows c q) {notify : Except StoreError Unit}
    {src src' : IdSource} {q' : SamplerQueue P C Res} {result : Except StoreError Unit}
    (hs : q.settleProcessed notify src = some (src', q', result))
    (hfresh : ∀ new, q'.allocated = q.allocated ++ new → FreshIds q new) :
    QueueInv rows c { q' with readyProcessed := [] } ∧ Moved q q' ∧
      (result = .ok () → q'.insertError = none ∧ Front rows q'.ahead q'.readyProcessed ∧
        (q'.readyProcessed ≠ [] → q'.pendingProcessedFetch = none ∧
          q.fetched = some (.ok q'.readyProcessed))) ∧
      (∀ e, result = .error e → q'.readyProcessed = []) ∧
      (q.pendingProcessedFetch = none → q'.pendingProcessedFetch = none) := by
  unfold SamplerQueue.settleProcessed at hs
  split at hs
  · cases hs
  · rename_i q₁ e hd
    cases hs
    obtain ⟨hq₁, hkept, -⟩ := h.drainFinishedInsert hd
    exact ⟨hq₁.withReady, hkept.moved, (fun hr => by cases hr), fun _ _ => hq₁.ready,
      hkept.fetch_none⟩
  · rename_i q₁ hd
    obtain ⟨hq₁, hkept, hok⟩ := h.drainFinishedInsert hd
    obtain ⟨added, hpumped, -⟩ := q₁.ensureInsertPump_pumped src
    generalize q₁.ensureInsertPump src = pumped at hs hpumped
    obtain ⟨src₂, q₂⟩ := pumped
    generalize hq₃ : q₂.drainFinishedProcessedFetch = drained at hs
    obtain ⟨q₃, fetched⟩ := drained
    simp only [hq₃, Option.some.injEq, Prod.mk.injEq] at hs
    obtain ⟨-, rfl, rfl⟩ := hs
    change q₁.Pumped q₂ added at hpumped
    have hkept₃ : Kept q₂ q₃ := .drainFinishedProcessedFetch hq₃
    have hgiven : q₃.allocated = q.allocated ++ added.flatMap (·.produced) := by
      rw [hkept₃.allocated, hpumped.eq, hkept.allocated]
    have hq₂ : QueueInv rows c q₂ := hq₁.pumped hpumped ((hfresh _ hgiven).kept hkept)
    obtain ⟨hinv, herror, hfront, hnone⟩ := hq₂.drainFinishedProcessedFetch hq₃
    refine ⟨hinv, hkept.moved.trans (hpumped.moved.trans hkept₃.moved), fun hr => ?_, hnone,
      fun hfetch => hkept₃.fetch_none (hpumped.fetch.trans (hkept.fetch_none hfetch))⟩
    obtain ⟨hfront, hfetch⟩ := hfront hr
    refine ⟨?_, hfront, fun hne => ?_⟩
    · rw [herror, hpumped.eq]
      exact hok rfl
    · obtain ⟨hnone, hfetched⟩ := hfetch hne
      exact ⟨hnone, hkept.fetched (hpumped.fetched ▸ hfetched)⟩

theorem SamplerQueue.Flushed.settleProcessed (h : q.Flushed) {notify : Except StoreError Unit}
    {src src' : IdSource} {q' : SamplerQueue P C Res} {result : Except StoreError Unit}
    (hs : q.settleProcessed notify src = some (src', q', result)) : q'.Flushed := by
  unfold SamplerQueue.settleProcessed at hs
  split at hs
  · cases hs
  · rename_i q₁ e hd
    cases hs
    exact h.drainFinishedInsert hd
  · rename_i q₁ hd
    have hq₁ := h.drainFinishedInsert hd
    obtain ⟨added, hpumped, -⟩ := q₁.ensureInsertPump_pumped src
    generalize q₁.ensureInsertPump src = pumped at hs hpumped
    obtain ⟨src₂, q₂⟩ := pumped
    simp only [Option.some.injEq, Prod.mk.injEq] at hs
    obtain ⟨-, rfl, -⟩ := hs
    have hq₂ : q₂.Flushed := hq₁.pumped hpumped
    unfold SamplerQueue.drainFinishedProcessedFetch
    split
    · exact hq₂
    · split <;> exact ⟨hq₂.buffer, hq₂.tasks, hq₂.error⟩

theorem SamplerQueue.Flushed.getProcessedReady (h : q.Flushed) {notify : Except StoreError Unit}
    {src src' : IdSource} {q' : SamplerQueue P C Res}
    {result : Except StoreError (List (CompletedBatch Res))}
    (hg : q.getProcessedReady notify src = some (src', q', result)) : q'.Flushed := by
  unfold SamplerQueue.getProcessedReady at hg
  split at hg
  · cases hg
  · rename_i hs
    cases hg
    exact h.settleProcessed hs
  · rename_i hs
    cases hg
    have hq := h.settleProcessed hs
    exact ⟨hq.buffer, hq.tasks, hq.error⟩

/-- Below the first id of every outstanding insert nothing is outstanding. -/
theorem QueueInv.before_le (h : QueueInv rows c q) {before : Int}
    (hb : (q.pendingInsertTasks.map (·.firstBatchId)).min? = some before) :
    ∀ t ∈ q.pendingInsertTasks, ∀ p ∈ t.produced, before ≤ p.id := by
  intro t ht p hp
  have htask := h.tasks t ht
  have hfirst : before ≤ t.firstBatchId :=
    (List.min?_eq_some_iff.1 hb).2 _ (List.mem_map_of_mem ht)
  obtain ⟨b, rest, hbatches⟩ := List.exists_cons_of_ne_nil htask.nonempty
  have hsorted : Ascends Produced.id (⟨b.id, b.batchSize, t.requiresTrainingValues⟩ ::
      rest.map fun b => ⟨b.id, b.batchSize, t.requiresTrainingValues⟩) := by
    have := htask.ascend
    rwa [PendingInsertTask.produced, hbatches] at this
  have hid : t.firstBatchId = b.id := by simp [PendingInsertTask.firstBatchId, hbatches]
  rw [PendingInsertTask.produced, hbatches, List.map_cons] at hp
  rcases List.mem_cons.1 hp with rfl | hp
  · exact hfirst.trans hid.le
  · exact (hfirst.trans hid.le).trans ((List.pairwise_cons.1 hsorted).1 p hp).le

theorem QueueInv.ensureProcessedPrefetch (h : QueueInv rows c { q with readyProcessed := [] })
    (src : IdSource) (herror : q.insertError = none) :
    QueueInv rows c { (q.ensureProcessedPrefetch src).2 with readyProcessed := [] } := by
  unfold SamplerQueue.ensureProcessedPrefetch
  split
  · exact h
  · refine
      { h with
        fetch := fun f hf => ?_
        fence := fun hne => absurd herror hne }
    cases hf
    refine ⟨rfl, fun t ht _ p hp => ?_, fun completed hres => by cases hres⟩
    cases hmin : (q.pendingInsertTasks.map (·.firstBatchId)).min? with
    | some before => exact h.before_le hmin t ht p hp
    | none =>
      rw [List.min?_eq_none_iff, List.map_eq_nil_iff] at hmin
      exact absurd ht (by simp [hmin])

theorem SamplerQueue.ensureProcessedPrefetch_moved (src : IdSource) (q : SamplerQueue P C Res) :
    Moved q (q.ensureProcessedPrefetch src).2 ∧
      (q.ensureProcessedPrefetch src).2.insertError = q.insertError ∧
      (q.ensureProcessedPrefetch src).2.readyProcessed = q.readyProcessed ∧
      (q.ensureProcessedPrefetch src).2.allocated = q.allocated ∧
      (q.readyProcessed ≠ [] →
        (q.ensureProcessedPrefetch src).2.pendingProcessedFetch = q.pendingProcessedFetch) := by
  unfold SamplerQueue.ensureProcessedPrefetch
  split
  · exact ⟨.refl q, rfl, rfl, rfl, fun _ => rfl⟩
  · rename_i hidle
    refine ⟨⟨rfl, rfl, rfl, rfl, [], by simp, by simp; rfl⟩, rfl, rfl, rfl, fun hne => ?_⟩
    exact absurd (List.isEmpty_iff.1 (by simp at hidle; simp [hidle.1])) hne

theorem Moved.taken {q q' : SamplerQueue P C Res} (h : Moved q q') :
    Moved q { q' with readyProcessed := [] } := by
  obtain ⟨new, hnew, hsum⟩ := h.grown
  exact ⟨h.runId, h.taskId, h.handed, h.cursor, new, hnew, hsum⟩

/-- `get_processed_ready`. -/
theorem QueueInv.getProcessedReady (h : QueueInv rows c q) {notify : Except StoreError Unit}
    {src src' : IdSource} {q' : SamplerQueue P C Res}
    {result : Except StoreError (List (CompletedBatch Res))}
    (hg : q.getProcessedReady notify src = some (src', q', result))
    (hfresh : ∀ new, q'.allocated = q.allocated ++ new → FreshIds q new) :
    Collected rows c q q' result ∧
      (q.pendingProcessedFetch = none → q'.pendingProcessedFetch = none) ∧
      ∀ completed, result = .ok completed → completed ≠ [] → q.fetched = some (.ok completed) := by
  unfold SamplerQueue.getProcessedReady at hg
  split at hg
  · cases hg
  · rename_i src₁ q₁ e hs
    cases hg
    obtain ⟨hinv, hmoved, -, hready, hnone⟩ := h.settleProcessed hs hfresh
    exact ⟨⟨hinv.ofReady (hready e rfl), hmoved, fun _ he => by cases he⟩, hnone,
      fun _ he => by cases he⟩
  · rename_i src₁ q₁ hs
    cases hg
    obtain ⟨hinv, hmoved, hfront, -, hnone⟩ := h.settleProcessed hs hfresh
    obtain ⟨herror, hfront, hfetch⟩ := hfront rfl
    refine ⟨⟨hinv, hmoved.taken, fun completed hc => ?_⟩, hnone, fun completed hc hne => ?_⟩
    · cases hc
      exact ⟨herror, hfront, fun hne => (hfetch hne).1⟩
    · cases hc
      exact (hfetch hne).2

/-- `get_processed`. -/
theorem QueueInv.getProcessed (h : QueueInv rows c q) {notify : Except StoreError Unit}
    {src src' : IdSource} {q' : SamplerQueue P C Res}
    {result : Except StoreError (List (CompletedBatch Res))}
    (hg : q.getProcessed notify src = some (src', q', result))
    (hfresh : ∀ new, q'.allocated = q.allocated ++ new → FreshIds q new) :
    Collected rows c q q' result := by
  unfold SamplerQueue.getProcessed at hg
  split at hg
  · cases hg
  · rename_i src₁ q₁ e hs
    cases hg
    obtain ⟨hinv, hmoved, -, hready, -⟩ := h.settleProcessed hs hfresh
    exact ⟨hinv.ofReady (hready e rfl), hmoved, fun _ he => by cases he⟩
  · rename_i src₁ q₁ hs
    have hkeeps := q₁.ensureProcessedPrefetch_moved src₁
    have hkept := fun (hinv : QueueInv rows c { q₁ with readyProcessed := [] }) =>
      hinv.ensureProcessedPrefetch src₁
    generalize q₁.ensureProcessedPrefetch src₁ = prefetched at hg hkeeps hkept
    obtain ⟨src₂, q₂⟩ := prefetched
    simp only [SamplerQueue.takeReadyProcessed, Option.some.injEq, Prod.mk.injEq] at hg
    obtain ⟨-, rfl, rfl⟩ := hg
    obtain ⟨hmoved₂, herror₂, hready₂, hgiven₂, hfetch₂⟩ := hkeeps
    obtain ⟨hinv, hmoved, hfront, -⟩ := h.settleProcessed hs fun new hnew =>
      hfresh new (hgiven₂.trans hnew)
    obtain ⟨herror, hfront, hfetch⟩ := hfront rfl
    refine ⟨hkept hinv herror, (hmoved.trans hmoved₂).taken, fun completed hc => ?_⟩
    cases hc
    have hahead : q₂.ahead = q₁.ahead := by
      have hgiven : q₂.allocated = q₁.allocated ++ [] := by simpa using hgiven₂
      simpa using ahead_append hmoved₂.cursor hgiven (by simp)
    refine ⟨herror₂.trans herror, ?_, fun hne => ?_⟩
    · show Front rows q₂.ahead q₂.readyProcessed
      rw [hahead, hready₂]
      exact hfront
    · rw [hready₂] at hne
      exact (hfetch₂ hne).trans (hfetch hne).1

/-! ## Cleanup -/

theorem QueueInv.ensureCompletedCleanup (h : QueueInv rows c q) (due : Bool) :
    QueueInv rows c (q.ensureCompletedCleanup due) := by
  unfold SamplerQueue.ensureCompletedCleanup
  split
  · rename_i upTo hnone hcursor
    refine { h with cleanup := fun k hk => ?_ }
    cases hk
    exact le_of_eq (by simp [SamplerQueueCheckpoint.completed, hcursor])
  · exact h

theorem SamplerQueue.ensureCompletedCleanup_kept (due : Bool) (q : SamplerQueue P C Res) :
    Kept q (q.ensureCompletedCleanup due) ∧
      (q.ensureCompletedCleanup due).insertError = q.insertError ∧
      (q.ensureCompletedCleanup due).pendingInsertTasks = q.pendingInsertTasks := by
  unfold SamplerQueue.ensureCompletedCleanup
  split
  · exact ⟨⟨rfl, rfl, rfl, rfl, rfl, rfl, fun _ hf => hf⟩, rfl, rfl⟩
  · exact ⟨.refl q, rfl, rfl⟩

theorem QueueInv.drainFinishedCompletedCleanup (h : QueueInv rows c q) {q' : SamplerQueue P C Res}
    {result : Except StoreError Unit} (hd : q.drainFinishedCompletedCleanup = (q', result)) :
    QueueInv rows c q' ∧ Kept q q' ∧ q'.insertError = q.insertError := by
  unfold SamplerQueue.drainFinishedCompletedCleanup at hd
  split at hd
  · cases hd
    exact ⟨{ h with cleanup := fun k hk => absurd hk (by simp) },
      ⟨rfl, rfl, rfl, rfl, rfl, rfl, fun _ hf => hf⟩, rfl⟩
  · cases hd
    exact ⟨h, .refl q, rfl⟩

theorem SamplerQueue.finishBackgroundMaintenance_kept {q' : SamplerQueue P C Res}
    {result : Except StoreError Unit} (hd : q.finishBackgroundMaintenance = some (q', result)) :
    Kept q q' := by
  unfold SamplerQueue.finishBackgroundMaintenance at hd
  split at hd
  · cases hd
  · cases hd
    exact ⟨rfl, rfl, rfl, rfl, rfl, rfl, by simp⟩
  · cases hd
    exact .unfetched q

theorem QueueInv.finishBackgroundMaintenance (h : QueueInv rows c q) {q' : SamplerQueue P C Res}
    {result : Except StoreError Unit} (hd : q.finishBackgroundMaintenance = some (q', result)) :
    QueueInv rows c q' ∧ (q.Flushed → q'.Flushed) := by
  unfold SamplerQueue.finishBackgroundMaintenance at hd
  split at hd
  · cases hd
  · cases hd
    exact ⟨{ h.unfetched with cleanup := fun k hk => absurd hk (by simp) },
      fun hf => ⟨hf.buffer, hf.tasks, hf.error⟩⟩
  · cases hd
    exact ⟨h.unfetched, fun hf => ⟨hf.buffer, hf.tasks, hf.error⟩⟩

/-- The batches at the front stay there while the cursor and the ids rest. -/
theorem Kept.ahead {q q' : SamplerQueue P C Res} (h : Kept q q') : q'.ahead = q.ahead := by
  unfold SamplerQueue.ahead
  rw [h.checkpoint, h.allocated]

theorem Kept.passed {q q' : SamplerQueue P C Res} (h : Kept q q') : q'.passed = q.passed := by
  unfold SamplerQueue.passed
  rw [h.checkpoint, h.allocated]

/-- The part of a tick before its queries. -/
theorem QueueInv.tickProcessed (h : QueueInv rows c q) {notify : Except StoreError Unit}
    {due : Bool} {src src' : IdSource} {q' : SamplerQueue P C Res}
    {result : Except StoreError (List (CompletedBatch Res))}
    (ht : q.tickProcessed notify due src = some (src', q', result))
    (hfresh : ∀ new, q'.allocated = q.allocated ++ new → FreshIds q new) :
    Collected rows c q q' result := by
  unfold SamplerQueue.tickProcessed at ht
  split at ht
  · cases ht
  · rename_i src₁ q₁ e hg
    cases ht
    exact h.getProcessed hg hfresh
  · rename_i src₁ q₁ completed hg
    generalize hdrain : q₁.drainFinishedCompletedCleanup = drained at ht
    obtain ⟨q₂, cleaned⟩ := drained
    have hgiven : q₂.allocated = q₁.allocated := by
      unfold SamplerQueue.drainFinishedCompletedCleanup at hdrain
      split at hdrain <;> cases hdrain <;> rfl
    cases cleaned with
    | error e =>
      cases ht
      have hcol := h.getProcessed hg fun new hnew => hfresh new (hgiven.trans hnew)
      obtain ⟨hinv, hkept, -⟩ := hcol.inv.drainFinishedCompletedCleanup hdrain
      exact ⟨hinv, hcol.moved.trans hkept.moved, fun _ he => by cases he⟩
    | ok u =>
      cases ht
      obtain ⟨hkept₃, herror₃, -⟩ := SamplerQueue.ensureCompletedCleanup_kept due q₂
      have hcol := h.getProcessed hg fun new hnew =>
        hfresh new (hkept₃.allocated.trans (hgiven.trans hnew))
      obtain ⟨hinv, hkept, herror⟩ := hcol.inv.drainFinishedCompletedCleanup hdrain
      have hboth : Kept q₁ (q₂.ensureCompletedCleanup due) := hkept.trans hkept₃
      refine ⟨hinv.ensureCompletedCleanup due, hcol.moved.trans hboth.moved, fun taken hc => ?_⟩
      cases hc
      obtain ⟨hnone, hfront, hfetch⟩ := hcol.front completed rfl
      refine ⟨herror₃.trans (herror.trans hnone), hboth.ahead ▸ hfront, fun hne => ?_⟩
      exact hboth.fetch_none (hfetch hne)

/-! ## Consuming completed batches -/

/-- The row of a batch at the front. -/
theorem Front.row {ahead : List Produced} {completed : List (CompletedBatch Res)}
    (h : Front rows ahead completed) {p : Produced} (hp : p ∈ completed.map (·.produced)) :
    ∃ r ∈ rows, r.status = .completed ∧ r.produced = p := by
  obtain ⟨b, hb, rfl⟩ := List.mem_map.1 hp
  obtain ⟨r, hr, hstatus, hrow⟩ := h.fromRows b hb
  exact ⟨r, hr, hstatus, (produced_of_toCompleted hrow).symm⟩

/-- The cursor at the last of the batches at the front. -/
theorem QueueInv.moveCursor (h : QueueInv rows c q) (hrows : Ascends BatchRow.id rows)
    (herror : q.insertError = none) {completed : List (CompletedBatch Res)}
    (hf : Front rows q.ahead completed)
    (hfetch : completed ≠ [] → q.pendingProcessedFetch = none) :
    QueueInv rows c (q.moveCursor completed) ∧
      (q.moveCursor completed).passed = q.passed ++ completed.map (·.produced) ∧
      q.ahead = completed.map (·.produced) ++ (q.moveCursor completed).ahead := by
  by_cases hne : completed = []
  · subst hne
    exact ⟨h, by simp [SamplerQueue.moveCursor], rfl⟩
  have hfetch := hfetch hne
  obtain ⟨last, hlast⟩ : ∃ last, completed.getLast? = some last :=
    Option.isSome_iff_exists.1 (by simpa using hne)
  have hq' : q.moveCursor completed = { q with
      checkpoint := { q.checkpoint with lastCompletedBatchId := some last.batchId } } := by
    rw [SamplerQueue.moveCursor, hlast]
  rw [hq']
  obtain ⟨rest, hrest⟩ := hf.isPrefix
  have hend : (completed.map (·.produced)).getLast? = some last.produced := by
    rw [List.getLast?_map, hlast]
    rfl
  obtain ⟨hpassed, hahead⟩ := h.ascend.advance hrest.symm hend
  have hmem : last.produced ∈ q.ahead := by
    rw [← hrest]
    exact List.mem_append_left _ (List.mem_of_getLast? hend)
  have hlt : q.checkpoint.completed < last.batchId := (mem_frontier.1 hmem).2
  have habove : ∀ p ∈ rest, last.batchId < p.id := by
    rw [← hahead]
    exact fun p hp => (mem_frontier.1 hp).2
  -- what the cursor passes has been completed
  have hfront : ∀ p ∈ q.ahead, p.id ≤ last.batchId → ∃ r ∈ rows, r.status = .completed ∧
      r.produced = p := by
    intro p hp hle
    rw [← hrest] at hp
    rcases List.mem_append.1 hp with hp | hp
    · exact hf.row hp
    · exact absurd (habove p hp) (not_lt.2 hle)
  refine ⟨?_, hpassed, hrest.symm.trans (congrArg _ hahead.symm)⟩
  refine
    { h with
      cursor := ⟨h.cursor.1.trans hlt.le, h.le_produced (mem_frontier.1 hmem).1⟩
      tasks := fun t ht =>
        { h.tasks t ht with
          running := fun hrun p hp => ?running }
      below := ?below, cover := ?cover
      fetch := fun f hf => by rw [hfetch] at hf; cases hf
      fence := fun hne => absurd herror hne
      cleanup := fun k hk => (h.cleanup k hk).trans hlt.le
      savedCursor := h.savedCursor.trans hlt.le }
  case running =>
    obtain ⟨hcursor, hrow⟩ := (h.tasks t ht).running hrun p hp
    refine ⟨?_, hrow⟩
    by_contra hle
    have hpa : p ∈ q.ahead := mem_frontier.2 ⟨(h.tasks t ht).sub p hp, hcursor⟩
    obtain ⟨r, hr, -, rfl⟩ := hfront p hpa (not_lt.1 hle)
    exact hrow r hr rfl
  case below =>
    intro r hr hle
    by_cases hold : r.id ≤ q.checkpoint.completed
    · exact h.below r hr hold
    · have hra : r.produced ∈ q.ahead := mem_frontier.2 ⟨h.known r hr, not_le.1 hold⟩
      obtain ⟨r', hr', hstatus, heq⟩ := hfront _ hra hle
      rwa [hrows.eq_of_key hr hr' (congrArg Produced.id heq).symm]
  case cover =>
    intro hfenced p hp
    obtain ⟨hgiven, hlate⟩ := mem_frontier.1 hp
    exact h.cover hfenced p (mem_frontier.2 ⟨hgiven, hlt.trans hlate⟩)

/-- What `mark_processed` leaves alone. -/
structure Marked (q q' : SamplerQueue P C Res) : Prop where
  runId : q'.runId = q.runId
  taskId : q'.taskId = q.taskId
  handed : q'.handed = q.handed
  allocated : q'.allocated = q.allocated
  pendingInsert : q'.pendingInsert = q.pendingInsert
  pendingInsertTasks : q'.pendingInsertTasks = q.pendingInsertTasks
  insertError : q'.insertError = q.insertError
  fetch : q'.pendingProcessedFetch = q.pendingProcessedFetch
  config : q'.config = q.config

theorem SamplerQueue.markProcessed_marked (completed : List (CompletedBatch Res)) (due : Bool)
    (q : SamplerQueue P C Res) : Marked q (q.markProcessed completed due) := by
  have hmoved : Marked q (q.moveCursor completed) := by
    unfold SamplerQueue.moveCursor
    split <;> exact ⟨rfl, rfl, rfl, rfl, rfl, rfl, rfl, rfl, rfl⟩
  unfold SamplerQueue.markProcessed SamplerQueue.ensureCompletedCleanup
  split
  · exact ⟨hmoved.runId, hmoved.taskId, hmoved.handed, hmoved.allocated, hmoved.pendingInsert,
      hmoved.pendingInsertTasks, hmoved.insertError, hmoved.fetch, hmoved.config⟩
  · exact hmoved

/-- `mark_processed` for the batches at the front. -/
theorem QueueInv.markProcessed (h : QueueInv rows c q) (hrows : Ascends BatchRow.id rows)
    (herror : q.insertError = none) {completed : List (CompletedBatch Res)}
    (hf : Front rows q.ahead completed)
    (hfetch : completed ≠ [] → q.pendingProcessedFetch = none) (due : Bool) :
    QueueInv rows c (q.markProcessed completed due) ∧
      (q.markProcessed completed due).passed = q.passed ++ completed.map (·.produced) ∧
      q.ahead = completed.map (·.produced) ++ (q.markProcessed completed due).ahead := by
  obtain ⟨hinv, hpassed, hahead⟩ := h.moveCursor hrows herror hf hfetch
  have hkept := ((q.moveCursor completed).ensureCompletedCleanup_kept due).1
  refine ⟨hinv.ensureCompletedCleanup due, ?_, hahead.trans (congrArg _ hkept.ahead.symm)⟩
  rw [← hpassed]
  simp only [SamplerQueue.passed, SamplerQueue.markProcessed, hkept.checkpoint, hkept.allocated]

/-! ## Producing -/

/-- What handing batches of this many samples to the queue does to it. -/
structure Refilled (q q' : SamplerQueue P C Res) (sent : Int) : Prop where
  runId : q'.runId = q.runId
  taskId : q'.taskId = q.taskId
  handed : q'.handed = q.handed
  insertError : q'.insertError = q.insertError
  fetch : q'.pendingProcessedFetch = q.pendingProcessedFetch
  cursor : q'.checkpoint.lastCompletedBatchId = q.checkpoint.lastCompletedBatchId
  grown : ∃ new, q'.allocated = q.allocated ++ new ∧
    q.bufferedSamples + sent = samples new + q'.bufferedSamples

theorem SamplerQueue.bufferedSamples_buffer (batches : List (EvaluationBatch P C))
    (requiresFeedback : Bool) (q : SamplerQueue P C Res) :
    (q.buffer batches requiresFeedback).bufferedSamples =
      q.bufferedSamples + (batches.map fun b => (b.samples.nrSamples : Int)).sum := by
  simp [SamplerQueue.buffer, SamplerQueue.bufferedSamples, SamplerQueue.sizes, Function.comp_def]

/-- `ingest` puts the batches into the buffer and starts inserting. -/
theorem SamplerQueue.ingest_refilled (batches : List (EvaluationBatch P C)) (requiresFeedback : Bool)
    (src : IdSource) (q : SamplerQueue P C Res) :
    Refilled q (q.ingest batches requiresFeedback src).2
      (batches.map fun b => (b.samples.nrSamples : Int)).sum := by
  obtain ⟨added, hpumped, -⟩ := (q.buffer batches requiresFeedback).ensureInsertPump_pumped src
  have heq := hpumped.eq
  have hsum := hpumped.samples
  rw [q.bufferedSamples_buffer] at hsum
  unfold SamplerQueue.ingest
  refine ⟨?_, ?_, ?_, ?_, ?_, ?_, added.flatMap (·.produced), ?_, hsum⟩ <;> rw [heq] <;> rfl

/-- With nothing to send and nothing buffered, nothing starts. -/
theorem SamplerQueue.ingest_nil (requiresFeedback : Bool) (src : IdSource)
    (h : q.pendingInsert = []) :
    (q.ingest [] requiresFeedback src).2.pendingInsert = [] ∧
      (q.ingest [] requiresFeedback src).2.pendingInsertTasks = q.pendingInsertTasks ∧
      (q.ingest [] requiresFeedback src).2.allocated = q.allocated := by
  obtain ⟨added, hpumped, -⟩ := (q.buffer [] requiresFeedback).ensureInsertPump_pumped src
  obtain ⟨rfl, hbuffer⟩ := hpumped.emptied (by simp [SamplerQueue.buffer, h])
  have heq := hpumped.eq
  unfold SamplerQueue.ingest
  refine ⟨hbuffer, ?_, ?_⟩ <;> rw [heq] <;> simp [SamplerQueue.buffer]

theorem QueueInv.ingest (h : QueueInv rows c q) {batches : List (EvaluationBatch P C)}
    {requiresFeedback : Bool} {src : IdSource}
    (hfresh : ∀ new, (q.ingest batches requiresFeedback src).2.allocated = q.allocated ++ new →
      FreshIds q new) :
    QueueInv rows c (q.ingest batches requiresFeedback src).2 := by
  obtain ⟨added, hpumped, -⟩ := (q.buffer batches requiresFeedback).ensureInsertPump_pumped src
  have hgiven : (q.ingest batches requiresFeedback src).2.allocated
      = q.allocated ++ added.flatMap (·.produced) := by
    unfold SamplerQueue.ingest
    rw [hpumped.eq]
    rfl
  have hbuffer : QueueInv rows c (q.buffer batches requiresFeedback) := { h with }
  have hf := hfresh _ hgiven
  exact hbuffer.pumped hpumped { hf with }

end Gammaboard.Runners
