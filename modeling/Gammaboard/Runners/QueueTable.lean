import Gammaboard.Runners.QueueInvariant

/-!
# The table under a sampler queue

`TableInv` is what holds of the rows of a task, `SavedInv` ties the saved
checkpoint to them. There is one lemma for each kind of statement: what
evaluators do, an insert, a prefetch, a cleanup, a save and a restore.
-/

namespace Gammaboard.Runners

open Gammaboard.Core Gammaboard.Stores Gammaboard.Lib Gammaboard.Sampling Gammaboard.Evaluation

variable {V P A M C Res In : Type}

/-! ## Tables -/

/-- The rows of one task in primary-key order; `accept` is what is known of a completed row and
its result. -/
structure TableInv (runId taskId : Int) (accept : BatchRow In Res → Res → Prop)
    (rows : List (BatchRow In Res)) : Prop where
  ascend : Ascends BatchRow.id rows
  run : ∀ r ∈ rows, r.runId = runId ∧ r.taskId = taskId
  result : ∀ r ∈ rows, r.status = .completed → ∃ x, r.result = some x ∧ accept r x

/-- Rows have changed in place or gone: no batch is new, the batches `keep` asks for are still
there, and what was completed is as it was. -/
structure Undisturbed (keep : BatchRow In Res → Prop) (rows rows' : List (BatchRow In Res)) :
    Prop where
  back : ∀ r' ∈ rows', ∃ r ∈ rows, r'.produced = r.produced ∧ (r.status = .completed → r' = r)
  kept : ∀ r ∈ rows, keep r → ∃ r' ∈ rows', r'.produced = r.produced ∧
    (r.status = .completed → r' = r)

theorem Undisturbed.mono {keep keep' : BatchRow In Res → Prop} {rows rows' : List (BatchRow In Res)}
    (h : Undisturbed keep rows rows') (hk : ∀ r ∈ rows, keep' r → keep r) :
    Undisturbed keep' rows rows' :=
  ⟨h.back, fun r hr hkeep => h.kept r hr (hk r hr hkeep)⟩

/-- An evaluator's statement leaves every batch in the table. -/
theorem undisturbed_of_touched {accept : BatchRow In Res → Res → Prop}
    {rows rows' : List (BatchRow In Res)} (h : Touched accept rows rows') :
    Undisturbed (fun _ => True) rows rows' where
  back := by
    intro r' hr'
    obtain ⟨r, hr, hc⟩ := h.backward hr'
    exact ⟨r, hr, hc.sameBatch.produced_eq, hc.eq_of_completed⟩
  kept := by
    intro r hr _
    obtain ⟨r', hr', hc⟩ := h.forward hr
    exact ⟨r', hr', hc.sameBatch.produced_eq, hc.eq_of_completed⟩

/-- Deleting rows leaves the others. -/
theorem undisturbed_filter (keep : BatchRow In Res → Bool) (rows : List (BatchRow In Res)) :
    Undisturbed (fun r => keep r = true) rows (rows.filter keep) where
  back := fun r' hr' => ⟨r', (List.mem_filter.1 hr').1, rfl, fun _ => rfl⟩
  kept := fun r hr hkeep => ⟨r, List.mem_filter.2 ⟨hr, hkeep⟩, rfl, fun _ => rfl⟩

theorem TableInv.touched {runId taskId : Int} {accept : BatchRow In Res → Res → Prop}
    {rows rows' : List (BatchRow In Res)} (h : TableInv runId taskId accept rows)
    (ht : Touched accept rows rows')
    (hsame : ∀ r s x, r.SameBatch s → accept r x → accept s x) :
    TableInv runId taskId accept rows' where
  ascend := by
    have hids := List.pairwise_map.2 h.ascend
    rw [← ht.map_id] at hids
    exact List.pairwise_map.1 hids
  run := by
    intro r' hr'
    obtain ⟨r, hr, hc⟩ := ht.backward hr'
    rw [hc.sameBatch.runId, hc.sameBatch.taskId]
    exact h.run r hr
  result := by
    intro r' hr' hstatus
    obtain ⟨r, hr, hc⟩ := ht.backward hr'
    rcases hc.completed hstatus with rfl | ⟨x, heq, hx⟩
    · exact h.result _ hr hstatus
    · exact ⟨x, by rw [heq]; rfl, hsame r r' x hc.sameBatch hx⟩

theorem TableInv.filter {runId taskId : Int} {accept : BatchRow In Res → Res → Prop}
    {rows : List (BatchRow In Res)} (h : TableInv runId taskId accept rows)
    (keep : BatchRow In Res → Bool) : TableInv runId taskId accept (rows.filter keep) where
  ascend := h.ascend.sublist List.filter_sublist
  run := fun r hr => h.run r (List.mem_filter.1 hr).1
  result := fun r hr => h.result r (List.mem_filter.1 hr).1

/-! ## What the queue keeps -/

variable {rows rows' : List (BatchRow (EvaluationBatch P C) Res)}
  {c : SamplerAggregatorCheckpoint V P A M} {q : SamplerQueue P C Res}

/-- Completed rows ahead of the cursor stay where they are. -/
theorem Front.undisturbed {cursor : Int} {allocated : List Produced}
    {completed : List (CompletedBatch Res)}
    (h : Front rows (frontier Produced.id cursor allocated) completed)
    (hu : Undisturbed (fun r => cursor < r.id) rows rows') :
    Front rows' (frontier Produced.id cursor allocated) completed := by
  refine ⟨h.isPrefix, fun b hb => ?_⟩
  obtain ⟨r, hr, hstatus, hrow⟩ := h.fromRows b hb
  have hahead : b.produced ∈ frontier Produced.id cursor allocated :=
    h.isPrefix.subset (List.mem_map_of_mem hb)
  have hid : r.id = b.produced.id := by rw [produced_of_toCompleted hrow]; rfl
  obtain ⟨r', hr', -, hsame⟩ := hu.kept r hr (hid ▸ (mem_frontier.1 hahead).2)
  rw [hsame hstatus] at hr'
  exact ⟨r, hr', hstatus, hrow⟩

theorem QueueInv.undisturbed (h : QueueInv rows c q)
    (hu : Undisturbed (fun r => q.checkpoint.completed < r.id) rows rows') :
    QueueInv rows' c q := by
  refine
    { h with
      tasks := fun t ht =>
        { h.tasks t ht with
          running := fun hrun p hp =>
            ⟨((h.tasks t ht).running hrun p hp).1, fun r' hr' hid => ?running⟩ }
      known := ?known, below := ?below, cover := ?cover
      fetch := fun f hf =>
        { h.fetch f hf with
          result := fun completed hres => ((h.fetch f hf).result completed hres).undisturbed hu } }
  case running =>
    obtain ⟨r, hr, heq, -⟩ := hu.back r' hr'
    exact ((h.tasks t ht).running hrun p hp).2 r hr ((congrArg Produced.id heq).symm.trans hid)
  case known =>
    intro r' hr'
    obtain ⟨r, hr, heq, -⟩ := hu.back r' hr'
    exact heq ▸ h.known r hr
  case below =>
    intro r' hr' hle
    obtain ⟨r, hr, heq, hsame⟩ := hu.back r' hr'
    have hid : r'.id = r.id := congrArg Produced.id heq
    have hstatus := h.below r hr (hid ▸ hle)
    rw [hsame hstatus]
    exact hstatus
  case cover =>
    intro hfenced p hp
    rcases h.cover hfenced p hp with ⟨r, hr, rfl⟩ | htask
    · obtain ⟨r', hr', heq, -⟩ := hu.kept r hr (mem_frontier.1 hp).2
      exact .inl ⟨r', hr', heq⟩
    · exact .inr htask

/-! ## Inserts -/

/-- A step of one insert task of the queue. -/
theorem set_task {tasks : List (PendingInsertTask (EvaluationBatch P C))} {i : Nat}
    {t : PendingInsertTask (EvaluationBatch P C)} (ht : tasks[i]? = some t) :
    ∃ before after, tasks = before ++ t :: after ∧
      ∀ t', tasks.set i t' = before ++ t' :: after := by
  obtain ⟨hi, rfl⟩ := List.getElem?_eq_some_iff.1 ht
  refine ⟨tasks.take i, tasks.drop (i + 1), ?_, fun t' => ?_⟩
  · rw [← List.drop_eq_getElem_cons hi, List.take_append_drop]
  · rw [List.set_eq_take_append_cons_drop, if_pos hi]

/-- What a task does never changes its batches. -/
theorem disjoint_set {tasks : List (PendingInsertTask (EvaluationBatch P C))} {i : Nat}
    {t t' : PendingInsertTask (EvaluationBatch P C)} (ht : tasks[i]? = some t)
    (hp : t'.produced = t.produced)
    (h : (tasks.flatMap (·.produced)).Pairwise fun a b => a.id ≠ b.id) :
    ((tasks.set i t').flatMap (·.produced)).Pairwise fun a b => a.id ≠ b.id := by
  obtain ⟨before, after, hsplit, hset⟩ := set_task ht
  rw [hsplit] at h
  simpa only [hset, List.flatMap_append, List.flatMap_cons, hp] using h

/-- A task of the queue has finished or failed. -/
theorem QueueInv.insertReturns (h : QueueInv rows c q) {i : Nat}
    {t : PendingInsertTask (EvaluationBatch P C)} (ht : q.pendingInsertTasks[i]? = some t)
    {result : Except StoreError Unit} (hr : result = .ok () → t.committed = true) :
    QueueInv rows c
      { q with
        pendingInsertTasks := q.pendingInsertTasks.set i { t with outcome := some result } } := by
  obtain ⟨before, after, hsplit, hset⟩ := set_task ht
  have hmem : t ∈ q.pendingInsertTasks := List.mem_of_getElem? ht
  -- the task is still there, with the same batches and as far committed
  have hback : ∀ t' ∈ q.pendingInsertTasks.set i { t with outcome := some result },
      ∃ t₀ ∈ q.pendingInsertTasks, t'.batches = t₀.batches ∧ t'.produced = t₀.produced ∧
        t'.committed = t₀.committed ∧ (t'.outcome = some (.ok ()) → t'.committed = true) := by
    intro t' ht'
    rw [hset] at ht'
    rcases List.mem_append.1 ht' with hold | hnew
    · have hin : t' ∈ q.pendingInsertTasks := hsplit ▸ List.mem_append_left _ hold
      exact ⟨t', hin, rfl, rfl, rfl, (h.tasks t' hin).finished⟩
    rcases List.mem_cons.1 hnew with rfl | hold
    · exact ⟨t, hmem, rfl, rfl, rfl, fun hfin => hr (Option.some.inj hfin)⟩
    · have hin : t' ∈ q.pendingInsertTasks :=
        hsplit ▸ List.mem_append_right _ (List.mem_cons_of_mem _ hold)
      exact ⟨t', hin, rfl, rfl, rfl, (h.tasks t' hin).finished⟩
  refine
    { h with
      tasks := ?tasks
      disjoint := disjoint_set ht rfl h.disjoint
      cover := ?cover
      fetch := fun f hf =>
        { h.fetch f hf with bound := ?bound } }
  case tasks =>
    intro t' ht'
    obtain ⟨t₀, hin, hbatches, hproduced, hcommitted, hfinished⟩ := hback t' ht'
    have hold := h.tasks t₀ hin
    exact ⟨hbatches ▸ hold.nonempty, hproduced ▸ hold.ascend, hproduced ▸ hold.sub,
      hproduced ▸ hold.unsaved, hproduced ▸ hcommitted ▸ hold.running, hfinished⟩
  case cover =>
    intro hfenced p hp
    rcases h.cover hfenced p hp with hrow | ⟨t', hin, hrun, hpt⟩
    · exact .inl hrow
    rw [hsplit] at hin
    rcases List.mem_append.1 hin with hold | hnew
    · exact .inr ⟨t', hset _ ▸ List.mem_append_left _ hold, hrun, hpt⟩
    rcases List.mem_cons.1 hnew with rfl | hold
    · exact .inr ⟨{ t' with outcome := some result },
        hset _ ▸ List.mem_append_right _ List.mem_cons_self, hrun, hpt⟩
    · exact .inr ⟨t', hset _ ▸ List.mem_append_right _ (List.mem_cons_of_mem _ hold), hrun, hpt⟩
  case bound =>
    intro t' ht' hrun p hp
    obtain ⟨t₀, hin, -, hproduced, hcommitted, -⟩ := hback t' ht'
    exact (h.fetch f hf).bound t₀ hin (hcommitted ▸ hrun) p (hproduced ▸ hp)

/-- The rows of a bundle. -/
def PendingInsertTask.newRows (Res : Type) (runId taskId : Int) (createdAt : Nat)
    (t : PendingInsertTask (EvaluationBatch P C)) : List (BatchRow (EvaluationBatch P C) Res) :=
  t.batches.map (·.toRow runId taskId t.requiresTrainingValues createdAt)

theorem PendingInsertTask.produced_newRows (Res : Type) (runId taskId : Int) (createdAt : Nat)
    (t : PendingInsertTask (EvaluationBatch P C)) :
    (t.newRows Res runId taskId createdAt).map (·.produced) = t.produced := by
  simp [PendingInsertTask.newRows, PendingInsertTask.produced, NewBatch.toRow, BatchRow.produced,
    Function.comp_def]

/-- A committed bundle has put its rows, and no others, into the table. -/
theorem insertBatches_ok {runId taskId : Int} {createdAt : Nat}
    {t : PendingInsertTask (EvaluationBatch P C)}
    (hi : insertBatches runId taskId t.requiresTrainingValues createdAt t.batches rows =
      (.ok (), rows')) :
    rows' = (t.newRows Res runId taskId createdAt).foldr insertRow rows ∧
      (t.batches.map (·.id)).Nodup ∧ ∀ b ∈ t.batches, ∀ r ∈ rows, r.id ≠ b.id := by
  unfold insertBatches at hi
  split at hi
  · rename_i hfree
    cases hi
    exact ⟨rfl, hfree.1, hfree.2⟩
  · cases hi

theorem mem_foldr_insertRow {new : List (BatchRow In Res)} {rows : List (BatchRow In Res)}
    {r : BatchRow In Res} : r ∈ new.foldr insertRow rows ↔ r ∈ new ∨ r ∈ rows := by
  rw [(foldr_insertRow_perm new rows).mem_iff, List.mem_append]

theorem ascends_foldr_insertRow {new rows : List (BatchRow In Res)} (hrows : Ascends BatchRow.id rows)
    (hnew : (new.map (·.id)).Nodup) (hfree : ∀ x ∈ new, ∀ r ∈ rows, r.id ≠ x.id) :
    Ascends BatchRow.id (new.foldr insertRow rows) := by
  induction new with
  | nil => exact hrows
  | cons x new ih =>
    rw [List.map_cons, List.nodup_cons] at hnew
    have hrest := ih hnew.2 fun y hy => hfree y (List.mem_cons_of_mem _ hy)
    refine hrest.orderedInsert fun y hy => ?_
    rcases mem_foldr_insertRow.1 hy with hy | hy
    · intro heq
      exact hnew.1 (heq ▸ List.mem_map_of_mem hy)
    · exact hfree x List.mem_cons_self y hy

theorem TableInv.insertCommits {runId taskId : Int} {createdAt : Nat}
    {accept : BatchRow (EvaluationBatch P C) Res → Res → Prop}
    (h : TableInv runId taskId accept rows) {t : PendingInsertTask (EvaluationBatch P C)}
    (hi : insertBatches runId taskId t.requiresTrainingValues createdAt t.batches rows =
      (.ok (), rows')) : TableInv runId taskId accept rows' := by
  obtain ⟨rfl, hnodup, hfree⟩ := insertBatches_ok hi
  have hnew : ∀ r ∈ t.newRows Res runId taskId createdAt,
      ∃ b ∈ t.batches, b.toRow runId taskId t.requiresTrainingValues createdAt = r :=
    fun r hr => List.mem_map.1 hr
  refine ⟨ascends_foldr_insertRow h.ascend ?_ ?_, ?_, ?_⟩
  · rw [PendingInsertTask.newRows, List.map_map]
    exact hnodup
  · intro x hx r hr
    obtain ⟨b, hb, rfl⟩ := hnew x hx
    exact hfree b hb r hr
  · intro r hr
    rcases mem_foldr_insertRow.1 hr with hr | hr
    · obtain ⟨b, -, rfl⟩ := hnew r hr
      exact ⟨rfl, rfl⟩
    · exact h.run r hr
  · intro r hr hstatus
    rcases mem_foldr_insertRow.1 hr with hr | hr
    · obtain ⟨b, -, rfl⟩ := hnew r hr
      cases hstatus
    · exact h.result r hr hstatus

/-- A bundle commits: its batches are rows now. -/
theorem QueueInv.insertCommits (h : QueueInv rows c q) {runId taskId : Int} {createdAt i : Nat}
    {t : PendingInsertTask (EvaluationBatch P C)} (ht : q.pendingInsertTasks[i]? = some t)
    (hrun : t.committed = false)
    (hi : insertBatches runId taskId t.requiresTrainingValues createdAt t.batches rows =
      (.ok (), rows')) :
    QueueInv rows' c
      { q with pendingInsertTasks := q.pendingInsertTasks.set i { t with committed := true } } := by
  obtain ⟨before, after, hsplit, hset⟩ := set_task ht
  obtain ⟨rfl, -, -⟩ := insertBatches_ok hi
  have htask := h.tasks t (List.mem_of_getElem? ht)
  have hnew : ∀ r ∈ t.newRows Res runId taskId createdAt, r.produced ∈ t.produced :=
    fun r hr => t.produced_newRows Res runId taskId createdAt ▸ List.mem_map_of_mem hr
  -- no other task shares an id with the one that commits
  have hother : ∀ t' ∈ before ++ after, t' ∈ q.pendingInsertTasks ∧
      ∀ p ∈ t'.produced, ∀ x ∈ t.produced, x.id ≠ p.id := by
    intro t' ht'
    have hdisjoint := h.disjoint
    rw [hsplit, List.flatMap_append, List.flatMap_cons] at hdisjoint
    obtain ⟨-, hright, hcross⟩ := List.pairwise_append.1 hdisjoint
    obtain ⟨-, -, hafter⟩ := List.pairwise_append.1 hright
    rcases List.mem_append.1 ht' with hb | ha
    · refine ⟨hsplit ▸ List.mem_append_left _ hb, fun p hp x hx => ?_⟩
      exact (hcross p (List.mem_flatMap.2 ⟨t', hb, hp⟩) x (List.mem_append_left _ hx)).symm
    · refine ⟨hsplit ▸ List.mem_append_right _ (List.mem_cons_of_mem _ ha), fun p hp x hx => ?_⟩
      exact hafter x hx p (List.mem_flatMap.2 ⟨t', ha, hp⟩)
  have hback : ∀ t' ∈ q.pendingInsertTasks.set i { t with committed := true },
      t' = { t with committed := true } ∨ t' ∈ before ++ after := by
    intro t' ht'
    rw [hset] at ht'
    rcases List.mem_append.1 ht' with hb | ha
    · exact .inr (List.mem_append_left _ hb)
    rcases List.mem_cons.1 ha with rfl | ha
    · exact .inl rfl
    · exact .inr (List.mem_append_right _ ha)
  refine
    { h with
      tasks := ?tasks
      disjoint := disjoint_set ht rfl h.disjoint
      known := ?known, below := ?below, cover := ?cover
      fetch := fun f hf =>
        { after := (h.fetch f hf).after
          bound := ?bound
          result := fun completed hres => ?result } }
  case tasks =>
    intro t' ht'
    rcases hback t' ht' with rfl | hold
    · exact ⟨htask.nonempty, htask.ascend, htask.sub, htask.unsaved, (fun hc => by cases hc),
        fun _ => rfl⟩
    · obtain ⟨hin, hids⟩ := hother t' hold
      refine { h.tasks t' hin with running := fun hr p hp => ?_ }
      obtain ⟨hcursor, hrow⟩ := (h.tasks t' hin).running hr p hp
      refine ⟨hcursor, fun r hr hid => ?_⟩
      rcases mem_foldr_insertRow.1 hr with hr | hr
      · exact hids p hp r.produced (hnew r hr) hid
      · exact hrow r hr hid
  case known =>
    intro r hr
    rcases mem_foldr_insertRow.1 hr with hr | hr
    · exact htask.sub _ (hnew r hr)
    · exact h.known r hr
  case below =>
    intro r hr hle
    rcases mem_foldr_insertRow.1 hr with hr | hr
    · exact absurd (htask.running hrun _ (hnew r hr)).1 (not_lt.2 hle)
    · exact h.below r hr hle
  case cover =>
    intro hfenced p hp
    rcases h.cover hfenced p hp with ⟨r, hr, rfl⟩ | ⟨t', hin, hr, hpt⟩
    · exact .inl ⟨r, mem_foldr_insertRow.2 (.inr hr), rfl⟩
    rw [hsplit] at hin
    rcases List.mem_append.1 hin with hb | ha
    · exact .inr ⟨t', hset _ ▸ List.mem_append_left _ hb, hr, hpt⟩
    rcases List.mem_cons.1 ha with rfl | ha
    · rw [← t'.produced_newRows Res runId taskId createdAt] at hpt
      obtain ⟨r, hr, rfl⟩ := List.mem_map.1 hpt
      exact .inl ⟨r, mem_foldr_insertRow.2 (.inl hr), rfl⟩
    · exact .inr ⟨t', hset _ ▸ List.mem_append_right _ (List.mem_cons_of_mem _ ha), hr, hpt⟩
  case bound =>
    intro t' ht' hr p hp
    rcases hback t' ht' with rfl | hold
    · cases hr
    · exact (h.fetch f hf).bound t' (hother t' hold).1 hr p hp
  case result =>
    have hold := (h.fetch f hf).result completed hres
    refine ⟨hold.isPrefix, fun b hb => ?_⟩
    obtain ⟨r, hr, hrow⟩ := hold.fromRows b hb
    exact ⟨r, mem_foldr_insertRow.2 (.inr hr), hrow⟩

/-! ## The prefetch -/

/-- The batches a completed row gives. -/
theorem filterMap_toCompleted {runId taskId : Int} {accept : BatchRow In Res → Res → Prop}
    {rows : List (BatchRow In Res)} (h : TableInv runId taskId accept rows)
    {l : List (BatchRow In Res)} (hl : ∀ r ∈ l, r ∈ rows ∧ r.status = .completed) :
    (l.filterMap (·.toCompleted)).map (·.produced) = l.map (·.produced) := by
  induction l with
  | nil => rfl
  | cons r l ih =>
    obtain ⟨hr, hstatus⟩ := hl r List.mem_cons_self
    obtain ⟨x, hx, -⟩ := h.result r hr hstatus
    have hrest := ih fun r' hr' => hl r' (List.mem_cons_of_mem _ hr')
    have hrow : r.toCompleted =
        some ⟨r.id, r.taskId, r.requiresTrainingValues, r.batchSize, x⟩ := by
      simp [BatchRow.toCompleted, hx]
    rw [List.filterMap_cons, hrow, List.map_cons, List.map_cons, hrest]
    rfl

/-- `fetch_completed_batches` gives the completed rows that follow the cursor without a gap. -/
theorem fetchCompletedBatches_eq {runId taskId : Int} {accept : BatchRow In Res → Res → Prop}
    {rows : List (BatchRow In Res)} (h : TableInv runId taskId accept rows) (limit : Nat)
    (after : Option Int) :
    fetchCompletedBatches runId taskId limit after rows =
      (((frontier BatchRow.id (after.getD 0) rows).take limit).takeWhile
        (·.status == .completed)).filterMap (·.toCompleted) := by
  have hcandidates : (rows.filter fun r =>
      r.runId == runId && decide (after.getD 0 < r.id) && r.taskId == taskId) =
        frontier BatchRow.id (after.getD 0) rows := by
    refine List.filter_congr fun r hr => ?_
    obtain ⟨hrun, htask⟩ := h.run r hr
    simp [hrun, htask]
  have hsorted : Ascends BatchRow.id ((frontier BatchRow.id (after.getD 0) rows).take limit) :=
    h.ascend.frontier.sublist (List.take_sublist _ _)
  unfold fetchCompletedBatches
  rw [hcandidates]
  exact congrArg (List.filterMap _) (hsorted.filter_before_first (·.status == .completed))

/-- A batch is in the table as a completed row. -/
def isCompletedRow (rows : List (BatchRow In Res)) (p : Produced) : Bool :=
  rows.any fun r => r.status == .completed && r.produced == p

theorem isCompletedRow_produced {rows : List (BatchRow In Res)} (h : Ascends BatchRow.id rows)
    {r : BatchRow In Res} (hr : r ∈ rows) :
    isCompletedRow rows r.produced = (r.status == .completed) := by
  rw [Bool.eq_iff_iff, isCompletedRow, List.any_eq_true]
  constructor
  · rintro ⟨r', hr', hrow⟩
    simp only [Bool.and_eq_true, beq_iff_eq] at hrow
    have hid : r'.id = r.id := congrArg Produced.id hrow.2
    rw [← h.eq_of_key hr' hr hid]
    simpa using hrow.1
  · intro hstatus
    exact ⟨r, hr, by simpa using hstatus⟩

/-- What a prefetch reads: of the batches ahead of the cursor that its limit covers, those before
the first that is not a completed row below its bound. Below the bound nothing is still to be
inserted. -/
theorem QueueInv.read_eq (h : QueueInv rows c q) {runId taskId : Int}
    {accept : BatchRow (EvaluationBatch P C) Res → Res → Prop}
    (htable : TableInv runId taskId accept rows) {f : PendingProcessedFetch Res}
    (hf : q.pendingProcessedFetch = some f) :
    (f.read runId taskId rows).map (·.produced) = (q.ahead.take f.limit).takeWhile fun p =>
      decide (p.id < f.beforeBatchId) && isCompletedRow rows p := by
  have hfetch := h.fetch f hf
  have hcursor : f.afterBatchId.getD 0 = q.checkpoint.completed := by rw [hfetch.after]; rfl
  have hunfenced : q.insertError = none := by
    by_contra hne
    simp [h.fence hne] at hf
  have hsorted : Ascends Produced.id
      ((frontier BatchRow.id q.checkpoint.completed rows).map (·.produced)) :=
    List.pairwise_map.2 htable.ascend.frontier
  have hahead : Ascends Produced.id q.ahead := h.ascend.frontier
  have hagree : ∀ p : Produced, p.id < f.beforeBatchId →
      (p ∈ (frontier BatchRow.id q.checkpoint.completed rows).map (·.produced) ↔ p ∈ q.ahead) := by
    intro p hlt
    constructor
    · intro hp
      obtain ⟨r, hr, rfl⟩ := List.mem_map.1 hp
      obtain ⟨hrow, hahead⟩ := mem_frontier.1 hr
      exact mem_frontier.2 ⟨h.known r hrow, hahead⟩
    · intro hp
      rcases h.cover hunfenced p hp with ⟨r, hr, rfl⟩ | ⟨t, ht, hrun, hpt⟩
      · exact List.mem_map_of_mem (mem_frontier.2 ⟨hr, (mem_frontier.1 hp).2⟩)
      · exact absurd (hfetch.bound t ht hrun p hpt) (not_le.2 hlt)
  have hrows : ∀ r ∈ (frontier BatchRow.id q.checkpoint.completed rows).take f.limit, r ∈ rows :=
    fun r hr => (mem_frontier.1 (List.mem_of_mem_take hr)).1
  have hstatus : ((frontier BatchRow.id q.checkpoint.completed rows).take f.limit).takeWhile
      (·.status == .completed) =
        ((frontier BatchRow.id q.checkpoint.completed rows).take f.limit).takeWhile
          fun r => isCompletedRow rows r.produced :=
    takeWhile_congr_of_mem fun r hr => (isCompletedRow_produced htable.ascend (hrows r hr)).symm
  have hdone := filterMap_toCompleted htable
    (l := ((frontier BatchRow.id q.checkpoint.completed rows).take f.limit).takeWhile
      (·.status == .completed))
    fun r hr => ⟨hrows r ((List.takeWhile_prefix _).subset hr), by
      simpa using List.mem_takeWhile_imp hr⟩
  rw [PendingProcessedFetch.read, fetchCompletedBatches_eq htable, hcursor,
    ← hsorted.takeWhile_agree hahead hagree (fun p hp => by simp at hp; exact hp.1)]
  calc (((((frontier BatchRow.id q.checkpoint.completed rows).take f.limit).takeWhile
        (·.status == .completed)).filterMap (·.toCompleted)).takeWhile fun b =>
          decide (b.batchId < f.beforeBatchId)).map (·.produced)
      = ((((frontier BatchRow.id q.checkpoint.completed rows).take f.limit).takeWhile
          (·.status == .completed)).map (·.produced)).takeWhile fun p =>
            decide (p.id < f.beforeBatchId) := by
        rw [← hdone, List.takeWhile_map]
        rfl
    _ = (((frontier BatchRow.id q.checkpoint.completed rows).map (·.produced)).take
          f.limit).takeWhile fun p => decide (p.id < f.beforeBatchId) && isCompletedRow rows p := by
        rw [hstatus, ← List.map_take, show (fun r : BatchRow (EvaluationBatch P C) Res =>
          isCompletedRow rows r.produced) = isCompletedRow rows ∘ (·.produced) from rfl,
          ← List.takeWhile_map, List.takeWhile_takeWhile]
        simp only [Bool.decide_and, Bool.decide_coe, decide_eq_true_eq]

/-- The prefetch comes back with the batches at the front. -/
theorem QueueInv.fetchRuns (h : QueueInv rows c q) {runId taskId : Int}
    {accept : BatchRow (EvaluationBatch P C) Res → Res → Prop}
    (htable : TableInv runId taskId accept rows) {f : PendingProcessedFetch Res}
    (hf : q.pendingProcessedFetch = some f) (error : Option StoreError) :
    QueueInv rows c
      { q with
        pendingProcessedFetch := some
          { f with outcome := some (error.elim (.ok (f.read runId taskId rows)) .error) } } := by
  have hfetch := h.fetch f hf
  refine
    { h with
      fetch := fun f' hf' => ?_
      fence := fun hne => absurd (h.fence hne) (by simp [hf]) }
  cases hf'
  refine ⟨hfetch.after, hfetch.bound, fun completed hres => ?_⟩
  cases error with
  | some e => cases hres
  | none =>
    cases hres
    constructor
    · rw [h.read_eq htable hf]
      exact (List.takeWhile_prefix _).trans (List.take_prefix _ _)
    · intro b hb
      rw [PendingProcessedFetch.read, fetchCompletedBatches_eq htable] at hb
      obtain ⟨r, hr, hrow⟩ := List.mem_filterMap.1 ((List.takeWhile_prefix _).subset hb)
      have hmem := List.mem_of_mem_take ((List.takeWhile_prefix _).subset hr)
      exact ⟨r, (mem_frontier.1 hmem).1, by simpa using List.mem_takeWhile_imp hr, hrow⟩

/-! ## Cleanup -/

/-- A cleanup deletes only rows up to its bound that the saved checkpoint spares. -/
theorem undisturbed_cleanup (runId upTo : Int) (limit : Nat) (saved : Option SavedCursors)
    (rows : List (BatchRow In Res)) :
    Undisturbed (fun r => upTo < r.id ∨ ¬ saved.any (·.spares r.id) = true) rows
      (cleanupConsumedCompletedBatches runId upTo limit saved rows) := by
  unfold cleanupConsumedCompletedBatches
  split
  · exact ⟨fun r hr => ⟨r, hr, rfl, fun _ => rfl⟩, fun r hr _ => ⟨r, hr, rfl, fun _ => rfl⟩⟩
  · refine (undisturbed_filter _ rows).mono fun r _ hkeep => ?_
    rw [Bool.not_eq_true', ← Bool.not_eq_true]
    intro hdoomed
    obtain ⟨x, hx, hid⟩ := List.mem_map.1 (List.contains_iff_mem.1 hdoomed)
    have hcandidate := (List.mem_filter.1 (List.mem_of_mem_take hx)).2
    simp only [cleanupCandidate, Bool.and_eq_true, decide_eq_true_eq] at hcandidate
    obtain ⟨⟨-, hle⟩, hspares⟩ := hcandidate
    rw [hid] at hle hspares
    rcases hkeep with hlt | hneeded
    · exact absurd hle (not_le.2 hlt)
    · exact hneeded hspares

theorem cleanupConsumedCompletedBatches_sublist (runId upTo : Int) (limit : Nat)
    (saved : Option SavedCursors) (rows : List (BatchRow In Res)) :
    (cleanupConsumedCompletedBatches runId upTo limit saved rows).Sublist rows := by
  unfold cleanupConsumedCompletedBatches
  split
  · exact .refl _
  · exact List.filter_sublist

theorem TableInv.cleanup {runId taskId : Int} {accept : BatchRow In Res → Res → Prop}
    {rows : List (BatchRow In Res)} (h : TableInv runId taskId accept rows) (upTo : Int)
    (limit : Nat) (saved : Option SavedCursors) :
    TableInv runId taskId accept
      (cleanupConsumedCompletedBatches runId upTo limit saved rows) := by
  unfold cleanupConsumedCompletedBatches
  split
  · exact h
  · exact h.filter _

theorem QueueInv.cleanupRuns (h : QueueInv rows c q) {k : PendingCompletedCleanup}
    (hk : q.pendingCompletedCleanup = some k) (runId : Int) (limit : Nat)
    (saved : Option SavedCursors) (outcome : Option (Except StoreError Unit)) :
    QueueInv (cleanupConsumedCompletedBatches runId k.upToBatchId limit saved rows) c
      { q with pendingCompletedCleanup := some { k with outcome } } := by
  have hle := h.cleanup k hk
  have hrows := h.undisturbed ((undisturbed_cleanup runId k.upToBatchId limit saved rows).mono
    fun r _ hlt => .inl (hle.trans_lt hlt))
  refine { hrows with cleanup := fun k' hk' => ?_ }
  cases hk'
  exact hle

/-! ## The saved checkpoint -/

/-- The saved checkpoint and the rows: what has been produced but not consumed is all there. -/
structure SavedInv (rows : List (BatchRow (EvaluationBatch P C) Res))
    (c : SamplerAggregatorCheckpoint V P A M) : Prop where
  ascend : Ascends Produced.id c.allocated
  positive : ∀ p ∈ c.allocated, 0 < p.id
  last : c.queue.lastProducedBatchId = c.allocated.getLast?.map (·.id)
  cursor : 0 ≤ c.queue.completed ∧ c.queue.completed ≤ c.queue.produced
  present : ∀ p ∈ c.allocated, c.queue.completed < p.id → ∃ r ∈ rows, r.produced = p
  known : ∀ r ∈ rows, r.id ≤ c.queue.produced → r.produced ∈ c.allocated
  below : ∀ r ∈ rows, r.id ≤ c.queue.completed → r.status = .completed
  producedSamples : c.producedSamples = samples c.allocated
  completedSamples : c.completedSamples =
    samples (settled Produced.id c.queue.completed c.allocated)
  handed : c.handed = (settled Produced.id c.queue.completed c.allocated).map (·.id)

theorem SavedInv.le_produced (h : SavedInv rows c) {p : Produced} (hp : p ∈ c.allocated) :
    p.id ≤ c.queue.produced := by
  unfold SamplerQueueCheckpoint.produced
  rw [h.last]
  exact le_lastId h.ascend hp

theorem SavedInv.undisturbed (h : SavedInv rows c)
    (hu : Undisturbed (fun r => c.queue.completed < r.id ∧ r.id ≤ c.queue.produced) rows rows') :
    SavedInv rows' c := by
  refine { h with present := ?present, known := ?known, below := ?below }
  case present =>
    intro p hp hlt
    obtain ⟨r, hr, rfl⟩ := h.present p hp hlt
    obtain ⟨r', hr', heq, -⟩ := hu.kept r hr ⟨hlt, h.le_produced hp⟩
    exact ⟨r', hr', heq⟩
  case known =>
    intro r' hr' hle
    obtain ⟨r, hr, heq, -⟩ := hu.back r' hr'
    have hid : r'.id = r.id := congrArg Produced.id heq
    exact heq ▸ h.known r hr (hid ▸ hle)
  case below =>
    intro r' hr' hle
    obtain ⟨r, hr, heq, hsame⟩ := hu.back r' hr'
    have hid : r'.id = r.id := congrArg Produced.id heq
    have hstatus := h.below r hr (hid ▸ hle)
    rw [hsame hstatus]
    exact hstatus

/-- Rows above the production boundary do not concern the checkpoint. -/
theorem SavedInv.insertCommits (h : SavedInv rows c) {q : SamplerQueue P C Res}
    (hq : QueueInv rows c q) {runId taskId : Int} {createdAt i : Nat}
    {t : PendingInsertTask (EvaluationBatch P C)} (ht : q.pendingInsertTasks[i]? = some t)
    (hi : insertBatches runId taskId t.requiresTrainingValues createdAt t.batches rows =
      (.ok (), rows')) : SavedInv rows' c := by
  obtain ⟨rfl, -, -⟩ := insertBatches_ok hi
  have hlate : ∀ r ∈ t.newRows Res runId taskId createdAt, c.queue.produced < r.id := by
    intro r hr
    have hp : r.produced ∈ t.produced :=
      t.produced_newRows Res runId taskId createdAt ▸ List.mem_map_of_mem hr
    exact (hq.tasks t (List.mem_of_getElem? ht)).unsaved _ hp
  refine { h with present := ?present, known := ?known, below := ?below }
  case present =>
    intro p hp hlt
    obtain ⟨r, hr, heq⟩ := h.present p hp hlt
    exact ⟨r, mem_foldr_insertRow.2 (.inr hr), heq⟩
  case known =>
    intro r hr hle
    rcases mem_foldr_insertRow.1 hr with hr | hr
    · exact absurd hle (not_le.2 (hlate r hr))
    · exact h.known r hr hle
  case below =>
    intro r hr hle
    rcases mem_foldr_insertRow.1 hr with hr | hr
    · exact absurd (hle.trans h.cursor.2) (not_le.2 (hlate r hr))
    · exact h.below r hr hle

/-- A cleanup spares what the checkpoint needs. -/
theorem SavedInv.cleanup (h : SavedInv rows c) (runId upTo : Int) (limit : Nat) :
    SavedInv (cleanupConsumedCompletedBatches runId upTo limit (some c.cursors) rows) c := by
  refine h.undisturbed ((undisturbed_cleanup runId upTo limit _ rows).mono fun r _ hneeded => ?_)
  refine .inr fun hspares => ?_
  simp only [Option.any_some, SavedCursors.spares, SamplerAggregatorCheckpoint.cursors,
    Bool.or_eq_true, decide_eq_true_eq] at hspares
  rcases hspares with hold | hnew
  · cases hlc : c.queue.lastCompletedBatchId with
    | none => simp [hlc] at hold
    | some lc =>
      have hle : r.id ≤ lc := by simpa [hlc] using hold
      have hlt : lc < r.id := by
        have := hneeded.1
        rwa [SamplerQueueCheckpoint.completed, hlc] at this
      exact absurd hle (not_le.2 hlt)
  · exact absurd hneeded.2 (not_le.2 hnew)

/-- With everything inserted, the live cursors and counters make a checkpoint. -/
theorem QueueInv.save (h : QueueInv rows c q) (hq : q.Flushed)
    {c' : SamplerAggregatorCheckpoint V P A M} (hgiven : c'.allocated = q.allocated)
    (hqueue : c'.queue = q.checkpoint) (hproduced : c'.producedSamples = samples q.allocated)
    (hcompleted : c'.completedSamples = samples q.passed)
    (hhanded : c'.handed = q.passed.map (·.id)) : QueueInv rows c' q ∧ SavedInv rows c' := by
  constructor
  · refine
      { h with
        tasks := fun t ht => absurd ht (by simp [hq.tasks])
        saved := hgiven ▸ List.prefix_rfl
        savedCursor := hqueue ▸ le_rfl
        savedBoundary := hqueue ▸ le_rfl }
  · refine
      { ascend := hgiven ▸ h.ascend, positive := hgiven ▸ h.positive
        last := by rw [hgiven, hqueue, h.last]
        cursor := hqueue ▸ h.cursor
        present := fun p hp hlt => ?_
        known := fun r hr _ => hgiven ▸ h.known r hr
        below := hqueue ▸ h.below
        producedSamples := by rw [hproduced, hgiven]
        completedSamples := by rw [hcompleted, hqueue, hgiven]; rfl
        handed := by rw [hhanded, hqueue, hgiven]; rfl }
    rw [hgiven] at hp
    rw [hqueue] at hlt
    rcases h.cover hq.error p (mem_frontier.2 ⟨hp, hlt⟩) with hrow | ⟨t, ht, -⟩
    · exact hrow
    · exact absurd ht (by simp [hq.tasks])

/-! ## Recovery -/

/-- The queued rows of the checkpoint are the batches it has produced and not consumed. -/
theorem SavedInv.queuedRows (h : SavedInv rows c) {runId : Int}
    {accept : BatchRow (EvaluationBatch P C) Res → Res → Prop}
    (htable : TableInv runId c.taskId accept rows) :
    (Stores.queuedRows runId c rows).map (·.produced) =
      frontier Produced.id c.queue.completed c.allocated := by
  have hqueued : Stores.queuedRows runId c rows = rows.filter fun r =>
      decide (c.queue.completed < r.id) && decide (r.id ≤ c.queue.produced) := by
    refine List.filter_congr fun r hr => ?_
    obtain ⟨hrun, htask⟩ := htable.run r hr
    simp [hrun, htask]
  have hsorted : Ascends Produced.id ((Stores.queuedRows runId c rows).map (·.produced)) :=
    List.pairwise_map.2 (htable.ascend.sublist List.filter_sublist)
  refine hsorted.eq_of_mem_iff h.ascend.frontier fun p => ?_
  rw [hqueued, mem_frontier, List.mem_map]
  constructor
  · rintro ⟨r, hr, rfl⟩
    obtain ⟨hrow, hrange⟩ := List.mem_filter.1 hr
    simp only [Bool.and_eq_true, decide_eq_true_eq] at hrange
    exact ⟨h.known r hrow hrange.2, hrange.1⟩
  · rintro ⟨hp, hlt⟩
    obtain ⟨r, hr, rfl⟩ := h.present p hp hlt
    have hle := h.le_produced hp
    refine ⟨r, List.mem_filter.2 ⟨hr, ?_⟩, rfl⟩
    simp only [Bool.and_eq_true, decide_eq_true_eq]
    exact ⟨hlt, hle⟩

/-- The samples of the queued rows are those produced and not completed. -/
theorem SavedInv.retainedSamples (h : SavedInv rows c) {runId : Int}
    {accept : BatchRow (EvaluationBatch P C) Res → Res → Prop}
    (htable : TableInv runId c.taskId accept rows) :
    Stores.retainedSamples runId c rows = c.producedSamples - c.completedSamples := by
  have hsplit := congrArg samples (h.ascend.settled_append_frontier (c := c.queue.completed))
  have hrows : Stores.retainedSamples runId c rows =
      samples ((Stores.queuedRows runId c rows).map (·.produced)) := by
    simp [Stores.retainedSamples, samples, BatchRow.produced, Function.comp_def]
  rw [hrows, h.queuedRows htable, h.producedSamples, h.completedSamples, ← hsplit, samples_append]
  omega

/-- The restore never refuses, and deletes only rows above the production boundary. -/
theorem SavedInv.restore (h : SavedInv rows c) {runId : Int}
    {accept : BatchRow (EvaluationBatch P C) Res → Res → Prop}
    (htable : TableInv runId c.taskId accept rows) :
    restoreSamplerCheckpoint runId c rows =
      .ok (rows.filter fun r => decide (r.id ≤ c.queue.produced)) := by
  have hboundary : ¬(0 < c.producedSamples ∧ c.queue.lastProducedBatchId = none) := by
    rintro ⟨hpos, hnone⟩
    rw [h.last, Option.map_eq_none_iff, List.getLast?_eq_none_iff] at hnone
    rw [h.producedSamples, hnone, samples_nil] at hpos
    exact lt_irrefl _ hpos
  have hretained : ¬ Stores.retainedSamples runId c rows ≠ c.producedSamples - c.completedSamples :=
    not_not.2 (h.retainedSamples htable)
  simp only [restoreSamplerCheckpoint, if_neg hboundary, if_neg hretained]
  refine congrArg Except.ok (List.filter_congr fun r hr => ?_)
  obtain ⟨hrun, htask⟩ := htable.run r hr
  rcases le_or_gt r.id c.queue.produced with hle | hlt
  · simp [hrun, htask, hle, hle.not_gt]
  · simp [hrun, htask, hlt, hlt.not_ge]

/-- A queue built on the restored rows. -/
theorem SavedInv.resume (h : SavedInv rows c) (runId taskId : Int) (config : SamplerQueueConfig) :
    SavedInv (rows.filter fun r => decide (r.id ≤ c.queue.produced)) c ∧
      QueueInv (rows.filter fun r => decide (r.id ≤ c.queue.produced)) c
        (.new runId taskId config c.queue c.allocated c.handed) := by
  have hsaved : SavedInv (rows.filter fun r => decide (r.id ≤ c.queue.produced)) c :=
    h.undisturbed ((undisturbed_filter _ rows).mono fun r _ hneeded => decide_eq_true hneeded.2)
  refine ⟨hsaved, ?_⟩
  exact
    { ascend := h.ascend, positive := h.positive, last := h.last, cursor := h.cursor
      ready := rfl, tasks := fun t ht => by cases ht
      disjoint := .nil
      known := fun r hr => hsaved.known r hr (of_decide_eq_true (List.mem_filter.1 hr).2)
      below := hsaved.below
      cover := fun _ p hp =>
        .inl (hsaved.present p (mem_frontier.1 hp).1 (mem_frontier.1 hp).2)
      fetch := fun f hf => by cases hf
      fence := fun _ => rfl
      cleanup := fun k hk => by cases hk
      saved := List.prefix_rfl, savedCursor := le_rfl, savedBoundary := le_rfl }

/-- A first checkpoint, with no rows. -/
theorem savedInv_nil {c : SamplerAggregatorCheckpoint V P A M} (hgiven : c.allocated = [])
    (hlast : c.queue.lastProducedBatchId = none) (hcursor : c.queue.lastCompletedBatchId = none)
    (hproduced : c.producedSamples = 0) (hcompleted : c.completedSamples = 0)
    (hhanded : c.handed = []) :
    SavedInv ([] : List (BatchRow (EvaluationBatch P C) Res)) c where
  ascend := by rw [hgiven]; exact .nil
  positive := by simp [hgiven]
  last := by simp [hgiven, hlast]
  cursor := by simp [SamplerQueueCheckpoint.completed, SamplerQueueCheckpoint.produced, hlast, hcursor]
  present := by simp [hgiven]
  known := by simp
  below := by simp
  producedSamples := by simp [hgiven, hproduced]
  completedSamples := by simp [hgiven, hcompleted]
  handed := by simp [hgiven, hhanded]

end Gammaboard.Runners
