import Gammaboard.Runners.SamplerSystem
import Gammaboard.Stores.CampaignBudget

/-!
# An integration campaign

The campaign's controller, the task queues of its children and the sampler
system of every task of a child. The controller allocates whatever it is asked
for; a child's control loop activates one task after the other; a tick of a
child asks for what its task may still produce. `produced` records what the
runners of a task have produced, without what a restore has rolled back, and
`completing` that a runner in `complete_task` has saved its last checkpoint.
-/

namespace Gammaboard.Runners

open Gammaboard.Core Gammaboard.Stores Gammaboard.Sampling Gammaboard.Evaluation

variable {V P A M C : Type}

/-- What does not change over a campaign. -/
structure CampaignSetting (V P A M C : Type) where
  maxTotalSamples : Option Int
  /-- `validate`: the cap is positive when set. -/
  positive : ∀ cap ∈ maxTotalSamples, 0 < cap
  /-- The setting of the sampler system of each task. -/
  task : Int → Setting V P A M C
  entropies : List UInt16

/-- The samples the whole campaign may produce. -/
def CampaignSetting.limit (set : CampaignSetting V P A M C) : Int :=
  set.maxTotalSamples.getD i64Max

structure CampaignSystem (V P A M C : Type) where
  tables : CampaignTables
  /-- The sampler system of each task. -/
  samplers : Int → SamplerSystem V P A M C
  completing : Int → Bool
  produced : Int → Int

inductive CampaignEvent (V A : Type) where
  /-- `create_child_run`. -/
  | createChild (runId : Int)
  /-- The campaign's own task is activated, completed or fails. -/
  | setActive (active : Bool)
  | allocate (requests : List (Int × Int))
  /-- `append_run_tasks`. -/
  | appendTask (runId taskId sequenceNr : Int) (host : TaskHost)
  | removePendingTask (runId taskId : Int)
  /-- The control loop of a child without an active task. -/
  | activateNext (runId : Int)
  /-- The control loop completes a task that needs no sampler. -/
  | completeControlTask (taskId : Int)
  | sampler (taskId : Int) (e : SamplerEvent V A)
  /-- `flush_progress_sync` of the runner on a node. -/
  | syncProgress (taskId : Int) (n : Nat)
  /-- The end of `complete_task`. -/
  | completeTask (taskId : Int)
  /-- `fail_run_task`, by a failed tick of the sampler or by another role. -/
  | failTask (taskId : Int) (reason : String)

/-! ## One event of a task's sampler system -/

def SamplerPhase.isSaving : SamplerPhase V A → Bool
  | .closing _ .saving => true
  | _ => false

/-- In `complete_task`, about to save the last checkpoint. -/
def SamplerPhase.isCompletingSave : SamplerPhase V A → Bool
  | .closing .complete .saving => true
  | _ => false

def SamplerPhase.isEnded : SamplerPhase V A → Bool
  | .ended => true
  | _ => false

/-- The event with the answer of the allowance query, where the query does not fail. -/
def SamplerEvent.answered (allowance : Option Int) : SamplerEvent V A → SamplerEvent V A
  | .node n (.work clock replies) =>
    .node n (.work clock { replies with
      produce := { replies.produce with
        allowance := replies.produce.allowance.map fun _ => allowance } })
  | e => e

/-- The start of an activation. -/
def SamplerEvent.builds : SamplerEvent V A → Bool
  | .node _ e => e.builds
  | _ => false

/-- The runner of the node an event is of. -/
def SamplerSystem.actor (s : SamplerSystem V P A M C) :
    SamplerEvent V A → Option (LiveRunner V P A M C)
  | .node n _ => s.liveAt n
  | _ => none

/-- The checkpoint an event restores. -/
def SamplerSystem.restores (set : Setting V P A M C) (s : SamplerSystem V P A M C) :
    SamplerEvent V A → Option (SamplerAggregatorCheckpoint V P A M)
  | .node n (.build outcome) =>
    match s.nodes[n]? with
    | some node =>
      if node.live.isSome || outcome == .fails then none
      else s.db.checkpoint.filter fun c =>
        (restoreSamplerCheckpoint set.runId c s.db.rows).toOption.isSome
    | none => none
  | _ => none

namespace CampaignSystem

def init (set : CampaignSetting V P A M C) : CampaignSystem V P A M C where
  tables := ⟨false, [], [], fun _ => none⟩
  samplers := fun _ => .init set.entropies
  completing := fun _ => false
  produced := fun _ => 0

/-- The progress an event of a task's system writes, produced and completed: a restore takes it
back to the checkpoint, and the last publication before a save brings it up to date. -/
def writtenProgress (restored : Option (SamplerAggregatorCheckpoint V P A M))
    (before after : Option (LiveRunner V P A M C)) : Option (Int × Int) :=
  match restored, before, after with
  | some c, _, _ => some (c.producedSamples, c.completedSamples)
  | none, some l, some l' =>
    if !l.phase.isSaving && l'.phase.isSaving then
      some (l'.runner.nrProducedSamples, l'.runner.nrCompletedSamples)
    else none
  | none, _, _ => none

def writeProgress (taskId : Int) (written : Option (Int × Int)) (tasks : List RunTask) :
    List RunTask :=
  match written with
  | some (produced, completed) => updateRunTaskProgress taskId produced completed tasks
  | none => tasks

/-- What the runners have produced after an event. -/
def producedAfter (restored : Option (SamplerAggregatorCheckpoint V P A M))
    (after : Option (LiveRunner V P A M C)) (produced : Int) : Int :=
  match restored, after with
  | some c, _ => c.producedSamples
  | none, some l' => l'.runner.nrProducedSamples
  | none, none => produced

/-- Whether the runner has saved its last checkpoint in `complete_task` after an event. -/
def completingAfter (before after : Option (LiveRunner V P A M C)) (completing : Bool) : Bool :=
  match before, after with
  | some l, some l' => l'.phase.isEnded && (completing || l.phase.isCompletingSave)
  | none, none => completing
  | _, _ => false

variable (set : CampaignSetting V P A M C)

/-- An event of the sampler system of a task. A runner is only built for the active task. -/
def samplerStep (t : RunTask) (e : SamplerEvent V A) (s : CampaignSystem V P A M C) :
    CampaignSystem V P A M C :=
  if e.builds && !(t.state == .active && t.host == .samplerWorker) then s
  else
    let before := s.samplers t.id
    let after := before.step (set.task t.id)
      (e.answered (s.tables.campaignSampleAllowance t.runId t.id))
    let restored := before.restores (set.task t.id) e
    { tables := { s.tables with
        tasks := writeProgress t.id (writtenProgress restored (before.actor e) (after.actor e))
          s.tables.tasks }
      samplers := fun id => if id = t.id then after else s.samplers id
      completing := fun id =>
        if id = t.id then completingAfter (before.actor e) (after.actor e) (s.completing t.id)
        else s.completing id
      produced := fun id =>
        if id = t.id then producedAfter restored (after.actor e) (s.produced t.id)
        else s.produced id }

def withTasks (s : CampaignSystem V P A M C) (tasks : List RunTask) : CampaignSystem V P A M C :=
  { s with tables := { s.tables with tasks } }

def step (s : CampaignSystem V P A M C) : CampaignEvent V A → CampaignSystem V P A M C
  | .createChild runId =>
    if runId ∈ s.tables.children then s
    else { s with tables := { s.tables with children := s.tables.children ++ [runId] } }
  | .setActive active => { s with tables := { s.tables with active } }
  | .allocate requests =>
    match s.tables.allocateCampaignSamples set.maxTotalSamples requests with
    | .error _ => s
    | .ok granted => { s with tables := { s.tables with granted } }
  | .appendTask runId taskId sequenceNr host =>
    if runId ∈ s.tables.children ∧ taskId ∉ s.tables.tasks.map (·.id) then
      s.withTasks (s.tables.tasks ++ [⟨taskId, runId, sequenceNr, host, .pending, none, 0, 0⟩])
    else s
  | .removePendingTask runId taskId =>
    s.withTasks (s.tables.tasks.filter fun t =>
      !(t.id == taskId && t.runId == runId && t.state == .pending))
  | .activateNext runId =>
    if (loadActiveRunTask runId s.tables.tasks).isSome then s
    else s.withTasks (activateNextRunTask runId s.tables.tasks).2
  | .completeControlTask taskId =>
    match s.tables.tasks.find? fun t => t.id == taskId with
    | some t =>
      if t.host = .controlPlane then s.withTasks (completeRunTask taskId s.tables.tasks) else s
    | none => s
  | .sampler taskId e =>
    match s.tables.tasks.find? fun t => t.id == taskId with
    | some t => s.samplerStep set t e
    | none => s
  | .syncProgress taskId n =>
    match (s.samplers taskId).liveAt n with
    | some l =>
      s.withTasks (updateRunTaskProgress taskId l.runner.nrProducedSamples
        l.runner.nrCompletedSamples s.tables.tasks)
    | none => s
  | .completeTask taskId =>
    if s.completing taskId then s.withTasks (completeRunTask taskId s.tables.tasks) else s
  | .failTask taskId reason => s.withTasks (failRunTask taskId reason s.tables.tasks)

/-- The progress of a task is recorded before it fails, no runner ticks for a task that is not
active, and a runner is built only when no other process still has one for the task. -/
def Recorded (s : CampaignSystem V P A M C) : CampaignEvent V A → Prop
  | .failTask taskId _ =>
    ∀ t ∈ s.tables.tasks, t.id = taskId → t.state = .active →
      t.nrProducedSamples = s.produced taskId
  | .sampler taskId e =>
    (s.samplers taskId).Exclusive e ∧
      match e with
      | .node _ (.work _ _) => ∀ t ∈ s.tables.tasks, t.id = taskId → t.state = .active
      | _ => True
  | _ => True

instance (s : CampaignSystem V P A M C) : ∀ e : CampaignEvent V A, Decidable (Recorded s e)
  | .failTask taskId _ => inferInstanceAs (Decidable (∀ t ∈ s.tables.tasks, t.id = taskId →
      t.state = .active → t.nrProducedSamples = s.produced taskId))
  | .sampler taskId e =>
    have : Decidable (match e with
      | .node _ (.work _ _) => ∀ t ∈ s.tables.tasks, t.id = taskId → t.state = .active
      | _ => True) := by split <;> infer_instance
    inferInstanceAs (Decidable ((s.samplers taskId).Exclusive e ∧ _))
  | .createChild _ | .setActive _ | .allocate _ | .appendTask _ _ _ _ | .removePendingTask _ _
  | .activateNext _ | .completeControlTask _ | .syncProgress _ _ | .completeTask _ => .isTrue trivial

end CampaignSystem

end Gammaboard.Runners
