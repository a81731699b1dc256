import Gammaboard.Runners.Campaign
import Gammaboard.Runners.SampleBudget

/-!
# The cap of a campaign

The rows of a child never record more than its allowance, and what its active
task may still produce is what they leave of it. Neither a publication nor a
restore moves that limit, a grant only raises it, and it is the answer of the
allowance query; so the runner of the task keeps to it by the sample budget.
-/

namespace Gammaboard.Runners

open Gammaboard.Core Gammaboard.Stores Gammaboard.Lib Gammaboard.Sampling Gammaboard.Evaluation

variable {V P A M C : Type}

/-! ## The runner of a task -/

namespace SamplerSystem

variable {set : Setting V P A M C} {s : SamplerSystem V P A M C}

/-- At most one node has a runner. -/
def Alone (s : SamplerSystem V P A M C) : Prop :=
  ∀ m k l l', s.liveAt m = some l → s.liveAt k = some l' → m = k

theorem liveAt_none_of_exclusive {n : Nat} {outcome : BuildOutcome}
    (h : Exclusive s (.node n (.build outcome) : SamplerEvent V A)) (m : Nat) (hm : m ≠ n) :
    s.liveAt m = none := by
  by_cases hlt : m < s.nodes.length
  · exact Option.isNone_iff_eq_none.1 (h rfl m hlt hm)
  · simp [liveAt, List.getElem?_eq_none (not_lt.1 hlt)]

/-- How an activation may go. -/
inductive Built (set : Setting V P A M C) (s : SamplerSystem V P A M C) (n : Nat)
    (outcome : BuildOutcome) (s' : SamplerSystem V P A M C) : Prop where
  | refused (hrestored : s.restores set (.node n (.build outcome) : SamplerEvent V A) = none)
      (hlive : s'.liveAt n = none) (hsaved : s'.db.checkpoint = s.db.checkpoint)
  | resumed (c : SamplerAggregatorCheckpoint V P A M)
      (hrestored : s.restores set (.node n (.build outcome) : SamplerEvent V A) = some c)
      (hlive : ∀ l, s'.liveAt n = some l →
        l.phase = .built ∧ l.runner.nrProducedSamples = c.producedSamples)
      (hbefore : s.db.checkpoint = some c) (hsaved : s'.db.checkpoint = some c)
  | started (hrestored : s.restores set (.node n (.build outcome) : SamplerEvent V A) = none)
      (hlive : ∀ l, s'.liveAt n = some l → l.phase = .built ∧ l.runner.nrProducedSamples = 0)
      (hbefore : s.db.checkpoint = none) (hsaved : s'.db.checkpoint ≠ none)

theorem built {n : Nat} (outcome : BuildOutcome) (hnone : s.liveAt n = none) :
    Built set s n outcome (s.nodeStep set n (.build outcome)) := by
  cases hn : s.nodes[n]? with
  | none =>
    have hsame : s.nodeStep set n (.build outcome) = s := by simp [nodeStep, hn]
    rw [hsame]
    exact .refused (by simp [restores, hn]) hnone rfl
  | some node =>
    have hlive : node.live = none := by simpa [liveAt, hn] using hnone
    have hafter : (s.nodeStep set n (.build outcome)).liveAt n =
        (buildRunner set outcome s.db).2.map fun r => ⟨r, .built⟩ := by
      apply liveAt_set hn
      · simp only [nodeStep, hn, hlive]
        rfl
      · rfl
    have hdb : (s.nodeStep set n (.build outcome)).db = (buildRunner set outcome s.db).1 := by
      simp [nodeStep, hn, hlive]
    by_cases hfails : outcome = .fails
    · subst hfails
      refine .refused (by simp [restores, hn]) ?_ ?_
      · rw [hafter]
        rfl
      · rw [hdb]
        rfl
    · have hrestores : s.restores set (.node n (.build outcome) : SamplerEvent V A) =
          s.db.checkpoint.filter fun c =>
            (restoreSamplerCheckpoint set.runId c s.db.rows).toOption.isSome := by
        simp [restores, hn, hlive, hfails]
      unfold buildRunner at hafter hdb
      rw [if_neg hfails] at hafter hdb
      cases hc : s.db.checkpoint with
      | some c =>
        rw [hc] at hafter hdb hrestores
        dsimp only at hafter hdb
        cases hrows : restoreSamplerCheckpoint set.runId c s.db.rows with
        | error e =>
          rw [hrows] at hafter hdb
          refine .refused ?_ hafter ?_
          · rw [hrestores]
            simp [Option.filter, hrows, Except.toOption]
          · rw [hdb]
        | ok rows =>
          rw [hrows] at hafter hdb
          refine .resumed c ?_ (fun l hl => ?_) hc ?_
          · rw [hrestores]
            simp [Option.filter, hrows, Except.toOption]
          · rw [hafter] at hl
            dsimp only at hl
            split at hl
            · cases hl
              exact ⟨rfl, rfl⟩
            · cases hl
          · rw [hdb]
      | none =>
        rw [hc] at hafter hdb hrestores
        dsimp only at hafter hdb
        split at hafter
        · rename_i hs
          rw [hs] at hdb
          refine .refused hrestores hafter ?_
          rw [hdb, hc]
        · rename_i r c hs
          rw [hs] at hdb
          obtain ⟨⟨sampler, rfl⟩, -⟩ := SamplerAggregatorRunner.checkpoint_ok set.kit hs
          refine .started hrestores (fun l hl => ?_) hc ?_
          · rw [hafter] at hl
            split at hl
            · cases hl
              exact ⟨rfl, rfl⟩
            · cases hl
          · rw [hdb]
            exact Option.some_ne_none c

/-- An event that is no activation of a node without a runner restores nothing. -/
theorem restores_none {e : SamplerEvent V A}
    (h : ∀ n outcome, e = .node n (.build outcome) → s.liveAt n ≠ none) :
    s.restores set e = none := by
  cases e with
  | node n e =>
    cases e with
    | build outcome =>
      have hlive := h n outcome rfl
      cases hn : s.nodes[n]? with
      | none => simp only [restores, hn]
      | some node =>
        have hsome : node.live.isSome = true := by
          rw [Option.isSome_iff_ne_none]
          simpa [liveAt, hn] using hlive
        simp only [restores, hn, hsome, Bool.true_or, if_pos]
    | _ => rfl
  | _ => rfl

end SamplerSystem

namespace CampaignSystem

/-! ## The invariant of a task -/

/-- The task with the progress an event writes. -/
def progressed (written : Option (Int × Int)) (t : RunTask) : RunTask :=
  match written with
  | some (produced, completed) =>
    if t.state = .active then
      { t with nrProducedSamples := produced, nrCompletedSamples := completed }
    else t
  | none => t

/-- What holds of a task, of its sampler system and of what its runners have produced, when
`limit` is what the task may have produced. -/
structure TaskInv (set : Setting V P A M C) (limit : Int) (sampler : SamplerSystem V P A M C)
    (completing : Bool) (produced : Int) (t : RunTask) : Prop where
  recorded : 0 ≤ t.nrProducedSamples
  alone : sampler.Alone
  current : ∀ n l, sampler.liveAt n = some l → l.runner.nrProducedSamples = produced
  unstarted : sampler.db.checkpoint = none →
    (∀ n, sampler.liveAt n = none) ∧ produced = 0 ∧ t.nrProducedSamples = 0
  waiting : t.state = .pending ∨ t.host = .controlPlane → sampler.db.checkpoint = none
  settled : t.state ≠ .active → t.nrProducedSamples = produced
  within : t.state = .active → SamplerSystem.AllWithin set limit true sampler
  funded : t.state = .active → produced ≤ limit
  saving : t.state = .active → ∀ n l, sampler.liveAt n = some l → l.phase.isSaving = true →
    t.nrProducedSamples = produced
  ended : completing = true → ∃ n l, sampler.liveAt n = some l ∧ l.phase.isEnded = true
  completing : completing = true → t.nrProducedSamples = produced

section

variable {set : Setting V P A M C} {limit produced : Int} {s s' : SamplerSystem V P A M C}
  {completing : Bool} {t : RunTask}

theorem progressed_state (written : Option (Int × Int)) (t : RunTask) :
    (progressed written t).state = t.state ∧ (progressed written t).host = t.host := by
  unfold progressed
  split
  · split <;> exact ⟨rfl, rfl⟩
  · exact ⟨rfl, rfl⟩

/-- An event that touches neither the runners nor the checkpoint. -/
theorem TaskInv.same (h : TaskInv set limit s completing produced t)
    (hlive : ∀ n, s'.liveAt n = s.liveAt n) (hsaved : s'.db.checkpoint = s.db.checkpoint)
    (hwithin : t.state = .active → SamplerSystem.AllWithin set limit true s') :
    TaskInv set limit s' completing produced t where
  recorded := h.recorded
  alone := fun m k l l' hm hk => h.alone m k l l' (hlive m ▸ hm) (hlive k ▸ hk)
  current := fun n l hl => h.current n l (hlive n ▸ hl)
  unstarted := fun hc => by
    obtain ⟨hnone, hzero⟩ := h.unstarted (hsaved ▸ hc)
    exact ⟨fun n => (hlive n).trans (hnone n), hzero⟩
  waiting := fun hw => hsaved.trans (h.waiting hw)
  settled := h.settled
  within := hwithin
  funded := h.funded
  saving := fun ha n l hl => h.saving ha n l (hlive n ▸ hl)
  ended := fun hc => by
    obtain ⟨n, l, hl, hend⟩ := h.ended hc
    exact ⟨n, l, (hlive n).trans hl, hend⟩
  completing := h.completing

/-- The node loses its runner. -/
theorem TaskInv.drops {n : Nat} (h : TaskInv set limit s completing produced t)
    (hothers : ∀ m, m ≠ n → s'.liveAt m = s.liveAt m) (hnone : s'.liveAt n = none)
    (hsaved : s'.db.checkpoint = s.db.checkpoint)
    (hwithin : t.state = .active → SamplerSystem.AllWithin set limit true s') :
    TaskInv set limit s' (completingAfter (s.liveAt n) none completing) produced t := by
  have hbefore : ∀ m l, s'.liveAt m = some l → s.liveAt m = some l := by
    intro m l hl
    have hm : m ≠ n := by
      rintro rfl
      rw [hnone] at hl
      cases hl
    exact (hothers m hm).symm.trans hl
  have hcompleting : completingAfter (s.liveAt n) none completing = true →
      s.liveAt n = none ∧ completing = true := by
    cases s.liveAt n with
    | none => exact fun hc => ⟨rfl, hc⟩
    | some l => exact fun hc => by cases hc
  exact {
    recorded := h.recorded
    alone := fun m k l l' hm hk => h.alone m k l l' (hbefore m l hm) (hbefore k l' hk)
    current := fun m l hl => h.current m l (hbefore m l hl)
    unstarted := fun hc => by
      obtain ⟨hlive, hzero⟩ := h.unstarted (hsaved ▸ hc)
      refine ⟨fun m => ?_, hzero⟩
      by_cases hm : m = n
      · exact hm ▸ hnone
      · exact (hothers m hm).trans (hlive m)
    waiting := fun hw => hsaved.trans (h.waiting hw)
    settled := h.settled
    within := hwithin
    funded := h.funded
    saving := fun ha m l hl => h.saving ha m l (hbefore m l hl)
    ended := fun hc => by
      obtain ⟨hn, hold⟩ := hcompleting hc
      obtain ⟨m, l, hl, hend⟩ := h.ended hold
      have hm : m ≠ n := by
        rintro rfl
        rw [hn] at hl
        cases hl
      exact ⟨m, l, (hothers m hm).trans hl, hend⟩
    completing := fun hc => h.completing (hcompleting hc).2 }

/-- The runner of the node takes a step: it produces nothing, or ends a tick of the active
task. -/
theorem TaskInv.steps {n : Nat} {l l' : LiveRunner V P A M C}
    (h : TaskInv set limit s completing produced t) (hl : s.liveAt n = some l)
    (hl' : s'.liveAt n = some l') (hothers : ∀ m, m ≠ n → s'.liveAt m = s.liveAt m)
    (hsaved : s'.db.checkpoint = s.db.checkpoint ∨ s'.db.checkpoint ≠ none)
    (hstep : Still l.runner l'.runner ∨ t.state = .active ∧ ∃ taken counts, l.phase = .counted taken counts)
    (hwithin : t.state = .active → SamplerSystem.AllWithin set limit true s') :
    TaskInv set limit s' (completingAfter (some l) (some l') completing)
      l'.runner.nrProducedSamples (progressed (writtenProgress none (some l) (some l')) t) := by
  have honly : ∀ m k, s'.liveAt m = some k → m = n ∧ k = l' := by
    intro m k hk
    have hm : m = n := by
      by_contra hm
      exact hm (h.alone m n k l ((hothers m hm).symm.trans hk) hl)
    subst hm
    rw [hl'] at hk
    exact ⟨rfl, (Option.some.inj hk).symm⟩
  have hproduced : l.runner.nrProducedSamples = produced := h.current n l hl
  have hstarted : s.db.checkpoint ≠ none := by
    intro hc
    have hnone := (h.unstarted hc).1 n
    rw [hl] at hnone
    cases hnone
  have hstarted' : s'.db.checkpoint ≠ none := by
    rcases hsaved with hsame | hsome
    · rw [hsame]
      exact hstarted
    · exact hsome
  have hactive : t.state = .active → 0 ≤ l'.runner.nrProducedSamples ∧
      l'.runner.nrProducedSamples ≤ limit := by
    intro ha
    have hr := (hwithin ha).live n l' hl'
    have hcommitted := hr.committed
    unfold SamplerAggregatorRunner.committed at hcommitted
    exact ⟨hr.produced, by omega⟩
  -- the row after the event: the runner's count when a save begins, and else the row before
  have hrow : (progressed (writtenProgress none (some l) (some l')) t).nrProducedSamples =
      if l.phase.isSaving = false ∧ l'.phase.isSaving = true ∧ t.state = .active then
        l'.runner.nrProducedSamples else t.nrProducedSamples := by
    by_cases hnew : (!l.phase.isSaving && l'.phase.isSaving) = true
    · have hboth : l.phase.isSaving = false ∧ l'.phase.isSaving = true := by simpa using hnew
      simp only [writtenProgress, if_pos hnew, progressed]
      by_cases ha : t.state = .active
      · rw [if_pos ha, if_pos ⟨hboth.1, hboth.2, ha⟩]
      · rw [if_neg ha, if_neg fun h => ha h.2.2]
    · have hnot : ¬(l.phase.isSaving = false ∧ l'.phase.isSaving = true ∧ t.state = .active) :=
        fun hboth => hnew (by simp [hboth.1, hboth.2.1])
      simp only [writtenProgress, if_neg hnew, progressed, if_neg hnot]
  have hsettled : t.state ≠ .active → l'.runner.nrProducedSamples = produced := by
    intro ha
    rcases hstep with hstill | ⟨hact, -⟩
    · exact hstill.nrProducedSamples.trans hproduced
    · exact absurd hact ha
  have hcompleted : completingAfter (some l) (some l') completing = true →
      l'.phase.isEnded = true ∧ t.nrProducedSamples = l'.runner.nrProducedSamples := by
    intro hc
    simp only [completingAfter, Bool.and_eq_true, Bool.or_eq_true] at hc
    obtain ⟨hend, hwhy⟩ := hc
    have hbefore : l.phase.isEnded = true ∨ l.phase.isCompletingSave = true := by
      rcases hwhy with hold | hsave
      · obtain ⟨m, k, hk, hkend⟩ := h.ended hold
        obtain rfl := h.alone m n k l hk hl
        rw [hl] at hk
        cases hk
        exact .inl hkend
      · exact .inr hsave
    have hstill : Still l.runner l'.runner := by
      rcases hstep with hstill | ⟨-, taken, counts, hphase⟩
      · exact hstill
      · rw [hphase] at hbefore
        rcases hbefore with hbad | hbad <;> cases hbad
    refine ⟨hend, ?_⟩
    rw [hstill.nrProducedSamples, hproduced]
    rcases hwhy with hold | hsave
    · exact h.completing hold
    · by_cases ha : t.state = .active
      · refine h.saving ha n l hl ?_
        revert hsave
        cases l.phase with
        | closing why stage =>
          cases why <;> cases stage <;> simp [SamplerPhase.isCompletingSave, SamplerPhase.isSaving]
        | _ => simp [SamplerPhase.isCompletingSave]
      · exact h.settled ha
  obtain ⟨hstate, hhost⟩ := progressed_state (writtenProgress none (some l) (some l')) t
  exact {
    recorded := by
      rw [hrow]
      split
      · rename_i hnew
        exact (hactive hnew.2.2).1
      · exact h.recorded
    alone := fun m k _ _ hm hk => (honly m _ hm).1.trans (honly k _ hk).1.symm
    current := fun m k hk => by rw [(honly m k hk).2]
    unstarted := fun hc => absurd hc hstarted'
    waiting := fun hw => by
      rw [hstate, hhost] at hw
      exact absurd (h.waiting hw) hstarted
    settled := fun ha => by
      rw [hstate] at ha
      rw [hrow, if_neg fun hnew => ha hnew.2.2, hsettled ha]
      exact h.settled ha
    within := fun ha => hwithin (hstate ▸ ha)
    funded := fun ha => (hactive (hstate ▸ ha)).2
    saving := fun ha m k hk hsave => by
      rw [hstate] at ha
      obtain ⟨rfl, rfl⟩ := honly m k hk
      rw [hrow]
      split
      · rfl
      · rename_i hold
        have hbefore : l.phase.isSaving = true := by
          by_contra hnot
          exact hold ⟨by simpa using hnot, hsave, ha⟩
        rcases hstep with hstill | ⟨-, taken, counts, hphase⟩
        · rw [hstill.nrProducedSamples, hproduced]
          exact h.saving ha m l hl hbefore
        · rw [hphase] at hbefore
          cases hbefore
    ended := fun hc => ⟨n, l', hl', (hcompleted hc).1⟩
    completing := fun hc => by
      rw [hrow]
      split
      · rfl
      · exact (hcompleted hc).2 }

/-- A task without a runner is not about to be completed. -/
theorem TaskInv.not_completing (h : TaskInv set limit s completing produced t)
    (hnone : ∀ n, s.liveAt n = none) : completing = false := by
  by_contra hc
  obtain ⟨n, l, hl, -⟩ := h.ended (by simpa using hc)
  rw [hnone n] at hl
  cases hl

/-- A runner is built for the active task, from its checkpoint or from nothing. -/
theorem TaskInv.builds {n : Nat} {outcome : BuildOutcome}
    (h : TaskInv set limit s completing produced t) (hactive : t.state = .active)
    (hhost : t.host = .samplerWorker) (hnone : ∀ m, s.liveAt m = none)
    (hbuilt : SamplerSystem.Built set s n outcome s') (hothers : ∀ m, m ≠ n → s'.liveAt m = none)
    (hwithin : SamplerSystem.AllWithin set limit true s') :
    TaskInv set limit s' (completingAfter none (s'.liveAt n) completing)
      (producedAfter (s.restores set (.node n (.build outcome) : SamplerEvent V A)) (s'.liveAt n)
        produced)
      (progressed (writtenProgress
        (s.restores set (.node n (.build outcome) : SamplerEvent V A)) none (s'.liveAt n)) t) := by
  have honly : ∀ m k, s'.liveAt m = some k → m = n := by
    intro m k hk
    by_contra hm
    rw [hothers m hm] at hk
    cases hk
  have hcompleting : completingAfter none (s'.liveAt n) completing = false := by
    rw [h.not_completing hnone]
    cases s'.liveAt n <;> rfl
  have hopen : ¬(t.state = .pending ∨ t.host = .controlPlane) := by
    rw [hactive, hhost]
    simp
  rw [hcompleting]
  cases hbuilt with
  | refused hrestored hlive hsaved =>
    rw [hrestored, hlive]
    have hall : ∀ m, s'.liveAt m = s.liveAt m := by
      intro m
      rw [hnone m]
      by_cases hm : m = n
      · exact hm ▸ hlive
      · exact hothers m hm
    have hsame := h.same hall hsaved fun _ => hwithin
    rw [h.not_completing hnone] at hsame
    exact hsame
  | resumed c hrestored hlive hbefore hsaved =>
    rw [hrestored]
    have hc := (h.within hactive).saved c hbefore
    have hcommitted := hc.committed
    unfold SamplerAggregatorCheckpoint.committed at hcommitted
    have hrow : progressed (writtenProgress (some c) none (s'.liveAt n)) t =
        { t with nrProducedSamples := c.producedSamples, nrCompletedSamples := c.completedSamples } :=
      if_pos hactive
    rw [hrow]
    exact {
      recorded := hc.produced
      alone := fun m k _ _ hm hk => (honly m _ hm).trans (honly k _ hk).symm
      current := fun m l hl => by
        obtain rfl := honly m l hl
        exact (hlive l hl).2
      unstarted := fun hnothing => by
        rw [hsaved] at hnothing
        cases hnothing
      waiting := fun hw => absurd hw hopen
      settled := fun ha => absurd hactive ha
      within := fun _ => hwithin
      funded := fun _ => by
        show c.producedSamples ≤ limit
        omega
      saving := fun _ _ _ _ _ => rfl
      ended := fun hc => by cases hc
      completing := fun hc => by cases hc }
  | started hrestored hlive hbefore hsaved =>
    rw [hrestored]
    obtain ⟨-, hzero, hrowzero⟩ := h.unstarted hbefore
    have hproduced : producedAfter none (s'.liveAt n) produced = 0 := by
      cases hn : s'.liveAt n with
      | none => exact hzero
      | some l => exact (hlive l hn).2
    have hrow : progressed (writtenProgress none none (s'.liveAt n)) t = t := rfl
    rw [hproduced, hrow]
    exact {
      recorded := h.recorded
      alone := fun m k _ _ hm hk => (honly m _ hm).trans (honly k _ hk).symm
      current := fun m l hl => by
        obtain rfl := honly m l hl
        exact (hlive l hl).2
      unstarted := fun hnothing => absurd hnothing hsaved
      waiting := fun hw => absurd hw hopen
      settled := fun ha => absurd hactive ha
      within := fun _ => hwithin
      funded := fun ha => hzero ▸ h.funded ha
      saving := fun _ _ _ _ _ => hrowzero
      ended := fun hc => by cases hc
      completing := fun hc => by cases hc }

/-- The progress an event writes is what has been produced. -/
theorem writtenProgress_produced {restored : Option (SamplerAggregatorCheckpoint V P A M)}
    {before after : Option (LiveRunner V P A M C)} {p c : Int}
    (h : writtenProgress restored before after = some (p, c)) :
    producedAfter restored after produced = p := by
  unfold writtenProgress at h
  split at h
  · cases h
    rfl
  · split at h
    · cases h
      rfl
    · cases h
  · cases h

/-- An event of the sampler system of a task, whose answer lies within the limit. -/
theorem TaskInv.sampler {e : SamplerEvent V A} (h : TaskInv set limit s completing produced t)
    (hlimit : 0 ≤ limit) (hexclusive : s.Exclusive e)
    (hbuilds : e.builds = true → t.state = .active ∧ t.host = .samplerWorker)
    (hworks : ∀ n clock replies, e = .node n (.work clock replies) → t.state = .active)
    (hlimited : Limited set limit true e) :
    TaskInv set limit (s.step set e)
      (completingAfter (s.actor e) ((s.step set e).actor e) completing)
      (producedAfter (s.restores set e) ((s.step set e).actor e) produced)
      (progressed (writtenProgress (s.restores set e) (s.actor e) ((s.step set e).actor e)) t) := by
  have hwithin : t.state = .active → SamplerSystem.AllWithin set limit true (s.step set e) :=
    fun ha => (h.within ha).step hlimit e hlimited
  have hevaluator : (∀ n e', e ≠ .node n e') → s.actor e = none → (s.step set e).actor e = none →
      TaskInv set limit (s.step set e)
        (completingAfter (s.actor e) ((s.step set e).actor e) completing)
        (producedAfter (s.restores set e) ((s.step set e).actor e) produced)
        (progressed (writtenProgress (s.restores set e) (s.actor e) ((s.step set e).actor e)) t) := by
    intro he hbefore hafter
    rw [hbefore, hafter, SamplerSystem.restores_none fun n outcome hb => absurd hb (he n _)]
    obtain ⟨hlive, hsaved⟩ := SamplerSystem.step_evaluator set s he
    exact h.same hlive hsaved hwithin
  cases e with
  | claim _ _ _ _ | releaseWorker _ | releaseUntracked _ _ | reclaim _ | submit _ _ _ _
  | failBatch _ _ _ _ _ => exact hevaluator (fun n e' he => by cases he) rfl rfl
  | node n e =>
    show TaskInv set limit (s.nodeStep set n e)
      (completingAfter (s.liveAt n) ((s.nodeStep set n e).liveAt n) completing)
      (producedAfter (s.restores set (.node n e : SamplerEvent V A)) ((s.nodeStep set n e).liveAt n)
        produced)
      (progressed (writtenProgress (s.restores set (.node n e : SamplerEvent V A)) (s.liveAt n)
        ((s.nodeStep set n e).liveAt n)) t)
    by_cases hb : (∃ outcome, e = .build outcome) ∧ s.liveAt n = none
    · obtain ⟨⟨outcome, rfl⟩, hnone⟩ := hb
      obtain ⟨hactive, hhost⟩ := hbuilds rfl
      have hall : ∀ m, s.liveAt m = none := by
        intro m
        by_cases hm : m = n
        · exact hm ▸ hnone
        · exact SamplerSystem.liveAt_none_of_exclusive hexclusive m hm
      have hothers : ∀ m, m ≠ n → (s.nodeStep set n (.build outcome)).liveAt m = none := by
        intro m hm
        rw [← hall m]
        cases (SamplerSystem.nodeMove n (.build outcome) s :
            SamplerSystem.NodeMove set s n (.build outcome) _) with
        | rests _ hlive _ _ _ => exact hlive m
        | drops _ _ hothers _ _ _ => exact hothers m hm
        | builds _ _ _ _ _ hothers _ _ _ => exact hothers m hm
        | activates _ _ _ _ _ hothers _ _ _ => exact hothers m hm
        | steps _ _ _ _ _ _ hothers _ _ _ => exact hothers m hm
      rw [hnone]
      exact h.builds hactive hhost hall (SamplerSystem.built outcome hnone) hothers (hwithin hactive)
    · have hrestored : s.restores set (.node n e : SamplerEvent V A) = none := by
        refine SamplerSystem.restores_none fun m outcome he hnone => hb ?_
        cases he
        exact ⟨⟨outcome, rfl⟩, hnone⟩
      rw [hrestored]
      cases (SamplerSystem.nodeMove n e s : SamplerSystem.NodeMove set s n e _) with
      | rests hdb hlive _ _ _ =>
        cases hn : s.liveAt n with
        | none =>
          rw [(hlive n).trans hn]
          exact h.same hlive (congrArg Database.checkpoint hdb) hwithin
        | some l =>
          rw [(hlive n).trans hn]
          exact h.steps hn ((hlive n).trans hn) (fun m _ => hlive m)
            (.inl (congrArg Database.checkpoint hdb)) (.inl (.refl _)) hwithin
      | drops hdb hnone hothers _ _ _ =>
        rw [hnone]
        have hdrops := h.drops hothers hnone (congrArg Database.checkpoint hdb) hwithin
        cases hn : s.liveAt n with
        | none =>
          rw [hn] at hdrops
          exact hdrops
        | some l =>
          rw [hn] at hdrops
          exact hdrops
      | builds outcome he hnone _ _ _ _ _ _ => exact absurd ⟨⟨outcome, he⟩, hnone⟩ hb
      | activates l hl _ hdb hl' hothers _ _ _ =>
        rw [hl, hl']
        exact h.steps hl hl' hothers (.inl (congrArg Database.checkpoint hdb)) (.inl (.refl _))
          hwithin
      | steps node hn l hnode hdb hl' hothers _ _ _ =>
        have hl : s.liveAt n = some l := by simp [SamplerSystem.liveAt, hn, hnode]
        rw [hl, hl']
        have htables : TablesKept s.db (liveStep set s.db node.generator l e).db l.runner :=
          liveStep_tables e
        refine h.steps hl hl' hothers ?_ ?_ hwithin
        · rw [hdb]
          rcases htables.checkpoint with hsame | ⟨c, hc, -⟩
          · exact .inl hsame
          · exact .inr (by rw [hc]; exact Option.some_ne_none c)
        · have hspends : Still l.runner (liveStep set s.db node.generator l e).live.runner ∨ _ :=
            liveStep_spends e
          rcases hspends with hstill | ⟨clock, replies, taken, counts, rfl, hphase, -⟩
          · exact .inl hstill
          · exact .inr ⟨hworks n clock replies rfl, taken, counts, hphase⟩

/-- A higher limit, or any limit for a task that is not active. -/
theorem TaskInv.relimit {limit' : Int} (h : TaskInv set limit s completing produced t)
    (hle : t.state = .active → limit ≤ limit') : TaskInv set limit' s completing produced t :=
  { h with
    within := fun ha =>
      ⟨fun n l hl => { (h.within ha).live n l hl with
          committed := ((h.within ha).live n l hl).committed.trans (hle ha) },
        fun c hc => { (h.within ha).saved c hc with
          committed := ((h.within ha).saved c hc).committed.trans (hle ha) }⟩
    funded := fun ha => (h.funded ha).trans (hle ha) }

/-- The task is completed or fails once its row records what has been produced. -/
theorem TaskInv.closes {t' : RunTask} (h : TaskInv set limit s completing produced t)
    (hrow : t'.nrProducedSamples = t.nrProducedSamples) (hhost : t'.host = t.host)
    (hactive : t'.state ≠ .active) (hpending : t'.state ≠ .pending)
    (hdone : t.nrProducedSamples = produced) : TaskInv set limit s completing produced t' where
  recorded := hrow ▸ h.recorded
  alone := h.alone
  current := h.current
  unstarted := hrow ▸ h.unstarted
  waiting := fun hw => h.waiting (.inr (hhost ▸ hw.resolve_left hpending))
  settled := fun _ => hrow.trans hdone
  within := fun ha => absurd ha hactive
  funded := fun ha => absurd ha hactive
  saving := fun ha => absurd ha hactive
  ended := h.ended
  completing := fun hc => hrow.trans (h.completing hc)

/-- A pending task is activated; it has no runner and has produced nothing. -/
theorem TaskInv.activates (h : TaskInv set limit s completing produced t)
    (hpending : t.state = .pending) (hlimit : 0 ≤ limit) :
    TaskInv set limit s completing produced { t with state := .active } := by
  have hsaved := h.waiting (.inl hpending)
  obtain ⟨hlive, hzero, -⟩ := h.unstarted hsaved
  have hnone : ∀ {n l}, s.liveAt n = some l → False := by
    intro n l hl
    rw [hlive n] at hl
    cases hl
  exact {
    recorded := h.recorded
    alone := h.alone
    current := h.current
    unstarted := h.unstarted
    waiting := fun _ => hsaved
    settled := fun ha => absurd rfl ha
    within := fun _ => by
      refine ⟨fun n l hl => (hnone hl).elim, fun c hc => ?_⟩
      rw [hsaved] at hc
      cases hc
    funded := fun _ => by rw [hzero]; exact hlimit
    saving := fun _ n l hl => (hnone hl).elim
    ended := h.ended
    completing := h.completing }

/-- A publication brings the row of the active task up to date. -/
theorem TaskInv.publishes (h : TaskInv set limit s completing produced t) (count : Int)
    {n : Nat} {l : LiveRunner V P A M C} (hl : s.liveAt n = some l) :
    TaskInv set limit s completing produced
      (progressed (some (l.runner.nrProducedSamples, count)) t) := by
  simp only [progressed]
  split
  · rename_i ha
    have hcurrent := h.current n l hl
    exact {
      recorded := ((h.within ha).live n l hl).produced
      alone := h.alone
      current := h.current
      unstarted := fun hc => by
        have hnone := (h.unstarted hc).1 n
        rw [hl] at hnone
        cases hnone
      waiting := h.waiting
      settled := fun hna => absurd ha hna
      within := h.within
      funded := h.funded
      saving := fun _ _ _ _ _ => hcurrent
      ended := h.ended
      completing := fun _ => hcurrent }
  · exact h

end

/-! ## The invariant of the campaign -/

/-- What the allowance of a run leaves beyond its recorded progress. -/
def headroom (s : CampaignSystem V P A M C) (c : Int) : Int :=
  s.tables.allowance c - recordedSamples c s.tables.tasks

/-- What a task may have produced: the part of the allowance the other tasks leave. -/
def limitOf (s : CampaignSystem V P A M C) (t : RunTask) : Int :=
  t.nrProducedSamples + s.headroom t.runId

structure Inv (set : CampaignSetting V P A M C) (s : CampaignSystem V P A M C) : Prop where
  children : s.tables.children.Nodup
  ids : (s.tables.tasks.map (·.id)).Nodup
  members : ∀ t ∈ s.tables.tasks, t.runId ∈ s.tables.children
  rows : CampaignTables.OfChildren s.tables.children s.tables.granted
  single : ∀ t ∈ s.tables.tasks, ∀ u ∈ s.tables.tasks, t.state = .active → u.state = .active →
    t.runId = u.runId → t.id = u.id
  tasks : ∀ t ∈ s.tables.tasks,
    TaskInv (set.task t.id) (s.limitOf t) (s.samplers t.id) (s.completing t.id) (s.produced t.id) t
  absent : ∀ id, id ∉ s.tables.tasks.map (·.id) → (∀ n, (s.samplers id).liveAt n = none) ∧
    (s.samplers id).db.checkpoint = none ∧ s.produced id = 0 ∧ s.completing id = false
  solvent : ∀ c ∈ s.tables.children, 0 ≤ s.headroom c
  capped : (s.tables.children.map s.tables.allowance).sum ≤ set.limit

section

variable {set : CampaignSetting V P A M C} {s s' : CampaignSystem V P A M C} {t t' : RunTask}

theorem Inv.recorded_nonneg (h : Inv set s) (c : Int) :
    0 ≤ recordedSamples c s.tables.tasks :=
  sumOfRun_nonneg fun t ht => (h.tasks t ht).recorded

theorem Inv.limit_nonneg (h : Inv set s) (ht : t ∈ s.tables.tasks) : 0 ≤ s.limitOf t :=
  Int.add_nonneg (h.tasks t ht).recorded (h.solvent t.runId (h.members t ht))

/-- The allowance query answers what the task may have produced. -/
theorem Inv.campaignSampleAllowance (h : Inv set s) (ht : t ∈ s.tables.tasks) :
    s.tables.campaignSampleAllowance t.runId t.id = some (s.limitOf t) := by
  unfold CampaignTables.campaignSampleAllowance
  rw [if_pos (h.members t ht)]
  have hsplit := sumOfRun_split (f := (·.nrProducedSamples)) h.ids ht
  unfold limitOf headroom CampaignTables.allowance recordedSamples
  refine congrArg some ?_
  omega

/-- One task changes: its limit stays, and its row moves only while it is active. -/
theorem Inv.replace (h : Inv set s) (t' : RunTask) (ht : t ∈ s.tables.tasks) (hid : t'.id = t.id)
    (hrun : t'.runId = t.runId)
    (hactive : t'.state = .active → t.state = .active ∨
      ∀ u ∈ s.tables.tasks, u.runId = t.runId → u.state ≠ .active)
    (hmoved : t'.nrProducedSamples ≠ t.nrProducedSamples → t.state = .active)
    (hsolvent : t'.nrProducedSamples ≤ s.limitOf t)
    (htables : s'.tables = { s.tables with tasks := replaceTask t' s.tables.tasks })
    (hothers : ∀ id, id ≠ t.id → s'.samplers id = s.samplers id ∧
      s'.completing id = s.completing id ∧ s'.produced id = s.produced id)
    (htask : TaskInv (set.task t.id) (s.limitOf t) (s'.samplers t.id) (s'.completing t.id)
      (s'.produced t.id) t') : Inv set s' := by
  have hids : s'.tables.tasks.map (·.id) = s.tables.tasks.map (·.id) := by
    rw [htables]
    exact replaceTask_ids t' s.tables.tasks
  have hheadroom : ∀ c, s'.headroom c =
      if c = t.runId then s.headroom c + t.nrProducedSamples - t'.nrProducedSamples
      else s.headroom c := by
    intro c
    unfold headroom recordedSamples
    rw [htables, sumOfRun_replaceTask h.ids ht hid hrun c]
    show s.tables.allowance c - _ = _
    split
    · omega
    · rfl
  have hmem : ∀ u ∈ s'.tables.tasks, u = t' ∨ u ∈ s.tables.tasks ∧ u.id ≠ t.id := by
    intro u hu
    rw [htables] at hu
    rcases mem_replaceTask hu with rfl | ⟨hu, hne⟩
    · exact .inl rfl
    · exact .inr ⟨hu, hid ▸ hne⟩
  have hchildren : s'.tables.children = s.tables.children := by rw [htables]
  have hallowance : s'.tables.allowance = s.tables.allowance := by rw [htables]; rfl
  refine ⟨hchildren ▸ h.children, hids ▸ h.ids, ?_, ?_, ?_, ?_, ?_, ?_, ?_⟩
  · intro u hu
    rw [hchildren]
    rcases hmem u hu with rfl | ⟨hu, -⟩
    · rw [hrun]
      exact h.members t ht
    · exact h.members u hu
  · rw [htables]
    exact h.rows
  · intro u hu v hv hua hva huv
    rcases hmem u hu with rfl | ⟨hu, hune⟩ <;> rcases hmem v hv with rfl | ⟨hv, hvne⟩
    · rfl
    · rcases hactive hua with hta | hnone
      · rw [hid]
        exact h.single t ht v hv hta hva (hrun ▸ huv)
      · exact absurd hva (hnone v hv (huv ▸ hrun))
    · rcases hactive hva with hta | hnone
      · rw [hid]
        exact h.single u hu t ht hua hta (hrun ▸ huv)
      · exact absurd hua (hnone u hu (huv.trans hrun))
    · exact h.single u hu v hv hua hva huv
  · intro u hu
    rcases hmem u hu with rfl | ⟨hu, hune⟩
    · have hlimit : s'.limitOf u = s.limitOf t := by
        unfold limitOf
        rw [hheadroom, if_pos hrun, hrun]
        omega
      rw [hid, hlimit]
      exact htask
    · obtain ⟨hsampler, hcompleting, hproduced⟩ := hothers u.id hune
      rw [hsampler, hcompleting, hproduced]
      refine (h.tasks u hu).relimit fun hua => ?_
      unfold limitOf
      rw [hheadroom]
      split
      · rename_i hur
        -- another active task of the run leaves the row of this one alone
        have hrow : t'.nrProducedSamples = t.nrProducedSamples := by
          by_contra hne
          exact hune (h.single u hu t ht hua (hmoved hne) hur)
        omega
      · rfl
  · intro id hnot
    rw [hids] at hnot
    have hne : id ≠ t.id := by
      rintro rfl
      exact hnot (List.mem_map_of_mem (f := fun t : RunTask => t.id) ht)
    obtain ⟨hsampler, hcompleting, hproduced⟩ := hothers id hne
    rw [hsampler, hcompleting, hproduced]
    exact h.absent id hnot
  · intro c hc
    rw [hheadroom]
    rw [hchildren] at hc
    have hold := h.solvent c hc
    split
    · rename_i hct
      unfold limitOf at hsolvent
      rw [← hct] at hsolvent
      omega
    · exact hold
  · rw [hchildren, hallowance]
    exact h.capped

/-! ### Steps -/

theorem progressed_ids (written : Option (Int × Int)) (t : RunTask) :
    (progressed written t).id = t.id ∧ (progressed written t).runId = t.runId := by
  unfold progressed
  split
  · split <;> exact ⟨rfl, rfl⟩
  · exact ⟨rfl, rfl⟩

/-- The row moves only while the task is active, to what has been produced. -/
theorem progressed_row (t : RunTask) {written : Option (Int × Int)} {produced : Int}
    (h : ∀ p c, written = some (p, c) → produced = p) :
    (progressed written t).nrProducedSamples = t.nrProducedSamples ∨
      t.state = .active ∧ (progressed written t).nrProducedSamples = produced := by
  unfold progressed
  split
  · rename_i p c
    split
    · rename_i ha
      exact .inr ⟨ha, (h p c rfl).symm⟩
    · exact .inl rfl
  · exact .inl rfl

theorem writeProgress_eq {tasks : List RunTask} (hn : (tasks.map (·.id)).Nodup) (ht : t ∈ tasks)
    (written : Option (Int × Int)) :
    writeProgress t.id written tasks = replaceTask (progressed written t) tasks := by
  unfold writeProgress
  split
  · rename_i p c
    unfold updateRunTaskProgress
    refine (map_eq_replaceTask hn ht ?_ fun row hne => if_neg fun h => hne h.1).trans
      (congrArg (replaceTask · tasks) ?_)
    · split <;> rfl
    · simp only [progressed, true_and]
  · have hsame : tasks.map (fun row => row) = replaceTask t tasks :=
      map_eq_replaceTask hn ht rfl fun _ _ => rfl
    rw [List.map_id'] at hsame
    exact hsame

/-- A publication of the runner on a node. -/
theorem Inv.syncProgress (h : Inv set s) (taskId : Int) (n : Nat) :
    Inv set (s.step set (.syncProgress taskId n)) := by
  cases hl : (s.samplers taskId).liveAt n with
  | none =>
    simp only [step, hl]
    exact h
  | some l =>
    simp only [step, hl]
    by_cases hmem : taskId ∈ s.tables.tasks.map (·.id)
    · obtain ⟨t, ht, rfl⟩ := List.mem_map.1 hmem
      have htask := h.tasks t ht
      have hpublished := htask.publishes l.runner.nrCompletedSamples hl
      obtain ⟨hid, hrun⟩ := progressed_ids
        (some (l.runner.nrProducedSamples, l.runner.nrCompletedSamples)) t
      obtain ⟨hstate, -⟩ := progressed_state
        (some (l.runner.nrProducedSamples, l.runner.nrCompletedSamples)) t
      have hcurrent : ∀ p c, some (l.runner.nrProducedSamples, l.runner.nrCompletedSamples) =
          some (p, c) → s.produced t.id = p := by
        rintro p c heq
        cases heq
        exact (htask.current n l hl).symm
      have hrow := progressed_row t hcurrent
      refine h.replace _ ht hid hrun (fun ha => .inl (hstate ▸ ha)) (fun hne => ?_) ?_ ?_
        (fun _ _ => ⟨rfl, rfl, rfl⟩) hpublished
      · exact (hrow.resolve_left hne).1
      · rcases hrow with hsame | ⟨ha, hnew⟩
        · rw [hsame]
          exact Int.le_add_of_nonneg_right (h.solvent t.runId (h.members t ht))
        · rw [hnew]
          exact htask.funded ha
      · exact congrArg (fun tasks => { s.tables with tasks })
          (writeProgress_eq h.ids ht
            (some (l.runner.nrProducedSamples, l.runner.nrCompletedSamples)))
    · have hnone := (h.absent taskId hmem).1 n
      rw [hl] at hnone
      cases hnone

/-- An event of the sampler system of a task. -/
theorem Inv.samplerStep (h : Inv set s) (ht : t ∈ s.tables.tasks) (e : SamplerEvent V A)
    (hok : Recorded s (.sampler t.id e)) : Inv set (s.samplerStep set t e) := by
  unfold CampaignSystem.samplerStep
  split
  · exact h
  · rename_i hbuilds
    obtain ⟨hexclusive, hworks⟩ := hok
    have htask := h.tasks t ht
    rw [h.campaignSampleAllowance ht]
    have hactor : ∀ sampler : SamplerSystem V P A M C,
        sampler.actor e = sampler.actor (e.answered (some (s.limitOf t))) := by
      intro sampler
      cases e with
      | node n e => cases e <;> rfl
      | _ => rfl
    have hrestores : (s.samplers t.id).restores (set.task t.id) e =
        (s.samplers t.id).restores (set.task t.id) (e.answered (some (s.limitOf t))) := by
      cases e with
      | node n e => cases e <;> rfl
      | _ => rfl
    have hstep := htask.sampler (e := e.answered (some (s.limitOf t))) (h.limit_nonneg ht) ?_ ?_ ?_ ?_
    · dsimp only
      rw [hactor, hactor, hrestores]
      generalize hafter : (s.samplers t.id).step (set.task t.id) (e.answered (some (s.limitOf t))) =
        after at hstep ⊢
      generalize hwritten : writtenProgress ((s.samplers t.id).restores (set.task t.id)
        (e.answered (some (s.limitOf t))))
        ((s.samplers t.id).actor (e.answered (some (s.limitOf t))))
        (after.actor (e.answered (some (s.limitOf t)))) = written at hstep ⊢
      have hproduced : ∀ p c, written = some (p, c) → producedAfter ((s.samplers t.id).restores
          (set.task t.id) (e.answered (some (s.limitOf t))))
          (after.actor (e.answered (some (s.limitOf t)))) (s.produced t.id) = p := by
        intro p c hw
        exact writtenProgress_produced (hwritten.trans hw)
      have hrow := progressed_row (t := t) hproduced
      obtain ⟨hid, hrun⟩ := progressed_ids written t
      obtain ⟨hstate, -⟩ := progressed_state written t
      refine h.replace _ ht hid hrun (fun ha => .inl (hstate ▸ ha)) (fun hne => ?_) ?_ ?_
        (fun id hne => ⟨if_neg hne, if_neg hne, if_neg hne⟩) ?_
      · exact (hrow.resolve_left hne).1
      · rcases hrow with hsame | ⟨ha, hnew⟩
        · rw [hsame]
          exact Int.le_add_of_nonneg_right (h.solvent t.runId (h.members t ht))
        · rw [hnew]
          exact hstep.funded (hstate ▸ ha)
      · exact congrArg (fun tasks => { s.tables with tasks }) (writeProgress_eq h.ids ht written)
      · dsimp only
        rw [if_pos rfl, if_pos rfl, if_pos rfl]
        exact hstep
    · cases e with
      | node n e => cases e <;> exact hexclusive
      | _ => trivial
    · intro hb
      have hb' : e.builds = true := by
        cases e with
        | node n e => cases e <;> exact hb
        | _ => exact hb
      rw [hb'] at hbuilds
      simpa using hbuilds
    · intro n clock replies he
      cases e with
      | node m e =>
        cases e with
        | work clock' replies' => exact hworks t ht rfl
        | _ => cases he
      | _ => cases he
    · intro granted hanswer
      cases e with
      | node n e =>
        cases e with
        | work clock replies =>
          refine ⟨s.limitOf t, ?_, le_rfl⟩
          simp only [SamplerEvent.answered, SamplerEvent.allowance, Option.some.injEq] at hanswer
          cases hq : replies.produce.allowance with
          | error e =>
            rw [hq] at hanswer
            cases hanswer
          | ok a =>
            rw [hq] at hanswer
            cases hanswer
            rfl
        | _ => cases hanswer
      | _ => cases hanswer

/-- A statement that completes or fails a task, which no longer counts as active. -/
theorem Inv.closes (h : Inv set s) {move : RunTask → RunTask} (ht : t ∈ s.tables.tasks)
    (hothers : ∀ row, row.id ≠ t.id → move row = row) (hid : (move t).id = t.id)
    (hrun : (move t).runId = t.runId) (hrow : (move t).nrProducedSamples = t.nrProducedSamples)
    (hhost : (move t).host = t.host)
    (hclosed : move t = t ∨ (move t).state ≠ .active ∧ (move t).state ≠ .pending ∧
      t.nrProducedSamples = s.produced t.id) :
    Inv set (s.withTasks (s.tables.tasks.map move)) := by
  have htask := h.tasks t ht
  refine h.replace _ ht hid hrun (fun ha => ?_) (fun hne => absurd hrow hne) ?_ ?_
    (fun _ _ => ⟨rfl, rfl, rfl⟩) ?_
  · rcases hclosed with hsame | ⟨hna, -⟩
    · exact .inl (hsame ▸ ha)
    · exact absurd ha hna
  · rw [hrow]
    exact Int.le_add_of_nonneg_right (h.solvent t.runId (h.members t ht))
  · exact congrArg (fun tasks => { s.tables with tasks }) (map_eq_replaceTask h.ids ht hid hothers)
  · rcases hclosed with hsame | ⟨hna, hnp, hdone⟩
    · rw [hsame]
      exact htask
    · exact htask.closes hrow hhost hna hnp hdone

/-- A statement about a task that does not exist. -/
theorem Inv.absentTask (h : Inv set s) {move : RunTask → RunTask} {taskId : Int}
    (hnot : taskId ∉ s.tables.tasks.map (·.id)) (hothers : ∀ row, row.id ≠ taskId → move row = row) :
    Inv set (s.withTasks (s.tables.tasks.map move)) := by
  have hsame : s.tables.tasks.map move = s.tables.tasks := by
    refine (List.map_congr_left fun row hrow => ?_).trans (List.map_id _)
    exact hothers row fun hid => hnot (List.mem_map.2 ⟨row, hrow, hid⟩)
  rw [hsame]
  exact h

/-- `complete_run_task` of a task whose row records what has been produced. -/
theorem Inv.completes (h : Inv set s) (taskId : Int)
    (hdone : ∀ t ∈ s.tables.tasks, t.id = taskId → t.nrProducedSamples = s.produced taskId) :
    Inv set (s.withTasks (completeRunTask taskId s.tables.tasks)) := by
  have hothers : ∀ row : RunTask, row.id ≠ taskId →
      (if row.id = taskId ∧ row.state = .active then
        { row with state := .completed, failureReason := none } else row) = row :=
    fun row hne => if_neg fun hc => hne hc.1
  by_cases hmem : taskId ∈ s.tables.tasks.map (·.id)
  · obtain ⟨t, ht, rfl⟩ := List.mem_map.1 hmem
    refine h.closes ht hothers ?_ ?_ ?_ ?_ ?_
    iterate 4 split <;> rfl
    split
    · exact .inr ⟨by simp, by simp, hdone t ht rfl⟩
    · exact .inl rfl
  · exact h.absentTask hmem hothers

/-- `fail_run_task` of a task whose progress is recorded. -/
theorem Inv.fails (h : Inv set s) (taskId : Int) (reason : String)
    (hok : Recorded s (.failTask taskId reason : CampaignEvent V A)) :
    Inv set (s.withTasks (failRunTask taskId reason s.tables.tasks)) := by
  have hothers : ∀ row : RunTask, row.id ≠ taskId →
      (if row.id = taskId ∧ (row.state = .pending ∨ row.state = .active) then
        { row with state := .failed, failureReason := some reason } else row) = row :=
    fun row hne => if_neg fun hc => hne hc.1
  by_cases hmem : taskId ∈ s.tables.tasks.map (·.id)
  · obtain ⟨t, ht, rfl⟩ := List.mem_map.1 hmem
    refine h.closes ht hothers ?_ ?_ ?_ ?_ ?_
    iterate 4 split <;> rfl
    split
    · refine .inr ⟨by simp, by simp, ?_⟩
      by_cases ha : t.state = .active
      · exact hok t ht rfl ha
      · exact (h.tasks t ht).settled ha
    · exact .inl rfl
  · exact h.absentTask hmem hothers

/-- The next pending task of a run without an active one. -/
theorem Inv.activateNext (h : Inv set s) (runId : Int)
    (hnone : loadActiveRunTask runId s.tables.tasks = none) :
    Inv set (s.withTasks (activateNextRunTask runId s.tables.tasks).2) := by
  unfold activateNextRunTask
  cases hnext : nextPendingTask runId s.tables.tasks with
  | none => exact h
  | some t =>
    obtain ⟨ht, hrun, hpending⟩ := nextPendingTask_some hnext
    have htask := h.tasks t ht
    have hidle : ∀ u ∈ s.tables.tasks, u.runId = t.runId → u.state ≠ .active := by
      intro u hu hur ha
      have hfound := List.find?_eq_none.1 hnone u hu
      simp [hur, hrun, ha] at hfound
    have hmoved : s.tables.tasks.map (fun row => if row.id = t.id then { row with state := .active }
        else row) = replaceTask { t with state := .active } s.tables.tasks := by
      refine (map_eq_replaceTask h.ids ht ?_ fun row hne => if_neg hne).trans
        (congrArg (replaceTask · s.tables.tasks) (if_pos rfl))
      split <;> rfl
    refine h.replace { t with state := .active } ht rfl rfl (fun _ => .inr hidle)
      (fun hne => absurd rfl hne) ?_ (congrArg (fun tasks => { s.tables with tasks }) hmoved)
      (fun _ _ => ⟨rfl, rfl, rfl⟩) (htask.activates hpending (h.limit_nonneg ht))
    exact Int.le_add_of_nonneg_right (h.solvent t.runId (h.members t ht))

/-- New allowances, at least as large for every run with an active task. -/
theorem Inv.allocate (h : Inv set s) {requests : List (Int × Int)} {granted : Int → Option Int}
    (ha : s.tables.allocateCampaignSamples set.maxTotalSamples requests = .ok granted) :
    Inv set { s with tables := { s.tables with granted } } := by
  have hnew := CampaignTables.allocateCampaignSamples_allocated h.children h.rows ha
  have hopen : ∀ t ∈ s.tables.tasks, t.state = .active →
      queueCompleted t.runId s.tables.tasks = false := by
    intro t ht hactive
    refine List.all_eq_false.2 ⟨t, List.mem_filter.2 ⟨ht, by simp⟩, ?_⟩
    rw [hactive]
    decide
  have hgrows : ∀ c ∈ s.tables.children, queueCompleted c s.tables.tasks = false →
      s.tables.allowance c ≤ (granted c).getD 0 := by
    intro c hc hdone
    have hkept := hnew.kept c hc hdone
    have hsolvent := h.solvent c hc
    have hrecorded := h.recorded_nonneg c
    unfold headroom CampaignTables.allowance at hsolvent
    unfold CampaignTables.allowance
    cases hg : s.tables.granted c with
    | none =>
      rw [hg] at hkept hsolvent
      simp only [Option.getD_none] at hkept hsolvent ⊢
      omega
    | some g =>
      rw [hg] at hkept
      exact hkept
  refine ⟨h.children, h.ids, h.members, hnew.rows, h.single, fun t ht => ?_, h.absent,
    fun c hc => ?_, hnew.total⟩
  · refine (h.tasks t ht).relimit fun hactive => ?_
    have hle := hgrows t.runId (h.members t ht) (hopen t ht hactive)
    unfold limitOf headroom
    show _ ≤ t.nrProducedSamples + ((granted t.runId).getD 0 - recordedSamples t.runId s.tables.tasks)
    omega
  · show 0 ≤ (granted c).getD 0 - recordedSamples c s.tables.tasks
    by_cases hdone : queueCompleted c s.tables.tasks = true
    · have hle := hnew.completed c hc hdone
      omega
    · have hle := hgrows c hc (by simpa using hdone)
      have hsolvent := h.solvent c hc
      unfold headroom at hsolvent
      omega

/-- A new child. -/
theorem Inv.createChild (h : Inv set s) {runId : Int} (hnew : runId ∉ s.tables.children) :
    Inv set { s with tables := { s.tables with children := s.tables.children ++ [runId] } } := by
  have hnone : s.tables.granted runId = none := by
    by_contra hsome
    exact hnew (h.rows runId hsome)
  refine ⟨?_, h.ids, fun t ht => List.mem_append_left _ (h.members t ht),
    fun c hc => List.mem_append_left _ (h.rows c hc), h.single, h.tasks, h.absent,
    fun c hc => ?_, ?_⟩
  · refine List.nodup_append.2 ⟨h.children, List.nodup_singleton runId, fun a ha b hb hab => ?_⟩
    rw [List.mem_singleton.1 hb] at hab
    exact hnew (hab ▸ ha)
  · rcases List.mem_append.1 hc with hc | hc
    · exact h.solvent c hc
    · obtain rfl := List.mem_singleton.1 hc
      have hempty : s.tables.tasks.filter (fun t => t.runId == c) = [] := by
        refine List.filter_eq_nil_iff.2 fun t ht hrun => hnew ?_
        rw [← beq_iff_eq.1 hrun]
        exact h.members t ht
      show 0 ≤ (s.tables.granted c).getD 0 - recordedSamples c s.tables.tasks
      simp [recordedSamples, sumOfRun, hempty, hnone]
  · show ((s.tables.children ++ [runId]).map s.tables.allowance).sum ≤ set.limit
    have hzero : s.tables.allowance runId = 0 := by simp [CampaignTables.allowance, hnone]
    simpa [hzero] using h.capped

/-- A new pending task. -/
theorem Inv.appendTask (h : Inv set s) {runId taskId sequenceNr : Int} {host : TaskHost}
    (hchild : runId ∈ s.tables.children) (hnew : taskId ∉ s.tables.tasks.map (·.id)) :
    Inv set (s.withTasks
      (s.tables.tasks ++ [⟨taskId, runId, sequenceNr, host, .pending, none, 0, 0⟩])) := by
  have hheadroom : ∀ c, (s.withTasks (s.tables.tasks ++
      [⟨taskId, runId, sequenceNr, host, .pending, none, 0, 0⟩])).headroom c = s.headroom c := by
    intro c
    show s.tables.allowance c - recordedSamples c (s.tables.tasks ++ _) = _
    unfold headroom recordedSamples
    rw [sumOfRun_append]
    have hzero : sumOfRun c (·.nrProducedSamples)
        [(⟨taskId, runId, sequenceNr, host, .pending, none, 0, 0⟩ : RunTask)] = 0 := by
      unfold sumOfRun
      rw [List.filter_cons]
      split <;> rfl
    omega
  obtain ⟨hlive, hsaved, hproduced, hcompleting⟩ := h.absent taskId hnew
  have hnone : ∀ {n l}, (s.samplers taskId).liveAt n = some l → False := by
    intro n l hl
    rw [hlive n] at hl
    cases hl
  refine ⟨h.children, ?_, fun t ht => ?_, h.rows, fun t ht u hu hta hua => ?_, fun t ht => ?_,
    fun id hid => ?_, fun c hc => ?_, h.capped⟩
  · show ((s.tables.tasks ++ _).map (·.id)).Nodup
    rw [List.map_append]
    refine List.nodup_append.2 ⟨h.ids, List.nodup_singleton taskId, fun a ha b hb hab => ?_⟩
    have hold : a = taskId := hab.trans (List.mem_singleton.1 hb)
    exact hnew (hold ▸ ha)
  · rcases List.mem_append.1 ht with ht | ht
    · exact h.members t ht
    · obtain rfl := List.mem_singleton.1 ht
      exact hchild
  · rcases List.mem_append.1 ht with ht | ht
    · rcases List.mem_append.1 hu with hu | hu
      · exact h.single t ht u hu hta hua
      · obtain rfl := List.mem_singleton.1 hu
        cases hua
    · obtain rfl := List.mem_singleton.1 ht
      cases hta
  · rcases List.mem_append.1 ht with ht | ht
    · refine (h.tasks t ht).relimit fun _ => ?_
      unfold limitOf
      rw [hheadroom]
    · obtain rfl := List.mem_singleton.1 ht
      exact {
        recorded := le_rfl
        alone := fun m k l l' hl => (hnone hl).elim
        current := fun n l hl => (hnone hl).elim
        unstarted := fun _ => ⟨hlive, hproduced, rfl⟩
        waiting := fun _ => hsaved
        settled := fun _ => hproduced.symm
        within := fun ha => by cases ha
        funded := fun ha => by cases ha
        saving := fun ha => by cases ha
        ended := fun hc => by
          have hyes : s.completing taskId = true := hc
          rw [hcompleting] at hyes
          cases hyes
        completing := fun _ => hproduced.symm }
  · refine h.absent id fun hold => hid ?_
    show id ∈ (s.tables.tasks ++ _).map (·.id)
    rw [List.map_append]
    exact List.mem_append_left _ hold
  · rw [hheadroom]
    exact h.solvent c hc

/-- A pending task is removed. -/
theorem Inv.removePendingTask (h : Inv set s) (runId taskId : Int) :
    Inv set (s.withTasks (s.tables.tasks.filter fun t =>
      !(t.id == taskId && t.runId == runId && t.state == .pending))) := by
  have hidle : ∀ t ∈ s.tables.tasks, t.state = .pending →
      (∀ n, (s.samplers t.id).liveAt n = none) ∧ (s.samplers t.id).db.checkpoint = none ∧
        s.produced t.id = 0 ∧ t.nrProducedSamples = 0 ∧ s.completing t.id = false := by
    intro t ht hpending
    have hsaved := (h.tasks t ht).waiting (.inl hpending)
    obtain ⟨hlive, hzero, hrow⟩ := (h.tasks t ht).unstarted hsaved
    exact ⟨hlive, hsaved, hzero, hrow, (h.tasks t ht).not_completing hlive⟩
  have hheadroom : ∀ c, (s.withTasks (s.tables.tasks.filter fun t =>
      !(t.id == taskId && t.runId == runId && t.state == .pending))).headroom c = s.headroom c := by
    intro c
    unfold headroom recordedSamples
    refine congrArg (s.tables.allowance c - ·) (sumOfRun_filter_of_zero fun t ht hremoved => ?_)
    have hpending : t.state = .pending := by
      simp only [Bool.not_eq_false', Bool.and_eq_true, beq_iff_eq] at hremoved
      exact hremoved.2
    exact (hidle t ht hpending).2.2.2.1
  have hmem : ∀ {t}, t ∈ s.tables.tasks.filter (fun t =>
      !(t.id == taskId && t.runId == runId && t.state == .pending)) → t ∈ s.tables.tasks :=
    fun ht => List.mem_of_mem_filter ht
  refine ⟨h.children, h.ids.sublist (List.filter_sublist.map _), fun t ht => h.members t (hmem ht),
    h.rows, fun t ht u hu => h.single t (hmem ht) u (hmem hu), fun t ht => ?_, fun id hid => ?_,
    fun c hc => ?_, h.capped⟩
  · refine (h.tasks t (hmem ht)).relimit fun _ => ?_
    unfold limitOf
    rw [hheadroom]
  · by_cases hold : id ∈ s.tables.tasks.map (·.id)
    · obtain ⟨t, ht, rfl⟩ := List.mem_map.1 hold
      have hremoved : t.state = .pending := by
        by_contra hne
        refine hid (List.mem_map.2 ⟨t, List.mem_filter.2 ⟨ht, ?_⟩, rfl⟩)
        simp [hne]
      obtain ⟨hlive, hsaved, hzero, -, hcompleting⟩ := hidle t ht hremoved
      exact ⟨hlive, hsaved, hzero, hcompleting⟩
    · exact h.absent id hold
  · rw [hheadroom]
    exact h.solvent c hc

theorem Inv.step (h : Inv set s) (e : CampaignEvent V A) (hok : Recorded s e) :
    Inv set (s.step set e) := by
  cases e with
  | createChild runId =>
    simp only [CampaignSystem.step]
    split
    · exact h
    · rename_i hnew
      exact h.createChild hnew
  | setActive active => exact { h with }
  | allocate requests =>
    simp only [CampaignSystem.step]
    split
    · exact h
    · rename_i granted ha
      exact h.allocate ha
  | appendTask runId taskId sequenceNr host =>
    simp only [CampaignSystem.step]
    split
    · rename_i hnew
      exact h.appendTask hnew.1 hnew.2
    · exact h
  | removePendingTask runId taskId => exact h.removePendingTask runId taskId
  | activateNext runId =>
    simp only [CampaignSystem.step]
    split
    · exact h
    · rename_i hnone
      exact h.activateNext runId (by simpa using hnone)
  | completeControlTask taskId =>
    simp only [CampaignSystem.step]
    split
    · rename_i t hfound
      split
      · rename_i hhost
        refine h.completes taskId fun u hu hid => ?_
        -- a task of the control plane has no sampler
        have ht := List.mem_of_find?_eq_some hfound
        have htid : t.id = taskId := by simpa using List.find?_some hfound
        obtain rfl : u = t := List.inj_on_of_nodup_map h.ids hu ht (hid.trans htid.symm)
        have htask := h.tasks u hu
        obtain ⟨-, hzero, hrow⟩ := htask.unstarted (htask.waiting (.inr hhost))
        rw [hrow, ← hid, hzero]
      · exact h
    · exact h
  | sampler taskId e =>
    simp only [CampaignSystem.step]
    split
    · rename_i t hfound
      have hid : t.id = taskId := by simpa using List.find?_some hfound
      subst hid
      exact h.samplerStep (List.mem_of_find?_eq_some hfound) e hok
    · exact h
  | syncProgress taskId n => exact h.syncProgress taskId n
  | completeTask taskId =>
    simp only [CampaignSystem.step]
    split
    · rename_i hcompleting
      refine h.completes taskId fun t ht hid => ?_
      subst hid
      exact (h.tasks t ht).completing hcompleting
    · exact h
  | failTask taskId reason => exact h.fails taskId reason hok

theorem inv_init (set : CampaignSetting V P A M C) : Inv set (init set) := by
  refine ⟨.nil, .nil, by simp [init], fun c hc => absurd rfl hc, by simp [init], by simp [init],
    fun id _ => ⟨fun n => SamplerSystem.liveAt_init set.entropies n, rfl, rfl, rfl⟩, by simp [init],
    ?_⟩
  show (0 : Int) ≤ set.limit
  unfold CampaignSetting.limit
  cases hcap : set.maxTotalSamples with
  | none => decide
  | some cap => exact (set.positive cap hcap).le

end

end CampaignSystem

/-! ## A campaign of one child -/

namespace Small

abbrev CampaignStep := CampaignEvent Int Accumulator

def sampling (taskId : Int) (events : List Event) : List CampaignStep :=
  events.map (.sampler taskId)

end Small

namespace CampaignSystem

end CampaignSystem

end Gammaboard.Runners
