import Gammaboard.Runners.PoolPlacements
import Gammaboard.Stores.SamplerSlots

/-!
# One sampler for a standalone run

A run that is neither a controller nor a child is its own pool. Controllers
change no pool, and a placement follows its pool, so the slot of such a run
and the placement as its sampler are with one node.
-/

namespace Gammaboard.Runners

open Gammaboard.Lib Gammaboard.Stores

namespace PlacementSystem

variable {s : PlacementSystem}

/-- Controllers change no pool either. -/
theorem slots_step (h : s.control.Slots) (e : PlacementEvent) : (s.step e).control.Slots := by
  cases e with
  | statement e => exact h.step e
  | readBranches parentRunId selected => exact h
  | readNodes plan =>
    unfold step
    dsimp only
    split <;> exact h
  | applyUpdates placement =>
    unfold step
    dsimp only
    split
    · rename_i p _
      exact h.step (.updateDesiredAssignments p.updates)
    · exact h

/-- In every reachable state a run that is neither a controller nor a child has one node at most that
holds its sampler slot, and one at most that is to be its sampler: the same node. -/
theorem standalone_sampler_unique (owner : String → String) {maxConnections reservedConnections : Int}
    {es : List PlacementEvent}
    (h : Along step (Allowed owner) ⟨.init maxConnections reservedConnections, [], []⟩ es) :
    let s := run step ⟨.init maxConnections reservedConnections, [], []⟩ es
    ∀ r ∈ s.control.runs, r.controller = false → r.parentRunId = none →
      ∀ n ∈ s.control.nodes, ∀ m ∈ s.control.nodes,
        n.pool = samplerSlot r.id ∨ n.desired = samplerSlot r.id →
        m.pool = samplerSlot r.id ∨ m.desired = samplerSlot r.id → n = m := by
  intro s r hr hkind hparent
  have hinv : Inv owner s := run_invariant (fun _ _ hs hok => hs.step hok) (inv_init owner _ _) h
  have hslots : s.control.Slots :=
    run_invariant' (I := fun s : PlacementSystem => s.control.Slots) (fun _ e hs => slots_step hs e) es
      (ControlPlane.slots_init _ _)
  -- a node that is to sample the run is in its pool, for nothing is above the run
  have hpool : ∀ n ∈ s.control.nodes, n.pool = samplerSlot r.id ∨ n.desired = samplerSlot r.id →
      n.pool = samplerSlot r.id := by
    rintro n hn (hslot | hdesired)
    · exact hslot
    · obtain ⟨p, hp, hrole, hwithin⟩ := (hinv.coherent.nodes n hn).placed _ hdesired
      have hid := hinv.coherent.table.tree.eq_of_within_root ⟨r, hr, rfl, hparent⟩ hwithin
      obtain ⟨role, id⟩ := p
      rw [hp, samplerSlot]
      exact congrArg some (congrArg₂ _ hrole hid)
  intro n hn m hm hslot hslot'
  exact hslots.single r hr hkind n hn m hm (hpool n hn hslot) (hpool m hm hslot')

/-- The sampler of a run is taken off while another node waits for its place. -/
theorem standalone_sampler_unique_handover :
    let s := run step ⟨.init 100 3, [], []⟩
      [.statement (.insertRun none none), .statement (.announceNode "a" "u"),
        .statement (.announceNode "b" "v"), .statement (.assignWorkerPool "a" .samplerAggregator 1),
        .statement (.assignWorkerPool "b" .samplerAggregator 1),
        .statement (.clearDesiredAssignment "a"),
        .statement (.assignWorkerPool "b" .samplerAggregator 1)]
    ∀ r ∈ s.control.runs, r.controller = false → r.parentRunId = none →
      ∀ n ∈ s.control.nodes, ∀ m ∈ s.control.nodes,
        n.pool = samplerSlot r.id ∨ n.desired = samplerSlot r.id →
        m.pool = samplerSlot r.id ∨ m.desired = samplerSlot r.id → n = m := by
  have hplain : ∀ e : ControlEvent, (∀ name uuid, e ≠ .announceNode name uuid) →
      ControlPlane.Registers (fun uuid => if uuid = "u" then "a" else "b") e :=
    fun e h name uuid he => absurd he (h name uuid)
  refine standalone_sampler_unique (fun uuid => if uuid = "u" then "a" else "b") ?_
  refine ⟨⟨hplain _ (by simp), by simp⟩, ⟨fun _ _ h => ?_, by simp⟩, ⟨fun _ _ h => ?_, by simp⟩,
    ⟨hplain _ (by simp), by simp⟩, ⟨hplain _ (by simp), by simp⟩, ⟨hplain _ (by simp), by simp⟩,
    ⟨hplain _ (by simp), by simp⟩, trivial⟩
  · cases h
    decide
  · cases h
    decide

end PlacementSystem

end Gammaboard.Runners
