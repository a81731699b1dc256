import Gammaboard.Api.AutoRoles

/-!
# Plans are maximal

An assignment gives free nodes the two roles; it completes a number of active
runs when there are samplers for them and evaluators for all of them. A plan
completes as many as any assignment, unless the sum of a score overflows.
-/

namespace Gammaboard.Api

open Gammaboard.Lib Gammaboard.Utils

namespace RoleRequest

/-- Disjoint parts of the free nodes, for the two roles. -/
structure Assigns (request : RoleRequest) (free samplers evaluators : List RegisteredNode) :
    Prop where
  disjoint : (samplers ++ evaluators).Subperm free
  canSample : ∀ n ∈ samplers, request.canSample n
  canEvaluate : ∀ n ∈ evaluators, request.canEvaluate n
  limit : evaluators.length ≤ request.evaluatorLimit

/-- So many active runs have a sampler each, and their evaluators. -/
structure Completes (request : RoleRequest) (samplers evaluators : List RegisteredNode)
    (active : Nat) : Prop where
  policy : active ≤ request.policy.1
  sampled : active ≤ request.existing.1 + samplers.length
  evaluated : active * request.policy.2 ≤ request.existing.2 + evaluators.length

/-- Some assignment of the free nodes completes so many active runs. -/
def Attainable (request : RoleRequest) (free : List RegisteredNode) (active : Nat) : Prop :=
  ∃ samplers evaluators, request.Assigns free samplers evaluators ∧
    request.Completes samplers evaluators active

/-- The plan is an assignment that completes whatever can be completed. -/
def PlansMaximally (request : RoleRequest) (free : List RegisteredNode) : Prop :=
  ∃ samplers evaluators, planAutoRoles request free = .ok (samplers, evaluators) ∧
    request.Assigns free samplers evaluators ∧
      ∀ active, request.Attainable free active → request.Completes samplers evaluators active

/-! ## The condition -/

/-- The key of a sampler, where its score does not overflow. -/
def samplerKeyOf (request : RoleRequest) (node : RegisteredNode) : SamplerKey :=
  toLex (request.canEvaluate node,
    toLex (scoreOf node.capabilities request.samplerRequirements, node.name))

def evaluatorKeyOf (request : RoleRequest) (node : RegisteredNode) : Score :=
  (scoreOf node.capabilities request.evaluatorRequirements).named node.name

/-- The place of a node among those that can sample, counted from one. -/
def samplerRank (request : RoleRequest) (free : List RegisteredNode) (node : RegisteredNode) : Nat :=
  free.countP fun other =>
    request.canSample other && decide (request.samplerKeyOf other ≤ request.samplerKeyOf node)

/-- The score of every node that may become a sampler fits. -/
def SamplerScoresFit (request : RoleRequest) (free : List RegisteredNode) : Prop :=
  request.existing.1 < request.policy.1 →
    ∀ n ∈ free, request.canSample n → ScoreFits n.capabilities request.samplerRequirements

/-- The score of every node that may become an evaluator fits: of every one that the samplers of the
largest number of active runs leave over. -/
def EvaluatorScoresFit (request : RoleRequest) (free : List RegisteredNode) : Prop :=
  0 < request.evaluatorLimit → ∀ active, request.Attainable free active →
    (∀ other, request.Attainable free other → other ≤ active) →
      ∀ n ∈ free, request.canEvaluate n →
        ¬ (request.canSample n ∧ request.samplerRank free n ≤ active - request.existing.1) →
          ScoreFits n.capabilities request.evaluatorRequirements

section Rounds

variable {request : RoleRequest} {free samplers evaluators rest : List RegisteredNode}
  {active : Nat} {n : RegisteredNode}

theorem samplerKey_eq (h : request.canSample n) : request.samplerKey n =
    if ScoreFits n.capabilities request.samplerRequirements then .ok (request.samplerKeyOf n)
    else .error .overflow := by
  unfold samplerKey
  rw [capabilityScore_eq h]
  split
  · rfl
  · rfl

theorem evaluatorKey_eq (h : request.canEvaluate n) :
    evaluatorKey request.evaluatorRequirements n =
      if ScoreFits n.capabilities request.evaluatorRequirements then .ok (request.evaluatorKeyOf n)
      else .error .overflow := by
  unfold evaluatorKey
  rw [capabilityScore_eq h]
  split
  · rfl
  · rfl

/-- Of two samplers the one that can evaluate comes later. -/
theorem canEvaluate_of_key_le {a b : RegisteredNode}
    (h : request.samplerKeyOf a ≤ request.samplerKeyOf b) (ha : request.canEvaluate a) :
    request.canEvaluate b := by
  unfold samplerKeyOf at h
  rw [Prod.Lex.toLex_le_toLex] at h
  rcases h with hlt | ⟨heq, -⟩
  · change request.canEvaluate a < request.canEvaluate b at hlt
    rw [ha] at hlt
    exact absurd hlt (not_lt.2 (Bool.le_true _))
  · exact heq.symm.trans ha

/-- The nodes with their names have different keys. -/
theorem nodup_samplerKeys (hnames : (free.map (·.name)).Nodup) :
    (free.map request.samplerKeyOf).Nodup := by
  refine List.Nodup.of_map (fun key : SamplerKey => (ofLex (ofLex key).2).2) ?_
  rw [List.map_map]
  exact hnames

theorem Assigns.countP_samplers (h : request.Assigns free samplers evaluators) :
    samplers.length ≤ free.countP request.canSample := by
  have hsub : samplers.Subperm free :=
    (List.sublist_append_left samplers evaluators).subperm.trans h.disjoint
  have hle := hsub.countP_le request.canSample
  rwa [List.countP_eq_length.2 h.canSample] at hle

theorem attainable_zero : request.Attainable free 0 := by
  refine ⟨[], [], ⟨List.nil_subperm, ?_, ?_, Nat.zero_le _⟩, ⟨Nat.zero_le _, Nat.zero_le _, ?_⟩⟩
  · exact fun n h => absurd h List.not_mem_nil
  · exact fun n h => absurd h List.not_mem_nil
  · rw [Nat.zero_mul]
    exact Nat.zero_le _

/-- There is a largest number of active runs that can be completed. -/
theorem exists_best (request : RoleRequest) (free : List RegisteredNode) :
    ∃ best, request.Attainable free best ∧
      ∀ other, request.Attainable free other → other ≤ best := by
  classical
  refine ⟨Nat.findGreatest (request.Attainable free) request.policy.1, ?_, fun other h => ?_⟩
  · exact Nat.findGreatest_spec (Nat.zero_le _) attainable_zero
  · obtain ⟨samplers, evaluators, -, hcompletes⟩ := id h
    exact Nat.le_findGreatest hcompletes.policy h

/-- The saturating comparison is the comparison itself, of counts in memory. -/
theorem saturating_le_iff {a b c d : Nat} (h : c + d < usizeMax) :
    saturatingMul a b ≤ saturatingAdd c d ↔ a * b ≤ c + d := by
  unfold saturatingMul saturatingAdd
  rw [Nat.min_eq_left h.le]
  omega

/-- The nodes a round takes as samplers. -/
theorem takeLeast_samplers {count : Nat}
    (hfit : count ≠ 0 → ∀ n ∈ free, request.canSample n →
      ScoreFits n.capabilities request.samplerRequirements) :
    ∃ taken rest, takeLeast request.canSample request.samplerKey count free = .ok (taken, rest) ∧
      Takes request.canSample request.samplerKeyOf count free taken rest :=
  takeLeast_spec fun hcount n hn hsat => by
    rw [samplerKey_eq hsat, if_pos (hfit hcount n hn hsat)]

theorem takeBestNodes_spec {limit : Nat}
    (hfit : limit ≠ 0 → ∀ n ∈ rest, request.canEvaluate n →
      ScoreFits n.capabilities request.evaluatorRequirements) :
    ∃ taken others, takeBestNodes rest request.evaluatorRequirements limit = .ok (taken, others) ∧
      Takes request.canEvaluate request.evaluatorKeyOf limit rest taken others := by
  unfold takeBestNodes
  refine takeLeast_spec fun hcount n hn hsat => ?_
  rw [evaluatorKey_eq hsat, if_pos (hfit hcount n hn hsat)]

/-- A round without an overflow either finds an assignment that completes its number of active runs,
or there is none. -/
theorem tryActive_spec (hcounts : request.existing.2 + free.length < usizeMax)
    (hpolicy : active ≤ request.policy.1)
    (hsample : active - request.existing.1 ≠ 0 → ∀ n ∈ free, request.canSample n →
      ScoreFits n.capabilities request.samplerRequirements)
    (hevaluate : ∀ taken rest, taken.length = active - request.existing.1 →
      Takes request.canSample request.samplerKeyOf (active - request.existing.1) free taken rest →
        request.evaluatorLimit ≠ 0 → ∀ n ∈ rest, request.canEvaluate n →
          ScoreFits n.capabilities request.evaluatorRequirements) :
    (request.tryActive free active = .ok none ∧ ¬ request.Attainable free active) ∨
      ∃ samplers evaluators, request.tryActive free active = .ok (some (samplers, evaluators)) ∧
        request.Assigns free samplers evaluators ∧
          request.Completes samplers evaluators active := by
  obtain ⟨samplers, rest, htake, htakes⟩ := takeLeast_samplers hsample
  have hround : request.tryActive free active =
      if request.existing.1 + samplers.length < active then .ok none
      else (takeBestNodes rest request.evaluatorRequirements request.evaluatorLimit).bind fun taken =>
        if saturatingMul active request.policy.2 ≤
            saturatingAdd request.existing.2 taken.1.length then .ok (some (samplers, taken.1))
        else .ok none := by
    unfold tryActive
    rw [htake]
    rfl
  have hlength := htakes.length_eq
  by_cases hshort : request.existing.1 + samplers.length < active
  · rw [hround, if_pos hshort]
    refine .inl ⟨rfl, ?_⟩
    rintro ⟨other, others, hassigns, hcompletes⟩
    have hcount := hassigns.countP_samplers
    have hsampled := hcompletes.sampled
    omega
  · have hfull : samplers.length = active - request.existing.1 := by
      have := htakes.length_le
      omega
    obtain ⟨evaluators, left, hbest, htakes'⟩ :=
      takeBestNodes_spec (hevaluate samplers rest hfull htakes)
    rw [if_neg hshort, hbest] at hround
    change _ = if saturatingMul active request.policy.2 ≤
      saturatingAdd request.existing.2 evaluators.length then _ else _ at hround
    rw [hround]
    have hevaluators := htakes'.length_eq
    have hdisjoint : (samplers ++ evaluators).Subperm free := by
      have hsub : (samplers ++ evaluators).Sublist (samplers ++ (evaluators ++ left)) :=
        (List.sublist_append_left evaluators left).append_left samplers
      have hperm := (htakes'.perm.append_left samplers).trans htakes.perm
      exact hsub.subperm.trans hperm.subperm
    have hmemory : request.existing.2 + evaluators.length < usizeMax := by
      have hle := hdisjoint.length_le
      rw [List.length_append] at hle
      omega
    by_cases henough : active * request.policy.2 ≤ request.existing.2 + evaluators.length
    · rw [if_pos ((saturating_le_iff hmemory).2 henough)]
      exact .inr ⟨samplers, evaluators, rfl,
        ⟨hdisjoint, htakes.holds, htakes'.holds, htakes'.length_le⟩, hpolicy, by omega, henough⟩
    · rw [if_neg fun h => henough ((saturating_le_iff hmemory).1 h)]
      refine .inl ⟨rfl, ?_⟩
      rintro ⟨other, others, hassigns, hcompletes⟩
      have hsampled := hcompletes.sampled
      have hevaluated := hcompletes.evaluated
      have hlimit := hassigns.limit
      have hexchange := htakes.exchange (fun a b _ _ => canEvaluate_of_key_le) hassigns.disjoint
        hassigns.canSample hassigns.canEvaluate (by omega)
      omega

/-- The loop ends with the largest number of active runs that can be completed. -/
theorem fromActive_spec {best : Nat} (hattain : request.Attainable free best)
    (hmost : ∀ other, request.Attainable free other → other ≤ best) :
    ∀ top, best ≤ top → (∀ active, best ≤ active → active ≤ top →
      (request.tryActive free active = .ok none ∧ ¬ request.Attainable free active) ∨
        ∃ samplers evaluators, request.tryActive free active = .ok (some (samplers, evaluators)) ∧
          request.Assigns free samplers evaluators ∧
            request.Completes samplers evaluators active) →
      ∃ samplers evaluators, request.fromActive free top = .ok (samplers, evaluators) ∧
        request.Assigns free samplers evaluators ∧ request.Completes samplers evaluators best
  | 0, hle, hrounds => by
    have hzero : best = 0 := by omega
    subst hzero
    rcases hrounds 0 (le_refl 0) (le_refl 0) with ⟨-, hnone⟩ | ⟨samplers, evaluators, hround, hplan⟩
    · exact absurd hattain hnone
    · refine ⟨samplers, evaluators, ?_, hplan⟩
      unfold fromActive
      rw [hround]
      rfl
  | top + 1, hle, hrounds => by
    unfold fromActive
    rcases hrounds (top + 1) hle (le_refl _) with
      ⟨hround, hnone⟩ | ⟨samplers, evaluators, hround, hassigns, hcompletes⟩
    · rw [hround]
      have hbelow : best ≤ top := by
        have hne : best ≠ top + 1 := fun heq => hnone (heq ▸ hattain)
        omega
      exact fromActive_spec hattain hmost top hbelow fun active hlow hhigh =>
        hrounds active hlow (Nat.le_succ_of_le hhigh)
    · have hbest : top + 1 = best := by
        have := hmost _ ⟨samplers, evaluators, hassigns, hcompletes⟩
        omega
      rw [hround, ← hbest]
      exact ⟨samplers, evaluators, rfl, hassigns, hcompletes⟩

/-- A loop that ends has gone through its first round, and ends with a round. -/
theorem rounds_of_fromActive {plan : List RegisteredNode × List RegisteredNode} :
    ∀ {top : Nat}, request.fromActive free top = .ok plan →
      (∃ r, request.tryActive free top = .ok r) ∧
        ∃ active ≤ top, request.tryActive free active = .ok (some plan)
  | 0, h => by
    unfold fromActive at h
    cases hround : request.tryActive free 0 with
    | error e =>
      rw [hround] at h
      cases h
    | ok r =>
      rw [hround] at h
      cases r with
      | none => cases h
      | some found =>
        cases h
        exact ⟨⟨_, rfl⟩, 0, le_refl 0, hround⟩
  | top + 1, h => by
    unfold fromActive at h
    cases hround : request.tryActive free (top + 1) with
    | error e =>
      rw [hround] at h
      cases h
    | ok r =>
      rw [hround] at h
      refine ⟨⟨_, rfl⟩, ?_⟩
      cases r with
      | none =>
        obtain ⟨-, active, hle, hfound⟩ := rounds_of_fromActive h
        exact ⟨active, Nat.le_succ_of_le hle, hfound⟩
      | some found =>
        cases h
        exact ⟨top + 1, le_refl _, hround⟩

/-- What a round that does not panic has taken. -/
theorem taken_of_tryActive {r : Option (List RegisteredNode × List RegisteredNode)}
    (h : request.tryActive free active = .ok r) :
    ∃ picked, takeLeast request.canSample request.samplerKey (active - request.existing.1) free =
      .ok picked ∧ ∀ plan, r = some plan → plan.1 = picked.1 ∧
        active ≤ request.existing.1 + picked.1.length ∧
          saturatingMul active request.policy.2 ≤
            saturatingAdd request.existing.2 plan.2.length ∧
          ∃ taken, takeBestNodes picked.2 request.evaluatorRequirements request.evaluatorLimit =
            .ok taken := by
  unfold tryActive at h
  cases htake : takeLeast request.canSample request.samplerKey (active - request.existing.1) free with
  | error e =>
    rw [htake] at h
    cases h
  | ok picked =>
    refine ⟨picked, rfl, ?_⟩
    rintro plan rfl
    rw [htake] at h
    change (if request.existing.1 + picked.1.length < active then _ else _) = _ at h
    split at h
    · cases h
    · rename_i hshort
      cases hbest : takeBestNodes picked.2 request.evaluatorRequirements request.evaluatorLimit with
      | error e =>
        rw [hbest] at h
        cases h
      | ok taken =>
        rw [hbest] at h
        change (if saturatingMul _ _ ≤ saturatingAdd _ _ then _ else _) = _ at h
        split at h
        · rename_i henough
          cases h
          exact ⟨rfl, not_lt.1 hshort, henough, taken, rfl⟩
        · cases h

/-- The scores of the samplers fit where a round has taken one. -/
theorem samplers_fit {picked : List RegisteredNode × List RegisteredNode} {count : Nat}
    (hcount : count ≠ 0)
    (h : takeLeast request.canSample request.samplerKey count free = .ok picked) :
    ∀ n ∈ free, request.canSample n → ScoreFits n.capabilities request.samplerRequirements := by
  intro n hn hsat
  obtain ⟨value, hkey⟩ := keys_of_takeLeast hcount h n hn hsat
  rw [samplerKey_eq hsat] at hkey
  by_contra hfit
  rw [if_neg hfit] at hkey
  cases hkey

theorem evaluators_fit {taken : List RegisteredNode × List RegisteredNode} {limit : Nat}
    (hlimit : limit ≠ 0)
    (h : takeBestNodes rest request.evaluatorRequirements limit = .ok taken) :
    ∀ n ∈ rest, request.canEvaluate n → ScoreFits n.capabilities request.evaluatorRequirements := by
  intro n hn hsat
  unfold takeBestNodes at h
  obtain ⟨value, hkey⟩ := keys_of_takeLeast hlimit h n hn hsat
  rw [evaluatorKey_eq hsat] at hkey
  by_contra hfit
  rw [if_neg hfit] at hkey
  cases hkey

/-- The nodes that the samplers leave over, by their rank. -/
theorem mem_rest_iff {taken : List RegisteredNode} {count : Nat}
    (hnames : (free.map (·.name)).Nodup) (hfull : taken.length = count)
    (h : Takes request.canSample request.samplerKeyOf count free taken rest) (hn : n ∈ free) :
    n ∈ rest ↔ ¬ (request.canSample n ∧ request.samplerRank free n ≤ count) := by
  have hdisjoint : n ∈ taken → n ∉ rest := by
    have hnodup := h.perm.nodup_iff.2 (List.Nodup.of_map _ hnames)
    exact fun hmem hrest => (List.nodup_append.1 hnodup).2.2 n hmem n hrest rfl
  constructor
  · rintro hrest ⟨hsat, hrank⟩
    exact hdisjoint ((h.mem_taken_iff hfull (nodup_samplerKeys hnames) hn hsat).2 hrank) hrest
  · intro hspared
    rcases h.mem_or hn with hmem | hmem
    · have hsat := h.holds n hmem
      have hrank := (h.mem_taken_iff hfull (nodup_samplerKeys hnames) hn hsat).1 hmem
      exact absurd ⟨hsat, hrank⟩ hspared
    · exact hmem

end Rounds

/-- Of the free nodes, which have different names and fit in memory with those that are counted, a
plan is maximal exactly when the scores it computes do not overflow. -/
theorem plans_maximally_iff {request : RoleRequest} {free : List RegisteredNode}
    (hnames : (free.map (·.name)).Nodup)
    (hmemory : request.existing.1 + request.existing.2 + free.length < usizeMax) :
    request.PlansMaximally free ↔
      request.SamplerScoresFit free ∧ request.EvaluatorScoresFit free := by
  have hbound : request.existing.1 + free.length ≤ usizeMax := by omega
  obtain ⟨best, hattain, hmost⟩ := exists_best request free
  have hbest : best ≤ min request.policy.1 (request.existing.1 + free.length) := by
    obtain ⟨samplers, evaluators, hassigns, hcompletes⟩ := hattain
    have hpolicy := hcompletes.policy
    have hsampled := hcompletes.sampled
    have hlength := hassigns.disjoint.length_le
    rw [List.length_append] at hlength
    omega
  constructor
  · rintro ⟨samplers, evaluators, hplan, hassigns, hmaximal⟩
    unfold planAutoRoles at hplan
    rw [if_pos hbound] at hplan
    obtain ⟨⟨r, hfirst⟩, active, hactive, hround⟩ := rounds_of_fromActive hplan
    constructor
    · intro hpolicy n hn
      have hpos := List.length_pos_of_mem hn
      obtain ⟨picked, htake, -⟩ := taken_of_tryActive hfirst
      exact samplers_fit (by omega) htake n hn
    · intro hlimit other hother hleast n hn hsat hspared
      obtain ⟨picked, htake, hparts⟩ := taken_of_tryActive hround
      obtain ⟨hsamplers, hlong, henough, taken, hevaluators⟩ := hparts _ rfl
      obtain ⟨samplers', rest, htake', htakes⟩ :=
        takeLeast_samplers fun hcount => samplers_fit hcount htake
      rw [htake, Except.ok.injEq] at htake'
      subst htake'
      have hlength := htakes.length_le
      -- the round that ends the loop takes as many samplers as the best number needs
      have hcount : active - request.existing.1 = other - request.existing.1 := by
        have hsampled := (hmaximal other hother).sampled
        have hsize := hassigns.disjoint.length_le
        rw [List.length_append] at hsize
        dsimp only at hsamplers hlong henough hlength
        rw [hsamplers] at hsampled
        have hcompletes : request.Completes samplers evaluators active :=
          ⟨by omega, by rwa [hsamplers], (saturating_le_iff (by omega)).1 henough⟩
        have hle := hleast active ⟨samplers, evaluators, hassigns, hcompletes⟩
        omega
      refine evaluators_fit (Nat.pos_iff_ne_zero.1 hlimit) hevaluators n ?_ hsat
      refine (mem_rest_iff hnames ?_ htakes hn).2 ?_
      · dsimp only at hlong hlength
        omega
      · rwa [hcount]
  · rintro ⟨hsample, hevaluate⟩
    have hrounds := fromActive_spec hattain hmost _ hbest fun active hlow hhigh =>
      tryActive_spec (by omega) (by omega)
        (fun hcount => hsample (by omega)) fun taken rest hfull htakes hlimit n hn hsat => by
          have hmem : n ∈ free := htakes.perm.subset (List.mem_append_right _ hn)
          refine hevaluate (Nat.pos_iff_ne_zero.2 hlimit) best hattain hmost n hmem hsat ?_
          rintro ⟨hcan, hrank⟩
          exact (mem_rest_iff hnames hfull htakes hmem).1 hn ⟨hcan, by omega⟩
    obtain ⟨samplers, evaluators, hplan, hassigns, hcompletes⟩ := hrounds
    refine ⟨samplers, evaluators, ?_, hassigns, fun active hactive => ?_⟩
    · unfold planAutoRoles
      rw [if_pos hbound, hplan]
    · have hle := hmost active hactive
      have hmul := Nat.mul_le_mul_right request.policy.2 hle
      exact ⟨hle.trans hcompletes.policy, hle.trans hcompletes.sampled,
        hmul.trans hcompletes.evaluated⟩

/-- One sampler, of a node without capabilities, and one evaluator with a card. -/
theorem plans_maximally_scarce :
    PlansMaximally
      { samplerRequirements := [], evaluatorRequirements := [("gpu", 1)], existing := (0, 0),
        policy := (2, 1), evaluatorLimit := usizeMax }
      [⟨"a-flexible", [("gpu", 1)], none, none⟩, ⟨"z-sampler-only", [], none, none⟩] := by
  refine (plans_maximally_iff (by decide) (by decide)).2 ⟨fun _ => by decide, ?_⟩
  intro _ _ _ _ n hn hsat hspared
  clear hspared
  revert n
  decide

/-- The weights of two large capabilities overflow, of a node that could be a sampler. -/
theorem large_capabilities_overflow :
    ∃ (request : RoleRequest) (free : List RegisteredNode), (free.map (·.name)).Nodup ∧
      request.existing.1 + request.existing.2 + free.length < usizeMax ∧
        ¬ request.PlansMaximally free := by
  refine ⟨⟨[], [], (0, 0), (1, 0), usizeMax⟩,
    [⟨"w", [("memory", UInt64.ofNat (2 ^ 64 - 1)), ("scratch", 1)], none, none⟩],
    by decide, by decide, ?_⟩
  rintro ⟨samplers, evaluators, hplan, -⟩
  cases hplan

end RoleRequest

end Gammaboard.Api
