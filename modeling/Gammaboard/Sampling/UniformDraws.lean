import Gammaboard.Sampling.UniformMass

/-!
# Draws of the uniform sampler

The paths a uniform sampler draws, with their weights, are the walks through the
tree of the domain: every draw is one of them, and a generator with a suitable
script draws each.
-/

namespace Gammaboard.Sampling

open Gammaboard.Core Gammaboard.Lib

mutual

/-- Every value of an axis is an `i64`. -/
def labelsFit : Utils.Domain → Bool
  | .rectangular _ cardinalities _ => cardinalities.all fun n => n ≤ 2 ^ 63
  | .discrete _ _ branches => branchLabelsFit branches

def branchLabelsFit : List (Nat × Utils.Domain) → Bool
  | [] => true
  | (_, domain) :: branches => labelsFit domain && branchLabelsFit branches

end

theorem asI64_of_lt {n : Nat} (h : n < 2 ^ 63) : asI64 n = n := by
  unfold asI64
  exact Int.bmod_eq_of_le (by omega) (by omega)

section Draws

variable {K R : Type} [Field K] {rng : UniformRng R K}

theorem foldl_mul_cast (cardinalities : List Nat) (weight : K) :
    cardinalities.foldl (fun weight (n : Nat) => weight * (n : K)) weight =
      weight * (cardinalities.map fun (n : Nat) => (n : K)).prod := by
  induction cardinalities generalizing weight with
  | nil => rw [List.foldl_nil, List.map_nil, List.prod_nil, mul_one]
  | cons n cardinalities ih =>
    rw [List.foldl_cons, ih, List.map_cons, List.prod_cons, mul_assoc]

/-- The axes draw a path of their tree. -/
theorem walk_drawAxes {cardinalities : List Nat} (hpos : ∀ n ∈ cardinalities, n ≠ 0)
    (hfit : ∀ n ∈ cardinalities, n ≤ 2 ^ 63) (r : R) :
    ChoiceTree.Walk (Utils.Domain.axesTree cardinalities) (drawAxes rng cardinalities r).1
      (cardinalities.map fun (n : Nat) => (n : K)).prod := by
  induction cardinalities generalizing r with
  | nil => exact .leaf
  | cons n cardinalities ih =>
    have hn : 0 < n := Nat.pos_of_ne_zero (hpos n List.mem_cons_self)
    have hle := hfit n List.mem_cons_self
    rw [drawAxes, dif_pos hn, Utils.Domain.axesTree, ChoiceTree.walk_ofList]
    have hlt := (rng.randomRange r n hn).1.2
    refine ⟨_, List.mem_map_of_mem (List.mem_range.2 hlt), _, _,
      ih (fun m hm => hpos m (List.mem_cons_of_mem _ hm))
        (fun m hm => hfit m (List.mem_cons_of_mem _ hm)) (rng.randomRange r n hn).2, ?_, ?_⟩
    · dsimp only
      rw [asI64_of_lt (by omega)]
    · rw [List.length_map, List.length_range, List.map_cons, List.prod_cons]

omit [Field K] in
theorem finiteWeight_true (drawn : DrawnPoint R K) :
    finiteWeight (fun _ => true) drawn = .ok drawn := rfl

mutual

/-- What is drawn is a path of the tree, with its weight. -/
theorem walk_of_sample : ∀ (d : Utils.Domain) {seen : Bool}, d.validateFrom seen = .ok () →
    labelsFit d = true → ∀ {r : R} {drawn : DrawnPoint R K},
      sampleDomainPoint rng (fun _ => true) d r = .ok drawn →
        ChoiceTree.Walk d.tree drawn.discrete drawn.weight
  | .rectangular _ cardinalities _, _, hvalid, hfit, r, drawn, h => by
    rw [sampleDomainPoint] at h
    split at h
    · cases h
    · dsimp only at h
      rw [finiteWeight_true, Except.ok.injEq] at h
      rw [← h, foldl_mul_cast, one_mul]
      refine walk_drawAxes (Utils.Domain.axes_nonzero hvalid) (fun n hn => ?_) r
      exact of_decide_eq_true (List.all_eq_true.1 hfit n hn)
  | .discrete _ _ branches, _, hvalid, hfit, r, drawn, h => by
    obtain ⟨seen', haxis⟩ := Utils.Domain.validAxis hvalid
    rw [sampleDomainPoint] at h
    split at h
    · rename_i hpos
      dsimp only at h
      cases hbranch : sampleBranch rng (fun _ => true) branches
          (rng.randomRange r branches.length hpos).1 (rng.randomRange r branches.length hpos).2 with
      | error e =>
        rw [hbranch] at h
        cases h
      | ok below =>
        rw [hbranch] at h
        have hdrawn : finiteWeight (fun _ => true)
          { below with weight := (branches.length : K) * below.weight } = .ok drawn := h
        rw [finiteWeight_true, Except.ok.injEq] at hdrawn
        obtain ⟨b, hb, tail, weight, hwalk, hdiscrete, hweight⟩ :=
          walk_of_sampleBranch branches haxis.below hfit haxis.fits hbranch
        rw [← hdrawn, Utils.Domain.tree, ChoiceTree.walk_ofList]
        refine ⟨b, hb, tail, weight, hwalk, hdiscrete, ?_⟩
        dsimp only
        rw [Utils.Domain.branchTrees_eq, List.length_map, hweight]
    · cases h

theorem walk_of_sampleBranch : ∀ (branches : List (Nat × Utils.Domain)) {seen : Bool},
    Utils.Domain.validateBranches branches seen = .ok () → branchLabelsFit branches = true →
      (∀ label ∈ branches.map (·.1), label ≤ Utils.Domain.i64Max) →
        ∀ {index : Fin branches.length} {r : R} {drawn : DrawnPoint R K},
          sampleBranch rng (fun _ => true) branches index r = .ok drawn →
            ∃ b ∈ Utils.Domain.branchTrees branches, ∃ tail weight,
              ChoiceTree.Walk b.2 tail weight ∧ drawn.discrete = b.1 :: tail ∧ drawn.weight = weight
  | [], _, _, _, _, index, _, _, _ => index.elim0
  | (label, domain) :: branches, _, hvalid, hfit, hlabels, ⟨0, _⟩, r, drawn, h => by
    obtain ⟨hdomain, -⟩ := Utils.Domain.validateBranches_cons hvalid
    rw [branchLabelsFit, Bool.and_eq_true] at hfit
    rw [sampleBranch] at h
    cases hbelow : sampleDomainPoint rng (fun _ => true) domain r with
    | error e =>
      rw [hbelow] at h
      cases h
    | ok below =>
      rw [hbelow, Except.map, Except.ok.injEq] at h
      refine ⟨_, List.mem_cons_self, below.discrete, below.weight,
        walk_of_sample domain hdomain hfit.1 hbelow, ?_, ?_⟩
      · rw [← h]
        have hle : label ≤ Utils.Domain.i64Max := hlabels label List.mem_cons_self
        unfold Utils.Domain.i64Max at hle
        dsimp only
        rw [asI64_of_lt (by omega)]
      · rw [← h]
  | (label, domain) :: branches, _, hvalid, hfit, hlabels, ⟨index + 1, hlt⟩, r, drawn, h => by
    obtain ⟨-, hbranches⟩ := Utils.Domain.validateBranches_cons hvalid
    rw [branchLabelsFit, Bool.and_eq_true] at hfit
    rw [sampleBranch] at h
    obtain ⟨b, hb, hwalk⟩ := walk_of_sampleBranch branches hbranches hfit.2
      (fun l hl => hlabels l (List.mem_cons_of_mem _ hl)) h
    exact ⟨b, List.mem_cons_of_mem _ hb, hwalk⟩

end

end Draws

/-! ## Scripts -/

section Scripts

variable {K : Type} [Field K]

/-- A generator that draws the listed values, and then the smallest one. -/
def scripted : UniformRng (List Nat) K where
  randomRange script n hn :=
    (⟨script.headD 0 % n, Nat.mod_lt _ hn⟩, script.tail)
  random script := (0, script)

theorem drawContinuous_scripted (n : Nat) (script : List Nat) :
    drawContinuous (scripted (K := K)) n script = (List.replicate n 0, script) := by
  induction n with
  | zero => rfl
  | succ n ih =>
    rw [drawContinuous]
    show ((0 : K) :: (drawContinuous (scripted (K := K)) n script).1,
      (drawContinuous (scripted (K := K)) n script).2) = _
    rw [ih]
    rfl

theorem drawAxes_of_walk {cardinalities : List Nat} (hpos : ∀ n ∈ cardinalities, n ≠ 0)
    (hfit : ∀ n ∈ cardinalities, n ≤ 2 ^ 63) {path : List Int} {weight : K}
    (h : ChoiceTree.Walk (Utils.Domain.axesTree cardinalities) path weight) :
    weight = (cardinalities.map fun (n : Nat) => (n : K)).prod ∧
      ∃ script, ∀ more, drawAxes (scripted (K := K)) cardinalities (script ++ more) = (path, more) := by
  induction cardinalities generalizing path weight with
  | nil =>
    obtain ⟨rfl, rfl⟩ := ChoiceTree.Walk.leaf_iff.1 h
    exact ⟨rfl, [], fun more => rfl⟩
  | cons n cardinalities ih =>
    have hn : 0 < n := Nat.pos_of_ne_zero (hpos n List.mem_cons_self)
    have hle := hfit n List.mem_cons_self
    rw [Utils.Domain.axesTree, ChoiceTree.walk_ofList] at h
    obtain ⟨b, hb, tail, w, hwalk, rfl, rfl⟩ := h
    obtain ⟨i, hi, rfl⟩ := List.mem_map.1 hb
    have hlt := List.mem_range.1 hi
    obtain ⟨hweight, script, hscript⟩ := ih (fun m hm => hpos m (List.mem_cons_of_mem _ hm))
      (fun m hm => hfit m (List.mem_cons_of_mem _ hm)) hwalk
    refine ⟨?_, i :: script, fun more => ?_⟩
    · rw [List.length_map, List.length_range, hweight, List.map_cons, List.prod_cons]
    · rw [drawAxes, dif_pos hn]
      show (asI64 (i % n) :: (drawAxes (scripted (K := K)) cardinalities (script ++ more)).1,
        (drawAxes (scripted (K := K)) cardinalities (script ++ more)).2) = _
      rw [hscript, Nat.mod_eq_of_lt hlt, asI64_of_lt (by omega)]

mutual

/-- Every path of the tree is drawn, with its weight. -/
theorem sample_of_walk : ∀ (d : Utils.Domain) {seen : Bool}, d.validateFrom seen = .ok () →
    labelsFit d = true → ∀ {path : List Int} {weight : K}, ChoiceTree.Walk d.tree path weight →
      ∃ script continuous, ∀ more, sampleDomainPoint scripted (fun _ => true) d (script ++ more) =
        .ok ⟨weight, path, continuous, more⟩
  | .rectangular _ cardinalities continuousDims, _, hvalid, hfit, path, weight, h => by
    have hpos := Utils.Domain.axes_nonzero hvalid
    obtain ⟨hweight, script, hscript⟩ := drawAxes_of_walk hpos
      (fun n hn => of_decide_eq_true (List.all_eq_true.1 hfit n hn)) h
    have hzero : ¬ (cardinalities.contains 0 = true) := by
      rw [List.contains_iff_mem]
      exact fun hmem => hpos 0 hmem rfl
    refine ⟨script, List.replicate continuousDims 0, fun more => ?_⟩
    rw [sampleDomainPoint, if_neg hzero, hscript]
    dsimp only
    rw [drawContinuous_scripted, finiteWeight_true, foldl_mul_cast, one_mul, ← hweight]
  | .discrete _ _ branches, _, hvalid, hfit, path, weight, h => by
    obtain ⟨seen', haxis⟩ := Utils.Domain.validAxis hvalid
    have hpos : 0 < branches.length := List.length_pos_of_ne_nil haxis.nonempty
    rw [Utils.Domain.tree, ChoiceTree.walk_ofList] at h
    obtain ⟨b, hb, tail, w, hwalk, rfl, rfl⟩ := h
    obtain ⟨index, script, continuous, hbranch⟩ :=
      sample_of_branchWalk branches haxis.below hfit haxis.fits hb hwalk
    refine ⟨index.1 :: script, continuous, fun more => ?_⟩
    have hindex : (scripted (K := K)).randomRange (index.1 :: script ++ more) branches.length hpos =
        (index, script ++ more) := by
      refine Prod.ext (Fin.ext ?_) rfl
      exact Nat.mod_eq_of_lt index.2
    rw [sampleDomainPoint, dif_pos hpos, hindex]
    dsimp only
    rw [hbranch, Utils.Domain.branchTrees_eq, List.length_map]
    rfl

theorem sample_of_branchWalk : ∀ (branches : List (Nat × Utils.Domain)) {seen : Bool},
    Utils.Domain.validateBranches branches seen = .ok () → branchLabelsFit branches = true →
      (∀ label ∈ branches.map (·.1), label ≤ Utils.Domain.i64Max) →
        ∀ {b : Int × ChoiceTree Int}, b ∈ Utils.Domain.branchTrees branches →
          ∀ {tail : List Int} {weight : K}, ChoiceTree.Walk b.2 tail weight →
            ∃ (index : Fin branches.length) (script : List Nat) (continuous : List K), ∀ more,
              sampleBranch scripted (fun _ => true) branches index (script ++ more) =
                .ok ⟨weight, b.1 :: tail, continuous, more⟩
  | [], _, _, _, _, _, hb, _, _, _ => by cases hb
  | (label, domain) :: branches, _, hvalid, hfit, hlabels, b, hb, tail, weight, h => by
    obtain ⟨hdomain, hbranches⟩ := Utils.Domain.validateBranches_cons hvalid
    rw [branchLabelsFit, Bool.and_eq_true] at hfit
    rcases List.mem_cons.1 hb with rfl | hb
    · obtain ⟨script, continuous, hsample⟩ := sample_of_walk domain hdomain hfit.1 h
      refine ⟨⟨0, Nat.zero_lt_succ _⟩, script, continuous, fun more => ?_⟩
      have hle : label ≤ Utils.Domain.i64Max := hlabels label List.mem_cons_self
      unfold Utils.Domain.i64Max at hle
      rw [sampleBranch, hsample, Except.map, asI64_of_lt (by omega)]
    · obtain ⟨index, script, continuous, hsample⟩ := sample_of_branchWalk branches hbranches hfit.2
        (fun l hl => hlabels l (List.mem_cons_of_mem _ hl)) hb h
      refine ⟨⟨index.1 + 1, Nat.succ_lt_succ index.2⟩, script, continuous, fun more => ?_⟩
      rw [sampleBranch]
      exact hsample more

end

/-- Some generator draws the path with the weight. -/
def Emits (d : Utils.Domain) (path : List Int) (weight : K) : Prop :=
  ∃ (R : Type) (rng : UniformRng R K) (r : R) (drawn : DrawnPoint R K),
    sampleDomainPoint rng (fun _ => true) d r = .ok drawn ∧
      drawn.discrete = path ∧ drawn.weight = weight

/-- The draws are the walks through the tree. -/
theorem emits_iff {d : Utils.Domain} (hvalid : d.validate = .ok ()) (hfit : labelsFit d = true)
    {path : List Int} {weight : K} :
    Emits d path weight ↔ ChoiceTree.Walk d.tree path weight := by
  constructor
  · rintro ⟨R, rng, r, drawn, hsample, rfl, rfl⟩
    exact walk_of_sample d hvalid hfit hsample
  · intro h
    obtain ⟨script, continuous, hsample⟩ := sample_of_walk d hvalid hfit h
    have hdrawn := hsample []
    exact ⟨List Nat, scripted, script ++ [], _, hdrawn, rfl, rfl⟩

end Scripts

end Gammaboard.Sampling
