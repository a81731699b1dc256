import Gammaboard.Lib.Results
import Gammaboard.ProcessApi.Domain
import Gammaboard.Utils.StratumPaths
import Mathlib.Tactic.Common

/-!
# Host and worker agree on domains

What the host and a worker make of the JSON form of a domain. `mirror` is the
worker's copy of a domain of the host; every function of the two sides is
compared along it, by induction on the tree.
-/

namespace Gammaboard.ProcessApi

open Gammaboard.Lib (bind_eq_ok_iff)
open Gammaboard.Utils (DiscreteAxisRole DomainJson)

namespace Domain

/-! ## The worker's copy of a tree -/

mutual

/-- The tree a worker reads, before it is validated. -/
def raw : DomainJson → Domain
  | .rectangular strataDims discreteCardinalities continuousDims =>
    .rectangular discreteCardinalities continuousDims (strataDims.getD 0)
  | .discrete axisLabel axisRole branches =>
    .discrete (rawBranches branches) (axisRole.getD .integrand) axisLabel

def rawBranches : List (Int × DomainJson) → List (Int × Domain)
  | [] => []
  | (index, domain) :: branches => (index, raw domain) :: rawBranches branches

end

mutual

def mirror : Utils.Domain → Domain
  | .rectangular strataDims discreteCardinalities continuousDims =>
    .rectangular (discreteCardinalities.map (Nat.cast : Nat → Int)) continuousDims strataDims
  | .discrete axisLabel axisRole branches =>
    .discrete (mirrorBranches branches) axisRole axisLabel

def mirrorBranches : List (Nat × Utils.Domain) → List (Int × Domain)
  | [] => []
  | (index, domain) :: branches => ((index : Int), mirror domain) :: mirrorBranches branches

end

theorem rawBranches_labels (branches : List (Int × DomainJson)) :
    (rawBranches branches).map (·.1) = branches.map (·.1) := by
  induction branches with
  | nil => rfl
  | cons b branches ih =>
    rw [rawBranches, List.map_cons, List.map_cons, ih]

theorem mirrorBranches_labels (branches : List (Nat × Utils.Domain)) :
    (mirrorBranches branches).map (·.1) = (branches.map (·.1)).map (Nat.cast : Nat → Int) := by
  induction branches with
  | nil => rfl
  | cons b branches ih =>
    rw [mirrorBranches, List.map_cons, List.map_cons, List.map_cons, ih]

/-! ## Computations that may fail -/

theorem ite_error_ok {α : Type} {c : Prop} [Decidable c] {e : String} {x : Except String α} {a : α} :
    (if c then .error e else x) = .ok a ↔ ¬c ∧ x = .ok a := by
  split
  · simp [*]
  · simp [*]

/-! ## Reading -/

theorem usizeOfJson_ok {n : Int} {k : Nat} :
    Utils.Domain.usizeOfJson n = .ok k ↔ n = k ∧ n ≤ Utils.Domain.usizeMax := by
  unfold Utils.Domain.usizeOfJson
  split
  · rename_i h
    constructor
    · intro hk
      cases hk
      exact ⟨(Int.toNat_of_nonneg h.1).symm, h.2⟩
    · rintro ⟨rfl, -⟩
      rfl
  · rename_i h
    constructor
    · intro hk
      cases hk
    · rintro ⟨rfl, hle⟩
      exact absurd ⟨Int.natCast_nonneg k, hle⟩ h

theorem mapM_usizeOfJson_ok {ns : List Int} {ks : List Nat}
    (h : ns.mapM Utils.Domain.usizeOfJson = .ok ks) : ns = ks.map (Nat.cast : Nat → Int) := by
  induction ns generalizing ks with
  | nil =>
    cases h
    rfl
  | cons n ns ih =>
    rw [List.mapM_cons] at h
    obtain ⟨k, hk, h⟩ := bind_eq_ok_iff.1 h
    obtain ⟨rest, hrest, h⟩ := bind_eq_ok_iff.1 h
    cases h
    rw [List.map_cons, ← ih hrest, (usizeOfJson_ok.1 hk).1]

mutual

/-- The tree a worker reads is the copy of the tree the host reads. -/
theorem raw_eq_mirror : ∀ (json : DomainJson) {d : Utils.Domain},
    Utils.Domain.ofJson json = .ok d → raw json = mirror d
  | .rectangular strataDims discreteCardinalities continuousDims, d, h => by
    unfold Utils.Domain.ofJson at h
    obtain ⟨s, hs, h⟩ := bind_eq_ok_iff.1 h
    obtain ⟨cs, hcs, h⟩ := bind_eq_ok_iff.1 h
    obtain ⟨c, hc, h⟩ := bind_eq_ok_iff.1 h
    cases h
    rw [raw, mirror, mapM_usizeOfJson_ok hcs, (usizeOfJson_ok.1 hs).1, (usizeOfJson_ok.1 hc).1]
  | .discrete axisLabel axisRole branches, d, h => by
    unfold Utils.Domain.ofJson at h
    obtain ⟨bs, hbs, h⟩ := bind_eq_ok_iff.1 h
    cases h
    rw [raw, mirror, rawBranches_eq_mirror branches hbs]

theorem rawBranches_eq_mirror : ∀ (branches : List (Int × DomainJson))
    {bs : List (Nat × Utils.Domain)},
    Utils.Domain.branchesOfJson branches = .ok bs → rawBranches branches = mirrorBranches bs
  | [], bs, h => by
    unfold Utils.Domain.branchesOfJson at h
    cases h
    rfl
  | (index, domain) :: branches, bs, h => by
    unfold Utils.Domain.branchesOfJson at h
    obtain ⟨i, hi, h⟩ := bind_eq_ok_iff.1 h
    obtain ⟨d, hd, h⟩ := bind_eq_ok_iff.1 h
    obtain ⟨rest, hrest, h⟩ := bind_eq_ok_iff.1 h
    cases h
    rw [rawBranches, mirrorBranches, raw_eq_mirror domain hd,
      rawBranches_eq_mirror branches hrest, (usizeOfJson_ok.1 hi).1]

end

/-! ## Validation -/

mutual

/-- A check that has seen fewer integrand axes passes where one that has seen more does. -/
theorem validate_weaken : ∀ (d : Domain) {r seen : Bool}, (r = true → seen = true) →
    d.validate seen = .ok () → d.validate r = .ok ()
  | .rectangular discreteCardinalities continuousDims strataDims, r, seen, hr, h => by
    unfold validate at h ⊢
    simp only [ite_error_ok, Bool.and_eq_true, not_and] at h ⊢
    exact ⟨h.1, h.2.1, fun htrue => h.2.2.1 (hr htrue), trivial⟩
  | .discrete branches axisRole axisLabel, r, seen, hr, h => by
    unfold validate at h ⊢
    simp only [ite_error_ok, Bool.and_eq_true, not_and] at h ⊢
    refine ⟨h.1, h.2.1, fun htrue => h.2.2.1 (hr htrue), ?_⟩
    refine validateBranches_weaken branches (fun hor => ?_) h.2.2.2
    rw [Bool.or_eq_true] at hor ⊢
    exact hor.imp_left hr

theorem validateBranches_weaken : ∀ (branches : List (Int × Domain)) {r seen : Bool},
    (r = true → seen = true) →
    validateBranches branches seen = .ok () → validateBranches branches r = .ok ()
  | [], _, _, _, h => h
  | (index, domain) :: branches, r, seen, hr, h => by
    unfold validateBranches at h ⊢
    obtain ⟨⟨⟩, hd, h⟩ := bind_eq_ok_iff.1 h
    exact bind_eq_ok_iff.2 ⟨(), validate_weaken domain hr hd, validateBranches_weaken branches hr h⟩

end

mutual

/-- A worker reads a domain exactly when the tree as a whole is valid: what it checks of every
subtree follows. -/
theorem fromDict_ok : ∀ (json : DomainJson) {p : Domain},
    fromDict json = .ok p ↔ p = raw json ∧ (raw json).validate false = .ok ()
  | .rectangular strataDims discreteCardinalities continuousDims, p => by
    unfold fromDict raw
    dsimp only
    rw [bind_eq_ok_iff]
    constructor
    · rintro ⟨⟨⟩, hv, h⟩
      cases h
      exact ⟨rfl, hv⟩
    · rintro ⟨rfl, hv⟩
      exact ⟨(), hv, rfl⟩
  | .discrete axisLabel axisRole branches, p => by
    unfold fromDict raw
    rw [bind_eq_ok_iff]
    dsimp only
    constructor
    · rintro ⟨bs, hbs, h⟩
      obtain ⟨⟨⟩, hv, h⟩ := bind_eq_ok_iff.1 h
      cases h
      have hraw := (branchesFromDict_ok branches).1 hbs
      rw [← hraw.1]
      exact ⟨rfl, hv⟩
    · rintro ⟨rfl, hv⟩
      refine ⟨_, (branchesFromDict_ok branches).2 ⟨rfl, ?_⟩, bind_eq_ok_iff.2 ⟨(), hv, rfl⟩⟩
      unfold validate at hv
      simp only [ite_error_ok] at hv
      exact validateBranches_weaken _ (by simp) hv.2.2.2

theorem branchesFromDict_ok : ∀ (branches : List (Int × DomainJson)) {ps : List (Int × Domain)},
    branchesFromDict branches = .ok ps ↔
      ps = rawBranches branches ∧ validateBranches (rawBranches branches) false = .ok ()
  | [], ps => by
    unfold branchesFromDict rawBranches validateBranches
    exact ⟨fun h => ⟨by cases h; rfl, rfl⟩, fun h => h.1 ▸ rfl⟩
  | (index, domain) :: branches, ps => by
    unfold branchesFromDict rawBranches validateBranches
    simp only [bind_eq_ok_iff, fromDict_ok domain, branchesFromDict_ok branches]
    constructor
    · rintro ⟨p, ⟨rfl, hp⟩, rest, ⟨rfl, hrest⟩, h⟩
      cases h
      exact ⟨rfl, (), hp, hrest⟩
    · rintro ⟨rfl, ⟨⟩, hp, hrest⟩
      exact ⟨_, ⟨rfl, hp⟩, _, ⟨rfl, hrest⟩, rfl⟩

end

theorem hasDescent_cast (labels : List Nat) :
    ((labels.map (Nat.cast : Nat → Int)).zip (labels.map (Nat.cast : Nat → Int)).tail).any
      (fun pair => pair.2 ≤ pair.1) = Utils.Domain.hasDescent labels := by
  unfold Utils.Domain.hasDescent
  rw [← List.map_tail, List.zip_map, List.any_map]
  congr 1
  funext pair
  simp

theorem branchesOfJson_labels {branches : List (Int × DomainJson)} {bs : List (Nat × Utils.Domain)}
    (h : Utils.Domain.branchesOfJson branches = .ok bs) :
    branches.map (·.1) = (bs.map (·.1)).map (Nat.cast : Nat → Int) := by
  rw [← mirrorBranches_labels, ← rawBranches_eq_mirror branches h, rawBranches_labels]

mutual

/-- On labels and sizes that fit 64 bits the two validations agree. -/
theorem validate_mirror : ∀ (json : DomainJson), json.Fits → ∀ {d : Utils.Domain} (seen : Bool),
    Utils.Domain.ofJson json = .ok d →
    ((mirror d).validate seen = .ok () ↔ d.validateFrom seen = .ok ())
  | .rectangular strataDims discreteCardinalities continuousDims, _, d, seen, h => by
    unfold Utils.Domain.ofJson at h
    obtain ⟨s, -, h⟩ := bind_eq_ok_iff.1 h
    obtain ⟨cs, -, h⟩ := bind_eq_ok_iff.1 h
    obtain ⟨c, -, h⟩ := bind_eq_ok_iff.1 h
    cases h
    unfold mirror validate Utils.Domain.validateFrom
    have hzero : (cs.map (Nat.cast : Nat → Int)).any (· == 0) = cs.contains 0 := by
      rw [List.any_map, List.contains_eq_any_beq]
      congr 1
      funext n
      simp [eq_comm]
    have hpositive : ¬(cs.map (Nat.cast : Nat → Int) ++ [(c : Int), (s : Int)]).any
        (fun n => decide (n < 0)) = true := by
      simp
    rw [if_neg hpositive, hzero]
    simp only [List.length_map, Int.ofNat_lt, ite_error_ok, bne_iff_ne, ne_eq,
      Bool.and_eq_true, Int.natCast_eq_zero]
  | .discrete axisLabel axisRole branches, hfits, d, seen, h => by
    cases hfits with
    | discrete hlabels hbranches =>
    unfold Utils.Domain.ofJson at h
    obtain ⟨bs, hbs, h⟩ := bind_eq_ok_iff.1 h
    cases h
    unfold mirror validate Utils.Domain.validateFrom
    have hcast := branchesOfJson_labels hbs
    have hsmall : (bs.map (·.1)).any (fun index => decide (Utils.Domain.i64Max < index)) = false := by
      rw [List.any_eq_false]
      intro index hindex
      have hmem : (index : Int) ∈ branches.map (·.1) := hcast ▸ List.mem_map_of_mem hindex
      obtain ⟨b, hb, heq⟩ := List.mem_map.1 hmem
      have hlt := (hlabels b hb).2
      intro hlarge
      have := of_decide_eq_true hlarge
      unfold Utils.Domain.i64Max at this
      omega
    have hnonneg : ((bs.map (·.1)).map (Nat.cast : Nat → Int)).any (fun n => decide (n < 0)) = false := by
      simp
    dsimp only
    rw [mirrorBranches_labels, hnonneg, hasDescent_cast, hsmall]
    simp only [Bool.or_false, List.isEmpty_map, ite_error_ok, bne,
      validateBranches_mirror branches hbranches _ hbs, Bool.or_eq_true, not_or, and_assoc]

theorem validateBranches_mirror : ∀ (branches : List (Int × DomainJson)),
    (∀ b ∈ branches, b.2.Fits) → ∀ {bs : List (Nat × Utils.Domain)} (seen : Bool),
    Utils.Domain.branchesOfJson branches = .ok bs →
    (validateBranches (mirrorBranches bs) seen = .ok () ↔
      Utils.Domain.validateBranches bs seen = .ok ())
  | [], _, bs, seen, h => by
    unfold Utils.Domain.branchesOfJson at h
    cases h
    exact Iff.rfl
  | (index, domain) :: branches, hfits, bs, seen, h => by
    unfold Utils.Domain.branchesOfJson at h
    obtain ⟨i, -, h⟩ := bind_eq_ok_iff.1 h
    obtain ⟨d, hd, h⟩ := bind_eq_ok_iff.1 h
    obtain ⟨rest, hrest, h⟩ := bind_eq_ok_iff.1 h
    cases h
    unfold mirrorBranches validateBranches Utils.Domain.validateBranches
    rw [bind_eq_ok_iff, bind_eq_ok_iff]
    simp only [validate_mirror domain (hfits _ List.mem_cons_self) seen hd,
      validateBranches_mirror branches (fun b hb => hfits b (List.mem_cons_of_mem _ hb)) seen hrest]

end

theorem exists_usizeOfJson {n : Int} (hnonneg : 0 ≤ n) (hfits : n < 2 ^ 63) :
    ∃ k, Utils.Domain.usizeOfJson n = .ok k :=
  ⟨n.toNat, usizeOfJson_ok.2 ⟨(Int.toNat_of_nonneg hnonneg).symm, by
    unfold Utils.Domain.usizeMax
    omega⟩⟩

mutual

/-- The host reads what a worker accepts. -/
theorem exists_ofJson : ∀ (json : DomainJson), json.Fits → ∀ {seen : Bool},
    (raw json).validate seen = .ok () → ∃ d, Utils.Domain.ofJson json = .ok d
  | .rectangular strataDims discreteCardinalities continuousDims, hfits, seen, h => by
    cases hfits with
    | rectangular hstrata hcardinalities hcontinuous =>
    unfold raw validate at h
    simp only [ite_error_ok] at h
    have hnonneg : ∀ n ∈ discreteCardinalities ++ [continuousDims, strataDims.getD 0], 0 ≤ n := by
      intro n hn
      by_contra hneg
      exact h.1 (List.any_eq_true.2 ⟨n, hn, decide_eq_true (Int.not_le.1 hneg)⟩)
    have hmap : ∀ ns : List Int, (∀ n ∈ ns, 0 ≤ n ∧ n < 2 ^ 63) →
        ∃ ks, ns.mapM Utils.Domain.usizeOfJson = .ok ks := by
      intro ns
      induction ns with
      | nil => exact fun _ => ⟨[], rfl⟩
      | cons n ns ih =>
        intro hns
        obtain ⟨k, hk⟩ := exists_usizeOfJson (hns n List.mem_cons_self).1 (hns n List.mem_cons_self).2
        obtain ⟨ks, hks⟩ := ih fun m hm => hns m (List.mem_cons_of_mem _ hm)
        exact ⟨k :: ks, by rw [List.mapM_cons, hk, hks]; rfl⟩
    have hsmall : strataDims.getD 0 < 2 ^ 63 := by
      cases strataDims with
      | none => decide
      | some n => exact (hstrata n rfl).2
    obtain ⟨s, hs⟩ := exists_usizeOfJson (hnonneg (strataDims.getD 0) (by simp)) hsmall
    obtain ⟨cs, hcs⟩ := hmap discreteCardinalities fun n hn =>
      ⟨hnonneg n (List.mem_append_left _ hn), (hcardinalities n hn).2⟩
    obtain ⟨c, hc⟩ := exists_usizeOfJson (hnonneg continuousDims (by simp)) hcontinuous.2
    refine ⟨.rectangular s cs c, ?_⟩
    rw [Utils.Domain.ofJson, hs, hcs, hc]
    rfl
  | .discrete axisLabel axisRole branches, hfits, seen, h => by
    cases hfits with
    | discrete hlabels hbranches =>
    unfold raw validate at h
    simp only [ite_error_ok, rawBranches_labels, Bool.or_eq_true, not_or] at h
    have hnonneg : ∀ b ∈ branches, 0 ≤ b.1 := by
      intro b hb
      by_contra hneg
      exact h.1.2 (List.any_eq_true.2 ⟨b.1, List.mem_map_of_mem hb,
        decide_eq_true (Int.not_le.1 hneg)⟩)
    obtain ⟨bs, hbs⟩ := exists_branchesOfJson branches (fun b hb => ⟨hnonneg b hb, (hlabels b hb).2⟩)
      hbranches h.2.2.2
    refine ⟨.discrete axisLabel (axisRole.getD .integrand) bs, ?_⟩
    rw [Utils.Domain.ofJson, hbs]
    rfl

theorem exists_branchesOfJson : ∀ (branches : List (Int × DomainJson)),
    (∀ b ∈ branches, 0 ≤ b.1 ∧ b.1 < 2 ^ 63) → (∀ b ∈ branches, b.2.Fits) → ∀ {seen : Bool},
    validateBranches (rawBranches branches) seen = .ok () →
    ∃ bs, Utils.Domain.branchesOfJson branches = .ok bs
  | [], _, _, _, _ => ⟨[], rfl⟩
  | (index, domain) :: branches, hlabels, hfits, seen, h => by
    unfold rawBranches validateBranches at h
    obtain ⟨⟨⟩, hd, h⟩ := bind_eq_ok_iff.1 h
    obtain ⟨i, hi⟩ := exists_usizeOfJson (hlabels _ List.mem_cons_self).1
      (hlabels _ List.mem_cons_self).2
    obtain ⟨d, hd⟩ := exists_ofJson domain (hfits _ List.mem_cons_self) hd
    obtain ⟨rest, hrest⟩ := exists_branchesOfJson branches
      (fun b hb => hlabels b (List.mem_cons_of_mem _ hb))
      (fun b hb => hfits b (List.mem_cons_of_mem _ hb)) h
    refine ⟨(i, d) :: rest, ?_⟩
    dsimp only at hi
    rw [Utils.Domain.branchesOfJson, hi, hd, hrest]
    rfl

end

/-! ## Strata -/

/-- The nested loops of the host list the product of a worker, below the path. -/
theorem product_mirror (dims : List Nat) (path : List Int) (out : List (List Int)) :
    Utils.Domain.product dims path out =
      out ++ (product (dims.map (Nat.cast : Nat → Int))).map (path ++ ·) := by
  induction dims generalizing path out with
  | nil => simp [Utils.Domain.product, product]
  | cons n dims ih =>
    rw [Utils.Domain.product]
    simp only [ih]
    rw [Utils.Domain.foldl_append_eq, List.map_cons, product, Int.toNat_natCast, List.map_flatMap]
    simp [Function.comp_def]

mutual

theorem prefixes_mirror : ∀ (d : Utils.Domain) (path : List Int) (out : List (List Int)),
    d.prefixesBelow path out = out ++ (mirror d).prefixes.map (path ++ ·)
  | .rectangular strataDims discreteCardinalities continuousDims, path, out => by
    rw [Utils.Domain.prefixesBelow, mirror, prefixes, product_mirror, Int.toNat_natCast,
      List.map_take]
  | .discrete axisLabel .integrand branches, path, out => by
    rw [Utils.Domain.prefixesBelow, mirror, prefixes]
    simp
  | .discrete axisLabel .stratum branches, path, out => by
    rw [Utils.Domain.prefixesBelow, mirror, prefixes, prefixesOfBranches_mirror]

theorem prefixesOfBranches_mirror : ∀ (branches : List (Nat × Utils.Domain)) (path : List Int)
    (out : List (List Int)), Utils.Domain.prefixesOfBranches branches path out =
      out ++ (prefixesOfBranches (mirrorBranches branches)).map (path ++ ·)
  | [], path, out => by
    rw [Utils.Domain.prefixesOfBranches, mirrorBranches, prefixesOfBranches]
    simp
  | (index, domain) :: branches, path, out => by
    rw [Utils.Domain.prefixesOfBranches, mirrorBranches, prefixesOfBranches,
      prefixesOfBranches_mirror branches, prefixes_mirror domain]
    simp [Function.comp_def]

end

/-! ## Widths -/

theorem common_cast (first : Option Nat) (widths : List (Option Nat)) :
    common (first.map (Nat.cast : Nat → Int))
      ((first :: widths).map (Option.map (Nat.cast : Nat → Int))) =
      (Utils.Domain.common (first :: widths)).map (Nat.cast : Nat → Int) := by
  have hall : ((first :: widths).map (Option.map (Nat.cast : Nat → Int))).all
      (· == first.map (Nat.cast : Nat → Int)) = (first :: widths).all (· == first) := by
    rw [List.all_map]
    congr 1
    funext w
    have hinj : Function.Injective (Option.map (Nat.cast : Nat → Int)) :=
      Option.map_injective fun _ _ h => Int.ofNat_inj.1 h
    rw [Function.comp_apply, Bool.eq_iff_iff, beq_iff_eq, beq_iff_eq, hinj.eq_iff]
  unfold common Utils.Domain.common
  rw [hall]
  cases first with
  | none => simp
  | some width =>
    show _ = Option.map _ (if _ then _ else _)
    split <;> rfl

mutual

/-- A valid domain has branches at every axis, so a worker finds the widths. -/
theorem fixedWidths_mirror : ∀ (d : Utils.Domain) {seen : Bool}, d.validateFrom seen = .ok () →
    (mirror d).fixedWidths = some (d.fixedDiscreteDepth.map (Nat.cast : Nat → Int),
      d.fixedContinuousDims.map (Nat.cast : Nat → Int))
  | .rectangular strataDims discreteCardinalities continuousDims, seen, _ => by
    rw [mirror, fixedWidths, Utils.Domain.fixedDiscreteDepth, Utils.Domain.fixedContinuousDims]
    simp
  | .discrete axisLabel axisRole [], seen, h => by
    unfold Utils.Domain.validateFrom at h
    cases h
  | .discrete axisLabel axisRole ((index, domain) :: branches), seen, h => by
    unfold Utils.Domain.validateFrom at h
    simp only [ite_error_ok] at h
    obtain ⟨widths, hwidths, hdepths, hdims⟩ := widthsOfBranches_mirror _ h.2.2
    rw [mirror, fixedWidths, hwidths]
    rw [Utils.Domain.depthsOfBranches] at hdepths
    rw [Utils.Domain.continuousDimsOfBranches] at hdims
    cases widths with
    | nil => cases hdepths
    | cons width widths =>
      rw [List.map_cons, List.map_cons, List.cons.injEq] at hdepths hdims
      rw [Utils.Domain.fixedDiscreteDepth, Utils.Domain.fixedContinuousDims,
        Utils.Domain.depthsOfBranches, Utils.Domain.continuousDimsOfBranches]
      show some ((common width.1 (width.1 :: widths.map (·.1))).map (· + 1),
        common width.2 (width.2 :: widths.map (·.2))) = _
      rw [hdepths.1, hdepths.2, hdims.1, hdims.2, ← List.map_cons, ← List.map_cons, common_cast,
        common_cast]
      simp [Function.comp_def]

theorem widthsOfBranches_mirror : ∀ (branches : List (Nat × Utils.Domain)) {seen : Bool},
    Utils.Domain.validateBranches branches seen = .ok () →
    ∃ widths, widthsOfBranches (mirrorBranches branches) = some widths ∧
      widths.map (·.1) =
        (Utils.Domain.depthsOfBranches branches).map (Option.map (Nat.cast : Nat → Int)) ∧
      widths.map (·.2) =
        (Utils.Domain.continuousDimsOfBranches branches).map (Option.map (Nat.cast : Nat → Int))
  | [], seen, _ => ⟨[], rfl, rfl, rfl⟩
  | (index, domain) :: branches, seen, h => by
    unfold Utils.Domain.validateBranches at h
    obtain ⟨⟨⟩, hd, h⟩ := bind_eq_ok_iff.1 h
    obtain ⟨widths, hwidths, hdepths, hdims⟩ := widthsOfBranches_mirror branches h
    rw [mirrorBranches, widthsOfBranches, fixedWidths_mirror domain hd, hwidths,
      Utils.Domain.depthsOfBranches, Utils.Domain.continuousDimsOfBranches, List.map_cons,
      List.map_cons, ← hdepths, ← hdims]
    exact ⟨_, rfl, rfl, rfl⟩

end

/-! ## Points -/

theorem checkCoordinates_ok (axis : Nat) (path : List Int) (cardinalities : List Nat) :
    Utils.Domain.checkCoordinates axis path cardinalities = .ok () ↔
      ¬((path.zip (cardinalities.map (Nat.cast : Nat → Int))).any
        fun (x, n) => x < 0 || n ≤ x) = true := by
  induction path generalizing axis cardinalities with
  | nil => simp [Utils.Domain.checkCoordinates]
  | cons x path ih =>
    cases cardinalities with
    | nil => simp [Utils.Domain.checkCoordinates]
    | cons n cardinalities =>
      rw [Utils.Domain.checkCoordinates, ite_error_ok, ite_error_ok, ih, List.map_cons,
        List.zip_cons_cons, List.any_cons]
      simp only [Bool.or_eq_true, decide_eq_true_eq, not_or, and_assoc]

theorem rectangularDimsAt_ok {cardinalities : List Nat} {dims n : Nat} {path : List Int}
    (hlen : path.length = cardinalities.length) :
    Utils.Domain.rectangularDimsAt cardinalities dims path = .ok n ↔
      ¬((path.zip (cardinalities.map (Nat.cast : Nat → Int))).any
        fun (x, n) => x < 0 || n ≤ x) = true ∧ n = dims := by
  unfold Utils.Domain.rectangularDimsAt
  cases path with
  | nil => simp [eq_comm]
  | cons x path =>
    rw [if_neg (by simp), if_neg (by omega), bind_eq_ok_iff]
    constructor
    · rintro ⟨⟨⟩, hcheck, h⟩
      cases h
      exact ⟨(checkCoordinates_ok _ _ _).1 hcheck, rfl⟩
    · rintro ⟨hcheck, rfl⟩
      exact ⟨(), (checkCoordinates_ok _ _ _).2 hcheck, rfl⟩

/-- No branch has a negative label. -/
theorem validateBranchPoint_negative (branches : List (Nat × Utils.Domain)) {coordinate : Int}
    (hneg : coordinate < 0) (path : List Int) (n : Nat) :
    validateBranchPoint (mirrorBranches branches) coordinate path n =
      .error "unknown discrete branch" := by
  induction branches with
  | nil => rfl
  | cons b branches ih =>
    rw [mirrorBranches, validateBranchPoint, if_neg (by omega), ih]

mutual

theorem validatePoint_mirror : ∀ (d : Utils.Domain) (path : List Int) (n : Nat),
    (mirror d).validatePoint path n = .ok () ↔ d.continuousDimsAtLeafPath path = .ok n
  | .rectangular strataDims discreteCardinalities continuousDims, path, n => by
    rw [mirror, validatePoint, Utils.Domain.continuousDimsAtLeafPath, List.length_map]
    simp only [ite_error_ok, not_or, not_not]
    by_cases hlen : path.length = discreteCardinalities.length
    · rw [rectangularDimsAt_ok hlen]
      simp only [hlen, Int.ofNat_inj]
      tauto
    · simp [hlen]
  | .discrete axisLabel axisRole branches, [], n => by
    rw [mirror, validatePoint, Utils.Domain.continuousDimsAtLeafPath]
    simp
  | .discrete axisLabel axisRole branches, coordinate :: path, n => by
    rw [mirror, validatePoint, Utils.Domain.continuousDimsAtLeafPath, ite_error_ok]
    by_cases hneg : coordinate < 0
    · rw [validateBranchPoint_negative branches hneg]
      simp [hneg]
    · rw [← validateBranchPoint_mirror branches coordinate.toNat path n,
        Int.toNat_of_nonneg (Int.not_lt.1 hneg)]
      simp [hneg]

theorem validateBranchPoint_mirror : ∀ (branches : List (Nat × Utils.Domain)) (index : Nat)
    (path : List Int) (n : Nat),
    validateBranchPoint (mirrorBranches branches) index path n = .ok () ↔
      Utils.Domain.dimsAtBranch branches index path = .ok n
  | [], index, path, n => by
    rw [mirrorBranches, validateBranchPoint, Utils.Domain.dimsAtBranch]
    simp
  | (label, domain) :: branches, index, path, n => by
    rw [mirrorBranches, validateBranchPoint, Utils.Domain.dimsAtBranch]
    by_cases hlabel : label = index
    · rw [if_pos (by omega), if_pos hlabel]
      exact validatePoint_mirror domain path n
    · rw [if_neg (by omega), if_neg hlabel]
      exact validateBranchPoint_mirror branches index path n

end

theorem validatePointParts_ok {d : Utils.Domain} {path : List Int} {n : Nat} :
    d.validatePointParts path n = .ok () ↔ d.continuousDimsAtLeafPath path = .ok n := by
  unfold Utils.Domain.validatePointParts
  rw [bind_eq_ok_iff]
  constructor
  · rintro ⟨expected, hexpected, h⟩
    rw [ite_error_ok, not_not] at h
    rw [hexpected, h.1]
  · intro h
    exact ⟨n, h, by simp⟩

/-! ## Agreement -/

/-- What host and worker make of one domain. -/
structure Agrees (d : Utils.Domain) (p : Domain) : Prop where
  widths : p.fixedWidths = some (d.fixedDiscreteDepth.map (Nat.cast : Nat → Int),
    d.fixedContinuousDims.map (Nat.cast : Nat → Int))
  prefixes : p.stratumPrefixes = d.stratumPrefixes
  points : ∀ (path : List Int) (continuous : Nat),
    p.validatePoint path continuous = .ok () ↔ d.validatePointParts path continuous = .ok ()

theorem accept_ok {json : DomainJson} {d : Utils.Domain} :
    Utils.Domain.accept json = .ok d ↔ Utils.Domain.ofJson json = .ok d ∧ d.validate = .ok () := by
  unfold Utils.Domain.accept
  rw [bind_eq_ok_iff]
  constructor
  · rintro ⟨d', hd, h⟩
    obtain ⟨⟨⟩, hv, h⟩ := bind_eq_ok_iff.1 h
    cases h
    exact ⟨hd, hv⟩
  · rintro ⟨hd, hv⟩
    exact ⟨d, hd, bind_eq_ok_iff.2 ⟨(), hv, rfl⟩⟩

/-- The copy of a valid domain agrees with it. -/
theorem agrees_mirror {d : Utils.Domain} (hd : d.validate = .ok ())
    (hp : (mirror d).validate false = .ok ()) : Agrees d (mirror d) where
  widths := fixedWidths_mirror d hd
  prefixes := by
    unfold stratumPrefixes Utils.Domain.stratumPrefixes
    rw [hd, hp, prefixes_mirror]
    simp
  points path continuous := by
    rw [validatePoint_mirror, validatePointParts_ok]

/-- Host and worker accept the same domains of the JSON form, and agree on those they accept. -/
theorem domains_agree (json : DomainJson) (hfits : json.Fits) :
    ((∃ d, Utils.Domain.accept json = .ok d) ↔ ∃ p, fromDict json = .ok p) ∧
      ∀ d p, Utils.Domain.accept json = .ok d → fromDict json = .ok p → Agrees d p := by
  refine ⟨⟨?_, ?_⟩, ?_⟩
  · rintro ⟨d, h⟩
    obtain ⟨hd, hv⟩ := accept_ok.1 h
    refine ⟨raw json, (fromDict_ok json).2 ⟨rfl, ?_⟩⟩
    rw [raw_eq_mirror json hd]
    exact (validate_mirror json hfits false hd).2 hv
  · rintro ⟨p, h⟩
    obtain ⟨-, hv⟩ := (fromDict_ok json).1 h
    obtain ⟨d, hd⟩ := exists_ofJson json hfits hv
    rw [raw_eq_mirror json hd] at hv
    exact ⟨d, accept_ok.2 ⟨hd, (validate_mirror json hfits false hd).1 hv⟩⟩
  · intro d p hd hp
    obtain ⟨hd, hv⟩ := accept_ok.1 hd
    obtain ⟨rfl, hvalid⟩ := (fromDict_ok json).1 hp
    rw [raw_eq_mirror json hd] at hvalid ⊢
    exact agrees_mirror hv hvalid

/-- A stratum axis over a rectangular leaf and a ragged subtree. -/
def raggedJson : DomainJson :=
  .discrete (some "k") (some .stratum)
    [(0, .rectangular (some 1) [2, 3] 1), (4, .discrete none none [(7, .rectangular none [] 2)])]

theorem raggedJson_fits : raggedJson.Fits := by
  refine .discrete (by decide) ?_
  simp only [List.forall_mem_cons, List.not_mem_nil, false_implies, implies_true, and_true]
  refine ⟨.rectangular (by simp) (by decide) (by decide), .discrete (by decide) ?_⟩
  simp only [List.forall_mem_cons, List.not_mem_nil, false_implies, implies_true, and_true]
  exact .rectangular (by simp) (by decide) (by decide)

theorem domains_agree_ragged :
    (∃ d, Utils.Domain.accept raggedJson = .ok d) ∧
      ((∃ d, Utils.Domain.accept raggedJson = .ok d) ↔ ∃ p, fromDict raggedJson = .ok p) ∧
      ∀ d p, Utils.Domain.accept raggedJson = .ok d → fromDict raggedJson = .ok p → Agrees d p :=
  ⟨⟨_, rfl⟩, domains_agree raggedJson raggedJson_fits⟩

end Domain

end Gammaboard.ProcessApi
