import Gammaboard.Evaluation.ScalarAccumulator
import Mathlib.Algebra.Field.Rat
import Mathlib.Algebra.Order.Ring.Unbundled.Rat

/-!
# Merged vectors are valid

A merge that passes its checks leaves valid statistics: the sums have been
added once already, bins with a key in both states have been checked against
each other, and the other bins stay as they are. What the checks leave open is
the partition: one state may bring diagnostics that count its own samples only.
-/

namespace Gammaboard.Evaluation

open Gammaboard.Core Gammaboard.Lib

variable {F M G L : Type}

/-! ## Sums -/

section Sums

variable [Add F] [Zero F] {finite : F → Bool}

omit [Zero F] in
theorem checkedSums_ok_iff :
    ∀ {names : List String} {lefts rights : List F}, names.length = lefts.length →
      rights.length = lefts.length →
      ((∃ sums, checkedSums finite names lefts rights = .ok sums) ↔
        ∀ p ∈ lefts.zip rights, finite p.1 = true ∧ finite p.2 = true ∧ finite (p.1 + p.2) = true)
  | [], [], [], _, _ => ⟨fun _ p hp => absurd hp List.not_mem_nil, fun _ => ⟨[], rfl⟩⟩
  | name :: names, left :: lefts, right :: rights, hnames, hrights => by
    have ih := @checkedSums_ok_iff names lefts rights (by simpa using hnames) (by simpa using hrights)
    unfold checkedSums
    rw [List.zip_cons_cons, List.forall_mem_cons, ← ih]
    split
    · rename_i hbad
      simp only [Bool.or_eq_true, Bool.not_eq_eq_eq_not, Bool.not_true] at hbad
      constructor
      · rintro ⟨sums, hsums⟩
        cases hsums
      · rintro ⟨⟨hl, hr, hs⟩, -⟩
        simp [hl, hr, hs] at hbad
    · rename_i hgood
      simp only [Bool.or_eq_true, Bool.not_eq_eq_eq_not, Bool.not_true, not_or,
        Bool.not_eq_false] at hgood
      constructor
      · rintro ⟨sums, hsums⟩
        refine ⟨⟨hgood.1.1, hgood.1.2, hgood.2⟩, ?_⟩
        cases hrest : checkedSums finite names lefts rights with
        | error e =>
          rw [hrest] at hsums
          cases hsums
        | ok rest => exact ⟨rest, rfl⟩
      · rintro ⟨-, rest, hrest⟩
        exact ⟨_, by rw [hrest]; rfl⟩

theorem map_unit_ok_iff {α : Type} {x : Except EngineError α} :
    (x.map fun _ => ()) = .ok () ↔ ∃ a, x = .ok a := by
  cases x with
  | error e => simp [Except.map]
  | ok a => simp [Except.map]

theorem ScalarSums.checkSums_ok_iff {s : ScalarSums F} :
    s.checkSums finite = .ok () ↔
      ∀ v ∈ s.sums, finite 0 = true ∧ finite v = true ∧ finite (0 + v) = true := by
  unfold ScalarSums.checkSums
  have hall := @checkedSums_ok_iff F _ finite sumNames [0, 0, 0, 0, 0] s.sums rfl rfl
  refine map_unit_ok_iff.trans (hall.trans ?_)
  simp [sums]

omit [Zero F] in
theorem ScalarSums.checkSumsWith_ok_iff {s t : ScalarSums F} :
    s.checkSumsWith finite t = .ok () ↔
      ∀ p ∈ s.sums.zip t.sums, finite p.1 = true ∧ finite p.2 = true ∧ finite (p.1 + p.2) = true := by
  unfold ScalarSums.checkSumsWith
  exact map_unit_ok_iff.trans (checkedSums_ok_iff rfl rfl)

end Sums

/-! ## Bins -/

section Bins

variable [Add F] [Zero F] {finite : F → Bool}

theorem bind_unit_ok_iff {x y : Except EngineError Unit} :
    (x >>= fun _ => y) = .ok () ↔ x = .ok () ∧ y = .ok () := by
  cases x with
  | error e => simp [bind, Except.bind]
  | ok a => simp [bind, Except.bind]

theorem validateBins_ok_iff {bins : List (String × DiscreteProjectionBinState (ScalarSums F))} :
    validateBins finite bins = .ok () ↔
      ∀ e ∈ bins, e.2.state.stats.validate finite e.2.state.count = .ok () := by
  induction bins with
  | nil => simp [validateBins]
  | cons e bins ih =>
    obtain ⟨key, discrete, count, stats⟩ := e
    rw [validateBins, bind_unit_ok_iff, List.forall_mem_cons, ih]

theorem ScalarSums.validate_ok_iff {s : ScalarSums F} {count : Int} :
    s.validate finite count = .ok () ↔ s.checkSums finite = .ok () ∧ 0 ≤ count ∧
      ∀ e ∈ s.discreteBins, e.2.state.stats.validate finite e.2.state.count = .ok () := by
  obtain ⟨⟩ := s
  rw [ScalarSums.validate, bind_eq_ok_iff]
  unfold ScalarSums.checkSums
  rw [map_unit_ok_iff, ← validateBins_ok_iff]
  by_cases hcount : count < 0
  · simp [hcount]
  · simp only [hcount, if_false, not_lt.1 hcount, true_and]
    constructor
    · rintro ⟨sums, hsums, hbins⟩
      exact ⟨⟨sums, hsums⟩, hbins⟩
    · rintro ⟨⟨sums, hsums⟩, hbins⟩
      exact ⟨sums, hsums, hbins⟩

theorem validateMergeBins_ok_iff
    {bins others : List (String × DiscreteProjectionBinState (ScalarSums F))} :
    validateMergeBins finite bins others = .ok () ↔
      ∀ e ∈ others, ∀ current, OrdMap.get e.1 bins = some current →
        current.state.stats.validateMerge finite current.state.count e.2.state.count
          e.2.state.stats = .ok () := by
  induction others with
  | nil => simp [validateMergeBins]
  | cons e others ih =>
    obtain ⟨key, discrete, count, stats⟩ := e
    rw [validateMergeBins, List.forall_mem_cons, ← ih]
    cases OrdMap.get key bins with
    | none => simp [bind, Except.bind]
    | some current =>
      dsimp only
      rw [bind_unit_ok_iff]
      simp

/-- What the check of two states asks. -/
theorem ScalarSums.validateMerge_ok_iff {s t : ScalarSums F} {count otherCount : Int} :
    s.validateMerge finite count otherCount t = .ok () ↔
      (s.discreteProjections = t.discreteProjections ∧ s.moments = t.moments) ∧
      s.validate finite count = .ok () ∧ t.validate finite otherCount = .ok () ∧
      s.checkSumsWith finite t = .ok () ∧ count + otherCount ≤ i64Max ∧
      validateMergeBins finite s.discreteBins t.discreteBins = .ok () := by
  obtain ⟨⟩ := t
  rw [ScalarSums.validateMerge]
  unfold checkSumsWith
  rw [map_unit_ok_iff]
  split
  · rename_i hdiffer
    simp only [reduceCtorEq, false_iff, not_and]
    intro hsame
    exact absurd hdiffer (by simp [hsame.1, hsame.2])
  · rename_i hsame
    rw [not_or, not_not, not_not] at hsame
    rw [bind_unit_ok_iff, bind_unit_ok_iff, bind_eq_ok_iff]
    split
    · rename_i hcount
      simp [not_le.2 hcount]
    · rename_i hcount
      rw [exists_and_right]
      constructor
      · rintro ⟨hs, ht, hsums, hbins⟩
        exact ⟨hsame, hs, ht, hsums, not_lt.1 hcount, hbins⟩
      · rintro ⟨-, hs, ht, hsums, -, hbins⟩
        exact ⟨hs, ht, hsums, hbins⟩

/-- Sums that could be added are finite, and so are those they are checked against. -/
theorem ScalarSums.checkSums_add {s t u : ScalarSums F}
    (hzero : ∀ x, finite x = true → finite (0 + x) = true) (hs : s.checkSums finite = .ok ())
    (hst : s.checkSumsWith finite t = .ok ()) (hu : u.sums = List.zipWith (· + ·) s.sums t.sums) :
    u.checkSums finite = .ok () := by
  rw [checkSums_ok_iff] at hs ⊢
  rw [checkSumsWith_ok_iff] at hst
  intro v hv
  rw [hu, ← List.map_uncurry_zip_eq_zipWith] at hv
  obtain ⟨p, hp, rfl⟩ := List.mem_map.1 hv
  have hsum : finite (p.1 + p.2) = true := (hst p hp).2.2
  have hleft := hs p.1 (List.of_mem_zip (show (p.1, p.2) ∈ _ from hp)).1
  exact ⟨hleft.1, hsum, hzero _ hsum⟩

variable [DecidableEq F] [LT F] [DecidableLT F]

@[simp] theorem ScalarSums.sums_mergePlain (s t : ScalarSums F) :
    (s.mergePlain t).sums = List.zipWith (· + ·) s.sums t.sums := rfl

@[simp] theorem ScalarSums.sums_merge (s t : ScalarSums F) :
    (s.merge t).sums = List.zipWith (· + ·) s.sums t.sums := rfl

theorem ScalarSums.validate_mergePlain {s t : ScalarSums F} {count otherCount : Int}
    (hzero : ∀ x, finite x = true → finite (0 + x) = true)
    (h : s.validateMerge finite count otherCount t = .ok ()) :
    (s.mergePlain t).validate finite (count + otherCount) = .ok () := by
  obtain ⟨-, hs, ht, hst, -⟩ := validateMerge_ok_iff.1 h
  obtain ⟨hsums, hcount, hbins⟩ := validate_ok_iff.1 hs
  obtain ⟨-, hother, -⟩ := validate_ok_iff.1 ht
  exact validate_ok_iff.2 ⟨checkSums_add hzero hsums hst (sums_mergePlain s t), by omega, hbins⟩

/-- Every bin of a merged map was in one of the maps, or is made of one of each. -/
theorem mem_foldl_mergeBin {others bins : List (String × DiscreteProjectionBinState (ScalarSums F))}
    (hkeys : (OrdMap.keys others).Nodup) {e : String × DiscreteProjectionBinState (ScalarSums F)}
    (he : e ∈ others.foldl mergeBin bins) :
    e ∈ bins ∨ e ∈ others ∨ ∃ other current, (e.1, other) ∈ others ∧
      OrdMap.get e.1 bins = some current ∧ e.2 = current.mergeInPlace other := by
  induction others generalizing bins with
  | nil => exact .inl he
  | cons o others ih =>
    obtain ⟨hnot, hkeys⟩ := List.nodup_cons.1 hkeys
    rw [List.foldl_cons] at he
    -- a bin put in now is under the key of `o`, which no later entry has
    have hother : ∀ {x : DiscreteProjectionBinState (ScalarSums F)} {key : String},
        (key, x) ∈ others → key ≠ o.1 := by
      rintro x key hx rfl
      exact hnot (OrdMap.mem_keys.2 ⟨x, hx⟩)
    have hinsert : ∀ {x : DiscreteProjectionBinState (ScalarSums F)},
        e ∈ OrdMap.insert o.1 x bins → e = (o.1, x) ∨ e ∈ bins := by
      intro x hx
      exact OrdMap.mem_of_mem_insert hx
    have hget : ∀ {x : DiscreteProjectionBinState (ScalarSums F)} {key : String}, key ≠ o.1 →
        OrdMap.get key (OrdMap.insert o.1 x bins) = OrdMap.get key bins := by
      intro x key hne
      rw [OrdMap.get_insert, if_neg hne.symm]
    unfold mergeBin at he
    cases hcurrent : OrdMap.get o.1 bins with
    | none =>
      rw [hcurrent] at he
      rcases ih hkeys he with he | he | ⟨other, current, hmem, hbin, heq⟩
      · rcases hinsert he with rfl | he
        · exact .inr (.inl List.mem_cons_self)
        · exact .inl he
      · exact .inr (.inl (List.mem_cons_of_mem o he))
      · rw [hget (hother hmem)] at hbin
        exact .inr (.inr ⟨other, current, List.mem_cons_of_mem o hmem, hbin, heq⟩)
    | some current =>
      rw [hcurrent] at he
      rcases ih hkeys he with he | he | ⟨other, current', hmem, hbin, heq⟩
      · rcases hinsert he with rfl | he
        · exact .inr (.inr ⟨o.2, current, List.mem_cons_self, hcurrent, rfl⟩)
        · exact .inl he
      · exact .inr (.inl (List.mem_cons_of_mem o he))
      · rw [hget (hother hmem)] at hbin
        exact .inr (.inr ⟨other, current', List.mem_cons_of_mem o hmem, hbin, heq⟩)

end Bins

/-! ## Scalars -/

section Scalars

variable [Add F] [Zero F] [DecidableEq F] [LT F] [DecidableLT F] {finite : F → Bool}
  {num : Numerics F (ScalarSums F) M G L} {a b : ScalarAccumulatorState (ScalarSums F)}

theorem validate_withScalars :
    a.validate (withScalars finite num) = .ok () ↔ a.stats.validate finite a.count = .ok () := by
  unfold ScalarAccumulatorState.validate
  rw [bind_unit_ok_iff, ScalarSums.validate_ok_iff, ← validateBins_ok_iff]
  by_cases hcount : a.count < 0
  · simp [hcount]
  · simp only [hcount, if_false, not_lt.1 hcount, true_and]
    exact Iff.rfl

/-- What the check of two states asks. -/
theorem validateMerge_withScalars (h : a.validateMerge (withScalars finite num) b = .ok ()) :
    a.stats.validate finite a.count = .ok () ∧ b.stats.validate finite b.count = .ok () ∧
      a.stats.checkSumsWith finite b.stats = .ok () ∧
      validateMergeBins finite a.stats.discreteBins b.stats.discreteBins = .ok () := by
  unfold ScalarAccumulatorState.validateMerge at h
  split at h
  · cases h
  · obtain ⟨ha, h⟩ := bind_unit_ok_iff.1 h
    obtain ⟨hb, h⟩ := bind_unit_ok_iff.1 h
    obtain ⟨hsums, h⟩ := bind_unit_ok_iff.1 h
    split at h
    · cases h
    · exact ⟨validate_withScalars.1 ha, validate_withScalars.1 hb, hsums, h⟩

/-- A scalar merged after its checks is valid. -/
theorem validate_mergePlain (hzero : ∀ x, finite x = true → finite (0 + x) = true)
    (hkeys : (OrdMap.keys b.stats.discreteBins).Nodup)
    (h : a.validateMerge (withScalars finite num) b = .ok ()) :
    (a.mergePlain (withScalars finite num) b).validate (withScalars finite num) = .ok () := by
  obtain ⟨ha, hb, hsums, hbins⟩ := validateMerge_withScalars h
  obtain ⟨hleft, hcount, hown⟩ := ScalarSums.validate_ok_iff.1 ha
  obtain ⟨-, hother, hothers⟩ := ScalarSums.validate_ok_iff.1 hb
  rw [validateMergeBins_ok_iff] at hbins
  refine validate_withScalars.2 (ScalarSums.validate_ok_iff.2 ⟨?_, ?_, fun e he => ?_⟩)
  · exact ScalarSums.checkSums_add hzero hleft hsums (ScalarSums.sums_merge _ _)
  · exact Int.add_nonneg hcount hother
  · rcases mem_foldl_mergeBin hkeys he with he | he | ⟨other, current, hmem, hget, heq⟩
    · exact hown e he
    · exact hothers e he
    · rw [heq]
      exact ScalarSums.validate_mergePlain hzero (hbins _ hmem current hget)

end Scalars

/-! ## Partitions -/

namespace PartitionDiagnostics

variable {V S : Type} {num : Numerics V S M G L} {p q r : PartitionDiagnostics L}

/-- What a validated partition is. -/
structure Valid (num : Numerics V S M G L) (p : PartitionDiagnostics L) (samples : Int) : Prop where
  partition : num.validatePartition p.partition = .ok ()
  attempts : p.attempts.length = num.centers p.partition
  matched : p.matched.length = num.centers p.partition
  within : ∀ e ∈ p.matched.zip p.attempts, e.1 ≤ e.2
  bound : p.attempts.sum ≤ u64Max
  total : (p.attempts.sum : Int) = samples
  feedback : p.feedbackSamples ≤ p.attempts.sum

theorem validate_ok_iff {samples : Int} : p.validate num samples = .ok () ↔ p.Valid num samples := by
  unfold validate
  rw [bind_unit_ok_iff]
  dsimp only
  constructor
  · rintro ⟨hpartition, h⟩
    split at h
    · cases h
    · rename_i hok
      simp only [not_or, not_not, not_lt, List.any_eq_true, not_exists, not_and,
        decide_eq_true_eq] at hok
      obtain ⟨hattempts, hmatched, hwithin, hbound, htotal, hfeedback⟩ := hok
      exact ⟨hpartition, hattempts, hmatched, hwithin, hbound, htotal, hfeedback⟩
  · intro h
    refine ⟨h.partition, if_neg ?_⟩
    simp only [not_or, not_not, not_lt, List.any_eq_true, not_exists, not_and, decide_eq_true_eq]
    exact ⟨h.attempts, h.matched, h.within, h.bound, h.total, h.feedback⟩

/-- Valid diagnostics are those of one number of samples. -/
theorem Valid.iff_samples {samples others : Int} (h : p.Valid num samples) :
    p.Valid num others ↔ others = samples :=
  ⟨fun h' => h'.total.symm.trans h.total, fun heq => heq ▸ h⟩

theorem addCounts_eq : ∀ {xs ys zs : List Nat}, addCounts xs ys = .ok zs → xs.length = ys.length →
    zs = List.zipWith (· + ·) xs ys
  | [], [], zs, h, _ => by
    cases h
    rfl
  | x :: xs, y :: ys, zs, h, hlen => by
    unfold addCounts at h
    split at h
    · cases h
    · cases hrest : addCounts xs ys with
      | error e =>
        rw [hrest] at h
        cases h
      | ok rest =>
        rw [hrest] at h
        cases h
        rw [addCounts_eq hrest (by simpa using hlen)]
        rfl

theorem sum_zipWith_add : ∀ {xs ys : List Nat}, xs.length = ys.length →
    (List.zipWith (· + ·) xs ys).sum = xs.sum + ys.sum
  | [], [], _ => rfl
  | x :: xs, y :: ys, hlen => by
    rw [List.zipWith_cons_cons, List.sum_cons, sum_zipWith_add (by simpa using hlen), List.sum_cons,
      List.sum_cons]
    omega

theorem zip_zipWith_le : ∀ {ms ns xs ys : List Nat}, (∀ e ∈ ms.zip xs, e.1 ≤ e.2) →
    (∀ e ∈ ns.zip ys, e.1 ≤ e.2) →
    ∀ e ∈ (List.zipWith (· + ·) ms ns).zip (List.zipWith (· + ·) xs ys), e.1 ≤ e.2
  | m :: ms, n :: ns, x :: xs, y :: ys, hm, hn => by
    simp only [List.zip_cons_cons, List.forall_mem_cons, List.zipWith_cons_cons] at hm hn ⊢
    exact ⟨Nat.add_le_add hm.1 hn.1, zip_zipWith_le hm.2 hn.2⟩
  | [], _, _, _, _, _ => by simp
  | _ :: _, [], _, _, _, _ => by simp
  | _ :: _, _ :: _, [], _, _, _ => by simp
  | _ :: _, _ :: _, _ :: _, [], _, _ => by simp

variable [DecidableEq L]

/-- What a successful merge has made. -/
theorem merge_ok (h : p.merge q = .ok r) :
    p.partition = q.partition ∧ r.partition = p.partition ∧
      addCounts p.attempts q.attempts = .ok r.attempts ∧
      addCounts p.matched q.matched = .ok r.matched ∧
      r.feedbackSamples = p.feedbackSamples + q.feedbackSamples := by
  unfold merge at h
  split at h
  · cases h
  · rename_i hpartition
    obtain ⟨attempts, hattempts, h⟩ := bind_eq_ok h
    obtain ⟨matched, hmatched, h⟩ := bind_eq_ok h
    split at h
    · cases h
    · cases h
      exact ⟨not_not.1 hpartition, rfl, hattempts, hmatched, rfl⟩

/-- Merged diagnostics count the samples of both. -/
theorem Valid.merge {samples others : Int} (hp : p.Valid num samples) (hq : q.Valid num others)
    (hbound : samples + others ≤ i64Max) (h : p.merge q = .ok r) : r.Valid num (samples + others) := by
  obtain ⟨hpartition, hr, hattempts, hmatched, hfeedback⟩ := merge_ok h
  have hlen : p.attempts.length = q.attempts.length := by
    rw [hp.attempts, hq.attempts, hpartition]
  have hlen' : p.matched.length = q.matched.length := by
    rw [hp.matched, hq.matched, hpartition]
  have ha := addCounts_eq hattempts hlen
  have hm := addCounts_eq hmatched hlen'
  have hsum : r.attempts.sum = p.attempts.sum + q.attempts.sum := by
    rw [ha, sum_zipWith_add hlen]
  have hptotal := hp.total
  have hqtotal := hq.total
  have hmax : i64Max ≤ (u64Max : Int) := by decide
  refine ⟨hr ▸ hp.partition, ?_, ?_, ?_, ?_, ?_, ?_⟩
  · rw [ha, List.length_zipWith, ← hlen, Nat.min_self, hp.attempts, hr]
  · rw [hm, List.length_zipWith, ← hlen', Nat.min_self, hp.matched, hr]
  · rw [ha, hm]
    exact zip_zipWith_le hp.within hq.within
  · omega
  · rw [hsum, Nat.cast_add]
    omega
  · have hpf := hp.feedback
    have hqf := hq.feedback
    omega

end PartitionDiagnostics

/-! ## Vectors -/

namespace VectorAccumulatorState

variable {V S : Type} {num : Numerics V S M G L} {a b c : VectorAccumulatorState S L}

theorem checkComponents_ok_iff {count : Int} {components : List (NamedScalarAccumulator S)} :
    checkComponents num count components = .ok () ↔
      ∀ c ∈ components, c.state.validate num = .ok () ∧ c.state.count = count := by
  induction components with
  | nil => simp [checkComponents]
  | cons c components ih =>
    rw [checkComponents, bind_unit_ok_iff, List.forall_mem_cons, ← ih]
    split
    · rename_i hcount
      simp [hcount]
    · rename_i hcount
      simp [not_not.1 hcount]

/-- What a validated vector is. -/
structure Valid (num : Numerics V S M G L) (a : VectorAccumulatorState S L) : Prop where
  partition : ∀ p, a.partition = some p → p.Valid num a.sampleCount
  names : a.checkNames = .ok ()
  projected : ∀ p, a.projected = some p → p.state.validate num = .ok ()
  components : ∀ p, a.projected = some p → ∀ c ∈ a.components,
    c.state.validate num = .ok () ∧ c.state.count = p.state.count

theorem validate_ok_iff : a.validate num = .ok () ↔ a.Valid num := by
  have hvalid : a.Valid num ↔ (∀ p, a.partition = some p → p.Valid num a.sampleCount) ∧
      a.checkNames = .ok () ∧ ∀ p, a.projected = some p → p.state.validate num = .ok () ∧
        ∀ c ∈ a.components, c.state.validate num = .ok () ∧ c.state.count = p.state.count := by
    constructor
    · intro h
      exact ⟨h.partition, h.names, fun p hp => ⟨h.projected p hp, h.components p hp⟩⟩
    · rintro ⟨hp, hn, hall⟩
      exact ⟨hp, hn, fun p h => (hall p h).1, fun p h => (hall p h).2⟩
  rw [hvalid]
  unfold validate
  cases a.checkNames with
  | error e => cases a.partition <;> simp [bind_unit_ok_iff]
  | ok u =>
    cases a.projected with
    | none =>
      cases a.partition <;> simp [bind_unit_ok_iff, PartitionDiagnostics.validate_ok_iff]
    | some p =>
      cases a.partition <;>
        simp [bind_unit_ok_iff, PartitionDiagnostics.validate_ok_iff, checkComponents_ok_iff]

theorem validateMergeAll_ok : ∀ {as bs : List (NamedScalarAccumulator S)},
    validateMergeAll num as bs = .ok () →
      ∀ e ∈ as.zip bs, e.1.state.validateMerge num e.2.state = .ok ()
  | a :: as, b :: bs, h => by
    rw [validateMergeAll, bind_unit_ok_iff] at h
    exact List.forall_mem_cons.2 ⟨h.1, validateMergeAll_ok h.2⟩
  | [], _, _ => by simp
  | _ :: _, [], _ => by simp

variable [DecidableEq L]

/-- What the check of two vectors asks. -/
theorem validateMerge_parts (h : a.validateMerge num b = .ok ()) :
    ¬(0 < a.sampleCount ∧ 0 < b.sampleCount ∧
        a.partition.map (·.partition) ≠ b.partition.map (·.partition)) ∧
      a.Valid num ∧ b.Valid num ∧ validateMergeAll num a.components b.components = .ok () ∧
      ∀ p q, a.projected = some p → b.projected = some q →
        p.state.validateMerge num q.state = .ok () := by
  unfold validateMerge at h
  split at h
  · cases h
  · rename_i hpartition
    obtain ⟨ha, h⟩ := bind_unit_ok_iff.1 h
    obtain ⟨hb, h⟩ := bind_unit_ok_iff.1 h
    split at h
    · cases h
    · obtain ⟨hall, h⟩ := bind_unit_ok_iff.1 h
      refine ⟨hpartition, validate_ok_iff.1 ha, validate_ok_iff.1 hb, hall, fun p q hp hq => ?_⟩
      rwa [hp, hq] at h

theorem merge_ok (h : a.merge num b = .ok c) :
    a.validateMerge num b = .ok () ∧ mergePartition a.partition b.partition = .ok c.partition ∧
      c.components = List.zipWith (mergeNamed num) a.components b.components ∧
      c.projection = (match a.projection, b.projection with
        | .norm p, .norm q => .norm (mergeNamed num p q)
        | p, _ => p) := by
  unfold merge at h
  obtain ⟨⟨⟩, hvalid, h⟩ := bind_eq_ok h
  obtain ⟨partition, hpartition, h⟩ := bind_eq_ok h
  cases h
  exact ⟨hvalid, hpartition, rfl, rfl⟩

omit [DecidableEq L] in
/-- A validated projection names a component. -/
theorem exists_projected (h : a.checkNames = .ok ()) : ∃ p, a.projected = some p := by
  unfold projected
  cases hprojection : a.projection with
  | norm p => exact ⟨p, rfl⟩
  | component name =>
    have hmem : name ∈ a.components.map (·.name) := by
      unfold checkNames projectionSpec at h
      rw [hprojection] at h
      exact AccumulatorConfig.mem_of_validate h
    obtain ⟨p, hp, hname⟩ := List.mem_map.1 hmem
    dsimp only
    cases hfind : a.components.find? (·.name == name) with
    | some q => exact ⟨q, rfl⟩
    | none =>
      have hnot := List.find?_eq_none.1 hfind p hp
      simp [hname] at hnot

omit [DecidableEq L] in
theorem sampleCount_eq {p : NamedScalarAccumulator S} (h : a.projected = some p) :
    a.sampleCount = p.state.count := by
  unfold sampleCount
  rw [h]
  rfl

omit [DecidableEq L] in
theorem map_name_zipWith : ∀ {as bs : List (NamedScalarAccumulator S)}, as.length = bs.length →
    (List.zipWith (mergeNamed num) as bs).map (·.name) = as.map (·.name)
  | [], [], _ => rfl
  | a :: as, b :: bs, h => by
    rw [List.zipWith_cons_cons, List.map_cons, map_name_zipWith (by simpa using h)]
    rfl

/-- The diagnostics of the merged state count its samples when both states have some, or the one
without counts none. -/
def Coherent (a b : VectorAccumulatorState S L) : Prop :=
  (a.partition.isSome → b.partition.isSome ∨ b.sampleCount = 0) ∧
    (b.partition.isSome → a.partition.isSome ∨ a.sampleCount = 0)

/-- What every scalar has, the vector has besides its partition. -/
theorem merge_valid_iff
    (hscalar : ∀ x ∈ a.components.zip b.components, x.1.state.validateMerge num x.2.state = .ok () →
      (mergeNamed num x.1 x.2).state.validate num = .ok ())
    (hnorm : ∀ p q, a.projection = .norm p → b.projection = .norm q →
      p.state.validateMerge num q.state = .ok () → (mergeNamed num p q).state.validate num = .ok ())
    (h : a.merge num b = .ok c) : c.validate num = .ok () ↔ a.Coherent b := by
  obtain ⟨hchecked, hpartition, hcomponents, hprojection⟩ := merge_ok h
  obtain ⟨-, ha, hb, hall, hprojected⟩ := validateMerge_parts hchecked
  obtain ⟨hsame, hnames⟩ := validateMerge_ok num hchecked
  obtain ⟨p, hp⟩ := exists_projected ha.names
  obtain ⟨q, hq⟩ := exists_projected hb.names
  have hsum := merge_sampleCount num h
  have hpq := ScalarAccumulatorState.validateMerge_count (hprojected p q hp hq)
  have hpairs : ∀ e ∈ c.components, ∃ x ∈ a.components.zip b.components,
      e = mergeNamed num x.1 x.2 := by
    intro e he
    rw [hcomponents, ← List.map_uncurry_zip_eq_zipWith] at he
    obtain ⟨x, hx, rfl⟩ := List.mem_map.1 he
    exact ⟨x, hx, rfl⟩
  have hvalid : ∀ e ∈ c.components, e.state.validate num = .ok () := by
    intro e he
    obtain ⟨x, hx, rfl⟩ := hpairs e he
    exact hscalar x hx (validateMergeAll_ok hall x hx)
  have hcounts : ∀ e ∈ c.components, e.state.count = p.state.count + q.state.count := by
    intro e he
    obtain ⟨x, hx, rfl⟩ := hpairs e he
    obtain ⟨hx₁, hx₂⟩ := List.of_mem_zip (show (x.1, x.2) ∈ _ from hx)
    show x.1.state.count + x.2.state.count = _
    rw [(ha.components p hp _ hx₁).2, (hb.components q hq _ hx₂).2]
  have hlen : a.components.length = b.components.length := by
    simpa using congrArg List.length hnames
  have hcnames : c.checkNames = .ok () := by
    have hspec : c.projectionSpec = a.projectionSpec := by
      unfold projectionSpec
      rw [hprojection]
      cases a.projection <;> cases b.projection <;> rfl
    unfold checkNames
    rw [hspec, hcomponents, map_name_zipWith hlen]
    exact ha.names
  have hcprojected : ∀ r, c.projected = some r → r.state.validate num = .ok () := by
    intro r hr
    unfold projected at hr
    rw [hprojection] at hr
    cases hap : a.projection with
    | component name =>
      rw [hap] at hr
      exact hvalid r (List.mem_of_find?_eq_some hr)
    | norm p' =>
      cases hbp : b.projection with
      | component name =>
        unfold sameProjection at hsame
        rw [hap, hbp] at hsame
        cases hsame
      | norm q' =>
        rw [hap, hbp] at hr
        cases hr
        have hp' : a.projected = some p' := by
          unfold projected
          rw [hap]
        have hq' : b.projected = some q' := by
          unfold projected
          rw [hbp]
        exact hnorm p' q' hap hbp (hprojected p' q' hp' hq')
  have hrest : c.Valid num ↔ ∀ r, c.partition = some r → r.Valid num c.sampleCount :=
    ⟨fun hc => hc.partition, fun hc => ⟨hc, hcnames, hcprojected, fun r hr e he =>
      ⟨hvalid e he, by
        rw [hcounts e he, ← sampleCount_eq hr, hsum, sampleCount_eq hp, sampleCount_eq hq]⟩⟩⟩
  rw [validate_ok_iff, hrest, hsum]
  have hbound : a.sampleCount + b.sampleCount ≤ i64Max := by
    rw [sampleCount_eq hp, sampleCount_eq hq]
    exact hpq
  -- the rule for the option, case by case
  unfold Coherent
  cases hl : a.partition with
  | none =>
    cases hr : b.partition with
    | none =>
      rw [hl, hr] at hpartition
      rw [← Except.ok.inj hpartition]
      simp
    | some right =>
      rw [hl, hr] at hpartition
      rw [← Except.ok.inj hpartition]
      simp only [Option.some.injEq, forall_eq', (hb.partition right hr).iff_samples]
      simp
  | some left =>
    cases hr : b.partition with
    | none =>
      rw [hl, hr] at hpartition
      rw [← Except.ok.inj hpartition]
      simp only [Option.some.injEq, forall_eq', (ha.partition left hl).iff_samples]
      simp
    | some right =>
      rw [hl, hr] at hpartition
      cases hmerged : left.merge right with
      | error e =>
        rw [mergePartition, hmerged] at hpartition
        cases hpartition
      | ok merged =>
        rw [mergePartition, hmerged] at hpartition
        rw [← Except.ok.inj hpartition]
        have hmergedValid := (ha.partition left hl).merge (hb.partition right hr) hbound hmerged
        simp [hmergedValid]

end VectorAccumulatorState

/-! ## The vectors of the source -/

namespace VectorAccumulatorState

/-- The bins of every stream are a map. -/
structure Keyed (a : VectorAccumulatorState (ScalarSums F) L) : Prop where
  components : ∀ c ∈ a.components, (OrdMap.keys c.state.stats.discreteBins).Nodup
  norm : ∀ p, a.projection = .norm p → (OrdMap.keys p.state.stats.discreteBins).Nodup

/-- A merged vector passes its own check exactly when the diagnostics of the parts cover the
samples of both. -/
theorem merged_validates_iff [Add F] [Zero F] [DecidableEq F] [LT F] [DecidableLT F]
    [DecidableEq L] (finite : F → Bool) (num : Numerics F (ScalarSums F) M G L)
    (hzero : ∀ x, finite x = true → finite (0 + x) = true)
    {a b c : VectorAccumulatorState (ScalarSums F) L} (hkeys : b.Keyed)
    (h : a.merge (withScalars finite num) b = .ok c) :
    c.validate (withScalars finite num) = .ok () ↔ a.Coherent b := by
  refine merge_valid_iff (fun x hx hchecked => ?_) (fun p q _ hq hchecked => ?_) h
  · have hmem := (List.of_mem_zip (show (x.1, x.2) ∈ _ from hx)).2
    exact validate_mergePlain hzero (hkeys.components x.2 hmem) hchecked
  · exact validate_mergePlain hzero (hkeys.norm q hq) hchecked

end VectorAccumulatorState

/-! ## A state that counts nothing, with diagnostics -/

def partitionNumerics : Numerics ℚ (ScalarSums ℚ) Unit Unit (StratificationConfig ℚ) where
  finite _ := true
  sameConfig _ _ := true
  checkSums _ := .ok ()
  checkSumsWith _ _ := .ok ()
  checkBins _ := .ok ()
  checkBinsWith _ _ := .ok ()
  mergeStats s _ := s
  momentsOk _ _ := true
  mergeMoments _ _ m _ := m
  nativeCount _ := 0
  validateNative _ := .ok ()
  validateNativeSamples _ _ := .ok ()
  mergeNative g _ := (g, none)
  validatePartition p := p.validate
  centers p := p.centers.length
  isNative _ := false

def twoStrata : StratificationConfig ℚ := ⟨.rectangular 1 [2] 0, [([0], [1]), ([1], [-1])], none⟩

/-- One component that has counted so many samples of value one. -/
def countedVector (count : Nat) (partition : Option (PartitionDiagnostics (StratificationConfig ℚ))) :
    VectorAccumulatorState (ScalarSums ℚ) (StratificationConfig ℚ) where
  components :=
    [⟨"value", count, { ScalarSums.plain with
      sumWeightedValue := count, sumAbs := count, sumSq := count }⟩]
  partition
  projection := .component "value"

/-- The diagnostics of an empty batch. -/
def noAttempts : PartitionDiagnostics (StratificationConfig ℚ) := ⟨twoStrata, [0, 0], [0, 0], 0⟩

def partitionScalars : Numerics ℚ (ScalarSums ℚ) Unit Unit (StratificationConfig ℚ) :=
  withScalars (fun _ => true) partitionNumerics

/-- Merged into diagnostics that count nothing, samples without diagnostics are not counted. -/
theorem merged_state_invalid :
    ¬∀ a b c : VectorAccumulatorState (ScalarSums ℚ) (StratificationConfig ℚ),
      a.validate partitionScalars = .ok () → b.validate partitionScalars = .ok () →
        a.merge partitionScalars b = .ok c → c.validate partitionScalars = .ok () := by
  intro h
  have ha : (countedVector 0 (some noAttempts)).validate partitionScalars = .ok () := by
    decide +kernel
  have hb : (countedVector 1 none).validate partitionScalars = .ok () := by decide +kernel
  have hbad : (((countedVector 0 (some noAttempts)).merge partitionScalars (countedVector 1 none)).map
      fun c => (c.validate partitionScalars).isOk) = .ok false := by decide +kernel
  cases hmerge : (countedVector 0 (some noAttempts)).merge partitionScalars (countedVector 1 none) with
  | error e =>
    rw [hmerge] at hbad
    cases hbad
  | ok c =>
    rw [hmerge] at hbad
    have hc := h _ _ c ha hb hmerge
    simp [Except.map, hc, Except.isOk, Except.toBool] at hbad

theorem merged_validates_empty :
    ∃ c, (countedVector 0 none).merge partitionScalars (countedVector 2 none) = .ok c ∧
      (c.validate partitionScalars = .ok () ↔ (countedVector 0 none).Coherent (countedVector 2 none)) := by
  have hok : ((countedVector 0 none).merge partitionScalars (countedVector 2 none)).isOk = true := by
    decide +kernel
  cases hmerge : (countedVector 0 none).merge partitionScalars (countedVector 2 none) with
  | error e =>
    rw [hmerge] at hok
    cases hok
  | ok c =>
    refine ⟨c, rfl, VectorAccumulatorState.merged_validates_iff (fun _ => true) partitionNumerics
      (fun _ _ => rfl) ⟨?_, fun p hp => by cases hp⟩ hmerge⟩
    intro e he
    cases List.mem_singleton.1 he
    exact List.nodup_nil

end Gammaboard.Evaluation
