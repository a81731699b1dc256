import Gammaboard.Evaluation.StratumMoments
import Gammaboard.Lib.Accumulation
import Gammaboard.Lib.Moments

/-!
# Moments of a split list

The two passes over a list of samples, and the moments of a stratum as these: a
sample pushed and two parts merged keep them, so they do not depend on how the
list was split. From the strata follow the estimates over all of them.
-/

namespace Gammaboard.Evaluation

open Gammaboard.Core Gammaboard.Sampling Gammaboard.Lib

variable {K S : Type} [Field K] {width : Nat}

/-! ## The two passes -/


/-- The mean of every column. -/
def means (width : Nat) (columns : S → List K) (l : List S) : List K :=
  (List.range width).map fun i => Moments.mean (fun x => (columns x).getD i 0) l

/-- The second central moment of every two columns, row by row. -/
def comoments (width : Nat) (columns : S → List K) (l : List S) : List K :=
  (List.range (width * width)).map fun k =>
    Moments.central (fun x => (columns x).getD (k / width) 0)
      (fun x => (columns x).getD (k % width) 0) l

theorem means_perm {columns : S → List K} {l l' : List S} (h : l.Perm l') :
    means width columns l = means width columns l' :=
  List.map_congr_left fun _ _ => Moments.mean_perm h

theorem comoments_perm {columns : S → List K} {l l' : List S} (h : l.Perm l') :
    comoments width columns l = comoments width columns l' :=
  List.map_congr_left fun _ _ => Moments.central_perm h

/-- The moments of a stratum are those of a list of samples. -/
structure Summarizes (width : Nat) (columns : S → List K) (matched : S → Bool) (l : List S)
    (s : StratumMoments (MomentValues K)) : Prop where
  attempts : s.attempts = l.length
  matched : s.matched = l.countP matched
  mean : s.moments.mean = means width columns l
  m2 : s.moments.m2 = comoments width columns l
  extrema : s.moments.extrema.length = width

theorem Summarizes.perm {columns : S → List K} {matched : S → Bool} {l l' : List S}
    {s : StratumMoments (MomentValues K)} (hs : Summarizes width columns matched l s)
    (h : l.Perm l') : Summarizes width columns matched l' s :=
  ⟨hs.attempts.trans h.length_eq, hs.matched.trans (h.countP_eq _), hs.mean.trans (means_perm h),
    hs.m2.trans (comoments_perm h), hs.extrema⟩

variable (columns : S → List K)

@[simp] theorem length_means (l : List S) : (means width columns l).length = width := by
  simp [means]

@[simp] theorem length_comoments (l : List S) :
    (comoments width columns l).length = width * width := by
  simp [comoments]

theorem means_getD {i : Nat} (h : i < width) (l : List S) :
    (means width columns l).getD i 0 = Moments.mean (fun x => (columns x).getD i 0) l := by
  simp [means, h]

theorem comoments_getD {k : Nat} (h : k < width * width) (l : List S) :
    (comoments width columns l).getD k 0 =
      Moments.central (fun x => (columns x).getD (k / width) 0)
        (fun x => (columns x).getD (k % width) 0) l := by
  simp [comoments, h]

/-- Both places of a moment lie in the columns. -/
theorem div_mod_lt {k : Nat} (h : k < width * width) : k / width < width ∧ k % width < width := by
  have hpos : 0 < width := Nat.pos_of_mul_pos_left (Nat.zero_lt_of_lt h)
  exact ⟨Nat.div_lt_of_lt_mul h, Nat.mod_lt k hpos⟩

/-- The place of a variance. -/
theorem diagonal {i : Nat} (h : i < width) :
    i * width + i < width * width ∧ (i * width + i) / width = i ∧ (i * width + i) % width = i := by
  have hrow : (i + 1) * width ≤ width * width := Nat.mul_le_mul_right width h
  rw [Nat.add_mul, Nat.one_mul] at hrow
  refine ⟨by omega, ?_, ?_⟩
  · rw [Nat.mul_comm, Nat.mul_add_div (by omega), Nat.div_eq_of_lt h, Nat.add_zero]
  · rw [Nat.mul_comm, Nat.mul_add_mod, Nat.mod_eq_of_lt h]

theorem zipWith_getD {α β γ : Type} (f : α → β → γ) {l : List α} {m : List β} {i : Nat}
    (hl : i < l.length) (hm : i < m.length) (a : α) (b : β) (c : γ) :
    (List.zipWith f l m).getD i c = f (l.getD i a) (m.getD i b) := by
  simp [hl, hm]

theorem list_ext_getD {l m : List K} (hlen : l.length = m.length)
    (h : ∀ i < l.length, l.getD i 0 = m.getD i 0) : l = m := by
  refine List.ext_getElem hlen fun i hl hm => ?_
  have := h i hl
  rwa [List.getD_eq_getElem?_getD, List.getD_eq_getElem?_getD, List.getElem?_eq_getElem hl,
    List.getElem?_eq_getElem hm] at this

theorem mapIdx_getD (f : Nat → K → K) {l : List K} {k : Nat} (h : k < l.length) :
    (l.mapIdx f).getD k 0 = f k (l.getD k 0) := by
  simp [h]

variable [LinearOrder K] [IsStrictOrderedRing K] {columns}

/-! ## One stratum -/

section Push

variable {l : List S} {x : S}

omit [LinearOrder K] [IsStrictOrderedRing K] in
theorem deviation_getD {i : Nat} (h : i < width) (hx : (columns x).length = width) :
    (List.zipWith (· - ·) (columns x) (means width columns l)).getD i 0 =
      (columns x).getD i 0 - Moments.mean (fun y => (columns y).getD i 0) l := by
  rw [zipWith_getD _ (by rwa [hx]) (by rwa [length_means]) 0 0, means_getD columns h]

/-- The means with a new sample, from its deviations. -/
theorem means_concat (hx : (columns x).length = width) :
    List.zipWith (fun m d => m + d / ((l.length + 1 : Nat) : K)) (means width columns l)
        (List.zipWith (· - ·) (columns x) (means width columns l)) =
      means width columns (l ++ [x]) := by
  refine list_ext_getD (by simp [hx]) fun i hi => ?_
  have h : i < width := by simpa [hx] using hi
  rw [zipWith_getD _ (by rwa [length_means]) (by simpa [hx] using h) 0 0, deviation_getD h hx,
    means_getD columns h, means_getD columns h, Moments.mean_concat, Nat.cast_add_one]

theorem comoments_concat (hx : (columns x).length = width) :
    ((comoments width columns l).mapIdx fun k v =>
        v + (List.zipWith (· - ·) (columns x) (means width columns l)).getD (k / width) 0 *
          ((columns x).getD (k % width) 0 - (means width columns (l ++ [x])).getD (k % width) 0)) =
      comoments width columns (l ++ [x]) := by
  refine list_ext_getD (by simp) fun k hk => ?_
  have h : k < width * width := by simpa using hk
  obtain ⟨hdiv, hmod⟩ := div_mod_lt h
  rw [mapIdx_getD _ (by simpa using h), comoments_getD columns h, comoments_getD columns h,
    deviation_getD hdiv hx, means_getD columns hmod, Moments.central_concat]

variable {matched : S → Bool} {s s' : StratumMoments (MomentValues K)}

/-- A sample pushed. -/
theorem push_summarizes (hs : Summarizes width columns matched l s)
    (h : s.push (columns x) (matched x) = .ok s') :
    Summarizes width columns matched (l ++ [x]) s' := by
  unfold StratumMoments.push at h
  split at h
  · cases h
  · rename_i hlen
    split at h
    · cases h
    · rw [not_not, hs.mean, length_means] at hlen
      have hnext := means_concat (l := l) hlen
      cases h
      refine ⟨by simp [hs.attempts], ?_, ?_, ?_, hs.extrema⟩
      · rw [List.countP_append, ← hs.matched]
        cases hm : matched x <;> simp [hm]
      · rw [hs.mean, hs.attempts, hnext]
      · rw [hs.mean, hs.attempts, hs.m2, hnext, length_means, comoments_concat hlen]

omit [LinearOrder K] [IsStrictOrderedRing K] in
/-- A sample is pushed where it has a value for each column and the count fits. -/
theorem push_ok (hs : Summarizes width columns matched l s) :
    (∃ s', s.push (columns x) (matched x) = .ok s') ↔
      (columns x).length = width ∧ l.length + 1 ≤ PartitionDiagnostics.u64Max := by
  unfold StratumMoments.push
  rw [hs.mean, hs.attempts, length_means]
  split
  · rename_i hlen
    simp [hlen]
  · rename_i hlen
    split
    · rename_i hcount
      simp only [reduceCtorEq, exists_false, false_iff]
      omega
    · rename_i hcount
      simp only [Except.ok.injEq, exists_eq', true_iff]
      omega

end Push

section Merge

variable {l l' : List S}

omit [LinearOrder K] [IsStrictOrderedRing K] in
theorem difference_getD {i : Nat} (h : i < width) :
    (List.zipWith (· - ·) (means width columns l') (means width columns l)).getD i 0 =
      Moments.mean (fun y => (columns y).getD i 0) l' -
        Moments.mean (fun y => (columns y).getD i 0) l := by
  rw [zipWith_getD _ (by rwa [length_means]) (by rwa [length_means]) 0 0, means_getD columns h,
    means_getD columns h]

theorem means_append (hl : l ≠ []) :
    List.zipWith (fun m d => m + d * (l'.length : K) / ((l.length + l'.length : Nat) : K))
        (means width columns l)
        (List.zipWith (· - ·) (means width columns l') (means width columns l)) =
      means width columns (l ++ l') := by
  refine list_ext_getD (by simp) fun i hi => ?_
  have h : i < width := by simpa using hi
  rw [zipWith_getD _ (by rwa [length_means]) (by simpa using h) 0 0, difference_getD h,
    means_getD columns h, means_getD columns h, Moments.mean_append hl, Nat.cast_add]

theorem comoments_append (hl : l ≠ []) :
    ((comoments width columns l).mapIdx fun k v =>
        v + ((comoments width columns l').getD k 0 +
          (List.zipWith (· - ·) (means width columns l') (means width columns l)).getD (k / width) 0 *
          (List.zipWith (· - ·) (means width columns l') (means width columns l)).getD (k % width) 0 *
            ((l.length : K) / ((l.length + l'.length : Nat) : K)) * (l'.length : K))) =
      comoments width columns (l ++ l') := by
  refine list_ext_getD (by simp) fun k hk => ?_
  have h : k < width * width := by simpa using hk
  obtain ⟨hdiv, hmod⟩ := div_mod_lt h
  rw [mapIdx_getD _ (by simpa using h), comoments_getD columns h, comoments_getD columns h,
    comoments_getD columns h, difference_getD hdiv, difference_getD hmod, Moments.central_append hl,
    Nat.cast_add]

variable {V R G : Type} {matched : S → Bool} {s t u : StratumMoments (MomentValues K)}
  {num : Numerics V R (MomentValues K) G (StratifiedLayout K)}

/-- Two parts merged. -/
theorem merge_summarizes (hs : Summarizes width columns matched l s)
    (ht : Summarizes width columns matched l' t)
    (h : StratifiedAccumulatorState.mergeStratum (withMoments num) s t = .ok u) :
    Summarizes width columns matched (l ++ l') u := by
  unfold StratifiedAccumulatorState.mergeStratum at h
  split at h
  · rename_i hempty
    rw [ht.attempts, List.length_eq_zero_iff] at hempty
    cases h
    rwa [hempty, List.append_nil]
  · split at h
    · rename_i hempty
      rw [hs.attempts, List.length_eq_zero_iff] at hempty
      cases h
      rwa [hempty, List.nil_append]
    · rename_i hne
      have hl : l ≠ [] := by
        rintro rfl
        exact hne hs.attempts
      split at h
      · cases h
      · cases h
        refine ⟨by simp [hs.attempts, ht.attempts], ?_, ?_, ?_, ?_⟩
        · rw [List.countP_append, ← hs.matched, ← ht.matched]
        · rw [← means_append hl, ← hs.mean, ← ht.mean, ← hs.attempts, ← ht.attempts]
          rfl
        · rw [← comoments_append hl, ← hs.mean, ← ht.mean, ← hs.m2, ← ht.m2, ← hs.attempts,
            ← ht.attempts]
          simp only [withMoments, MomentValues.merge]
          rw [hs.mean, length_means]
        · simp [withMoments, MomentValues.merge, hs.extrema, ht.extrema]

omit [IsStrictOrderedRing K] in
theorem merge_ok (hs : Summarizes width columns matched l s)
    (ht : Summarizes width columns matched l' t) :
    (∃ u, StratifiedAccumulatorState.mergeStratum (withMoments num) s t = .ok u) ↔
      (l ≠ [] → l' ≠ [] → (l ++ l').length ≤ PartitionDiagnostics.u64Max) := by
  unfold StratifiedAccumulatorState.mergeStratum
  rw [hs.attempts, ht.attempts]
  split
  · rename_i hempty
    simp [List.length_eq_zero_iff.1 hempty]
  · split
    · rename_i hempty
      simp [List.length_eq_zero_iff.1 hempty]
    · rename_i hl' hl
      rw [List.length_eq_zero_iff] at hl hl'
      split
      · rename_i hcount
        simp only [reduceCtorEq, exists_false, false_iff]
        intro h
        have := h hl hl'
        rw [List.length_append] at this
        omega
      · rename_i hcount
        simp only [Except.ok.injEq, exists_eq', true_iff]
        intro _ _
        rw [List.length_append]
        omega

end Merge

omit [LinearOrder K] [IsStrictOrderedRing K] in
theorem new_summarizes {matched : S → Bool} :
    Summarizes width columns matched [] (StratumMoments.new (K := K) width) := by
  refine ⟨rfl, rfl, ?_, ?_, by simp [StratumMoments.new]⟩
  · refine list_ext_getD (by simp [StratumMoments.new]) fun i hi => ?_
    have h : i < width := by simpa [StratumMoments.new] using hi
    rw [means_getD columns h]
    simp [StratumMoments.new, Moments.mean, h]
  · refine list_ext_getD (by simp [StratumMoments.new]) fun k hk => ?_
    have h : k < width * width := by simpa [StratumMoments.new] using hk
    rw [comoments_getD columns h]
    simp [StratumMoments.new, Moments.central, h]

/-! ## Accumulations of one stratum -/

section Stratum

variable {V R G : Type} (num : Numerics V R (MomentValues K) G (StratifiedLayout K))
  (width : Nat)

/-- Contributions of a stratum pushed and merged. -/
def accumulateStratum (tree : Accumulation (List K × Bool)) :
    Except EngineError (StratumMoments (MomentValues K)) :=
  tree.run (.ok (.new width)) (fun s x => s.push x.1 x.2)
    (StratifiedAccumulatorState.mergeStratum (withMoments num))

/-- The contributions have a value for each column and can be counted. -/
def Countable (l : List (List K × Bool)) : Prop :=
  (∀ x ∈ l, x.1.length = width) ∧ l.length ≤ PartitionDiagnostics.u64Max

omit [Field K] [IsStrictOrderedRing K] [LinearOrder K] in
theorem Countable.append_iff {l l' : List (List K × Bool)} :
    Countable width (l ++ l') ↔ (∀ x ∈ l, x.1.length = width) ∧ (∀ x ∈ l', x.1.length = width) ∧
      l.length + l'.length ≤ PartitionDiagnostics.u64Max := by
  unfold Countable
  rw [List.forall_mem_append, List.length_append, and_assoc]

theorem stratum_keeps :
    Accumulation.Keeps (.ok (.new width)) (fun s x => s.push x.1 x.2)
      (StratifiedAccumulatorState.mergeStratum (withMoments num))
      (fun (l : List (List K × Bool)) s =>
        Summarizes width Prod.fst Prod.snd l s ∧ Countable width l) where
  init h := by
    cases h
    exact ⟨new_summarizes, by simp, Nat.zero_le _⟩
  push := by
    rintro l s x s' ⟨hs, hl⟩ h
    obtain ⟨hx, hcount⟩ := (push_ok hs).1 ⟨s', h⟩
    refine ⟨push_summarizes hs h, (Countable.append_iff width).2 ⟨hl.1, ?_, hcount⟩⟩
    intro y hy
    rw [List.mem_singleton.1 hy, hx]
  merge := by
    rintro l s l' t u ⟨hs, hl⟩ ⟨ht, hl'⟩ h
    refine ⟨merge_summarizes hs ht h, (Countable.append_iff width).2 ⟨hl.1, hl'.1, ?_⟩⟩
    have hcount := (merge_ok hs ht).1 ⟨u, h⟩
    rw [List.length_append] at hcount
    have hleft := hl.2
    have hright := hl'.2
    cases l with
    | nil => simpa using hright
    | cons x l =>
      cases l' with
      | nil => simpa using hleft
      | cons y l' => exact hcount (List.cons_ne_nil x l) (List.cons_ne_nil y l')

omit [IsStrictOrderedRing K] in
theorem stratum_succeeds :
    Accumulation.Succeeds (.ok (.new width)) (fun s x => s.push x.1 x.2)
      (StratifiedAccumulatorState.mergeStratum (withMoments num))
      (fun (l : List (List K × Bool)) s =>
        Summarizes width Prod.fst Prod.snd l s ∧ Countable width l) (Countable width) where
  left h := by
    obtain ⟨hl, -, hcount⟩ := (Countable.append_iff width).1 h
    exact ⟨hl, by omega⟩
  right h := by
    obtain ⟨-, hl', hcount⟩ := (Countable.append_iff width).1 h
    exact ⟨hl', by omega⟩
  init _ := ⟨_, rfl⟩
  push := by
    rintro l s x ⟨hs, -⟩ h
    obtain ⟨-, hx, hcount⟩ := (Countable.append_iff width).1 h
    exact (push_ok hs).2 ⟨hx x List.mem_cons_self, hcount⟩
  merge := by
    rintro l s l' t ⟨hs, -⟩ ⟨ht, -⟩ h
    exact (merge_ok hs ht).2 fun _ _ => h.2

/-- However the contributions are split, they are accumulated exactly if each has a value for
each column and they can be counted, and the moments are those of the whole list. -/
theorem accumulateStratum_ok (tree : Accumulation (List K × Bool)) :
    ((∃ s, accumulateStratum num width tree = .ok s) ↔ Countable width tree.samples) ∧
      ∀ s, accumulateStratum num width tree = .ok s →
        Summarizes width Prod.fst Prod.snd tree.samples s := by
  have hkeeps : ∀ s, accumulateStratum num width tree = .ok s →
      Summarizes width Prod.fst Prod.snd tree.samples s ∧ Countable width tree.samples :=
    fun s h => (stratum_keeps num width).run h
  refine ⟨⟨fun ⟨s, h⟩ => (hkeeps s h).2, fun h => ?_⟩, fun s h => (hkeeps s h).1⟩
  exact (stratum_succeeds num width).run (stratum_keeps num width) h

end Stratum

end Gammaboard.Evaluation
