import Gammaboard.Evaluation.VectorMerge

/-!
# Merging in place

The merges as the source runs them: a field at a time, with the state they
leave behind when one of the steps fails. For a vector the first check is
enough: after it only the partitions can still be refused, and they are merged
before anything has changed.
-/

namespace Gammaboard.Evaluation

open Gammaboard.Core

variable {V S M G L : Type}

/-- The state a computation on a copy leaves. -/
def replaced {α : Type} (state : α) : Except EngineError α → α × Option EngineError
  | .ok merged => (merged, none)
  | .error e => (state, some e)

/-! ## Partitions -/

namespace PartitionDiagnostics

/-- The counts that were added before one overflowed stay added. -/
def addCountsInto : List Nat → List Nat → List Nat × Option EngineError
  | a :: as, b :: bs =>
    if u64Max < a + b then (a :: as, some (.eval "partition count overflow"))
    else
      let (rest, e) := addCountsInto as bs
      ((a + b) :: rest, e)
  | as, _ => (as, none)

def mergeInto [DecidableEq L] (p q : PartitionDiagnostics L) :
    PartitionDiagnostics L × Option EngineError :=
  if p.partition ≠ q.partition then
    (p, some (.eval "partition diagnostics cannot merge different partitions"))
  else
    match addCountsInto p.attempts q.attempts with
    | (attempts, some e) => ({ p with attempts }, some e)
    | (attempts, none) =>
      match addCountsInto p.matched q.matched with
      | (matched, some e) => ({ p with attempts, matched }, some e)
      | (matched, none) =>
        if u64Max < p.feedbackSamples + q.feedbackSamples then
          ({ p with attempts, matched }, some (.eval "feedback count overflow"))
        else
          ({ p with attempts, matched, feedbackSamples := p.feedbackSamples + q.feedbackSamples },
            none)

/-- The counts of both. -/
def sum (p q : PartitionDiagnostics L) : PartitionDiagnostics L :=
  ⟨p.partition, List.zipWith (· + ·) p.attempts q.attempts,
    List.zipWith (· + ·) p.matched q.matched, p.feedbackSamples + q.feedbackSamples⟩

/-- Counts whose total fits are added without an overflow. -/
theorem addCounts_fit : ∀ {xs ys : List Nat}, xs.length = ys.length → xs.sum + ys.sum ≤ u64Max →
    addCountsInto xs ys = (List.zipWith (· + ·) xs ys, none) ∧
      addCounts xs ys = .ok (List.zipWith (· + ·) xs ys)
  | [], [], _, _ => ⟨rfl, rfl⟩
  | x :: xs, y :: ys, hlen, hsum => by
    rw [List.sum_cons, List.sum_cons] at hsum
    obtain ⟨hinto, hadd⟩ := @addCounts_fit xs ys (by simpa using hlen) (by omega)
    unfold addCountsInto addCounts
    rw [if_neg (by omega), if_neg (by omega), hinto, hadd]
    exact ⟨rfl, rfl⟩

theorem sum_le_of_zip : ∀ {ms ns : List Nat}, ms.length = ns.length →
    (∀ e ∈ ms.zip ns, e.1 ≤ e.2) → ms.sum ≤ ns.sum
  | [], [], _, _ => le_rfl
  | m :: ms, n :: ns, hlen, h => by
    rw [List.zip_cons_cons, List.forall_mem_cons] at h
    have hrest := sum_le_of_zip (by simpa using hlen) h.2
    rw [List.sum_cons, List.sum_cons]
    exact Nat.add_le_add h.1 hrest

variable [DecidableEq L] {num : Numerics V S M G L} {p q : PartitionDiagnostics L}

/-- Valid diagnostics of one partition, of no more samples than can be counted, are merged. -/
theorem merge_fits {samples others : Int} (hp : p.Valid num samples) (hq : q.Valid num others)
    (hbound : samples + others ≤ i64Max) (hpartition : p.partition = q.partition) :
    p.merge q = .ok (p.sum q) ∧ p.mergeInto q = (p.sum q, none) := by
  have hptotal := hp.total
  have hqtotal := hq.total
  have hmax : i64Max ≤ (u64Max : Int) := by decide
  have hsum : p.attempts.sum + q.attempts.sum ≤ u64Max := by omega
  have hpm := sum_le_of_zip (hp.matched.trans hp.attempts.symm) hp.within
  have hqm := sum_le_of_zip (hq.matched.trans hq.attempts.symm) hq.within
  have hpf := hp.feedback
  have hqf := hq.feedback
  obtain ⟨hinto, hadd⟩ := @addCounts_fit p.attempts q.attempts
    (by rw [hp.attempts, hq.attempts, hpartition]) hsum
  obtain ⟨hinto', hadd'⟩ := @addCounts_fit p.matched q.matched
    (by rw [hp.matched, hq.matched, hpartition]) (by omega)
  refine ⟨?_, ?_⟩
  · unfold merge
    rw [if_neg (not_not.2 hpartition)]
    simp only [bind, Except.bind, hadd, hadd']
    rw [if_neg (by omega)]
    rfl
  · unfold mergeInto
    rw [if_neg (not_not.2 hpartition), hinto]
    dsimp only
    rw [hinto']
    dsimp only
    rw [if_neg (by omega)]
    rfl

/-- Nothing has changed when the merge of valid diagnostics fails, and it fails for different
partitions only. -/
theorem mergeInto_valid {samples others : Int} (hp : p.Valid num samples) (hq : q.Valid num others)
    (hbound : samples + others ≤ i64Max) :
    p.mergeInto q = replaced p (p.merge q) ∧
      ((∃ e, p.merge q = .error e) ↔ p.partition ≠ q.partition) := by
  by_cases hpartition : p.partition = q.partition
  · obtain ⟨hmerge, hinto⟩ := merge_fits hp hq hbound hpartition
    rw [hmerge, hinto]
    simp [replaced, hpartition]
  · unfold mergeInto merge
    rw [if_pos hpartition, if_pos hpartition]
    simp [replaced, hpartition]

end PartitionDiagnostics

/-! ## Vectors -/

/-- `Accumulator::merge` of a scalar. -/
def ScalarAccumulatorState.mergeInto (num : Numerics V S M G L) (a b : ScalarAccumulatorState S) :
    ScalarAccumulatorState S × Option EngineError :=
  match a.validateMerge num b with
  | .error e => (a, some e)
  | .ok () => (a.mergePlain num b, none)

namespace VectorAccumulatorState

variable (num : Numerics V S M G L)

def mergePartitionInto [DecidableEq L] :
    Option (PartitionDiagnostics L) → Option (PartitionDiagnostics L) →
      Option (PartitionDiagnostics L) × Option EngineError
  | left, none => (left, none)
  | some left, some right =>
    let (left, e) := left.mergeInto right
    (some left, e)
  | none, some right => (some right, none)

def mergeComponentsInto : List (NamedScalarAccumulator S) → List (NamedScalarAccumulator S) →
    List (NamedScalarAccumulator S) × Option EngineError
  | a :: as, b :: bs =>
    match a.state.mergeInto num b.state with
    | (state, some e) => ({ a with state } :: as, some e)
    | (state, none) =>
      let (rest, e) := mergeComponentsInto as bs
      ({ a with state } :: rest, e)
  | as, _ => (as, none)

/-- `merge`, with the state it leaves. -/
def mergeInto [DecidableEq L] (a b : VectorAccumulatorState S L) :
    VectorAccumulatorState S L × Option EngineError :=
  match a.validateMerge num b with
  | .error e => (a, some e)
  | .ok () =>
    match mergePartitionInto a.partition b.partition with
    | (partition, some e) => ({ a with partition }, some e)
    | (partition, none) =>
      match mergeComponentsInto num a.components b.components with
      | (components, some e) => ({ a with partition, components }, some e)
      | (components, none) =>
        match a.projection, b.projection with
        | .norm p, .norm q =>
          let (state, e) := p.state.mergeInto num q.state
          (⟨components, partition, .norm { p with state }⟩, e)
        | _, _ => ({ a with partition, components }, none)

variable {num} {a b : VectorAccumulatorState S L}

theorem mergeComponentsInto_eq : ∀ {as bs : List (NamedScalarAccumulator S)},
    as.length = bs.length → validateMergeAll num as bs = .ok () →
      mergeComponentsInto num as bs = (List.zipWith (mergeNamed num) as bs, none)
  | [], [], _, _ => rfl
  | a :: as, b :: bs, hlen, h => by
    rw [validateMergeAll, bind_unit_ok_iff] at h
    have hinto : a.state.mergeInto num b.state = (a.state.mergePlain num b.state, none) := by
      unfold ScalarAccumulatorState.mergeInto
      rw [h.1]
    unfold mergeComponentsInto
    rw [hinto]
    dsimp only
    rw [mergeComponentsInto_eq (by simpa using hlen) h.2]
    rfl

variable [DecidableEq L]

/-- Two partitions that cannot be merged. -/
def PartitionsDiffer (a b : VectorAccumulatorState S L) : Prop :=
  ∃ p q, a.partition = some p ∧ b.partition = some q ∧ p.partition ≠ q.partition

/-- After the check the partitions are merged, or refused before anything has changed. -/
theorem mergePartitionInto_eq (h : a.validateMerge num b = .ok ()) :
    mergePartitionInto a.partition b.partition =
        replaced a.partition (mergePartition a.partition b.partition) ∧
      ((∃ e, mergePartition a.partition b.partition = .error e) ↔ a.PartitionsDiffer b) := by
  obtain ⟨-, ha, hb, -, hprojected⟩ := validateMerge_parts h
  obtain ⟨p, hp⟩ := exists_projected ha.names
  obtain ⟨q, hq⟩ := exists_projected hb.names
  have hbound : a.sampleCount + b.sampleCount ≤ i64Max := by
    rw [sampleCount_eq hp, sampleCount_eq hq]
    exact ScalarAccumulatorState.validateMerge_count (hprojected p q hp hq)
  unfold PartitionsDiffer
  cases hl : a.partition with
  | none => cases b.partition <;> simp [mergePartitionInto, mergePartition, replaced]
  | some left =>
    cases hr : b.partition with
    | none => simp [mergePartitionInto, mergePartition, replaced]
    | some right =>
      obtain ⟨hinto, hiff⟩ := PartitionDiagnostics.mergeInto_valid (ha.partition left hl)
        (hb.partition right hr) hbound
      unfold mergePartitionInto mergePartition
      dsimp only
      rw [hinto]
      cases hmerge : left.merge right with
      | error e =>
        rw [hmerge] at hiff
        simpa [replaced, Except.map] using hiff
      | ok merged =>
        rw [hmerge] at hiff
        simpa [replaced, Except.map] using hiff

/-- A vector is merged as a whole or stays as it is. -/
theorem mergeInto_eq : a.mergeInto num b = replaced a (a.merge num b) := by
  unfold mergeInto merge
  cases hchecked : a.validateMerge num b with
  | error e => rfl
  | ok u =>
    obtain ⟨-, -, -, hall, hprojected⟩ := validateMerge_parts hchecked
    obtain ⟨-, hnames⟩ := validateMerge_ok num hchecked
    have hlen : a.components.length = b.components.length := by
      simpa using congrArg List.length hnames
    rw [(mergePartitionInto_eq hchecked).1]
    dsimp only
    cases mergePartition a.partition b.partition with
    | error e => rfl
    | ok partition =>
      simp only [replaced, mergeComponentsInto_eq hlen hall, bind, Except.bind, pure, Except.pure]
      cases hap : a.projection with
      | component name => rfl
      | norm p =>
        cases hbp : b.projection with
        | component name => rfl
        | norm q =>
          have hp : a.projected = some p := by
            unfold projected
            rw [hap]
          have hq : b.projected = some q := by
            unfold projected
            rw [hbp]
          have hinto : p.state.mergeInto num q.state = (p.state.mergePlain num q.state, none) := by
            unfold ScalarAccumulatorState.mergeInto
            rw [hprojected p q hp hq]
          dsimp only
          rw [hinto]
          rfl

/-- A checked merge fails for different partitions only. -/
theorem merge_error_iff (h : a.validateMerge num b = .ok ()) :
    (∃ e, a.merge num b = .error e) ↔ a.PartitionsDiffer b := by
  rw [← (mergePartitionInto_eq h).2]
  unfold merge
  rw [h]
  cases mergePartition a.partition b.partition with
  | error e => simp [bind, Except.bind]
  | ok partition => simp [bind, Except.bind, pure, Except.pure]

end VectorAccumulatorState

end Gammaboard.Evaluation
