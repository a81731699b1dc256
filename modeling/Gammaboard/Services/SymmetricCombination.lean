import Gammaboard.Services.CombinedHistograms
import Mathlib.Algebra.Order.Ring.Rat
import Mathlib.Tactic.Linarith

/-!
# When a combination is symmetric

A combination should be the same whichever child comes first and leave nothing
out. It is, unless a child has an underflow or an overflow bin that the first
has not, or a sample count that is no integer in range: these are left out
without a word.
-/

namespace Gammaboard.Services

open Gammaboard.Lib Gammaboard.Utils

variable {K : Type} [Field K] [LinearOrder K]

def sampleCount (histogram : Json K) : Option K := do
  (← histogram.get? "sample_count").asF64

/-- Every child has samples, and statistics wherever some child has a bin. -/
structure Usable (inputs : List (K × Json K)) : Prop where
  counted : ∀ input ∈ inputs, ∃ count, sampleCount input.2 = some count ∧ 0 < count
  statistics : ∀ place, (∃ input ∈ inputs, (binAt input.2 place).isSome) →
    ∀ input ∈ inputs, (statisticsAt input.2 place).isSome

/-- All but descriptive metadata. -/
structure SameResult (left right : Json K) : Prop where
  layout : ∀ key ∈ layoutKeys, left.get? key = right.get? key
  count : left.get? "sample_count" = right.get? "sample_count"
  statistics : left.get? "statistics" = right.get? "statistics"
  extremes : ∀ e : Extreme, left.get? e.key = right.get? e.key
  bins : ∀ index, Option.Rel (fun bin bin' : Json K =>
      (∀ key ∈ ["start", "stop", "value", "error"], bin.get? key = bin'.get? key) ∧
        ∀ key ∈ ["label", "bin_id"], bin.get key = bin'.get key)
    (binAt left (.bin index)) (binAt right (.bin index))

/-- A symmetric linear combination of all children. -/
structure Combines (sqrt : K → K) (inputs : List (K × Json K)) : Prop where
  succeeds : (combineHistogram sqrt inputs).isSome ↔ SameLayout inputs ∧ Usable inputs
  /-- Every place of a child is there, with its value and its error. -/
  places : ∀ out, combineHistogram sqrt inputs = some out → ∀ place,
    if ∃ input ∈ inputs, (binAt input.2 place).isSome then
      ∃ bin, binAt out place = some bin ∧
        bin.get? "value" = some (number (weightedMean inputs place)) ∧
        bin.get? "error" = some (number (sqrt (weightedVariance inputs place)))
    else binAt out place = none
  count : ∀ out, combineHistogram sqrt inputs = some out →
    sampleCount out = some (inputs.map fun input => (sampleCount input.2).getD 0).sum
  permuted : ∀ inputs', inputs'.Perm inputs →
    Option.Rel SameResult (combineHistogram sqrt inputs) (combineHistogram sqrt inputs')

/-! ## The condition -/

/-- The same places in all children, and sample counts that are positive integers with a sum in
range. -/
structure Sound (inputs : List (K × Json K)) : Prop where
  places : ∀ place, (∃ input ∈ inputs, (binAt input.2 place).isSome) →
    ∀ input ∈ inputs, (binAt input.2 place).isSome
  counts : ∀ input ∈ inputs, ∃ count, integerCount input.2 = some count ∧ 0 < count
  range : (inputs.filterMap fun input => integerCount input.2).sum < 2 ^ 63

/-- Whichever child comes first, what is accepted is sound. -/
def SoundBehindAny (inputs : List (K × Json K)) : Prop :=
  ∀ template ∈ inputs, Accepted template.2 inputs → Sound inputs

/-! ## Orders of the children -/

section Permuted

variable {sqrt : K → K} {inputs inputs' : List (K × Json K)}

theorem SameLayout.perm (h : SameLayout inputs) (hperm : inputs'.Perm inputs) :
    SameLayout inputs' := by
  obtain ⟨layout, hsame⟩ := h
  exact ⟨layout, fun input hmem => hsame input (hperm.mem_iff.1 hmem)⟩

theorem Accepted.perm {template : Json K} (h : Accepted template inputs)
    (hperm : inputs'.Perm inputs) : Accepted template inputs' :=
  ⟨h.1.perm hperm, fun place hplace input hmem => h.2 place hplace input (hperm.mem_iff.1 hmem)⟩

theorem combinedAt_perm (hperm : inputs'.Perm inputs) (place : Place) :
    combinedAt sqrt inputs' place = combinedAt sqrt inputs place := by
  unfold combinedAt weightedMean weightedVariance
  rw [(hperm.map _).sum_eq, (hperm.map _).sum_eq]

theorem wrappingSum_eq (counts : List Int) : wrappingSum counts = counts.sum.bmod (2 ^ 64) := by
  have hfold (start : Int) : counts.foldl (fun sum count => (sum + count).bmod (2 ^ 64))
      (start.bmod (2 ^ 64)) = (start + counts.sum).bmod (2 ^ 64) := by
    induction counts generalizing start with
    | nil => rw [List.foldl_nil, List.sum_nil, add_zero]
    | cons count counts ih =>
      rw [List.foldl_cons, List.sum_cons, ← add_assoc, ← ih]
      congr 1
      exact Int.bmod_add_bmod
  have hzero := hfold 0
  rw [zero_add] at hzero
  exact hzero

end Permuted

/-! ## Sample counts -/

omit [LinearOrder K] in
theorem asF64_integer {n : Int} (hlow : -2 ^ 63 ≤ n) (hhigh : n < 2 ^ 63) :
    (integer n : Json K).asF64 = some (n : K) := by
  unfold integer
  by_cases hsign : 0 ≤ n
  · rw [if_pos hsign]
    show some (((UInt64.ofNat n.toNat).toNat : Nat) : K) = _
    rw [UInt64.toNat_ofNat_of_lt' (by show n.toNat < 2 ^ 64; omega), ← Int.cast_natCast (R := K), Int.toNat_of_nonneg hsign]
  · rw [if_neg hsign]
    show some (((Int64.ofInt n).toInt : Int) : K) = _
    rw [Int64.toInt_ofInt_of_le hlow hhigh]

omit [LinearOrder K] in
theorem asF64_of_asI64 {value : Json K} {n : Int} (h : value.asI64 = some n) :
    value.asF64 = some (n : K) := by
  cases value with
  | number number =>
    cases number with
    | posInt count =>
      change (if count.toNat < 2 ^ 63 then some (count.toNat : Int) else none) = some n at h
      split_ifs at h
      cases h
      show some ((count.toNat : Nat) : K) = _
      rw [Int.cast_natCast]
    | negInt count =>
      cases h
      rfl
    | float x => cases h
  | _ => cases h

theorem sampleCount_of_integerCount {histogram : Json K} {n : Int}
    (h : integerCount histogram = some n) : sampleCount histogram = some (n : K) := by
  unfold integerCount at h
  obtain ⟨value, hvalue, hint⟩ := Option.bind_eq_some_iff.1 h
  unfold sampleCount
  rw [hvalue]
  exact asF64_of_asI64 hint

theorem isSome_binAt {histogram : Json K} {place : Place}
    (h : (statisticsAt histogram place).isSome) : (binAt histogram place).isSome := by
  obtain ⟨statistics, hstatistics⟩ := Option.isSome_iff_exists.1 h
  obtain ⟨count, -, hrest⟩ := Option.bind_eq_some_iff.1 hstatistics
  obtain ⟨bin, hbin, -⟩ := Option.bind_eq_some_iff.1 hrest
  rw [hbin]
  rfl

variable [IsStrictOrderedRing K]

/-- The total of the integers, and of all counts. -/
theorem sum_integerCount_le {inputs : List (K × Json K)}
    (hcounted : ∀ input ∈ inputs, ∃ count, sampleCount input.2 = some count ∧ 0 < count) :
    0 ≤ (inputs.filterMap fun input => integerCount input.2).sum ∧
      (((inputs.filterMap fun input => integerCount input.2).sum : Int) : K) ≤
        (inputs.map fun input => (sampleCount input.2).getD 0).sum ∧
      ((((inputs.filterMap fun input => integerCount input.2).sum : Int) : K) =
          (inputs.map fun input => (sampleCount input.2).getD 0).sum →
        ∀ input ∈ inputs, ∃ count, integerCount input.2 = some count ∧ 0 < count) := by
  induction inputs with
  | nil => exact ⟨le_refl _, by simp, fun _ input hmem => absurd hmem List.not_mem_nil⟩
  | cons input inputs ih =>
    obtain ⟨hhead, htail⟩ := List.forall_mem_cons.1 hcounted
    obtain ⟨count, hcount, hpos⟩ := hhead
    obtain ⟨hnonneg, hle, hall⟩ := ih htail
    rw [List.filterMap_cons, List.map_cons, List.sum_cons, hcount, Option.getD_some]
    cases hint : integerCount input.2 with
    | none =>
      dsimp only
      exact ⟨hnonneg, by linarith, fun heq => absurd heq (by linarith)⟩
    | some n =>
      have hsame : count = (n : K) :=
        Option.some.inj (hcount.symm.trans (sampleCount_of_integerCount hint))
      have hn : 0 < n := by
        rw [hsame] at hpos
        exact Int.cast_pos.1 hpos
      dsimp only
      rw [List.sum_cons, Int.cast_add, ← hsame]
      refine ⟨by omega, by linarith, fun heq other hmem => ?_⟩
      rcases List.mem_cons.1 hmem with rfl | hmem
      · exact ⟨n, hint, hn⟩
      · exact hall (by linarith) other hmem

/-- A wrapped sum of integers is the total only when nothing was left out and nothing wrapped. -/
theorem counts_of_wrappingSum {inputs : List (K × Json K)}
    (hcounted : ∀ input ∈ inputs, ∃ count, sampleCount input.2 = some count ∧ 0 < count)
    (heq : ((wrappingSum (inputs.filterMap fun input => integerCount input.2) : Int) : K) =
      (inputs.map fun input => (sampleCount input.2).getD 0).sum) :
    (∀ input ∈ inputs, ∃ count, integerCount input.2 = some count ∧ 0 < count) ∧
      (inputs.filterMap fun input => integerCount input.2).sum < 2 ^ 63 := by
  obtain ⟨hnonneg, hle, hall⟩ := sum_integerCount_le hcounted
  rw [wrappingSum_eq] at heq
  by_cases hrange : (inputs.filterMap fun input => integerCount input.2).sum < 2 ^ 63
  · rw [Int.bmod_eq_of_le (by omega) (by omega)] at heq
    exact ⟨hall heq, hrange⟩
  · have hwrapped := Int.bmod_lt (x := (inputs.filterMap fun input => integerCount input.2).sum)
      (m := 2 ^ 64) (by omega)
    have hlt : (((inputs.filterMap fun input => integerCount input.2).sum.bmod (2 ^ 64) : Int) : K) <
        (((inputs.filterMap fun input => integerCount input.2).sum : Int) : K) :=
      Int.cast_lt.2 (by omega)
    linarith

/-! ## Soundness -/

section Sound

variable {sqrt : K → K} {inputs inputs' : List (K × Json K)} {template template' out out' : Json K}

omit [IsStrictOrderedRing K] in
theorem accepted_of_usable (hsame : SameLayout inputs) (husable : Usable inputs)
    {input : K × Json K} (hmem : input ∈ inputs) : Accepted input.2 inputs :=
  ⟨hsame, fun place hplace => husable.statistics place ⟨input, hmem, hplace⟩⟩

theorem Sound.usable (hsound : Sound inputs) {input : K × Json K} (hmem : input ∈ inputs)
    (haccepted : Accepted input.2 inputs) : Usable inputs := by
  refine ⟨fun other hother => ?_, fun place hplace => ?_⟩
  · obtain ⟨count, hcount, hpos⟩ := hsound.counts other hother
    exact ⟨(count : K), sampleCount_of_integerCount hcount, Int.cast_pos.2 hpos⟩
  · exact haccepted.2 place (hsound.places place hplace input hmem)

omit [IsStrictOrderedRing K] in
/-- Sound lists are accepted whichever child comes first. -/
theorem Sound.accepted (hsound : Sound inputs) {input other : K × Json K} (hmem : input ∈ inputs)
    (hother : other ∈ inputs) (haccepted : Accepted input.2 inputs) : Accepted other.2 inputs :=
  ⟨haccepted.1, fun place hplace =>
    haccepted.2 place (hsound.places place ⟨other, hother, hplace⟩ input hmem)⟩

omit [IsStrictOrderedRing K] in
theorem places_of_output (hsound : Sound inputs) {input : K × Json K} (hmem : input ∈ inputs)
    (hout : Output sqrt input.2 inputs out) (place : Place) :
    if ∃ input ∈ inputs, (binAt input.2 place).isSome then
      ∃ bin, binAt out place = some bin ∧
        bin.get? "value" = some (number (weightedMean inputs place)) ∧
        bin.get? "error" = some (number (sqrt (weightedVariance inputs place)))
    else binAt out place = none := by
  have hbin : (∃ bin, binAt input.2 place = some bin) → ∃ bin, binAt out place = some bin ∧
      bin.get? "value" = some (number (weightedMean inputs place)) ∧
        bin.get? "error" = some (number (sqrt (weightedVariance inputs place))) := by
    rintro ⟨bin, hbin⟩
    cases place with
    | bin index =>
      refine ⟨_, (hout.bins index).trans (by rw [hbin]; rfl), ?_, ?_⟩
      · rw [get?_combinedBin, if_neg (by decide)]
        rfl
      · rw [get?_combinedBin, if_neg (by decide)]
        rfl
    | extreme e =>
      refine ⟨_, (hout.extremes e).trans (by rw [show input.2.get? e.key = some bin from hbin]; rfl),
        ?_, ?_⟩
      · show OrdMap.get "value" (OrdMap.collect _) = _
        rw [OrdMap.get_collect (by show List.Nodup ["value", "error"]; decide)]
        rfl
      · show OrdMap.get "error" (OrdMap.collect _) = _
        rw [OrdMap.get_collect (by show List.Nodup ["value", "error"]; decide)]
        rfl
  split_ifs with hsome
  · exact hbin (Option.isSome_iff_exists.1 (hsound.places place hsome input hmem))
  · have hnone : binAt input.2 place = none :=
      Option.not_isSome_iff_eq_none.1 fun h => hsome ⟨input, hmem, h⟩
    cases place with
    | bin index => rw [hout.bins index, hnone, Option.map_none]
    | extreme e =>
      show out.get? e.key = none
      rw [hout.extremes e, show input.2.get? e.key = none from hnone, Option.map_none]

theorem count_of_output (hsound : Sound inputs) (hout : Output sqrt template inputs out) :
    sampleCount out = some (inputs.map fun input => (sampleCount input.2).getD 0).sum := by
  have hsum : (inputs.map fun input => (sampleCount input.2).getD 0).sum =
      (((inputs.filterMap fun input => integerCount input.2).sum : Int) : K) ∧
        0 ≤ (inputs.filterMap fun input => integerCount input.2).sum := by
    have hcounts := hsound.counts
    clear hsound hout
    induction inputs with
    | nil => simp
    | cons input inputs ih =>
      obtain ⟨⟨count, hcount, hpos⟩, htail⟩ := List.forall_mem_cons.1 hcounts
      obtain ⟨heq, hnonneg⟩ := ih htail
      rw [List.map_cons, List.sum_cons, heq, sampleCount_of_integerCount hcount, Option.getD_some,
        List.filterMap_cons, hcount]
      dsimp only
      rw [List.sum_cons, Int.cast_add]
      exact ⟨rfl, by omega⟩
  have hrange := hsound.range
  rw [hsum.1]
  show (out.get? "sample_count").bind Json.asF64 = _
  rw [hout.count, Option.bind_some, wrappingSum_eq, Int.bmod_eq_of_le (by omega) (by omega), asF64_integer (by omega) hrange]

omit [IsStrictOrderedRing K] in
theorem binLayouts_of_layout {layout : Json K} (h : histogramLayout template = some layout)
    (h' : histogramLayout template' = some layout) (index : Nat) :
    Option.Rel (fun bin bin' => binLayout bin = binLayout bin') (binAt template (.bin index))
      (binAt template' (.bin index)) := by
  obtain ⟨-, -, bins, -, hbins, hlayout⟩ := get?_of_layout h
  obtain ⟨-, -, bins', -, hbins', hlayout'⟩ := get?_of_layout h'
  have hsame : bins.map binLayout = bins'.map binLayout := by
    have := hlayout.symm.trans hlayout'
    rw [Option.some.injEq, Json.array.injEq] at this
    exact this
  have hindex : (bins[index]?).map binLayout = (bins'[index]?).map binLayout := by
    rw [← List.getElem?_map, ← List.getElem?_map, hsame]
  have hat : binAt template (.bin index) = bins[index]? := by
    show (template.get? "bins").bind _ = _
    rw [hbins]
    rfl
  have hat' : binAt template' (.bin index) = bins'[index]? := by
    show (template'.get? "bins").bind _ = _
    rw [hbins']
    rfl
  rw [hat, hat']
  cases hbin : bins[index]? with
  | none =>
    cases hbin' : bins'[index]? with
    | none => exact .none
    | some bin' =>
      rw [hbin, hbin'] at hindex
      cases hindex
  | some bin =>
    cases hbin' : bins'[index]? with
    | none =>
      rw [hbin, hbin'] at hindex
      cases hindex
    | some bin' =>
      rw [hbin, hbin'] at hindex
      exact .some (Option.some.inj hindex)

omit [IsStrictOrderedRing K] in
theorem sameResult_of_outputs (hsame : SameLayout inputs) (hsound : Sound inputs)
    (hperm : inputs'.Perm inputs) {input input' : K × Json K} (hmem : input ∈ inputs)
    (hmem' : input' ∈ inputs) (hout : Output sqrt input.2 inputs out)
    (hout' : Output sqrt input'.2 inputs' out') : SameResult out out' := by
  obtain ⟨layout, hlayouts⟩ := hsame
  have hlayout := hlayouts input hmem
  have hlayout' := hlayouts input' hmem'
  have hkeys (key : String) (hkey : key ∈ layoutKeys) : input.2.get? key = input'.2.get? key := by
    rw [(get?_of_layout hlayout).1 key hkey, (get?_of_layout hlayout').1 key hkey]
  refine ⟨fun key hkey => ?_, ?_, ?_, fun e => ?_, fun index => ?_⟩
  · rw [hout.layout key hkey, hout'.layout key hkey, hkeys key hkey]
  · rw [hout.count, hout'.count, wrappingSum_eq, wrappingSum_eq, (hperm.filterMap _).sum_eq]
  · rw [hout.statistics, hout'.statistics]
  · have hplaces := hsound.places (.extreme e)
    rw [hout.extremes e, hout'.extremes e, combinedAt_perm hperm]
    cases hbin : input.2.get? e.key with
    | none =>
      cases hbin' : input'.2.get? e.key with
      | none => rfl
      | some bin' =>
        have := hplaces ⟨input', hmem', by show (input'.2.get? e.key).isSome; rw [hbin']; rfl⟩ input hmem
        change (input.2.get? e.key).isSome at this
        rw [hbin] at this
        cases this
    | some bin =>
      cases hbin' : input'.2.get? e.key with
      | some bin' => rfl
      | none =>
        have := hplaces ⟨input, hmem, by show (input.2.get? e.key).isSome; rw [hbin]; rfl⟩ input' hmem'
        change (input'.2.get? e.key).isSome at this
        rw [hbin'] at this
        cases this
  · have hbins := binLayouts_of_layout hlayout hlayout' index
    rw [hout.bins index, hout'.bins index, combinedAt_perm hperm]
    generalize binAt input.2 (.bin index) = bin at hbins
    generalize binAt input'.2 (.bin index) = bin' at hbins
    cases hbins with
    | none => exact .none
    | some h => exact .some (combinedBin_layout index _ (hkeys _ (by decide)) h)

end Sound

/-! ## Main result -/

/-- A combination is symmetric and complete when the places and the sample counts of all children
are, whichever comes first. -/
theorem combines_iff (sqrt : K → K) (inputs : List (K × Json K)) (hne : inputs ≠ []) :
    Combines sqrt inputs ↔ SoundBehindAny inputs := by
  obtain ⟨input, rest, rfl⟩ := List.exists_cons_of_ne_nil hne
  have hfirst : input ∈ input :: rest := List.mem_cons_self
  obtain ⟨haccept, hreject⟩ := combineHistogram_spec sqrt input rest
  constructor
  · intro hcombines template hmem haccepted
    -- with the template first the list is combined, so it is as it stands
    obtain ⟨before, after, hsplit⟩ := List.append_of_mem hmem
    have hperm : (template :: (before ++ after)).Perm (input :: rest) := by
      rw [hsplit]
      exact List.perm_middle.symm
    obtain ⟨out', hout', -⟩ := (combineHistogram_spec sqrt template (before ++ after)).1
      (haccepted.perm hperm)
    have hpermuted := hcombines.permuted _ hperm
    rw [hout'] at hpermuted
    obtain ⟨out, hout⟩ : ∃ out, combineHistogram sqrt (input :: rest) = some out := by
      generalize combineHistogram sqrt (input :: rest) = result at hpermuted
      cases hpermuted with
      | some => exact ⟨_, rfl⟩
    obtain ⟨hsame, husable⟩ := hcombines.succeeds.1 (by rw [hout]; rfl)
    obtain ⟨_, hout'', houtput⟩ := haccept (accepted_of_usable hsame husable hfirst)
    rw [hout, Option.some.injEq] at hout''
    subst hout''
    have hcount := hcombines.count out hout
    unfold sampleCount at hcount
    change (out.get? "sample_count").bind Json.asF64 = _ at hcount
    rw [houtput.count, Option.bind_some, asF64_integer, Option.some.injEq] at hcount
    · obtain ⟨hcounts, hrange⟩ := counts_of_wrappingSum husable.counted hcount
      exact ⟨fun place hplace other hother => isSome_binAt (husable.statistics place hplace other hother),
        hcounts, hrange⟩
    · rw [wrappingSum_eq]
      have := Int.le_bmod (x := ((input :: rest).filterMap fun input => integerCount input.2).sum)
        (m := 2 ^ 64) (by omega)
      omega
    · rw [wrappingSum_eq]
      have := Int.bmod_lt (x := ((input :: rest).filterMap fun input => integerCount input.2).sum)
        (m := 2 ^ 64) (by omega)
      omega
  · intro hcondition
    have hsound (out : Json K) (hout : combineHistogram sqrt (input :: rest) = some out) :
        Accepted input.2 (input :: rest) ∧ Sound (input :: rest) ∧
          Output sqrt input.2 (input :: rest) out := by
      have haccepted : Accepted input.2 (input :: rest) := by
        by_contra hnot
        rw [hreject hnot] at hout
        cases hout
      obtain ⟨out', hout', houtput⟩ := haccept haccepted
      rw [hout, Option.some.injEq] at hout'
      exact ⟨haccepted, hcondition input hfirst haccepted, hout' ▸ houtput⟩
    refine ⟨⟨fun hsome => ?_, fun ⟨hsame, husable⟩ => ?_⟩, fun out hout place => ?_,
      fun out hout => ?_, fun inputs' hperm => ?_⟩
    · obtain ⟨out, hout⟩ := Option.isSome_iff_exists.1 hsome
      obtain ⟨haccepted, hlist, -⟩ := hsound out hout
      exact ⟨haccepted.1, hlist.usable hfirst haccepted⟩
    · obtain ⟨out, hout, -⟩ := haccept (accepted_of_usable hsame husable hfirst)
      rw [hout]
      rfl
    · obtain ⟨-, hlist, houtput⟩ := hsound out hout
      exact places_of_output hlist hfirst houtput place
    · obtain ⟨-, hlist, houtput⟩ := hsound out hout
      exact count_of_output hlist houtput
    · cases inputs' with
      | nil => exact absurd hperm.symm (List.cons_ne_nil _ _ ∘ List.perm_nil.1)
      | cons input' rest' =>
        have hmem' : input' ∈ input :: rest := hperm.mem_iff.1 List.mem_cons_self
        obtain ⟨haccept', hreject'⟩ := combineHistogram_spec sqrt input' rest'
        by_cases haccepted : Accepted input.2 (input :: rest)
        · have hlist := hcondition input hfirst haccepted
          obtain ⟨out, hout, houtput⟩ := haccept haccepted
          obtain ⟨out', hout', houtput'⟩ := haccept'
            ((hlist.accepted hfirst hmem' haccepted).perm hperm)
          rw [hout, hout']
          exact .some (sameResult_of_outputs haccepted.1 hlist hperm hfirst hmem' houtput houtput')
        · have hnot : ¬ Accepted input'.2 (input' :: rest') := fun haccepted' => by
            have hback := haccepted'.perm hperm.symm
            exact haccepted ((hcondition input' hmem' hback).accepted hmem' hfirst hback)
          rw [hreject haccepted, hreject' hnot]
          exact .none

/-- A bin with the statistics of two samples. -/
def statisticsBin (sum sumSq : ℚ) : Json ℚ :=
  .object [("entry_count", .number (.posInt 2)), ("sum_weights", .number (.float sum)),
    ("sum_weights_squared", .number (.float sumSq)), ("x_max", .number (.float 1)),
    ("x_min", .number (.float 0))]

/-- A histogram of two samples with one bin, and with more entries after `kind`. -/
def histogram (sum sumSq : ℚ) (more : List (String × Json ℚ)) : Json ℚ :=
  .object ([("bins", .array [statisticsBin sum sumSq]), ("kind", .string "continuous")] ++ more ++
    [("phase", .string "real"), ("sample_count", .number (.posInt 2)),
      ("title", .string "observable"), ("value_transform", .string "identity")])

/-- Squared errors of one, with coefficients whose squares add up to one. -/
theorem combines_two :
    Combines id [((3 / 5 : ℚ), histogram 4 10 []), ((4 / 5 : ℚ), histogram 6 20 [])] := by
  refine (combines_iff id _ (List.cons_ne_nil _ _)).2 fun _ _ _ => ⟨?_, ?_, ?_⟩
  · have hbins (sum sumSq : ℚ) (place : Place) :
        (binAt (histogram sum sumSq []) place).isSome = decide (place = .bin 0) := by
      rcases place with (_ | index) | (_ | _) <;> rfl
    simp only [List.forall_mem_cons, List.exists_mem_cons_iff, hbins]
    exact fun place h => by simpa using h
  · simp only [List.forall_mem_cons]
    exact ⟨⟨2, by decide +kernel⟩, ⟨2, by decide +kernel⟩, fun _ h => absurd h List.not_mem_nil⟩
  · decide +kernel

/-- The overflow bin of the second child is left out. -/
theorem overflow_left_out : ¬ ∀ inputs : List (ℚ × Json ℚ), inputs ≠ [] → Combines id inputs := by
  intro hall
  have hcombines := hall [(1, histogram 4 8 []),
    (1, histogram 4 8 [("overflow_bin", statisticsBin 2 2)])] (List.cons_ne_nil _ _)
  obtain ⟨out, hout, hnone⟩ : ∃ out, combineHistogram id [((1 : ℚ), histogram 4 8 []),
      (1, histogram 4 8 [("overflow_bin", statisticsBin 2 2)])] = some out ∧
        binAt out (.extreme .overflow) = none := by
    have hsome : (combineHistogram id [((1 : ℚ), histogram 4 8 []),
        (1, histogram 4 8 [("overflow_bin", statisticsBin 2 2)])]).isSome := by decide +kernel
    have hnone : ((combineHistogram id [((1 : ℚ), histogram 4 8 []),
        (1, histogram 4 8 [("overflow_bin", statisticsBin 2 2)])]).bind
          fun out => binAt out (.extreme .overflow)) = none := by decide +kernel
    obtain ⟨out, hout⟩ := Option.isSome_iff_exists.1 hsome
    rw [hout] at hnone
    exact ⟨out, hout, hnone⟩
  have hplaces := hcombines.places out hout (.extreme .overflow)
  rw [if_pos ⟨_, List.mem_cons_of_mem _ List.mem_cons_self, rfl⟩, hnone] at hplaces
  obtain ⟨bin, hbin, -⟩ := hplaces
  cases hbin

end Gammaboard.Services
