import Gammaboard.Lib.Results
import Gammaboard.Services.Results
import Mathlib.Algebra.BigOperators.Group.List.Basic
import Mathlib.Algebra.Order.BigOperators.Group.List

/-!
# Combinations of histograms

When histograms can be combined, and what the combination holds: in every place
the weighted sum of the means of all children and the square root of the
weighted sum of their squared errors. The first child decides which places are
looked at.
-/

namespace Gammaboard.Services

open Gammaboard.Lib Gammaboard.Utils

variable {K : Type} [Field K] [LinearOrder K]

/-! ## What a combination is made of -/

/-- The mean and the squared error of a child in a place, where its statistics are usable. -/
def statisticsAt (histogram : Json K) (place : Place) : Option (K × K) := do
  binStatistics (← histogram.get? "sample_count") (← binAt histogram place)

/-- The sum over all children of the coefficient times the mean. -/
def weightedMean (inputs : List (K × Json K)) (place : Place) : K :=
  (inputs.map fun input => input.1 * ((statisticsAt input.2 place).getD (0, 0)).1).sum

/-- The sum over all children of the squared coefficient times the squared error. -/
def weightedVariance (inputs : List (K × Json K)) (place : Place) : K :=
  (inputs.map fun input => input.1 ^ 2 * ((statisticsAt input.2 place).getD (0, 0)).2).sum

def SameLayout (inputs : List (K × Json K)) : Prop :=
  ∃ layout, ∀ input ∈ inputs, histogramLayout input.2 = some layout

/-- What is looked at with this child first. -/
def Accepted (template : Json K) (inputs : List (K × Json K)) : Prop :=
  SameLayout inputs ∧ ∀ place, (binAt template place).isSome →
    ∀ input ∈ inputs, (statisticsAt input.2 place).isSome

/-- The sample count of a child as it is added up. -/
def integerCount (histogram : Json K) : Option Int := do
  (← histogram.get? "sample_count").asI64

/-! ## One place -/

/-- What a child brings to a place. -/
def entryAt (place : Place) (input : K × Json K) : Option (K × Json K × Json K) := do
  return (input.1, ← input.2.get? "sample_count", ← binAt input.2 place)

theorem addBin_entryAt (totals : K × K) (place : Place) (input : K × Json K) :
    addBin totals (entryAt place input) = (statisticsAt input.2 place).map fun statistics =>
      (totals.1 + input.1 * statistics.1, totals.2 + input.1 ^ 2 * statistics.2) := by
  unfold addBin entryAt statisticsAt
  cases input.2.get? "sample_count" with
  | none => rfl
  | some count =>
    cases binAt input.2 place with
    | none => rfl
    | some bin =>
      show (binStatistics count bin).bind _ = (binStatistics count bin).map _
      cases binStatistics count bin with
      | none => rfl
      | some statistics => rfl

theorem foldlM_addBin (place : Place) (inputs : List (K × Json K)) (totals : K × K) :
    (inputs.map (entryAt place)).foldlM addBin totals =
      if ∀ input ∈ inputs, (statisticsAt input.2 place).isSome then
        some (totals.1 + weightedMean inputs place, totals.2 + weightedVariance inputs place)
      else none := by
  induction inputs generalizing totals with
  | nil =>
    rw [if_pos (fun _ h => absurd h List.not_mem_nil)]
    simp [weightedMean, weightedVariance]
  | cons input inputs ih =>
    rw [List.map_cons, List.foldlM_cons, addBin_entryAt]
    cases hstatistics : statisticsAt input.2 place with
    | none =>
      rw [if_neg fun h => by
        have := h input List.mem_cons_self
        rw [hstatistics] at this
        cases this]
      rfl
    | some statistics =>
      have hall : (∀ other ∈ input :: inputs, (statisticsAt other.2 place).isSome) ↔
          ∀ other ∈ inputs, (statisticsAt other.2 place).isSome := by
        rw [List.forall_mem_cons, hstatistics]
        exact and_iff_right rfl
      rw [Option.map_some]
      refine (ih _).trans ?_
      simp only [hall]
      unfold weightedMean weightedVariance
      rw [List.map_cons, List.sum_cons, List.map_cons, List.sum_cons, hstatistics, Option.getD_some,
        add_assoc, add_assoc]

theorem combineAt_eq (sqrt : K → K) (inputs : List (K × Json K)) (place : Place) :
    combineAt sqrt inputs place =
      if ∀ input ∈ inputs, (statisticsAt input.2 place).isSome then
        some (weightedMean inputs place, sqrt (weightedVariance inputs place))
      else none := by
  have hfold := foldlM_addBin place inputs (0, 0)
  show ((inputs.map (entryAt place)).foldlM addBin (0, 0)).bind (fun totals => some (totals.1, sqrt totals.2)) = _
  rw [hfold]
  split_ifs
  · rw [Option.bind_some, zero_add, zero_add]
  · rfl

/-! ## Layouts -/

theorem get?_of_layout {histogram layout : Json K} (h : histogramLayout histogram = some layout) :
    (∀ key ∈ layoutKeys, histogram.get? key = layout.get? key) ∧
      ∃ object bins, histogram = .object object ∧ histogram.get? "bins" = some (.array bins) ∧
        layout.get? "bins" = some (.array (bins.map binLayout)) := by
  unfold histogramLayout at h
  obtain ⟨object, hobject, h⟩ := Option.bind_eq_some_iff.1 h
  obtain ⟨value, hvalue, h⟩ := Option.bind_eq_some_iff.1 h
  obtain ⟨bins, hbins, h⟩ := Option.bind_eq_some_iff.1 h
  cases histogram with
  | object entries =>
    cases hobject
    cases value with
    | array items =>
      cases hbins
      cases h
      refine ⟨fun key hkey => ?_, object, bins, rfl, hvalue, ?_⟩
      · have hbins : "bins" ≠ key := fun heq => absurd (heq ▸ hkey) (by decide)
        have hnodup : (OrdMap.keys (OrdMap.project layoutKeys object)).Nodup := by
          unfold OrdMap.keys
          rw [OrdMap.keys_project]
          exact List.Nodup.filter _ (by decide)
        show OrdMap.get key object = OrdMap.get key _
        rw [OrdMap.get_insert, if_neg hbins, OrdMap.get_collect hnodup, OrdMap.get_project hkey]
      · show OrdMap.get "bins" _ = _
        rw [OrdMap.get_insert, if_pos rfl]
    | _ => cases hbins
  | _ => cases hobject

/-! ## What is returned -/

/-- The result of a place, where all statistics are usable. -/
def combinedAt (sqrt : K → K) (inputs : List (K × Json K)) (place : Place) : K × K :=
  (weightedMean inputs place, sqrt (weightedVariance inputs place))

/-- The parts of a combination, by the template. -/
structure Output (sqrt : K → K) (template : Json K) (inputs : List (K × Json K)) (out : Json K) :
    Prop where
  bins : ∀ index, binAt out (.bin index) = (binAt template (.bin index)).map fun bin =>
    combinedBin template bin index (combinedAt sqrt inputs (.bin index))
  extremes : ∀ e : Extreme, out.get? e.key = (template.get? e.key).map fun _ =>
    .object (OrdMap.collect [("value", number (combinedAt sqrt inputs (.extreme e)).1),
      ("error", number (combinedAt sqrt inputs (.extreme e)).2)])
  count : out.get? "sample_count" = some (integer (wrappingSum (inputs.filterMap fun input =>
    integerCount input.2)))
  statistics : out.get? "statistics" = none
  layout : ∀ key ∈ layoutKeys, out.get? key = template.get? key

theorem combineBins_some {sqrt : K → K} {template : Json K} {inputs : List (K × Json K)}
    {bins : List (Json K)} (h : ∀ index < bins.length, ∀ input ∈ inputs,
      (statisticsAt input.2 (.bin index)).isSome) :
    combineBins sqrt template inputs bins = some (bins.zipIdx.map fun bin =>
      combinedBin template bin.1 bin.2 (combinedAt sqrt inputs (.bin bin.2))) := by
  refine mapM_eq_some fun bin hbin => ?_
  have hindex := List.snd_lt_of_mem_zipIdx hbin
  rw [combineAt_eq, if_pos (h bin.2 (by omega))]
  rfl

theorem combineBins_none {sqrt : K → K} {template : Json K} {inputs : List (K × Json K)}
    {bins : List (Json K)} {index : Nat} (hindex : index < bins.length)
    (h : ¬ ∀ input ∈ inputs, (statisticsAt input.2 (.bin index)).isSome) :
    combineBins sqrt template inputs bins = none := by
  refine mapM_eq_none (a := (bins[index], index)) ?_ (List.mem_zipIdx_iff_getElem?.2 (by simp [hindex]))
  rw [combineAt_eq, if_neg h]
  rfl

theorem combineExtreme_none {sqrt : K → K} {template : Json K} {inputs : List (K × Json K)}
    {combined : OrdMap String (Json K)} {e : Extreme} (hbin : (binAt template (.extreme e)).isSome)
    (h : ¬ ∀ input ∈ inputs, (statisticsAt input.2 (.extreme e)).isSome) :
    combineExtreme sqrt template inputs combined e = none := by
  unfold combineExtreme
  have hsome : (template.get? e.key).isNone = false := by
    rw [Option.isNone_eq_false_iff]
    exact hbin
  rw [hsome, combineAt_eq, if_neg h]
  rfl

/-- The extreme bin is written or taken out; nothing else changes. -/
theorem combineExtreme_some (sqrt : K → K) {template : Json K} {inputs : List (K × Json K)}
    (combined : OrdMap String (Json K)) {e : Extreme}
    (h : (binAt template (.extreme e)).isSome →
      ∀ input ∈ inputs, (statisticsAt input.2 (.extreme e)).isSome) :
    ∃ next, combineExtreme sqrt template inputs combined e = some next ∧
      (∀ key, key ≠ e.key → OrdMap.get key next = OrdMap.get key combined) ∧
      OrdMap.get e.key next = (template.get? e.key).map fun _ =>
        .object (OrdMap.collect [("value", number (combinedAt sqrt inputs (.extreme e)).1),
          ("error", number (combinedAt sqrt inputs (.extreme e)).2)]) := by
  unfold combineExtreme
  cases hbin : template.get? e.key with
  | none =>
    refine ⟨_, rfl, fun key hkey => ?_, ?_⟩
    · rw [OrdMap.get_erase, if_neg (Ne.symm hkey)]
    · rw [OrdMap.get_erase, if_pos rfl]
      rfl
  | some bin =>
    have hplace : (binAt template (.extreme e)).isSome := by
      show (template.get? e.key).isSome
      rw [hbin]
      rfl
    rw [combineAt_eq, if_pos (h hplace)]
    refine ⟨_, rfl, fun key hkey => ?_, ?_⟩
    · rw [OrdMap.get_insert, if_neg (Ne.symm hkey)]
    · rw [OrdMap.get_insert, if_pos rfl]
      rfl

/-- What the steps of the combination leave in the object. -/
theorem output_of_steps {sqrt : K → K} {template : Json K} {inputs : List (K × Json K)}
    {object under above : OrdMap String (Json K)} {bins : List (Json K)}
    (hobject : template = .object object) (hbins : template.get? "bins" = some (.array bins))
    (hunderKept : ∀ key, key ≠ Extreme.underflow.key → OrdMap.get key under =
      OrdMap.get key (OrdMap.insert "bins" (.array (bins.zipIdx.map fun bin =>
        combinedBin template bin.1 bin.2 (combinedAt sqrt inputs (.bin bin.2)))) object))
    (hunder : OrdMap.get Extreme.underflow.key under = (template.get? Extreme.underflow.key).map
      fun _ => .object (OrdMap.collect
        [("value", number (combinedAt sqrt inputs (.extreme .underflow)).1),
          ("error", number (combinedAt sqrt inputs (.extreme .underflow)).2)]))
    (hoverKept : ∀ key, key ≠ Extreme.overflow.key → OrdMap.get key above = OrdMap.get key under)
    (hover : OrdMap.get Extreme.overflow.key above = (template.get? Extreme.overflow.key).map
      fun _ => .object (OrdMap.collect
        [("value", number (combinedAt sqrt inputs (.extreme .overflow)).1),
          ("error", number (combinedAt sqrt inputs (.extreme .overflow)).2)])) :
    Output sqrt template inputs (.object (OrdMap.erase "statistics" (OrdMap.insert "sample_count"
      (integer (wrappingSum (inputs.filterMap fun input => integerCount input.2))) above))) := by
  have hget (key : String) (hstatistics : "statistics" ≠ key) (hcount : "sample_count" ≠ key) :
      (Json.object (OrdMap.erase "statistics" (OrdMap.insert "sample_count"
        (integer (wrappingSum (inputs.filterMap fun input => integerCount input.2)))
          above))).get? key = OrdMap.get key above := by
    show OrdMap.get key _ = _
    rw [OrdMap.get_erase, if_neg hstatistics, OrdMap.get_insert, if_neg hcount]
  refine ⟨fun index => ?_, fun e => ?_, ?_, ?_, fun key hkey => ?_⟩
  · show (Json.get? _ "bins").bind (fun value => value.asArray.bind (·[index]?)) = _
    rw [hget "bins" (by decide) (by decide), hoverKept "bins" (by decide),
      hunderKept "bins" (by decide), OrdMap.get_insert, if_pos rfl]
    show (bins.zipIdx.map _)[index]? = Option.map _ ((template.get? "bins").bind _)
    rw [hbins, List.getElem?_map, List.getElem?_zipIdx, Option.map_map]
    show _ = Option.map _ bins[index]?
    cases bins[index]? with
    | none => rfl
    | some bin =>
      simp only [Option.map_some, Function.comp_apply, Nat.zero_add]
  · cases e with
    | underflow => rw [hget _ (by decide) (by decide), hoverKept _ (by decide), hunder]
    | overflow => rw [hget _ (by decide) (by decide), hover]
  · show OrdMap.get "sample_count" _ = _
    rw [OrdMap.get_erase, if_neg (by decide), OrdMap.get_insert, if_pos rfl]
  · show OrdMap.get "statistics" _ = _
    rw [OrdMap.get_erase, if_pos rfl]
  · have hother (other : String) (h : other ∈ ["statistics", "sample_count", "overflow_bin",
        "underflow_bin", "bins"]) : other ≠ key := by
      have hdistinct : ∀ key ∈ layoutKeys, ∀ other ∈ ["statistics", "sample_count", "overflow_bin",
        "underflow_bin", "bins"], other ≠ key := by decide
      exact hdistinct key hkey other h
    rw [hget key (hother _ (by decide)) (hother _ (by decide)),
      hoverKept key (hother "overflow_bin" (by decide)).symm,
      hunderKept key (hother "underflow_bin" (by decide)).symm, OrdMap.get_insert,
      if_neg (hother "bins" (by decide)), hobject]
    rfl

theorem combineHistogram_spec (sqrt : K → K) (input : K × Json K) (inputs : List (K × Json K)) :
    (Accepted input.2 (input :: inputs) → ∃ out,
      combineHistogram sqrt (input :: inputs) = some out ∧
        Output sqrt input.2 (input :: inputs) out) ∧
      (¬ Accepted input.2 (input :: inputs) →
        combineHistogram sqrt (input :: inputs) = none) := by
  cases hlayout : histogramLayout input.2 with
  | none =>
    refine ⟨fun ⟨⟨layout, hsame⟩, _⟩ => ?_, fun _ => ?_⟩
    · rw [hsame input List.mem_cons_self] at hlayout
      cases hlayout
    · show combineBehind sqrt input.2 (input :: inputs) = none
      unfold combineBehind
      rw [hlayout]
      cases input.2.get? "bins" with
      | none => rfl
      | some value => cases hitems : value.asArray with
        | none =>
          show value.asArray.bind _ = none
          rw [hitems]
          rfl
        | some items =>
          show value.asArray.bind _ = none
          rw [hitems]
          rfl
  | some layout =>
    obtain ⟨hkeys, object, bins, hobject, hbins, -⟩ := get?_of_layout hlayout
    have hbehind : combineHistogram sqrt (input :: inputs) =
        if (input :: inputs).any fun input => decide (histogramLayout input.2 ≠ some layout) then none
        else (combineBins sqrt input.2 (input :: inputs) bins).bind fun bins =>
          (combineExtreme sqrt input.2 (input :: inputs) (OrdMap.insert "bins" (.array bins) object)
            .underflow).bind fun combined =>
            (combineExtreme sqrt input.2 (input :: inputs) combined .overflow).bind fun combined =>
              some (.object (OrdMap.erase "statistics" (OrdMap.insert "sample_count"
                (integer (wrappingSum ((input :: inputs).filterMap fun input =>
                  integerCount input.2))) combined))) := by
      show combineBehind sqrt input.2 (input :: inputs) = _
      unfold combineBehind
      rw [hbins, hlayout, hobject]
      rfl
    have hbinAt (index : Nat) : binAt input.2 (.bin index) = bins[index]? := by
      show (input.2.get? "bins").bind _ = _
      rw [hbins]
      rfl
    by_cases hsame : ∀ other ∈ input :: inputs, histogramLayout other.2 = some layout
    · have hany : ¬ ((input :: inputs).any fun input =>
          decide (histogramLayout input.2 ≠ some layout)) = true := by
        rw [List.any_eq_true]
        rintro ⟨other, hother, hne⟩
        exact of_decide_eq_true hne (hsame other hother)
      rw [if_neg hany] at hbehind
      by_cases hregular : ∀ index < bins.length, ∀ other ∈ input :: inputs,
          (statisticsAt other.2 (.bin index)).isSome
      · rw [combineBins_some hregular, Option.bind_some] at hbehind
        by_cases hextreme : ∀ e : Extreme, (binAt input.2 (.extreme e)).isSome →
            ∀ other ∈ input :: inputs, (statisticsAt other.2 (.extreme e)).isSome
        · have haccepted : Accepted input.2 (input :: inputs) := by
            refine ⟨⟨layout, hsame⟩, fun place hplace => ?_⟩
            cases place with
            | bin index =>
              rw [hbinAt] at hplace
              exact hregular index (by simpa using hplace)
            | extreme e => exact hextreme e hplace
          refine ⟨fun _ => ?_, fun hnot => absurd haccepted hnot⟩
          obtain ⟨under, hunder, hunderKept, hunderGet⟩ := combineExtreme_some sqrt
            (OrdMap.insert "bins" (.array (bins.zipIdx.map fun bin =>
              combinedBin input.2 bin.1 bin.2
                (combinedAt sqrt (input :: inputs) (.bin bin.2)))) object) (hextreme .underflow)
          obtain ⟨above, hover, hoverKept, hoverGet⟩ := combineExtreme_some sqrt under
            (hextreme .overflow)
          rw [hunder, Option.bind_some, hover, Option.bind_some] at hbehind
          exact ⟨_, hbehind, output_of_steps hobject hbins hunderKept hunderGet hoverKept hoverGet⟩
        · obtain ⟨e, hbin, hunusable⟩ : ∃ e : Extreme, (binAt input.2 (.extreme e)).isSome ∧
              ¬ ∀ other ∈ input :: inputs, (statisticsAt other.2 (.extreme e)).isSome := by
            push Not at hextreme ⊢
            exact hextreme
          refine ⟨fun ⟨_, hplaces⟩ => absurd (hplaces (.extreme e) hbin) hunusable, fun _ => ?_⟩
          rw [hbehind]
          cases e with
          | underflow => rw [combineExtreme_none hbin hunusable, Option.bind_none]
          | overflow =>
            refine Option.bind_eq_none_iff.2 fun combined _ => ?_
            rw [combineExtreme_none hbin hunusable, Option.bind_none]
      · obtain ⟨index, hindex, hunusable⟩ : ∃ index, index < bins.length ∧
            ¬ ∀ other ∈ input :: inputs, (statisticsAt other.2 (.bin index)).isSome := by
          push Not at hregular ⊢
          exact hregular
        refine ⟨fun ⟨_, hplaces⟩ => absurd (hplaces (.bin index) ?_) hunusable, fun _ => ?_⟩
        · rw [hbinAt]
          simpa using hindex
        · rw [hbehind, combineBins_none hindex hunusable]
          rfl
    · have hany : ((input :: inputs).any fun input =>
          decide (histogramLayout input.2 ≠ some layout)) = true := by
        rw [List.any_eq_true]
        by_contra hnone
        refine hsame fun other hother => ?_
        by_contra hne
        exact hnone ⟨other, hother, decide_eq_true hne⟩
      refine ⟨fun ⟨⟨layout', hsame'⟩, _⟩ => absurd (fun other hother => ?_) hsame, fun _ => ?_⟩
      · rw [hsame' other hother, ← hsame' input List.mem_cons_self, hlayout]
      · rw [hbehind, if_pos hany]

/-! ## Bins of the result -/

theorem get_copyKey (source : Json K) (target : OrdMap String (Json K)) (key other : String) :
    OrdMap.get other (copyKey source target key) =
      if key = other then (source.get? key).or (OrdMap.get other target)
      else OrdMap.get other target := by
  unfold copyKey
  cases source.get? key with
  | none => rw [Option.none_or, ite_self]
  | some value => rw [OrdMap.get_insert, Option.some_or]

theorem get?_combinedBin (template templateBin : Json K) (index : Nat) (combined : K × K)
    (key : String) : (combinedBin template templateBin index combined).get? key =
      if "bin_id" = key ∨ "label" = key then templateBin.get? key
      else OrdMap.get key [("start", number (histogramBinRange template templateBin index).1),
        ("stop", number (histogramBinRange template templateBin index).2),
        ("value", number combined.1), ("error", number combined.2)] := by
  show OrdMap.get key (copyKey templateBin (copyKey templateBin (OrdMap.collect _) "label") "bin_id") = _
  rw [get_copyKey, get_copyKey, OrdMap.get_collect (by show List.Nodup ["start", "stop", "value", "error"]; decide)]
  by_cases hid : "bin_id" = key
  · subst hid
    rw [if_pos rfl, if_neg (by decide), if_pos (Or.inl rfl)]
    exact Option.or_none
  · by_cases hlabel : "label" = key
    · subst hlabel
      rw [if_neg hid, if_pos rfl, if_pos (Or.inr rfl)]
      exact Option.or_none
    · rw [if_neg hid, if_neg hlabel, if_neg (not_or.2 ⟨hid, hlabel⟩)]

omit [Field K] [LinearOrder K] in
/-- The parts of a bin's layout. -/
theorem get_binLayout {bin bin' : Json K} (h : binLayout bin = binLayout bin') :
    bin.get "x_min" = bin'.get "x_min" ∧ bin.get "x_max" = bin'.get "x_max" ∧
      bin.get "bin_id" = bin'.get "bin_id" ∧ bin.get "label" = bin'.get "label" := by
  have hget (key : String) (value : Json K → Json K)
      (hvalue : ∀ bin : Json K, OrdMap.get key [("x_min", bin.get "x_min"),
        ("x_max", bin.get "x_max"), ("bin_id", bin.get "bin_id"), ("label", bin.get "label")] =
          some (value bin)) : value bin = value bin' := by
    have hnodup (bin : Json K) : (OrdMap.keys [("x_min", bin.get "x_min"),
        ("x_max", bin.get "x_max"), ("bin_id", bin.get "bin_id"),
          ("label", bin.get "label")]).Nodup := by
      show List.Nodup ["x_min", "x_max", "bin_id", "label"]
      decide
    have hkey := congrArg (Json.get? · key) h
    unfold binLayout Json.get? at hkey
    dsimp only at hkey
    rw [OrdMap.get_collect (hnodup bin), OrdMap.get_collect (hnodup bin'), hvalue, hvalue] at hkey
    exact Option.some.inj hkey
  exact ⟨hget "x_min" (·.get "x_min") fun _ => rfl, hget "x_max" (·.get "x_max") fun _ => rfl,
    hget "bin_id" (·.get "bin_id") fun _ => rfl, hget "label" (·.get "label") fun _ => rfl⟩

omit [LinearOrder K] in
theorem asF64_get (value : Json K) (key : String) :
    (value.get? key).bind Json.asF64 = (value.get key).asF64 := by
  unfold Json.get
  cases value.get? key <;> rfl

/-- Bins of one layout are combined to the same bin but for its descriptions. -/
theorem combinedBin_layout {template template' bin bin' : Json K} (index : Nat) (combined : K × K)
    (hmin : template.get? "discrete_min_bin_id" = template'.get? "discrete_min_bin_id")
    (hlayout : binLayout bin = binLayout bin') :
    (∀ key ∈ ["start", "stop", "value", "error"],
        (combinedBin template bin index combined).get? key =
          (combinedBin template' bin' index combined).get? key) ∧
      ∀ key ∈ ["label", "bin_id"], (combinedBin template bin index combined).get key =
        (combinedBin template' bin' index combined).get key := by
  obtain ⟨hfirst, hlast, hid, hlabel⟩ := get_binLayout hlayout
  have hrange : histogramBinRange template bin index = histogramBinRange template' bin' index := by
    unfold histogramBinRange
    rw [asF64_get bin, asF64_get bin, asF64_get bin, hfirst, hlast, hid, hmin, ← asF64_get bin',
      ← asF64_get bin', ← asF64_get bin']
  refine ⟨fun key hkey => ?_, fun key hkey => ?_⟩
  · rw [get?_combinedBin, get?_combinedBin, hrange]
    have hother : ¬ ("bin_id" = key ∨ "label" = key) := by
      have hdistinct : ∀ key ∈ ["start", "stop", "value", "error"],
        ¬ ("bin_id" = key ∨ "label" = key) := by decide
      exact hdistinct key hkey
    rw [if_neg hother, if_neg hother]
  · have hown : "bin_id" = key ∨ "label" = key := by
      have hsame : ∀ key ∈ ["label", "bin_id"], "bin_id" = key ∨ "label" = key := by decide
      exact hsame key hkey
    unfold Json.get
    rw [get?_combinedBin, get?_combinedBin, if_pos hown, if_pos hown]
    rcases hown with rfl | rfl
    · exact hid
    · exact hlabel

end Gammaboard.Services
