import Gammaboard.Config.Toml
import Gammaboard.Core.Errors
import Gammaboard.Utils.CheckedInt
import Gammaboard.Utils.FloatRounding

/-!
# Integer domains of a tuning task

The integer domains of `core/tasks.rs` and what `hyperparameter_tuning.rs` makes
of them: the number of values, the values of a grid, a random value, the values
for the optimizer, and a value as a float and back.
-/

namespace Gammaboard.Runners

open Gammaboard.Config Gammaboard.Core Gammaboard.Utils

structure HyperparameterTuningIntegerDomain where
  min : Int64
  max : Int64
  step : Option Int64

/-- A sum or a product that leaves the range of its type, or an error that is returned. -/
inductive ArithmeticError where
  | overflow
  | store (e : StoreError)

/-- `a + b` of two `i64`. -/
def addI64 (a b : Int64) : Except ArithmeticError Int64 :=
  match checkedAdd a b with
  | some sum => .ok sum
  | none => .error .overflow

/-- `a * b` of two `i64`. -/
def mulI64 (a b : Int64) : Except ArithmeticError Int64 :=
  match checkedI64 (a.toInt * b.toInt) with
  | some product => .ok product
  | none => .error .overflow

namespace HyperparameterTuningIntegerDomain

variable {F D : Type} (domain : HyperparameterTuningIntegerDomain)

/-- `domain.step.unwrap_or(1)` -/
def stepOr : Int64 := domain.step.getD 1

/-- The integer branch of `validate`. -/
def validate (name : String) : Except String Unit :=
  if domain.max < domain.min then
    .error ("hyperparameter_tuning.parameters." ++ name ++ " integer min must be <= max")
  else if domain.step.any (· ≤ 0) then
    .error ("hyperparameter_tuning.parameters." ++ name ++ " integer step must be > 0")
  else .ok ()

/-- The integer branch of `hyperparameter_grid_domain_len`. -/
def gridDomainLen : Except ArithmeticError (Option Nat) :=
  match checkedSub domain.max domain.min with
  | none => .ok none
  | some span => do
    let count ← addI64 (span / domain.stepOr) 1
    return some (count.toInt % 2 ^ 64).toNat

/-- The integer branch of `sample_parameter`; `randomRange` draws below a bound. -/
def sampleParameter (randomRange : Int64 → Int64) : Except ArithmeticError (Toml F D) :=
  match checkedSub domain.max domain.min with
  | none =>
    .error (.store (.store "integer parameter domain bounds overflow while sampling"))
  | some span => do
    let count ← addI64 (span / domain.stepOr) 1
    if count ≤ 0 then .error (.store (.store "integer parameter domain is empty"))
    else do
      let distance ← mulI64 (randomRange count) domain.stepOr
      let value ← addI64 domain.min distance
      return .integer value

/-- The integer branch of `grid_parameter_values`. -/
def gridParameterValues : List (Toml F D) :=
  (integerValues domain.min domain.max domain.stepOr).map .integer

/-- `integer_domain_values` -/
def integerDomainValues : Except StoreError (List Int64) :=
  let values := integerValues domain.min domain.max domain.stepOr
  if values.isEmpty then .error (.store "integer parameter domain is empty") else .ok values

end HyperparameterTuningIntegerDomain

/-- `take_closest_i64`: of equally close values the first one. -/
def takeClosestI64 (values : List Int64) (value : Int) : Int64 :=
  match values with
  | [] => 0
  | first :: rest =>
    rest.foldl (fun best v =>
      if floatDistance (roundF64 v.toInt) value < floatDistance (roundF64 best.toInt) value then v
      else best) first

/-- The integer branch of `encode_parameter_value`. -/
def encodeInteger {F D : Type} (name : String) (value : Toml F D) : Except StoreError Int :=
  match value with
  | .integer v => .ok (roundF64 v.toInt)
  | _ => .error (.store ("egobox integer parameter " ++ reprStr name ++ " must be integer"))

/-- The integer branch of `decode_parameter_value`, of a float that is an integer. -/
def decodeInteger {F D : Type} (domain : HyperparameterTuningIntegerDomain) (value : Int) :
    Except StoreError (Toml F D) :=
  match domain.integerDomainValues with
  | .error e => .error e
  | .ok values => .ok (.integer (takeClosestI64 values value))

/-! ## The arithmetic of a valid domain -/

section Domain

variable {F D : Type} {domain : HyperparameterTuningIntegerDomain} {name : String}

theorem stepOr_pos (h : domain.validate name = .ok ()) : 0 < domain.stepOr.toInt := by
  unfold HyperparameterTuningIntegerDomain.validate at h
  unfold HyperparameterTuningIntegerDomain.stepOr
  split at h
  · cases h
  · split at h
    · cases h
    · rename_i hstep
      cases hs : domain.step with
      | none => exact show 0 < (1 : Int64).toInt by decide
      | some step =>
        rw [hs, Option.any_some, decide_eq_true_eq, Int64.le_iff_toInt_le, not_le] at hstep
        exact hstep

theorem min_le_max (h : domain.validate name = .ok ()) : domain.min ≤ domain.max := by
  unfold HyperparameterTuningIntegerDomain.validate at h
  split at h
  · cases h
  · rename_i hle
    rwa [Int64.lt_iff_toInt_lt, not_lt, ← Int64.le_iff_toInt_le] at hle

/-- The number of values, as an integer. -/
def countOf (domain : HyperparameterTuningIntegerDomain) : Int :=
  (domain.max.toInt - domain.min.toInt) / domain.stepOr.toInt + 1

theorem checkedSub_span (hspan : domain.max.toInt - domain.min.toInt < 2 ^ 63)
    (hle : domain.min ≤ domain.max) :
    ∃ span, checkedSub domain.max domain.min = some span ∧
      span.toInt = domain.max.toInt - domain.min.toInt := by
  have hle' := Int64.le_iff_toInt_le.1 hle
  cases h : checkedSub domain.max domain.min with
  | none =>
    have := checkedI64_eq_none.1 h
    omega
  | some span => exact ⟨span, rfl, checkedI64_eq_some.1 h⟩

/-- The quotient of the span, plus one. -/
theorem addI64_count {span : Int64} (hspan : span.toInt = domain.max.toInt - domain.min.toInt)
    (hle : domain.min ≤ domain.max) (hstep : 0 < domain.stepOr.toInt) :
    (countOf domain < 2 ^ 63 → ∃ count, addI64 (span / domain.stepOr) 1 = .ok count ∧
      count.toInt = countOf domain) ∧
      (2 ^ 63 ≤ countOf domain → addI64 (span / domain.stepOr) 1 = .error .overflow) := by
  have hle' := Int64.le_iff_toInt_le.1 hle
  have hquotient : (span / domain.stepOr).toInt + (1 : Int64).toInt = countOf domain := by
    have hne : domain.stepOr ≠ -1 := by
      intro heq
      rw [heq] at hstep
      exact absurd hstep (by decide)
    rw [Int64.toInt_div_of_ne_right _ _ hne, hspan, Int.tdiv_eq_ediv_of_nonneg (by omega)]
    rfl
  have hnonneg : 0 ≤ (domain.max.toInt - domain.min.toInt) / domain.stepOr.toInt :=
    Int.ediv_nonneg (by omega) hstep.le
  unfold addI64
  constructor
  · intro hcount
    cases h : checkedAdd (span / domain.stepOr) 1 with
    | none =>
      have hover := checkedI64_eq_none.1 h
      rw [hquotient] at hover
      unfold countOf at hover hcount
      omega
    | some count => exact ⟨count, rfl, (checkedI64_eq_some.1 h).trans hquotient⟩
  · intro hcount
    cases h : checkedAdd (span / domain.stepOr) 1 with
    | none => rfl
    | some count =>
      have hvalue := (checkedI64_eq_some.1 h).trans hquotient
      have := count.toInt_lt
      omega

/-- The value at an offset does not leave the range. -/
theorem value_at {offset : Int64} (hle : domain.min ≤ domain.max) (hstep : 0 < domain.stepOr.toInt)
    (hspan : domain.max.toInt - domain.min.toInt < 2 ^ 63) (hlow : 0 ≤ offset.toInt)
    (hhigh : offset.toInt < countOf domain) :
    ∃ distance value, mulI64 offset domain.stepOr = .ok distance ∧
      addI64 domain.min distance = .ok value ∧
        value.toInt = domain.min.toInt + offset.toInt * domain.stepOr.toInt := by
  have hle' := Int64.le_iff_toInt_le.1 hle
  have hproduct : offset.toInt * domain.stepOr.toInt ≤ domain.max.toInt - domain.min.toInt := by
    unfold countOf at hhigh
    have hquotient : offset.toInt ≤ (domain.max.toInt - domain.min.toInt) / domain.stepOr.toInt := by
      omega
    exact (Int.le_ediv_iff_mul_le hstep).1 hquotient
  have hnonneg : 0 ≤ offset.toInt * domain.stepOr.toInt := Int.mul_nonneg hlow hstep.le
  have hmin := domain.min.le_toInt
  have hmax := domain.max.toInt_lt
  unfold mulI64 addI64
  cases hd : checkedI64 (offset.toInt * domain.stepOr.toInt) with
  | none =>
    have := checkedI64_eq_none.1 hd
    omega
  | some distance =>
    have hdistance := checkedI64_eq_some.1 hd
    cases hv : checkedAdd domain.min distance with
    | none =>
      have := checkedI64_eq_none.1 hv
      omega
    | some value =>
      have hvalue := checkedI64_eq_some.1 hv
      refine ⟨distance, value, rfl, ?_, by omega⟩
      rw [hv]

end Domain

/-! ## The value that is decoded -/

/-- A value that is met exactly is kept. -/
theorem foldl_closest_of_eq {value : Int} {best : Int64} (h : roundF64 best.toInt = value) :
    ∀ rest : List Int64, rest.foldl (fun best v =>
      if floatDistance (roundF64 v.toInt) value < floatDistance (roundF64 best.toInt) value then v
      else best) best = best
  | [] => rfl
  | v :: rest => by
    have hzero : floatDistance (roundF64 best.toInt) value = 0 := floatDistance_eq_zero.2 h
    have hnonneg := floatDistance_nonneg (roundF64 v.toInt) value
    rw [List.foldl_cons, if_neg (by omega)]
    exact foldl_closest_of_eq h rest

theorem foldl_closest_of_find {value : Int} {v : Int64} :
    ∀ {rest : List Int64} {best : Int64}, roundF64 best.toInt ≠ value →
      rest.find? (fun v => decide (roundF64 v.toInt = value)) = some v →
        rest.foldl (fun best v =>
          if floatDistance (roundF64 v.toInt) value < floatDistance (roundF64 best.toInt) value
          then v else best) best = v
  | [], _, _, hfind => by cases hfind
  | w :: rest, best, hbest, hfind => by
    have hpos : floatDistance (roundF64 best.toInt) value ≠ 0 := fun h =>
      hbest (floatDistance_eq_zero.1 h)
    have hnonneg := floatDistance_nonneg (roundF64 best.toInt) value
    rw [List.foldl_cons]
    by_cases hw : roundF64 w.toInt = value
    · have hzero : floatDistance (roundF64 w.toInt) value = 0 := floatDistance_eq_zero.2 hw
      rw [List.find?_cons_of_pos (by simpa using hw), Option.some.injEq] at hfind
      rw [if_pos (by omega), ← hfind]
      exact foldl_closest_of_eq hw rest
    · rw [List.find?_cons_of_neg (by simpa using hw)] at hfind
      refine foldl_closest_of_find ?_ hfind
      split
      · exact hw
      · exact hbest

/-- Of the values with the float that is looked for the first one is taken. -/
theorem takeClosestI64_of_find {values : List Int64} {value : Int} {v : Int64}
    (h : values.find? (fun v => decide (roundF64 v.toInt = value)) = some v) :
    takeClosestI64 values value = v := by
  cases values with
  | nil => cases h
  | cons first rest =>
    by_cases hfirst : roundF64 first.toInt = value
    · rw [List.find?_cons_of_pos (by simpa using hfirst), Option.some.injEq] at h
      rw [← h]
      exact foldl_closest_of_eq hfirst rest
    · rw [List.find?_cons_of_neg (by simpa using hfirst)] at h
      exact foldl_closest_of_find hfirst h

theorem find_rounded {values : List Int64} {v : Int64} (hmem : v ∈ values) :
    ∃ w ∈ values, roundF64 w.toInt = roundF64 v.toInt ∧
      values.find? (fun w => decide (roundF64 w.toInt = roundF64 v.toInt)) = some w := by
  cases h : values.find? fun w => decide (roundF64 w.toInt = roundF64 v.toInt) with
  | none =>
    have := List.find?_eq_none.1 h v hmem
    simp at this
  | some w =>
    refine ⟨w, List.mem_of_find?_eq_some h, ?_, rfl⟩
    simpa using List.find?_some h

/-- Every value is decoded from its float when no two values have one float. -/
theorem decoded_iff {values : List Int64} :
    (∀ v ∈ values, takeClosestI64 values (roundF64 v.toInt) = v) ↔
      ∀ v ∈ values, ∀ w ∈ values, roundF64 v.toInt = roundF64 w.toInt → v = w := by
  constructor
  · intro h v hv w hw heq
    rw [← h v hv, ← h w hw, heq]
  · intro h v hv
    obtain ⟨w, hw, hround, hfind⟩ := find_rounded hv
    rw [takeClosestI64_of_find hfind]
    exact h w hw v hv hround

/-! ## One meaning of a domain -/

section Meaning

variable {domain : HyperparameterTuningIntegerDomain} {name : String}

theorem countOf_eq (hle : domain.min ≤ domain.max) (hstep : 0 < domain.stepOr.toInt) :
    ((integerCount domain.min domain.max domain.stepOr : Nat) : Int) = countOf domain := by
  have hle' := Int64.le_iff_toInt_le.1 hle
  have hnonneg := Int.ediv_nonneg (show 0 ≤ domain.max.toInt - domain.min.toInt by omega) hstep.le
  unfold integerCount countOf
  omega

/-- The values are the sums of the minimum and the multiples of the step up to the maximum. -/
theorem mem_integerValues (hle : domain.min ≤ domain.max) (hstep : 0 < domain.stepOr.toInt)
    {v : Int64} : v ∈ integerValues domain.min domain.max domain.stepOr ↔
      ∃ k : Nat, (k : Int) < countOf domain ∧
        v.toInt = domain.min.toInt + k * domain.stepOr.toInt := by
  have hcount := countOf_eq hle hstep
  have hmap := @map_integerValues domain.min domain.max _ hstep
  constructor
  · intro hv
    have hmem := List.mem_map_of_mem (f := Int64.toInt) hv
    rw [hmap, List.mem_map] at hmem
    obtain ⟨k, hk, heq⟩ := hmem
    exact ⟨k, by have := List.mem_range.1 hk; omega, heq.symm⟩
  · rintro ⟨k, hk, heq⟩
    have hmem : v.toInt ∈ (integerValues domain.min domain.max domain.stepOr).map Int64.toInt := by
      rw [hmap, heq]
      exact List.mem_map_of_mem (f := fun k : Nat => domain.min.toInt + k * domain.stepOr.toInt)
        (List.mem_range.2 (by omega))
    obtain ⟨w, hw, hvalue⟩ := List.mem_map.1 hmem
    rwa [← Int64.toInt_inj.1 hvalue]

end Meaning

/-- A generator that draws below the bound it is given. -/
def DrawsBelow (randomRange : Int64 → Int64) : Prop :=
  ∀ count : Int64, 0 < count.toInt →
    0 ≤ (randomRange count).toInt ∧ (randomRange count).toInt < count.toInt

/-- The counting, the sampling, both enumerations and the decoding of a domain agree, and none of
them overflows. -/
structure SameMeaning (F D : Type) (domain : HyperparameterTuningIntegerDomain) : Prop where
  counted : domain.gridDomainLen = .ok (some (domain.gridParameterValues : List (Toml F D)).length)
  sampled : ∀ randomRange, DrawsBelow randomRange → ∃ v ∈ (domain.gridParameterValues : List (Toml F D)),
    domain.sampleParameter randomRange = .ok v
  reached : ∀ v ∈ (domain.gridParameterValues : List (Toml F D)),
    ∃ randomRange, DrawsBelow randomRange ∧ domain.sampleParameter randomRange = .ok v
  enumerated : ∃ values, domain.integerDomainValues = .ok values ∧
    values.map .integer = (domain.gridParameterValues : List (Toml F D))
  decoded : ∀ name, ∀ v ∈ (domain.gridParameterValues : List (Toml F D)),
    ∃ x, encodeInteger name v = .ok x ∧ decodeInteger domain x = .ok v

/-- Two different values of the domain have different floats. -/
def SeparateFloats (domain : HyperparameterTuningIntegerDomain) : Prop :=
  ∀ i j : Nat, (i : Int) < countOf domain → (j : Int) < countOf domain → i ≠ j →
    roundF64 (domain.min.toInt + i * domain.stepOr.toInt) ≠
      roundF64 (domain.min.toInt + j * domain.stepOr.toInt)

section Agreement

variable {F D : Type} {domain : HyperparameterTuningIntegerDomain} {name : String}

theorem gridDomainLen_eq (hle : domain.min ≤ domain.max) (hstep : 0 < domain.stepOr.toInt)
    (hspan : domain.max.toInt - domain.min.toInt < 2 ^ 63) (hcount : countOf domain < 2 ^ 63) :
    domain.gridDomainLen =
      .ok (some (integerCount domain.min domain.max domain.stepOr)) := by
  obtain ⟨span, hsub, hvalue⟩ := checkedSub_span hspan hle
  obtain ⟨count, hadd, hcountValue⟩ := (addI64_count hvalue hle hstep).1 hcount
  have hlength := countOf_eq hle hstep
  unfold HyperparameterTuningIntegerDomain.gridDomainLen
  rw [hsub]
  show Except.bind (addI64 (span / domain.stepOr) 1) _ = _
  rw [hadd]
  show Except.ok (some (count.toInt % 2 ^ 64).toNat) = _
  rw [hcountValue, ← hlength, Int.emod_eq_of_lt (by omega) (by omega), Int.toNat_natCast]

/-- A draw gives the value at the offset that is drawn. -/
theorem sampleParameter_eq (hle : domain.min ≤ domain.max) (hstep : 0 < domain.stepOr.toInt)
    (hspan : domain.max.toInt - domain.min.toInt < 2 ^ 63) (hcount : countOf domain < 2 ^ 63)
    {randomRange : Int64 → Int64} (hdraws : DrawsBelow randomRange) :
    ∃ count value : Int64, count.toInt = countOf domain ∧
      domain.sampleParameter randomRange = .ok (.integer value : Toml F D) ∧
        value.toInt = domain.min.toInt + (randomRange count).toInt * domain.stepOr.toInt := by
  obtain ⟨span, hsub, hvalue⟩ := checkedSub_span hspan hle
  obtain ⟨count, hadd, hcountValue⟩ := (addI64_count hvalue hle hstep).1 hcount
  have hlength := countOf_eq hle hstep
  have hpositive := integerCount_pos hstep hle
  have hpos : 0 < count.toInt := by omega
  obtain ⟨hlow, hhigh⟩ := hdraws count hpos
  obtain ⟨distance, value, hmul, hsum, heq⟩ :=
    value_at hle hstep hspan hlow (by rwa [← hcountValue])
  refine ⟨count, value, hcountValue, ?_, heq⟩
  unfold HyperparameterTuningIntegerDomain.sampleParameter
  rw [hsub]
  show Except.bind (addI64 (span / domain.stepOr) 1) _ = _
  rw [hadd]
  show (if count ≤ 0 then _ else Except.bind (mulI64 (randomRange count) domain.stepOr) _) = _
  rw [if_neg (by rw [Int64.le_iff_toInt_le, not_le]; exact hpos), hmul]
  show Except.bind (addI64 domain.min distance) _ = _
  rw [hsum]
  rfl

/-- The generator that draws one offset wherever it can. -/
def drawAt (offset count : Int64) : Int64 := if offset < count then offset else 0

theorem drawsBelow_drawAt {offset : Int64} (h : 0 ≤ offset.toInt) : DrawsBelow (drawAt offset) := by
  intro count hpos
  unfold drawAt
  split
  · rename_i hlt
    exact ⟨h, Int64.lt_iff_toInt_lt.1 hlt⟩
  · exact ⟨le_refl 0, hpos⟩

theorem separateFloats_iff (hle : domain.min ≤ domain.max) (hstep : 0 < domain.stepOr.toInt) :
    SeparateFloats domain ↔
      ∀ v ∈ integerValues domain.min domain.max domain.stepOr,
        ∀ w ∈ integerValues domain.min domain.max domain.stepOr,
          roundF64 v.toInt = roundF64 w.toInt → v = w := by
  constructor
  · intro h v hv w hw hround
    obtain ⟨i, hi, hvalue⟩ := (mem_integerValues hle hstep).1 hv
    obtain ⟨j, hj, hvalue'⟩ := (mem_integerValues hle hstep).1 hw
    rw [hvalue, hvalue'] at hround
    have hij : i = j := by
      by_contra hne
      exact h i j hi hj hne hround
    rw [← Int64.toInt_inj, hvalue, hvalue', hij]
  · intro h i j hi hj hne hround
    have hbounds : ∀ k : Nat, (k : Int) < countOf domain →
        ∃ v ∈ integerValues domain.min domain.max domain.stepOr,
          v.toInt = domain.min.toInt + k * domain.stepOr.toInt := by
      intro k hk
      have hmem : domain.min.toInt + k * domain.stepOr.toInt ∈
          (integerValues domain.min domain.max domain.stepOr).map Int64.toInt := by
        rw [map_integerValues hstep]
        have hcount := countOf_eq hle hstep
        exact List.mem_map_of_mem (f := fun k : Nat => domain.min.toInt + k * domain.stepOr.toInt)
          (List.mem_range.2 (by omega))
      exact List.mem_map.1 hmem
    obtain ⟨v, hv, hvalue⟩ := hbounds i hi
    obtain ⟨w, hw, hvalue'⟩ := hbounds j hj
    have heq := h v hv w hw (by rwa [hvalue, hvalue'])
    rw [← Int64.toInt_inj, hvalue, hvalue'] at heq
    have hproduct : (i : Int) * domain.stepOr.toInt = j * domain.stepOr.toInt := by omega
    exact hne (Int.natCast_inj.1 (Int.eq_of_mul_eq_mul_right hstep.ne' hproduct))

theorem integerDomainValues_eq (hle : domain.min ≤ domain.max) (hstep : 0 < domain.stepOr.toInt) :
    domain.integerDomainValues = .ok (integerValues domain.min domain.max domain.stepOr) := by
  have hpos := integerCount_pos hstep hle
  rw [← length_integerValues hstep] at hpos
  unfold HyperparameterTuningIntegerDomain.integerDomainValues
  rw [if_neg (by simpa using List.length_pos_iff.1 hpos)]

/-- The span and the number of values of a domain whose length is given are in range. -/
theorem bounds_of_counted (hle : domain.min ≤ domain.max) (hstep : 0 < domain.stepOr.toInt) {n : Nat}
    (hcounted : domain.gridDomainLen = .ok (some n)) :
    domain.max.toInt - domain.min.toInt < 2 ^ 63 ∧ countOf domain < 2 ^ 63 := by
  have hmin := domain.min.le_toInt
  have hle' := Int64.le_iff_toInt_le.1 hle
  unfold HyperparameterTuningIntegerDomain.gridDomainLen at hcounted
  cases hsub : checkedSub domain.max domain.min with
  | none =>
    rw [hsub] at hcounted
    cases hcounted
  | some span =>
    have hvalue : span.toInt = domain.max.toInt - domain.min.toInt := checkedI64_eq_some.1 hsub
    have hlt := span.toInt_lt
    refine ⟨by omega, ?_⟩
    by_contra hover
    rw [hsub] at hcounted
    have hcount := (addI64_count hvalue hle hstep).2 (not_lt.1 hover)
    change Except.bind (addI64 (span / domain.stepOr) 1) _ = _ at hcounted
    rw [hcount] at hcounted
    cases hcounted

/-- What is decoded for a value is the closest one to its float. -/
theorem decodeInteger_eq (hle : domain.min ≤ domain.max) (hstep : 0 < domain.stepOr.toInt) (x : Int) :
    (decodeInteger domain x : Except StoreError (Toml F D)) = .ok
      (.integer (takeClosestI64 (integerValues domain.min domain.max domain.stepOr) x)) := by
  unfold decodeInteger
  rw [integerDomainValues_eq hle hstep]

/-- The counting, the sampling, the enumerations and the decoding of a valid domain agree exactly
when its span and its number of values are in range and its values have different floats. -/
theorem same_meaning_iff (hvalid : domain.validate name = .ok ()) :
    SameMeaning F D domain ↔ domain.max.toInt - domain.min.toInt < 2 ^ 63 ∧
      countOf domain < 2 ^ 63 ∧ SeparateFloats domain := by
  have hle := min_le_max hvalid
  have hstep := stepOr_pos hvalid
  have hmem : ∀ v : Toml F D, v ∈ (domain.gridParameterValues : List (Toml F D)) ↔
      ∃ i ∈ integerValues domain.min domain.max domain.stepOr, .integer i = v := by
    intro v
    exact List.mem_map
  constructor
  · intro h
    obtain ⟨hspan, hcount⟩ := bounds_of_counted hle hstep h.counted
    refine ⟨hspan, hcount, (separateFloats_iff hle hstep).2 (decoded_iff.1 fun v hv => ?_)⟩
    obtain ⟨x, hencode, hdecode⟩ := h.decoded "" (.integer v) ((hmem _).2 ⟨v, hv, rfl⟩)
    cases hencode
    rw [decodeInteger_eq hle hstep, Except.ok.injEq, Toml.integer.injEq] at hdecode
    exact hdecode
  · rintro ⟨hspan, hcount, hseparate⟩
    have hlength := countOf_eq hle hstep
    constructor
    · rw [gridDomainLen_eq hle hstep hspan hcount]
      unfold HyperparameterTuningIntegerDomain.gridParameterValues
      rw [List.length_map, length_integerValues hstep]
    · intro randomRange hdraws
      obtain ⟨count, value, hcountValue, hsample, hvalue⟩ :=
        sampleParameter_eq (F := F) (D := D) hle hstep hspan hcount hdraws
      have hpositive := integerCount_pos hstep hle
      obtain ⟨hlow, hhigh⟩ := hdraws count (by omega)
      refine ⟨.integer value, (hmem _).2 ⟨value, (mem_integerValues hle hstep).2 ?_, rfl⟩, hsample⟩
      refine ⟨(randomRange count).toInt.toNat, by omega, ?_⟩
      rw [hvalue, Int.toNat_of_nonneg hlow]
    · intro v hv
      obtain ⟨i, hi, rfl⟩ := (hmem v).1 hv
      obtain ⟨k, hk, hvalue⟩ := (mem_integerValues hle hstep).1 hi
      have hoffset : (Int64.ofInt k).toInt = k :=
        Int64.toInt_ofInt_of_le (by omega) (by omega)
      have hdraws : DrawsBelow (drawAt (Int64.ofInt k)) := drawsBelow_drawAt (by omega)
      obtain ⟨count, value, hcountValue, hsample, hsampled⟩ :=
        sampleParameter_eq (F := F) (D := D) hle hstep hspan hcount hdraws
      refine ⟨_, hdraws, ?_⟩
      have hdrawn : drawAt (Int64.ofInt k) count = Int64.ofInt k := by
        unfold drawAt
        exact if_pos (Int64.lt_iff_toInt_lt.2 (by omega))
      rw [hdrawn, hoffset, ← hvalue] at hsampled
      rw [hsample, Int64.toInt_inj.1 hsampled]
    · exact ⟨_, integerDomainValues_eq hle hstep, rfl⟩
    · intro field v hv
      obtain ⟨i, hi, rfl⟩ := (hmem v).1 hv
      refine ⟨_, rfl, ?_⟩
      rw [decodeInteger_eq hle hstep,
        decoded_iff.2 ((separateFloats_iff hle hstep).1 hseparate) i hi]

end Agreement

/-- The domain of all values that are not negative is valid, and counting it overflows. -/
theorem whole_range_overflows :
    ∃ domain : HyperparameterTuningIntegerDomain, domain.validate "seed" = .ok () ∧
      ¬ SameMeaning Int Unit domain := by
  refine ⟨{ min := 0, max := Int64.maxValue, step := none }, by decide, fun h => ?_⟩
  have hcounted := bounds_of_counted (by decide) (by decide) h.counted
  exact absurd hcounted (by decide)

/-- One to five in steps of two. -/
theorem same_meaning_odd :
    SameMeaning Int Unit { min := 1, max := 5, step := some 2 } := by
  refine (@same_meaning_iff _ _ _ "seed" (by decide)).2 ⟨by decide, by decide, ?_⟩
  intro i j hi hj hne
  have hcount : countOf { min := 1, max := 5, step := some 2 } = 3 := by decide
  have hmin : (1 : Int64).toInt = 1 := by decide
  have hstep : (HyperparameterTuningIntegerDomain.stepOr
    { min := 1, max := 5, step := some 2 }).toInt = 2 := by decide
  rw [hcount] at hi hj
  rw [hstep, hmin, roundF64_of_small (by omega), roundF64_of_small (by omega)]
  omega

end Gammaboard.Runners
