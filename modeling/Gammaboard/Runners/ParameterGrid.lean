import Gammaboard.Config.Expansion
import Gammaboard.Core.ParameterSources
import Gammaboard.Lib.MixedRadix
import Gammaboard.Runners.ParameterScan
import Mathlib.Data.Rat.Defs
import Mathlib.Data.Rat.Cast.Defs

/-!
# The grid of a parameter scan

The points of a grid and the choices of a value for every listed parameter. A
point is the map of the values chosen, by name: a later parameter of a name that
is listed twice is not in it.
-/

namespace Gammaboard.Runners

open Gammaboard.Config Gammaboard.Core Gammaboard.Lib Gammaboard.Utils

variable {W : Type}

/-! ## Points of a grid -/

section Grid

variable {items : List (ParameterGridItem W)} {item : ParameterGridItem W}

/-- The numbers of values. -/
def gridSizes (items : List (ParameterGridItem W)) : List Nat := items.map (·.values.length)

theorem gridSizes_cons : gridSizes (item :: items) = item.values.length :: gridSizes items := rfl

@[simp] theorem length_gridSizes : (gridSizes items).length = items.length := List.length_map _

/-- The map of the values at the given places; of one name the first parameter stays. -/
def valuesAt : List (ParameterGridItem W) → List Nat → Replacements W
  | item :: items, d :: digits =>
    match item.values[d]? with
    | some value => insertKey item.name value (valuesAt items digits)
    | none => valuesAt items digits
  | _, _ => []

/-- The loop leaves what is above the product and the values at the places of the index. -/
theorem foldlM_selectGridValue (h : ∀ item ∈ items, 0 < item.values.length) (index : Nat) :
    items.reverse.foldlM (fun state item => selectGridValue item state) (index, []) =
      .ok (index / (gridSizes items).prod, valuesAt items (places (gridSizes items) index)) := by
  induction items with
  | nil =>
    rw [gridSizes, List.map_nil, List.prod_nil, Nat.div_one]
    rfl
  | cons item items ih =>
    rw [List.forall_mem_cons] at h
    have hlt : index / (gridSizes items).prod % item.values.length < item.values.length :=
      Nat.mod_lt _ h.1
    have hselect : selectGridValue item (index / (gridSizes items).prod,
        valuesAt items (places (gridSizes items) index)) =
          .ok (index / (gridSizes (item :: items)).prod,
            valuesAt (item :: items) (places (gridSizes (item :: items)) index)) := by
      unfold selectGridValue
      rw [gridSizes_cons, places, valuesAt]
      dsimp only
      rw [List.getElem?_eq_getElem hlt, List.prod_cons, Nat.mul_comm, ← Nat.div_div_eq_div_mul]
    rw [List.reverse_cons, List.foldlM_append, ih h.2]
    show (selectGridValue item _ >>= pure) = _
    rw [hselect]
    rfl

/-- An index has a point if it is below the number of points. -/
theorem cartesianGridPoint_eq (h : ∀ item ∈ items, 0 < item.values.length) (index : Nat) :
    cartesianGridPoint items index =
      if index < (gridSizes items).prod then
        .ok (valuesAt items (places (gridSizes items) index))
      else .error (.store "parameter grid index exceeds grid size") := by
  have hpos : 0 < (gridSizes items).prod := by
    refine prod_pos fun s hs => ?_
    obtain ⟨item, hitem, rfl⟩ := List.mem_map.1 hs
    exact h item hitem
  unfold cartesianGridPoint
  rw [foldlM_selectGridValue h]
  show (if index / (gridSizes items).prod ≠ 0 then _ else _) = _
  rw [ite_not]
  refine if_congr ?_ rfl rfl
  rw [Nat.div_eq_zero_iff]
  omega

/-- A product that is checked at every factor fits if it does as a whole. -/
theorem cartesianGridLen_eq (h : ∀ item ∈ items, 0 < item.values.length) :
    cartesianGridLen items =
      if (gridSizes items).prod ≤ gridSizeMax then .ok (gridSizes items).prod
      else .error (.store "parameter grid size overflow") := by
  have hfold : ∀ start, 0 < start → start ≤ gridSizeMax →
      items.foldlM (fun size item =>
        if size * item.values.length ≤ gridSizeMax then .ok (size * item.values.length)
        else .error (.store "parameter grid size overflow")) start =
      if start * (gridSizes items).prod ≤ gridSizeMax then
        (.ok (start * (gridSizes items).prod) : Except StoreError Nat)
      else .error (.store "parameter grid size overflow") := by
    induction items with
    | nil =>
      intro start _ hle
      have hone : start * (gridSizes ([] : List (ParameterGridItem W))).prod = start := Nat.mul_one start
      rw [List.foldlM_nil, hone, if_pos hle]
      rfl
    | cons item items ih =>
      intro start hpos _
      rw [List.forall_mem_cons] at h
      have hsplit : start * (gridSizes (item :: items)).prod =
          start * item.values.length * (gridSizes items).prod := by
        rw [gridSizes_cons, List.prod_cons, Nat.mul_assoc]
      have hrest : 0 < (gridSizes items).prod := by
        refine prod_pos fun s hs => ?_
        obtain ⟨other, hother, rfl⟩ := List.mem_map.1 hs
        exact h.2 other hother
      rw [List.foldlM_cons, hsplit]
      by_cases hfits : start * item.values.length ≤ gridSizeMax
      · rw [if_pos hfits]
        exact ih h.2 _ (Nat.mul_pos hpos h.1) hfits
      · have hover : ¬start * item.values.length * (gridSizes items).prod ≤ gridSizeMax := by
          have := Nat.le_mul_of_pos_right (start * item.values.length) hrest
          omega
        rw [if_neg hfits, if_neg hover]
        rfl
  unfold cartesianGridLen
  rw [hfold 1 Nat.one_pos (by decide), Nat.one_mul]

/-- Two parameters of one name have no more than one value between them. -/
def NoShadowing (items : List (ParameterGridItem W)) : Prop :=
  items.Pairwise fun p q => p.name = q.name → ∀ v ∈ p.values, ∀ w ∈ q.values, v = w

/-- A point has the value at its place for every listed parameter. -/
def Assigns (items : List (ParameterGridItem W)) (digits : List Nat) (point : Replacements W) : Prop :=
  ∀ (i : Nat) (item : ParameterGridItem W) (d : Nat), items[i]? = some item → digits[i]? = some d →
    point.lookup item.name = item.values[d]?

/-- Without shadowing no value chosen is lost. -/
theorem valuesAt_assigns (h : NoShadowing items) {digits : List Nat}
    (hdigits : Below digits (gridSizes items)) : Assigns items digits (valuesAt items digits) := by
  induction items generalizing digits with
  | nil => intro i item d hitem; simp at hitem
  | cons first items ih =>
    obtain ⟨hfirst, hrest⟩ := List.pairwise_cons.1 h
    cases digits with
    | nil => cases hdigits
    | cons e digits =>
      rw [gridSizes_cons] at hdigits
      cases hdigits with
      | cons he hdigits =>
        have hvalue : first.values[e]? = some first.values[e] := List.getElem?_eq_getElem he
        intro i item d hitem hd
        rw [valuesAt, hvalue]
        dsimp only
        cases i with
        | zero =>
          rw [List.getElem?_cons_zero, Option.some.injEq] at hitem hd
          rw [← hitem, ← hd, hvalue]
          exact lookup_insertKey_self _ _ _
        | succ i =>
          rw [List.getElem?_cons_succ] at hitem hd
          have hown := ih hrest hdigits i item d hitem hd
          by_cases hname : first.name = item.name
          · have hlt : d < item.values.length := by
              have hi : i < digits.length := (List.getElem?_eq_some_iff.1 hd).1
              have hbelow := List.Forall₂.get hdigits hi (by
                rw [length_gridSizes]
                exact (List.getElem?_eq_some_iff.1 hitem).1)
              simpa [gridSizes, (List.getElem?_eq_some_iff.1 hd).2,
                (List.getElem?_eq_some_iff.1 hitem).2] using hbelow
            rw [← hname, lookup_insertKey_self, List.getElem?_eq_getElem hlt, Option.some.injEq]
            exact hfirst item (List.mem_of_getElem? hitem) hname _ (List.getElem_mem he) _
              (List.getElem_mem hlt)
          · rw [lookup_insertKey_ne _ _ (Ne.symm hname), hown]

/-- The choice of two places, and the first one elsewhere. -/
def twoPlaces (n i a j b : Nat) : List Nat :=
  (List.range n).map fun k => if k = i then a else if k = j then b else 0

/-- When all choices are points, parameters of one name have one value. -/
theorem noShadowing_of_assigns (h : ∀ item ∈ items, 0 < item.values.length)
    (hall : ∀ digits, Below digits (gridSizes items) → ∃ point, Assigns items digits point) :
    NoShadowing items := by
  refine List.pairwise_iff_getElem.2 fun i j hi hj hij hname v hv w hw => ?_
  obtain ⟨a, ha, rfl⟩ := List.getElem_of_mem hv
  obtain ⟨b, hb, rfl⟩ := List.getElem_of_mem hw
  have hbelow : Below (twoPlaces items.length i a j b) (gridSizes items) := by
    refine List.forall₂_iff_get.2 ⟨by simp [twoPlaces, gridSizes], fun k hk hk' => ?_⟩
    have hk'' : k < items.length := by simpa using hk'
    have hitem := h items[k] (List.getElem_mem hk'')
    simp only [twoPlaces, gridSizes, List.get_eq_getElem, List.getElem_map, List.getElem_range]
    split
    · rename_i hki
      subst hki
      exact ha
    · split
      · rename_i hkj
        subst hkj
        exact hb
      · exact hitem
  obtain ⟨point, hpoint⟩ := hall _ hbelow
  have hfirst := hpoint i items[i] a (List.getElem?_eq_getElem hi) (by simp [twoPlaces, hi])
  have hsecond := hpoint j items[j] b (List.getElem?_eq_getElem hj)
    (by simp [twoPlaces, hj, Nat.ne_of_gt hij])
  rw [hname, hsecond, List.getElem?_eq_getElem ha, List.getElem?_eq_getElem hb,
    Option.some.injEq] at hfirst
  exact hfirst.symm

end Grid

/-! ## Parameter scans -/

section Scan

variable {F D : Type} [Add F] [Sub F] [Mul F] [Div F] [NatCast F] (isFinite : F → Bool)

/-- The parameter as the runner reads it. -/
def scanParameterSpec (parameter : ParameterScanParameter F D) :
    ParameterScanParameterSpec (Toml F D) :=
  ⟨parameter.name, parameter.values isFinite⟩

/-- The values of a parameter that has some. -/
def gridItem (parameter : ParameterScanParameter F D) : ParameterGridItem (Toml F D) :=
  ⟨parameter.name, (parameter.values isFinite).toOption.getD []⟩

/-- The points are the choices of one value for every listed parameter, as many as expected. -/
def GridBijective (parameters : List (ParameterScanParameter F D)) : Prop :=
  ∃ items n, parameterScanGridItems (parameters.map (scanParameterSpec isFinite)) = .ok items ∧
    cartesianGridLen items = .ok n ∧ expectedPoints isFinite parameters = some (n : Int) ∧
    (∀ index, (∃ point, cartesianGridPoint items index = .ok point) ↔ index < n) ∧
    ∃ choice : Nat → List Nat,
      Set.BijOn choice {index | index < n} {digits | Below digits (gridSizes items)} ∧
        ∀ index point, cartesianGridPoint items index = .ok point →
          Assigns items (choice index) point

variable {isFinite} {parameters : List (ParameterScanParameter F D)}

theorem values_ok {parameter : ParameterScanParameter F D}
    (h : parameter.validate isFinite = .ok ()) :
    ∃ values, parameter.values isFinite = .ok values ∧ values ≠ [] := by
  unfold ParameterScanParameter.validate at h
  cases hname : validateSourceName "parameter_scan.parameters" parameter.name with
  | error e =>
    rw [hname] at h
    cases h
  | ok u =>
    cases hvalues : parameter.values isFinite with
    | error e =>
      unfold ParameterScanParameter.values at hvalues
      rw [hname, hvalues] at h
      cases h
    | ok values => exact ⟨values, rfl, ParameterValueSourceSpec.valuesOf_ne_nil isFinite hvalues⟩

theorem forM_ok {α : Type} {f : α → Except String Unit} :
    ∀ {l : List α}, l.forM f = .ok () → ∀ x ∈ l, f x = .ok ()
  | [], _ => by simp
  | x :: l, h => by
    have hcons : (x :: l).forM f = (f x >>= fun _ => l.forM f) := rfl
    rw [hcons] at h
    cases hx : f x with
    | error e =>
      rw [hx] at h
      cases h
    | ok u =>
      rw [hx] at h
      rw [List.forall_mem_cons]
      exact ⟨hx, forM_ok h⟩

/-- Every parameter of a valid scan has values. -/
theorem gridItem_ok (h : validateParameters isFinite parameters = .ok ()) :
    ∀ parameter ∈ parameters, parameter.values isFinite = .ok (gridItem isFinite parameter).values ∧
      0 < (gridItem isFinite parameter).values.length := by
  intro parameter hparameter
  unfold validateParameters at h
  split at h
  · cases h
  · obtain ⟨values, hvalues, hne⟩ := values_ok (forM_ok h parameter hparameter)
    have hitem : (gridItem isFinite parameter).values = values := by
      unfold gridItem
      rw [hvalues]
      rfl
    rw [hitem]
    exact ⟨hvalues, List.length_pos_iff.2 hne⟩

theorem parameterScanGridItems_eq (h : validateParameters isFinite parameters = .ok ()) :
    parameterScanGridItems (parameters.map (scanParameterSpec isFinite)) =
      .ok (parameters.map (gridItem isFinite)) := by
  have hitems := gridItem_ok h
  clear h
  unfold parameterScanGridItems
  induction parameters with
  | nil => rfl
  | cons parameter parameters ih =>
    rw [List.forall_mem_cons] at hitems
    have hvalues : (scanParameterSpec isFinite parameter).values =
        .ok (gridItem isFinite parameter).values := hitems.1.1
    rw [List.map_cons, List.mapM_cons, hvalues, ih hitems.2]
    rfl

/-- The number of points that is expected, as it is counted. -/
theorem parameterScanGridLen_eq (h : validateParameters isFinite parameters = .ok ()) :
    parameterScanGridLen isFinite parameters =
      (cartesianGridLen (parameters.map (gridItem isFinite))).toOption := by
  have hitems := gridItem_ok h
  have hne : parameters.isEmpty = false := by
    unfold validateParameters at h
    split at h
    · cases h
    · rename_i hempty
      exact Bool.eq_false_iff.2 hempty
  unfold parameterScanGridLen cartesianGridLen
  rw [hne, if_neg Bool.false_ne_true]
  clear hne h
  generalize 1 = start
  induction parameters generalizing start with
  | nil => rfl
  | cons parameter parameters ih =>
    rw [List.forall_mem_cons] at hitems
    rw [List.map_cons, List.foldlM_cons, List.foldlM_cons, hitems.1.1]
    show (checkedMulUsize start (gridItem isFinite parameter).values.length >>= _) = _
    unfold checkedMulUsize
    by_cases hfits : start * (gridItem isFinite parameter).values.length ≤ gridSizeMax
    · rw [if_pos hfits, if_pos (show _ ≤ usizeMax from hfits)]
      exact ih hitems.2 _
    · rw [if_neg hfits, if_neg (show ¬_ ≤ usizeMax from hfits)]
      rfl

/-- A count of points is the number expected while it is an `i64`. -/
theorem usizeAsI64_eq {n : Nat} : usizeAsI64 n = n ↔ n < 2 ^ 63 := by
  unfold usizeAsI64
  split <;> omega

variable (isFinite) in
/-- The grid of a valid scan has a point for every choice of values exactly if there are fewer than
`2 ^ 63` of them and parameters that are listed under one name have no more than one value between
them. -/
theorem grid_bijective_iff (h : validateParameters isFinite parameters = .ok ()) :
    GridBijective isFinite parameters ↔
      (parameters.map fun p => (gridItem isFinite p).values.length).prod < 2 ^ 63 ∧
        parameters.Pairwise fun p q => p.name = q.name →
          ∀ v ∈ (gridItem isFinite p).values, ∀ w ∈ (gridItem isFinite q).values, v = w := by
  have hpos : ∀ item ∈ parameters.map (gridItem isFinite), 0 < item.values.length := by
    intro item hitem
    obtain ⟨parameter, hparameter, rfl⟩ := List.mem_map.1 hitem
    exact (gridItem_ok h parameter hparameter).2
  have hsizes : gridSizes (parameters.map (gridItem isFinite)) =
      parameters.map fun p => (gridItem isFinite p).values.length := List.map_map
  have hshadow : NoShadowing (parameters.map (gridItem isFinite)) ↔
      parameters.Pairwise fun p q => p.name = q.name →
        ∀ v ∈ (gridItem isFinite p).values, ∀ w ∈ (gridItem isFinite q).values, v = w :=
    List.pairwise_map
  rw [← hsizes, ← hshadow]
  constructor
  · rintro ⟨items, n, hitems, hlen, hexpected, -, choice, hchoice, hassigns⟩
    rw [parameterScanGridItems_eq h] at hitems
    cases hitems
    rw [expectedPoints, parameterScanGridLen_eq h, hlen] at hexpected
    rw [cartesianGridLen_eq hpos] at hlen
    split at hlen
    · cases hlen
      refine ⟨usizeAsI64_eq.1 (Option.some.inj hexpected), noShadowing_of_assigns hpos ?_⟩
      intro digits hdigits
      obtain ⟨index, hindex, rfl⟩ := hchoice.surjOn hdigits
      have hpoint := cartesianGridPoint_eq hpos index
      rw [if_pos (show index < _ from hindex)] at hpoint
      exact ⟨_, hassigns index _ hpoint⟩
    · cases hlen
  · rintro ⟨hbound, hnone⟩
    have hfits : (gridSizes (parameters.map (gridItem isFinite))).prod ≤ gridSizeMax := by
      have hmax : 2 ^ 63 ≤ gridSizeMax := by decide
      omega
    have hlen := cartesianGridLen_eq hpos
    rw [if_pos hfits] at hlen
    have hsizesPos : ∀ s ∈ gridSizes (parameters.map (gridItem isFinite)), 0 < s := by
      intro s hs
      obtain ⟨item, hitem, rfl⟩ := List.mem_map.1 hs
      exact hpos item hitem
    refine ⟨_, _, parameterScanGridItems_eq h, hlen, ?_, fun index => ?_, places _,
      places_bijOn hsizesPos, fun index point hpoint => ?_⟩
    · rw [expectedPoints, parameterScanGridLen_eq h, hlen]
      exact congrArg some (usizeAsI64_eq.2 hbound)
    · rw [cartesianGridPoint_eq hpos]
      split
      · rename_i hlt
        exact iff_of_true ⟨_, rfl⟩ hlt
      · rename_i hlt
        refine iff_of_false ?_ hlt
        rintro ⟨point, hpoint⟩
        cases hpoint
    · rw [cartesianGridPoint_eq hpos] at hpoint
      split at hpoint
      · cases hpoint
        exact valuesAt_assigns hnone (places_below hsizesPos index)
      · cases hpoint

end Scan

/-- Two parameters of one name, with a value each. -/
def repeatedParameters : List (ParameterScanParameter ℚ Unit) :=
  [⟨"a", .values [.integer 1]⟩, ⟨"a", .values [.integer 2]⟩]

theorem repeatedParameters_valid : validateParameters (fun _ => true) repeatedParameters = .ok () := by
  decide +kernel

/-- The value of the second parameter is in no point. -/
theorem repeated_name_lost :
    ¬∀ parameters : List (ParameterScanParameter ℚ Unit),
      validateParameters (fun _ => true) parameters = .ok () →
        GridBijective (fun _ => true) parameters := by
  intro h
  obtain ⟨items, n, hitems, -, -, hpoints, choice, hchoice, hassigns⟩ :=
    h repeatedParameters repeatedParameters_valid
  rw [parameterScanGridItems_eq repeatedParameters_valid] at hitems
  cases hitems
  have hbelow : Below [0, 0] (gridSizes (repeatedParameters.map (gridItem fun _ => true))) :=
    .cons (show 0 < 1 by decide) (.cons (show 0 < 1 by decide) .nil)
  obtain ⟨index, hindex, hzero⟩ := hchoice.surjOn hbelow
  obtain ⟨point, hpoint⟩ := (hpoints index).2 hindex
  have hshown := hassigns index point hpoint
  rw [hzero] at hshown
  have hfirst := hshown 0 _ 0 rfl rfl
  have hsecond := hshown 1 _ 0 rfl rfl
  have hvalue : some (Toml.integer 1) = some (Toml.integer 2 : Toml ℚ Unit) :=
    hfirst.symm.trans hsecond
  rw [Option.some.injEq, Toml.integer.injEq] at hvalue
  exact absurd hvalue (by decide)

/-- Two parameters of two values each. -/
def pairParameters : List (ParameterScanParameter ℚ Unit) :=
  [⟨"a", .values [.integer 1, .integer 2]⟩, ⟨"b", .range ⟨1, 3, some 2⟩⟩]

theorem grid_bijective_pair : GridBijective (fun _ => true) pairParameters := by
  refine (grid_bijective_iff (fun _ => true) (by decide +kernel)).2 ⟨by decide +kernel, ?_⟩
  refine List.pairwise_cons.2 ⟨fun q hq hname => ?_, List.pairwise_singleton _ _⟩
  rw [List.mem_singleton] at hq
  subst hq
  exact absurd hname (by decide)


end Gammaboard.Runners
