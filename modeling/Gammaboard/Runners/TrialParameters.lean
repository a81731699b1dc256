import Gammaboard.Core.ParameterSources
import Gammaboard.Lib.Results
import Gammaboard.Runners.TuningDomains
import Gammaboard.Utils.Json

/-!
# Parameters of trials

How `hyperparameter_tuning.rs` keeps the parameters of its trials: written as JSON by the
serializers of TOML values, and read back by a match of its own. JSON has no date-times and
no numbers that are not finite, and a store may give a float back as an integer.
-/

namespace Gammaboard.Runners

open Gammaboard.Config Gammaboard.Core Gammaboard.Lib Gammaboard.Utils

/-- `f64`, as far as it is compared. -/
structure Floats (F : Type) where
  /-- `==` -/
  eq : F → F → Bool
  /-- `<=` -/
  le : F → F → Bool
  isFinite : F → Bool
  /-- The float closest to an integer. -/
  ofInt : Int → F
  symm : ∀ {x y}, eq x y → eq y x
  trans : ∀ {x y z}, eq x y → eq y z → eq x z
  refl : ∀ {x}, isFinite x → eq x x
  ofInt_finite : ∀ n, isFinite (ofInt n)
  /-- Up to 53 bits an integer is a float of its own. -/
  ofInt_inj : ∀ {m n : Nat}, m ≤ 2 ^ 53 → n ≤ 2 ^ 53 → eq (ofInt m) (ofInt n) → m = n
  between : ∀ {x y z}, le x y → le y z → isFinite x → isFinite z → isFinite y

variable {F D : Type}

/-! ## JSON and TOML -/

section

variable (floats : Floats F) (datetimeText : D → String)

/-- The number of an `i64`. -/
def numberOfI64 (n : Int64) : Number F :=
  if n < 0 then .negInt n else .posInt n.toUInt64

mutual

/-- `Serialize` of a value, into JSON: a float that is not finite is null, and a date-time is an
object with one key. -/
def tomlToJson : Toml F D → Json F
  | .string s => .string s
  | .integer n => .number (numberOfI64 n)
  | .float x => if floats.isFinite x then .number (.float x) else .null
  | .boolean b => .bool b
  | .datetime d => .object [("$__toml_private_datetime", .string (datetimeText d))]
  | .array items => .array (itemsToJson items)
  | .table entries => .object (entriesToJson entries)

def itemsToJson : List (Toml F D) → List (Json F)
  | [] => []
  | item :: items => tomlToJson item :: itemsToJson items

def entriesToJson : List (String × Toml F D) → List (String × Json F)
  | [] => []
  | (key, item) :: entries => (key, tomlToJson item) :: entriesToJson entries

end

/-- `parameters_to_json` -/
def parametersToJson (parameters : OrdMap String (Toml F D)) : Json F :=
  .object (entriesToJson floats datetimeText parameters)

/-- A number, read by `as_i64` and else by `as_f64`. -/
def numberToToml (n : Number F) : Toml F D :=
  match (Json.number n).asI64 with
  | some integer => .integer (Int64.ofInt integer)
  | none =>
    match n with
    | .posInt n => .float (floats.ofInt n.toNat)
    | .negInt n => .float (floats.ofInt n.toInt)
    | .float x => .float x

mutual

def jsonToToml : Json F → Except StoreError (Toml F D)
  | .null => .error (.store "cannot convert null tuning parameter to TOML")
  | .bool b => .ok (.boolean b)
  | .number n => .ok (numberToToml floats n)
  | .string s => .ok (.string s)
  | .array items => do
    let items ← jsonToTomlItems items
    return .array items
  | .object entries => do
    let entries ← jsonToTomlEntries entries
    return .table entries

def jsonToTomlItems : List (Json F) → Except StoreError (List (Toml F D))
  | [] => .ok []
  | item :: items => do
    let item ← jsonToToml item
    let items ← jsonToTomlItems items
    return item :: items

/-- The keys stay in their order. -/
def jsonToTomlEntries : List (String × Json F) → Except StoreError (List (String × Toml F D))
  | [] => .ok []
  | (key, item) :: entries => do
    let item ← jsonToToml item
    let entries ← jsonToTomlEntries entries
    return (key, item) :: entries

end

/-- The parameters of one trial in `previous_trial_parameters`. -/
def previousParameters (parameters : Json F) :
    Except StoreError (OrdMap String (Toml F D)) :=
  match parameters with
  | .object entries => jsonToTomlEntries floats entries
  | _ => .error (.store "tuning trial parameters must be an object")

mutual

/-- `==` of TOML values. -/
def valueEq [DecidableEq D] : Toml F D → Toml F D → Bool
  | .string a, .string b => a == b
  | .integer a, .integer b => a == b
  | .float a, .float b => floats.eq a b
  | .boolean a, .boolean b => a == b
  | .datetime a, .datetime b => a == b
  | .array a, .array b => itemsEq a b
  | .table a, .table b => entriesEq a b
  | _, _ => false

def itemsEq [DecidableEq D] : List (Toml F D) → List (Toml F D) → Bool
  | [], [] => true
  | a :: as, b :: bs => valueEq a b && itemsEq as bs
  | _, _ => false

def entriesEq [DecidableEq D] : List (String × Toml F D) → List (String × Toml F D) → Bool
  | [], [] => true
  | (k, a) :: as, (l, b) :: bs => k == l && valueEq a b && entriesEq as bs
  | _, _ => false

end

end

/-! ## The store -/

/-- A store of JSON values that keeps integers as they are and floats up to their value: a float
may come back as an integer. -/
structure JsonStore (floats : Floats F) where
  number : F → Number F
  kept : ∀ {x}, floats.isFinite x → match number x with
    | .posInt n => floats.eq (floats.ofInt n.toNat) x
    | .negInt n => floats.eq (floats.ofInt n.toInt) x
    | .float y => floats.eq y x

namespace JsonStore

variable {floats : Floats F} (store : JsonStore floats)

mutual

/-- What is read of a value that was written. -/
def keep : Json F → Json F
  | .null => .null
  | .bool b => .bool b
  | .number (.float x) => .number (store.number x)
  | .number (.posInt n) => .number (.posInt n)
  | .number (.negInt n) => .number (.negInt n)
  | .string s => .string s
  | .array items => .array (keepItems items)
  | .object entries => .object (keepEntries entries)

def keepItems : List (Json F) → List (Json F)
  | [] => []
  | item :: items => keep item :: keepItems items

def keepEntries : List (String × Json F) → List (String × Json F)
  | [] => []
  | (key, item) :: entries => (key, keep item) :: keepEntries entries

end

end JsonStore

/-! ## Domains -/

inductive HyperparameterTuningParameterDomain (F D : Type) where
  | float (min max : F)
  | integer (domain : HyperparameterTuningIntegerDomain)
  | categorical (source : ParameterValueSourceSpec F D)

section

variable [Add F] [Sub F] [Mul F] [Div F] [NatCast F] (floats : Floats F)

def categoricalDomainValues (source : ParameterValueSourceSpec F D) :
    Except StoreError (List (Toml F D)) :=
  (source.valuesOf floats.isFinite "hyperparameter_tuning.parameters").mapError .store

namespace HyperparameterTuningParameterDomain

def validate (domain : HyperparameterTuningParameterDomain F D) (name : String) :
    Except String Unit := do
  validateSourceName "hyperparameter_tuning.parameters" name
  match domain with
  | .float min max =>
    if !floats.isFinite min || !floats.isFinite max then
      .error ("hyperparameter_tuning.parameters." ++ name ++ " float bounds must be finite")
    else if floats.le max min then
      .error ("hyperparameter_tuning.parameters." ++ name ++ " float min must be < max")
    else .ok ()
  | .integer domain => domain.validate name
  | .categorical source => do
    let _ ← source.valuesOf floats.isFinite ("hyperparameter_tuning.parameters." ++ name)

/-- A value of the domain. -/
inductive Has : HyperparameterTuningParameterDomain F D → Toml F D → Prop where
  | float {min max x : F} (hmin : floats.le min x) (hmax : floats.le x max) :
      Has (.float min max) (.float x)
  | integer {domain : HyperparameterTuningIntegerDomain} {n : Int64}
      (h : n ∈ integerValues domain.min domain.max domain.stepOr) :
      Has (.integer domain) (.integer n)
  | categorical {source : ParameterValueSourceSpec F D} {values : List (Toml F D)} {v : Toml F D}
      (h : categoricalDomainValues floats source = .ok values) (hv : v ∈ values) :
      Has (.categorical source) v

end HyperparameterTuningParameterDomain

variable [DecidableEq D]

def encodeParameterValue (name : String) (domain : HyperparameterTuningParameterDomain F D)
    (value : Toml F D) : Except StoreError F :=
  match domain with
  | .float _ _ =>
    match value with
    | .float x => .ok x
    | .integer n => .ok (floats.ofInt n.toInt)
    | _ => .error (.store ("egobox float parameter " ++ reprStr name ++ " must be numeric"))
  | .integer _ =>
    match value with
    | .integer n => .ok (floats.ofInt n.toInt)
    | _ => .error (.store ("egobox integer parameter " ++ reprStr name ++ " must be integer"))
  | .categorical source => do
    let values ← categoricalDomainValues floats source
    match values.findIdx? fun candidate => valueEq floats candidate value with
    | some index => .ok (floats.ofInt index)
    | none => .error (.store
        ("egobox categorical parameter " ++ reprStr name ++ " has value outside its domain"))

/-- `ParameterEncoder::encode` -/
def encode (domains : OrdMap String (HyperparameterTuningParameterDomain F D))
    (parameters : OrdMap String (Toml F D)) : Except StoreError (List F) :=
  domains.mapM fun e =>
    match OrdMap.get e.1 parameters with
    | none => .error (.store ("egobox trial is missing parameter " ++ reprStr e.1))
    | some value => encodeParameterValue floats e.1 e.2 value

end

/-! ## What survives the store -/

section

variable {floats : Floats F} (store : JsonStore floats) {datetimeText : D → String}

mutual

/-- No date-time, no float that is not finite, and no float that comes back as an integer. -/
def Storable : Toml F D → Prop
  | .string _ => True
  | .integer _ => True
  | .float x => floats.isFinite x ∧ (Json.number (store.number x)).asI64 = none
  | .boolean _ => True
  | .datetime _ => False
  | .array items => StorableItems items
  | .table entries => StorableEntries entries

def StorableItems : List (Toml F D) → Prop
  | [] => True
  | item :: items => Storable item ∧ StorableItems items

def StorableEntries : List (String × Toml F D) → Prop
  | [] => True
  | (_, item) :: entries => Storable item ∧ StorableEntries entries

end

variable (datetimeText) in
/-- A value as it is read back. -/
def reread (v : Toml F D) : Except StoreError (Toml F D) :=
  jsonToToml floats (store.keep (tomlToJson floats datetimeText v))

variable {store}

theorem numberToToml_posInt {n : UInt64} (h : n.toNat < 2 ^ 63) :
    (numberToToml floats (.posInt n) : Toml F D) = .integer (Int64.ofInt n.toNat) := by
  simp only [numberToToml, Json.asI64, if_pos h]

theorem numberToToml_negInt (n : Int64) :
    (numberToToml floats (.negInt n) : Toml F D) = .integer n := by
  simp only [numberToToml, Json.asI64, Int64.ofInt_toInt]

theorem numberToToml_i64 (n : Int64) :
    (numberToToml floats (numberOfI64 n) : Toml F D) = .integer n := by
  unfold numberOfI64
  split
  · exact numberToToml_negInt n
  · rename_i hneg
    have hnonneg : 0 ≤ n := Int64.not_lt.1 hneg
    have hlt := n.toInt_lt
    have hnat : (n.toUInt64.toNat : Int) = n.toInt := by
      rw [Int64.toNat_toUInt64_of_le hnonneg, ← Int64.toNat_toInt]
      exact Int.toNat_of_nonneg (Int64.le_iff_toInt_le.1 hnonneg)
    rw [numberToToml_posInt (by omega), hnat, Int64.ofInt_toInt]

theorem reread_integer (n : Int64) :
    reread store datetimeText (.integer n : Toml F D) = .ok (.integer n) := by
  have hkeep : store.keep (.number (numberOfI64 n)) = .number (numberOfI64 n) := by
    unfold numberOfI64
    split <;> rfl
  unfold reread
  rw [tomlToJson, hkeep, jsonToToml, numberToToml_i64]

variable (store datetimeText) in
/-- A finite float is read as a float or as an integer of the same value. -/
theorem reread_float {x : F} (h : floats.isFinite x) :
    (∃ y, reread store datetimeText (.float x : Toml F D) = .ok (.float y) ∧ floats.eq y x ∧
      (Json.number (store.number x)).asI64 = none) ∨
    ∃ n, reread store datetimeText (.float x : Toml F D) = .ok (.integer n) ∧
      floats.eq (floats.ofInt n.toInt) x ∧ (Json.number (store.number x)).asI64 ≠ none := by
  have hkept := store.kept h
  unfold reread
  rw [tomlToJson, if_pos h, JsonStore.keep, jsonToToml]
  cases hnumber : store.number x with
  | float y =>
    rw [hnumber] at hkept
    exact .inl ⟨y, rfl, hkept, rfl⟩
  | negInt n =>
    rw [hnumber] at hkept
    exact .inr ⟨n, by rw [numberToToml_negInt], hkept, by simp [Json.asI64]⟩
  | posInt n =>
    rw [hnumber] at hkept
    by_cases hlt : n.toNat < 2 ^ 63
    · refine .inr ⟨Int64.ofInt n.toNat, by rw [numberToToml_posInt hlt], ?_, ?_⟩
      · rw [Int64.toInt_ofInt_of_le (by omega) (by omega)]
        exact hkept
      · simp only [Json.asI64, if_pos hlt]
        exact Option.some_ne_none _
    · refine .inl ⟨floats.ofInt n.toNat, ?_, hkept, ?_⟩
      · simp only [numberToToml, Json.asI64, if_neg hlt]
      · simp only [Json.asI64, if_neg hlt]

variable (store datetimeText) in
theorem reread_not_finite {x : F} (h : ¬ floats.isFinite x) :
    ∃ e, reread store datetimeText (.float x : Toml F D) = .error e := by
  refine ⟨.store "cannot convert null tuning parameter to TOML", ?_⟩
  unfold reread
  rw [tomlToJson, if_neg h, JsonStore.keep, jsonToToml]

theorem reread_datetime (d : D) :
    reread store datetimeText (.datetime d : Toml F D) =
      .ok (.table [("$__toml_private_datetime", .string (datetimeText d))]) := rfl

variable [DecidableEq D]

theorem floats_eq_congr {x y : F} (h : floats.eq y x) (c : F) : floats.eq c y = floats.eq c x :=
  Bool.eq_iff_iff.2 ⟨fun hy => floats.trans hy h, fun hx => floats.trans hx (floats.symm h)⟩

mutual

/-- A storable value is read back as a value that no comparison tells from it. -/
theorem reread_storable : ∀ {v : Toml F D}, Storable store v →
    ∃ v', reread store datetimeText v = .ok v' ∧ ∀ c, valueEq floats c v' = valueEq floats c v
  | .string s, _ => ⟨.string s, rfl, fun _ => rfl⟩
  | .integer n, _ => ⟨.integer n, reread_integer n, fun _ => rfl⟩
  | .boolean b, _ => ⟨.boolean b, rfl, fun _ => rfl⟩
  | .float x, h => by
    rw [Storable] at h
    rcases reread_float store datetimeText h.1 with ⟨y, hy, heq, -⟩ | ⟨_, -, -, hsome⟩
    · refine ⟨.float y, hy, fun c => ?_⟩
      cases c <;> simp only [valueEq]
      exact floats_eq_congr heq _
    · exact absurd h.2 hsome
  | .array items, h => by
    rw [Storable] at h
    obtain ⟨items', hitems, heq⟩ := reread_storableItems h
    refine ⟨.array items', ?_, fun c => ?_⟩
    · unfold reread
      rw [tomlToJson, JsonStore.keep, jsonToToml, hitems]
      rfl
    · cases c <;> simp only [valueEq]
      exact heq _
  | .table entries, h => by
    rw [Storable] at h
    obtain ⟨entries', hentries, heq⟩ := reread_storableEntries h
    refine ⟨.table entries', ?_, fun c => ?_⟩
    · unfold reread
      rw [tomlToJson, JsonStore.keep, jsonToToml, hentries]
      rfl
    · cases c <;> simp only [valueEq]
      exact heq _

theorem reread_storableItems : ∀ {items : List (Toml F D)}, StorableItems store items →
    ∃ items', jsonToTomlItems floats (store.keepItems (itemsToJson floats datetimeText items)) =
      .ok items' ∧ ∀ cs, itemsEq floats cs items' = itemsEq floats cs items
  | [], _ => ⟨[], rfl, fun _ => rfl⟩
  | item :: items, h => by
    rw [StorableItems] at h
    obtain ⟨item', hitem, heq⟩ := reread_storable h.1
    obtain ⟨items', hitems, heqs⟩ := reread_storableItems h.2
    unfold reread at hitem
    refine ⟨item' :: items', ?_, fun cs => ?_⟩
    · rw [itemsToJson, JsonStore.keepItems, jsonToTomlItems, hitem, hitems]
      rfl
    · cases cs with
      | nil => rfl
      | cons c cs => rw [itemsEq, itemsEq, heq, heqs]

theorem reread_storableEntries :
    ∀ {entries : List (String × Toml F D)}, StorableEntries store entries →
    ∃ entries', jsonToTomlEntries floats
        (store.keepEntries (entriesToJson floats datetimeText entries)) = .ok entries' ∧
      ∀ cs, entriesEq floats cs entries' = entriesEq floats cs entries
  | [], _ => ⟨[], rfl, fun _ => rfl⟩
  | (key, item) :: entries, h => by
    rw [StorableEntries] at h
    obtain ⟨item', hitem, heq⟩ := reread_storable h.1
    obtain ⟨entries', hentries, heqs⟩ := reread_storableEntries h.2
    unfold reread at hitem
    refine ⟨(key, item') :: entries', ?_, fun cs => ?_⟩
    · rw [entriesToJson, JsonStore.keepEntries, jsonToTomlEntries, hitem, hentries]
      rfl
    · cases cs with
      | nil => rfl
      | cons c cs => rw [entriesEq, entriesEq, heq, heqs]

end

mutual

/-- A value that is equal to a value before and after the store is storable. -/
theorem storable_of_reread : ∀ {v v' c : Toml F D}, reread store datetimeText v = .ok v' →
    valueEq floats c v → valueEq floats c v' → Storable store v
  | .string _, _, _, _, _, _ => trivial
  | .integer _, _, _, _, _, _ => trivial
  | .boolean _, _, _, _, _, _ => trivial
  | .float x, v', c, h, hc, hc' => by
    rw [Storable]
    by_cases hfinite : floats.isFinite x
    · rcases reread_float store datetimeText hfinite with ⟨_, -, -, hnone⟩ | ⟨n, hn, -, -⟩
      · exact ⟨hfinite, hnone⟩
      · rw [hn] at h
        cases h
        cases c <;> simp [valueEq] at hc hc'
    · obtain ⟨e, he⟩ := reread_not_finite store datetimeText hfinite
      rw [he] at h
      cases h
  | .datetime d, v', c, h, hc, hc' => by
    rw [reread_datetime] at h
    cases h
    cases c <;> simp [valueEq] at hc hc'
  | .array items, v', c, h, hc, hc' => by
    unfold reread at h
    rw [tomlToJson, JsonStore.keep, jsonToToml] at h
    obtain ⟨items', hitems, h⟩ := bind_eq_ok h
    cases h
    cases c with
    | array cs =>
      rw [valueEq] at hc hc'
      rw [Storable]
      exact storableItems_of_reread hitems hc hc'
    | _ => simp [valueEq] at hc
  | .table entries, v', c, h, hc, hc' => by
    unfold reread at h
    rw [tomlToJson, JsonStore.keep, jsonToToml] at h
    obtain ⟨entries', hentries, h⟩ := bind_eq_ok h
    cases h
    cases c with
    | table cs =>
      rw [valueEq] at hc hc'
      rw [Storable]
      exact storableEntries_of_reread hentries hc hc'
    | _ => simp [valueEq] at hc

theorem storableItems_of_reread : ∀ {items items' cs : List (Toml F D)},
    jsonToTomlItems floats (store.keepItems (itemsToJson floats datetimeText items)) = .ok items' →
    itemsEq floats cs items → itemsEq floats cs items' → StorableItems store items
  | [], _, _, _, _, _ => trivial
  | item :: items, items', cs, h, hc, hc' => by
    rw [itemsToJson, JsonStore.keepItems, jsonToTomlItems] at h
    obtain ⟨item', hitem, h⟩ := bind_eq_ok h
    obtain ⟨rest', hrest, h⟩ := bind_eq_ok h
    cases h
    cases cs with
    | nil => cases hc
    | cons c cs =>
      rw [itemsEq, Bool.and_eq_true] at hc hc'
      rw [StorableItems]
      exact ⟨storable_of_reread hitem hc.1 hc'.1, storableItems_of_reread hrest hc.2 hc'.2⟩

theorem storableEntries_of_reread : ∀ {entries entries' cs : List (String × Toml F D)},
    jsonToTomlEntries floats (store.keepEntries (entriesToJson floats datetimeText entries)) =
      .ok entries' →
    entriesEq floats cs entries → entriesEq floats cs entries' → StorableEntries store entries
  | [], _, _, _, _, _ => trivial
  | (key, item) :: entries, entries', cs, h, hc, hc' => by
    rw [entriesToJson, JsonStore.keepEntries, jsonToTomlEntries] at h
    obtain ⟨item', hitem, h⟩ := bind_eq_ok h
    obtain ⟨rest', hrest, h⟩ := bind_eq_ok h
    cases h
    cases cs with
    | nil => cases hc
    | cons c cs =>
      rw [entriesEq, Bool.and_eq_true, Bool.and_eq_true] at hc hc'
      rw [StorableEntries]
      exact ⟨storable_of_reread hitem hc.1.2 hc'.1.2, storableEntries_of_reread hrest hc.2 hc'.2⟩

end

mutual

/-- A storable value is equal to itself. -/
theorem valueEq_self : ∀ {v : Toml F D}, Storable store v → valueEq floats v v
  | .string _, _ => by rw [valueEq, beq_self_eq_true]
  | .integer _, _ => by rw [valueEq, beq_self_eq_true]
  | .boolean _, _ => by rw [valueEq, beq_self_eq_true]
  | .float _, h => by
    rw [Storable] at h
    rw [valueEq]
    exact floats.refl h.1
  | .array _, h => by
    rw [Storable] at h
    rw [valueEq]
    exact itemsEq_self h
  | .table _, h => by
    rw [Storable] at h
    rw [valueEq]
    exact entriesEq_self h

theorem itemsEq_self : ∀ {items : List (Toml F D)}, StorableItems store items →
    itemsEq floats items items
  | [], _ => rfl
  | _ :: _, h => by
    rw [StorableItems] at h
    rw [itemsEq, valueEq_self h.1, itemsEq_self h.2, Bool.and_self]

theorem entriesEq_self : ∀ {entries : List (String × Toml F D)}, StorableEntries store entries →
    entriesEq floats entries entries
  | [], _ => rfl
  | _ :: _, h => by
    rw [StorableEntries] at h
    rw [entriesEq, valueEq_self h.1, entriesEq_self h.2, beq_self_eq_true, Bool.and_self,
      Bool.and_self]

end

end

/-! ## One parameter -/

section

variable [Add F] [Sub F] [Mul F] [Div F] [NatCast F] [DecidableEq D] {floats : Floats F}
  {store : JsonStore floats} {datetimeText : D → String} {name : String}
  {domain : HyperparameterTuningParameterDomain F D} {v : Toml F D}

/-- The parameter is read back, and encoded as before. -/
def Survives (store : JsonStore floats) (datetimeText : D → String) (name : String)
    (domain : HyperparameterTuningParameterDomain F D) (v : Toml F D) : Prop :=
  ∃ v' x y, reread store datetimeText v = .ok v' ∧
    encodeParameterValue floats name domain v' = .ok x ∧
    encodeParameterValue floats name domain v = .ok y ∧ floats.eq x y

/-- A categorical value is storable. -/
def CategoricalStorable (store : JsonStore floats) :
    HyperparameterTuningParameterDomain F D → Toml F D → Prop
  | .categorical _, v => Storable store v
  | _, _ => True

/-- Not more values than a float tells apart. -/
def FewValues (floats : Floats F) : HyperparameterTuningParameterDomain F D → Prop
  | .categorical source =>
    ∀ values, categoricalDomainValues floats source = .ok values → values.length ≤ 2 ^ 53
  | _ => True

theorem encode_categorical {source : ParameterValueSourceSpec F D} {values : List (Toml F D)}
    (h : categoricalDomainValues floats source = .ok values) {x : F} :
    encodeParameterValue floats name (.categorical source) v = .ok x ↔
      ∃ index : Nat, values.findIdx? (fun c => valueEq floats c v) = some index ∧
        floats.ofInt index = x := by
  have hvalues : encodeParameterValue floats name (.categorical source) v =
      match values.findIdx? fun candidate => valueEq floats candidate v with
      | some index => .ok (floats.ofInt index)
      | none => .error (.store
        ("egobox categorical parameter " ++ reprStr name ++ " has value outside its domain")) := by
    simp only [encodeParameterValue, h]
    rfl
  rw [hvalues]
  cases values.findIdx? fun candidate => valueEq floats candidate v with
  | none => simp
  | some index => simp

omit [DecidableEq D] in
/-- The values of a float domain are finite. -/
theorem finite_of_has {min max x : F}
    (hvalid : (HyperparameterTuningParameterDomain.float min max :
      HyperparameterTuningParameterDomain F D).validate floats name = .ok ())
    (hmin : floats.le min x) (hmax : floats.le x max) : floats.isFinite x := by
  obtain ⟨_, -, hbounds⟩ := bind_eq_ok hvalid
  dsimp only at hbounds
  split at hbounds
  · cases hbounds
  · rename_i hfinite
    simp only [Bool.or_eq_true, Bool.not_eq_true', not_or, Bool.not_eq_false] at hfinite
    exact floats.between hmin hmax hfinite.1 hfinite.2

theorem survives_of_storable (hvalid : domain.validate floats name = .ok ())
    (hhas : domain.Has floats v) (hstorable : CategoricalStorable store domain v) :
    Survives store datetimeText name domain v := by
  cases hhas with
  | @float min max x hmin hmax =>
    have hfinite := finite_of_has hvalid hmin hmax
    rcases reread_float store datetimeText hfinite with ⟨y, hy, heq, -⟩ | ⟨n, hn, heq, -⟩
    · exact ⟨_, y, x, hy, rfl, rfl, heq⟩
    · exact ⟨_, _, x, hn, rfl, rfl, heq⟩
  | @integer domain n h =>
    exact ⟨_, _, _, reread_integer n, rfl, rfl, floats.refl (floats.ofInt_finite _)⟩
  | @categorical source values v h hv =>
    obtain ⟨v', hv', heq⟩ : ∃ v', reread store datetimeText v = .ok v' ∧
        ∀ c, valueEq floats c v' = valueEq floats c v := reread_storable hstorable
    have hsome : (values.findIdx? fun c => valueEq floats c v).isSome :=
      List.findIdx?_isSome.trans (List.any_eq_true.2 ⟨v, hv, valueEq_self hstorable⟩)
    obtain ⟨index, hindex⟩ := Option.isSome_iff_exists.1 hsome
    have hindex' : (values.findIdx? fun c => valueEq floats c v') = some index := by
      simp only [heq]
      exact hindex
    exact ⟨v', _, _, hv', (encode_categorical h).2 ⟨index, hindex', rfl⟩,
      (encode_categorical h).2 ⟨index, hindex, rfl⟩, floats.refl (floats.ofInt_finite _)⟩

/-- Conversely, the two points name one candidate, which is equal to both values. -/
theorem storable_of_survives (hhas : domain.Has floats v) (hfew : FewValues floats domain)
    (h : Survives store datetimeText name domain v) : CategoricalStorable store domain v := by
  cases hhas with
  | float => trivial
  | integer => trivial
  | @categorical source values v hvalues hv =>
    obtain ⟨v', x, y, hread, hx, hy, heq⟩ := h
    obtain ⟨i, hi, rfl⟩ := (encode_categorical hvalues).1 hx
    obtain ⟨j, hj, rfl⟩ := (encode_categorical hvalues).1 hy
    obtain ⟨hilt, hci, -⟩ := List.findIdx?_eq_some_iff_getElem.1 hi
    obtain ⟨hjlt, hcj, -⟩ := List.findIdx?_eq_some_iff_getElem.1 hj
    have hlength := hfew values hvalues
    obtain rfl := floats.ofInt_inj (by omega) (by omega) heq
    exact storable_of_reread hread hcj hci

end

/-! ## The parameters of a trial -/

section

variable {floats : Floats F} {datetimeText : D → String}
  {domains : OrdMap String (HyperparameterTuningParameterDomain F D)}
  {parameters : OrdMap String (Toml F D)}

/-- What is read of the entries has their names. -/
theorem names_reread {store : JsonStore floats} : ∀ {parameters restored : OrdMap String (Toml F D)},
    jsonToTomlEntries floats (store.keepEntries (entriesToJson floats datetimeText parameters)) =
      .ok restored →
    List.Forall₂ (fun a r => r.1 = a.1) parameters restored
  | [], _, h => by cases h; exact .nil
  | (key, item) :: parameters, restored, h => by
    rw [entriesToJson, JsonStore.keepEntries, jsonToTomlEntries] at h
    obtain ⟨item', -, h⟩ := bind_eq_ok h
    obtain ⟨rest, hrest, h⟩ := bind_eq_ok h
    cases h
    exact .cons rfl (names_reread hrest)

theorem names_trans (h : List.Forall₂ (fun e a => a.1 = e.1) domains parameters) :
    ∀ {restored : OrdMap String (Toml F D)},
      List.Forall₂ (fun a r => r.1 = a.1) parameters restored →
      List.Forall₂ (fun e r => r.1 = e.1) domains restored := by
  induction h with
  | nil => intro restored hread; cases hread; exact .nil
  | cons hname _ ih =>
    intro restored hread
    cases hread with
    | cons hread hrest => exact .cons (hread.trans hname) (ih hrest)

end

section

variable [Add F] [Sub F] [Mul F] [Div F] [NatCast F] [DecidableEq D] {floats : Floats F}
  {datetimeText : D → String} {domains : OrdMap String (HyperparameterTuningParameterDomain F D)}
  {parameters : OrdMap String (Toml F D)}

/-- One value for every domain, by the order of the names. -/
def Assigned (floats : Floats F)
    (domains : OrdMap String (HyperparameterTuningParameterDomain F D))
    (parameters : OrdMap String (Toml F D)) : Prop :=
  List.Forall₂ (fun e a => a.1 = e.1 ∧ e.2.Has floats a.2) domains parameters

/-- The parameters are read back from the store, to the same point. -/
def Restored (store : JsonStore floats) (datetimeText : D → String)
    (domains : OrdMap String (HyperparameterTuningParameterDomain F D))
    (parameters : OrdMap String (Toml F D)) : Prop :=
  ∃ restored point point',
    previousParameters floats (store.keep (parametersToJson floats datetimeText parameters)) =
      .ok restored ∧
    encode floats domains restored = .ok point ∧ encode floats domains parameters = .ok point' ∧
    List.Forall₂ (fun x y => floats.eq x y) point point'

/-- Every categorical value of the parameters is storable. -/
def AllStorable (store : JsonStore floats)
    (domains : OrdMap String (HyperparameterTuningParameterDomain F D))
    (parameters : OrdMap String (Toml F D)) : Prop :=
  List.Forall₂ (fun e a => CategoricalStorable store e.2 a.2) domains parameters

/-- The coordinate of one parameter. -/
def coordinate (floats : Floats F)
    (pair : (String × HyperparameterTuningParameterDomain F D) × (String × Toml F D)) :
    Except StoreError F :=
  encodeParameterValue floats pair.1.1 pair.1.2 pair.2.2

/-- With the same names, each value is found at its own domain. -/
theorem encode_eq (hasc : OrdMap.Ascending domains)
    (h : List.Forall₂ (fun e a => a.1 = e.1) domains parameters) :
    encode floats domains parameters = (domains.zip parameters).mapM (coordinate floats) := by
  have hkeys : OrdMap.keys parameters = OrdMap.keys domains := by
    unfold OrdMap.keys
    clear hasc
    induction h with
    | nil => rfl
    | cons hname _ ih => rw [List.map_cons, List.map_cons, hname, ih]
  have hparameters : OrdMap.Ascending parameters := by
    unfold OrdMap.Ascending
    rw [hkeys]
    exact hasc
  have hdomains : domains = (domains.zip parameters).map Prod.fst :=
    (List.map_fst_zip h.length_eq.le).symm
  unfold encode
  conv_lhs => rw [hdomains]
  rw [List.mapM_map]
  refine mapM_congr fun pair hpair => ?_
  have hname : pair.2.1 = pair.1.1 := (List.forall₂_iff_zip.1 h).2 hpair
  have hmem : (pair.1.1, pair.2.2) ∈ parameters := hname ▸ (List.of_mem_zip hpair).2
  rw [Function.comp_apply, OrdMap.get_eq_some_of_mem hparameters hmem]
  rfl

/-- The parameters are restored if each one of them survives. -/
theorem all_survive {store : JsonStore floats}
    (h : List.Forall₂ (fun e a => a.1 = e.1) domains parameters) :
    (∃ restored point point',
      jsonToTomlEntries floats (store.keepEntries (entriesToJson floats datetimeText parameters)) =
        .ok restored ∧
      (domains.zip restored).mapM (coordinate floats) = .ok point ∧
      (domains.zip parameters).mapM (coordinate floats) = .ok point' ∧
      List.Forall₂ (fun x y => floats.eq x y) point point') ↔
    List.Forall₂ (fun e a => Survives store datetimeText e.1 e.2 a.2) domains parameters := by
  induction h with
  | nil => exact ⟨fun _ => .nil, fun _ => ⟨[], [], [], rfl, rfl, rfl, .nil⟩⟩
  | @cons e a domains parameters hname _ ih =>
    rw [List.forall₂_cons, ← ih]
    rw [entriesToJson, JsonStore.keepEntries, jsonToTomlEntries, List.zip_cons_cons,
      List.mapM_cons]
    constructor
    · rintro ⟨restored, point, point', hread, hpoint, hpoint', heq⟩
      obtain ⟨item', hitem, hread⟩ := bind_eq_ok hread
      obtain ⟨rest, hrest, hread⟩ := bind_eq_ok hread
      cases hread
      rw [List.zip_cons_cons, List.mapM_cons] at hpoint
      obtain ⟨x, hx, hpoint⟩ := bind_eq_ok hpoint
      obtain ⟨xs, hxs, hpoint⟩ := bind_eq_ok hpoint
      cases hpoint
      obtain ⟨y, hy, hpoint'⟩ := bind_eq_ok hpoint'
      obtain ⟨ys, hys, hpoint'⟩ := bind_eq_ok hpoint'
      cases hpoint'
      obtain ⟨hhead, htail⟩ := List.forall₂_cons.1 heq
      exact ⟨⟨item', x, y, hitem, hx, hy, hhead⟩, rest, xs, ys, hrest, hxs, hys, htail⟩
    · rintro ⟨⟨item', x, y, hitem, hx, hy, hhead⟩, rest, xs, ys, hrest, hxs, hys, htail⟩
      refine ⟨(a.1, item') :: rest, x :: xs, y :: ys, ?_, ?_, ?_, .cons hhead htail⟩
      · exact bind_eq_ok_iff.2 ⟨item', hitem, bind_eq_ok_iff.2 ⟨rest, hrest, rfl⟩⟩
      · rw [List.zip_cons_cons, List.mapM_cons]
        exact bind_eq_ok_iff.2 ⟨x, hx, bind_eq_ok_iff.2 ⟨xs, hxs, rfl⟩⟩
      · exact bind_eq_ok_iff.2 ⟨y, hy, bind_eq_ok_iff.2 ⟨ys, hys, rfl⟩⟩

theorem restored_iff {store : JsonStore floats} (hasc : OrdMap.Ascending domains)
    (h : List.Forall₂ (fun e a => a.1 = e.1) domains parameters) :
    Restored store datetimeText domains parameters ↔
      List.Forall₂ (fun e a => Survives store datetimeText e.1 e.2 a.2) domains parameters := by
  rw [← all_survive h]
  unfold Restored
  rw [parametersToJson, JsonStore.keep, encode_eq hasc h]
  refine exists_congr fun restored => exists_congr fun point => exists_congr fun point' => ?_
  refine and_congr_right fun hread => ?_
  rw [encode_eq hasc (names_trans h (names_reread hread))]

/-- The parameters of a trial survive the store if its categorical values are storable, and only
then: a date-time, a float that is not finite and a float that comes back as an integer are
lost. -/
theorem trial_parameters_survive (store : JsonStore floats) (datetimeText : D → String)
    (hasc : OrdMap.Ascending domains)
    (hvalid : ∀ e ∈ domains, e.2.validate floats e.1 = .ok ())
    (hassigned : Assigned floats domains parameters) :
    (AllStorable store domains parameters → Restored store datetimeText domains parameters) ∧
    ((∀ e ∈ domains, FewValues floats e.2) →
      Restored store datetimeText domains parameters → AllStorable store domains parameters) := by
  have hnames : List.Forall₂ (fun e a => a.1 = e.1) domains parameters :=
    hassigned.imp fun _ _ h => h.1
  rw [restored_iff hasc hnames]
  unfold AllStorable
  constructor
  · intro hstorable
    unfold Assigned at hassigned
    rw [List.forall₂_iff_zip] at hassigned hstorable ⊢
    refine ⟨hassigned.1, fun {e a} hpair => ?_⟩
    exact survives_of_storable (hvalid e (List.of_mem_zip hpair).1) (hassigned.2 hpair).2
      (hstorable.2 hpair)
  · intro hfew hsurvives
    unfold Assigned at hassigned
    rw [List.forall₂_iff_zip] at hassigned hsurvives ⊢
    refine ⟨hassigned.1, fun {e a} hpair => ?_⟩
    exact storable_of_survives (hassigned.2 hpair).2 (hfew e (List.of_mem_zip hpair).1)
      (hsurvives.2 hpair)

end

/-! ## An infinite choice -/

/-- The integers as floats, with infinity. -/
inductive Extended where
  | finite (n : Int)
  | infinity
deriving DecidableEq

namespace Extended

def lift (f : Int → Int → Int) : Extended → Extended → Extended
  | finite a, finite b => finite (f a b)
  | _, _ => infinity

instance : Add Extended := ⟨lift (· + ·)⟩
instance : Sub Extended := ⟨lift (· - ·)⟩
instance : Mul Extended := ⟨lift (· * ·)⟩
instance : Div Extended := ⟨lift (· / ·)⟩
instance : NatCast Extended := ⟨fun n => finite n⟩

def isFinite : Extended → Bool
  | finite _ => true
  | infinity => false

def le : Extended → Extended → Bool
  | finite a, finite b => a ≤ b
  | _, infinity => true
  | infinity, finite _ => false

def floats : Floats Extended where
  eq x y := x == y
  le := le
  isFinite := isFinite
  ofInt := finite
  symm h := beq_iff_eq.2 (beq_iff_eq.1 h).symm
  trans h h' := beq_iff_eq.2 ((beq_iff_eq.1 h).trans (beq_iff_eq.1 h'))
  refl _ := beq_self_eq_true _
  ofInt_finite _ := rfl
  ofInt_inj _ _ h := by
    rw [beq_iff_eq, finite.injEq] at h
    omega
  between {x y z} _ hyz _ hz := by
    cases y with
    | finite n => rfl
    | infinity => cases z with
      | finite n => cases hyz
      | infinity => cases hz

/-- A store that keeps every number as it is. -/
def store : JsonStore floats where
  number := .float
  kept _ := beq_self_eq_true _

end Extended

/-- A choice between names is restored. -/
theorem trial_parameters_survive_names :
    Restored Extended.store Empty.elim
      [("mode", .categorical (.values [.string "plain", .string "log"]))]
      [("mode", .string "log")] :=
  (trial_parameters_survive Extended.store Empty.elim (by simp [OrdMap.Ascending, OrdMap.keys])
    (fun e he => by rcases List.mem_singleton.1 he with rfl; rfl)
    (.cons ⟨rfl, .categorical rfl (by simp)⟩ .nil)).1 (.cons trivial .nil)

/-- A choice between infinity and one is valid and has a point, but cannot be read back. -/
theorem infinite_choice_lost :
    (HyperparameterTuningParameterDomain.categorical
        (.values [.float .infinity, .float (.finite 1)]) :
      HyperparameterTuningParameterDomain Extended Empty).validate Extended.floats "cutoff" =
        .ok () ∧
      Assigned (D := Empty) Extended.floats
        [("cutoff", .categorical (.values [.float .infinity, .float (.finite 1)]))]
        [("cutoff", .float .infinity)] ∧
      encode (D := Empty) Extended.floats
        [("cutoff", .categorical (.values [.float .infinity, .float (.finite 1)]))]
        [("cutoff", .float .infinity)] = .ok [.finite 0] ∧
      ¬ Restored Extended.store Empty.elim
        [("cutoff", .categorical (.values [.float .infinity, .float (.finite 1)]))]
        [("cutoff", .float .infinity)] := by
  refine ⟨rfl, .cons ⟨rfl, .categorical rfl (by simp)⟩ .nil, rfl, ?_⟩
  rintro ⟨restored, -, -, hread, -⟩
  cases hread

end Gammaboard.Runners
