import Gammaboard.Process.Worker
import Mathlib.Data.List.Basic
import Mathlib.Data.String.Basic
import Mathlib.Tactic.Common

/-!
# TOML values

`toml::Value` as a tree. A table is the list of its entries in the order of their keys, which is
the order of the map of the crate. Floats and date-times are never looked at, so their types are
parameters; parsing and printing come from the crate, with what it documents of them in `Lawful`.
-/

namespace Gammaboard.Config

open Utils (isWhiteSpace)

inductive Toml (F D : Type) where
  | string (s : String)
  | integer (n : Int64)
  | float (x : F)
  | boolean (b : Bool)
  | datetime (d : D)
  | array (items : List (Toml F D))
  | table (entries : List (String × Toml F D))

namespace Toml

variable {F D : Type}

/-- `value.get(key)`: only a table has keys. -/
def get (v : Toml F D) (key : String) : Option (Toml F D) :=
  match v with
  | table entries => entries.lookup key
  | _ => none

def asTable : Toml F D → Option (List (String × Toml F D))
  | table entries => some entries
  | _ => none

def asArray : Toml F D → Option (List (Toml F D))
  | array items => some items
  | _ => none

def asStr : Toml F D → Option String
  | string s => some s
  | _ => none

/-- Every table is in the order of its keys. -/
inductive WellFormed : Toml F D → Prop where
  | string (s : String) : WellFormed (.string s)
  | integer (n : Int64) : WellFormed (.integer n)
  | float (x : F) : WellFormed (.float x)
  | boolean (b : Bool) : WellFormed (.boolean b)
  | datetime (d : D) : WellFormed (.datetime d)
  | array {items : List (Toml F D)} (h : ∀ v ∈ items, WellFormed v) : WellFormed (.array items)
  | table {entries : List (String × Toml F D)} (hkeys : (entries.map Prod.fst).Pairwise (· < ·))
      (h : ∀ e ∈ entries, WellFormed e.2) : WellFormed (.table entries)

end Toml

/-! ## Entries -/

section

variable {α : Type}

/-- What `get_mut` writes to: the entry with this key, where there is one. -/
def setKey (key : String) (v : α) (entries : List (String × α)) : List (String × α) :=
  entries.map fun e => if e.1 = key then (e.1, v) else e

/-- `map.insert(key, v)` -/
def insertKey (key : String) (v : α) : List (String × α) → List (String × α)
  | [] => [(key, v)]
  | e :: entries =>
    if e.1 = key then (key, v) :: entries
    else if key < e.1 then (key, v) :: e :: entries
    else e :: insertKey key v entries

/-- `map.remove(key)` -/
def removeKey (key : String) (entries : List (String × α)) : List (String × α) :=
  entries.filter (·.1 ≠ key)

theorem keys_setKey (key : String) (v : α) (entries : List (String × α)) :
    (setKey key v entries).map Prod.fst = entries.map Prod.fst := by
  unfold setKey
  rw [List.map_map]
  apply List.map_congr_left
  intro e _
  rw [Function.comp_apply]
  split <;> rfl

theorem lookup_setKey {key : String} {v old : α} {entries : List (String × α)}
    (h : entries.lookup key = some old) : (setKey key v entries).lookup key = some v := by
  induction entries with
  | nil => cases h
  | cons e entries ih =>
    obtain ⟨k, x⟩ := e
    unfold setKey at ih ⊢
    rw [List.map_cons]
    by_cases hk : k = key
    · rw [if_pos hk, List.lookup_cons, beq_iff_eq.2 hk.symm]
    · have hne : (key == k) = false := beq_false_of_ne (Ne.symm hk)
      rw [List.lookup_cons, hne] at h
      rw [if_neg hk, List.lookup_cons, hne]
      exact ih h

theorem mem_setKey {key : String} {v : α} {entries : List (String × α)} {e : String × α}
    (h : e ∈ setKey key v entries) : e ∈ entries ∨ e.2 = v := by
  obtain ⟨e', he', rfl⟩ := List.mem_map.1 h
  split
  · exact .inr rfl
  · exact .inl he'

end

/-- The key of a value that is found is a key of the table. -/
theorem mem_of_lookup {α : Type} {key : String} {v : α} {entries : List (String × α)}
    (h : entries.lookup key = some v) : (key, v) ∈ entries := by
  induction entries with
  | nil => cases h
  | cons e entries ih =>
    obtain ⟨k, x⟩ := e
    rw [List.lookup_cons] at h
    split at h
    · rename_i hk
      cases h
      rw [beq_iff_eq.1 hk]
      exact List.mem_cons_self
    · exact List.mem_cons_of_mem _ (ih h)

namespace Toml

variable {F D : Type} {entries : List (String × Toml F D)}

theorem WellFormed.nodup (h : (Toml.table entries).WellFormed) : (entries.map Prod.fst).Nodup := by
  cases h with
  | table hkeys _ => exact hkeys.imp fun hlt => ne_of_lt hlt

theorem WellFormed.lookup (h : (Toml.table entries).WellFormed) {key : String} {v : Toml F D}
    (hv : entries.lookup key = some v) : v.WellFormed := by
  cases h with
  | table _ h => exact h _ (mem_of_lookup hv)

theorem WellFormed.setKey (h : (Toml.table entries).WellFormed) (key : String) {v : Toml F D}
    (hv : v.WellFormed) : (Toml.table (Config.setKey key v entries)).WellFormed := by
  cases h with
  | table hkeys h =>
    refine .table (by rw [keys_setKey]; exact hkeys) ?_
    intro e he
    rcases mem_setKey he with he | rfl
    · exact h e he
    · exact hv

end Toml

/-! ## The crate -/

/-- The `toml` crate: its parser, its printer, and how it displays single values. -/
structure TomlCrate (F D : Type) where
  fromStr : String → Except String (Toml F D)
  toStr : Toml F D → Except String String
  floatText : F → String
  datetimeText : D → String
  valueText : Toml F D → String

/-- What the crate documents of itself: a document is a table with ordered keys, what is printed
reads back, and only the empty table prints as blank text. -/
structure TomlCrate.Lawful {F D : Type} (crate : TomlCrate F D) : Prop where
  parsed : ∀ {text v}, crate.fromStr text = .ok v →
    v.WellFormed ∧ ∃ entries, v = .table entries
  reads : ∀ {entries text}, (Toml.table entries).WellFormed →
    crate.toStr (.table entries) = .ok text → crate.fromStr text = .ok (.table entries)
  blank : ∀ {entries text}, crate.toStr (.table entries) = .ok text →
    (text.toList.all isWhiteSpace = true ↔ entries = [])

end Gammaboard.Config
