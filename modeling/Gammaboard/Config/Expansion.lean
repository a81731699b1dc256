import Gammaboard.Config.Sources

/-!
# Sources under expansion

What expansion makes of the child sources of a document: those that stand in it are passed over,
and new ones come only with the value of a placeholder.
-/

namespace Gammaboard.Config

open Lib (bind_eq_ok)

variable {F D : Type}

/-! ## Entries -/

section

variable {α : Type} {entries : List (String × α)}

theorem lookup_insertKey_self (key : String) (v : α) (entries : List (String × α)) :
    (insertKey key v entries).lookup key = some v := by
  induction entries with
  | nil => simp [insertKey]
  | cons e entries ih =>
    unfold insertKey
    split
    · simp
    · rename_i hne
      split
      · simp
      · rw [List.lookup_cons, beq_false_of_ne (Ne.symm hne)]
        exact ih

theorem lookup_insertKey_ne {key other : String} (v : α) (entries : List (String × α))
    (h : other ≠ key) : (insertKey key v entries).lookup other = entries.lookup other := by
  induction entries with
  | nil => simp [insertKey, h]
  | cons e entries ih =>
    obtain ⟨k, x⟩ := e
    unfold insertKey
    split
    · rename_i hk
      have hne : (other == k) = false := beq_false_of_ne fun hother => h (hother.trans hk)
      rw [List.lookup_cons, List.lookup_cons, beq_false_of_ne h, hne]
    · split
      · rw [List.lookup_cons, beq_false_of_ne h]
      · rw [List.lookup_cons, List.lookup_cons, ih]

end

/-! ## Placeholders -/

variable (crate : TomlCrate F D)

/-- What a value that is one placeholder is replaced by. -/
def placedValue (replacements : List (String × Toml F D)) : Toml F D → Option (Toml F D)
  | .string raw =>
    match parseFullPlaceholder crate raw.toList "" with
    | .ok (some placeholder) => some (placeholder.value replacements)
    | _ => none
  | _ => none

variable {crate}

section

variable {replacements : List (String × Toml F D)} {path : String} {v v' s : Toml F D}

end

/-! ## Documents -/

variable {v merged effective : Toml F D} {bindings replacements : List (String × Toml F D)}

section

variable {crate : TomlCrate F D} {s : Toml F D}

end

end Gammaboard.Config
