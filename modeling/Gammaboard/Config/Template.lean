import Gammaboard.Config.Toml

/-!
# Templates

`api/toml_template.rs`: a document may hold placeholders `$(name:default)`, which the
`replacements` of the same document fill. A `run` is never looked into: a child definition keeps
its own placeholders.
-/

namespace Gammaboard.Config

open Process (splitOnce)
open Utils (trim)

variable {F D : Type}

/-! ## Placeholders -/

structure Placeholder (F D : Type) where
  name : String
  defaultValue : Toml F D

/-- `raw.find("$(")`: the text before it, and the text from there on. -/
def splitAtPlaceholder : List Char → Option (List Char × List Char)
  | [] => none
  | c :: rest =>
    if c = '$' ∧ rest.head? = some '(' then some ([], c :: rest)
    else (splitAtPlaceholder rest).map fun p => (c :: p.1, p.2)

theorem splitAtPlaceholder_length {raw before from' : List Char}
    (h : splitAtPlaceholder raw = some (before, from')) :
    from' ≠ [] ∧ from'.length ≤ raw.length := by
  induction raw generalizing before with
  | nil => cases h
  | cons c rest ih =>
    unfold splitAtPlaceholder at h
    split at h
    · cases h
      exact ⟨List.cons_ne_nil _ _, Nat.le_refl _⟩
    · obtain ⟨p, hp, hpair⟩ := Option.map_eq_some_iff.1 h
      cases hpair
      obtain ⟨hne, hle⟩ := ih hp
      exact ⟨hne, Nat.le_succ_of_le hle⟩

/-- The text up to the first `)`, with it, and the rest. -/
def splitAtClose (raw : List Char) : Option (List Char × List Char) :=
  match raw.span (· ≠ ')') with
  | (_, []) => none
  | (body, close :: rest) => some (body ++ [close], rest)

theorem splitAtClose_length {raw placeholder rest : List Char}
    (h : splitAtClose raw = some (placeholder, rest)) : rest.length < raw.length := by
  unfold splitAtClose at h
  rw [List.span_eq_takeWhile_dropWhile] at h
  have hle := (List.dropWhile_sublist (fun c : Char => decide (c ≠ ')')) (l := raw)).length_le
  split at h
  · cases h
  · rename_i hsplit
    cases h
    rw [Prod.mk.injEq] at hsplit
    rw [hsplit.2, List.length_cons] at hle
    omega

def validateReplacementName (name : List Char) (path : String) : Except String Unit :=
  match name with
  | [] => .error s!"placeholder at {path} has an empty replacement name"
  | first :: chars =>
    if !(first.isAlpha || first == '_') then
      .error s!"placeholder at {path} replacement name must start with an ASCII letter or '_'"
    else if !chars.all fun ch => ch.isAlphanum || ch == '_' then
      .error s!"placeholder at {path} replacement name may only contain ASCII letters, numbers, and '_'"
    else .ok ()

variable (crate : TomlCrate F D)

/-- A value by itself, read as the right side of an entry. -/
def parseStandaloneTomlValue (raw : List Char) : Option (Toml F D) :=
  match crate.fromStr ("value = " ++ String.ofList raw) with
  | .ok document => document.get "value"
  | .error _ => none

def parsePlaceholder (raw : List Char) (path : String) : Except String (Placeholder F D) :=
  match raw with
  | '$' :: '(' :: rest =>
    if rest.getLast? = some ')' then
      match splitOnce ':' rest.dropLast with
      | none => .error s!"placeholder at {path} must use $(name:default)"
      | some (name, defaultRaw) => do
        validateReplacementName name path
        .ok ⟨String.ofList name, (parseStandaloneTomlValue crate (trim defaultRaw)).getD
          (.string (String.ofList (trim defaultRaw)))⟩
    else .error s!"placeholder at {path} must use $(name:default)"
  | _ => .error s!"placeholder at {path} must use $(name:default)"

/-- A string that is one placeholder and nothing else. -/
def parseFullPlaceholder (raw : List Char) (path : String) :
    Except String (Option (Placeholder F D)) :=
  if (splitAtPlaceholder raw).isNone then .ok none
  else if ['$', '('].isPrefixOf raw ∧ (splitAtClose raw).map Prod.snd = some [] then
    (parsePlaceholder crate raw path).map some
  else .ok none

def tomlValueToInterpolatedString : Toml F D → String
  | .string value => value
  | .integer value => toString value
  | .float value => crate.floatText value
  | .boolean value => toString value
  | .datetime value => crate.datetimeText value
  | value => crate.valueText value

/-- What a placeholder stands for. -/
def Placeholder.value (replacements : List (String × Toml F D)) (p : Placeholder F D) : Toml F D :=
  (replacements.lookup p.name).getD p.defaultValue

def interpolatePlaceholders (replacements : List (String × Toml F D)) (path : String)
    (raw : List Char) : Except String (List Char) :=
  match _h : splitAtPlaceholder raw with
  | none => .ok raw
  | some (before, afterStart) =>
    match _h' : splitAtClose afterStart with
    | none => .error s!"placeholder at {path} is missing closing ')'"
    | some (placeholderRaw, rest) => do
      let placeholder ← parsePlaceholder crate placeholderRaw path
      let output ← interpolatePlaceholders replacements path rest
      .ok (before ++ (tomlValueToInterpolatedString crate (placeholder.value replacements)).toList
        ++ output)
termination_by raw.length
decreasing_by
  have := (splitAtPlaceholder_length _h).2
  have := splitAtClose_length _h'
  omega

/-! ## Expansion -/

/-- A string is replaced as a whole where it is one placeholder, and else in its parts. -/
def expandString (replacements : List (String × Toml F D)) (path : String) (raw : String) :
    Except String (Toml F D) := do
  match ← parseFullPlaceholder crate raw.toList path with
  | some placeholder => .ok (placeholder.value replacements)
  | none =>
    if (splitAtPlaceholder raw.toList).isSome then do
      let interpolated ← interpolatePlaceholders crate replacements path raw.toList
      .ok (.string (String.ofList interpolated))
    else .ok (.string raw)

/-- The entries an expansion passes over. -/
def passedOver (path key : String) : Bool := path == "$" && key == "replacements" || key == "run"

mutual

def expandValue (replacements : List (String × Toml F D)) (path : String) :
    Toml F D → Except String (Toml F D)
  | .string raw => expandString crate replacements path raw
  | .array items => do
    let items ← expandItems replacements path 0 items
    .ok (.array items)
  | .table entries => do
    let entries ← expandEntries replacements path entries
    .ok (.table entries)
  | .integer n => .ok (.integer n)
  | .float x => .ok (.float x)
  | .boolean b => .ok (.boolean b)
  | .datetime d => .ok (.datetime d)

def expandItems (replacements : List (String × Toml F D)) (path : String) :
    Nat → List (Toml F D) → Except String (List (Toml F D))
  | _, [] => .ok []
  | index, item :: items => do
    let item ← expandValue replacements s!"{path}[{index}]" item
    let items ← expandItems replacements path (index + 1) items
    .ok (item :: items)

def expandEntries (replacements : List (String × Toml F D)) (path : String) :
    List (String × Toml F D) → Except String (List (String × Toml F D))
  | [] => .ok []
  | (key, item) :: entries => do
    let item ← (if passedOver path key then .ok item
      else expandValue replacements s!"{path}.{key}" item)
    let entries ← expandEntries replacements path entries
    .ok ((key, item) :: entries)

end

/-- The `replacements` of a document. -/
def extractReplacements (value : Toml F D) : Except String (List (String × Toml F D)) :=
  match value.get "replacements" with
  | none => .ok []
  | some (.table entries) => .ok entries
  | some _ => .error "top-level replacements must be a TOML table"

/-- `expand_toml_template`, without the account of the replacements used. -/
def expandTomlTemplate (value : Toml F D) : Except String (Toml F D) := do
  let replacements ← extractReplacements value
  match ← expandValue crate replacements "$" value with
  | .table entries => .ok (.table (removeKey "replacements" entries))
  | value => .ok value

/-- The bindings are put over the `replacements` of a document. -/
def mergeReplacements (value : Toml F D) (replacements : List (String × Toml F D)) :
    Except String (Toml F D) :=
  if replacements.isEmpty then .ok value
  else
    match value with
    | .table entries =>
      match (entries.lookup "replacements").getD (.table []) with
      | .table old =>
        .ok (.table (insertKey "replacements"
          (.table (replacements.foldl (fun merged e => insertKey e.1 e.2 merged) old)) entries))
      | _ => .error "top-level replacements must be a TOML table"
    | _ => .error "templated TOML root must be a table"

end Gammaboard.Config
