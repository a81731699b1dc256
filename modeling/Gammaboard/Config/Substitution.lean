import Gammaboard.Config.Template
import Gammaboard.Lib.Results

/-!
# Substitution of placeholders

What the expansion of a document is to compute, as a relation that says where the text of a
document goes: every placeholder stands for its replacement or its default, everything at once.
The expansion of a document is the only document in relation to it, and an error where there is
none.
-/

namespace Gammaboard.Config

open Lib (bind_eq_ok bind_eq_ok_iff)
open Process (splitOnce)
open Utils (trim)

variable {F D : Type}

/-! ## The reference -/

/-- Text without a placeholder. -/
def Literal (text : List Char) : Prop := ¬ ['$', '('] <:+: text

/-- A letter or an underscore, and then letters, digits and underscores. -/
def ReplacementName : List Char → Prop
  | [] => False
  | first :: chars => (first.isAlpha ∨ first = '_') ∧ ∀ ch ∈ chars, ch.isAlphanum ∨ ch = '_'

section

variable (crate : TomlCrate F D) (replacements : List (String × Toml F D))

/-- A default is a TOML value, and text if it is none. -/
def defaultValue (text : List Char) : Toml F D :=
  (parseStandaloneTomlValue crate (trim text)).getD (.string (String.ofList (trim text)))

/-- What the placeholder `$(body)` stands for. -/
inductive Stands : List Char → Toml F D → Prop where
  | replacement {name default : List Char} {v : Toml F D} (hname : ReplacementName name)
      (h : replacements.lookup (String.ofList name) = some v) : Stands (name ++ ':' :: default) v
  | default {name default : List Char} (hname : ReplacementName name)
      (h : replacements.lookup (String.ofList name) = none) :
      Stands (name ++ ':' :: default) (defaultValue crate default)

/-- The text with every placeholder of it as text; a placeholder ends at its first `)`. -/
inductive Interpolated : List Char → List Char → Prop where
  | literal {raw : List Char} (h : Literal raw) : Interpolated raw raw
  | placeholder {before body rest output : List Char} {v : Toml F D} (hbefore : Literal before)
      (hbody : ')' ∉ body) (hv : Stands crate replacements body v)
      (hrest : Interpolated rest output) :
      Interpolated (before ++ '$' :: '(' :: (body ++ ')' :: rest))
        (before ++ (tomlValueToInterpolatedString crate v).toList ++ output)

/-- The text is one placeholder. -/
def Whole (raw body : List Char) : Prop := raw = '$' :: '(' :: (body ++ [')']) ∧ ')' ∉ body

/-- A string that is one placeholder becomes a value, every other one a string. -/
inductive StringSubstituted (raw : String) : Toml F D → Prop where
  | whole {body : List Char} {v : Toml F D} (hraw : Whole raw.toList body)
      (hv : Stands crate replacements body v) : StringSubstituted raw v
  | text {output : List Char} (hraw : ∀ body, ¬ Whole raw.toList body)
      (h : Interpolated crate replacements raw.toList output) :
      StringSubstituted raw (.string (String.ofList output))

/-- An entry that no expansion looks into: a child definition, and at the root the
replacements. -/
def PassedOver (root : Bool) (key : String) : Prop :=
  root = true ∧ key = "replacements" ∨ key = "run"

mutual

/-- Every string of the document in its place, and nothing else. -/
inductive Substituted : Bool → Toml F D → Toml F D → Prop where
  | string {root : Bool} {raw : String} {v : Toml F D}
      (h : StringSubstituted crate replacements raw v) : Substituted root (.string raw) v
  | integer {root : Bool} (n : Int64) : Substituted root (.integer n) (.integer n)
  | float {root : Bool} (x : F) : Substituted root (.float x) (.float x)
  | boolean {root : Bool} (b : Bool) : Substituted root (.boolean b) (.boolean b)
  | datetime {root : Bool} (d : D) : Substituted root (.datetime d) (.datetime d)
  | array {root : Bool} {items items' : List (Toml F D)} (h : SubstitutedItems items items') :
      Substituted root (.array items) (.array items')
  | table {root : Bool} {entries entries' : List (String × Toml F D)}
      (h : SubstitutedEntries root entries entries') :
      Substituted root (.table entries) (.table entries')

inductive SubstitutedItems : List (Toml F D) → List (Toml F D) → Prop where
  | nil : SubstitutedItems [] []
  | cons {item item' : Toml F D} {items items' : List (Toml F D)}
      (h : Substituted false item item') (hrest : SubstitutedItems items items') :
      SubstitutedItems (item :: items) (item' :: items')

inductive SubstitutedEntries :
    Bool → List (String × Toml F D) → List (String × Toml F D) → Prop where
  | nil {root : Bool} : SubstitutedEntries root [] []
  | passed {root : Bool} {key : String} {item : Toml F D} {entries entries' : List (String × Toml F D)}
      (h : PassedOver root key) (hrest : SubstitutedEntries root entries entries') :
      SubstitutedEntries root ((key, item) :: entries) ((key, item) :: entries')
  | cons {root : Bool} {key : String} {item item' : Toml F D}
      {entries entries' : List (String × Toml F D)} (hkey : ¬ PassedOver root key)
      (h : Substituted false item item') (hrest : SubstitutedEntries root entries entries') :
      SubstitutedEntries root ((key, item) :: entries) ((key, item') :: entries')

end

end

/-! ## Placeholders -/

variable {crate : TomlCrate F D} {replacements : List (String × Toml F D)} {path : String}

theorem literal_nil : Literal [] := fun h => by simp at h

/-- A text with a character in front: the character does not begin a placeholder. -/
theorem literal_cons {c : Char} {text : List Char} :
    Literal (c :: text) ↔ ¬ (c = '$' ∧ text.head? = some '(') ∧ Literal text := by
  unfold Literal
  rw [List.infix_cons_iff, not_or]
  refine and_congr (not_congr ?_) Iff.rfl
  cases text with
  | nil => simp
  | cons d text => simp [eq_comm]

/-- `find("$(")`: the text in front of the first placeholder is literal. -/
theorem splitAtPlaceholder_eq_some {raw before from' : List Char} :
    splitAtPlaceholder raw = some (before, from') ↔
      raw = before ++ from' ∧ Literal before ∧ ∃ rest, from' = '$' :: '(' :: rest := by
  induction raw generalizing before with
  | nil =>
    constructor
    · intro h; cases h
    · rintro ⟨hraw, -, rest, rfl⟩
      simp at hraw
  | cons c raw ih =>
    unfold splitAtPlaceholder
    split
    · rename_i hc
      constructor
      · intro h
        cases h
        obtain ⟨d, rest, rfl⟩ := List.exists_cons_of_ne_nil (l := raw) (by rintro rfl; simp at hc)
        obtain ⟨rfl, hd⟩ := hc
        cases hd
        exact ⟨rfl, literal_nil, rest, rfl⟩
      · rintro ⟨hraw, hbefore, rest, rfl⟩
        cases before with
        | nil => rw [List.nil_append] at hraw; rw [hraw]
        | cons b before =>
          rw [List.cons_append, List.cons.injEq] at hraw
          obtain ⟨rfl, rfl⟩ := hraw
          refine absurd ?_ (literal_cons.1 hbefore).1
          refine ⟨hc.1, ?_⟩
          cases before with
          | nil => simp at hc
          | cons d before => exact hc.2
    · rename_i hc
      constructor
      · intro h
        obtain ⟨p, hp, hpair⟩ := Option.map_eq_some_iff.1 h
        cases hpair
        obtain ⟨hraw, hbefore, hfrom⟩ := ih.1 hp
        refine ⟨by rw [hraw, List.cons_append], literal_cons.2 ⟨?_, hbefore⟩, hfrom⟩
        rintro ⟨rfl, hhead⟩
        exact hc ⟨rfl, by rw [hraw, List.head?_append, hhead, Option.some_or]⟩
      · rintro ⟨hraw, hbefore, rest, rfl⟩
        cases before with
        | nil =>
          rw [List.nil_append, List.cons.injEq] at hraw
          exact absurd ⟨hraw.1, by rw [hraw.2, List.head?_cons]⟩ hc
        | cons b before =>
          rw [List.cons_append, List.cons.injEq] at hraw
          obtain ⟨rfl, hraw⟩ := hraw
          rw [ih.2 ⟨hraw, (literal_cons.1 hbefore).2, rest, rfl⟩, Option.map_some]

theorem splitAtPlaceholder_eq_none {raw : List Char} :
    splitAtPlaceholder raw = none ↔ Literal raw := by
  induction raw with
  | nil => exact ⟨fun _ => literal_nil, fun _ => rfl⟩
  | cons c raw ih =>
    unfold splitAtPlaceholder
    rw [literal_cons]
    split
    · rename_i hc
      exact ⟨(fun h => by cases h), fun h => absurd hc h.1⟩
    · rename_i hc
      rw [Option.map_eq_none_iff, ih]
      exact ⟨fun h => ⟨hc, h⟩, fun h => h.2⟩

/-- The span of a list ends at the first element without the property. -/
theorem span_eq_iff {α : Type} {p : α → Bool} {l a rest : List α} {c : α} :
    l.span p = (a, c :: rest) ↔ l = a ++ c :: rest ∧ (∀ x ∈ a, p x) ∧ p c = false := by
  rw [List.span_eq_takeWhile_dropWhile, Prod.mk.injEq]
  constructor
  · rintro ⟨htake, hdrop⟩
    refine ⟨by rw [← htake, ← hdrop, List.takeWhile_append_dropWhile], fun x hx => ?_, ?_⟩
    · rw [← htake] at hx
      exact List.mem_takeWhile_imp hx
    · have hhead := List.head?_dropWhile_not p l
      rw [hdrop] at hhead
      exact hhead
  · rintro ⟨rfl, ha, hc⟩
    rw [List.takeWhile_append_of_pos ha, List.dropWhile_append_of_pos ha,
      List.takeWhile_cons_of_neg (by rw [hc]; exact Bool.false_ne_true), List.append_nil,
      List.dropWhile_cons_of_neg (by rw [hc]; exact Bool.false_ne_true)]
    exact ⟨rfl, rfl⟩

/-- `find(')')` -/
theorem splitAtClose_eq_some {raw placeholder rest : List Char} :
    splitAtClose raw = some (placeholder, rest) ↔
      ∃ body, placeholder = body ++ [')'] ∧ raw = body ++ ')' :: rest ∧ ')' ∉ body := by
  unfold splitAtClose
  constructor
  · intro h
    split at h
    · cases h
    · rename_i body close rest' hspan
      cases h
      obtain ⟨hraw, hbody, hclose⟩ := span_eq_iff.1 hspan
      obtain rfl : close = ')' := by simpa using hclose
      refine ⟨body, rfl, hraw, fun hmem => ?_⟩
      simpa using hbody _ hmem
  · rintro ⟨body, rfl, hraw, hbody⟩
    have hspan : raw.span (· ≠ ')') = (body, ')' :: rest) := by
      refine span_eq_iff.2 ⟨hraw, fun x hx => ?_, by simp⟩
      simp only [ne_eq, decide_not, Bool.not_eq_true', decide_eq_false_iff_not]
      rintro rfl
      exact hbody hx
    rw [hspan]

theorem splitAtClose_placeholder {after placeholder rest : List Char} :
    splitAtClose ('$' :: '(' :: after) = some (placeholder, rest) ↔
      ∃ body, placeholder = '$' :: '(' :: (body ++ [')']) ∧ after = body ++ ')' :: rest ∧
        ')' ∉ body := by
  rw [splitAtClose_eq_some]
  constructor
  · rintro ⟨body, rfl, hafter, hbody⟩
    match body, hafter, hbody with
    | [], hafter, _ => simp at hafter
    | [c], hafter, _ => simp at hafter
    | c :: d :: body, hafter, hbody =>
      simp only [List.cons_append, List.cons.injEq] at hafter
      obtain ⟨rfl, rfl, rfl⟩ := hafter
      exact ⟨body, rfl, rfl, fun h => hbody (by simp [h])⟩
  · rintro ⟨body, rfl, rfl, hbody⟩
    exact ⟨'$' :: '(' :: body, rfl, rfl, by simpa using hbody⟩

theorem splitOnce_eq_some {text name value : List Char} {separator : Char} :
    splitOnce separator text = some (name, value) ↔
      text = name ++ separator :: value ∧ separator ∉ name := by
  unfold splitOnce
  constructor
  · intro h
    split at h
    · rename_i name' c value' hspan
      cases h
      obtain ⟨htext, hname, hc⟩ := span_eq_iff.1 hspan
      obtain rfl : c = separator := by simpa using hc
      refine ⟨htext, fun hmem => ?_⟩
      simpa using hname _ hmem
    · cases h
  · rintro ⟨htext, hname⟩
    have hspan : text.span (· != separator) = (name, separator :: value) := by
      refine span_eq_iff.2 ⟨htext, fun x hx => ?_, by simp⟩
      rw [bne_iff_ne]
      rintro rfl
      exact hname hx
    rw [hspan]

theorem validateReplacementName_ok {name : List Char} :
    validateReplacementName name path = .ok () ↔ ReplacementName name := by
  unfold validateReplacementName ReplacementName
  cases name with
  | nil => simp
  | cons first chars =>
    dsimp only
    split
    · rename_i h
      simp_all
    · rename_i h
      split
      · rename_i hall
        simp_all
      · rename_i hall
        simp only [Bool.not_eq_true', Bool.not_eq_false, Bool.or_eq_true, beq_iff_eq,
          List.all_eq_true] at h hall
        exact ⟨fun _ => ⟨by simpa using h, hall⟩, fun _ => rfl⟩

/-- A name has no colon. -/
theorem ReplacementName.colon {name : List Char} (h : ReplacementName name) : ':' ∉ name := by
  cases name with
  | nil => exact List.not_mem_nil
  | cons first chars =>
    obtain ⟨hfirst, hchars⟩ := h
    intro hmem
    rcases List.mem_cons.1 hmem with rfl | hmem
    · revert hfirst
      decide
    · have := hchars _ hmem
      revert this
      decide

/-- What a placeholder is read as is what it stands for. -/
theorem parsePlaceholder_ok {body : List Char} {v : Toml F D} :
    (∃ p, parsePlaceholder crate ('$' :: '(' :: (body ++ [')'])) path = .ok p ∧
      p.value replacements = v) ↔ Stands crate replacements body v := by
  simp only [parsePlaceholder, List.getLast?_concat, if_true, List.dropLast_concat]
  constructor
  · rintro ⟨p, hp, rfl⟩
    cases hsplit : splitOnce ':' body with
    | none => rw [hsplit] at hp; cases hp
    | some pair =>
      obtain ⟨name, default⟩ := pair
      rw [hsplit] at hp
      obtain ⟨_, hname, hp⟩ := bind_eq_ok hp
      cases hp
      obtain ⟨rfl, -⟩ := splitOnce_eq_some.1 hsplit
      have hname := validateReplacementName_ok.1 hname
      unfold Placeholder.value
      dsimp only
      cases hlookup : replacements.lookup (String.ofList name) with
      | none => exact .default hname hlookup
      | some v => exact .replacement hname hlookup
  · intro h
    cases h with
    | @replacement name default v hname hlookup =>
      rw [splitOnce_eq_some.2 ⟨rfl, hname.colon⟩]
      refine ⟨_, bind_eq_ok_iff.2 ⟨_, validateReplacementName_ok.2 hname, rfl⟩, ?_⟩
      unfold Placeholder.value
      rw [hlookup, Option.getD_some]
    | @default name default hname hlookup =>
      rw [splitOnce_eq_some.2 ⟨rfl, hname.colon⟩]
      refine ⟨_, bind_eq_ok_iff.2 ⟨_, validateReplacementName_ok.2 hname, rfl⟩, ?_⟩
      unfold Placeholder.value
      rw [hlookup, Option.getD_none]
      rfl

/-! ## Strings -/

/-- The interpolation of a text is the only text in relation to it. -/
theorem interpolatePlaceholders_ok :
    ∀ {raw output : List Char}, interpolatePlaceholders crate replacements path raw = .ok output ↔
      Interpolated crate replacements raw output := by
  intro raw
  induction hlength : raw.length using Nat.strong_induction_on generalizing raw with
  | _ n ih =>
    subst hlength
    intro output
    rw [interpolatePlaceholders]
    constructor
    · intro h
      split at h
      · rename_i hnone
        cases h
        exact .literal (splitAtPlaceholder_eq_none.1 hnone)
      · rename_i before afterStart hsome
        obtain ⟨rfl, hbefore, after, rfl⟩ := splitAtPlaceholder_eq_some.1 hsome
        split at h
        · cases h
        · rename_i placeholderRaw rest hclose
          have hlt := splitAtClose_length hclose
          obtain ⟨body, rfl, rfl, hbody⟩ := splitAtClose_placeholder.1 hclose
          obtain ⟨p, hp, h⟩ := bind_eq_ok h
          obtain ⟨tail, htail, h⟩ := bind_eq_ok h
          cases h
          have hv : Stands crate replacements body (p.value replacements) :=
            parsePlaceholder_ok.1 ⟨p, hp, rfl⟩
          have hrest := (ih rest.length (by simp; omega) rfl).1 htail
          exact .placeholder hbefore hbody hv hrest
    · intro h
      cases h with
      | literal h =>
        split
        · rfl
        · rename_i hsome
          rw [splitAtPlaceholder_eq_none.2 h] at hsome
          cases hsome
      | @placeholder before body rest tail v hbefore hbody hv hrest =>
        have hsome := splitAtPlaceholder_eq_some.2
          ⟨rfl, hbefore, body ++ ')' :: rest, rfl⟩
        have hclose := splitAtClose_placeholder.2
          ⟨body, rfl, (rfl : body ++ ')' :: rest = _), hbody⟩
        obtain ⟨p, hp, rfl⟩ := parsePlaceholder_ok.2 hv
        split
        · rename_i hnone
          rw [hsome] at hnone
          cases hnone
        · rename_i before' afterStart hsome'
          rw [hsome] at hsome'
          cases hsome'
          split
          · rename_i hnone
            rw [hclose] at hnone
            cases hnone
          · rename_i placeholderRaw rest' hclose'
            rw [hclose] at hclose'
            cases hclose'
            have htail := (ih rest.length (by simp; omega) rfl).2 hrest
            exact bind_eq_ok_iff.2 ⟨p, hp, bind_eq_ok_iff.2 ⟨tail, htail, rfl⟩⟩

/-- The text begins a placeholder, and its first `)` is its end. -/
theorem whole_iff {raw : List Char} :
    ['$', '('].isPrefixOf raw ∧ (splitAtClose raw).map Prod.snd = some [] ↔
      ∃ body, Whole raw body := by
  constructor
  · rintro ⟨hbegins, hclose⟩
    obtain ⟨after, rfl⟩ := List.isPrefixOf_iff_prefix.1 hbegins
    obtain ⟨⟨placeholder, rest⟩, hclose, hrest⟩ := Option.map_eq_some_iff.1 hclose
    obtain rfl : rest = [] := hrest
    obtain ⟨body, -, rfl, hbody⟩ := splitAtClose_placeholder.1 hclose
    exact ⟨body, rfl, hbody⟩
  · rintro ⟨body, rfl, hbody⟩
    have hclose := splitAtClose_placeholder.2 ⟨body, rfl, (rfl : body ++ [')'] = _), hbody⟩
    exact ⟨rfl, by rw [hclose, Option.map_some]⟩

theorem Whole.placeholder {raw body : List Char} (h : Whole raw body) :
    splitAtPlaceholder raw = some ([], raw) := by
  obtain ⟨rfl, -⟩ := h
  exact splitAtPlaceholder_eq_some.2 ⟨rfl, literal_nil, _, rfl⟩

/-- A string that is one placeholder is read as one. -/
theorem parseFullPlaceholder_whole {raw body : List Char} (h : Whole raw body) :
    parseFullPlaceholder crate raw path = (parsePlaceholder crate raw path).map some := by
  unfold parseFullPlaceholder
  rw [h.placeholder, Option.isNone_some, if_neg Bool.false_ne_true, if_pos (whole_iff.2 ⟨body, h⟩)]

theorem parseFullPlaceholder_text {raw : List Char} (h : ∀ body, ¬ Whole raw body) :
    parseFullPlaceholder crate raw path = .ok none := by
  unfold parseFullPlaceholder
  split
  · rfl
  · rw [if_neg fun hwhole => ?_]
    obtain ⟨body, hbody⟩ := whole_iff.1 hwhole
    exact h body hbody

/-- Every other string is interpolated; without a placeholder it stays. -/
theorem expandString_text {raw : String} (h : ∀ body, ¬ Whole raw.toList body) :
    expandString crate replacements path raw =
      (interpolatePlaceholders crate replacements path raw.toList >>= fun output =>
        .ok (.string (String.ofList output))) := by
  unfold expandString
  rw [parseFullPlaceholder_text h]
  cases hsplit : splitAtPlaceholder raw.toList with
  | some parts => rfl
  | none =>
    have hliteral := splitAtPlaceholder_eq_none.1 hsplit
    rw [interpolatePlaceholders_ok.2 (.literal hliteral)]
    show Except.ok _ = Except.ok _
    rw [String.ofList_toList]

/-- The expansion of a string is the only value in relation to it. -/
theorem expandString_iff {raw : String} {v : Toml F D} :
    expandString crate replacements path raw = .ok v ↔
      StringSubstituted crate replacements raw v := by
  by_cases hraw : ∃ body, Whole raw.toList body
  · obtain ⟨body, hbody⟩ := hraw
    have hexpand : expandString crate replacements path raw = .ok v ↔
        Stands crate replacements body v := by
      rw [← @parsePlaceholder_ok _ _ crate replacements path, ← hbody.1]
      unfold expandString
      rw [parseFullPlaceholder_whole hbody]
      cases parsePlaceholder crate raw.toList path with
      | error e => exact ⟨(fun h => by cases h), (fun ⟨_, h, _⟩ => by cases h)⟩
      | ok p =>
        constructor
        · intro h
          cases h
          exact ⟨p, rfl, rfl⟩
        · rintro ⟨p', hp, rfl⟩
          cases hp
          rfl
    rw [hexpand]
    constructor
    · exact .whole hbody
    · intro h
      cases h with
      | whole hwhole hv =>
        obtain ⟨hraw, hwhole⟩ := hwhole
        rw [hbody.1] at hraw
        have hsame := List.append_cancel_right (List.cons.inj (List.cons.inj hraw).2).2
        rw [hsame]
        exact hv
      | text hno => exact absurd hbody (hno body)
  · have hno : ∀ body, ¬ Whole raw.toList body := fun body h => hraw ⟨body, h⟩
    rw [expandString_text hno]
    constructor
    · intro h
      obtain ⟨output, houtput, h⟩ := bind_eq_ok h
      cases h
      exact .text hno (interpolatePlaceholders_ok.1 houtput)
    · intro h
      cases h with
      | whole hwhole => exact absurd hwhole (hno _)
      | text _ h => exact bind_eq_ok_iff.2 ⟨_, interpolatePlaceholders_ok.2 h, rfl⟩

/-! ## Documents -/

/-- Where an expansion is: only the path of the root is the one it begins with. -/
def IsPath (root : Bool) (path : String) : Prop := path ≠ "" ∧ (path = "$" ↔ root = true)

theorem IsPath.root : IsPath true "$" := ⟨by decide, by decide⟩

/-- The path of a part is longer than the one of the root. -/
theorem isPath_extended {path separator : String} (h : path ≠ "") (hseparator : separator ≠ "")
    (rest : String) : IsPath false (path ++ separator ++ rest) := by
  have hlength : 2 ≤ (path ++ separator ++ rest).length := by
    have hpath := Nat.pos_of_ne_zero (String.length_eq_zero_iff.not.2 h)
    have hseparator := Nat.pos_of_ne_zero (String.length_eq_zero_iff.not.2 hseparator)
    rw [String.length_append, String.length_append]
    omega
  have hne : ∀ text : String, text.length < 2 → path ++ separator ++ rest ≠ text := by
    rintro text htext rfl
    omega
  exact ⟨hne "" (by decide), by simp [hne "$" (by decide)]⟩

theorem IsPath.passedOver_iff {root : Bool} (h : IsPath root path) {key : String} :
    passedOver path key = true ↔ PassedOver root key := by
  unfold passedOver PassedOver
  rw [Bool.or_eq_true, Bool.and_eq_true, beq_iff_eq, beq_iff_eq, beq_iff_eq, h.2]

mutual

/-- The expansion of a value is the only value in relation to it. -/
theorem expandValue_iff {root : Bool} {path : String} (hpath : IsPath root path) :
    ∀ {v v' : Toml F D}, expandValue crate replacements path v = .ok v' ↔
      Substituted crate replacements root v v'
  | .string raw, v' => by
    rw [expandValue, expandString_iff]
    exact ⟨.string, fun h => by cases h; assumption⟩
  | .array items, v' => by
    rw [expandValue]
    constructor
    · intro h
      obtain ⟨items', hitems, h⟩ := bind_eq_ok h
      cases h
      exact .array ((expandItems_iff hpath.1).1 hitems)
    · intro h
      cases h with
      | array h => exact bind_eq_ok_iff.2 ⟨_, (expandItems_iff hpath.1).2 h, rfl⟩
  | .table entries, v' => by
    rw [expandValue]
    constructor
    · intro h
      obtain ⟨entries', hentries, h⟩ := bind_eq_ok h
      cases h
      exact .table ((expandEntries_iff hpath).1 hentries)
    · intro h
      cases h with
      | table h => exact bind_eq_ok_iff.2 ⟨_, (expandEntries_iff hpath).2 h, rfl⟩
  | .integer n, v' => by
    rw [expandValue]
    exact ⟨fun h => by cases h; exact .integer n, fun h => by cases h; rfl⟩
  | .float x, v' => by
    rw [expandValue]
    exact ⟨fun h => by cases h; exact .float x, fun h => by cases h; rfl⟩
  | .boolean b, v' => by
    rw [expandValue]
    exact ⟨fun h => by cases h; exact .boolean b, fun h => by cases h; rfl⟩
  | .datetime d, v' => by
    rw [expandValue]
    exact ⟨fun h => by cases h; exact .datetime d, fun h => by cases h; rfl⟩

theorem expandItems_iff {path : String} (hpath : path ≠ "") :
    ∀ {index : Nat} {items items' : List (Toml F D)},
      expandItems crate replacements path index items = .ok items' ↔
        SubstitutedItems crate replacements items items'
  | _, [], items' => by
    rw [expandItems]
    exact ⟨fun h => by cases h; exact .nil, fun h => by cases h; rfl⟩
  | index, item :: items, items' => by
    have hitem : IsPath false s!"{path}[{index}]" := by
      have h := isPath_extended hpath (by decide : "[" ≠ "") (toString index ++ "]")
      rw [← String.append_assoc] at h
      exact h
    rw [expandItems]
    constructor
    · intro h
      obtain ⟨item', h1, h⟩ := bind_eq_ok h
      obtain ⟨rest, h2, h⟩ := bind_eq_ok h
      cases h
      exact .cons ((expandValue_iff hitem).1 h1) ((expandItems_iff hpath).1 h2)
    · intro h
      cases h with
      | cons h1 h2 =>
        exact bind_eq_ok_iff.2 ⟨_, (expandValue_iff hitem).2 h1,
          bind_eq_ok_iff.2 ⟨_, (expandItems_iff hpath).2 h2, rfl⟩⟩

theorem expandEntries_iff {root : Bool} {path : String} (hpath : IsPath root path) :
    ∀ {entries entries' : List (String × Toml F D)},
      expandEntries crate replacements path entries = .ok entries' ↔
        SubstitutedEntries crate replacements root entries entries'
  | [], entries' => by
    rw [expandEntries]
    exact ⟨fun h => by cases h; exact .nil, fun h => by cases h; rfl⟩
  | (key, item) :: entries, entries' => by
    have hitem : IsPath false s!"{path}.{key}" :=
      isPath_extended hpath.1 (by decide : "." ≠ "") key
    rw [expandEntries]
    by_cases hkey : PassedOver root key
    · rw [if_pos (hpath.passedOver_iff.2 hkey)]
      constructor
      · intro h
        obtain ⟨_, h1, h⟩ := bind_eq_ok h
        obtain ⟨rest, h2, h⟩ := bind_eq_ok h
        cases h1
        cases h
        exact .passed hkey ((expandEntries_iff hpath).1 h2)
      · intro h
        cases h with
        | passed _ h2 => exact bind_eq_ok_iff.2 ⟨_, rfl,
            bind_eq_ok_iff.2 ⟨_, (expandEntries_iff hpath).2 h2, rfl⟩⟩
        | cons hno => exact absurd hkey hno
    · rw [if_neg fun h => hkey (hpath.passedOver_iff.1 h)]
      constructor
      · intro h
        obtain ⟨item', h1, h⟩ := bind_eq_ok h
        obtain ⟨rest, h2, h⟩ := bind_eq_ok h
        cases h
        exact .cons hkey ((expandValue_iff hitem).1 h1) ((expandEntries_iff hpath).1 h2)
      · intro h
        cases h with
        | passed hyes => exact absurd hyes hkey
        | cons _ h1 h2 => exact bind_eq_ok_iff.2 ⟨_, (expandValue_iff hitem).2 h1,
            bind_eq_ok_iff.2 ⟨_, (expandEntries_iff hpath).2 h2, rfl⟩⟩

end

/-- The replacements of a document; without a table of them there are none. -/
inductive Replaces : Toml F D → List (String × Toml F D) → Prop where
  | none {value : Toml F D} (h : value.get "replacements" = none) : Replaces value []
  | table {value : Toml F D} {entries : List (String × Toml F D)}
      (h : value.get "replacements" = some (.table entries)) : Replaces value entries

/-- The document without its replacements. -/
def withoutReplacements : Toml F D → Toml F D
  | .table entries => .table (removeKey "replacements" entries)
  | value => value

/-- No placeholder where the expansion looks. -/
inductive Unmarked : Bool → Toml F D → Prop where
  | string {root : Bool} {raw : String} (h : Literal raw.toList) : Unmarked root (.string raw)
  | integer {root : Bool} (n : Int64) : Unmarked root (.integer n)
  | float {root : Bool} (x : F) : Unmarked root (.float x)
  | boolean {root : Bool} (b : Bool) : Unmarked root (.boolean b)
  | datetime {root : Bool} (d : D) : Unmarked root (.datetime d)
  | array {root : Bool} {items : List (Toml F D)} (h : ∀ item ∈ items, Unmarked false item) :
      Unmarked root (.array items)
  | table {root : Bool} {entries : List (String × Toml F D)}
      (h : ∀ e ∈ entries, ¬ PassedOver root e.1 → Unmarked false e.2) :
      Unmarked root (.table entries)

theorem extractReplacements_ok {value : Toml F D} :
    extractReplacements value = .ok replacements ↔ Replaces value replacements := by
  unfold extractReplacements
  constructor
  · intro h
    split at h
    · rename_i hnone
      cases h
      exact .none hnone
    · rename_i entries hsome
      cases h
      exact .table hsome
    · cases h
  · intro h
    cases h with
    | none h => rw [h]
    | table h => rw [h]

theorem stringSubstituted_literal {raw : String} (h : Literal raw.toList) :
    StringSubstituted crate replacements raw (.string raw) := by
  have hno : ∀ body, ¬ Whole raw.toList body := by
    intro body hwhole
    have hsome := hwhole.placeholder
    rw [splitAtPlaceholder_eq_none.2 h] at hsome
    cases hsome
  have htext : StringSubstituted crate replacements raw (.string (String.ofList raw.toList)) :=
    .text hno (.literal h)
  rwa [String.ofList_toList] at htext

mutual

/-- Without a placeholder every value stands for itself. -/
theorem substituted_unmarked {root : Bool} :
    ∀ {v : Toml F D}, Unmarked root v → Substituted crate replacements root v v
  | .string raw, h => by
    cases h with
    | string h => exact .string (stringSubstituted_literal h)
  | .array items, h => by
    cases h with
    | array h => exact .array (substitutedItems_unmarked h)
  | .table entries, h => by
    cases h with
    | table h => exact .table (substitutedEntries_unmarked h)
  | .integer n, _ => .integer n
  | .float x, _ => .float x
  | .boolean b, _ => .boolean b
  | .datetime d, _ => .datetime d

theorem substitutedItems_unmarked :
    ∀ {items : List (Toml F D)}, (∀ item ∈ items, Unmarked false item) →
      SubstitutedItems crate replacements items items
  | [], _ => .nil
  | _ :: _, h => .cons (substituted_unmarked (h _ List.mem_cons_self))
    (substitutedItems_unmarked fun item hitem => h item (List.mem_cons_of_mem _ hitem))

theorem substitutedEntries_unmarked {root : Bool} :
    ∀ {entries : List (String × Toml F D)},
      (∀ e ∈ entries, ¬ PassedOver root e.1 → Unmarked false e.2) →
      SubstitutedEntries crate replacements root entries entries
  | [], _ => .nil
  | (key, _) :: _, h => by
    have hrest := substitutedEntries_unmarked fun e he => h e (List.mem_cons_of_mem _ he)
    by_cases hkey : PassedOver root key
    · exact .passed hkey hrest
    · exact .cons hkey (substituted_unmarked (h _ List.mem_cons_self hkey)) hrest

end

theorem expandTomlTemplate_ok {value value' : Toml F D} :
    expandTomlTemplate crate value = .ok value' ↔ ∃ replacements expanded,
      Replaces value replacements ∧ Substituted crate replacements true value expanded ∧
        value' = withoutReplacements expanded := by
  unfold expandTomlTemplate
  constructor
  · intro h
    obtain ⟨replacements, hreplaces, h⟩ := bind_eq_ok h
    obtain ⟨expanded, hexpanded, h⟩ := bind_eq_ok h
    refine ⟨replacements, expanded, extractReplacements_ok.1 hreplaces,
      (expandValue_iff IsPath.root).1 hexpanded, ?_⟩
    cases expanded <;> (cases h; rfl)
  · rintro ⟨replacements, expanded, hreplaces, hexpanded, rfl⟩
    refine bind_eq_ok_iff.2 ⟨replacements, extractReplacements_ok.2 hreplaces,
      bind_eq_ok_iff.2 ⟨expanded, (expandValue_iff IsPath.root).2 hexpanded, ?_⟩⟩
    cases expanded <;> rfl

/-- The expansion of a document substitutes all its placeholders at once, and without
placeholders it only takes the replacements away. -/
theorem expand_toml_template (crate : TomlCrate F D) (value : Toml F D) :
    (∀ value', expandTomlTemplate crate value = .ok value' ↔ ∃ replacements expanded,
      Replaces value replacements ∧ Substituted crate replacements true value expanded ∧
        value' = withoutReplacements expanded) ∧
    (Unmarked true value → ∀ replacements, Replaces value replacements →
      expandTomlTemplate crate value = .ok (withoutReplacements value)) :=
  ⟨fun _ => expandTomlTemplate_ok, fun hunmarked replacements hreplaces =>
    expandTomlTemplate_ok.2
      ⟨replacements, value, hreplaces, substituted_unmarked hunmarked, rfl⟩⟩

/-! ## A default with a closing parenthesis -/

/-- A parser for one document. -/
def quotedCrate : TomlCrate Empty Empty where
  fromStr text :=
    if text = "value = \"a)b\"" then .ok (.table [("value", .string "a)b")])
    else .error "invalid"
  toStr _ := .error "unsupported"
  floatText := Empty.elim
  datetimeText := Empty.elim
  valueText _ := ""

/-- A document without placeholders. -/
theorem expand_toml_template_unmarked :
    expandTomlTemplate quotedCrate
        (.table [("name", .string "run"), ("replacements", .table [])]) =
      .ok (.table [("name", .string "run")]) :=
  (expand_toml_template quotedCrate _).2
    (.table fun e he hkey => by
      rcases List.mem_pair.1 he with rfl | rfl
      · exact .string (splitAtPlaceholder_eq_none.1 rfl)
      · exact absurd (.inl ⟨rfl, rfl⟩) hkey)
    [] (.table rfl)

/-- `"a)b"` is a TOML string, but the placeholder ends in the middle of it. -/
theorem closing_parenthesis_cut :
    parseStandaloneTomlValue quotedCrate "\"a)b\"".toList = some (.string "a)b") ∧
      expandTomlTemplate quotedCrate (.table [("value", .string "$(x:\"a)b\")")]) =
        .ok (.table [("value", .string "\"ab\")")]) ∧ "\"ab\")" ≠ "a)b" := by
  refine ⟨rfl, expandTomlTemplate_ok.2 ⟨[], .table [("value", .string "\"ab\")")], .none rfl,
    .table (.cons (by simp [PassedOver]) (.string ?_) .nil), rfl⟩,
    by decide⟩
  have hname : ReplacementName ['x'] := ⟨.inl (by decide), by simp⟩
  have hbody : Stands quotedCrate [] ['x', ':', '"', 'a'] (.string "\"a") :=
    @Stands.default _ _ quotedCrate [] ['x'] ['"', 'a'] hname rfl
  have htail : Interpolated quotedCrate [] ['b', '"', ')'] ['b', '"', ')'] :=
    .literal (splitAtPlaceholder_eq_none.1 rfl)
  have hno : ∀ body, ¬ Whole "$(x:\"a)b\")".toList body := fun body h =>
    absurd (whole_iff.2 ⟨body, h⟩) (by decide)
  exact .text hno (.placeholder literal_nil (by decide) hbody htail)

end Gammaboard.Config
