import Gammaboard.Config.Expansion
import Gammaboard.Config.Freezing

/-!
# Frozen definitions

A frozen definition means what the files it was made of mean: its children are instantiated to the
same definitions, from anywhere. What is put in place of a child by a placeholder is not frozen.
-/

namespace Gammaboard.Config

open Lib (bind_eq_ok)

variable {F D J C I : Type} {crate : TomlCrate F D} {files : Files}
  {decoders : Decoders F D J C I}

/-! ## Instantiating a child -/

theorem placedValue_table (replacements : List (String × Toml F D))
    (entries : List (String × Toml F D)) :
    placedValue crate replacements (.table entries) = none := rfl

theorem RunMapped.placedValue {f : Toml F D → Except String (Toml F D)} {v v' : Toml F D}
    (h : RunMapped f v v') (replacements : List (String × Toml F D)) :
    Config.placedValue crate replacements v' = Config.placedValue crate replacements v := by
  cases h with
  | absent _ hsame => rw [hsame]
  | rewritten hv _ _ hv' => rw [hv, hv', placedValue_table, placedValue_table]

def leafText : String := "name = \"leaf\"\n"

def leaf : Toml Empty Empty := .table [("name", .string "leaf")]

/-- A scan over this child. -/
def scanOf (child : Toml Empty Empty) (replacements : List (String × Toml Empty Empty)) :
    Toml Empty Empty :=
  .table ([("child", child), ("kind", .string "parameter_scan"), ("name", .string "scan")]
    ++ replacements)

def fileChild (file : String) : List (String × Toml Empty Empty) :=
  [("run", .table [("file", .string file)])]

def scan : Toml Empty Empty := scanOf (.table (fileChild "leaf.toml")) []

def scanText : String :=
  "kind = \"parameter_scan\"\nname = \"scan\"\n\n[child.run]\nfile = \"leaf.toml\"\n"

def frozenScan : Toml Empty Empty := scanOf (.table [("run", .string leafText)]) []

def frozenScanText : String :=
  "kind = \"parameter_scan\"\nname = \"scan\"\n\n[child]\nrun = '''\nname = \"leaf\"\n'''\n"

/-- The child comes with a replacement. -/
def placedScan : Toml Empty Empty :=
  scanOf (.string "$(leaf:none)")
    [("replacements", .table [("leaf", .table (fileChild "leaf.toml"))])]

def placedScanText : String :=
  "child = \"$(leaf:none)\"\nkind = \"parameter_scan\"\nname = \"scan\"\n\n[replacements.leaf.run]\nfile = \"leaf.toml\"\n"

/-- The children come with a replacement, and the only one is this campaign again. -/
def circle : Toml Empty Empty :=
  .table [("children", .string "$(all:none)"), ("kind", .string "integration_campaign"),
    ("name", .string "circle"), ("replacements", .table [("all", .array
      [.table (("name", .string "a") :: fileChild "circle.toml")])])]

def circleText : String :=
  "children = \"$(all:none)\"\nkind = \"integration_campaign\"\nname = \"circle\"\n\n[[replacements.all]]\nname = \"a\"\n\n[replacements.all.run]\nfile = \"circle.toml\"\n"

def documents : List (String × Toml Empty Empty) :=
  [(leafText, leaf), (scanText, scan), (frozenScanText, frozenScan), (placedScanText, placedScan),
    (circleText, circle)]

open Classical in
/-- The crate on these documents. -/
noncomputable def fewDocuments : TomlCrate Empty Empty where
  fromStr text := match documents.lookup text with
    | some v => .ok v
    | none => .error "invalid TOML"
  toStr v := match documents.find? fun d => decide (d.2 = v) with
    | some d => .ok d.1
    | none => .error "unsupported value"
  floatText := nofun
  datetimeText := nofun
  valueText := fun _ => ""

theorem wellFormed_fileChild (file : String) : (Toml.table (F := Empty) (D := Empty) [("file", .string file)]).WellFormed :=
  .table (List.pairwise_singleton _ _) (by simpa using .string file)

theorem lookup_of_split {α : Type} {entries before after : List (String × α)} {key : String} {v : α}
    (hsplit : entries = before ++ (key, v) :: after) (hnew : ∀ e ∈ before, e.1 ≠ key) :
    entries.lookup key = some v := by
  subst hsplit
  induction before with
  | nil => exact List.lookup_cons_self
  | cons e before ih =>
    rw [List.cons_append, List.lookup_cons, beq_false_of_ne (hnew e List.mem_cons_self).symm]
    exact ih fun e he => hnew e (List.mem_cons_of_mem _ he)

theorem documents_spec : ∀ d ∈ documents, documents.lookup d.1 = some d.2 ∧ d.2.WellFormed ∧
    (∃ e entries, d.2 = .table (e :: entries)) ∧ d.1.toList.all Utils.isWhiteSpace = false := by
  have hchild : ∀ file, (Toml.table (fileChild file)).WellFormed := fun file =>
    .table (List.pairwise_singleton _ _) (by simpa [fileChild] using wellFormed_fileChild file)
  have hscan : ∀ child : Toml Empty Empty, child.WellFormed → (scanOf child []).WellFormed := by
    intro child hwf
    have hkeys : (["child", "kind", "name"] : List String).Pairwise (· < ·) := by decide
    refine .table hkeys ?_
    simp only [List.append_nil, List.forall_mem_cons]
    exact ⟨hwf, .string _, .string _, nofun⟩
  simp only [documents, List.forall_mem_cons]
  have htexts : ∀ before after (d : String × Toml Empty Empty), documents = before ++ d :: after →
      d.1 ∉ before.map Prod.fst → documents.lookup d.1 = some d.2 := by
    intro before after d hsplit hnew
    exact lookup_of_split hsplit fun e he hsame => hnew (List.mem_map.2 ⟨e, he, hsame⟩)
  refine ⟨⟨htexts [] _ _ rfl (by decide +kernel), .table (by decide) ?_, ⟨_, _, rfl⟩, by decide +kernel⟩,
    ⟨htexts (documents.take 1) _ _ rfl (by decide +kernel), hscan _ (hchild _), ⟨_, _, rfl⟩, by decide +kernel⟩,
    ⟨htexts (documents.take 2) _ _ rfl (by decide +kernel), hscan _ (.table (by decide) ?_), ⟨_, _, rfl⟩,
      by decide +kernel⟩,
    ⟨htexts (documents.take 3) _ (placedScanText, placedScan) rfl (by decide +kernel), .table (by decide) ?_, ⟨_, _, rfl⟩, by decide +kernel⟩,
    ⟨htexts (documents.take 4) [] (circleText, circle) rfl (by decide +kernel), .table (by decide) ?_, ⟨_, _, rfl⟩, by decide +kernel⟩,
    nofun⟩
  · simpa using .string _
  · simpa using .string _
  · simp only [List.cons_append, List.nil_append, List.forall_mem_cons]
    exact ⟨.string _, .string _, .string _, .table (by decide) (by simpa using hchild _), nofun⟩
  · simp only [List.forall_mem_cons]
    refine ⟨.string _, .string _, .string _, .table (by decide) ?_, nofun⟩
    simp only [List.forall_mem_cons]
    refine ⟨.array ?_, nofun⟩
    simp only [List.forall_mem_cons]
    refine ⟨.table (by decide) ?_, nofun⟩
    simp only [fileChild, List.forall_mem_cons]
    exact ⟨.string _, wellFormed_fileChild _, nofun⟩

theorem toStr_fewDocuments {v : Toml Empty Empty} {text : String}
    (h : fewDocuments.toStr v = .ok text) : (text, v) ∈ documents := by
  unfold fewDocuments at h
  dsimp only at h
  split at h
  · rename_i d hd
    cases h
    have hmem := List.mem_of_find?_eq_some hd
    have hv : d.2 = v := by simpa using List.find?_some hd
    rw [← hv]
    exact hmem
  · cases h

theorem mem_of_fromStr {v : Toml Empty Empty} {text : String}
    (h : fewDocuments.fromStr text = .ok v) : (text, v) ∈ documents := by
  unfold fewDocuments at h
  dsimp only at h
  split at h
  · rename_i w hw
    cases h
    exact mem_of_lookup hw
  · cases h

theorem lawful_fewDocuments : fewDocuments.Lawful where
  parsed := by
    intro text v h
    obtain ⟨-, hwf, ⟨e, entries, hv⟩, -⟩ := documents_spec _ (mem_of_fromStr h)
    exact ⟨hwf, _, hv⟩
  reads := by
    intro entries text _ h
    obtain ⟨hlookup, -⟩ := documents_spec _ (toStr_fewDocuments h)
    unfold fewDocuments
    dsimp only
    rw [hlookup]
  blank := by
    intro entries text h
    obtain ⟨-, -, ⟨e, rest, hv⟩, htext⟩ := documents_spec _ (toStr_fewDocuments h)
    rw [htext]
    cases hv
    simp

theorem toStr_document {text : String} {v : Toml Empty Empty} (before after : List (String × Toml Empty Empty))
    (hsplit : documents = before ++ (text, v) :: after) (hnew : ∀ d ∈ before, d.2 ≠ v) :
    fewDocuments.toStr v = .ok text := by
  unfold fewDocuments
  dsimp only
  rw [hsplit, List.find?_append, List.find?_eq_none.2 (by simpa using hnew), Option.none_or,
    List.find?_cons_of_pos (by simp)]

def oneDirectory : Files where
  currentDir := .ok "/runs"
  join base name := base ++ "/" ++ name
  canonicalize path :=
    if path = "/runs/leaf.toml" ∨ path = "/runs/circle.toml" then .ok path
    else .error "No such file or directory (os error 2)"
  readToString path :=
    if path = "/runs/leaf.toml" then .ok leafText
    else if path = "/runs/circle.toml" then .ok circleText
    else .error "No such file or directory (os error 2)"
  parent path :=
    if path = "/runs/leaf.toml" ∨ path = "/runs/circle.toml" then some "/runs" else none

/-- Decoders that take every definition. -/
def anyDefinition : Decoders Empty Empty Unit Unit Unit where
  target _ := .ok ()
  controller _ := .ok ()
  integration _ := .ok ()
  publishes _ := true

theorem toStr_circle : fewDocuments.toStr circle = .ok circleText :=
  toStr_document (documents.take 4) [] rfl (by
    simp [documents, leaf, scan, frozenScan, placedScan, circle, scanOf, fileChild])

/-- The campaign with its children in place. -/
def circled : Toml Empty Empty :=
  .table [("children", .array [.table (("name", .string "a") :: fileChild "circle.toml")]),
    ("kind", .string "integration_campaign"), ("name", .string "circle")]

theorem expands_circle (base : String) :
    expandDefinition fewDocuments oneDirectory circle [] base = .ok (circleText, circled) := by
  show (fewDocuments.toStr circle >>= _) = _
  rw [toStr_circle]
  rfl

theorem resolves_circle :
    resolveChild fewDocuments oneDirectory (freezeSources fewDocuments oneDirectory 32) [] "/runs"
      (.file "circle.toml") = .ok circle := by
  have hwf := (documents_spec _ (toStr_fewDocuments toStr_circle)).2.1
  exact resolveChild_iff.2 ⟨rfl, circleText, some "/runs/circle.toml", circle, rfl,
    lawful_fewDocuments.reads hwf toStr_circle, rfl, rfl⟩

/-- A campaign that comes back to itself through a replacement is instantiated without end. -/
theorem circle_unfinished (fuel : Nat) (base : String) :
    instantiate fewDocuments oneDirectory anyDefinition fuel circle [] (some base) =
      .error .unfinished := by
  induction fuel generalizing base with
  | zero => rfl
  | succ fuel ih =>
    have hkind : kindOf circled = .ok "integration_campaign" := rfl
    have hdir : baseDir oneDirectory none = .ok "/runs" := rfl
    have hcontroller : ∀ table, anyDefinition.controller table = .ok () := fun _ => rfl
    have hname : runName (removeKey "kind" (circled.asTable.getD [])) = .ok "circle" := rfl
    have htarget : List.lookup "target" (removeKey "kind" (circled.asTable.getD [])) = none := rfl
    have hchildren : campaignChildren (insertKey "kind" (.string "integration_campaign")
        (removeKey "gammaboard" (removeKey "name" (removeKey "target"
          (removeKey "kind" (circled.asTable.getD [])))))) = [⟨"a", .file "circle.toml", []⟩] := rfl
    unfold instantiate
    show (orFail (expandDefinition fewDocuments oneDirectory circle [] base) >>= _) = _
    rw [expands_circle]
    dsimp only [orFail, bind, Except.bind]
    rw [hkind]
    dsimp only
    rw [hname, htarget]
    dsimp only
    rw [if_pos (by decide), hcontroller]
    dsimp only
    rw [if_pos rfl, hchildren]
    rw [List.forM_eq_forM, List.forM_cons]
    simp only [hdir, resolves_circle, ih]
    rfl

end Gammaboard.Config
