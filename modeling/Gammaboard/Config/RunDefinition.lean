import Gammaboard.Config.Template

/-!
# Run definitions

`api/run_definition.rs`: the sources of child definitions are frozen to inline text, then the
bindings are merged and the placeholders expanded. A campaign instantiates its children while it
is instantiated itself, so the recursion is bounded by `fuel` here: a result is one the code
reaches, `unfinished` for every fuel is a recursion without end.
-/

namespace Gammaboard.Config

open Utils (trim isWhiteSpace)

variable {F D J C I : Type}

/-- The file system, and the directory of the process. -/
structure Files where
  currentDir : Except String String
  join : String → String → String
  canonicalize : String → Except String String
  readToString : String → Except String String
  parent : String → Option String

/-- The decoders of `serde`: JSON of a target, controllers with the checks of
`RunTaskSpec::validate`, integration definitions, and whether one publishes the result of a sample
task. -/
structure Decoders (F D J C I : Type) where
  target : Toml F D → Except String J
  controller : List (String × Toml F D) → Except String C
  integration : List (String × Toml F D) → Except String I
  publishes : I → Bool

inductive ChildRunSource where
  | inline (text : String)
  | file (file : String)
  deriving DecidableEq, Repr

namespace ChildRunSource

/-- An untagged value: text, or a table with nothing but a file. -/
def ofToml : Toml F D → Option ChildRunSource
  | .string text => some (.inline text)
  | .table [(key, .string path)] => if key = "file" then some (.file path) else none
  | _ => none

def validate (source : ChildRunSource) : Except String Unit :=
  let text := match source with
    | inline text => text
    | file path => path
  if text.toList.all isWhiteSpace then
    .error "child.run TOML text or file path must not be empty"
  else .ok ()

end ChildRunSource

/-! ## Documents -/

def kindOf (value : Toml F D) : Except String String :=
  match value.get "kind" with
  | none => .ok "integration"
  | some (.string kind) => .ok kind
  | some _ => .error "run.kind must be a string"

/-- The fields of a run kind. -/
def fieldsOf (kind : String) : Option (List String) :=
  if kind = "integration" then
    some ["target", "evaluator", "evaluator_requirements", "sampler_requirements",
      "evaluator_runner_params", "sampler_aggregator_runner_params", "task_queue"]
  else if kind = "integration_campaign" then
    some ["target", "children", "measurement", "stop_condition", "allocation"]
  else if kind = "parameter_scan" then
    some ["child", "parameters", "measurement", "max_concurrent_runs"]
  else if kind = "hyperparameter_tuning" then
    some ["child", "parameters", "objective", "optimizer", "max_concurrent_trials"]
  else none

/-- Where a run kind selects a measurement, and the keys it may use for it. -/
def selectionOf (kind : String) : Option (String × List String) :=
  if kind = "integration_campaign" then some ("measurement", ["selection"])
  else if kind = "parameter_scan" then some ("measurement", ["source_task", "selection"])
  else if kind = "hyperparameter_tuning" then
    some ("objective", ["source_task", "selection", "mode"])
  else none

def validateIntegrationTask (task : Toml F D) : Except String Unit :=
  if ((task.get "kind").bind Toml.asStr).any fun k =>
      k == "integration_campaign" || k == "parameter_scan" || k == "hyperparameter_tuning" then
    .error "orchestration is a run kind, not an integration task; move its definition to the document root"
  else .ok ()

/-- The first of these keys that is not allowed. -/
def firstForeign (allowed : List String) (entries : List (String × Toml F D)) : Option String :=
  (entries.map Prod.fst).find? fun key => !allowed.contains key

def validateDocument (value : Toml F D) : Except String Unit :=
  match value with
  | .table entries => do
    let kind ← kindOf value
    match fieldsOf kind with
    | none => .error s!"unknown run kind '{kind}'"
    | some fields =>
      match firstForeign (["kind", "name", "replacements", "gammaboard"] ++ fields) entries with
      | some key => .error s!"field '{key}' is not valid for run kind '{kind}'"
      | none =>
        let foreign := (selectionOf kind).bind fun (field, allowed) =>
          ((entries.lookup field).bind Toml.asTable).bind fun selection =>
            (firstForeign allowed selection).map fun key => (field, key)
        match foreign with
        | some (field, key) => .error s!"field '{field}.{key}' is not valid for run kind '{kind}'"
        | none =>
          (((entries.lookup "task_queue").bind Toml.asArray).getD []).forM validateIntegrationTask
  | _ => .error "run must be a table"

/-! ## Freezing -/

/-- `value.get_mut("run")`, rewritten. -/
def mapRun (f : Toml F D → Except String (Toml F D)) (value : Toml F D) :
    Except String (Toml F D) :=
  match value with
  | .table entries =>
    match entries.lookup "run" with
    | none => .ok value
    | some source => do
      let source ← f source
      .ok (.table (setKey "run" source entries))
  | _ => .ok value

def mapChild (f : Toml F D → Except String (Toml F D)) (entries : List (String × Toml F D)) :
    Except String (List (String × Toml F D)) :=
  match entries.lookup "child" with
  | none => .ok entries
  | some child => do
    let child ← mapRun f child
    .ok (setKey "child" child entries)

def mapChildren (f : Toml F D → Except String (Toml F D)) (entries : List (String × Toml F D)) :
    Except String (List (String × Toml F D)) :=
  match entries.lookup "children" with
  | some (.array children) => do
    let children ← children.mapM (mapRun f)
    .ok (setKey "children" (.array children) entries)
  | _ => .ok entries

/-- The source of `child` and those of `children`, rewritten in this order. -/
def mapSources (f : Toml F D → Except String (Toml F D)) (entries : List (String × Toml F D)) :
    Except String (List (String × Toml F D)) := do
  let entries ← mapChild f entries
  mapChildren f entries

variable (crate : TomlCrate F D) (files : Files)

/-- The text of a source and the file it is from. Files that are being read are on the `stack`. -/
def openSource (stack : List String) (base : String) :
    ChildRunSource → Except String (String × Option String)
  | .inline raw => .ok (raw, none)
  | .file file =>
    match files.canonicalize (files.join base file) with
    | .error e => .error s!"child run file {files.join base file}: {e}"
    | .ok path =>
      if stack.contains path then .error s!"cyclic child run reference: {path}"
      else
        match files.readToString path with
        | .error e => .error s!"{path}: {e}"
        | .ok raw => .ok (raw, some path)

/-- `resolve_child`, where `freeze` is `freeze_sources` for a stack and a directory. -/
def resolveChild (freeze : List String → String → Toml F D → Except String (Toml F D))
    (stack : List String) (base : String) (source : ChildRunSource) :
    Except String (Toml F D) := do
  source.validate
  let (raw, file) ← openSource files stack base source
  match crate.fromStr raw with
  | .error e =>
    let origin := (file.map fun path => s!" in {path}").getD ""
    .error s!"invalid child run TOML{origin}: {e}"
  | .ok value => do
    let value ← freeze (file.toList ++ stack) ((file.bind files.parent).getD base) value
    validateDocument value
    .ok value

def freezeSource (freeze : List String → String → Toml F D → Except String (Toml F D))
    (stack : List String) (base : String) (source : Toml F D) : Except String (Toml F D) :=
  match ChildRunSource.ofToml source with
  | none =>
    .error "child.run must be a TOML string or a file reference (run = \x7b file = \"...\" \x7d); nested run-definition tables are not supported"
  | some child => do
    let value ← resolveChild crate files freeze stack base child
    let text ← crate.toStr value
    .ok (.string text)

/-- `freeze_sources` at depth `33 - left`. -/
def freezeSources : Nat → List String → String → Toml F D → Except String (Toml F D)
  | 0, _, _, _ => .error "child run reference nesting exceeds 32"
  | left + 1, stack, base, value =>
    match value with
    | .table entries => do
      let entries ← mapSources (freezeSource crate files (freezeSources left) stack base) entries
      .ok (.table entries)
    | _ => .error "run definition must be a table"

/-! ## Instantiation -/

inductive RunDefinitionBody (C I : Type) where
  | controller (controller : C)
  | integration (definition : I)

structure RunDefinition (F D J C I : Type) where
  name : String
  kind : String
  target : Option J
  originalToml : String
  effectiveDocument : Toml F D
  body : RunDefinitionBody C I

/-- How an instantiation ends without a definition. -/
inductive Ending where
  | failed (message : String)
  | unfinished
  deriving DecidableEq, Repr

def orFail {α : Type} : Except String α → Except Ending α
  | .ok a => .ok a
  | .error message => .error (.failed message)

structure CampaignChild (F D : Type) where
  name : String
  run : ChildRunSource
  replacements : List (String × Toml F D)

/-- `name`, `run` and `replacements` of an `IntegrationCampaignChildSpec`. -/
def campaignChild (item : Toml F D) : Option (CampaignChild F D) := do
  let name ← (item.get "name").bind Toml.asStr
  let run ← (item.get "run").bind ChildRunSource.ofToml
  match item.get "replacements" with
  | none => some ⟨name, run, []⟩
  | some (.table replacements) => some ⟨name, run, replacements⟩
  | some _ => none

/-- The children of a campaign, as they are decoded. -/
def campaignChildren (entries : List (String × Toml F D)) : List (CampaignChild F D) :=
  (((entries.lookup "children").bind Toml.asArray).getD []).filterMap campaignChild

variable (decoders : Decoders F D J C I)

/-- A child of a campaign has to be an integration run that publishes a result. -/
def checkCampaignChild (name : String) (config : RunDefinition F D J C I) : Except String Unit :=
  match config.body with
  | .controller _ => .error s!"campaign child '{name}' must be an integration run"
  | .integration definition =>
    if decoders.publishes definition then .ok ()
    else .error s!"campaign child '{name}' needs at least one publishing sample task"

/-- The directory the names of a child source are relative to. -/
def baseDir (base : Option String) : Except String String :=
  match base with
  | some base => .ok base
  | none => files.currentDir

/-- The document an instantiation decodes: frozen, bound and expanded. -/
def expandDefinition (value : Toml F D) (bindings : List (String × Toml F D)) (base : String) :
    Except String (String × Toml F D) := do
  let value ← freezeSources crate files 33 [] base value
  let value ← mergeReplacements value bindings
  let frozen ← crate.toStr value
  let value ← expandTomlTemplate crate value
  validateDocument value
  .ok (frozen, value)

/-- `run.name` -/
def runName (entries : List (String × Toml F D)) : Except String String :=
  match (entries.lookup "name").bind Toml.asStr with
  | none => .error "run.name must be a string"
  | some raw =>
    let name := String.ofList (trim raw.toList)
    if name.isEmpty then .error "run.name must not be empty" else .ok name

def instantiate : Nat → Toml F D → List (String × Toml F D) → Option String →
    Except Ending (RunDefinition F D J C I)
  | 0, _, _, _ => .error .unfinished
  | fuel + 1, value, bindings, base => do
    -- the directory of the process is asked for whether or not a base is given
    let currentDir ← orFail files.currentDir
    let (frozen, value) ← orFail
      (expandDefinition crate files value bindings (base.getD currentDir))
    let kind ← orFail (kindOf value)
    let table := removeKey "kind" (value.asTable.getD [])
    let name ← orFail (runName table)
    let target ← match table.lookup "target" with
      | none => .ok none
      | some target => orFail ((decoders.target target).map some)
    let table := removeKey "target" table
    let body ←
      if kind ≠ "integration" then do
        let table := insertKey "kind" (.string kind) (removeKey "gammaboard" (removeKey "name" table))
        let controller ← orFail (decoders.controller table)
        if kind = "integration_campaign" then
          (campaignChildren table).forM fun child => do
            let base ← orFail (baseDir files none)
            let value ← orFail
              (resolveChild crate files (freezeSources crate files 32) [] base child.run)
            let config ← instantiate fuel value child.replacements (some base)
            orFail (checkCampaignChild decoders child.name config)
        .ok (.controller controller)
      else do
        let definition ← orFail (decoders.integration table)
        .ok (.integration definition)
    .ok ⟨name, kind, target, frozen, value, body⟩

end Gammaboard.Config
