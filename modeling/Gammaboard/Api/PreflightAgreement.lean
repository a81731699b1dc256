import Gammaboard.Api.TaskPreflight

/-!
# One preflight for a whole queue and for what is appended

The tasks of a queue are checked one after the other from the configuration of
the run. Tasks to append are checked after the recorded ones, which are not
checked again. Both find the same configurations, accept the same tasks and
give the same errors.
-/

set_option linter.unusedSectionVars false

namespace Gammaboard.Api

open Gammaboard.Core Gammaboard.Lib Gammaboard.Utils

variable {K E Q T D : Type}

/-! ## Generated names -/

theorem trim_eq_self {text : List Char} {first last : Char} (hfirst : text.head? = some first)
    (hlast : text.getLast? = some last) (hf : isWhiteSpace first = false)
    (hl : isWhiteSpace last = false) : trim text = text := by
  unfold trim
  have hdrop : text.dropWhile isWhiteSpace = text := by
    cases text with
    | nil => rfl
    | cons c rest =>
      cases hfirst
      rw [List.dropWhile_cons_of_neg (by rw [hf]; decide)]
  rw [hdrop, List.rdropWhile_eq_self_iff]
  intro hne
  rw [List.getLast?_eq_some_getLast hne] at hlast
  rw [Option.some.inj hlast, hl]
  decide

theorem isWhiteSpace_digit {c : Char} (h : c.isDigit = true) : isWhiteSpace c = false := by
  simp only [Char.isDigit, Bool.and_eq_true, decide_eq_true_eq, ge_iff_le,
    UInt32.le_iff_toNat_le] at h
  have hlow : 48 ≤ c.toNat := h.1
  have hhigh : c.toNat ≤ 57 := h.2
  simp only [isWhiteSpace, Bool.or_eq_false_iff, Bool.and_eq_false_iff, decide_eq_false_iff_not,
    beq_eq_false_iff_ne, ne_eq]
  omega

theorem getLast_toString (n : Int) :
    ∃ c, (toString n).toList.getLast? = some c ∧ isWhiteSpace c = false := by
  have hdigits : ∀ m : Nat, ∃ c, (Nat.toDigits 10 m).getLast? = some c ∧ isWhiteSpace c = false := by
    intro m
    have hne : Nat.toDigits 10 m ≠ [] := Nat.toDigits_ne_nil
    exact ⟨_, List.getLast?_eq_some_getLast hne,
      isWhiteSpace_digit (isDigit_of_mem_digits (List.getLast_mem hne))⟩
  rw [toList_toString]
  split
  · exact hdigits _
  · obtain ⟨c, hc, hwhite⟩ := hdigits (-n).toNat
    exact ⟨c, by rw [List.getLast?_cons, hc]; rfl, hwhite⟩

theorem kindStr_head (task : RunTaskSpec K E Q T D) :
    ∃ c, task.kindStr.toList.head? = some c ∧ isWhiteSpace c = false := by
  have h : (task.kindStr.toList.head?.any fun c => !isWhiteSpace c) = true := by
    cases task <;> simp only [RunTaskSpec.kindStr] <;> decide
  cases hhead : task.kindStr.toList.head? with
  | none =>
    rw [hhead] at h
    cases h
  | some c =>
    rw [hhead, Option.any_some, Bool.not_eq_true'] at h
    exact ⟨c, rfl, h⟩

/-- A generated name passes the check of a given one. -/
theorem trim_generatedTaskName (task : RunTaskSpec K E Q T D) (n : Int) :
    trim (generatedTaskName task n).toList = (generatedTaskName task n).toList ∧
      isBlank (generatedTaskName task n) = false := by
  obtain ⟨first, hfirst, hf⟩ := kindStr_head task
  obtain ⟨last, hlast, hl⟩ := getLast_toString n
  have htext : (generatedTaskName task n).toList =
      task.kindStr.toList ++ '-' :: (toString n).toList := by
    unfold generatedTaskName
    rw [String.toList_append, String.toList_append, List.append_assoc]
    rfl
  have hne : (toString n).toList ≠ [] := fun hnil => by
    rw [hnil] at hlast
    cases hlast
  constructor
  · refine trim_eq_self ?_ ?_ hf hl
    · rw [htext, List.head?_append, hfirst]
      rfl
    · rw [htext, List.getLast?_append, List.getLast?_cons, hlast]
      rfl
  · rw [isBlank, htext, List.all_append]
    cases hkind : task.kindStr.toList with
    | nil =>
      rw [hkind] at hfirst
      cases hfirst
    | cons c rest =>
      rw [hkind] at hfirst
      cases hfirst
      rw [List.all_cons, hf]
      rfl

variable {checks : PreflightChecks K E Q T D}

/-- A task under the name it is stored with passes the same checks. -/
theorem validate_named (input : RunTaskInput K E Q T D) (n : Int) :
    (RunTaskInput.mk (some (input.nameAt n)) input.task).validate checks = input.validate checks := by
  obtain ⟨name, task⟩ := input
  cases name with
  | some name => rfl
  | none =>
    obtain ⟨htrim, hblank⟩ := trim_generatedTaskName task n
    unfold RunTaskInput.validate RunTaskInput.nameAt validateName
    simp only [Option.getD_none, hblank, htrim, Bool.false_eq_true, if_false, ne_eq,
      not_true_eq_false]

/-! ## Two contexts that agree -/

variable [Field K] [LinearOrder K] [DecidableEq E]

namespace TaskPreflightContext

variable {c d : TaskPreflightContext K E Q}

/-- The evaluators that are not asked again gave the domain of the run. -/
def Resolved (checks : PreflightChecks K E Q T D) (c : TaskPreflightContext K E Q) : Prop :=
  ∀ e ∈ c.validatedEvaluators, checks.resolveDomain e = .ok c.runDomain

/-- Two contexts with one set of configurations and one set of names. -/
structure Alike (checks : PreflightChecks K E Q T D) (c d : TaskPreflightContext K E Q) : Prop where
  stage : c.toStageConfigs = d.toStageConfigs
  known : ∀ name, name ∈ c.knownNames ↔ name ∈ d.knownNames
  prior : ∀ name, name ∈ c.priorSourceableNames ↔ name ∈ d.priorSourceableNames
  left : Resolved checks c
  right : Resolved checks d

theorem validateSources_congr
    (h : ∀ name, name ∈ c.priorSourceableNames ↔ name ∈ d.priorSourceableNames)
    (names : List String) : c.validateSources names = d.validateSources names := by
  induction names with
  | nil => rfl
  | cons name names ih =>
    unfold validateSources
    simp only [h name, ih]

/-- An evaluator is accepted exactly when it gives the domain of the run, whether or not it was
asked before. -/
theorem validateEvaluatorDomain_agree (hstage : c.toStageConfigs = d.toStageConfigs)
    (hc : Resolved checks c) (hd : Resolved checks d) (e : E) :
    Agree (fun l l' => (∀ e ∈ l, checks.resolveDomain e = .ok c.runDomain) ∧
        ∀ e ∈ l', checks.resolveDomain e = .ok c.runDomain)
      (c.validateEvaluatorDomain checks e) (d.validateEvaluatorDomain checks e) := by
  have hdomain : c.runDomain = d.runDomain := congrArg StageConfigs.runDomain hstage
  -- what is appended to the list gave the domain of the run
  have hcons {l : List E} (hl : ∀ e ∈ l, checks.resolveDomain e = .ok c.runDomain)
      (he : checks.resolveDomain e = .ok c.runDomain) :
      ∀ e' ∈ e :: l, checks.resolveDomain e' = .ok c.runDomain := by
    intro e' he'
    rcases List.mem_cons.1 he' with rfl | he'
    · exact he
    · exact hl e' he'
  have hd' : ∀ e ∈ d.validatedEvaluators, checks.resolveDomain e = .ok c.runDomain := by
    rw [hdomain]
    exact hd
  unfold validateEvaluatorDomain
  by_cases hresolves : checks.resolveDomain e = .ok c.runDomain
  · have hengine : engine (checks.resolveDomain e) = .ok c.runDomain := by
      rw [hresolves]
      rfl
    rw [hengine]
    simp only [bind, Except.bind, ne_eq, not_true_eq_false, if_false, ← hdomain]
    split
    · split
      · exact .ok ⟨hc, hd'⟩
      · exact .ok ⟨hc, hcons hd' hresolves⟩
    · split
      · exact .ok ⟨hcons hc hresolves, hd'⟩
      · exact .ok ⟨hcons hc hresolves, hcons hd' hresolves⟩
  · rw [if_neg fun hmem => hresolves (hc e hmem), if_neg fun hmem => hresolves (hd' e hmem)]
    cases hresolve : checks.resolveDomain e with
    | error err => exact .error _
    | ok domain =>
      have hne : domain ≠ c.runDomain := by
        rintro rfl
        exact hresolves hresolve
      simp only [engine, bind, Except.bind, ← hdomain, if_pos hne]
      exact .error _

theorem validateEvaluatorDomains_agree (hstage : c.toStageConfigs = d.toStageConfigs)
    (hc : Resolved checks c) (hd : Resolved checks d) (evaluator : Option E) :
    Agree (fun l l' => (∀ e ∈ l, checks.resolveDomain e = .ok c.runDomain) ∧
        ∀ e ∈ l', checks.resolveDomain e = .ok c.runDomain)
      (c.validateEvaluatorDomains checks evaluator) (d.validateEvaluatorDomains checks evaluator) := by
  cases evaluator with
  | none =>
    refine .ok ⟨hc, fun e he => ?_⟩
    rw [show c.runDomain = d.runDomain from congrArg StageConfigs.runDomain hstage]
    exact hd e he
  | some e => exact validateEvaluatorDomain_agree hstage hc hd e

theorem runDomain_recordSampling (s : StageConfigs K E Q) (name : String)
    (sampling : Option (SamplingPipeline K Q)) : (s.recordSampling name sampling).runDomain = s.runDomain := by
  cases sampling <;> rfl

theorem runDomain_validateSampling {s s' : StageConfigs K E Q} {task : RunTaskSpec K E Q T D}
    {name : String} {accumulator : Option AccumulatorConfig}
    (h : s.validateSampling task name accumulator = .ok s') : s'.runDomain = s.runDomain := by
  unfold StageConfigs.validateSampling at h
  split at h
  · obtain ⟨named, -, h⟩ := bind_eq_ok h
    obtain ⟨-, -, h⟩ := bind_eq_ok h
    obtain ⟨-, -, h⟩ := bind_eq_ok h
    cases h
    exact runDomain_recordSampling s name _
  · cases h
    rfl

theorem runDomain_recorded (s : StageConfigs K E Q) (name : String) (evaluator : Option E)
    (accumulator : Option AccumulatorConfig) :
    ((s.recordEvaluator name evaluator).recordAccumulator name accumulator).runDomain = s.runDomain := by
  cases evaluator <;> cases accumulator <;> rfl

/-- Contexts that agree accept the same tasks, under the names they are stored with. -/
theorem Alike.validateTask (h : Alike checks c d) (input : RunTaskInput K E Q T D) :
    Agree (fun c' d' => Alike checks c' d' ∧ c'.nextSequence = c.nextSequence + 1)
      (c.validateTask checks input)
      (d.validateTask checks ⟨some (input.nameAt c.nextSequence), input.task⟩) := by
  have hname : (RunTaskInput.mk (some (input.nameAt c.nextSequence)) input.task).nameAt
      d.nextSequence = input.nameAt c.nextSequence := rfl
  unfold TaskPreflightContext.validateTask
  rw [validate_named, validateSources_congr h.prior, hname, ← h.stage]
  dsimp only
  refine (Agree.refl (R := fun _ _ => True) fun _ => trivial).bind fun _ _ _ => ?_
  refine (Agree.refl (R := fun _ _ => True) fun _ => trivial).bind fun _ _ _ => ?_
  by_cases hknown : input.nameAt c.nextSequence ∈ c.knownNames
  · rw [if_pos hknown, if_pos ((h.known _).1 hknown)]
    exact .error _
  · rw [if_neg hknown, if_neg fun hmem => hknown ((h.known _).2 hmem)]
    refine (Agree.refl (R := Eq) fun _ => rfl).bind ?_
    rintro accumulator _ rfl
    refine (Agree.refl (R := Eq) fun _ => rfl).bind ?_
    rintro evaluator _ rfl
    refine (validateEvaluatorDomains_agree h.stage h.left h.right evaluator).bind ?_
    rintro validated validated' ⟨hvalidated, hvalidated'⟩
    refine (Agree.refl (R := fun _ _ => True) fun _ => trivial).bind fun _ _ _ => ?_
    have hsampling : ∀ {x : Except ServiceError (StageConfigs K E Q)},
        Agree (fun a b => a = b ∧ x = .ok a) x x := by
      intro x
      cases x with
      | error e => exact .error e
      | ok a => exact .ok ⟨rfl, rfl⟩
    refine hsampling.bind ?_
    rintro stage _ ⟨rfl, hstage⟩
    have hdomain : stage.runDomain = c.runDomain := runDomain_validateSampling hstage
    refine .ok ⟨⟨rfl, fun name => ?_, fun name => ?_, ?_, ?_⟩, rfl⟩
    · simp only [List.mem_cons, h.known]
    · simp only [List.mem_cons, h.prior]
    · intro e he
      rw [runDomain_recorded, hdomain]
      exact hvalidated e he
    · intro e he
      rw [runDomain_recorded, hdomain]
      exact hvalidated' e he

/-- The tasks under the names they are stored with from a sequence number on. -/
def named (n : Int) : List (RunTaskInput K E Q T D) → List (RunTaskInput K E Q T D)
  | [] => []
  | input :: inputs => ⟨some (input.nameAt n), input.task⟩ :: named (n + 1) inputs

theorem Alike.validateBatch (h : Alike checks c d) (inputs : List (RunTaskInput K E Q T D)) :
    Agree (Alike checks) (c.validateBatch checks inputs)
      (d.validateBatch checks (named c.nextSequence inputs)) := by
  induction inputs generalizing c d with
  | nil => exact .ok h
  | cons input inputs ih =>
    refine (h.validateTask input).bind ?_
    rintro c' d' ⟨h', hnext⟩
    rw [← hnext]
    exact ih h'

/-! ## Recording an accepted task -/

/-- What an accepted task has passed. -/
theorem validateTask_ok {input : RunTaskInput K E Q T D} {c' : TaskPreflightContext K E Q}
    (h : c.validateTask checks input = .ok c') :
    ∃ accumulator evaluator validated stage, input.validate checks = .ok () ∧
      c.validateSources input.task.sourceTaskNames = .ok () ∧
      input.nameAt c.nextSequence ∉ c.knownNames ∧
      c.resolveEffectiveAccumulator input.task = .ok accumulator ∧
      effectiveEvaluator c.toStageConfigs input.task = .ok evaluator ∧
      c.validateEvaluatorDomains checks evaluator = .ok validated ∧
      validateAccumulator checks c.toStageConfigs input.task (input.nameAt c.nextSequence) evaluator
        accumulator = .ok () ∧
      c.validateSampling input.task (input.nameAt c.nextSequence) accumulator = .ok stage ∧
      c' = {
        toStageConfigs := (stage.recordEvaluator (input.nameAt c.nextSequence) evaluator).recordAccumulator
          (input.nameAt c.nextSequence) accumulator
        knownNames := input.nameAt c.nextSequence :: c.knownNames
        priorSourceableNames := input.nameAt c.nextSequence :: c.priorSourceableNames
        nextSequence := c.nextSequence + 1
        validatedEvaluators := validated } := by
  unfold TaskPreflightContext.validateTask at h
  obtain ⟨⟨⟩, hvalid, h⟩ := bind_eq_ok h
  obtain ⟨⟨⟩, hsources, h⟩ := bind_eq_ok h
  dsimp only at h
  split at h
  · cases h
  · rename_i hname
    obtain ⟨accumulator, haccumulator, h⟩ := bind_eq_ok h
    obtain ⟨evaluator, hevaluator, h⟩ := bind_eq_ok h
    obtain ⟨validated, hvalidated, h⟩ := bind_eq_ok h
    obtain ⟨⟨⟩, hfits, h⟩ := bind_eq_ok h
    obtain ⟨stage, hstage, h⟩ := bind_eq_ok h
    have hinput : input.validate checks = .ok () := by
      cases hv : input.validate checks with
      | error e =>
        rw [hv] at hvalid
        cases hvalid
      | ok u => rfl
    exact ⟨accumulator, evaluator, validated, stage, hinput, hsources, hname, haccumulator, hevaluator,
      hvalidated, hfits, hstage, (Except.ok.inj h).symm⟩

theorem runsInControlPlane_eq (task : RunTaskSpec K E Q T D) :
    task.runsInControlPlane = !task.runsOnSamplerWorker := by
  cases task <;> rfl

/-- What a sampler finds does not depend on the evaluators. -/
theorem validateSampling_recordEvaluator (s : StageConfigs K E Q) (task : RunTaskSpec K E Q T D)
    (name : String) (evaluator : Option E) (accumulator : Option AccumulatorConfig) :
    (s.recordEvaluator name evaluator).validateSampling task name accumulator =
      (s.validateSampling task name accumulator).map (·.recordEvaluator name evaluator) := by
  cases evaluator with
  | none => cases h : s.validateSampling task name accumulator <;> exact h
  | some e =>
    cases task with
    | sample estimator source sampler accumulatorSource tuning rest =>
      have hnamed : (s.recordEvaluator name (some e)).namedSampling sampler = s.namedSampling sampler := by
        rcases sampler with - | (⟨-, -⟩ | - | - | -) <;> rfl
      have hinherit : (s.recordEvaluator name (some e)).inheritPartition sampler =
          s.inheritPartition sampler := by
        funext config
        rcases sampler with - | (⟨-, -⟩ | - | - | -) <;> rfl
      have hdomain : (s.recordEvaluator name (some e)).runDomain = s.runDomain := rfl
      unfold StageConfigs.validateSampling
      simp only [hnamed, hinherit, hdomain]
      cases s.namedSampling sampler with
      | error err => rfl
      | ok config =>
        simp only [bind, Except.bind]
        cases checkPartition s.runDomain accumulator (config.map (s.inheritPartition sampler)) with
        | error err => rfl
        | ok _ =>
          simp only
          cases checkEstimator estimator accumulatorSource accumulator
              (config.map (s.inheritPartition sampler)) with
          | error err => rfl
          | ok _ =>
            cases config <;> rfl
    | _ => rfl

/-- A stored task that was accepted leaves the configurations it is recorded with. -/
theorem recordExistingTask_of_validateTask {name : String} {task : RunTaskSpec K E Q T D}
    {c' : TaskPreflightContext K E Q} (h : c.validateTask checks ⟨some name, task⟩ = .ok c') :
    recordExistingTask c.toStageConfigs name task = .ok c'.toStageConfigs := by
  obtain ⟨accumulator, evaluator, validated, stage, -, -, -, haccumulator, hevaluator, -, -, hstage,
    rfl⟩ := validateTask_ok h
  have hname : (RunTaskInput.mk (some name) task).nameAt c.nextSequence = name := rfl
  rw [hname] at hstage ⊢
  have hevaluator : recordedEvaluator c.toStageConfigs task = .ok evaluator := by
    rw [← hevaluator, recordedEvaluator, effectiveEvaluator, runsInControlPlane_eq]
    cases task.runsOnSamplerWorker <;> rfl
  have hrecorded : (c.recordEvaluator name evaluator).resolveEffectiveAccumulator task =
      .ok accumulator := by
    rw [← haccumulator]
    cases evaluator <;> rfl
  unfold recordExistingTask
  rw [hevaluator]
  simp only [bind, Except.bind, hrecorded, validateSampling_recordEvaluator, hstage, Except.map]

/-- What the accepted tasks of a list leave. -/
theorem validateBatch_recorded {tasks : List (String × RunTaskSpec K E Q T D)}
    {c' : TaskPreflightContext K E Q}
    (h : c.validateBatch checks (tasks.map fun t => ⟨some t.1, t.2⟩) = .ok c') :
    recordExistingTasks c.toStageConfigs tasks = .ok c'.toStageConfigs ∧
      (∀ name, name ∈ c'.knownNames ↔ name ∈ c.knownNames ∨ name ∈ tasks.map (·.1)) ∧
      (∀ name, name ∈ c'.priorSourceableNames ↔
        name ∈ c.priorSourceableNames ∨ name ∈ tasks.map (·.1)) := by
  induction tasks generalizing c with
  | nil =>
    cases h
    exact ⟨rfl, by simp, by simp⟩
  | cons t tasks ih =>
    obtain ⟨name, task⟩ := t
    obtain ⟨c₁, hc₁, h⟩ := bind_eq_ok h
    obtain ⟨hrecorded, hknown, hprior⟩ := ih h
    have hnames : c₁.knownNames = name :: c.knownNames ∧
        c₁.priorSourceableNames = name :: c.priorSourceableNames := by
      obtain ⟨-, -, -, -, -, -, -, -, -, -, -, -, rfl⟩ := validateTask_ok hc₁
      exact ⟨rfl, rfl⟩
    refine ⟨?_, fun other => ?_, fun other => ?_⟩
    · unfold recordExistingTasks
      rw [recordExistingTask_of_validateTask hc₁]
      exact hrecorded
    · rw [hknown, hnames.1]
      simp only [List.mem_cons, List.map_cons]
      tauto
    · rw [hprior, hnames.2]
      simp only [List.mem_cons, List.map_cons]
      tauto

/-! ## Whole queues -/

/-- The context of a run without tasks. -/
def initial (evaluator : Option E) (runDomain : Domain) : TaskPreflightContext K E Q where
  toStageConfigs := StageConfigs.initial evaluator runDomain
  knownNames := []
  priorSourceableNames := []
  nextSequence := 1
  validatedEvaluators := []

theorem fromExistingTasks_nil (evaluator : Option E) (runDomain : Domain) :
    fromExistingTasks ([] : List (QueuedTask K E Q T D)) evaluator runDomain =
      .ok (initial evaluator runDomain) := by
  simp [fromExistingTasks, recordExistingTasks, initial, QueuedTask.nextSequence, bind, Except.bind]

theorem alike_refl (h : Resolved checks c) : Alike checks c c :=
  ⟨rfl, fun _ => .rfl, fun _ => .rfl, h, h⟩

/-- Recording the stored tasks of an accepted queue agrees with checking them. -/
theorem fromExistingTasks_alike {existing : List (QueuedTask K E Q T D)} {evaluator : Option E}
    {runDomain : Domain} (hsorted : existing.Pairwise fun t u => t.sequenceNr < u.sequenceNr)
    (h : (initial evaluator runDomain).validateBatch checks (existing.map QueuedTask.definition) = .ok c) :
    ∃ d, fromExistingTasks existing evaluator runDomain = .ok d ∧ Alike checks d c ∧
      d.nextSequence = QueuedTask.nextSequence existing := by
  have hresolved : Resolved checks (initial (K := K) (Q := Q) evaluator runDomain) :=
    fun e he => by cases he
  have hagree := (alike_refl hresolved).validateBatch (existing.map QueuedTask.definition)
  obtain ⟨d', -, halike⟩ := hagree.ok_left h
  have hpairs : existing.map QueuedTask.definition =
      (existing.map fun t => (t.name, t.task)).map fun t => ⟨some t.1, t.2⟩ := by
    rw [List.map_map]
    rfl
  rw [hpairs] at h
  obtain ⟨hrecorded, hknown, hprior⟩ := validateBatch_recorded h
  have hordered : existing.mergeSort QueuedTask.before = existing := by
    refine List.mergeSort_of_pairwise (hsorted.imp fun {t u} htu => ?_)
    simp [QueuedTask.before, htu]
  have hnames : (existing.map fun t => (t.name, t.task)).map (·.1) = existing.map (·.name) := by
    rw [List.map_map]
    rfl
  rw [hnames] at hknown hprior
  refine ⟨{
    toStageConfigs := c.toStageConfigs
    knownNames := existing.map (·.name)
    priorSourceableNames := existing.map (·.name)
    nextSequence := QueuedTask.nextSequence existing
    validatedEvaluators := [] }, ?_, ?_, rfl⟩
  · unfold fromExistingTasks
    rw [hordered]
    dsimp only
    have hrecorded' : recordExistingTasks (StageConfigs.initial evaluator runDomain)
        (existing.map fun t => (t.name, t.task)) = .ok c.toStageConfigs := hrecorded
    rw [hrecorded']
    rfl
  · refine ⟨rfl, fun name => ?_, fun name => ?_, fun e he => (by cases he), halike.left⟩
    · rw [hknown]
      exact (or_iff_right List.not_mem_nil).symm
    · rw [hprior]
      exact (or_iff_right List.not_mem_nil).symm

theorem validateBatch_append (tasks more : List (RunTaskInput K E Q T D)) :
    c.validateBatch checks (tasks ++ more) =
      c.validateBatch checks tasks >>= fun d => d.validateBatch checks more := by
  induction tasks generalizing c with
  | nil => rfl
  | cons input tasks ih =>
    rw [List.cons_append, TaskPreflightContext.validateBatch, TaskPreflightContext.validateBatch]
    cases c.validateTask checks input with
    | error e => rfl
    | ok c' => exact ih

theorem validateSources_ok {names : List String} (h : c.validateSources names = .ok ()) :
    ∀ name ∈ names, name ∈ c.priorSourceableNames := by
  induction names with
  | nil => exact fun _ hname => absurd hname List.not_mem_nil
  | cons first names ih =>
    unfold validateSources at h
    split at h
    · rename_i hfirst
      intro name hname
      rcases List.mem_cons.1 hname with rfl | hname
      · exact hfirst
      · exact ih h name hname
    · cases h

/-- In an accepted queue a task has a name of its own, and refers to tasks before it. -/
theorem accepted_task {before after : List (QueuedTask K E Q T D)} {t : QueuedTask K E Q T D}
    {evaluator : Option E} {runDomain : Domain}
    (h : (initial evaluator runDomain).validateBatch checks
      ((before ++ t :: after).map QueuedTask.definition) = .ok c) :
    t.name ∉ before.map (·.name) ∧
      ∀ name ∈ t.task.sourceTaskNames, name ∈ before.map (·.name) := by
  rw [List.map_append, validateBatch_append] at h
  obtain ⟨d, hd, h⟩ := bind_eq_ok h
  obtain ⟨d', hd', -⟩ := bind_eq_ok h
  obtain ⟨-, -, -, -, -, hsources, hname, -, -, -, -, -, -⟩ := validateTask_ok hd'
  have hpairs : before.map QueuedTask.definition =
      (before.map fun t => (t.name, t.task)).map fun t => ⟨some t.1, t.2⟩ := by
    rw [List.map_map]
    rfl
  rw [hpairs] at hd
  obtain ⟨-, hknown, hprior⟩ := validateBatch_recorded hd
  have hnames : (before.map fun t => (t.name, t.task)).map (·.1) = before.map (·.name) := by
    rw [List.map_map]
    rfl
  rw [hnames] at hknown hprior
  refine ⟨fun hmem => hname ((hknown _).2 (.inr hmem)), fun name hmem => ?_⟩
  exact ((hprior name).1 (validateSources_ok hsources name hmem)).resolve_left List.not_mem_nil

section Tuning

variable (s : StageConfigs K E Q) (task : RunTaskSpec K E Q T D) (queueTuning : Option T)

theorem sourceTaskNames_withQueueTuning :
    (task.withQueueTuning queueTuning).sourceTaskNames = task.sourceTaskNames := by
  cases task <;> rfl

theorem resolveEffectiveAccumulator_withQueueTuning :
    s.resolveEffectiveAccumulator (task.withQueueTuning queueTuning) =
      s.resolveEffectiveAccumulator task := by
  cases task with
  | sample estimator evaluator sampler accumulator tuning rest =>
    rcases accumulator with - | (⟨-, -⟩ | - | - | -) <;> rfl
  | _ => rfl

theorem effectiveEvaluator_withQueueTuning :
    effectiveEvaluator s (task.withQueueTuning queueTuning) = effectiveEvaluator s task := by
  cases task with
  | sample estimator evaluator sampler accumulator tuning rest =>
    rcases evaluator with - | (⟨-, -⟩ | - | - | -) <;> rfl
  | _ => rfl

theorem validateAccumulator_withQueueTuning (taskName : String) (evaluator : Option E)
    (accumulator : Option AccumulatorConfig) :
    validateAccumulator checks s (task.withQueueTuning queueTuning) taskName evaluator accumulator =
      validateAccumulator checks s task taskName evaluator accumulator := by
  cases task <;> rfl

theorem validateSampling_withQueueTuning (taskName : String) (accumulator : Option AccumulatorConfig) :
    s.validateSampling (task.withQueueTuning queueTuning) taskName accumulator =
      s.validateSampling task taskName accumulator := by
  cases task <;> rfl

end Tuning

/-- Another queue tuning, when the task passes its own check with it, changes nothing for the
queue. -/
theorem validateTask_withQueueTuning {name : String} {task : RunTaskSpec K E Q T D}
    {c' : TaskPreflightContext K E Q} (h : c.validateTask checks ⟨some name, task⟩ = .ok c')
    (queueTuning : Option T) (hvalid : checks.validate (task.withQueueTuning queueTuning) = .ok ()) :
    c.validateTask checks ⟨some name, task.withQueueTuning queueTuning⟩ = .ok c' := by
  obtain ⟨-, -, -, -, hinput, -, -, -, -, -, -, -, -⟩ := validateTask_ok h
  have hinput' : (RunTaskInput.mk (some name) (task.withQueueTuning queueTuning)).validate checks =
      .ok () := by
    obtain ⟨⟨⟩, hname, -⟩ := bind_eq_ok hinput
    exact bind_eq_ok_iff.2 ⟨(), hname, hvalid⟩
  unfold TaskPreflightContext.validateTask RunTaskInput.nameAt at h ⊢
  rw [hinput] at h
  rw [hinput', sourceTaskNames_withQueueTuning]
  simp only [Option.getD_some, resolveEffectiveAccumulator_withQueueTuning,
    effectiveEvaluator_withQueueTuning, validateAccumulator_withQueueTuning,
    validateSampling_withQueueTuning]
  exact h

end TaskPreflightContext

end Gammaboard.Api
