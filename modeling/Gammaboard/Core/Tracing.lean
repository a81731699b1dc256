import Gammaboard.Lib.OrdMap
import Gammaboard.Lib.Results
import Gammaboard.Lib.Run
import Gammaboard.Utils.Json
import Gammaboard.Utils.Text

/-!
# The runtime log

`tracing.rs`: events of the process become records in a bounded channel, and one task writes
the records to the database. Both the layer that fills the channel and the task that empties
it report what they lose as events of their own, to the same subscriber.
-/

namespace Gammaboard.Core

open Gammaboard.Lib Gammaboard.Utils

/-! ## Levels -/

inductive Level where
  | error
  | warn
  | info
  | debug
  | trace
deriving DecidableEq, Repr

/-- A level is below a filter when it is at most as verbose. -/
def Level.verbosity : Level → Nat
  | .error => 1
  | .warn => 2
  | .info => 3
  | .debug => 4
  | .trace => 5

def Level.text : Level → String
  | .error => "error"
  | .warn => "warn"
  | .info => "info"
  | .debug => "debug"
  | .trace => "trace"

structure TracingConfig where
  persistRuntimeLogs : Bool := true
  dbGammaboardLevel : String := "info"
  dbExternalLevel : String := "warn"

def parseLevelFilterOrOff (value : String) : Option (Option Level) :=
  match String.ofList ((trim value.toList).map Char.toLower) with
  | "off" => some none
  | "error" => some (some .error)
  | "warn" | "warning" => some (some .warn)
  | "info" => some (some .info)
  | "debug" => some (some .debug)
  | "trace" => some (some .trace)
  | _ => none

/-- `quoted` is the `Debug` text of a string. -/
def parseDbLevelConfig (quoted : String → String) (fieldName raw default : String) :
    Except String (Option Level) :=
  match parseLevelFilterOrOff raw with
  | some level => .ok level
  | none => .error ("invalid " ++ fieldName ++ "=" ++ quoted raw ++
      "; expected one of off,error,warn,info,debug,trace; default recommendation is " ++ default)

def isGammaboardTarget (target : String) : Bool :=
  target == "gammaboard" || "gammaboard::".toList.isPrefixOf target.toList

structure SpanLevelPolicy where
  gammaboard : Option Level
  external : Option Level
deriving DecidableEq, Repr

namespace SpanLevelPolicy

def dbFromConfig (quoted : String → String) (config : TracingConfig) :
    Except String SpanLevelPolicy := do
  let gammaboard ←
    parseDbLevelConfig quoted "tracing.db_gammaboard_level" config.dbGammaboardLevel "info"
  let external ←
    parseDbLevelConfig quoted "tracing.db_external_level" config.dbExternalLevel "warn"
  return { gammaboard, external }

def thresholdForTarget (policy : SpanLevelPolicy) (target : String) : Option Level :=
  if isGammaboardTarget target then policy.gammaboard else policy.external

def allows (policy : SpanLevelPolicy) (level : Level) (target : String) : Bool :=
  match policy.thresholdForTarget target with
  | none => false
  | some threshold => level.verbosity ≤ threshold.verbosity

def maxThreshold (policy : SpanLevelPolicy) : Option Level :=
  match policy.gammaboard, policy.external with
  | some a, some b => some (if a.verbosity < b.verbosity then b else a)
  | some a, none => some a
  | none, some b => some b
  | none, none => none

/-- `SpanLevelFilter::enabled`, of an event. -/
def enabled (policy : SpanLevelPolicy) (level : Level) : Bool :=
  match policy.maxThreshold with
  | none => false
  | some threshold => level.verbosity ≤ threshold.verbosity

end SpanLevelPolicy

/-! ## Records -/

structure RuntimeContext where
  source : Option String := none
  runId : Option Int := none
  nodeUuid : Option String := none
  nodeName : Option String := none
deriving DecidableEq, Repr

def RuntimeContext.mergeFrom (context other : RuntimeContext) : RuntimeContext where
  source := other.source <|> context.source
  runId := other.runId <|> context.runId
  nodeUuid := other.nodeUuid <|> context.nodeUuid
  nodeName := other.nodeName <|> context.nodeName

/-- The recorded fields of an event or a span. A float is recorded by its text. -/
abbrev JsonMap := OrdMap String (Json Empty)

def removeString (fields : JsonMap) (key : String) : Option String × JsonMap :=
  (match OrdMap.get key fields with
    | some (.string value) => some value
    | some (.number (.posInt n)) => some (toString n.toNat)
    | some (.number (.negInt n)) => some (toString n.toInt)
    | some (.bool value) => some (toString value)
    | _ => none,
  OrdMap.erase key fields)

/-- `parse::<i32>()`: decimal digits, with or without a sign. -/
def parseI32 (text : List Char) : Option Int :=
  let value : Option Int :=
    match text with
    | '-' :: digits => if digits.head? = some '+' then none else (parseUsize digits).map fun n => -n
    | _ => (parseUsize text).map fun n => n
  value.filter fun n => -2 ^ 31 ≤ n && n < 2 ^ 31

def removeI32 (fields : JsonMap) (key : String) : Option Int × JsonMap :=
  (match OrdMap.get key fields with
    | some value@(.number _) => value.asI64.filter fun n => -2 ^ 31 ≤ n && n < 2 ^ 31
    | some (.string value) => parseI32 value.toList
    | _ => none,
  OrdMap.erase key fields)

/-- `remove_string(fields, key).or_else(|| remove_string(fields, other))` -/
def removeEither (fields : JsonMap) (key other : String) : Option String × JsonMap :=
  match removeString fields key with
  | (some value, fields) => (some value, fields)
  | (none, fields) => removeString fields other

def extractContextUpdate (fields : JsonMap) : RuntimeContext × JsonMap :=
  let (source, fields) := removeString fields "source"
  let (runId, fields) := removeI32 fields "run_id"
  let (nodeUuid, fields) := removeEither fields "node_uuid" "node_id"
  let (nodeName, fields) := removeEither fields "node_name" "worker_id"
  ({ source, runId, nodeUuid, nodeName }, fields)

structure Event where
  target : String
  level : Level
  name : String
  fields : JsonMap
  /-- The contexts stored in the spans around the event, from the root. -/
  scope : List RuntimeContext

structure RuntimeLogEvent where
  source : String
  runId : Option Int
  nodeUuid : Option String
  nodeName : Option String
  level : String
  target : String
  message : String
  fields : JsonMap

def inferSourceFromTarget (target : String) : String :=
  let starts := fun (text : String) => text.toList.isPrefixOf target.toList
  if starts "gammaboard::server" then "server"
  else if starts "gammaboard::runners" || starts "gammaboard::evaluation" ||
      starts "gammaboard::sampling" || starts "gammaboard::cli::node" then "worker"
  else if starts "gammaboard::cli" || starts "gammaboard::api" || starts "gammaboard::stores" then
    "control"
  else "unknown"

/-- The record that `on_event` sends. -/
def Event.record (event : Event) : RuntimeLogEvent :=
  let context := event.scope.foldl RuntimeContext.mergeFrom {}
  let (eventContext, fields) := extractContextUpdate event.fields
  let context := context.mergeFrom eventContext
  let (message, fields) := removeString fields "message"
  { source := context.source.getD (inferSourceFromTarget event.target)
    runId := context.runId
    nodeUuid := context.nodeUuid
    nodeName := context.nodeName
    level := event.level.text
    target := event.target
    message := message.getD event.name
    fields }

/-! ## The sink -/

def DEFAULT_CHANNEL_CAPACITY : Nat := 4096

/-- The report of `on_event` that records were dropped. -/
def channelFull (dropped : Nat) (scope : List RuntimeContext) : Event where
  target := "telemetry"
  level := .warn
  name := "event src/tracing.rs:299"
  fields := [("dropped_events", .number (.posInt (UInt64.ofNat dropped))),
    ("message", .string "runtime log channel is full; dropping log events")]
  scope := scope

/-- The report of `write_runtime_logs` that a record was not written. -/
def persistFailed (err : String) : Event where
  target := "telemetry"
  level := .warn
  name := "event src/tracing.rs:413"
  fields := [("error", .string err),
    ("message", .string "failed to persist runtime log event")]
  scope := []

/-- What a write to the database ends with. The driver reports statements as events of targets
of its own: every statement for debugging, and a slow one as a warning. -/
structure WriteOutcome where
  error : Option String
  reported : List Event
  external : ∀ event ∈ reported, isGammaboardTarget event.target = false
  statements : ∀ event ∈ reported, event.level ≠ .error

/-- The layer, the channel and the writer. -/
structure Sink where
  policy : SpanLevelPolicy
  /-- The calls of `on_event` that have not sent their record yet. -/
  calls : List Event
  /-- Oldest first. -/
  channel : List RuntimeLogEvent
  closed : Bool
  droppedEvents : Nat
  /-- The record that is being written. -/
  writing : Option RuntimeLogEvent
  /-- The events of the application. -/
  application : Nat
  /-- The calls of `on_event` for events that the sink itself reports. -/
  nested : Nat
  /-- The writes that were attempted. -/
  writes : Nat

namespace Sink

def start (policy : SpanLevelPolicy) : Sink where
  policy := policy
  calls := []
  channel := []
  closed := false
  droppedEvents := 0
  writing := none
  application := 0
  nested := 0
  writes := 0

/-- An event reaches `on_event` if both hooks of the filter let it pass. -/
def accepts (sink : Sink) (event : Event) : Bool :=
  sink.policy.enabled event.level && sink.policy.allows event.level event.target

/-- An event of the sink itself. -/
def report (sink : Sink) (event : Event) : Sink :=
  if sink.accepts event then
    { sink with calls := sink.calls ++ [event], nested := sink.nested + 1 }
  else sink

def emit (sink : Sink) (event : Event) : Sink :=
  let sink := { sink with application := sink.application + 1 }
  if sink.accepts event then { sink with calls := sink.calls ++ [event] } else sink

/-- `is_power_of_two` -/
def isPowerOfTwo (n : Nat) : Bool := n != 0 && 2 ^ n.log2 == n

/-- `try_send`, and what `on_event` does after it; the counter wraps around. -/
def send (sink : Sink) (call : Nat) : Sink :=
  match sink.calls[call]? with
  | none => sink
  | some event =>
    let sink := { sink with calls := sink.calls.eraseIdx call }
    if sink.closed then sink
    else if sink.channel.length < DEFAULT_CHANNEL_CAPACITY then
      { sink with channel := sink.channel ++ [event.record] }
    else
      let dropped := (sink.droppedEvents + 1) % 2 ^ 64
      let sink := { sink with droppedEvents := dropped }
      if isPowerOfTwo dropped then sink.report (channelFull dropped event.scope) else sink

/-- `rx.recv()`, after which the record is written. -/
def receive (sink : Sink) : Sink :=
  match sink.writing, sink.channel with
  | none, record :: channel =>
    { sink with channel, writing := some record, writes := sink.writes + 1 }
  | _, _ => sink

def finishWrite (sink : Sink) (outcome : WriteOutcome) : Sink :=
  match sink.writing with
  | none => sink
  | some _ =>
    let sink := outcome.reported.foldl report { sink with writing := none }
    match outcome.error with
    | none => sink
    | some err => sink.report (persistFailed err)

/-- The writer is dropped with its receiver. -/
def close (sink : Sink) : Sink :=
  { sink with closed := true, channel := [], writing := none }

end Sink

inductive SinkStep where
  | emit (event : Event)
  | send (call : Nat)
  | receive
  | finishWrite (outcome : WriteOutcome)
  | close

def Sink.step (sink : Sink) : SinkStep → Sink
  | .emit event => sink.emit event
  | .send call => sink.send call
  | .receive => if sink.closed then sink else sink.receive
  | .finishWrite outcome => sink.finishWrite outcome
  | .close => sink.close

/-- The sink of the process, if the configuration asks for one. -/
def initTracing (quoted : String → String) (config : TracingConfig) : Except String (Option Sink) :=
  if config.persistRuntimeLogs then
    (SpanLevelPolicy.dbFromConfig quoted config).map fun policy => some (Sink.start policy)
  else .ok none

/-! ## Quiescence -/

namespace SpanLevelPolicy

/-- Warnings of targets outside the application are not persisted. -/
def QuietExternal (policy : SpanLevelPolicy) : Prop :=
  policy.external = none ∨ policy.external = some .error

variable {policy : SpanLevelPolicy} {level : Level} {target : String}

theorem QuietExternal.not_allows (h : policy.QuietExternal)
    (htarget : isGammaboardTarget target = false) (hlevel : level ≠ .error) :
    policy.allows level target = false := by
  unfold allows thresholdForTarget
  rw [htarget, if_neg Bool.false_ne_true]
  rcases h with h | h
  · rw [h]
  · rw [h]
    cases level <;> first | exact absurd rfl hlevel | rfl

theorem dbFromConfig_external {quoted : String → String} {config : TracingConfig}
    (h : dbFromConfig quoted config = .ok policy) :
    parseLevelFilterOrOff config.dbExternalLevel = some policy.external := by
  obtain ⟨gammaboard, -, h⟩ := bind_eq_ok h
  obtain ⟨external, hexternal, h⟩ := bind_eq_ok h
  cases h
  unfold parseDbLevelConfig at hexternal
  split at hexternal
  · rename_i level hlevel
    cases hexternal
    exact hlevel
  · cases hexternal

theorem le_maxThreshold {threshold : Level} (h : policy.external = some threshold)
    (hlevel : level.verbosity ≤ threshold.verbosity) : policy.enabled level := by
  unfold enabled maxThreshold
  rw [h]
  cases policy.gammaboard with
  | none => simpa using hlevel
  | some a =>
    dsimp only
    split <;> simp <;> omega

/-- Otherwise the reports of the sink pass the filter. -/
theorem accepts_of_not_quiet (h : ¬ policy.QuietExternal)
    (htarget : isGammaboardTarget target = false) :
    policy.enabled .warn ∧ policy.allows .warn target := by
  cases hexternal : policy.external with
  | none => exact absurd (.inl hexternal) h
  | some threshold =>
    have hle : Level.warn.verbosity ≤ threshold.verbosity := by
      cases threshold with
      | error => exact absurd (.inr hexternal) h
      | warn | info | debug | trace => decide
    refine ⟨le_maxThreshold hexternal hle, ?_⟩
    unfold allows thresholdForTarget
    rw [htarget, if_neg Bool.false_ne_true, hexternal]
    exact decide_eq_true hle

end SpanLevelPolicy

theorem external_telemetry : isGammaboardTarget "telemetry" = false := by decide

theorem warn_ne_error : Level.warn ≠ .error := by decide

namespace Sink

/-- The writes and the calls for events of the sink itself are at most so many times the events
of the application, in every run. -/
def Quiesces (policy : SpanLevelPolicy) : Prop :=
  ∃ factor, ∀ steps, let sink := run step (start policy) steps
    sink.writes ≤ factor * sink.application ∧ sink.nested ≤ factor * sink.application

variable {sink : Sink}

/-- Every record in the sink is one of the application, and none of them is written twice. -/
structure Quiet (sink : Sink) : Prop where
  policy : sink.policy.QuietExternal
  nested : sink.nested = 0
  writes : sink.writes + sink.channel.length + sink.calls.length ≤ sink.application

theorem Quiet.report (h : sink.Quiet) {event : Event}
    (htarget : isGammaboardTarget event.target = false) (hlevel : event.level ≠ .error) :
    sink.report event = sink := by
  unfold Sink.report accepts
  rw [h.policy.not_allows htarget hlevel, Bool.and_false, if_neg Bool.false_ne_true]

theorem Quiet.reports (h : sink.Quiet) : ∀ {events : List Event},
    (∀ event ∈ events, isGammaboardTarget event.target = false) →
    (∀ event ∈ events, event.level ≠ .error) → events.foldl Sink.report sink = sink
  | [], _, _ => rfl
  | event :: events, htarget, hlevel => by
    rw [List.foldl_cons, h.report (htarget event List.mem_cons_self) (hlevel event List.mem_cons_self)]
    exact h.reports (fun e he => htarget e (List.mem_cons_of_mem _ he))
      fun e he => hlevel e (List.mem_cons_of_mem _ he)

theorem Quiet.emit (h : sink.Quiet) (event : Event) : (sink.emit event).Quiet := by
  have hwrites := h.writes
  unfold Sink.emit
  dsimp only
  split
  · refine ⟨h.policy, h.nested, ?_⟩
    simp only [List.length_append, List.length_singleton]
    omega
  · exact ⟨h.policy, h.nested, by dsimp only; omega⟩

theorem Quiet.send (h : sink.Quiet) (call : Nat) : (sink.send call).Quiet := by
  have hwrites := h.writes
  unfold Sink.send
  split
  · exact h
  · rename_i event hevent
    have hcall := (List.getElem?_eq_some_iff.1 hevent).1
    have hrest := List.length_eraseIdx_of_lt hcall
    dsimp only
    split
    · exact ⟨h.policy, h.nested, by dsimp only; omega⟩
    · split
      · refine ⟨h.policy, h.nested, ?_⟩
        simp only [List.length_append, List.length_singleton]
        omega
      · -- the channel is full: the record is dropped, and the report does not pass the filter
        have hdropped : Quiet { sink with
            calls := sink.calls.eraseIdx call
            droppedEvents := (sink.droppedEvents + 1) % 2 ^ 64 } :=
          ⟨h.policy, h.nested, by dsimp only; omega⟩
        split
        · rw [hdropped.report external_telemetry warn_ne_error]
          exact hdropped
        · exact hdropped

theorem Quiet.receive (h : sink.Quiet) : sink.receive.Quiet := by
  have hwrites := h.writes
  unfold Sink.receive
  split
  · rename_i record channel _ hchannel
    rw [hchannel, List.length_cons] at hwrites
    exact ⟨h.policy, h.nested, by dsimp only; omega⟩
  · exact h

theorem Quiet.finishWrite (h : sink.Quiet) (outcome : WriteOutcome) :
    (sink.finishWrite outcome).Quiet := by
  unfold Sink.finishWrite
  split
  · exact h
  · have hidle : Quiet { sink with writing := none } := ⟨h.policy, h.nested, h.writes⟩
    dsimp only
    rw [hidle.reports outcome.external outcome.statements]
    split
    · exact hidle
    · rw [hidle.report external_telemetry warn_ne_error]
      exact hidle

theorem Quiet.step (h : sink.Quiet) (e : SinkStep) : (sink.step e).Quiet := by
  cases e with
  | emit event => exact h.emit event
  | send call => exact h.send call
  | receive =>
    by_cases hclosed : sink.closed
    · rw [Sink.step, if_pos hclosed]
      exact h
    · rw [Sink.step, if_neg hclosed]
      exact h.receive
  | finishWrite outcome => exact h.finishWrite outcome
  | close =>
    have hwrites := h.writes
    refine ⟨h.policy, h.nested, ?_⟩
    dsimp only [Sink.step, Sink.close, List.length_nil]
    omega

/-! ### The record of a failed write -/

/-- Nothing happens in the sink but that one record waits. -/
structure Circulates (policy : SpanLevelPolicy) (sink : Sink) : Prop where
  policy_eq : sink.policy = policy
  calls : sink.calls = []
  channel : sink.channel.length = 1
  running : sink.closed = false
  idle : sink.writing = none
  application : sink.application = 1

def failed : WriteOutcome where
  error := some "database error"
  reported := []
  external := fun _ h => absurd h List.not_mem_nil
  statements := fun _ h => absurd h List.not_mem_nil

/-- The failure of a write is reported, and the report becomes the next record. -/
def failingRound : List SinkStep := [.receive, .finishWrite failed, .send 0]

variable {policy : SpanLevelPolicy}

theorem Circulates.round (hpolicy : ¬ policy.QuietExternal) (h : Circulates policy sink) :
    Circulates policy (run step sink failingRound) ∧
      (run step sink failingRound).writes = sink.writes + 1 := by
  obtain ⟨rfl, hcalls, hchannel, hrunning, hidle, happlication⟩ := h
  obtain ⟨record, hrecord⟩ := List.length_eq_one_iff.1 hchannel
  obtain ⟨henabled, hallows⟩ := SpanLevelPolicy.accepts_of_not_quiet hpolicy external_telemetry
  have hreceive : sink.step .receive =
      { sink with channel := [], writing := some record, writes := sink.writes + 1 } := by
    simp only [Sink.step, hrunning, Bool.false_eq_true, if_false, Sink.receive, hidle, hrecord]
  simp only [failingRound, run_cons, run_nil, hreceive]
  simp only [Sink.step, Sink.finishWrite, failed, List.foldl_nil, Sink.report, accepts,
    persistFailed, henabled, hallows, Bool.and_self, if_true, hcalls, List.nil_append]
  simp only [Sink.send, List.getElem?_cons_zero, List.eraseIdx_cons_zero, hrunning,
    Bool.false_eq_true, if_false, List.length_nil, List.nil_append]
  rw [if_pos (by decide)]
  exact ⟨⟨rfl, rfl, rfl, rfl, rfl, happlication⟩, rfl⟩

theorem Circulates.rounds (hpolicy : ¬ policy.QuietExternal) (n : Nat) :
    ∀ {sink : Sink}, Circulates policy sink →
      Circulates policy (run step sink (List.replicate n failingRound).flatten) ∧
        (run step sink (List.replicate n failingRound).flatten).writes = sink.writes + n := by
  induction n with
  | zero => exact fun h => ⟨h, rfl⟩
  | succ n ih =>
    intro sink h
    obtain ⟨hround, hwrites⟩ := h.round hpolicy
    obtain ⟨hrest, hwrites'⟩ := ih hround
    rw [List.replicate_succ, List.flatten_cons, run_append]
    exact ⟨hrest, by omega⟩

/-- A warning of another crate. -/
def driverWarning : Event where
  target := "sqlx"
  level := .warn
  name := "event"
  fields := []
  scope := []

/-- One warning of the application, and then failing writes only. -/
theorem not_quiesces (hpolicy : ¬ policy.QuietExternal) : ¬ Quiesces policy := by
  rintro ⟨factor, hbound⟩
  have hdriver : isGammaboardTarget "sqlx" = false := by decide
  obtain ⟨henabled, hallows⟩ := SpanLevelPolicy.accepts_of_not_quiet hpolicy hdriver
  have hstart : Circulates policy (run step (start policy) [.emit driverWarning, .send 0]) := by
    simp only [run_cons, run_nil, Sink.step, Sink.emit, start, accepts, driverWarning, henabled,
      hallows, Bool.and_self, if_true, List.nil_append]
    simp only [Sink.send, List.getElem?_cons_zero, List.eraseIdx_cons_zero, Bool.false_eq_true,
      if_false, List.length_nil, List.nil_append]
    rw [if_pos (by decide)]
    exact ⟨rfl, rfl, rfl, rfl, rfl, rfl⟩
  obtain ⟨hend, hwrites⟩ := Circulates.rounds hpolicy (factor + 1) hstart
  have hle := (hbound ([.emit driverWarning, .send 0] ++
    (List.replicate (factor + 1) failingRound).flatten)).1
  rw [run_append, hend.application, hwrites] at hle
  omega

theorem quiesces (hpolicy : policy.QuietExternal) : Quiesces policy := by
  refine ⟨1, fun steps => ?_⟩
  have hstart : (start policy).Quiet := ⟨hpolicy, rfl, le_refl _⟩
  have hquiet := run_invariant' (I := Quiet) (fun _ e h => h.step e) steps hstart
  have hwrites := hquiet.writes
  have hnested := hquiet.nested
  dsimp only
  omega

end Sink

/-- The sink quiesces, whatever the application logs and however the writes end, if and only if
it is not configured to persist warnings of external targets. -/
theorem runtime_log_quiesces (quoted : String → String) (config : TracingConfig)
    {sink : Option Sink} (h : initTracing quoted config = .ok sink) :
    (∀ s ∈ sink, Sink.Quiesces s.policy) ↔
      config.persistRuntimeLogs = false ∨
        parseLevelFilterOrOff config.dbExternalLevel = some none ∨
        parseLevelFilterOrOff config.dbExternalLevel = some (some .error) := by
  unfold initTracing at h
  split at h
  · rename_i hpersist
    obtain ⟨policy, hpolicy, rfl⟩ := map_eq_ok h
    have hexternal := SpanLevelPolicy.dbFromConfig_external hpolicy
    have hquiet : Sink.Quiesces policy ↔ policy.QuietExternal := by
      constructor
      · intro hq
        by_contra hnot
        exact Sink.not_quiesces hnot hq
      · exact Sink.quiesces
    simp only [Option.mem_some_iff, forall_eq', hpersist, Bool.true_eq_false, false_or, hexternal,
      Option.some.injEq]
    exact hquiet
  · rename_i hpersist
    cases h
    simp [hpersist]

/-- The sink that is not configured to write anything quiesces. -/
theorem runtime_log_quiesces_off : Sink.Quiesces ⟨some .info, none⟩ :=
  (runtime_log_quiesces id { dbExternalLevel := " OFF" } rfl).2 (.inr (.inl (by decide)))
    (Sink.start ⟨some .info, none⟩) rfl

/-- With the default levels, one warning of another crate is enough for a database that is down
to be written to forever. -/
theorem default_not_quiesces :
    ∃ sink, initTracing id {} = .ok (some sink) ∧ ¬ Sink.Quiesces sink.policy :=
  ⟨Sink.start ⟨some .info, some .warn⟩, rfl, Sink.not_quiesces (by rintro (h | h) <;> cases h)⟩

end Gammaboard.Core
