import Gammaboard.Lib.Chunked
import Gammaboard.Utils.Text
import Mathlib.Algebra.BigOperators.Group.List.Basic
import Mathlib.Algebra.Order.Ring.Int
import Mathlib.Data.List.DropRight

/-!
# Reading from a worker process

`ProcessWorker::read_response` and what it is made of. Frames and log lines share the stdout of
the worker: a line that is no `Content-Length` header is logged and counted, a header announces
the JSON and the binary block behind it. The deadline of a read is left out: the bytes are there
before it.
-/

namespace Gammaboard.Process

open Gammaboard.Lib Gammaboard.Utils

def maxStdoutLogBytesBeforeFrame : Nat := 64 * 1024

def maxFrameHeaderLineBytes : Nat := 8 * 1024

def maxJsonFrameBytes : Nat := 16 * 1024 * 1024

def maxBinaryFrameBytes : Nat := 256 * 1024 * 1024

/-! ## JSON -/

inductive JsonNumber where
  | posInt (n : UInt64)
  | negInt (n : Int64)
  | float (bits : UInt64)

/-- `serde_json::Value` -/
inductive Value where
  | null
  | bool (b : Bool)
  | number (n : JsonNumber)
  | string (s : String)
  | array (items : List Value)
  | object (fields : List (String × Value))

namespace Value

def get (v : Value) (key : String) : Option Value :=
  match v with
  | object fields => fields.lookup key
  | _ => none

/-- `value[key]`: null where there is no such field. -/
def index (v : Value) (key : String) : Value := (v.get key).getD .null

def asStr : Value → Option String
  | string s => some s
  | _ => none

def asU64 : Value → Option UInt64
  | number (.posInt n) => some n
  | _ => none

def isObject : Value → Bool
  | object _ => true
  | _ => false

end Value

/-! ## Text -/

/-- `trim_end_matches(['\r', '\n'])` -/
def trimLineEnd (line : List Char) : List Char :=
  line.rdropWhile fun c => c == '\r' || c == '\n'

/-- `split_once(':')` -/
def splitOnce (separator : Char) (text : List Char) : Option (List Char × List Char) :=
  match text.span (· != separator) with
  | (name, _ :: value) => some (name, value)
  | (_, []) => none

def eqIgnoreAsciiCase (a b : List Char) : Bool := a.map Char.toLower == b.map Char.toLower

/-! ## The worker -/

/-- How a read ends without a value: with an error, or never. -/
inductive Stop where
  | failed (message : String)
  | hangs

/-- What the reader takes from elsewhere: the parser of `serde_json`, the report on the child
process, and the wording of the errors of libraries. -/
structure Runtime where
  label : String
  fromSlice : Bytes → Except String Value
  workerTerminatedMessage : String → String
  boundedDiagnostic : Bytes → String
  utf8Error : Bytes → String
  intError : List Char → String
  debug : List Char → String
  display : Value → String

structure ProcessWorker where
  stdout : Chunked UInt8
  stdoutLogBytesBeforeFrame : Nat

def ProcessWorker.new (stdout : Chunked UInt8) : ProcessWorker := ⟨stdout, 0⟩

variable (rt : Runtime)

def logStdoutText (line : List Char) (w : ProcessWorker) : Except Stop ProcessWorker :=
  let logged :=
    min (min (w.stdoutLogBytesBeforeFrame + (encodeUtf8 line).length) usizeMax + 1) usizeMax
  if maxStdoutLogBytesBeforeFrame < logged then
    .error (.failed s!"{rt.label} worker wrote more than {maxStdoutLogBytesBeforeFrame} bytes of non-protocol stdout before a frame; write logs to stderr")
  else .ok { w with stdoutLogBytesBeforeFrame := logged }

/-- The loop takes at least one byte each time round, unless the line is at its limit and no
newline is buffered: then it goes round for ever. -/
def readHeaderLine (context : String) (w : ProcessWorker) :
    Except Stop (Option (List Char) × ProcessWorker) :=
  match w.stdout.readUntil 10 maxFrameHeaderLineBytes (w.stdout.contents.length + 1) [] with
  | .ended [] s => .ok (none, { w with stdout := s })
  | .ended (_ :: _) _ =>
    .error (.failed (rt.workerTerminatedMessage s!"{rt.label} worker terminated inside {context}"))
  | .exceeds =>
    .error (.failed s!"{rt.label} {context} exceeds protocol limit of {maxFrameHeaderLineBytes} bytes")
  | .stuck => .error .hangs
  | .found bytes s =>
    match fromUtf8 bytes with
    | some line => .ok (some line, { w with stdout := s })
    | none => .error (.failed s!"{rt.label} {context} is not valid UTF-8: {rt.utf8Error bytes}")

def readFrameBytes (len : Nat) (context : String) (w : ProcessWorker) :
    Except Stop (Bytes × ProcessWorker) :=
  match w.stdout.readExact len len [] with
  | some (bytes, s) => .ok (bytes, { w with stdout := s })
  | none =>
    .error (.failed (rt.workerTerminatedMessage s!"{rt.label} worker terminated inside {context}"))

def parseHeaderLen (header : String) (value : List Char) : Except Stop Nat :=
  match parseUsize (trim value) with
  | none =>
    .error (.failed s!"invalid {rt.label} {header} header value {rt.debug (trim value)}: {rt.intError (trim value)}")
  | some parsed =>
    let limit := if header = "Content-Length" then maxJsonFrameBytes else maxBinaryFrameBytes
    if limit < parsed then
      .error (.failed s!"{rt.label} {header}={parsed} exceeds protocol limit of {limit} bytes")
    else .ok parsed

/-- The lines of a header behind `Content-Length`, up to an empty one. -/
def readHeaderRest : Nat → Nat → ProcessWorker → Except Stop (Nat × ProcessWorker)
  | 0, _, _ => .error .hangs
  | fuel + 1, binaryLen, w => do
    let (line, w) ← readHeaderLine rt "frame header continuation" w
    match line with
    | none =>
      .error (.failed
        (rt.workerTerminatedMessage s!"{rt.label} worker terminated inside frame header"))
    | some line =>
      let trimmed := trimLineEnd line
      if trimmed.isEmpty then .ok (binaryLen, w)
      else
        match splitOnce ':' trimmed with
        | none => readHeaderRest fuel binaryLen w
        | some (name, value) =>
          if eqIgnoreAsciiCase name "Binary-Length".toList then do
            let binaryLen ← parseHeaderLen rt "Binary-Length" value
            readHeaderRest fuel binaryLen w
          else readHeaderRest fuel binaryLen w

/-- Every line takes a byte at least, so the loop ends. -/
def frameHeaderLoop : Nat → ProcessWorker → Except Stop (Option (Nat × Nat) × ProcessWorker)
  | 0, _ => .error .hangs
  | fuel + 1, w => do
    let (line, w) ← readHeaderLine rt "frame header" w
    match line with
    | none => .ok (none, w)
    | some line =>
      let trimmed := trimLineEnd line
      if trimmed.isEmpty then frameHeaderLoop fuel w
      else
        match splitOnce ':' trimmed with
        | none => do
          let w ← logStdoutText rt trimmed w
          frameHeaderLoop fuel w
        | some (name, value) =>
          if eqIgnoreAsciiCase name "Content-Length".toList then do
            let contentLen ← parseHeaderLen rt "Content-Length" value
            let (binaryLen, w) ← readHeaderRest rt (w.stdout.contents.length + 1) 0 w
            .ok (some (contentLen, binaryLen), w)
          else do
            let w ← logStdoutText rt trimmed w
            frameHeaderLoop fuel w

def readFrameHeader (w : ProcessWorker) : Except Stop (Option (Nat × Nat) × ProcessWorker) :=
  frameHeaderLoop rt (w.stdout.contents.length + 1) w

def jsonRpcVersion : String := "2.0"

def validateResponseEnvelope (response : Value) (expectedId : UInt64) : Except String Unit :=
  if response.isObject then
    match (response.get "jsonrpc").bind Value.asStr with
    | none => .error s!"{rt.label} response missing string 'jsonrpc'"
    | some jsonrpc =>
      if jsonrpc = jsonRpcVersion then
        match (response.get "id").bind Value.asU64 with
        | none => .error s!"{rt.label} response missing numeric 'id'"
        | some actualId =>
          if actualId = expectedId then
            if (response.get "result").isSome = (response.get "error").isSome then
              .error s!"{rt.label} response must contain exactly one of 'result' or 'error'"
            else .ok ()
          else
            .error s!"{rt.label} worker returned mismatched response id: expected {expectedId}, got {actualId}"
      else
        .error s!"{rt.label} response uses unsupported jsonrpc version: expected {rt.debug jsonRpcVersion.toList}, got {rt.debug jsonrpc.toList}"
  else .error s!"{rt.label} response frame must be a JSON object, got {rt.display response}"

/-- `activity::report_progress`, without the activity it sets. -/
def reportProgress (phase : String) : Except String Unit :=
  if phase ∈ ["waiting", "materializing", "evaluating", "updating sampler", "saving checkpoint",
      "shutdown"] then .ok ()
  else .error s!"unsupported worker progress activity '{phase}'"

def isProgress (response : Value) : Bool :=
  (response.get "id").isNone && (response.get "method").bind Value.asStr == some "progress"

def acceptProgress (response : Value) : Except String Unit :=
  match ((response.index "params").index "activity").asStr with
  | none => .error "progress notification requires params.activity"
  | some phase => reportProgress phase

def orFailed {α : Type} : Except String α → Except Stop α
  | .ok a => .ok a
  | .error message => .error (.failed message)

/-- Every frame takes a byte at least, so the loop ends. -/
def responseLoop (expectedId : UInt64) :
    Nat → ProcessWorker → Except Stop ((Value × Bytes) × ProcessWorker)
  | 0, _ => .error .hangs
  | fuel + 1, w => do
    let (header, w) ← readFrameHeader rt w
    match header with
    | none =>
      .error (.failed
        (rt.workerTerminatedMessage s!"{rt.label} worker terminated before responding"))
    | some (contentLen, binaryLen) => do
      let (payload, w) ← readFrameBytes rt contentLen "frame payload" w
      let (binary, w) ← readFrameBytes rt binaryLen "binary payload" w
      match rt.fromSlice payload with
      | .error error =>
        .error (.failed s!"failed to parse {rt.label} response frame as JSON: {error}; payload='{rt.boundedDiagnostic payload}'")
      | .ok response =>
        if isProgress response then do
          orFailed (acceptProgress response)
          responseLoop expectedId fuel w
        else do
          orFailed (validateResponseEnvelope rt response expectedId)
          .ok ((response, binary), w)

def readResponse (expectedId : UInt64) (w : ProcessWorker) :
    Except Stop ((Value × Bytes) × ProcessWorker) :=
  responseLoop rt expectedId (w.stdout.contents.length + 1) w

/-- Successive calls, each awaiting its own id. -/
def readResponses : List UInt64 → ProcessWorker → Except Stop (List (Value × Bytes) × ProcessWorker)
  | [], w => .ok ([], w)
  | id :: ids, w => do
    let (response, w) ← readResponse rt id w
    let (responses, w) ← readResponses ids w
    .ok (response :: responses, w)

end Gammaboard.Process
