/-!
# Errors

`core/errors.rs`: the error types of the stores and of the engine, the
predicates that classify a store error, and the conversions between layers.
A conversion through `store_err` keeps the text of an error and drops its
class.
-/

namespace Gammaboard.Core

inductive StoreError where
  | internal (message : String)
  | invalidInput (message : String)
  | notFound (message : String)
  | database (message : String)
  | retryActivation (message : String)
  | serialization (message : String)
  | batchOwnershipLost (batchId : Int) (nodeUuid : String)
  deriving DecidableEq, Repr

namespace StoreError

def store (message : String) : StoreError := .internal message

def isRetryActivation : StoreError → Bool
  | .retryActivation _ => true
  | _ => false

def isBatchOwnershipLost : StoreError → Bool
  | .batchOwnershipLost _ _ => true
  | _ => false

def isDatabaseError : StoreError → Bool
  | .database _ => true
  | _ => false

/-- The classes the node runner retries instead of failing the task. -/
def isTransient (e : StoreError) : Bool := e.isDatabaseError || e.isRetryActivation

/-- The `Display` text. -/
def toText : StoreError → String
  | .internal m => "store internal error: " ++ m
  | .invalidInput m => "invalid input: " ++ m
  | .notFound m => "not found: " ++ m
  | .database m => "database error: " ++ m
  | .retryActivation m => "runtime activation must be retried: " ++ m
  | .serialization m => "serialization error: " ++ m
  | .batchOwnershipLost b uuid =>
    "batch " ++ toString b ++ " is no longer owned by node uuid '" ++ uuid ++ "'"

end StoreError

inductive EngineError where
  | eval (message : String)
  | build (message : String)
  | engine (message : String)
  | invalidInput (message : String)
  | incompatible (message : String)
  | io (message : String)
  | serialization (message : String)
  deriving DecidableEq, Repr

/-- The `Display` text. -/
def EngineError.toText : EngineError → String
  | .eval m => "evaluation error: " ++ m
  | .build m => "build error: " ++ m
  | .engine m => "engine error: " ++ m
  | .invalidInput m => "invalid input: " ++ m
  | .incompatible m => "incompatible configuration: " ++ m
  | .io m => "io error: " ++ m
  | .serialization m => "serialization error: " ++ m

/-- `RunnerError` of the sampler aggregator. -/
inductive RunnerError where
  | engine (error : EngineError)
  | store (error : StoreError)
  deriving DecidableEq, Repr

/-- The `Display` text. -/
def RunnerError.toText : RunnerError → String
  | .engine e => e.toText
  | .store e => e.toText

/-- `ServiceError`, the error type of the API. -/
inductive ServiceError where
  | badRequest (message : String)
  | unauthorized (message : String)
  | forbidden (message : String)
  | notFound (message : String)
  | internal (message : String)
  deriving DecidableEq, Repr

namespace ServiceError

/-- The `Display` text. -/
def toText : ServiceError → String
  | .badRequest m => "bad request: " ++ m
  | .unauthorized m => "unauthorized: " ++ m
  | .forbidden m => "forbidden: " ++ m
  | .notFound m => "not found: " ++ m
  | .internal m => "internal error: " ++ m

/-- `From<StoreError>`: a database error becomes an internal one. -/
def ofStore : StoreError → ServiceError
  | .invalidInput m => .badRequest m
  | .notFound m => .notFound m
  | .internal m | .database m | .retryActivation m | .serialization m => .internal m
  | .batchOwnershipLost b uuid =>
    .internal ("batch " ++ toString b ++ " is no longer owned by node uuid '" ++ uuid ++ "'")

end ServiceError

/-- `store_err`: keep the text, drop the class. -/
def storeErr (text : String) : StoreError := .internal text

@[simp] theorem isTransient_storeErr (text : String) : (storeErr text).isTransient = false := rfl

end Gammaboard.Core
