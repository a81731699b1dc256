import Gammaboard.Process.Worker

/-!
# External launches

`stores/pg_store/external_launch.rs` and the launch request statements of
`stores/queries/control_plane.rs`: launchers claim a request for a while, report on its workers one
by one, and registrations of nodes are published besides. Every function is one transaction; the
locks on the request row order the transactions of one request. `now` is the clock of the server.
-/

namespace Gammaboard.Stores

inductive LaunchRequestState where
  | pending
  | starting
  | fulfilled
  | failed
  | canceled
  deriving DecidableEq, Repr

inductive WorkerLaunchState where
  | pending
  | submitting
  | submitted
  | connected
  | failed
  | canceled
  deriving DecidableEq, Repr

namespace WorkerLaunchState

def text : WorkerLaunchState → String
  | pending => "pending"
  | submitting => "submitting"
  | submitted => "submitted"
  | connected => "connected"
  | failed => "failed"
  | canceled => "canceled"

def ofText? (s : String) : Option WorkerLaunchState :=
  [pending, submitting, submitted, connected, failed, canceled].find? fun x => x.text == s

/-- `state IN ('pending','submitting','submitted')` -/
def isOpen : WorkerLaunchState → Bool
  | pending | submitting | submitted => true
  | connected | failed | canceled => false

/-- `state IN ('failed','canceled')` -/
def isLost : WorkerLaunchState → Bool
  | failed | canceled => true
  | pending | submitting | submitted | connected => false

/-- The transitions a launcher may report, besides staying where it is. -/
def allows : WorkerLaunchState → WorkerLaunchState → Bool
  | pending, submitting | pending, connected | pending, canceled | pending, failed => true
  | submitting, submitted | submitting, connected | submitting, failed | submitting, canceled => true
  | submitted, connected | submitted, failed | submitted, canceled => true
  | _, _ => false

end WorkerLaunchState

/-- A row of `node_launch_requests`. Of the arguments the groups are kept: `none` where they are no
array, a name that is no string as `none`. -/
structure LaunchRequest where
  id : Nat
  createdAt : Int
  updatedAt : Int
  state : LaunchRequestState
  backend : String
  requestedCount : Nat
  startedCount : Nat
  groups : Option (List (List (Option String)))
  error : Option String
  launcherToken : Option String
  launcherOwner : Option String
  launcherLeaseExpiresAt : Option Int
  deriving DecidableEq, Repr

/-- A row of `external_worker_launches`. -/
structure WorkerLaunch where
  requestId : Nat
  nodeName : String
  submissionKey : String
  state : WorkerLaunchState
  jobId : Option String
  error : Option String
  deriving DecidableEq, Repr

/-- The columns of `nodes` the launch statements read. -/
structure Registration where
  name : String
  launchRequestId : Option Nat
  lastSeen : Int
  leaseExpiresAt : Int
  deriving DecidableEq, Repr

structure LaunchStore where
  now : Int
  nextRequestId : Nat
  requests : List LaunchRequest
  workers : List WorkerLaunch
  nodes : List Registration
  /-- The row of `gammaboard_deployment`: the deployment and its build. -/
  deployment : Option (String × String)
  deriving DecidableEq, Repr

/-- Time is counted in microseconds. -/
def seconds (n : Int) : Int := n * 1000000

def leaseSeconds : Int := 120

namespace WorkerLaunch

/-- The worker of this request and name. -/
def isFor (id : Nat) (name : String) (w : WorkerLaunch) : Bool :=
  w.requestId == id && w.nodeName == name

/-- A job id that is no number, another one than was recorded, or one that comes too early. -/
def refusesJob (w : WorkerLaunch) (state : String) : Option String → Bool
  | none => false
  | some job =>
    job.isEmpty || !job.toList.all Char.isDigit || w.jobId.any (· != job)
      || state == "pending" || state == "submitting"

/-- A fast worker may register before its job id is there: what is reported late leaves it
connected. -/
def reportedState (w : WorkerLaunch) (state : String) : String :=
  if w.state = .connected ∧ (state = "submitted" ∨ state = "failed" ∨ state = "canceled")
    then "connected" else state

/-- The operator takes a submission back that never happened. -/
def takesBack (w : WorkerLaunch) (state : WorkerLaunchState) (jobId error : Option String) : Bool :=
  w.state == .submitting && state == .pending && jobId.isNone
    && error == some "operator confirmed no submission"

/-- The checks of one report, and the state it leads to. -/
def report (w : WorkerLaunch) (registered : Bool) (state : String) (jobId error : Option String) :
    Except String WorkerLaunchState :=
  if w.refusesJob state jobId then .error "invalid or changed scheduler job identity"
  else
    match WorkerLaunchState.ofText? (w.reportedState state) with
    | none =>
      .error s!"invalid external worker transition {w.state.text} -> {w.reportedState state}"
    | some next =>
      if w.state = next ∨ w.state.allows next ∨ w.takesBack next jobId error then
        if next = .connected ∧ registered = false then
          .error "worker has not registered for this request"
        else if next = .submitted ∧ jobId = none then
          .error "submitted worker requires a scheduler job id"
        else .ok next
      else .error s!"invalid external worker transition {w.state.text} -> {next.text}"

/-- The `UPDATE` of a report. -/
def record (state : WorkerLaunchState) (jobId error : Option String) (w : WorkerLaunch) :
    WorkerLaunch :=
  { w with
    state
    jobId := jobId <|> w.jobId
    error := if state = .connected then none else error }

def connect (w : WorkerLaunch) : WorkerLaunch := { w with state := .connected, error := none }

end WorkerLaunch

namespace LaunchRequest

/-- `started_count`: the workers with a job or a registration. -/
def publishCount (workers : List WorkerLaunch) (r : LaunchRequest) : LaunchRequest :=
  { r with
    startedCount := (workers.filter fun w =>
      w.requestId == r.id && (w.jobId.isSome || w.state == .connected)).length }

/-- `NOT EXISTS` a worker that is still open. -/
def allSettled (workers : List WorkerLaunch) (r : LaunchRequest) : Bool :=
  workers.all fun w => w.requestId != r.id || !w.state.isOpen

/-- `EXISTS` a worker that failed or was canceled. -/
def anyLost (workers : List WorkerLaunch) (r : LaunchRequest) : Bool :=
  workers.any fun w => w.requestId == r.id && w.state.isLost

/-- `string_agg(error,'; ')` -/
def joinedErrors (workers : List WorkerLaunch) (r : LaunchRequest) : Option String :=
  match (workers.filter (·.requestId == r.id)).filterMap (·.error) with
  | [] => none
  | errors => some ("; ".intercalate errors)

def close (workers : List WorkerLaunch) (r : LaunchRequest) : LaunchRequest :=
  { r with
    state := if r.anyLost workers then .failed else .fulfilled
    error := r.joinedErrors workers }

end LaunchRequest

namespace LaunchStore

def empty : LaunchStore := ⟨0, 1, [], [], [], none⟩

def updateRequest (id : Nat) (f : LaunchRequest → LaunchRequest) (s : LaunchStore) : LaunchStore :=
  { s with requests := s.requests.map fun r => if r.id = id then f r else r }

/-- A node runs under this name that was launched for this request. -/
def registered (s : LaunchStore) (id : Nat) (name : String) : Bool :=
  s.requests.any fun r =>
    r.id == id && s.nodes.any fun n =>
      n.name == name && n.launchRequestId == some id && decide (r.createdAt ≤ n.lastSeen)

/-- The `INSERT INTO node_launch_requests` of `create_node_launch_request`,
`reserve_worker_launch_with_args` and `enqueue_resumed_workers`. -/
def insertLaunchRequest (backend : String) (requestedCount : Nat)
    (groups : Option (List (List (Option String)))) (s : LaunchStore) : LaunchStore :=
  if requestedCount = 0 then s
  else
    { s with
      nextRequestId := s.nextRequestId + 1
      requests := s.requests ++ [{
        id := s.nextRequestId, createdAt := s.now, updatedAt := s.now, state := .pending
        backend, requestedCount, startedCount := 0, groups, error := none
        launcherToken := none, launcherOwner := none, launcherLeaseExpiresAt := none }] }

/-- `bind_deployment` of a server built as `build`. -/
def bindDeployment (deploymentId : Option String) (build : String) (s : LaunchStore) :
    Except String LaunchStore :=
  match deploymentId, s.deployment with
  | none, none => .ok s
  | none, some _ => .error "this database requires GAMMABOARD_DEPLOYMENT_ID"
  | some id, bound =>
    if bound = some (id, build) then .ok { s with deployment := some (id, build) }
    else if s.nodes.any fun n => decide (s.now < n.leaseExpiresAt) then
      .error "cannot replace deployment while old workers are live"
    else
      let cancel (r : LaunchRequest) : LaunchRequest :=
        if bound.isSome ∧ r.backend = "external" ∧ (r.state = .pending ∨ r.state = .starting) then
          { r with
            state := .canceled, error := some "previous deployment ended before launch completed"
            updatedAt := s.now }
        else r
      .ok { s with requests := s.requests.map cancel, deployment := some (id, build) }

/-! ## Claims -/

/-- A request a launcher may claim. -/
def claimable (s : LaunchStore) (requestId : Option Nat) (r : LaunchRequest) : Bool :=
  r.backend == "external" && (r.state == .pending || r.state == .starting)
    && requestId.all (· == r.id)
    && r.launcherLeaseExpiresAt.all fun lease => decide (lease < s.now)

/-- `ORDER BY updated_at,id LIMIT 1` -/
def oldest (requests : List LaunchRequest) : Option LaunchRequest :=
  requests.foldr (fun r best =>
    match best with
    | none => some r
    | some b =>
      if r.updatedAt < b.updatedAt ∨ r.updatedAt = b.updatedAt ∧ r.id < b.id then some r else some b)
    none

/-- One row for every reserved name that has none; the submission key of a row is unique. -/
def insertWorkers (id : Nat) (uuid : Nat → String) :
    Nat → List (Option String) → List WorkerLaunch → Except String (List WorkerLaunch)
  | _, [], workers => .ok workers
  | _, none :: _, _ => .error "invalid reserved worker name"
  | n, some name :: names, workers =>
    if workers.any (·.isFor id name) then insertWorkers id uuid (n + 1) names workers
    else if workers.any (·.submissionKey == uuid n) then
      .error "duplicate key value violates unique constraint"
    else
      insertWorkers id uuid (n + 1) names (workers ++ [⟨id, name, uuid n, .pending, none, none⟩])

structure LaunchClaim where
  id : Nat
  groups : List (List (Option String))
  leaseToken : String
  /-- The workers, each with whether it has registered. -/
  workers : List (WorkerLaunch × Bool)

/-- `claim_external_launch`. `uuid` are the identifiers drawn: `uuid n` for the `n`-th name, and
`token`. Rows locked by others are skipped. -/
def claimExternalLaunch (owner : String) (requestId : Option Nat) (locked : Nat → Bool)
    (uuid : Nat → String) (token : String) (s : LaunchStore) :
    Except String (Option LaunchClaim × LaunchStore) :=
  if owner.toList.all Utils.isWhiteSpace then .error "launcher_id must not be empty"
  else
    match oldest (s.requests.filter fun r => s.claimable requestId r && !locked r.id) with
    | none => .ok (none, s)
    | some r =>
      match r.groups with
      | none => .error "external launch requires grouped arguments"
      | some groups => do
        let workers ← insertWorkers r.id uuid 0 groups.flatten s.workers
        let claim (r : LaunchRequest) : LaunchRequest :=
          { r with
            state := .starting, launcherToken := some token, launcherOwner := some owner
            launcherLeaseExpiresAt := some (s.now + seconds leaseSeconds), updatedAt := s.now }
        let s := { s.updateRequest r.id claim with workers }
        let reply := (workers.filter (·.requestId == r.id)).map fun w =>
          (w, s.registered r.id w.nodeName)
        .ok (some ⟨r.id, groups, token, reply⟩, s)

/-- The token is the current one and its lease runs. -/
def holds (s : LaunchStore) (id : Nat) (token : String) (r : LaunchRequest) : Bool :=
  r.id == id && r.launcherToken == some token
    && r.launcherLeaseExpiresAt.any fun lease => decide (s.now < lease)

def heartbeatExternalLaunch (id : Nat) (token : String) (release : Bool) (s : LaunchStore) :
    Except String LaunchStore :=
  if s.requests.any fun r => s.holds id token r && r.state == .starting then
    .ok (s.updateRequest id fun r =>
      { r with
        launcherLeaseExpiresAt := some (if release then s.now else s.now + seconds leaseSeconds) })
  else .error "external launch lease expired or was superseded"

/-! ## Worker updates -/

/-- A request whose holder may report on its workers. -/
def accepts (s : LaunchStore) (id : Nat) (token : String) (r : LaunchRequest) : Bool :=
  s.holds id token r && r.backend == "external"
    && (r.state == .starting || r.state == .fulfilled || r.state == .failed)

/-- The counts are published with every report, the end of the request with the last one. -/
def publish (id : Nat) (s : LaunchStore) : LaunchStore :=
  s.updateRequest id fun r =>
    let r := { r.publishCount s.workers with updatedAt := s.now }
    if r.allSettled s.workers then r.close s.workers else r

def updateExternalWorker (id : Nat) (token name state : String) (jobId error : Option String)
    (s : LaunchStore) : Except String LaunchStore :=
  if s.requests.any (s.accepts id token) then
    match s.workers.find? (·.isFor id name) with
    | none => .error "no rows returned by a query that expected to return at least one row"
    | some w => do
      let next ← w.report (s.registered id name) state jobId error
      let workers := s.workers.map fun w => if w.isFor id name then w.record next jobId error else w
      .ok ({ s with workers }.publish id)
  else .error "external launch lease expired or was superseded"

/-! ## Registrations -/

/-- The request gets its counts and, where all its workers have ended, its end. -/
def reconcileRequest (workers : List WorkerLaunch) (s : LaunchStore) (r : LaunchRequest) :
    LaunchRequest :=
  let r := if workers.any (·.requestId == r.id) then r.publishCount workers else r
  let r :=
    if r.backend = "external" ∧ (workers.filter (·.requestId == r.id)).length = r.requestedCount
        ∧ r.allSettled workers then { r.close workers with updatedAt := s.now } else r
  if r.state = .starting ∧ r.backend = "local" ∧ r.requestedCount ≤ r.startedCount
      ∧ r.requestedCount ≤ (s.nodes.filter fun n =>
        n.launchRequestId == some r.id && decide (r.createdAt ≤ n.lastSeen)).length then
    { r with state := .fulfilled, updatedAt := s.now }
  else r

/-- `reconcile_fulfilled_node_launch_requests`: the registered workers of the starting requests are
connected. -/
def reconcileLaunches (s : LaunchStore) : LaunchStore :=
  let starting (id : Nat) : Bool := s.requests.any fun r => r.id == id && r.state == .starting
  let workers := s.workers.map fun w =>
    if starting w.requestId ∧ w.state.isOpen ∧ s.registered w.requestId w.nodeName then w.connect
    else w
  { s with
    workers
    requests := s.requests.map fun r => if starting r.id then reconcileRequest workers s r else r }

/-! ## Local launches -/

/-- `claim_local_worker_launch` -/
def claimLocalWorkerLaunch (locked : Nat → Bool) (s : LaunchStore) : LaunchStore :=
  match s.requests.find? fun r => r.state == .pending && r.backend == "local" && !locked r.id with
  | none => s
  | some r => s.updateRequest r.id fun r => { r with state := .starting, updatedAt := s.now }

/-- `update_node_launch_request_state`. Its callers mark the local request they claimed. -/
def markLocalLaunch (id : Nat) (state : LaunchRequestState) (startedCount : Nat)
    (error : Option String) (s : LaunchStore) : LaunchStore :=
  if s.requests.any fun r => r.id == id && r.backend == "local" then
    s.updateRequest id fun r => { r with state, startedCount, error, updatedAt := s.now }
  else s

end LaunchStore

end Gammaboard.Stores
