import AutoAgent.Core.ToolInvocation
import AutoAgent.Lib.Table
import Mathlib.Data.List.ProdSigma

/-!
# Run control and the run queue

The durable control plane of runs: one row of `run_control` per run, one row of
`run_queue` per run that waits for a worker or is held by one, one row of
`run_submissions` per idempotency key, and the rows of `approval_requests` and
`delegation_links` that the approval transactions read.

Each operation is one SQL transaction, as a function of the database.  An error
and a return without commit both roll back, so they give the database back as it
was; `Except` says which of the two happened.  Statements carry the names of the
source's query variables.

**Times.**  An instant is a number of nanoseconds since the Unix epoch, `none`
the zero time; the database stores milliseconds.  Every operation is given the
reading of the clock it makes.

**What the database chooses.**  PostgreSQL skips the rows other transactions
have locked, and rows that tie in an `ORDER BY … LIMIT 1` may come in any
order; both choices are arguments of the operations that make them.
-/

namespace AutoAgent.Storage

/-! ## Rows -/

/-- `status` of `run_control`. -/
inductive RunState where
  | queued | running | waitingApproval | completed | limited | failed | cancelled
  deriving DecidableEq, Repr

namespace RunState

def text : RunState → GoString
  | .queued => go "queued"
  | .running => go "running"
  | .waitingApproval => go "waiting_approval"
  | .completed => go "completed"
  | .limited => go "limited"
  | .failed => go "failed"
  | .cancelled => go "cancelled"

/-- `status IN ('running', 'waiting_approval')`. -/
def active (s : RunState) : Bool := s == .running || s == .waitingApproval

/-- `status IN ('queued', 'running', 'waiting_approval')`. -/
def inFlight (s : RunState) : Bool := s == .queued || s.active

/-- A status no run leaves. -/
def terminal (s : RunState) : Bool := !s.inFlight

end RunState

/-- A row of `run_control`. -/
structure RunRow where
  runID : GoString
  sessionID : GoString
  tenantID : GoString
  subjectID : GoString
  status : RunState
  cancelRequested : Bool
  errorCode : GoString
  createdAt : ℤ
  updatedAt : ℤ
  completedAt : ℤ
  deriving DecidableEq

/-- The primary key, and the index `run_control_one_active`. -/
def RunRow.clash (a b : RunRow) : Bool :=
  a.runID = b.runID ∨ a.sessionID = b.sessionID ∧ a.status.active ∧ b.status.active

/-- A row of `run_queue`. -/
structure QueueRow where
  runID : GoString
  message : GoString
  availableAt : ℤ
  workerID : GoString
  leaseExpiresAt : ℤ
  attempt : ℤ
  maxAttempts : ℤ
  generation : ℤ
  traceParent : GoString
  traceState : GoString
  deriving DecidableEq

/-- The primary key of `run_queue`. -/
def QueueRow.clash (a b : QueueRow) : Bool := a.runID == b.runID

/-- A row of `run_submissions`. -/
structure SubmissionRow where
  tenantID : GoString
  subjectID : GoString
  sessionID : GoString
  keyHash : GoString
  requestDigest : GoString
  runID : GoString
  createdAt : ℤ
  deriving DecidableEq

/-- The row of a tenant, subject, session and key. -/
def SubmissionRow.hasKey (tenantID subjectID sessionID keyHash : GoString) (r : SubmissionRow) :
    Bool :=
  r.tenantID = tenantID ∧ r.subjectID = subjectID ∧ r.sessionID = sessionID ∧ r.keyHash = keyHash

/-- The primary key of `run_submissions`, and its unique run id. -/
def SubmissionRow.clash (a b : SubmissionRow) : Bool :=
  a.hasKey b.tenantID b.subjectID b.sessionID b.keyHash ∨ a.runID = b.runID

/-- A row of `approval_requests`.  The request is the stored JSON text. -/
structure ApprovalRow where
  id : GoString
  tenantID : GoString
  subjectID : GoString
  sessionID : GoString
  runID : GoString
  callID : GoString
  capabilityID : GoString
  argsDigest : GoString
  manifestDigest : GoString
  request : RawMessage
  status : ApprovalDecision
  requestedAt : ℤ
  expiresAt : ℤ
  decidedAt : ℤ
  decidedBy : GoString

/-- The row of a session, run and call. -/
def ApprovalRow.hasCall (sessionID runID callID : GoString) (r : ApprovalRow) : Bool :=
  r.sessionID = sessionID ∧ r.runID = runID ∧ r.callID = callID

/-- The primary key of `approval_requests`, and its unique call. -/
def ApprovalRow.clash (a b : ApprovalRow) : Bool :=
  a.id = b.id ∨ a.hasCall b.sessionID b.runID b.callID

/-- `Link`, a row of `delegation_links`.  Its two times are left out: nothing
modelled reads them. -/
structure LinkRow where
  parentSessionID : GoString
  parentRunID : GoString
  parentCallID : GoString
  childSessionID : GoString
  childRunID : GoString
  tenantID : GoString
  subjectID : GoString
  depth : ℤ
  deriving DecidableEq

/-- The primary key of `delegation_links`, and its unique child session. -/
def LinkRow.clash (a b : LinkRow) : Bool :=
  a.parentSessionID = b.parentSessionID ∧ a.parentRunID = b.parentRunID ∧
    a.parentCallID = b.parentCallID ∨ a.childSessionID = b.childSessionID

/-- The tables the run and approval transactions use. -/
structure Database where
  runControl : Table RunRow RunRow.clash
  runQueue : Table QueueRow QueueRow.clash
  submissions : Table SubmissionRow SubmissionRow.clash
  approvals : Table ApprovalRow ApprovalRow.clash
  links : Table LinkRow LinkRow.clash

def Database.empty : Database := ⟨.empty, .empty, .empty, .empty, .empty⟩

/-- The settings of the stores; a cap that is not positive stands for the
default. -/
structure StoreConfig where
  maxInFlight : ℤ
  maxSubmissions : ℤ
  maxPending : ℤ
  approvalTTL : ℤ

/-! ## Errors and validation -/

/-- The errors of the stores, one constructor per error path. -/
inductive StoreError where
  /-- a unique constraint, on a statement whose error is passed on -/
  | duplicate
  /-- `ErrSessionConflict`, with the id of the resource -/
  | conflict (id : GoString)
  /-- the error of `ValidateRunID` -/
  | runID (cause : SessionError)
  /-- `session id %q must be 1-128 characters ...` -/
  | invalidSessionID (sessionID : GoString)
  /-- `run record ownership is incomplete`, `queued run ownership is incomplete` -/
  | ownershipIncomplete
  /-- `new run status must be "running"`, `queued run status must be "queued"` -/
  | statusMustBe (status : RunState)
  /-- `queued run message is empty` -/
  | messageEmpty
  /-- `queued run message exceeds %d bytes` -/
  | messageTooLarge
  /-- `queued run max attempts must be between 0 and %d` -/
  | maxAttempts
  /-- `durable trace context is too large or contains control characters` -/
  | traceContext
  /-- `worker id is empty, too long, or contains control characters` -/
  | workerID
  /-- `invalid run submission idempotency: key must be 1-256 non-control characters` -/
  | submissionKey
  /-- `invalid run submission idempotency: request digest is ...` -/
  | submissionDigest
  /-- `run claim generation must be positive` -/
  | generation
  /-- `run claim lease ttl must be positive` -/
  | leaseTTL
  /-- `run retry availability time is zero` -/
  | retryTimeZero
  /-- `paused run message is empty or too large` -/
  | pausedMessage
  /-- `paused run max attempts must be between 1 and %d` -/
  | pausedMaxAttempts
  /-- `invalid terminal run status %q` -/
  | terminalStatus (status : RunStatus)
  /-- `claim recovery time is zero`, `stale run cutoff is zero`, `approval expiry time is zero` -/
  | timeZero
  /-- `in-flight runs exceed maximum of %d` -/
  | inFlightCap
  /-- `run submissions exceed maximum of %d` -/
  | submissionCap
  /-- `run submission idempotency conflict: key was already used for a different request` -/
  | submissionReused
  /-- `run submission idempotency conflict: key conflicts with another run id` -/
  | submissionRunID
  /-- `run not found` -/
  | runNotFound
  /-- `run not found or already terminal: %s` -/
  | notRunning (runID : GoString)
  /-- the error of `NewToolInvocation` -/
  | invocation (cause : InvocationError)
  /-- `approval manifest %q does not match tool %q` -/
  | manifestMismatch
  /-- `approval request exceeds %d bytes` -/
  | requestTooLarge
  /-- `approval ttl exceeds %s` -/
  | approvalTTL
  /-- `pending approvals exceed maximum of %d` -/
  | pendingCap
  /-- `approval call identity conflicts with the durable request`,
  `approval identity conflicts with the durable request` -/
  | approvalConflict
  /-- `approval not found` -/
  | approvalNotFound
  /-- `approval %s has invalid status %q` -/
  | approvalStatus
  /-- `decode approval request: %w` -/
  | approvalRequest
  /-- the error of `ValidateApprovalID` -/
  | approvalID (cause : SessionError)
  /-- `approval decision must be approved or denied` -/
  | decision
  /-- `approval actor is invalid` -/
  | actor
  /-- `approval run identity does not match its durable control record` -/
  | approvalRunIdentity
  /-- `delegated approval identity does not match its durable link` -/
  | linkIdentity
  /-- `delegated approval parent depth is not directly queue-resumable` -/
  | linkDepth
  /-- `delegated approval parent session is invalid: %w`,
  `delegated approval parent run is invalid: %w` -/
  | linkParent
  /-- `stored delegation link is invalid: %w`, and the errors of `ValidateLink` -/
  | link
  /-- `delegation link conflicts with an existing child session` -/
  | linkConflict
  /-- `approval run is not waiting for a decision` -/
  | notWaiting
  /-- `approval run has no durable continuation` -/
  | noContinuation

def unixMilli (t : ℤ) : ℤ := t / 10 ^ 6

/-- The longest message of a queued run. -/
def maxQueuedMessageBytes : ℕ := 2 ^ 20

/-- `DefaultRunMaxAttempts` for zero. -/
def defaultAttempts (maxAttempts : ℤ) : ℤ := if maxAttempts = 0 then 3 else maxAttempts

def hardRunMaxAttempts : ℤ := 10

def validateSessionID (sessionID : GoString) : Except StoreError Unit :=
  require (runIDPattern sessionID) (.invalidSessionID sessionID)

def containsASCIIControl (value : GoString) : Bool := value.anyRune GoString.isUnicodeControl

def validateTraceContext (traceParent traceState : GoString) : Except StoreError Unit :=
  require (traceParent.len ≤ 256 ∧ traceState.len ≤ 512 ∧ !containsASCIIControl traceParent ∧
    !containsASCIIControl traceState) .traceContext

/-- `validateWorkerID`, on the trimmed id. -/
def validateWorkerID (workerID : GoString) : Except StoreError Unit :=
  let workerID := workerID.trimSpace
  require (workerID ≠ .empty ∧ workerID.len ≤ 256 ∧
    !workerID.anyRune (fun c => c == '\r' || c == '\n' || c == '\x00')) .workerID

variable (runID workerID : GoString)

def validateClaimMutation (generation : ℤ) : Except StoreError Unit := do
  (validateRunID runID).mapError .runID
  validateWorkerID workerID
  require (1 ≤ generation) .generation

/-- `validateTerminalRunStatus`, with the status that is written. -/
def validateTerminalRunStatus : RunStatus → Except StoreError RunState
  | .completed => .ok .completed
  | .limited => .ok .limited
  | .failed => .ok .failed
  | .cancelled => .ok .cancelled
  | status => .error (.terminalStatus status)

def boundedRunErrorCode (errorCode : GoString) : GoString :=
  if 128 < errorCode.len then errorCode.sliceTo 128 else errorCode

/-- What a statement that selects rows and sets columns gives; a broken
constraint is an error of the statement. -/
def exec {ρ : Type} {clash : ρ → ρ → Bool} (t : Table ρ clash) (u : Update ρ) :
    Except StoreError (ℕ × Table ρ clash) :=
  match t.execute u with
  | some result => .ok result
  | none => .error .duplicate

/-- An `INSERT` whose broken constraint is reported as `e`. -/
def insertOr {ρ : Type} {clash : ρ → ρ → Bool} (t : Table ρ clash) (r : ρ) (e : StoreError) :
    Except StoreError (Table ρ clash) :=
  match t.insert r with
  | some result => .ok result
  | none => .error e

/-! ## Statements -/

def RunRow.hasID (runID : GoString) (r : RunRow) : Bool := r.runID == runID

def QueueRow.hasID (runID : GoString) (q : QueueRow) : Bool := q.runID == runID

/-- The queue row of a run, held by the worker and generation with a lease that
has not expired. -/
def QueueRow.heldBy (generation now : ℤ) (q : QueueRow) : Bool :=
  q.runID = runID ∧ q.workerID = workerID ∧ q.generation = generation ∧ now < q.leaseExpiresAt

variable (now : ℤ)

def sqlRequestRunCancel (runID : GoString) : Update RunRow where
  selects r := r.runID = runID ∧ r.status = .running
  set r := { r with cancelRequested := true, updatedAt := now }

def sqlHeartbeatRun (runID : GoString) : Update RunRow where
  selects r := r.runID = runID ∧ r.status = .running
  set r := { r with updatedAt := now }

def sqlFinishRun (status : RunState) (errorCode : GoString) (now : ℤ) (runID : GoString) :
    Update RunRow where
  selects r := r.runID = runID ∧ r.status = .running
  set r := { r with
    status, errorCode, updatedAt := now, completedAt := now }

variable (db : Database)

def sqlFailStaleRuns (now olderThan : ℤ) : Update RunRow where
  selects r := r.status = .running ∧ r.updatedAt < olderThan ∧
    !db.runQueue.exists? (·.hasID r.runID)
  set r := { r with
    status := .failed, errorCode := go "worker_lost", updatedAt := now, completedAt := now }

def sqlClaimRunControl (runID : GoString) : Update RunRow where
  selects r := r.runID = runID ∧ r.status = .queued ∧ !r.cancelRequested
  set r := { r with status := .running, updatedAt := now, errorCode := .empty }

def sqlClaimRun (workerID : GoString) (leaseExpiry : ℤ) (runID : GoString) : Update QueueRow where
  selects q := q.runID = runID
  set q := { q with
    workerID, leaseExpiresAt := leaseExpiry
    attempt := q.attempt + 1, generation := q.generation + 1 }

def sqlRenewRunClaim (leaseExpiry : ℤ) (runID workerID : GoString) (generation now : ℤ)
    : Update QueueRow where
  selects q := q.heldBy runID workerID generation now ∧
    db.runControl.exists? fun r => r.runID = q.runID ∧ r.status = .running
  set q := { q with leaseExpiresAt := leaseExpiry }

/-- The `run_control` statements of a worker that gives up a claim it holds. -/
def sqlReleaseClaimedRunControl (status : RunState) (errorCode : GoString)
    (runID workerID : GoString) (generation now : ℤ) : Update RunRow where
  selects r := r.runID = runID ∧ r.status = .running ∧
    db.runQueue.exists? (·.heldBy r.runID workerID generation now)
  set r := { r with status, errorCode, updatedAt := now }

def sqlRetryClaimedRunControl (errorCode runID workerID : GoString) (generation now : ℤ)
    : Update RunRow :=
  sqlReleaseClaimedRunControl db .queued errorCode runID workerID generation now

def sqlPauseClaimedRunControl (runID workerID : GoString) (generation now : ℤ) :
    Update RunRow :=
  sqlReleaseClaimedRunControl db .waitingApproval (go "approval_pending") runID workerID
    generation now

def sqlRetryClaimedRun (availableAt : ℤ) (runID workerID : GoString) (generation now : ℤ) :
    Update QueueRow where
  selects q := q.heldBy runID workerID generation now
  set q := { q with workerID := .empty, leaseExpiresAt := 0, availableAt }

def sqlPauseClaimedRun (generation now : ℤ) : Update QueueRow where
  selects q := q.heldBy runID workerID generation now
  set q := { q with
    workerID := .empty, leaseExpiresAt := 0
    attempt := if 0 < q.attempt then q.attempt - 1 else 0 }

def sqlPauseDirectRun (runID : GoString) : Update RunRow where
  selects r := r.runID = runID ∧ r.status = .running
  set r := { r with
    status := .waitingApproval, errorCode := go "approval_pending", updatedAt := now }

def sqlFinishClaimedRun (status : RunState) (errorCode : GoString) (runID workerID : GoString)
    (generation now : ℤ) : Update RunRow where
  selects r := r.runID = runID ∧ r.status = .running ∧
    db.runQueue.exists? (·.heldBy r.runID workerID generation now)
  set r := { r with
    status, errorCode, updatedAt := now, completedAt := now }

def sqlRequeueRunControl (runID : GoString) : Update RunRow where
  selects r := r.runID = runID ∧ r.status = .running
  set r := { r with status := .queued, errorCode := go "worker_lost_retry", updatedAt := now }

def sqlRequeueRun (runID : GoString) : Update QueueRow where
  selects q := q.runID = runID
  set q := { q with workerID := .empty, leaseExpiresAt := 0, availableAt := now }

def sqlCancelQueuedRun (runID : GoString) : Update RunRow where
  selects r := r.runID = runID ∧ (r.status = .queued ∨ r.status = .waitingApproval)
  set r := { r with
    status := .cancelled, cancelRequested := true, errorCode := go "cancel_requested"
    updatedAt := now, completedAt := now }

def sqlClearRunClaim (runID : GoString) : Update QueueRow where
  selects q := q.runID = runID
  set q := { q with workerID := .empty, leaseExpiresAt := 0 }

def sqlCancelRunApprovals (runID : GoString) : Update ApprovalRow where
  selects a := a.runID = runID ∧ a.status = .pending
  set a := { a with status := .denied, decidedAt := now, decidedBy := go "system:run_cancel" }

/-! ## Operations -/

structure RunRecord where
  runID : GoString
  sessionID : GoString
  tenantID : GoString
  subjectID : GoString
  status : GoString
  cancelRequested : Bool
  errorCode : GoString
  createdAt : Option ℤ
  updatedAt : Option ℤ
  completedAt : Option ℤ
  deriving DecidableEq

/-- `QueuedRun`, a request for a run with its current claim. -/
structure QueuedRun extends RunRecord where
  message : GoString
  availableAt : Option ℤ
  workerID : GoString
  leaseExpiresAt : Option ℤ
  attempt : ℤ
  maxAttempts : ℤ
  generation : ℤ
  traceParent : GoString
  traceState : GoString
  deriving DecidableEq

/-- A stored time, `none` unless positive. -/
def scanTime (millis : ℤ) : Option ℤ := if 0 < millis then some (millis * 10 ^ 6) else none

def scanRun (r : RunRow) : RunRecord where
  runID := r.runID
  sessionID := r.sessionID
  tenantID := r.tenantID
  subjectID := r.subjectID
  status := r.status.text
  cancelRequested := r.cancelRequested
  errorCode := r.errorCode
  createdAt := some (r.createdAt * 10 ^ 6)
  updatedAt := some (r.updatedAt * 10 ^ 6)
  completedAt := scanTime r.completedAt

def scanQueuedRun (r : RunRow) (q : QueueRow) : QueuedRun where
  toRunRecord := scanRun r
  message := q.message
  availableAt := some (q.availableAt * 10 ^ 6)
  workerID := q.workerID
  leaseExpiresAt := scanTime q.leaseExpiresAt
  attempt := q.attempt
  maxAttempts := q.maxAttempts
  generation := q.generation
  traceParent := q.traceParent
  traceState := q.traceState

def validateRunRecord (record : RunRecord) : Except StoreError Unit := do
  (validateRunID record.runID).mapError .runID
  validateSessionID record.sessionID
  require (record.tenantID ≠ .empty ∧ record.subjectID ≠ .empty) .ownershipIncomplete
  require (record.status = .empty ∨ record.status = RunState.running.text) (.statusMustBe .running)

def validateQueuedRun (run : QueuedRun) : Except StoreError Unit := do
  (validateRunID run.runID).mapError .runID
  validateSessionID run.sessionID
  require (run.tenantID ≠ .empty ∧ run.subjectID ≠ .empty) .ownershipIncomplete
  require (!run.message.isBlank) .messageEmpty
  require (run.message.len ≤ maxQueuedMessageBytes) .messageTooLarge
  require (run.status = .empty ∨ run.status = RunState.queued.text) (.statusMustBe .queued)
  require (0 ≤ run.maxAttempts ∧ run.maxAttempts ≤ hardRunMaxAttempts) .maxAttempts
  validateTraceContext run.traceParent run.traceState

def validateRunSubmission (idempotencyKey requestDigest : GoString) : Except StoreError Unit := do
  require (1 ≤ idempotencyKey.len ∧ idempotencyKey.len ≤ 256 ∧ !idempotencyKey.isBlank ∧
    !containsASCIIControl idempotencyKey) .submissionKey
  require (requestDigest.len = 64 ∧ requestDigest.allRunes isLowerHex) .submissionDigest

variable (config : StoreConfig)

def ensureInFlightCapacity (db : Database) : Except StoreError Unit :=
  let cap := if 0 < config.maxInFlight then config.maxInFlight else 1024
  require ((db.runControl.count (·.status.inFlight) : ℤ) < cap) .inFlightCap

/-- The row a new run is inserted as. -/
def newRunRow (record : RunRecord) (status : RunState) (now : ℤ) : RunRow where
  runID := record.runID
  sessionID := record.sessionID
  tenantID := record.tenantID
  subjectID := record.subjectID
  status := status
  cancelRequested := false
  errorCode := .empty
  createdAt := now
  updatedAt := now
  completedAt := 0

/-- The row `sqlEnqueueRun` inserts. -/
def newQueueRow (run : QueuedRun) (availableAt : ℤ) : QueueRow where
  runID := run.runID
  message := run.message
  availableAt := availableAt
  workerID := .empty
  leaseExpiresAt := 0
  attempt := 0
  maxAttempts := defaultAttempts run.maxAttempts
  generation := 0
  traceParent := run.traceParent
  traceState := run.traceState

/-- `CreateRun`.  At capacity an existing run is reported before the capacity. -/
def createRun (record : RunRecord) (clock : ℤ) (db : Database) :
    Except StoreError Database := do
  validateRunRecord record
  let now := unixMilli (record.createdAt.getD clock)
  match ensureInFlightCapacity config db with
  | .error e =>
    if db.runControl.exists? (·.hasID record.runID) then throw (.conflict record.runID)
    else throw e
  | .ok () =>
    let control ← insertOr db.runControl (newRunRow record .running now) (.conflict record.runID)
    return { db with runControl := control }

/-- The two inserts of a queued run. -/
def insertQueued (run : QueuedRun) (clock : ℤ) (db : Database) :
    Except StoreError Database := do
  let created := run.createdAt.getD clock
  let available := run.availableAt.getD created
  ensureInFlightCapacity config db
  let control ← insertOr db.runControl (newRunRow run.toRunRecord .queued (unixMilli created))
    (.conflict run.runID)
  let queue ← insertOr db.runQueue (newQueueRow run (unixMilli available)) (.conflict run.runID)
  return { db with runControl := control, runQueue := queue }

def enqueueRun (run : QueuedRun) (clock : ℤ) (db : Database) :
    Except StoreError Database := do
  validateQueuedRun run
  insertQueued config run clock db

def hashIdempotencyKey (key : GoString) : GoString := Sha256.hex (Sha256.digest key.bytes)

/-- The answer to a replay: the run of the stored submission, if the digests
agree. -/
def replaySubmission (stored : SubmissionRow) (requestDigest : GoString) :
    Except StoreError RunRecord := do
  require (stored.requestDigest = requestDigest) .submissionReused
  match db.runControl.find (·.hasID stored.runID) with
  | some r => return scanRun r
  | none => throw .runNotFound

def submissionCapReached (db : Database) : Bool :=
  let cap := if 0 < config.maxSubmissions then config.maxSubmissions else 8192
  max 0 (cap - 1) < (db.submissions.rows.length : ℤ)

/-- `EnqueueRunOnce`, with whether the run was created. -/
def enqueueRunOnce (run : QueuedRun) (idempotencyKey requestDigest : GoString) (clock : ℤ)
    (db : Database) : Except StoreError ((RunRecord × Bool) × Database) := do
  validateQueuedRun run
  validateRunSubmission idempotencyKey requestDigest
  let now := run.createdAt.getD clock
  let keyHash := hashIdempotencyKey idempotencyKey
  let stored := db.submissions.find
    (·.hasKey run.tenantID run.subjectID run.sessionID keyHash)
  if submissionCapReached config db then
    match stored with
    | none => throw .submissionCap
    | some row => return ((← replaySubmission db row requestDigest, false), db)
  else
    let row : SubmissionRow := ⟨run.tenantID, run.subjectID, run.sessionID, keyHash, requestDigest,
      run.runID, unixMilli now⟩
    match db.submissions.insert row with
    | none =>
      match stored with
      | none => throw .submissionRunID
      | some row => return ((← replaySubmission db row requestDigest, false), db)
    | some submissions =>
      let db ← insertQueued config run clock { db with submissions }
      let record : RunRecord :=
        { runID := run.runID, sessionID := run.sessionID, tenantID := run.tenantID
          subjectID := run.subjectID, status := RunState.queued.text, cancelRequested := false
          errorCode := .empty, createdAt := some now, updatedAt := some now
          completedAt := none }
      return ((record, true), db)

/-! ## Claims -/

/-- The rows of `sqlClaimCandidate`: the queued runs that are due and whose
session has no active run, without those another transaction has locked. -/
def claimCandidates (locked : List GoString) (now : ℤ) :
    List (RunRow × QueueRow) :=
  (db.runControl.rows ×ˢ db.runQueue.rows).filter fun (r, q) =>
    q.runID = r.runID ∧ r.status = .queued ∧ !r.cancelRequested ∧ q.availableAt ≤ now ∧
      r.runID ∉ locked ∧
      !db.runControl.exists? fun active => active.sessionID = r.sessionID ∧ active.status.active

/-- The order of the candidates: by due time, then by creation, then as the
database breaks ties. -/
def claimsBefore (tie : GoString → ℕ) (a b : RunRow × QueueRow) : Bool :=
  a.2.availableAt < b.2.availableAt ∨ a.2.availableAt = b.2.availableAt ∧
    (a.1.createdAt < b.1.createdAt ∨ a.1.createdAt = b.1.createdAt ∧ tie a.1.runID < tie b.1.runID)

/-- `sqlClaimCandidate`: the first candidate in that order. -/
def claimCandidate (locked : List GoString) (tie : GoString → ℕ) (now : ℤ) :
    Option (RunRow × QueueRow) :=
  (claimCandidates db locked now).foldl (fun best row =>
    some (best.elim row fun best => if claimsBefore tie row best then row else best)) none

/-- How an attempt to claim a run ends. -/
inductive ClaimOutcome where
  | empty
  | again
  | claimed (run : QueuedRun)
  deriving DecidableEq

/-- One attempt of `ClaimRun`.  The source makes up to three; an attempt that has
to be made again has changed nothing. -/
def claimRun (workerID : GoString) (leaseTTL : ℤ) (locked : List GoString) (tie : GoString → ℕ)
    (now : ℤ) (db : Database) : Except StoreError (ClaimOutcome × Database) := do
  validateWorkerID workerID
  require (0 < leaseTTL) .leaseTTL
  match claimCandidate db locked tie (unixMilli now) with
  | none => return (.empty, db)
  | some (r, q) =>
    match db.runControl.execute (sqlClaimRunControl (unixMilli now) r.runID) with
    | none | some (0, _) => return (.again, db)
    | some (_ + 1, control) =>
      let leaseExpiry := now + leaseTTL
      let (_, queue) ← exec db.runQueue (sqlClaimRun workerID (unixMilli leaseExpiry) r.runID)
      let run : QueuedRun :=
        { scanQueuedRun r q with
          status := RunState.running.text, workerID
          leaseExpiresAt := some leaseExpiry, attempt := q.attempt + 1
          generation := q.generation + 1, updatedAt := some now }
      return (.claimed run, { db with runControl := control, runQueue := queue })

def renewRunClaim (generation leaseTTL now : ℤ) (db : Database) :
    Except StoreError (Bool × Database) := do
  validateClaimMutation runID workerID generation
  require (0 < leaseTTL) .leaseTTL
  let (affected, queue) ← exec db.runQueue
    (sqlRenewRunClaim db (unixMilli (now + leaseTTL)) runID workerID generation (unixMilli now))
  if affected = 0 then return (false, db)
  let (_, control) ← exec db.runControl (sqlHeartbeatRun (unixMilli now) runID)
  return (true, { db with runControl := control, runQueue := queue })

/-- The two statements of a worker that gives up its claim; either one that
selects no row rolls the transaction back. -/
def releaseClaim (control : Update RunRow) (queue : Update QueueRow) (db : Database) :
    Except StoreError (Bool × Database) := do
  let (affected, runControl) ← exec db.runControl control
  if affected = 0 then return (false, db)
  let (affected, runQueue) ← exec db.runQueue queue
  if affected = 0 then return (false, db)
  return (true, { db with runControl, runQueue })

def retryRunClaim (generation : ℤ) (availableAt : Option ℤ) (errorCode : GoString) (now : ℤ)
    (db : Database) : Except StoreError (Bool × Database) := do
  validateClaimMutation runID workerID generation
  match availableAt with
  | none => throw .retryTimeZero
  | some availableAt =>
    releaseClaim
      (sqlRetryClaimedRunControl db (boundedRunErrorCode errorCode) runID workerID generation
        (unixMilli now))
      (sqlRetryClaimedRun (unixMilli availableAt) runID workerID generation (unixMilli now)) db

def pauseRunClaim (generation now : ℤ) (db : Database) :
    Except StoreError (Bool × Database) := do
  validateClaimMutation runID workerID generation
  releaseClaim (sqlPauseClaimedRunControl db runID workerID generation (unixMilli now))
    (sqlPauseClaimedRun runID workerID generation (unixMilli now)) db

/-- `PauseRun`, of a run that no worker claimed. -/
def pauseRun (runID message : GoString) (maxAttempts : ℤ) (traceParent traceState : GoString)
    (now : ℤ) (db : Database) : Except StoreError (Bool × Database) := do
  (validateRunID runID).mapError .runID
  require (!message.isBlank ∧ message.len ≤ maxQueuedMessageBytes) .pausedMessage
  let maxAttempts := defaultAttempts maxAttempts
  require (1 ≤ maxAttempts ∧ maxAttempts ≤ hardRunMaxAttempts) .pausedMaxAttempts
  validateTraceContext traceParent traceState
  let (affected, control) ← exec db.runControl (sqlPauseDirectRun (unixMilli now) runID)
  if affected = 0 then return (false, db)
  let queue ← insertOr db.runQueue
    ⟨runID, message, unixMilli now, .empty, 0, 0, maxAttempts, 0, traceParent, traceState⟩
    (.conflict runID)
  return (true, { db with runControl := control, runQueue := queue })

def finishRunClaim (generation : ℤ) (status : RunStatus) (errorCode : GoString) (now : ℤ)
    (db : Database) : Except StoreError (Bool × Database) := do
  validateClaimMutation runID workerID generation
  let status ← validateTerminalRunStatus status
  let (affected, control) ← exec db.runControl
    (sqlFinishClaimedRun db status (boundedRunErrorCode errorCode) runID workerID generation
      (unixMilli now))
  if affected = 0 then return (false, db)
  -- sqlDeleteClaimedRun
  let queue := db.runQueue.delete fun q =>
    q.runID = runID ∧ q.workerID = workerID ∧ q.generation = generation
  return (true, { db with runControl := control, runQueue := queue })

/-- The rows of `sqlExpiredRunClaims`, without those another transaction has
locked. -/
def expiredRunClaims (locked : List GoString) (now : ℤ) :
    List (RunRow × QueueRow) :=
  (db.runControl.rows ×ˢ db.runQueue.rows).filter fun (r, q) =>
    q.runID = r.runID ∧ r.status = .running ∧ q.workerID ≠ .empty ∧ q.leaseExpiresAt ≤ now ∧
      r.runID ∉ locked

/-- One expired claim: a run whose cancellation was requested is cancelled, one
with attempts left goes back to the queue, any other has failed. -/
def recoverClaim (db : Database) (claim : RunRow × QueueRow) :
    Except StoreError Database := do
  let runID := claim.1.runID
  if claim.1.cancelRequested then
    let (_, control) ← exec db.runControl
      (sqlFinishRun .cancelled (go "cancel_requested") now runID)
    return { db with runControl := control, runQueue := db.runQueue.delete (·.hasID runID) }
  else if claim.2.attempt < claim.2.maxAttempts then
    let (_, control) ← exec db.runControl (sqlRequeueRunControl now runID)
    let (_, queue) ← exec db.runQueue (sqlRequeueRun now runID)
    let (_, queue) ← exec queue (sqlClearRunClaim runID)
    return { db with runControl := control, runQueue := queue }
  else
    let (_, control) ← exec db.runControl (sqlFinishRun .failed (go "worker_lost") now runID)
    return { db with runControl := control, runQueue := db.runQueue.delete (·.hasID runID) }

/-- `RecoverExpiredRunClaims`, with the numbers of runs requeued and ended. -/
def recoverExpiredRunClaims (locked : List GoString) (now : Option ℤ) (db : Database) :
    Except StoreError ((ℕ × ℕ) × Database) := do
  match now with
  | none => throw .timeZero
  | some now =>
    let claims := expiredRunClaims db locked (unixMilli now)
    let db ← claims.foldlM (recoverClaim (unixMilli now)) db
    let requeued := claims.countP fun (r, q) => !r.cancelRequested ∧ q.attempt < q.maxAttempts
    return ((requeued, claims.length - requeued), db)

/-! ## Cancellation and synchronous runs -/

/-- `RequestRunCancel`: a running run is flagged, a queued or waiting one is
cancelled at once, with its pending approvals. -/
def requestRunCancel (runID : GoString) (clock : ℤ) (db : Database) :
    Except StoreError (Bool × Database) := do
  (validateRunID runID).mapError .runID
  let now := unixMilli clock
  let (affected, control) ← exec db.runControl (sqlRequestRunCancel now runID)
  if 0 < affected then return (true, { db with runControl := control })
  let (affected, control) ← exec db.runControl (sqlCancelQueuedRun now runID)
  if 0 < affected then
    let (_, approvals) ← exec db.approvals (sqlCancelRunApprovals now runID)
    return (true, { db with
      runControl := control, approvals
      runQueue := db.runQueue.delete (·.hasID runID) })
  return (false, { db with runControl := control })

def heartbeatRun (runID : GoString) (now : ℤ) (db : Database) : Except StoreError Database := do
  (validateRunID runID).mapError .runID
  let (affected, control) ← exec db.runControl (sqlHeartbeatRun (unixMilli now) runID)
  require (0 < affected) (.notRunning runID)
  return { db with runControl := control }

def finishRun (runID : GoString) (status : RunStatus) (errorCode : GoString) (now : ℤ)
    (db : Database) : Except StoreError Database := do
  (validateRunID runID).mapError .runID
  let status ← validateTerminalRunStatus status
  let (affected, control) ← exec db.runControl
    (sqlFinishRun status (boundedRunErrorCode errorCode) (unixMilli now) runID)
  require (0 < affected) (.notRunning runID)
  return { db with runControl := control, runQueue := db.runQueue.delete (·.hasID runID) }

/-- `FailStaleRuns`, with the number of runs failed. -/
def failStaleRuns (olderThan : Option ℤ) (now : ℤ) (db : Database) :
    Except StoreError (ℕ × Database) := do
  match olderThan with
  | none => throw .timeZero
  | some olderThan =>
    let (affected, control) ← exec db.runControl
      (sqlFailStaleRuns db (unixMilli now) (unixMilli olderThan))
    return (affected, { db with runControl := control })

end AutoAgent.Storage
