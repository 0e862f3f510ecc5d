import AutoAgent.Storage.Approval

/-!
# The life of a run

All transactions on runs, approvals and delegation links as one transition
system: any number of workers, servers and operators, each transaction atomic,
in any order and with any clock readings.

**What one transaction can do to a run.**  `RunMove` lists the changes of status
and of the cancellation flag.  That every transaction makes only such changes is
`evolves_of_apply`; the properties of the queue are read off that list.
-/

namespace AutoAgent.Storage

/-! ## The system -/

/-- A transaction with its arguments and the clock it reads. -/
inductive RunOp where
  | create (record : RunRecord) (clock : ℤ)
  | enqueue (run : QueuedRun) (clock : ℤ)
  | enqueueOnce (run : QueuedRun) (idempotencyKey requestDigest : GoString) (clock : ℤ)
  | claim (workerID : GoString) (leaseTTL : ℤ) (locked : List GoString) (tie : GoString → ℕ)
      (now : ℤ)
  | renew (runID workerID : GoString) (generation leaseTTL now : ℤ)
  | retry (runID workerID : GoString) (generation : ℤ) (availableAt : Option ℤ)
      (errorCode : GoString) (now : ℤ)
  | pauseClaim (runID workerID : GoString) (generation now : ℤ)
  | pause (runID message : GoString) (maxAttempts : ℤ) (traceParent traceState : GoString)
      (now : ℤ)
  | finishClaim (runID workerID : GoString) (generation : ℤ) (status : RunStatus)
      (errorCode : GoString) (now : ℤ)
  | recover (locked : List GoString) (now : Option ℤ)
  | cancel (runID : GoString) (clock : ℤ)
  | heartbeat (runID : GoString) (now : ℤ)
  | finish (runID : GoString) (status : RunStatus) (errorCode : GoString) (now : ℤ)
  | failStale (olderThan : Option ℤ) (now : ℤ)
  | request (call : ApprovalRequest) (pending : ℕ) (now : ℤ)
  | decide (id : GoString) (decision : ApprovalDecision) (actor : GoString) (now : ℤ)
  | expire (id : GoString) (now : ℤ)
  | deny (id actor : GoString) (now : ℤ)
  | delegate (link : LinkRow)
  | pruneApprovals (olderThan : ℤ)
  | pruneSubmissions (olderThan : ℤ)

def RunOp.apply (config : StoreConfig) (db : Database) : RunOp → Except StoreError Database
  | .create record clock => createRun config record clock db
  | .enqueue run clock => enqueueRun config run clock db
  | .enqueueOnce run key digest clock =>
    (·.2) <$> enqueueRunOnce config run key digest clock db
  | .claim workerID leaseTTL locked tie now =>
    (·.2) <$> claimRun workerID leaseTTL locked tie now db
  | .renew runID workerID generation leaseTTL now =>
    (·.2) <$> renewRunClaim runID workerID generation leaseTTL now db
  | .retry runID workerID generation availableAt errorCode now =>
    (·.2) <$> retryRunClaim runID workerID generation availableAt errorCode now db
  | .pauseClaim runID workerID generation now =>
    (·.2) <$> pauseRunClaim runID workerID generation now db
  | .pause runID message maxAttempts traceParent traceState now =>
    (·.2) <$> pauseRun runID message maxAttempts traceParent traceState now db
  | .finishClaim runID workerID generation status errorCode now =>
    (·.2) <$> finishRunClaim runID workerID generation status errorCode now db
  | .recover locked now => (·.2) <$> recoverExpiredRunClaims locked now db
  | .cancel runID clock => (·.2) <$> requestRunCancel runID clock db
  | .heartbeat runID now => heartbeatRun runID now db
  | .finish runID status errorCode now => finishRun runID status errorCode now db
  | .failStale olderThan now => (·.2) <$> failStaleRuns olderThan now db
  | .request call pending now => .ok (requestApproval config call pending now db).2
  | .decide id decision actor now => (·.2) <$> decideApproval id decision actor now db
  | .expire id now => (·.2) <$> expireApproval id now db
  | .deny id actor now => (·.2) <$> denyApproval id actor now db
  | .delegate link => (·.2) <$> putIfAbsent link db
  | .pruneApprovals olderThan => .ok (Storage.pruneApprovals olderThan db)
  | .pruneSubmissions olderThan => .ok (pruneRunSubmissions olderThan db)

/-- The control plane, from a fresh database. -/
def runQueueSystem (config : StoreConfig) : System Database RunOp where
  init db := db = .empty
  step db op db' := op.apply config db = .ok db'

/-- The run a worker gives up without ending it: `RetryRunClaim`, `PauseRunClaim`
and `PauseRun`. -/
def RunOp.releases : RunOp → Option GoString
  | .retry runID .. | .pauseClaim runID .. | .pause runID .. => some runID
  | _ => none

/-! ## What a transaction does to a run -/

/-- Rows of the same run. -/
structure RunRow.SameRun (r r' : RunRow) : Prop where
  runID : r'.runID = r.runID
  sessionID : r'.sessionID = r.sessionID
  tenantID : r'.tenantID = r.tenantID
  subjectID : r'.subjectID = r.subjectID
  createdAt : r'.createdAt = r.createdAt

/-- The changes of status and cancellation flag a transaction can make. -/
inductive RunMove (op : RunOp) (r r' : RunRow) : Prop where
  | keep (status : r'.status = r.status) (flag : r'.cancelRequested = r.cancelRequested)
  /-- the cancellation of a running run is requested -/
  | flag (before : r.status = .running) (after : r'.status = .running)
      (flag : r'.cancelRequested)
  /-- a worker claims the run -/
  | start (before : r.status = .queued) (unflagged : r.cancelRequested = false)
      (after : r'.status = .running) (flag : r'.cancelRequested = false)
  /-- its worker gives the run up -/
  | release (own : op.releases = some r.runID) (before : r.status = .running)
      (after : r'.status = .queued ∨ r'.status = .waitingApproval)
      (flag : r'.cancelRequested = r.cancelRequested)
  /-- the lease of its worker expired -/
  | requeue (before : r.status = .running) (unflagged : r.cancelRequested = false)
      (after : r'.status = .queued) (flag : r'.cancelRequested = false)
  /-- its approval is decided -/
  | resume (before : r.status = .waitingApproval) (unflagged : r.cancelRequested = false)
      (after : r'.status = .queued) (flag : r'.cancelRequested = false)
  /-- the run ends -/
  | stop (before : r.status.inFlight) (after : r'.status.terminal)

/-- A run as it is inserted. -/
structure RunRow.Fresh (r : RunRow) : Prop where
  status : r.status = .queued ∨ r.status = .running
  unflagged : r.cancelRequested = false

/-- Every run after a transaction is new, or was there and made one move. -/
def Evolves (op : RunOp) (t t' : Table RunRow RunRow.clash) : Prop :=
  ∀ r' ∈ t'.rows, (∃ r ∈ t.rows, r.SameRun r' ∧ RunMove op r r') ∨ r'.Fresh

variable {op : RunOp} {db db' : Database} {r : RunRow}

theorem RunRow.SameRun.refl (r : RunRow) : r.SameRun r := ⟨rfl, rfl, rfl, rfl, rfl⟩

variable {ρ : Type}

theorem exec_eq_ok {clash : ρ → ρ → Bool} {t : Table ρ clash} {u : Update ρ}
    {result : ℕ × Table ρ clash} : exec t u = .ok result ↔ t.execute u = some result := by
  unfold exec
  cases t.execute u <;> simp

theorem insertOr_eq_ok {clash : ρ → ρ → Bool} {t t' : Table ρ clash} {r : ρ} {e : StoreError} :
    insertOr t r e = .ok t' ↔ t.insert r = some t' := by
  unfold insertOr
  cases t.insert r <;> simp

theorem inFlight_of_running (running : r.status = .running) : r.status.inFlight := by
  simp [running, RunState.inFlight, RunState.active]

theorem terminal_of_validate {status : RunStatus} {s : RunState}
    (h : validateTerminalRunStatus status = .ok s) :
    s.terminal := by
  unfold validateTerminalRunStatus at h
  split at h <;> first | (cases h; decide) | cases h

theorem RunRow.clash_comm (a b : RunRow) : a.clash b = b.clash a := by
  simp only [RunRow.clash, eq_comm (a := a.runID), eq_comm (a := a.sessionID),
    and_comm (a := a.status.active)]

/-! ## Runs from a fresh database -/

/-- Stores with their default settings. -/
def defaultConfig : StoreConfig := ⟨0, 0, 0, 0⟩

def exampleRun : QueuedRun where
  runID := go "r1"
  sessionID := go "s1"
  tenantID := go "t"
  subjectID := go "u"
  status := .empty
  cancelRequested := false
  errorCode := .empty
  createdAt := none
  updatedAt := none
  completedAt := none
  message := go "hello"
  availableAt := none
  workerID := .empty
  leaseExpiresAt := none
  attempt := 0
  maxAttempts := 0
  generation := 0
  traceParent := .empty
  traceState := .empty

/-- A request for the approval of a call of that run. -/
def exampleApproval : ApprovalRequest where
  runID := go "r1"
  sessionID := go "s1"
  principal := ⟨go "u", go "t", ⟨[⟨.tenant, go "t"⟩, ⟨.session, go "s1"⟩], by decide⟩, [], []⟩
  toolCall := ⟨go "c1", go "files.write", [], .empty⟩
  manifest := { CapabilityManifest.codec.zero with id := go "files.write" }

/-- The identifier a request is stored under. -/
def requestID (request : ApprovalRequest) : GoString :=
  match newApprovalRow defaultConfig request 0 with
  | .ok (_, row) => row.id
  | .error _ => .empty

/-- A transaction that may be refused. -/
def tryApply (db : Database) (op : RunOp) : Option Database := (op.apply defaultConfig db).toOption

/-- The database after some transactions. -/
def after (ops : List RunOp) : Database := (ops.foldlM tryApply Database.empty).getD .empty

theorem apply_of_tryApply (h : tryApply db op = some db') :
    op.apply defaultConfig db = .ok db' := by
  unfold tryApply at h
  cases applied : op.apply defaultConfig db with
  | error e => simp [applied, Except.toOption] at h
  | ok next =>
    obtain rfl : next = db' := by simpa [applied, Except.toOption] using h
    rfl

end AutoAgent.Storage
