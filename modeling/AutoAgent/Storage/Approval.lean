import AutoAgent.Storage.RunControl

/-!
# Durable approvals

The transactions of the approval store.  A decision is one transaction with the
run it resumes: it moves the run from `waiting_approval` to `queued` and wakes
its queue row, or it changes nothing.  The run is the one that asked, or, when
that run belongs to a delegated child session, the parent run that delegated.

`RequestApproval` counts the pending approvals in a statement of its own before
it inserts, so the count it acts on is an argument: other transactions may have
run since.
-/

namespace AutoAgent.Storage

/-! ## Requests -/

def approvalInvocation (request : ApprovalRequest) : Except StoreError ToolInvocation := do
  require (request.manifest.id = request.toolCall.name) .manifestMismatch
  (newToolInvocation request.runID request.sessionID request.principal request.toolCall
    request.manifest.idempotent).mapError .invocation

def approvalManifestDigest (manifest : CapabilityManifest) : GoString :=
  digestDoc (CapabilityManifest.codec.enc manifest)

def approvalID (i : ToolInvocation) (manifestDigest : GoString) : GoString :=
  let sep := go "\x00"
  let value := i.tenantID ++ sep ++ i.subjectID ++ sep ++ i.sessionID ++ sep ++ i.runID ++ sep ++
    i.callID ++ sep ++ i.capabilityID ++ sep ++ i.argsDigest ++ sep ++ manifestDigest
  go "apr_" ++ Sha256.hex (Sha256.digest value.bytes)

def approvalMatches (a : ApprovalRow) (i : ToolInvocation) (manifestDigest : GoString) : Bool :=
  a.tenantID = i.tenantID ∧ a.subjectID = i.subjectID ∧ a.sessionID = i.sessionID ∧
    a.runID = i.runID ∧ a.callID = i.callID ∧ a.capabilityID = i.capabilityID ∧
    a.argsDigest = i.argsDigest ∧ a.manifestDigest = manifestDigest

def validApprovalStatus (status : ApprovalDecision) : Bool :=
  status == .pending || status == .approved || status == .denied || status == .expired

/-- `scanApproval`: the row, if its status is known and its request decodes. -/
def scanApproval : Option ApprovalRow → Except StoreError ApprovalRow
  | none => .error .approvalNotFound
  | some a => do
      require (validApprovalStatus a.status) .approvalStatus
      require (a.request.decode ApprovalRequest.codec).isSome .approvalRequest
      return a

/-- `ApprovalResolution`, with its times in milliseconds. -/
structure ApprovalResolution where
  approvalID : GoString
  decision : ApprovalDecision
  requestedAt : ℤ
  expiresAt : ℤ
  decidedAt : ℤ
  decidedBy : GoString
  deriving DecidableEq

def approvalResolution (a : ApprovalRow) : ApprovalResolution :=
  ⟨a.id, a.status, a.requestedAt, a.expiresAt, a.decidedAt, a.decidedBy⟩

/-- `DefaultApprovalTTL`, 24 hours. -/
def defaultApprovalTTL : ℤ := 24 * 3600 * 10 ^ 9

/-- `HardApprovalTTL`, 30 days. -/
def hardApprovalTTL : ℤ := 30 * defaultApprovalTTL

def maxApprovalRequestBytes : ℕ := 2 * 2 ^ 20

/-- The answer for a stored request, which has to be the one asked for. -/
def matchingResolution (found : Option ApprovalRow) (i : ToolInvocation)
    (manifestDigest : GoString) : Except StoreError ApprovalResolution := do
  let existing ← scanApproval found
  require (approvalMatches existing i manifestDigest) .approvalConflict
  return approvalResolution existing

/-- The row of a request, with the checks made before the database is asked. -/
def newApprovalRow (config : StoreConfig) (request : ApprovalRequest) (now : ℤ) :
    Except StoreError (ToolInvocation × ApprovalRow) := do
  let i ← approvalInvocation request
  let manifestDigest := approvalManifestDigest request.manifest
  -- identity attributes are not stored
  let stored := { request with principal := { request.principal with attributes := [] } }
  let encoded := RawMessage.ofDoc (ApprovalRequest.codec.enc stored)
  require (encoded.size ≤ maxApprovalRequestBytes) .requestTooLarge
  let ttl := if 0 < config.approvalTTL then config.approvalTTL else defaultApprovalTTL
  require (ttl ≤ hardApprovalTTL) .approvalTTL
  let row : ApprovalRow :=
    { id := approvalID i manifestDigest
      tenantID := i.tenantID, subjectID := i.subjectID, sessionID := i.sessionID
      runID := i.runID, callID := i.callID, capabilityID := i.capabilityID
      argsDigest := i.argsDigest, manifestDigest, request := encoded
      status := .pending, requestedAt := unixMilli now, expiresAt := unixMilli (now + ttl)
      decidedAt := 0, decidedBy := .empty }
  return (i, row)

/-- `RequestApproval`, where `pending` is the count it read.  A new row stays
even when it cannot be read back. -/
def requestApproval (config : StoreConfig) (request : ApprovalRequest) (pending : ℕ) (now : ℤ)
    (db : Database) : Except StoreError ApprovalResolution × Database :=
  match newApprovalRow config request now with
  | .error e => (.error e, db)
  | .ok (i, row) =>
    let cap := if 0 < config.maxPending then config.maxPending else 1024
    let existing := matchingResolution
      (db.approvals.find (·.hasCall i.sessionID i.runID i.callID)) i row.manifestDigest
    if cap ≤ pending then
      match existing with
      | .error .approvalNotFound => (.error .pendingCap, db)
      | answer => (answer, db)
    else
      match db.approvals.insert row with
      | none => (existing, db)
      | some approvals =>
        (matchingResolution (approvals.find (·.id == row.id)) i row.manifestDigest,
          { db with approvals })

/-! ## Decisions -/

def sqlDecideApproval (decision : ApprovalDecision) (now : ℤ) (actor id : GoString) :
    Update ApprovalRow where
  selects a := a.id = id ∧ a.status = .pending
  set a := { a with status := decision, decidedAt := now, decidedBy := actor }

def sqlResumeApprovedRun (now : ℤ) (runID sessionID tenantID subjectID : GoString) :
    Update RunRow where
  selects r := r.runID = runID ∧ r.sessionID = sessionID ∧ r.tenantID = tenantID ∧
    r.subjectID = subjectID ∧ r.status = .waitingApproval ∧ !r.cancelRequested
  set r := { r with status := .queued, errorCode := .empty, updatedAt := now }

def sqlWakeRunQueue (control : Table RunRow RunRow.clash) (now : ℤ)
    (runID sessionID tenantID subjectID : GoString) : Update QueueRow where
  selects q := q.runID = runID ∧ control.exists? fun r =>
    r.runID = q.runID ∧ r.sessionID = sessionID ∧ r.tenantID = tenantID ∧
      r.subjectID = subjectID ∧ r.status = .queued ∧ !r.cancelRequested
  set q := { q with availableAt := now, workerID := .empty, leaseExpiresAt := 0 }

/-- An identifier of a delegation link. -/
def validLinkText (value : GoString) : Bool :=
  value ≠ .empty ∧ value.len ≤ 128 ∧ value.allRunes isIDChar

def validateLink (l : LinkRow) : Except StoreError Unit :=
  require ([l.parentSessionID, l.parentRunID, l.parentCallID, l.childSessionID, l.childRunID,
    l.tenantID, l.subjectID].all validLinkText ∧ 1 ≤ l.depth ∧ l.depth ≤ 64) .link

/-- `delegatedApprovalResumeTarget`: the session and the run a decision
resumes. -/
def delegatedApprovalResumeTarget (db : Database) (a : ApprovalRow) :
    Except StoreError (GoString × GoString) := do
  match db.runControl.find (·.hasID a.runID) with
  | some r =>
    require (r.sessionID = a.sessionID ∧ r.tenantID = a.tenantID ∧ r.subjectID = a.subjectID)
      .approvalRunIdentity
    return (a.sessionID, a.runID)
  | none =>
    match db.links.find (·.childSessionID == a.sessionID) with
    | none => return (a.sessionID, a.runID)
    | some l =>
      validateLink l
      require (l.childRunID = a.runID ∧ l.tenantID = a.tenantID ∧ l.subjectID = a.subjectID)
        .linkIdentity
      require (l.depth = 1) .linkDepth
      require (runIDPattern l.parentSessionID) .linkParent
      require (runIDPattern l.parentRunID) .linkParent
      return (l.parentSessionID, l.parentRunID)

/-- `decideAndResume`, with the record, absent for the zero value, and whether
the decision was made. -/
def decideAndResume (id : GoString) (decision : ApprovalDecision) (actor : GoString) (clock : ℤ)
    (db : Database) : Except StoreError ((Option ApprovalRow × Bool) × Database) := do
  let now := unixMilli clock
  let record ← scanApproval (db.approvals.find (·.id == id))
  if record.status ≠ .pending then return ((some record, false), db)
  let (affected, approvals) ← exec db.approvals (sqlDecideApproval decision now actor id)
  if affected = 0 then return ((none, false), db)
  let (sessionID, runID) ← delegatedApprovalResumeTarget db record
  let (resumed, control) ← exec db.runControl
    (sqlResumeApprovedRun now runID sessionID record.tenantID record.subjectID)
  require (0 < resumed) .notWaiting
  let (woken, queue) ← exec db.runQueue
    (sqlWakeRunQueue control now runID sessionID record.tenantID record.subjectID)
  require (0 < woken) .noContinuation
  let decided := { record with status := decision, decidedAt := now, decidedBy := actor }
  return ((some decided, true),
    { db with runControl := control, runQueue := queue, approvals })

def validateApprovalActor (actor : GoString) : Except StoreError Unit :=
  require (!actor.isBlank ∧ actor.len ≤ 512 ∧
    !actor.anyRune (fun c => c == '\r' || c == '\n' || c == '\x00')) .actor

def decideApproval (id : GoString) (decision : ApprovalDecision) (actor : GoString) (now : ℤ)
    (db : Database) : Except StoreError ((Option ApprovalRow × Bool) × Database) := do
  (validateApprovalID id).mapError .approvalID
  require (decision = .approved ∨ decision = .denied) .decision
  validateApprovalActor actor
  decideAndResume id decision actor now db

/-- The transaction `ExpireApprovals` makes for one of the requests it found. -/
def expireApproval (id : GoString) (now : ℤ) (db : Database) :
    Except StoreError ((Option ApprovalRow × Bool) × Database) :=
  decideAndResume id .expired (go "system:expiry") now db

/-- The statement `CancelRunApprovals` makes for one of the requests it found,
with the number of rows it changed. -/
def denyApproval (id actor : GoString) (now : ℤ) (db : Database) :
    Except StoreError (ℕ × Database) := do
  validateApprovalActor actor
  let (affected, approvals) ← exec db.approvals
    (sqlDecideApproval .denied (unixMilli now) actor id)
  return (affected, { db with approvals })

/-! ## Delegation links and retention -/

/-- `PutIfAbsent`, with the link that is stored and whether it is new. -/
def putIfAbsent (l : LinkRow) (db : Database) :
    Except StoreError ((LinkRow × Bool) × Database) := do
  validateLink l
  match db.links.insert l with
  | some links => return ((l, true), { db with links })
  | none =>
    match db.links.find (fun e => e.parentSessionID = l.parentSessionID ∧
        e.parentRunID = l.parentRunID ∧ e.parentCallID = l.parentCallID) with
    | some existing => return ((existing, false), db)
    | none => throw .linkConflict

def pruneApprovals (olderThan : ℤ) (db : Database) : Database :=
  { db with approvals := db.approvals.delete fun a =>
      a.status ≠ .pending ∧ 0 < a.decidedAt ∧ a.decidedAt < unixMilli olderThan }

def pruneRunSubmissions (olderThan : ℤ) (db : Database) : Database :=
  { db with submissions := db.submissions.delete fun row =>
      row.createdAt < unixMilli olderThan ∧
        db.runControl.exists? fun r => r.runID = row.runID ∧ r.status.terminal }

end AutoAgent.Storage
