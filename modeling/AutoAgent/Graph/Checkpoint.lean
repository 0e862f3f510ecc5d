import AutoAgent.Graph.State

/-!
# Graph checkpoints and their store

A checkpoint is the durable fact of one graph run.  It is replaced by compare-and-swap
on its revision, and every replacement is recorded by a transition.  A call that finds
its own commit already there, made by a call that computed the same, is answered
"replayed" in place of "applied".

The digest that names transitions and attempts is a parameter, known to be written in
hexadecimal.  A call to the store takes the answers of its context and what the rest of
the store does to its capacity from `StoreEnv`.
-/

namespace AutoAgent.Graph

/-! ## Checkpoints -/

def maxCheckpointIDBytes : ℕ := 128
def maxCheckpointFailureBytes : ℕ := 128
def maxCheckpointEdgeNameBytes : ℕ := 128
def maxApprovalActorBytes : ℕ := 128
def maxApprovalBasisBytes : ℕ := 256

structure CheckpointKey where
  tenantID : GoString
  sessionID : GoString
  runID : GoString
  deriving DecidableEq

inductive CheckpointStatus where
  | ready
  | executing
  | waitingApproval
  | completed
  | failed
  | cancelled
  | unknown
  deriving DecidableEq

/-- Nothing follows. -/
def CheckpointStatus.terminal : CheckpointStatus → Bool
  | .completed | .failed | .cancelled | .unknown => true
  | .ready | .executing | .waitingApproval => false

/-- `EdgeEvidence`: the edge goes from `source` to `target`. -/
structure EdgeEvidence where
  source : GoString
  target : GoString
  kind : EdgeKind
  predicate : GoString
  deriving DecidableEq

/-- `ApprovalDecisionCode`; every other text is refused. -/
inductive ApprovalDecisionCode where
  | approved
  | denied
  | other (text : GoString)
  deriving DecidableEq

structure ApprovalEvidence where
  tenantID : GoString
  approvalID : GoString
  decision : ApprovalDecisionCode
  revision : ℕ
  sourceSegmentID : GoString
  actorID : GoString
  authorizationBasis : GoString
  deriving DecidableEq

structure Checkpoint where
  key : CheckpointKey
  segmentID : GoString
  graphID : GoString
  definitionRevision : GoString
  compositionRevision : GoString
  implementationRevision : GoString
  hostGeneration : ℕ
  currentNodeID : GoString
  attempt : ℤ
  attemptID : GoString
  steps : ℤ
  visits : Finmap fun _ : GoString => ℤ
  revision : ℕ
  state : State
  lastEdge : Option EdgeEvidence
  pendingApprovalID : GoString
  resolvedApproval : Option ApprovalEvidence
  status : CheckpointStatus
  failureCode : GoString
  deriving DecidableEq

/-- `Transition`; `origin` is the status before, and none before the first. -/
structure Transition where
  id : GoString
  key : CheckpointKey
  revision : ℕ
  origin : Option CheckpointStatus
  target : CheckpointStatus
  segmentID : GoString
  sourceSegmentID : GoString
  sourceHostGeneration : ℕ
  sourceNodeID : GoString
  sourceAttemptID : GoString
  currentNodeID : GoString
  attemptID : GoString
  outcomeCode : GoString
  edge : Option EdgeEvidence
  approval : Option ApprovalEvidence
  deriving DecidableEq

inductive CommitDisposition where
  | unknown
  | applied
  | replayed
  deriving DecidableEq

inductive StoreError where
  /-- `graph checkpoint conflict` -/
  | conflict
  /-- `graph checkpoint not found` -/
  | notFound
  /-- `invalid graph checkpoint: %s` -/
  | invalidCheckpoint (reason : GoString)
  /-- `invalid graph transition: %s` -/
  | invalidTransition (reason : GoString)
  /-- `graph checkpoint capacity exceeded` -/
  | capacity
  /-- The error of the context. -/
  | context
  deriving DecidableEq

variable (value : GoString)

/-- A digest of 32 bytes in lower-case hexadecimal. -/
def isDigest : Bool :=
  value.len = 64 ∧ value.allRunes fun c => '0' ≤ c ∧ c ≤ '9' ∨ 'a' ≤ c ∧ c ≤ 'f'

/-- `hex.EncodeToString(sha256.Sum256([]byte(s)))`. -/
structure Digest where
  sum : GoString → GoString
  hex : ∀ s, isDigest (sum s)

/-! ## Validation -/

def containsControl : Bool := value.anyRune GoString.isUnicodeControl

def validCheckpointText (max : ℕ) : Bool :=
  value ≠ .empty ∧ value.len ≤ max ∧ value.valid ∧ value.trimSpace = value ∧
    !containsControl value

def validateCheckpointIdentifier (maximum : ℕ) (name : String) :
    Except GoString Unit := do
  require (validCheckpointText value maximum) (go name ++ go " is invalid")
  require (!value.anyRune GoString.isSpace) (go name ++ go " contains whitespace")

/-- An identifier that may be missing. -/
def validateOptional (maximum : ℕ) (name : String) : Except GoString Unit :=
  if value = .empty then .ok () else validateCheckpointIdentifier value maximum name

/-- `validateCheckpointKey`. -/
def CheckpointKey.validate (key : CheckpointKey) : Except GoString Unit := do
  validateCheckpointIdentifier key.tenantID maxCheckpointIDBytes "tenant id"
  validateCheckpointIdentifier key.sessionID maxCheckpointIDBytes "session id"
  validateCheckpointIdentifier key.runID maxCheckpointIDBytes "run id"

/-- `validateEdgeEvidence`. -/
def EdgeEvidence.validate (edge : EdgeEvidence) : Except GoString Unit := do
  validateCheckpointIdentifier edge.source maxCheckpointEdgeNameBytes "edge from"
  validateCheckpointIdentifier edge.target maxCheckpointEdgeNameBytes "edge to"
  match edge.kind with
  | .default | .error =>
    require (edge.predicate = .empty) (go "default/error evidence has predicate")
  | .conditional =>
    validateCheckpointIdentifier edge.predicate maxCheckpointEdgeNameBytes "edge predicate"
  | .other _ => .error (go "unknown edge evidence kind")

variable (evidence : ApprovalEvidence)

/-- The texts of an approval, as both validators check them. -/
def ApprovalEvidence.validTexts (key : CheckpointKey) : Bool :=
  evidence.tenantID ≠ .empty ∧ evidence.tenantID = key.tenantID ∧
    validCheckpointText evidence.tenantID maxCheckpointIDBytes ∧
    validCheckpointText evidence.approvalID maxCheckpointIDBytes ∧
    validCheckpointText evidence.sourceSegmentID maxCheckpointIDBytes ∧
    validCheckpointText evidence.actorID maxApprovalActorBytes ∧
    validCheckpointText evidence.authorizationBasis maxApprovalBasisBytes

def ApprovalDecisionCode.known : ApprovalDecisionCode → Bool
  | .approved | .denied => true
  | .other _ => false

/-- `validateCheckpointApproval` returns nil. -/
def ApprovalEvidence.validResolved (key : CheckpointKey) : Bool :=
  evidence.validTexts key ∧ evidence.decision.known ∧ evidence.revision ≠ 0

def CheckpointStatus.text : CheckpointStatus → GoString
  | .ready => go "ready"
  | .executing => go "executing"
  | .waitingApproval => go "waiting_approval"
  | .completed => go "completed"
  | .failed => go "failed"
  | .cancelled => go "cancelled"
  | .unknown => go "unknown"

/-- The failure code of a checkpoint fits its status. -/
def Checkpoint.validateFailure (c : Checkpoint) : Except GoString Unit :=
  match c.status with
  | .failed | .cancelled | .unknown => require (c.failureCode ≠ .empty)
    (c.status.text ++ go " checkpoint lacks a failure code")
  | _ => require (c.failureCode = .empty)
    (c.status.text ++ go " checkpoint cannot carry a failure code")

/-- The statuses that carry a live or suspended attempt. -/
def CheckpointStatus.attempted : CheckpointStatus → Bool
  | .executing | .waitingApproval | .unknown => true
  | _ => false

def Checkpoint.validateApproval (c : Checkpoint) : Except GoString Unit := do
  validateOptional c.pendingApprovalID maxCheckpointIDBytes "approval id"
  require (¬(c.status = .waitingApproval ∧ c.pendingApprovalID = .empty))
    (go "waiting approval lacks an approval id")
  require (¬(c.status ≠ .waitingApproval ∧ c.pendingApprovalID ≠ .empty))
    (go "only waiting approval may carry an approval id")
  match c.resolvedApproval with
  | none => return ()
  | some evidence => do
      require (c.pendingApprovalID = .empty) (go "pending and resolved approval cannot coexist")
      require (c.status ≠ .waitingApproval) (go "waiting approval cannot carry resolved approval")
      require (evidence.validResolved c.key) (go "invalid resolved approval evidence")

/-- The checks of `ValidateCheckpoint` before the state. -/
def Checkpoint.validate (c : Checkpoint) : Except GoString Unit := do
  c.key.validate
  validateCheckpointIdentifier c.segmentID maxCheckpointIDBytes "segment id"
  validateCheckpointIdentifier c.graphID maxCheckpointIDBytes "graph id"
  validateCheckpointIdentifier c.definitionRevision maxCheckpointIDBytes "definition revision"
  validateCheckpointIdentifier c.compositionRevision maxCheckpointIDBytes "composition revision"
  validateCheckpointIdentifier c.implementationRevision maxCheckpointIDBytes
    "implementation revision"
  validateCheckpointIdentifier c.currentNodeID maxCheckpointIDBytes "current node id"
  require (c.revision ≠ 0 ∧ 0 ≤ c.attempt ∧ c.attempt ≤ maxRetryAttempts ∧ 0 ≤ c.steps ∧
    c.steps ≤ maxSteps) (go "invalid revision, attempt, or step count")
  validateOptional c.attemptID maxCheckpointIDBytes "attempt id"
  require (!c.status.attempted ∨ 0 < c.attempt ∧ c.attemptID ≠ .empty)
    (c.status.text ++ go " checkpoint lacks stable attempt evidence")
  require (c.visits.keys.card ≤ maxNodes) (go "visit count exceeds 128")
  require (c.visits.all fun node visits =>
    (validateCheckpointIdentifier node maxNodeIDBytes "visit node").isOk ∧ 0 ≤ visits ∧
      visits ≤ maxVisitsPerNode) (go "invalid visit evidence")
  c.validateFailure
  c.validateApproval
  require (!(c.status == .completed || c.status == .failed || c.status == .cancelled) ∨
    c.attemptID = .empty) (go "terminal checkpoint cannot carry an attempt id")
  require (c.failureCode.len ≤ maxCheckpointFailureBytes ∧ c.failureCode.valid ∧
    !containsControl c.failureCode) (go "invalid failure code")
  match c.lastEdge with
  | none => return ()
  | some edge => edge.validate

/-- One value of `canonicalCheckpointState`. -/
def canonicalCheckpointValue (key : GoString) (raw : RawJSON) : Except Message RawJSON := do
  (validateCheckpointIdentifier key maxNodeIDBytes "state field").mapError fun text =>
    ⟨"%s", [text]⟩
  require (!raw.isEmpty ∧ (raw.length : ℤ) ≤ maxStateFieldBytes ∧ Json.validUTF8 raw)
    ⟨"state field %q has invalid size or UTF-8", [key]⟩
  match decodeOne raw with
  | none => .error ⟨"state field %q is not one JSON value", [key]⟩
  | some d => do
      let canonical := Json.text (Json.canonical d)
      require ((canonical.length : ℤ) ≤ maxStateFieldBytes)
        ⟨"state field %q cannot be canonicalized", [key]⟩
      return canonical

def canonicalCheckpointState (input : State) : Except GoString State := do
  require (input.keys.card ≤ maxStateFields) (go "state field count exceeds 64")
  match mapValues canonicalCheckpointValue input with
  | none => .error (go "state field")
  | some out => do
      require (encodedSize out ≤ maxStateBytes) (go "state exceeds 524288 bytes")
      return out

/-- `ValidateCheckpoint`: the checkpoint with its state in canonical form. -/
def validateCheckpoint (c : Checkpoint) : Except StoreError (Checkpoint) := do
  c.validate.mapError .invalidCheckpoint
  let state ← (canonicalCheckpointState c.state).mapError .invalidCheckpoint
  return { c with state }

def transitionID (digest : Digest) (key : CheckpointKey) (revision : ℕ) : GoString :=
  digest.sum (key.tenantID ++ go "\x00" ++ key.sessionID ++ go "\x00" ++ key.runID ++ go "\x00" ++
    decimal revision)

def legalTransition : Option CheckpointStatus → CheckpointStatus → Bool
  | none, target => target == .ready
  | some .ready, target => target == .executing || target == .cancelled
  | some .executing, target => target != .executing
  | some .waitingApproval, target => target == .ready || target == .failed
  | some _, _ => false

/-- `validateApprovalEvidence` returns nil. -/
def ApprovalEvidence.validFor (t : Transition) (c : Checkpoint) : Bool :=
  decide (evidence.validTexts c.key ∧ t.sourceSegmentID ≠ .empty ∧
    evidence.sourceSegmentID = t.sourceSegmentID ∧ evidence.decision.known ∧
    evidence.revision ≠ 0 ∧ evidence.revision + 1 = c.revision ∧
    t.origin = some .waitingApproval) && match evidence.decision with
    | .approved => c.status = .ready ∧ t.outcomeCode = go "approval_approved"
    | _ => (c.status = .failed ∨ c.status = .ready) ∧ t.outcomeCode = go "approval_denied"

/-- The outcome of an approval that was resolved. -/
def approvalOutcome (code : GoString) : Bool :=
  code == go "approval_approved" || code == go "approval_denied"

def validateTransition (digest : Digest) (t : Transition) (c : Checkpoint) :
    Except StoreError Unit := do
  let invalid (reason : String) := StoreError.invalidTransition (go reason)
  require (t.key.validate.isOk ∧ t.key = c.key) (invalid "transition key does not match checkpoint")
  require (t.revision = c.revision ∧ t.revision ≠ 0 ∧ t.id = transitionID digest t.key t.revision)
    (invalid "invalid transition identity")
  require (t.target = c.status ∧ t.segmentID = c.segmentID ∧ t.currentNodeID = c.currentNodeID ∧
    t.attemptID = c.attemptID) (invalid "transition does not describe resulting checkpoint")
  (validateOptional t.sourceNodeID maxCheckpointIDBytes "transition source node").mapError
    .invalidTransition
  (validateOptional t.sourceSegmentID maxCheckpointIDBytes "transition source segment").mapError
    .invalidTransition
  (validateOptional t.sourceAttemptID maxCheckpointIDBytes "transition source attempt").mapError
    .invalidTransition
  require (legalTransition t.origin t.target) (invalid "illegal status transition")
  require (¬(t.target = .ready ∧ t.attemptID ≠ .empty) ∨ t.origin = some .waitingApproval ∧
    approvalOutcome t.outcomeCode) (invalid "ready checkpoint attempt requires approved resume")
  require (t.outcomeCode.len ≤ maxCheckpointFailureBytes ∧ t.outcomeCode.valid ∧
    !containsControl t.outcomeCode) (invalid "invalid outcome code")
  require (t.edge.all fun edge => edge.validate.isOk) (invalid "invalid edge evidence")
  require (t.approval.all fun evidence => evidence.validFor t c)
    (invalid "invalid approval evidence")

/-! ## The store -/

/-- `record`; the transitions are in the order of their revisions. -/
structure Record where
  checkpoint : Checkpoint
  transitions : List Transition

/-- `record.transitions[revision]`. -/
def Record.transition? (r : Record) (revision : ℕ) : Option Transition :=
  r.transitions.find? fun t => t.revision = revision

/-- What else decides over a call: the answers of the context before and under the
lock, the capacity left, and an error of `versionForCheckpoint`. -/
structure StoreEnv where
  cancelled : Bool
  cancelledLocked : Bool
  full : Bool
  versionFails : Bool

def load (env : StoreEnv) (record : Option (Record)) (key : CheckpointKey) :
    Except StoreError (Checkpoint) := do
  require (!env.cancelled) .context
  key.validate.mapError .invalidCheckpoint
  match record with
  | none => .error .notFound
  | some r => return r.checkpoint

/-- `Create`: the committed checkpoint, the disposition, and the record after it. -/
def create (digest : Digest) (env : StoreEnv) (record : Option (Record)) (c : Checkpoint)
    (t : Transition) : Except StoreError (Checkpoint × CommitDisposition × Record) := do
  require (!env.cancelled) .context
  let c ← validateCheckpoint c
  require (c.revision = 1 ∧ c.status = .ready)
    (.invalidCheckpoint (go "create requires revision 1 ready checkpoint"))
  validateTransition digest t c
  require (!env.cancelledLocked) .context
  match record with
  | some r =>
    if r.checkpoint = c ∧ r.transition? t.revision = some t then
      return (r.checkpoint, .replayed, r)
    else .error .conflict
  | none => do
      require (!env.full) .capacity
      require (!env.versionFails) (.invalidCheckpoint (go "version"))
      return (c, .applied, ⟨c, [t]⟩)

/-- `validateTransitionSource` returns nil. -/
def validSource (t : Transition) (previous : Checkpoint) : Bool :=
  decide (previous.currentNodeID = .empty ∨ t.sourceSegmentID = previous.segmentID ∧
    t.sourceHostGeneration = previous.hostGeneration ∧ t.sourceNodeID = previous.currentNodeID ∧
    t.sourceAttemptID = previous.attemptID)

/-- The swap of `CompareAndSwap`, once the revision is the expected one. -/
def swap (env : StoreEnv) (r : Record) (next : Checkpoint) (t : Transition) :
    Except StoreError (Checkpoint × CommitDisposition × Record) := do
  require (validSource t r.checkpoint)
    (.invalidTransition (go "transition source evidence does not match current checkpoint"))
  require (¬(r.checkpoint.status = .waitingApproval ∧ next.status = .ready) ∨
    next.attemptID = r.checkpoint.attemptID ∧ approvalOutcome t.outcomeCode)
    (.invalidTransition (go "approved resume must retain the suspended attempt"))
  require (t.origin = some r.checkpoint.status)
    (.invalidTransition (go "transition source does not match current checkpoint"))
  require (!env.full) .capacity
  require (r.transition? next.revision).isNone .conflict
  require (!env.versionFails) (.invalidCheckpoint (go "version"))
  return (next, .applied, ⟨next, r.transitions ++ [t]⟩)

def compareAndSwap (digest : Digest) (env : StoreEnv) (record : Option (Record))
    (key : CheckpointKey)
    (expectedRevision : ℕ) (next : Checkpoint) (t : Transition) :
    Except StoreError (Checkpoint × CommitDisposition × Record) := do
  require (!env.cancelled) .context
  key.validate.mapError .invalidCheckpoint
  let next ← validateCheckpoint next
  require (next.key = key ∧ expectedRevision ≠ 0 ∧ next.revision = expectedRevision + 1)
    (.invalidCheckpoint (go "CAS revision or key is invalid"))
  validateTransition digest t next
  require (!env.cancelledLocked) .context
  match record with
  | none => .error .notFound
  | some r =>
    if r.checkpoint.revision ≠ expectedRevision then
      if r.checkpoint.revision = next.revision ∧ r.checkpoint = next ∧
          r.transition? next.revision = some t then
        return (r.checkpoint, .replayed, r)
      else .error .conflict
    else swap env r next t

end AutoAgent.Graph
