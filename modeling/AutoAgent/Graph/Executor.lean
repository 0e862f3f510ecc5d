import AutoAgent.Graph.Checkpoint
import AutoAgent.Lib.Prog

/-!
# The graph executor

`Executor.Run` and `Executor.Resume` drive one graph run from checkpoint to checkpoint.
They are programs over the operations whose answers come from outside: the store, the
segment lease, the context, the approval and sandbox authorizers, the planner, the
nodes, reducers and predicates.

The loop of `drive` is a program for one round (`round`); a round that goes on returns the
checkpoint of the next.  Events for the observer are left out, since an observer cannot
influence a run.
-/

namespace AutoAgent.Graph

/-! ## Executors and requests -/

def validBindingID (value : GoString) : Bool := validName value maxCheckpointIDBytes

/-- `Bindings`, as far as the executor reads them: which kinds of nodes and which
predicates are bound, and the id of the reducer.  `NewBindings` has checked the two
revisions. -/
structure Bindings where
  compositionRevision : GoString
  implementationRevision : GoString
  node : GoString → GoString → Bool
  predicate : GoString → GoString → Bool
  reducer : GoString
  composition_valid : validBindingID compositionRevision
  implementation_digest : isDigest implementationRevision

/-- `Executor`.  The definition carries its revision; a lease or a planner that is nil
answers that it is unavailable. -/
structure Executor where
  definition : Definition
  bindings : Bindings
  sandbox : Bool
  approval : Bool

structure LeaseRequest where
  key : CheckpointKey
  segmentID : GoString
  hostGeneration : ℕ

structure StartRequest extends LeaseRequest where
  initialState : State

structure ApprovalDecision where
  tenantID : GoString
  key : CheckpointKey
  approvalID : GoString
  decision : ApprovalDecisionCode
  revision : ℕ
  sourceSegmentID : GoString
  actorID : GoString
  authorizationBasis : GoString

/-- `ResumeRequest`; the field kept for source compatibility is never read. -/
structure ResumeRequest extends LeaseRequest where
  approvalID : GoString
  decision : ApprovalDecision

/-- `OutcomeCode`, as far as the executor commits them. -/
inductive OutcomeCode where
  | created
  | nodeStarted
  | approvalPending
  | retry
  | errorEdge
  | edgeSelected
  | completed
  | cancelled
  | recoveryUnknown
  | interruptedUnknown
  | nodeTimeout
  | nodeFailed
  | bindingMissing
  | sandboxUnavailable
  | sandboxDenied
  | contextUnavailable
  | invalidApproval
  | reducerFailed
  | edgeSelectionFailed
  | stepLimit
  | visitLimit
  | unknownNode
  | approvalApproved
  | approvalDenied
  | preflightFailed
  deriving DecidableEq

def OutcomeCode.text : OutcomeCode → GoString
  | .created => go "created"
  | .nodeStarted => go "node_started"
  | .approvalPending => go "approval_pending"
  | .retry => go "retry"
  | .errorEdge => go "error_edge"
  | .edgeSelected => go "edge_selected"
  | .completed => go "completed"
  | .cancelled => go "cancelled"
  | .recoveryUnknown => go "recovery_unknown"
  | .interruptedUnknown => go "interrupted_unknown"
  | .nodeTimeout => go "node_timeout"
  | .nodeFailed => go "node_failed"
  | .bindingMissing => go "binding_missing"
  | .sandboxUnavailable => go "sandbox_unavailable"
  | .sandboxDenied => go "sandbox_denied"
  | .contextUnavailable => go "context_unavailable"
  | .invalidApproval => go "invalid_approval"
  | .reducerFailed => go "reducer_failed"
  | .edgeSelectionFailed => go "edge_selection_failed"
  | .stepLimit => go "step_limit"
  | .visitLimit => go "visit_limit"
  | .unknownNode => go "unknown_node"
  | .approvalApproved => go "approval_approved"
  | .approvalDenied => go "approval_denied"
  | .preflightFailed => go "preflight_failed"

/-- The errors of `Run` and `Resume`, by the sentinel they wrap. -/
inductive ExecError where
  | store (e : StoreError)
  | executionFailed (code : GoString)
  | unknownOutcome
  | approvalPending (approvalID : GoString)
  | segmentMismatch
  | edgeAmbiguous
  | noEdge
  | executionInProgress
  | executionReplay
  | nodePanic
  | predicateFailed
  | leaseUnavailable
  | approvalUnavailable
  | approvalFailed
  | invalidApproval (reason : String)
  | bindingMismatch
  | invalidState (reason : Message)
  | canceled
  deriving DecidableEq

/-- What a node returns in place of a patch, by what `errors.As` and `errors.Is` find in
it. -/
structure NodeError where
  approvalID : Option GoString
  panicked : Bool
  retryable : Bool
  deadline : Bool

def NodeError.deadlineExceeded : NodeError := ⟨none, false, false, true⟩

/-- The answer of a node, and whether its deadline has passed. -/
structure NodeAnswer where
  outcome : Except NodeError StatePatch
  timedOut : Bool

/-- `Result`; none is the checkpoint without contents. -/
structure Result where
  checkpoint : Option Checkpoint
  suspended : Bool

/-- What a call returns: its result, and the errors that are joined in its error. -/
abbrev Outcome := Result × List ExecError

variable (digest : Digest) (c : Checkpoint)

/-- A result with one error. -/
def failure (e : ExecError) : Outcome := (⟨some c, false⟩, [e])

/-! ## Operations -/

/-- The operations that are answered yes or no. -/
inductive Question where
  /-- `ctx.Err() != nil`. -/
  | ended
  /-- The context ends before the backoff does. -/
  | endedInBackoff
  /-- `lease.Verify` returns nil. -/
  | verify (lease : LeaseRequest)
  /-- `lease.Release` returns nil. -/
  | release (lease : LeaseRequest)
  /-- The approval authorizer returns nil. -/
  | authorize (c : Checkpoint) (request : ResumeRequest)
  /-- The sandbox authorizer returns nil. -/
  | sandbox (lease : LeaseRequest) (nodeID attemptID : GoString)
  /-- The planner returns a plan that matches the node. -/
  | plan (c : Checkpoint) (spec : NodeSpec)

inductive Op where
  | load (key : CheckpointKey)
  | create (c : Checkpoint) (t : Transition)
  | compareAndSwap (key : CheckpointKey) (expected : ℕ) (next : Checkpoint) (t : Transition)
  | execute (spec : NodeSpec) (c : Checkpoint)
  | reduce (state : State) (patch : StatePatch)
  | evaluate (edge : EdgeSpec) (state : State)
  | test (q : Question)

@[reducible] def Ans : Op → Type
  | .load _ => Except StoreError Checkpoint
  | .create .. | .compareAndSwap .. => Except StoreError (Checkpoint × CommitDisposition)
  | .execute .. => NodeAnswer
  | .reduce .. => Option State
  | .evaluate .. => Option Bool
  | .test _ => Bool

abbrev Exec := Prog Ans

abbrev ask (op : Op) : Exec (Ans op) := Prog.ask op

abbrev test (q : Question) : Exec Bool := ask (Op.test q)

/-! ## Checkpoints of the executor -/

def stableAttemptID (key : CheckpointKey) (nodeID : GoString) (attempt : ℤ) (revision : ℕ) :
    GoString :=
  go "a-" ++ digest.sum (key.tenantID ++ go "/" ++ key.sessionID ++ go "/" ++ key.runID ++
    go "\x00" ++ nodeID ++ go "\x00" ++ decimal attempt.toNat ++ go "\x00" ++ decimal revision)

/-- `checkpoint.Visits[id]`. -/
def Checkpoint.visitsOf (id : GoString) : ℤ := (c.visits.lookup id).getD 0

/-- The checkpoint that enters a node: a new attempt, unless an approved one goes on. -/
def Checkpoint.entered (id : GoString) : Checkpoint :=
  if c.attemptID = .empty then
    { c with
      status := .executing
      attempt := c.attempt + 1
      attemptID := stableAttemptID digest c.key id (c.attempt + 1) (c.revision + 1)
      steps := c.steps + 1
      visits := c.visits.insert id (c.visitsOf id + 1) }
  else { c with status := .executing }

/-- The executing checkpoint that only leads to a failure. -/
def Checkpoint.synthetic : Checkpoint :=
  { c with
    status := .executing
    attempt := c.attempt + 1
    attemptID := stableAttemptID digest c.key c.currentNodeID (c.attempt + 1) (c.revision + 1) }

def Checkpoint.failedWith (code : OutcomeCode) : Checkpoint :=
  { c with
    status := .failed
    failureCode := code.text
    attemptID := .empty
    resolvedApproval := none }

def Checkpoint.cancelled (c : Checkpoint) : Checkpoint :=
  { c with
    status := .cancelled
    failureCode := OutcomeCode.cancelled.text
    attemptID := .empty
    resolvedApproval := none }

/-- The checkpoint that waits for an approval. -/
def Checkpoint.suspended (approvalID : GoString) : Checkpoint :=
  { c with status := .waitingApproval, pendingApprovalID := approvalID, resolvedApproval := none }

/-- The checkpoint that tries its node again. -/
def Checkpoint.retried : Checkpoint := { c with status := .ready, attemptID := .empty }

def Checkpoint.moveTo (edge : EdgeSpec) : Checkpoint :=
  { c with
    status := .ready
    currentNodeID := edge.target
    attempt := 0
    attemptID := .empty
    failureCode := .empty
    resolvedApproval := none
    lastEdge := some ⟨edge.source, edge.target, edge.kind, edge.predicate⟩ }

def Checkpoint.completedWith (state : State) : Checkpoint :=
  { c with status := .completed, state, attemptID := .empty, resolvedApproval := none }

/-- The checkpoint whose outcome is not known. -/
def Checkpoint.abandoned (request : StartRequest) : Checkpoint :=
  { c with
    segmentID := request.segmentID
    hostGeneration := request.hostGeneration
    status := .unknown
    failureCode := OutcomeCode.interruptedUnknown.text }

def ApprovalDecision.evidence (d : ApprovalDecision) : ApprovalEvidence :=
  ⟨d.tenantID, d.approvalID, d.decision, d.revision, d.sourceSegmentID, d.actorID,
    d.authorizationBasis⟩

/-- The checkpoint that goes on with a decision. -/
def Checkpoint.resumed (request : ResumeRequest) : Checkpoint :=
  { c with
    segmentID := request.segmentID
    hostGeneration := request.hostGeneration
    pendingApprovalID := .empty
    status := .ready
    failureCode := .empty
    resolvedApproval := some request.decision.evidence }

/-- The checkpoint that fails with a decision. -/
def Checkpoint.denied (request : ResumeRequest) : Checkpoint :=
  { c with
    segmentID := request.segmentID
    hostGeneration := request.hostGeneration
    pendingApprovalID := .empty
    status := .failed
    failureCode := OutcomeCode.approvalDenied.text
    attemptID := .empty
    resolvedApproval := some request.decision.evidence }

variable (e : Executor)

def Executor.initial (request : StartRequest) (state : State) : Checkpoint where
  key := request.key
  segmentID := request.segmentID
  graphID := e.definition.id
  definitionRevision := e.definition.revision
  compositionRevision := e.bindings.compositionRevision
  implementationRevision := e.bindings.implementationRevision
  hostGeneration := request.hostGeneration
  currentNodeID := e.definition.entryNode
  attempt := 0
  attemptID := .empty
  steps := 0
  visits := ∅
  revision := 1
  state := state
  lastEdge := none
  pendingApprovalID := .empty
  resolvedApproval := none
  status := .ready
  failureCode := .empty

/-! ## Commits -/

/-- `transitionFor`; there is no checkpoint before the first. -/
def transitionFor (previous : Option Checkpoint) (next : Checkpoint) (outcome : OutcomeCode) :
    Transition :=
  let source := previous.filter fun c => c.currentNodeID ≠ .empty
  { id := transitionID digest next.key next.revision
    key := next.key
    revision := next.revision
    origin := previous.map Checkpoint.status
    target := next.status
    segmentID := next.segmentID
    sourceSegmentID := (source.map Checkpoint.segmentID).getD .empty
    sourceHostGeneration := (source.map Checkpoint.hostGeneration).getD 0
    sourceNodeID := (source.map Checkpoint.currentNodeID).getD .empty
    sourceAttemptID := (source.map Checkpoint.attemptID).getD .empty
    currentNodeID := next.currentNodeID
    attemptID := next.attemptID
    outcomeCode := outcome.text
    edge := if outcome = .edgeSelected ∨ outcome = .errorEdge then next.lastEdge else none
    approval := none }

def leaseForCheckpoint : LeaseRequest := ⟨c.key, c.segmentID, c.hostGeneration⟩

def CommitDisposition.valid : CommitDisposition → Bool
  | .applied | .replayed => true
  | .unknown => false

def commitWithEvidence (previous next : Checkpoint) (outcome : OutcomeCode)
    (approval : Option ApprovalEvidence) (lease : LeaseRequest) :
    Exec (Except ExecError (Checkpoint × CommitDisposition)) := do
  let next := { next with revision := previous.revision + 1 }
  let t := { transitionFor digest (some previous) next outcome with approval }
  if ← test (.verify lease) then
    match ← ask (.compareAndSwap previous.key previous.revision next t) with
    | .error e => return .error (.store e)
    | .ok (committed, disposition) =>
      if disposition.valid then return .ok (committed, disposition)
      else return .error (.executionFailed .empty)
  else return .error .leaseUnavailable

def commit (previous next : Checkpoint) (outcome : OutcomeCode) (lease : LeaseRequest) :
    Exec (Except ExecError (Checkpoint × CommitDisposition)) :=
  commitWithEvidence digest previous next outcome none lease

/-- `releaseLease`: what it adds to a joined error. -/
def releaseLease (lease : LeaseRequest) : Exec (List ExecError) := do
  if ← test (.release lease) then return [] else return [.leaseUnavailable]

/-! ## Failure and cancellation -/

/-- `fail`, from an executing checkpoint. -/
def failExecuting (code : OutcomeCode) : Exec Outcome := do
  match ← commit digest c (c.failedWith code) code (leaseForCheckpoint c) with
  | .error e => return failure c e
  | .ok (committed, _) => return failure committed (.executionFailed code.text)

/-- `fail`: a ready checkpoint is made executing first. -/
def fail (code : OutcomeCode) : Exec Outcome := do
  if c.status = .ready then
    match ← commit digest c (c.synthetic digest) .preflightFailed (leaseForCheckpoint c) with
    | .error e => return failure c e
    | .ok (committed, disposition) =>
      if disposition = .replayed then return failure committed .executionInProgress
      else failExecuting digest committed code
  else failExecuting digest c code

def terminalError : List ExecError :=
  match c.status with
  | .unknown => [.unknownOutcome]
  | .failed => [.executionFailed c.failureCode]
  | .cancelled => [.canceled]
  | _ => []

def cancel : Exec Outcome := do
  if c.status ≠ .ready ∧ c.status ≠ .executing then return (⟨some c, false⟩, terminalError c)
  else
    match ← commit digest c c.cancelled .cancelled (leaseForCheckpoint c) with
    | .error e => return failure c e
    | .ok (committed, _) => return failure committed .canceled

/-! ## One round -/

variable (d : Definition)

def findNode (id : GoString) : Option NodeSpec :=
  d.nodes.find? fun node => node.id = id

def errorEdge (source : GoString) : Option EdgeSpec :=
  d.edges.find? fun edge => edge.source = source ∧ edge.kind = .error

def attempts (spec : NodeSpec) : ℤ :=
  if spec.retry.maxAttempts = 0 then 1 else spec.retry.maxAttempts

def failureCode (e : NodeError) : OutcomeCode := if e.deadline then .nodeTimeout else .nodeFailed

/-- The loop of `selectEdge` over the edges of the node that are not error edges. -/
def selectFrom (e : Executor) (state : State) :
    List EdgeSpec → Option EdgeSpec → Option EdgeSpec → Exec (Except ExecError EdgeSpec)
  | [], some selected, _ => return .ok selected
  | [], none, some fallback => return .ok fallback
  | [], none, none => return .error .noEdge
  | edge :: edges, selected, fallback => do
      if edge.kind = .default then selectFrom e state edges selected (some edge)
      else if e.bindings.predicate edge.predicate edge.predicateVersion then
        match ← ask (.evaluate edge state) with
        | none => return .error .predicateFailed
        | some true =>
          if selected.isSome then return .error .edgeAmbiguous
          else selectFrom e state edges (some edge) fallback
        | some false => selectFrom e state edges selected fallback
      else return .error .bindingMismatch

def selectEdge (source : GoString) (state : State) :
    Exec (Except ExecError EdgeSpec) :=
  selectFrom e state (e.definition.edges.filter fun edge =>
    edge.source = source ∧ edge.kind ≠ .error) none none

def reduce (e : Executor) (state : State) (patch : StatePatch) : Exec (Option State) := do
  if e.bindings.reducer = reducerTopLevelJSONPatch then
    return (applyStatePatch e.definition.state state patch).toOption
  else
    match ← ask (.reduce state patch) with
    | none => return none
    | some next => return (validateState e.definition.state next).toOption

/-- A round ends the call, or goes on with a checkpoint. -/
abbrev Step := Outcome ⊕ Checkpoint

/-- Goes on with a committed checkpoint, unless another call has committed it. -/
def proceed (executing : Checkpoint) :
    Except ExecError (Checkpoint × CommitDisposition) → Exec Step
  | .error e => return .inl (failure executing e)
  | .ok (next, disposition) =>
    if disposition = .replayed then return .inl (failure next .executionReplay)
    else return .inr next

/-- The end of a round whose node returned a patch. -/
def succeed (spec : NodeSpec) (executing : Checkpoint) (patch : StatePatch) :
    Exec Step := do
  let reduced ← reduce e executing.state patch
  if ← test .ended then .inl <$> cancel digest executing
  else
    match reduced with
    | none => .inl <$> fail digest executing .reducerFailed
    | some state =>
      if spec.terminal then
        match ← commit digest executing (executing.completedWith state) .completed
            (leaseForCheckpoint executing) with
        | .error err => return .inl (failure executing err)
        | .ok (next, _) => return .inl (⟨some next, false⟩, [])
      else
        let selected ← selectEdge e spec.id state
        if ← test .ended then .inl <$> cancel digest executing
        else
          match selected with
          | .error _ => .inl <$> fail digest executing .edgeSelectionFailed
          | .ok edge =>
            proceed executing (← commit digest executing
              { executing.moveTo edge with state } .edgeSelected
              (leaseForCheckpoint executing))

/-- The round after a retry was committed: the backoff may be cut short. -/
def backOff (spec : NodeSpec) : Step → Exec Step
  | .inl outcome => return .inl outcome
  | .inr next => do
      if spec.retry.backoff > 0 then
        if ← test .endedInBackoff then .inl <$> cancel digest next else return .inr next
      else return .inr next

/-- The end of a round whose node returned an error. -/
def settleError (spec : NodeSpec) (executing : Checkpoint) (err : NodeError) :
    Exec Step := do
  match err.approvalID with
  | some approvalID =>
    if validBindingID approvalID then
      match ← commit digest executing (executing.suspended approvalID) .approvalPending
          (leaseForCheckpoint executing) with
      | .error e => return .inl (failure executing e)
      | .ok (next, _) => do
          let released ← releaseLease (leaseForCheckpoint executing)
          return .inl (⟨some next, true⟩, .approvalPending approvalID :: released)
    else .inl <$> fail digest executing .invalidApproval
  | none =>
    if err.panicked then return .inl (failure executing .nodePanic)
    else if err.retryable ∧ executing.attempt < attempts spec then
      let next ← proceed executing (← commit digest executing executing.retried .retry
        (leaseForCheckpoint executing))
      backOff digest spec next
    else
      match errorEdge e.definition spec.id with
      | some edge =>
        proceed executing (← commit digest executing (executing.moveTo edge) .errorEdge
          (leaseForCheckpoint executing))
      | none => .inl <$> fail digest executing (failureCode err)

/-- The round after the node has answered. -/
def settle (spec : NodeSpec) (executing : Checkpoint) (answer : NodeAnswer) :
    Exec Step := do
  if ← test .ended then .inl <$> cancel digest executing
  else if ← test (.verify (leaseForCheckpoint executing)) then
    let outcome := if answer.timedOut then .error .deadlineExceeded else answer.outcome
    match outcome with
    | .error err => settleError digest e spec executing err
    | .ok patch => succeed digest e spec executing patch
  else return .inl (failure executing .leaseUnavailable)

/-- The plan of the context, and the node. -/
def invoke (spec : NodeSpec) (executing : Checkpoint) : Exec Step := do
  if ← test (.plan executing spec) then
    settle digest e spec executing (← ask (.execute spec executing))
  else if ← test .ended then .inl <$> cancel digest executing
  else .inl <$> fail digest executing .contextUnavailable

/-- The round once the checkpoint is executing. -/
def perform (spec : NodeSpec) (executing : Checkpoint) : Exec Step := do
  if e.bindings.node spec.kind spec.kindVersion then
    if ← test (.verify (leaseForCheckpoint executing)) then
      if spec.usesSandbox then
        if e.sandbox then
          if ← test (.sandbox (leaseForCheckpoint executing) spec.id executing.attemptID) then
            invoke digest e spec executing
          else .inl <$> fail digest executing .sandboxDenied
        else .inl <$> fail digest executing .sandboxUnavailable
      else invoke digest e spec executing
    else return .inl (failure executing .leaseUnavailable)
  else .inl <$> fail digest executing .bindingMissing

/-- The limits that apply before a new attempt is created. -/
def limitReached (spec : NodeSpec) (c : Checkpoint) : Option OutcomeCode :=
  if c.attemptID = .empty ∧ d.limits.maxSteps ≤ c.steps then some .stepLimit
  else if c.attemptID = .empty ∧ 0 < d.limits.maxVisitsPerNode ∧
      d.limits.maxVisitsPerNode ≤ c.visitsOf spec.id then some .visitLimit
  else none

def roundReady (c : Checkpoint) : Exec Step := do
  match findNode e.definition c.currentNodeID with
  | none => .inl <$> fail digest c .unknownNode
  | some spec =>
    match limitReached e.definition spec c with
    | some code => .inl <$> fail digest c code
    | none =>
      match ← commit digest c (c.entered digest spec.id) .nodeStarted (leaseForCheckpoint c) with
      | .error err => return .inl (failure c err)
      | .ok (executing, disposition) =>
        if disposition = .replayed then
          return .inl (failure executing .executionInProgress)
        else perform digest e spec executing

/-- A round of the loop of `drive`. -/
def round (c : Checkpoint) : Exec Step := do
  if ← test .ended then .inl <$> cancel digest c
  else
    match c.status with
    | .completed => return .inl (⟨some c, false⟩, [])
    | .waitingApproval => return .inl (⟨some c, true⟩, [.approvalPending c.pendingApprovalID])
    | .failed | .cancelled | .unknown => return .inl (⟨some c, false⟩, terminalError c)
    | .executing => return .inl (failure c .unknownOutcome)
    | .ready => roundReady digest e c

/-- The loop of `drive`, for a number of rounds at most. -/
def drive : ℕ → Checkpoint → Exec (Option Outcome)
  | 0, _ => return none
  | rounds + 1, c => do
      match ← round digest e c with
      | .inl outcome => return some outcome
      | .inr next => drive rounds next

/-! ## Run and Resume -/

/-- The last edge of a checkpoint leads to its node, and is an edge of the definition. -/
def lastEdgeMatches (c : Checkpoint) : Bool :=
  c.lastEdge.all fun last => last.target = c.currentNodeID ∧ ∃ edge ∈ d.edges,
    edge.source = last.source ∧ edge.target = last.target ∧ edge.kind = last.kind ∧
      edge.predicate = last.predicate

/-- `verifyFrozenCheckpoint` returns nil; all its errors wrap `ErrBindingMismatch`. -/
def frozen (c : Checkpoint) : Bool :=
  decide (c.graphID = e.definition.id ∧ c.definitionRevision = e.definition.revision ∧
    c.compositionRevision = e.bindings.compositionRevision ∧
    c.implementationRevision = e.bindings.implementationRevision ∧
    (validateState e.definition.state c.state).toOption = some c.state ∧
    (findNode e.definition c.currentNodeID).isSome ∧
    (∀ v ∈ c.visits.entries, (findNode e.definition v.1).isSome ∧
      (0 < e.definition.limits.maxVisitsPerNode → v.2 ≤ e.definition.limits.maxVisitsPerNode)) ∧
    lastEdgeMatches e.definition c)

/-- `create`. -/
def createInitial (request : StartRequest) : Exec (Except ExecError Checkpoint) := do
  match validateState e.definition.state request.initialState with
  | .error reason => return .error (.invalidState reason)
  | .ok state =>
    let c := e.initial request state
    if ← test (.verify request.toLeaseRequest) then
      match ← ask (.create c (transitionFor digest none c .created)) with
      | .error err => return .error (.store err)
      | .ok (created, disposition) =>
        if disposition.valid then return .ok created
        else return .error (.executionFailed .empty)
    else return .error .leaseUnavailable

def recoverUnknown (request : StartRequest) : Exec Outcome := do
  if request.segmentID = .empty ∨ request.segmentID = c.segmentID ∨
      request.hostGeneration ≤ c.hostGeneration then return failure c .segmentMismatch
  else
    if ← test (.verify request.toLeaseRequest) then
      match ← commit digest c (c.abandoned request) .recoveryUnknown request.toLeaseRequest with
      | .error err => return failure c err
      | .ok (next, _) => do
          let released ← releaseLease request.toLeaseRequest
          return (⟨some next, false⟩, .unknownOutcome :: released)
    else return failure c .leaseUnavailable

/-- `Run`, once there is a checkpoint. -/
def runFrom (request : StartRequest) (c : Checkpoint) : Exec Step := do
  if frozen e c then
    if c.status = .executing then .inl <$> recoverUnknown digest c request
    else if c.status ≠ .waitingApproval ∧
        (c.segmentID ≠ request.segmentID ∨ c.hostGeneration ≠ request.hostGeneration) then
      return .inl (failure c .segmentMismatch)
    else if c.status = .ready then
      if ← test (.verify request.toLeaseRequest) then return .inr c
      else return .inl (failure c .leaseUnavailable)
    else return .inr c
  else return .inl (failure c .bindingMismatch)

/-- `Run`, up to the call of `drive`. -/
def run (request : StartRequest) : Exec Step := do
  match ← ask (.load request.key) with
  | .ok c => runFrom digest e request c
  | .error err =>
    if err = .notFound then
      if ← test (.verify request.toLeaseRequest) then
        match ← createInitial digest e request with
        | .ok c => runFrom digest e request c
        | .error err => return .inl (⟨none, false⟩, [err])
      else return .inl (⟨none, false⟩, [.leaseUnavailable])
    else return .inl (⟨none, false⟩, [.store err])

def validApprovalText (value : GoString) (max : ℕ) : Bool :=
  decide (value ≠ .empty ∧ value.len ≤ max ∧ value.valid ∧ value.trimSpace = value ∧
    !value.anyRune fun c => GoString.isUnicodeControl c || GoString.isFormatOrPrivate c)

def ApprovalDecision.validate (d : ApprovalDecision) : Except ExecError Unit := do
  require d.key.validate.isOk (.invalidApproval "key")
  require (d.tenantID ≠ .empty ∧ d.tenantID = d.key.tenantID ∧
    validApprovalText d.tenantID maxCheckpointIDBytes) (.invalidApproval "tenant")
  require (validApprovalText d.approvalID maxCheckpointIDBytes ∧ d.revision ≠ 0 ∧
    validApprovalText d.sourceSegmentID maxCheckpointIDBytes ∧
    validApprovalText d.actorID maxApprovalActorBytes ∧
    validApprovalText d.authorizationBasis maxApprovalBasisBytes) (.invalidApproval "evidence")
  require d.decision.known (.invalidApproval "decision")

/-- The decision is about the suspended checkpoint. -/
def decisionMatches (request : ResumeRequest) : Bool :=
  decide (request.decision.key = c.key ∧ request.decision.tenantID = c.key.tenantID ∧
    request.decision.approvalID = c.pendingApprovalID ∧
    request.decision.approvalID = request.approvalID ∧ request.decision.revision = c.revision ∧
    request.decision.sourceSegmentID = c.segmentID)

/-- `authorizeApproval`: the error, if there is one. -/
def authorizeApproval (c : Checkpoint) (request : ResumeRequest) :
    Exec (Option ExecError) := do
  if e.approval then
    match request.decision.validate with
    | .error err => return some err
    | .ok () =>
      if decisionMatches c request then
        if ← test (.authorize c request) then return none else return some .approvalFailed
      else return some (.invalidApproval "decision does not match suspended checkpoint")
  else return some .approvalUnavailable

/-- `Resume`, once the decision is authorized. -/
def resolve (c : Checkpoint) (request : ResumeRequest) : Exec Step := do
  let lease := request.toLeaseRequest
  let evidence := some request.decision.evidence
  if request.decision.decision = .approved then
    match ← commitWithEvidence digest c (c.resumed request) .approvalApproved evidence lease with
    | .error err => return .inl (failure c err)
    | .ok (next, _) => return .inr next
  else if (findNode e.definition c.currentNodeID).map NodeSpec.approvalDeniedPolicy =
      some .resumeWithDecision then
    match ← commitWithEvidence digest c (c.resumed request) .approvalDenied evidence lease with
    | .error err => return .inl (failure c err)
    | .ok (next, _) => return .inr next
  else
    match ← commitWithEvidence digest c (c.denied request) .approvalDenied evidence lease with
    | .error err => return .inl (failure c err)
    | .ok (next, _) => do
        let released ← releaseLease lease
        return .inl (⟨some next, false⟩, .executionFailed (go "approval denied") :: released)

/-- `Resume`, up to the call of `drive`. -/
def resume (request : ResumeRequest) : Exec Step := do
  match ← ask (.load request.key) with
  | .error err => return .inl (⟨none, false⟩, [.store err])
  | .ok c =>
    if frozen e c then
      if c.status = .waitingApproval then
        if c.pendingApprovalID ≠ request.approvalID ∨ request.approvalID = .empty ∨
            request.segmentID = .empty ∨ request.hostGeneration ≤ c.hostGeneration then
          return .inl (failure c .segmentMismatch)
        else
          match ← authorizeApproval e c request with
          | some err => return .inl (failure c err)
          | none =>
            if ← test (.verify request.toLeaseRequest) then
              resolve digest e c request
            else return .inl (failure c .leaseUnavailable)
      else return .inl (failure c .segmentMismatch)
    else return .inl (failure c .bindingMismatch)

inductive Request where
  | start (request : StartRequest)
  | resume (request : ResumeRequest)

structure Call extends executor : Executor where
  request : Request

/-- The call up to the loop of `drive`. -/
def Call.program (call : Call) : Exec Step :=
  match call.request with
  | .start request => run digest call.executor request
  | .resume request => resume digest call.executor request

end AutoAgent.Graph
