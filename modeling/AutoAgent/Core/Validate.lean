import AutoAgent.Core.Events
import AutoAgent.Lib.Sha256

/-!
# Validation of session events

The checks every payload passes before it is committed or restored: one
validator per event type, as the source's table `sessionEventValidators` lists
them.  An error is a constructor per error path with the data its message
mentions.

The same validator runs on a struct a caller hands to `Append` and on the struct
decoded from a stored event, so validation depends on the decoded payload only.
-/

namespace AutoAgent

/-- The errors of the session, one constructor per error path. -/
inductive SessionError where
  /-- `run id %q must be 1-128 characters using ...` -/
  | invalidRunID (runID : GoString)
  /-- `session append batch is empty` -/
  | emptyBatch
  /-- `encode %s event: ...` -/
  | encode (kind : SessionEventType)
  /-- `encode %s event: payload exceeds %d bytes`, `event payload exceeds %d bytes` -/
  | payloadTooLarge
  /-- `unknown session event type %q` -/
  | unknownType (kind : SessionEventType)
  /-- `%s event has no data` -/
  | noData (kind : SessionEventType)
  /-- `decode %s event: ...` -/
  | decode (kind : SessionEventType)
  /-- `session %q exceeds maximum of %d events` -/
  | tooManyEvents
  /-- `run id %q already exists in session %q` -/
  | runExists (runID : GoString)
  /-- `run id %q has not started in session %q` -/
  | runNotStarted (runID : GoString)
  /-- `run %q repeats usage invocation %q` -/
  | repeatedInvocation (runID invocationID : GoString)
  /-- `run token usage overflows` -/
  | usageOverflow
  /-- `run/usage contains negative token counts` -/
  | negativeTokens
  /-- `run/usage has an invalid invocation id` -/
  | invalidInvocationID
  /-- `run/usage invocation exceeds the per-call limit` -/
  | invocationLimit
  /-- `run/end has invalid status %q` -/
  | invalidRunStatus (status : RunStatus)
  /-- `%s requires code and message` -/
  | missingCodeOrMessage (kind : SessionEventType)
  /-- `%s has invalid step index %d` -/
  | invalidStepIndex (kind : SessionEventType) (index : Int64)
  /-- `assistant/chunk text is empty` -/
  | emptyChunk
  /-- `model tool continuation is invalid or exceeds 64 KiB` -/
  | invalidContinuation
  /-- `invalid tool call id` -/
  | invalidToolCallID
  /-- `model stream returned invalid tool name: id %q must be ...` -/
  | invalidToolName (name : GoString)
  /-- `result metadata exceeds %d bytes` -/
  | resultMetadataTooLarge
  /-- `context/summary has an invalid replacement range or empty summary` -/
  | invalidSummary
  /-- `assistant/message tool_call does not match tool_calls[0]` -/
  | toolCallMismatch
  /-- `assistant/message repeats tool call id %q` -/
  | repeatedToolCallID (id : GoString)
  /-- `assistant/message has neither text nor tool calls` -/
  | emptyAssistantMessage
  /-- `approval id %q must use apr_ followed by ...` -/
  | invalidApprovalID (id : GoString)
  /-- `approval tool call: %w` -/
  | approvalToolCall (cause : SessionError)
  /-- `approval resume call: %w` -/
  | approvalResumeCall (cause : SessionError)
  /-- `approval remaining call: %w` -/
  | approvalRemainingCall (cause : SessionError)
  /-- `approval request has invalid step %d` -/
  | invalidApprovalStep (step : Int64)
  /-- `approval resolution time is zero` -/
  | zeroResolutionTime
  /-- `approval resolution has invalid decision %q` -/
  | invalidDecision (decision : ApprovalDecision)
  /-- `run composition metadata exceeds %d items` -/
  | metadataItems
  /-- `run composition metadata key is empty, too long, or contains control characters` -/
  | metadataKey
  /-- `run composition metadata value for %q is too long or contains control characters` -/
  | metadataValue (key : GoString)
  /-- `run composition metadata exceeds %d bytes` -/
  | metadataBytes
  /-- `%s must be a SHA-256 digest` -/
  | revisionLength (name : String)
  /-- `%s: ...`, the error of the hexadecimal decoder -/
  | revisionHex (name : String)
  /-- `composition revisions require a composition` -/
  | revisionsWithoutComposition
  /-- `composition revision does not match composition` -/
  | compositionMismatch
  /-- `assignment revision does not match composition metadata` -/
  | assignmentMismatch
  /-- `session %q event sequence is discontinuous at %d` -/
  | discontinuous (index : ℕ)
  /-- `session %q event %d: %w` -/
  | atEvent (index : ℕ) (cause : SessionError)
  /-- `session %q has duplicate run start %q` -/
  | duplicateStart (runID : GoString)
  /-- `session %q resumes run %q before its start` -/
  | resumeBeforeStart (runID : GoString)
  /-- `decode context summary at seq %d: ...` -/
  | summaryDecode (seq : ℕ)
  /-- `pending approval index is corrupt` -/
  | corruptIndex
  deriving DecidableEq

section

variable (condition : Prop) [Decidable condition] (e : SessionError)

/-- Fails with `e` when the condition holds, as `invalidEvent` does. -/
def invalidEvent : Except SessionError Unit := require (¬condition) e

@[simp] theorem invalidEvent_eq_ok {u : Unit} : invalidEvent condition e = .ok u ↔ ¬condition :=
  require_eq_ok

end

/-! ## Bounds -/

def maxSessionEventDataBytes : ℕ := 16 * 2 ^ 20
def maxSessionEvents : ℕ := 16384
def maxRunUsageInvocationIDBytes : ℕ := 96
def maxReportedTokensPerCall : ℤ := 1000000000000
def maxRunCompositionMetadataItems : ℕ := 32
def maxRunCompositionMetadataKeyBytes : ℕ := 128
def maxRunCompositionMetadataValueBytes : ℕ := 1024
def maxRunCompositionMetadataBytes : ℕ := 16 * 2 ^ 10
def maxCapabilityMetadataBytes : ℕ := 256 * 2 ^ 10

/-! ## Identifiers and tool calls -/

def validateRunID (runID : GoString) : Except SessionError Unit :=
  invalidEvent (!runIDPattern runID) (.invalidRunID runID)

def validateApprovalID (id : GoString) : Except SessionError Unit :=
  invalidEvent (!approvalIDPattern id) (.invalidApprovalID id)

def validateToolCallID (id : GoString) : Except SessionError Unit :=
  invalidEvent (id.isBlank ∨ 256 < id.len ∨
    id.anyRune (fun c => c == '\r' || c == '\n' || c == '\x00')) .invalidToolCallID

def validateToolCall (call : ToolCall) : Except SessionError Unit := do
  invalidEvent (64 * 2 ^ 10 < call.continuation.len ∨ !call.continuation.valid) .invalidContinuation
  validateToolCallID call.id
  invalidEvent (!validNamespacedID call.name) (.invalidToolName call.name)

/-- `validateToolCallList` with the set of ids seen so far; `wrap` is the
caller's prefix. -/
def validateToolCallList (wrap : SessionError → SessionError) (rejectDuplicate : Bool) :
    List GoString → List ToolCall → Except SessionError Unit
  | _, [] => .ok ()
  | seen, call :: calls => do
      (validateToolCall call).mapError wrap
      invalidEvent (rejectDuplicate && seen.contains call.id) (.repeatedToolCallID call.id)
      validateToolCallList wrap rejectDuplicate (call.id :: seen) calls

def validateResultMetadata (metadata : AnyMap) : Except SessionError Unit :=
  invalidEvent (maxCapabilityMetadataBytes < ((Codec.map .any).enc metadata).size)
    .resultMetadataTooLarge

/-! ## Composition evidence -/

def validateRunCompositionMetadata (metadata : List (GoString × GoString)) :
    Except SessionError Unit := do
  invalidEvent (maxRunCompositionMetadataItems < metadata.length) .metadataItems
  metadata.forM fun (key, value) => do
    invalidEvent (key.isBlank ∨ maxRunCompositionMetadataKeyBytes < key.len ∨
      key.anyRune GoString.isControl) .metadataKey
    invalidEvent (maxRunCompositionMetadataValueBytes < value.len ∨
      value.anyRune GoString.isControl) (.metadataValue key)
  invalidEvent (maxRunCompositionMetadataBytes < ((Codec.map .string).enc metadata).size)
    .metadataBytes

/-- The digest of a document: SHA-256 of its text, in hexadecimal. -/
def digestDoc (d : Doc) : GoString := Sha256.hex (Sha256.digest d.text)

def compositionMetadataRevision (metadata : List (GoString × GoString)) :
    Except SessionError GoString :=
  if metadata.isEmpty then .ok .empty
  else do
    validateRunCompositionMetadata metadata
    return digestDoc ((Codec.map .string).enc metadata)

def cloneManifest (m : CapabilityManifest) : CapabilityManifest :=
  { m with
    inputSchema := cloneMap m.inputSchema
    outputSchema := cloneMap m.outputSchema
    tool := m.tool.map fun t => { t with parameters := cloneMap t.parameters } }

/-- `cloneRunCompositionData`: permissions that are not granted are dropped. -/
def cloneRunCompositionData (c : RunCompositionData) : RunCompositionData :=
  { c with
    capabilities := c.capabilities.map fun s => { s with manifest := cloneManifest s.manifest }
    effectivePermissions := c.effectivePermissions.filter (·.2) }

def compositionRevision (c : RunCompositionData) : Except SessionError GoString := do
  validateRunCompositionMetadata c.metadata
  let copy := cloneRunCompositionData c
  let copy := { copy with profile := { copy.profile with createdAt := .zero } }
  return digestDoc (RunCompositionData.codec.enc copy)

def validateRevision (value : GoString) (name : String) : Except SessionError Unit :=
  if value = .empty then .ok ()
  else do
    invalidEvent (value.len ≠ 64) (.revisionLength name)
    invalidEvent (!value.allRunes isHex) (.revisionHex name)

def validateRunCompositionEvidence (composition : Option RunCompositionData)
    (revision assignment : GoString) : Except SessionError Unit := do
  match composition with
  | none => pure ()
  | some c => validateRunCompositionMetadata c.metadata
  validateRevision revision "composition revision"
  validateRevision assignment "assignment revision"
  match composition with
  | none =>
    invalidEvent (revision ≠ .empty ∨ assignment ≠ .empty) .revisionsWithoutComposition
  | some c => do
      let calculated ← compositionRevision c
      invalidEvent (revision ≠ .empty ∧ revision ≠ calculated) .compositionMismatch
      let calculated ← compositionMetadataRevision c.metadata
      invalidEvent (assignment ≠ .empty ∧ assignment ≠ calculated) .assignmentMismatch

/-! ## One validator per payload -/

/-- `validateRunStartData`, also `validateRunResumeData`. -/
def validateRunStartData (data : RunStartData) : Except SessionError Unit :=
  validateRunCompositionEvidence data.composition data.compositionRevision data.assignmentRevision

def validRunStatus (status : RunStatus) : Bool :=
  status == .completed || status == .limited || status == .failed || status == .cancelled

def validateRunEndData (data : RunEndData) : Except SessionError Unit :=
  invalidEvent (!validRunStatus data.status) (.invalidRunStatus data.status)

variable (kind : SessionEventType)

def validateRuntimeErrorData (data : RuntimeErrorData) :
    Except SessionError Unit :=
  invalidEvent (data.code.isBlank || data.message.isBlank) (.missingCodeOrMessage kind)

/-- The number a canonical decimal text denotes; no leading zero, digits only,
within `int64`. -/
def parseCanonical (s : GoString) : Option ℕ :=
  let digits := s.runes.filterMap fun
    | .rune c => some c
    | .invalid _ => none
  let value : ℕ := digits.foldl (fun n c => n * 10 + (c.toNat - 48)) 0
  if s.runes.isEmpty || (decide (1 < s.runes.length) && s.runes.head? == some (.rune '0')) ||
      !s.allRunes Char.isDigit || decide (2 ^ 63 ≤ value)
  then none
  else some value

/-- `validRunUsageInvocationID`: `model:<n>`, or `summary:<start>:<end>:<n>` with
an ordered range. -/
def validRunUsageInvocationID (value : GoString) : Bool :=
  match value.splitOn ':' with
  | [tag, n] => tag == go "model" && (parseCanonical n).isSome
  | [tag, start, stop, n] =>
    match parseCanonical start, parseCanonical stop, parseCanonical n with
    | some first, some last, some _ => tag == go "summary" && decide (first ≤ last)
    | _, _, _ => false
  | _ => false

def validateRunUsageData (data : RunUsageData) : Except SessionError Unit := do
  invalidEvent (data.inputTokens < 0 ∨ data.outputTokens < 0) .negativeTokens
  if data.invocationID = .empty then pure ()
  else do
    invalidEvent (maxRunUsageInvocationIDBytes < data.invocationID.len ∨
      !validRunUsageInvocationID data.invocationID) .invalidInvocationID
    invalidEvent (maxReportedTokensPerCall < data.inputTokens.toInt ∨
      maxReportedTokensPerCall < data.outputTokens.toInt) .invocationLimit

def validateStepData (data : StepData) : Except SessionError Unit :=
  invalidEvent (data.index < -1) (.invalidStepIndex kind data.index)

def validateAssistantChunkData (data : AssistantChunkData) : Except SessionError Unit :=
  invalidEvent (data.text = .empty) .emptyChunk

def validateToolCallData (data : ToolCallData) : Except SessionError Unit :=
  validateToolCall ⟨data.callID, data.name, data.args, .empty⟩

def validateToolResultData (data : ToolResultData) : Except SessionError Unit := do
  validateToolCallID data.callID
  validateResultMetadata data.metadata

def validateContextSummaryData (data : ContextSummaryData) : Except SessionError Unit :=
  invalidEvent (data.op ≠ go "replace" ∨ data.start < 0 ∨ data.stop < data.start ∨
    data.summary.isBlank) .invalidSummary

/-- The calls of an assistant message: the list, or the single call of the older
form. -/
def AssistantMessageData.calls (data : AssistantMessageData) : List ToolCall :=
  if data.toolCalls.isEmpty then data.toolCall.toList else data.toolCalls

def validateAssistantMessageData (data : AssistantMessageData) : Except SessionError Unit := do
  match data.toolCall, data.toolCalls with
  | some call, first :: _ =>
    invalidEvent (first.id ≠ call.id ∨ first.name ≠ call.name) .toolCallMismatch
  | _, _ => pure ()
  validateToolCallList id true [] data.calls
  invalidEvent (data.text = .empty ∧ data.calls.isEmpty) .emptyAssistantMessage

def validateApprovalRequestedData (data : ApprovalRequestedData) : Except SessionError Unit := do
  validateApprovalID data.approvalID
  (validateToolCall data.toolCall).mapError .approvalToolCall
  (validateToolCall data.resumeCall).mapError .approvalResumeCall
  validateToolCallList .approvalRemainingCall false [] data.remainingCalls
  invalidEvent (data.step < 0) (.invalidApprovalStep data.step)

def validateApprovalResolvedData (data : ApprovalResolvedData) : Except SessionError Unit := do
  validateApprovalID data.approvalID
  validateToolCallID data.callID
  invalidEvent data.resolvedAt.isZero .zeroResolutionTime
  invalidEvent (!(data.decision == .approved || data.decision == .denied ||
    data.decision == .expired)) (.invalidDecision data.decision)

/-- The table `sessionEventValidators` applied to a payload of the expected
type; `validateNoopEventData` accepts every user message. -/
def validateEventData : EventData → Except SessionError Unit
  | .runStart d => validateRunStartData d
  | .runResume d => validateRunStartData d
  | .runEnd d => validateRunEndData d
  | .runtimeError d => validateRuntimeErrorData kind d
  | .runUsage d => validateRunUsageData d
  | .step d => validateStepData kind d
  | .userMessage _ => .ok ()
  | .assistantMessage d => validateAssistantMessageData d
  | .assistantChunk d => validateAssistantChunkData d
  | .toolCall d => validateToolCallData d
  | .toolResult d => validateToolResultData d
  | .approvalRequested d => validateApprovalRequestedData d
  | .approvalResolved d => validateApprovalResolvedData d
  | .contextSummary d => validateContextSummaryData d

/-- `validateSessionEvent`: the checks on a stored event. -/
def validateSessionEvent (runID : GoString) (kind : SessionEventType) (raw : RawMessage) :
    Except SessionError Unit := do
  validateRunID runID
  invalidEvent (maxSessionEventDataBytes < raw.size) .payloadTooLarge
  match kind with
  | .other _ => .error (.unknownType kind)
  | _ =>
    if raw.size = 0 then .error (.noData kind)
    else
      match decodeEvent kind raw with
      | none => .error (.decode kind)
      | some d => validateEventData kind d

end AutoAgent
