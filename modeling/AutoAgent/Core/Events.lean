import AutoAgent.Core.Composition

/-!
# Session events

The durable facts of a session: the event types, the payload struct of each with
its codec, and the stored event.  The event log stores payloads as JSON text;
an appended payload is either a struct of the type its event expects, in which
case the session also reads the struct itself, or any other Go value, which the
session only sees through its text.
-/

namespace AutoAgent

open Codec (bool int64 map slice string)

/-! ## String constants -/

/-- `RunStatus`, the durable state of a turn.  `unset` is the empty string; the
last constructor is every other string. -/
inductive RunStatus where
  | unset | completed | limited | failed | cancelled | waitingApproval
  | other (name : GoString)
      (unnamed : name ∉ [go "", go "completed", go "limited", go "failed", go "cancelled",
        go "waiting_approval"])
  deriving DecidableEq, Repr

namespace RunStatus

def text : RunStatus → GoString
  | .unset => go ""
  | .completed => go "completed"
  | .limited => go "limited"
  | .failed => go "failed"
  | .cancelled => go "cancelled"
  | .waitingApproval => go "waiting_approval"
  | .other name _ => name

def parse (s : GoString) : RunStatus :=
  if h : s ∈ [go "", go "completed", go "limited", go "failed", go "cancelled",
      go "waiting_approval"] then
    ([completed, limited, failed, cancelled, waitingApproval].find? (·.text = s)).getD .unset
  else .other s h

theorem parse_text (v : RunStatus) : parse v.text = v := by
  cases v with
  | other name unnamed => exact dif_neg unnamed
  | _ => decide

def codec : Codec RunStatus := .named text parse parse_text

end RunStatus

inductive ApprovalDecision where
  | unset | pending | approved | denied | expired
  | other (name : GoString)
      (unnamed : name ∉ [go "", go "pending", go "approved", go "denied", go "expired"])
  deriving DecidableEq, Repr

namespace ApprovalDecision

def text : ApprovalDecision → GoString
  | .unset => go ""
  | .pending => go "pending"
  | .approved => go "approved"
  | .denied => go "denied"
  | .expired => go "expired"
  | .other name _ => name

def parse (s : GoString) : ApprovalDecision :=
  if h : s ∈ [go "", go "pending", go "approved", go "denied", go "expired"] then
    ([pending, approved, denied, expired].find? (·.text = s)).getD .unset
  else .other s h

theorem parse_text (v : ApprovalDecision) : parse v.text = v := by
  cases v with
  | other name unnamed => exact dif_neg unnamed
  | _ => decide

def codec : Codec ApprovalDecision := .named text parse parse_text

end ApprovalDecision

/-- `SessionEventType`.  The last constructor is a type the runtime does not
know. -/
inductive SessionEventType where
  | runStart | runResume | runEnd | runError | runUsage
  | stepStart | stepEnd | stepError
  | userMessage | assistantMessage | assistantChunk
  | toolCall | toolResult
  | approvalRequested | approvalResolved
  | contextSummary
  | other (name : GoString)
  deriving DecidableEq, Repr

/-! ## Payloads -/

/-- `ToolCall`, one model-requested invocation. -/
structure ToolCall where
  id : GoString
  name : GoString
  args : AnyMap
  continuation : GoString

def ToolCall.codec : Codec ToolCall :=
  .struct [
    string.tag "id" (·.id),
    string.tag "name" (·.name),
    (map .any).opt "args" (·.args),
    string.opt "continuation" (·.continuation)] mk

def ToolCall.ptrCodec : Codec (Option ToolCall) :=
  ToolCall.codec.ptr fun _ => structDoc_ne_null _

structure RunStartData where
  profileSnapshotID : GoString
  capabilitySnapshotID : GoString
  compositionRevision : GoString
  assignmentRevision : GoString
  composition : Option RunCompositionData

/-- `RunResumeData` has the fields of `RunStartData`. -/
abbrev RunResumeData := RunStartData

def RunStartData.codec : Codec RunStartData :=
  .struct [
    string.opt "profile_snapshot_id" (·.profileSnapshotID),
    string.opt "capability_snapshot_id" (·.capabilitySnapshotID),
    string.opt "composition_revision" (·.compositionRevision),
    string.opt "assignment_revision" (·.assignmentRevision),
    RunCompositionData.ptrCodec.opt "composition" (·.composition)] mk

structure RunEndData where
  status : RunStatus
  deriving DecidableEq

def RunEndData.codec : Codec RunEndData :=
  .struct [RunStatus.codec.tag "status" (·.status)] mk

structure RuntimeErrorData where
  code : GoString
  message : GoString
  retryable : Bool
  deriving DecidableEq

def RuntimeErrorData.codec : Codec RuntimeErrorData :=
  .struct [
    string.tag "code" (·.code),
    string.tag "message" (·.message),
    bool.tag "retryable" (·.retryable)] mk

/-- `RunUsageData`, one reported usage contribution.  An empty invocation id is a
legacy additive event. -/
structure RunUsageData where
  inputTokens : Int64
  outputTokens : Int64
  invocationID : GoString
  deriving DecidableEq

def RunUsageData.codec : Codec RunUsageData :=
  .struct [
    int64.tag "input_tokens" (·.inputTokens),
    int64.tag "output_tokens" (·.outputTokens),
    string.opt "invocation_id" (·.invocationID)] mk

structure StepData where
  index : Int64
  deriving DecidableEq

def StepData.codec : Codec StepData :=
  .struct [int64.tag "index" (·.index)] mk

structure UserMessageData where
  text : GoString
  deriving DecidableEq

/-- `AssistantChunkData` has the field of `UserMessageData`. -/
abbrev AssistantChunkData := UserMessageData

def UserMessageData.codec : Codec UserMessageData :=
  .struct [string.tag "text" (·.text)] mk

/-- `AssistantMessageData`, one complete model message. -/
structure AssistantMessageData where
  text : GoString
  toolCall : Option ToolCall
  toolCalls : List ToolCall

def AssistantMessageData.codec : Codec AssistantMessageData :=
  .struct [
    string.tag "text" (·.text),
    ToolCall.ptrCodec.opt "tool_call" (·.toolCall),
    (slice ToolCall.codec).opt "tool_calls" (·.toolCalls)] mk

structure ToolCallData where
  callID : GoString
  name : GoString
  args : AnyMap

def ToolCallData.codec : Codec ToolCallData :=
  .struct [
    string.tag "call_id" (·.callID),
    string.tag "name" (·.name),
    (map .any).opt "args" (·.args)] mk

structure ToolResultData where
  callID : GoString
  content : GoString
  ok : Bool
  metadata : AnyMap

def ToolResultData.codec : Codec ToolResultData :=
  .struct [
    string.tag "call_id" (·.callID),
    string.tag "content" (·.content),
    bool.tag "ok" (·.ok),
    (map .any).opt "metadata" (·.metadata)] mk

structure ApprovalRequestedData where
  approvalID : GoString
  toolCall : ToolCall
  resumeCall : ToolCall
  remainingCalls : List ToolCall
  step : Int64
  fast : Bool
  expiresAt : Timestamp

/-- JSON of `ApprovalRequestedData`.  The `omitempty` of the time has no effect:
a struct is never empty. -/
def ApprovalRequestedData.codec : Codec ApprovalRequestedData :=
  .struct [
    string.tag "approval_id" (·.approvalID),
    ToolCall.codec.tag "tool_call" (·.toolCall),
    ToolCall.codec.tag "resume_call" (·.resumeCall),
    (slice ToolCall.codec).opt "remaining_calls" (·.remainingCalls),
    int64.tag "step" (·.step),
    bool.opt "fast" (·.fast),
    Timestamp.codec.opt "expires_at" (·.expiresAt)] mk

structure ApprovalResolvedData where
  approvalID : GoString
  callID : GoString
  decision : ApprovalDecision
  resolvedAt : Timestamp
  resolvedBy : GoString

def ApprovalResolvedData.codec : Codec ApprovalResolvedData :=
  .struct [
    string.tag "approval_id" (·.approvalID),
    string.tag "call_id" (·.callID),
    ApprovalDecision.codec.tag "decision" (·.decision),
    Timestamp.codec.tag "resolved_at" (·.resolvedAt),
    string.opt "resolved_by" (·.resolvedBy)] mk

/-- `ContextSummaryData`: the summary replaces the events from `start` to `stop`,
both included. -/
structure ContextSummaryData where
  op : GoString
  start : Int64
  stop : Int64
  summary : GoString
  deriving DecidableEq

def ContextSummaryData.codec : Codec ContextSummaryData :=
  .struct [
    string.tag "op" (·.op),
    int64.tag "start" (·.start),
    int64.tag "end" (·.stop),
    string.tag "summary" (·.summary)] mk

/-! ## Typed payloads -/

/-- A payload struct of one of the Go types the validators know. -/
inductive EventData where
  | runStart (data : RunStartData)
  | runResume (data : RunResumeData)
  | runEnd (data : RunEndData)
  | runtimeError (data : RuntimeErrorData)
  | runUsage (data : RunUsageData)
  | step (data : StepData)
  | userMessage (data : UserMessageData)
  | assistantMessage (data : AssistantMessageData)
  | assistantChunk (data : AssistantChunkData)
  | toolCall (data : ToolCallData)
  | toolResult (data : ToolResultData)
  | approvalRequested (data : ApprovalRequestedData)
  | approvalResolved (data : ApprovalResolvedData)
  | contextSummary (data : ContextSummaryData)

namespace EventData

/-- The struct of a payload, with its codec. -/
def coded : EventData → (α : Type) × Codec α × α
  | .runStart d | .runResume d => ⟨_, RunStartData.codec, d⟩
  | .runEnd d => ⟨_, RunEndData.codec, d⟩
  | .runtimeError d => ⟨_, RuntimeErrorData.codec, d⟩
  | .runUsage d => ⟨_, RunUsageData.codec, d⟩
  | .step d => ⟨_, StepData.codec, d⟩
  | .userMessage d | .assistantChunk d => ⟨_, UserMessageData.codec, d⟩
  | .assistantMessage d => ⟨_, AssistantMessageData.codec, d⟩
  | .toolCall d => ⟨_, ToolCallData.codec, d⟩
  | .toolResult d => ⟨_, ToolResultData.codec, d⟩
  | .approvalRequested d => ⟨_, ApprovalRequestedData.codec, d⟩
  | .approvalResolved d => ⟨_, ApprovalResolvedData.codec, d⟩
  | .contextSummary d => ⟨_, ContextSummaryData.codec, d⟩

def marshal (d : EventData) : Doc := d.coded.2.1.enc d.coded.2.2

/-- The Go type of the payload is the one the validator of the event expects. -/
def fits : EventData → SessionEventType → Bool
  | .runStart _, .runStart => true
  | .runResume _, .runResume => true
  | .runEnd _, .runEnd => true
  | .runtimeError _, .runError => true
  | .runtimeError _, .stepError => true
  | .runUsage _, .runUsage => true
  | .step _, .stepStart => true
  | .step _, .stepEnd => true
  | .userMessage _, .userMessage => true
  | .assistantMessage _, .assistantMessage => true
  | .assistantChunk _, .assistantChunk => true
  | .toolCall _, .toolCall => true
  | .toolResult _, .toolResult => true
  | .approvalRequested _, .approvalRequested => true
  | .approvalResolved _, .approvalResolved => true
  | .contextSummary _, .contextSummary => true
  | _, _ => false

/-- The payload survives its codec: no stray bytes, no empty scope, maps in
printing order. -/
def clean (d : EventData) : Bool := d.coded.2.1.ok d.coded.2.2

end EventData

/-- Decodes a stored payload into the struct its event expects. -/
def decodeEvent (kind : SessionEventType) (raw : RawMessage) : Option EventData :=
  match kind with
  | .runStart => (raw.decode RunStartData.codec).map .runStart
  | .runResume => (raw.decode RunStartData.codec).map .runResume
  | .runEnd => (raw.decode RunEndData.codec).map .runEnd
  | .runError => (raw.decode RuntimeErrorData.codec).map .runtimeError
  | .runUsage => (raw.decode RunUsageData.codec).map .runUsage
  | .stepStart => (raw.decode StepData.codec).map .step
  | .stepEnd => (raw.decode StepData.codec).map .step
  | .stepError => (raw.decode RuntimeErrorData.codec).map .runtimeError
  | .userMessage => (raw.decode UserMessageData.codec).map .userMessage
  | .assistantMessage => (raw.decode AssistantMessageData.codec).map .assistantMessage
  | .assistantChunk => (raw.decode UserMessageData.codec).map .assistantChunk
  | .toolCall => (raw.decode ToolCallData.codec).map .toolCall
  | .toolResult => (raw.decode ToolResultData.codec).map .toolResult
  | .approvalRequested => (raw.decode ApprovalRequestedData.codec).map .approvalRequested
  | .approvalResolved => (raw.decode ApprovalResolvedData.codec).map .approvalResolved
  | .contextSummary => (raw.decode ContextSummaryData.codec).map .contextSummary
  | .other _ => none

variable {kind : SessionEventType} {d : EventData}

/-- What is decoded is of the type the event expects. -/
theorem fits_of_decodeEvent {raw : RawMessage} (h : decodeEvent kind raw = some d) :
    d.fits kind := by
  cases kind <;> simp only [decodeEvent, map_eq_some_iff, reduceCtorEq] at h <;>
    (obtain ⟨_, _, rfl⟩ := h; rfl)

/-- A clean payload within the nesting depth survives storage. -/
theorem decodeEvent_marshal (fits : d.fits kind) (clean : d.clean)
    (shallow : d.marshal.depth ≤ maxNestingDepth) :
    decodeEvent kind (.ofDoc d.marshal) = some d := by
  cases d <;> cases kind <;> simp only [EventData.fits, reduceCtorEq] at fits <;>
    exact congrArg (Option.map _) (RawMessage.decode_ofDoc clean shallow)

/-- The data argument of `Append`: nothing, a payload struct by value or by
pointer, or any other Go value, known by the document `json.Marshal` writes for
it when it can. -/
inductive Payload where
  | absent
  | typed (data : EventData)
  | value (doc : Doc)
  | unencodable

/-- A stored event.  The wall-clock time of the source's event is left out:
nothing modelled here reads it. -/
structure SessionEvent where
  seq : ℕ
  runID : GoString
  kind : SessionEventType
  data : RawMessage

namespace SessionEvent

/-- The payload of the event, decoded into the struct it expects. -/
def payload (e : SessionEvent) : Option EventData := decodeEvent e.kind e.data

end SessionEvent

end AutoAgent
