import AutoAgent.Core.Validate

/-!
# Messages projected from events

A session log is turned into the provider-neutral messages of a model request
one event at a time.  There are two projections of one event: `projectEvent`
decodes the stored text, and `projectCommittedData` reads the struct a caller
just appended, so that the live session can extend its cache without decoding.
They agree on a payload that survives its codec.
-/

namespace AutoAgent

inductive ChatRole where
  | user | assistant | tool
  deriving DecidableEq, Repr

/-- `ContextProvenance`, present on summaries. -/
structure ContextProvenance where
  kind : GoString
  sourceStart : Int64
  sourceEnd : Int64
  revision : GoString
  deriving DecidableEq

/-- `ChatMessage`.  `sourceSeq` is the log event the message derives from. -/
structure ChatMessage where
  role : ChatRole
  content : GoString
  toolCall : Option ToolCall
  toolCalls : List ToolCall
  toolCallID : GoString
  sourceSeq : ℕ
  provenance : Option ContextProvenance

/-- `cloneToolCall`: the arguments are copied through JSON. -/
def cloneToolCall (call : ToolCall) : ToolCall := { call with args := cloneMap call.args }

variable (m : ChatMessage)

def cloneChatMessage : ChatMessage :=
  { m with
    toolCall := m.toolCall.map cloneToolCall
    toolCalls := m.toolCalls.map cloneToolCall }

def cloneChatMessages (ms : List ChatMessage) : List ChatMessage := ms.map cloneChatMessage

@[simp] theorem cloneChatMessage_role : (cloneChatMessage m).role = m.role := rfl

@[simp] theorem cloneChatMessage_content :
    (cloneChatMessage m).content = m.content := rfl

@[simp] theorem cloneChatMessage_sourceSeq :
    (cloneChatMessage m).sourceSeq = m.sourceSeq := rfl

def userMessage (content : GoString) (seq : ℕ) : ChatMessage :=
  ⟨.user, content, none, [], .empty, seq, none⟩

def toolMessage (data : ToolResultData) (seq : ℕ) : ChatMessage :=
  ⟨.tool, data.content, none, [], data.callID, seq, none⟩

/-- An assistant message as `projectEvent` builds it. -/
def assistantMessage (data : AssistantMessageData) (seq : ℕ) : ChatMessage :=
  ⟨.assistant, data.text, data.toolCall, data.calls, .empty, seq, none⟩

def modelVisibleEvent (e : SessionEvent) : Bool :=
  e.kind == .userMessage || e.kind == .assistantMessage || e.kind == .toolResult

/-- The message of a payload of the type its event expects. -/
def projectData (seq : ℕ) : EventData → Option ChatMessage
  | .userMessage d => some (userMessage d.text seq)
  | .assistantMessage d => some (assistantMessage d seq)
  | .toolResult d => some (toolMessage d seq)
  | _ => none

/-- `projectEvent`: only the three visible types are decoded. -/
def projectEvent (e : SessionEvent) : Option ChatMessage :=
  match e.kind with
  | .userMessage | .assistantMessage | .toolResult => e.payload.bind (projectData e.seq)
  | _ => none

/-- The three results of `projectCommittedData`: a message, an event of a visible
type whose payload is not the expected struct, and an event of another type. -/
inductive Committed where
  | message (m : ChatMessage)
  | undecided
  | invisible

def projectCommittedData (kind : SessionEventType) (data : Payload) (seq : ℕ) : Committed :=
  match kind, data with
  | .userMessage, .typed (.userMessage d) => .message (userMessage d.text seq)
  | .assistantMessage, .typed (.assistantMessage d) =>
    .message (assistantMessage
      { d with
        toolCall := d.toolCall.map cloneToolCall
        toolCalls := d.toolCalls.map cloneToolCall } seq)
  | .toolResult, .typed (.toolResult d) => .message (toolMessage d seq)
  | .userMessage, _ | .assistantMessage, _ | .toolResult, _ => .undecided
  | _, _ => .invisible

end AutoAgent
