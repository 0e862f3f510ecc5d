import AutoAgent.Core.Queries

/-!
# Principals and tool invocations

The identity of one guarded provider call: who makes it, in which run, under
which call id, for which capability and with which arguments.  The arguments
enter as the SHA-256 digest of their JSON text.
-/

namespace AutoAgent

open Codec (bool map string)

structure Principal where
  subjectID : GoString
  tenantID : GoString
  scope : ScopePath
  grants : List (GoString × Bool)
  attributes : List (GoString × GoString)

def Principal.codec : Codec Principal :=
  .struct [
    string.tag "subject_id" (·.subjectID),
    string.tag "tenant_id" (·.tenantID),
    ScopePath.codec.tag "scope" (·.scope),
    (map .bool).tag "grants" (·.grants),
    (map .string).opt "attributes" (·.attributes)] mk

def CapabilityResult.codec : Codec CapabilityResult :=
  .struct [
    string.tag "content" (·.content),
    bool.tag "ok" (·.ok),
    (map .any).opt "metadata" (·.metadata)] mk

def hardMaxCapabilityOutputBytes : ℕ := 16 * 2 ^ 20

/-! ## Invocations -/

/-- `ToolInvocation`, the immutable identity of one guarded call. -/
structure ToolInvocation where
  tenantID : GoString
  subjectID : GoString
  sessionID : GoString
  runID : GoString
  callID : GoString
  capabilityID : GoString
  argsDigest : GoString
  idempotent : Bool
  deriving DecidableEq

/-- The errors of building an invocation, one constructor per error path. -/
inductive InvocationError where
  /-- `session id %q must be 1-128 characters ...` -/
  | invalidSessionID (sessionID : GoString)
  /-- the error of `ValidateRunID` or `validateToolCallID` -/
  | identifier (cause : SessionError)
  /-- `id %q must be a namespaced id ...` -/
  | invalidCapabilityID (id : GoString)
  /-- `tool invocation tenant id is empty, too long, or contains control characters` -/
  | invalidTenantID
  /-- `tool invocation subject id is empty, too long, or contains control characters` -/
  | invalidSubjectID
  /-- `tool invocation args digest is not SHA-256` -/
  | digestLength
  /-- `tool invocation args digest is invalid: %w` -/
  | digestInvalid

/-- An owner id that `ValidateToolInvocation` accepts. -/
def ownerIDAcceptable (value : GoString) : Bool :=
  !value.isBlank && decide (value.len ≤ 512) &&
    !value.anyRune (fun c => c == '\r' || c == '\n' || c == '\x00')

/-- `ValidateToolInvocation`.  The owner ids are checked in the order of a Go
map, so either may be reported when both are refused. -/
def validateToolInvocation (i : ToolInvocation) : Except InvocationError Unit := do
  if !runIDPattern i.sessionID then throw (.invalidSessionID i.sessionID)
  (validateRunID i.runID).mapError .identifier
  (validateToolCallID i.callID).mapError .identifier
  if !validNamespacedID i.capabilityID then throw (.invalidCapabilityID i.capabilityID)
  if !ownerIDAcceptable i.tenantID then throw .invalidTenantID
  if !ownerIDAcceptable i.subjectID then throw .invalidSubjectID
  if i.argsDigest.len ≠ 64 then throw .digestLength
  if !i.argsDigest.allRunes isHex then throw .digestInvalid

/-- The document of the arguments; a nil map is written as an empty object. -/
def argsDoc (args : AnyMap) : Doc :=
  if args.isEmpty then .obj [] else (map .any).enc args

/-- `NewToolInvocation`, of the run, the call and the caller. -/
def newToolInvocation (runID sessionID : GoString) (principal : Principal) (call : ToolCall)
    (idempotent : Bool) : Except InvocationError ToolInvocation := do
  let invocation : ToolInvocation :=
    { tenantID := principal.tenantID
      subjectID := principal.subjectID
      sessionID
      runID
      callID := call.id
      capabilityID := call.name
      argsDigest := digestDoc (argsDoc call.args)
      idempotent }
  validateToolInvocation invocation
  return invocation

/-! ## Approval requests -/

/-- `ApprovalRequest`, one call that waits for a decision. -/
structure ApprovalRequest where
  runID : GoString
  sessionID : GoString
  principal : Principal
  toolCall : ToolCall
  manifest : CapabilityManifest

def ApprovalRequest.codec : Codec ApprovalRequest :=
  .struct [
    string.tag "run_id" (·.runID),
    string.tag "session_id" (·.sessionID),
    Principal.codec.tag "principal" (·.principal),
    ToolCall.codec.tag "tool_call" (·.toolCall),
    CapabilityManifest.codec.tag "manifest" (·.manifest)] mk

end AutoAgent
