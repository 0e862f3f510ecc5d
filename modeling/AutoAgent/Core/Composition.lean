import AutoAgent.Core.Types

/-!
# Run composition

The durable recipe of a run: the profile, the capabilities with their manifests,
the effective permissions, the model and the assignment metadata, each with the
codec of its Go struct.  A codec lists the fields in the order of the source,
with the JSON names and the `omitempty` marks of the source.

`CompositionRevision` digests the JSON text of a copy of the composition whose
profile time is cleared and whose false permissions are dropped; the digest is
SHA-256 in hexadecimal, computed where compositions are validated.
-/

namespace AutoAgent

open Codec (bool int64 map slice string)

/-- The listing of a `map[string]any`. -/
abbrev AnyMap := List (GoString × GoAny)

structure ToolExposure where
  description : GoString
  parameters : AnyMap

def ToolExposure.codec : Codec ToolExposure :=
  .struct [string.opt "description" (·.description), (map .any).opt "parameters" (·.parameters)] mk

/-- `SandboxPolicy`; its one field has no JSON tag. -/
structure SandboxPolicy where
  mode : GoString

def SandboxPolicy.codec : Codec SandboxPolicy :=
  .struct [string.tag "Mode" (·.mode)] mk

structure ExecutionSpec where
  runtime : GoString
  entrypoint : GoString
  workdir : GoString
  sandbox : SandboxPolicy
  writes : Bool
  method : GoString
  headers : List (GoString × GoString)

def ExecutionSpec.codec : Codec ExecutionSpec :=
  .struct [
    string.tag "runtime" (·.runtime),
    string.tag "entrypoint" (·.entrypoint),
    string.opt "workdir" (·.workdir),
    SandboxPolicy.codec.tag "sandbox" (·.sandbox),
    bool.opt "writes" (·.writes),
    string.opt "method" (·.method),
    (map .string).opt "headers" (·.headers)] mk

/-- `CapabilityManifest`, the stable declaration of a capability. -/
structure CapabilityManifest where
  id : GoString
  version : GoString
  name : GoString
  description : GoString
  kind : GoString
  contract : GoString
  requiredPermissions : List GoString
  requiredCredentials : List GoString
  inputSchema : AnyMap
  outputSchema : AnyMap
  maxOutputBytes : Int64
  perTurnBudget : Int64
  timeoutMs : Int64
  idempotent : Bool
  requiresApproval : Bool
  tool : Option ToolExposure
  execution : Option ExecutionSpec
  metadata : List (GoString × GoString)

def ToolExposure.ptrCodec : Codec (Option ToolExposure) :=
  ToolExposure.codec.ptr fun _ => structDoc_ne_null _

def ExecutionSpec.ptrCodec : Codec (Option ExecutionSpec) :=
  ExecutionSpec.codec.ptr fun _ => structDoc_ne_null _

def CapabilityManifest.codec : Codec CapabilityManifest :=
  .struct [
    string.tag "id" (·.id),
    string.tag "version" (·.version),
    string.tag "name" (·.name),
    string.opt "description" (·.description),
    string.tag "kind" (·.kind),
    string.opt "contract" (·.contract),
    (slice .string).opt "required_permissions" (·.requiredPermissions),
    (slice .string).opt "required_credentials" (·.requiredCredentials),
    (map .any).opt "input_schema" (·.inputSchema),
    (map .any).opt "output_schema" (·.outputSchema),
    int64.opt "max_output_bytes" (·.maxOutputBytes),
    int64.opt "per_turn_budget" (·.perTurnBudget),
    int64.opt "timeout_ms" (·.timeoutMs),
    bool.opt "idempotent" (·.idempotent),
    bool.opt "requires_approval" (·.requiresApproval),
    ToolExposure.ptrCodec.opt "tool" (·.tool),
    ExecutionSpec.ptrCodec.opt "execution" (·.execution),
    (map .string).opt "metadata" (·.metadata)] mk

structure SnapshotCapability where
  manifest : CapabilityManifest
  source : ScopePath
  providerRevision : GoString

def SnapshotCapability.codec : Codec SnapshotCapability :=
  .struct [
    CapabilityManifest.codec.tag "manifest" (·.manifest),
    ScopePath.codec.tag "source" (·.source),
    string.opt "provider_revision" (·.providerRevision)] mk

structure ModelSelection where
  provider : GoString
  model : GoString
  deriving DecidableEq

def ModelSelection.codec : Codec ModelSelection :=
  .struct [string.tag "provider" (·.provider), string.tag "model" (·.model)] mk

/-- `ResolvedPromptFragment` with its embedded `PromptFragment`. -/
structure ResolvedPromptFragment where
  id : GoString
  section_ : GoString
  content : GoString
  priority : Int64
  source : ScopePath

def ResolvedPromptFragment.codec : Codec ResolvedPromptFragment :=
  .struct [
    string.tag "id" (·.id),
    string.tag "section" (·.section_),
    string.tag "content" (·.content),
    int64.opt "priority" (·.priority),
    ScopePath.codec.tag "source" (·.source)] mk

structure AgentProfileSnapshot where
  id : GoString
  profileID : GoString
  createdAt : Timestamp
  scope : ScopePath
  name : GoString
  description : GoString
  model : ModelSelection
  maxSteps : Int64
  maxToolCalls : Int64
  capabilities : List GoString
  fragments : List ResolvedPromptFragment
  metadata : List (GoString × GoString)

def AgentProfileSnapshot.codec : Codec AgentProfileSnapshot :=
  .struct [
    string.tag "id" (·.id),
    string.tag "profile_id" (·.profileID),
    Timestamp.codec.tag "created_at" (·.createdAt),
    ScopePath.codec.tag "scope" (·.scope),
    string.tag "name" (·.name),
    string.opt "description" (·.description),
    ModelSelection.codec.tag "model" (·.model),
    int64.tag "max_steps" (·.maxSteps),
    int64.opt "max_tool_calls" (·.maxToolCalls),
    (slice .string).tag "capabilities" (·.capabilities),
    (slice ResolvedPromptFragment.codec).tag "fragments" (·.fragments),
    (map .string).opt "metadata" (·.metadata)] mk

structure RunCompositionData where
  profile : AgentProfileSnapshot
  capabilities : List SnapshotCapability
  effectivePermissions : List (GoString × Bool)
  model : ModelSelection
  resolvedProvider : GoString
  modelRevision : GoString
  maxSteps : Int64
  maxToolCalls : Int64
  metadata : List (GoString × GoString)

def RunCompositionData.codec : Codec RunCompositionData :=
  .struct [
    AgentProfileSnapshot.codec.tag "profile" (·.profile),
    (slice SnapshotCapability.codec).tag "capabilities" (·.capabilities),
    (map .bool).opt "effective_permissions" (·.effectivePermissions),
    ModelSelection.codec.tag "model" (·.model),
    string.opt "resolved_provider" (·.resolvedProvider),
    string.opt "model_revision" (·.modelRevision),
    int64.tag "max_steps" (·.maxSteps),
    int64.tag "max_tool_calls" (·.maxToolCalls),
    (map .string).opt "metadata" (·.metadata)] mk

def RunCompositionData.ptrCodec : Codec (Option RunCompositionData) :=
  RunCompositionData.codec.ptr fun _ => structDoc_ne_null _

end AutoAgent
