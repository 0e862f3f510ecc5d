import AutoAgent.Core.Derive
import Mathlib.Data.Finmap

/-!
# Graph definitions

The declarative contract of a graph: its nodes, edges, state schema, limits and
redaction, with the bounds every part has to keep.  A text type of the source with a
fixed vocabulary is an inductive type here, with `other` for every text outside the
vocabulary; no check accepts one of those.

An error is the format of its text and the arguments of the format (`Message`).
-/

namespace AutoAgent.Graph

/-! ## Bounds -/

def maxDefinitionBytes : ℕ := 262144
def maxGraphIDBytes : ℕ := 128
def maxGraphVersionBytes : ℕ := 64
def maxNodeIDBytes : ℕ := 128
def maxNodeKindBytes : ℕ := 128
def maxNodes : ℕ := 128
def maxEdges : ℕ := 512
def maxStateFields : ℕ := 64
def maxStateFieldBytes : ℤ := 65536
def maxStateBytes : ℕ := 524288
def maxNodeConfigBytes : ℕ := 16384
def maxSteps : ℤ := 1024
def maxVisitsPerNode : ℤ := 128
def maxRetryAttempts : ℤ := 10
/-- `5 * time.Minute` in nanoseconds. -/
def maxNodeTimeout : ℤ := 300000000000
def reducerTopLevelJSONPatch : GoString := go "top-level-json-patch/v1"

/-! ## Messages -/

/-- A text as `fmt` writes it: the format and its arguments. -/
structure Message where
  format : String
  args : List GoString
  deriving DecidableEq

/-- A text inside another. -/
def Message.within (m : Message) (format : String) (args : List GoString) : Message :=
  ⟨format ++ m.format, args ++ m.args⟩

def bound (n : ℕ) : GoString := decimal n

/-! ## The contract -/

/-- `ApprovalDeniedPolicy`; the empty text is `unset`. -/
inductive ApprovalDeniedPolicy where
  | unset
  | failed
  | resumeWithDecision
  | other (text : GoString)
  deriving DecidableEq

inductive EdgeKind where
  | default
  | conditional
  | error
  | other (text : GoString)
  deriving DecidableEq

def EdgeKind.text : EdgeKind → GoString
  | .default => go "default"
  | .conditional => go "conditional"
  | .error => go "error"
  | .other text => text

inductive StateValueType where
  | string
  | number
  | boolean
  | object
  | array
  | other (text : GoString)
  deriving DecidableEq

def StateValueType.text : StateValueType → GoString
  | .string => go "string"
  | .number => go "number"
  | .boolean => go "boolean"
  | .object => go "object"
  | .array => go "array"
  | .other text => text

def StateValueType.known : StateValueType → Bool
  | .other _ => false
  | _ => true

structure StateField where
  name : GoString
  type : StateValueType
  required : Bool
  sensitive : Bool
  maxBytes : ℤ
  deriving DecidableEq

structure StateSchema where
  reducer : GoString
  reducerVersion : GoString
  fields : List StateField
  deriving DecidableEq

/-! ## Definitions -/

inductive LayerKind where
  | currentInput
  | requiredState
  | pendingApproval
  | recentHistory
  | summary
  | artifact
  | retrieval
  | other (text : GoString)
  deriving DecidableEq

def LayerKind.text : LayerKind → GoString
  | .currentInput => go "current_input"
  | .requiredState => go "required_state"
  | .pendingApproval => go "pending_approval"
  | .recentHistory => go "recent_history"
  | .summary => go "summary"
  | .artifact => go "artifact"
  | .retrieval => go "retrieval"
  | .other text => text

structure ContextView where
  stateFields : List GoString
  layers : List LayerKind
  deriving DecidableEq

structure ContextBudget where
  totalTokens : ℤ
  outputReserve : ℤ
  stablePrefixTokens : ℤ
  layerBudgets : Finmap fun _ : LayerKind => ℤ
  deriving DecidableEq

/-- `RetryPolicy`, the backoff in nanoseconds. -/
structure RetryPolicy where
  maxAttempts : ℤ
  backoff : ℤ
  deriving DecidableEq

/-- `NodeSpec`, the timeout in nanoseconds. -/
structure NodeSpec where
  id : GoString
  kind : GoString
  kindVersion : GoString
  config : List UInt8
  contextView : ContextView
  contextBudget : ContextBudget
  retry : RetryPolicy
  timeout : ℤ
  terminal : Bool
  usesSandbox : Bool
  approvalDeniedPolicy : ApprovalDeniedPolicy
  deriving DecidableEq

/-- `EdgeSpec`: from `source` to `target`. -/
structure EdgeSpec where
  source : GoString
  target : GoString
  kind : EdgeKind
  predicate : GoString
  predicateVersion : GoString
  deriving DecidableEq

structure Limits where
  maxSteps : ℤ
  maxVisitsPerNode : ℤ
  deriving DecidableEq

/-- `Definition`; the redaction is its list of state fields. -/
structure Definition where
  id : GoString
  version : GoString
  revision : GoString
  entryNode : GoString
  nodes : List NodeSpec
  edges : List EdgeSpec
  state : StateSchema
  limits : Limits
  redaction : List GoString
  deriving DecidableEq

/-! ## Identifiers -/

def validateIdentifier (value : GoString) (maximum : ℕ) (name : String) : Except Message Unit := do
  require (value ≠ .empty ∧ value.len ≤ maximum ∧ value.valid ∧ value.trimSpace = value)
    ⟨"%s is invalid", [go name]⟩
  require (!value.anyRune fun c => GoString.isUnicodeControl c || GoString.isSpace c)
    ⟨"%s contains a control or whitespace character", [go name]⟩

/-- An identifier that `validateIdentifier` accepts within a length. -/
def validName (value : GoString) (maximum : ℕ) : Bool :=
  value ≠ .empty ∧ value.len ≤ maximum ∧ value.valid ∧ value.trimSpace = value ∧
    !value.anyRune fun c => GoString.isUnicodeControl c || GoString.isSpace c

theorem validateIdentifier_eq_ok {value : GoString} {maximum : ℕ} {name : String} {u : Unit} :
    validateIdentifier value maximum name = .ok u ↔ validName value maximum := by
  simp [validateIdentifier, validName, bind_eq_ok, require_eq_ok, and_assoc]

end AutoAgent.Graph
