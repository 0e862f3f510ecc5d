import AutoAgent.Graph.Checkpoint
import AutoAgent.Lib.Digraph

/-!
# Validation of graph definitions

`ValidateDefinition` measures a definition roughly, checks it against the registries, brings
it into canonical form, and freezes it under a revision: the digest of its encoding.

A map of the source that is filled by a loop over a slice is the list of what the loop has
seen so far; a loop over a map leaves open which entry its error names.  Sums of sizes and
token budgets are far below the bounds of machine integers.
-/

namespace AutoAgent.Graph

def maxContextTotalTokens : ℤ := 1000000
def maxContextSourceTokens : ℤ := 1000000
def maxContextViewLayers : ℕ := 7
def maxContextStateFields : ℕ := 64
def maxContextIDBytes : ℕ := 256
def maxContextViewBytes : ℕ := 16384

/-- The registries of node kinds, reducers and predicates: the version of each id. -/
structure Registries where
  nodeKinds : GoString → Option GoString
  reducers : GoString → Option GoString
  predicates : GoString → Option GoString

/-! ## Rough sizes -/

/-- `addBoundedBytes` of `preflightDefinition`. -/
def addBytes (size amount : ℕ) : Except Message ℕ := do
  require (size + amount ≤ maxDefinitionBytes)
    ⟨"rough definition size exceeds %d bytes", [bound maxDefinitionBytes]⟩
  return size + amount

/-- What a node adds to the rough size. -/
def NodeSpec.amounts (node : NodeSpec) : List ℕ :=
  [node.id.len, node.kind.len, node.kindVersion.len, node.config.length, 64] ++
    node.contextView.stateFields.map GoString.len ++ node.contextView.layers.map (·.text.len) ++
    [(node.contextBudget.layerBudgets.entries.map fun e => e.1.text.len + 24).sum]

/-- What an edge adds to it. -/
def EdgeSpec.amounts (edge : EdgeSpec) : List ℕ :=
  [edge.source.len, edge.target.len, edge.kind.text.len, edge.predicate.len,
    edge.predicateVersion.len, 16]

/-- What a state field adds to it. -/
def StateField.amounts (field : StateField) : List ℕ := [field.name.len, field.type.text.len, 24]

/-- The counts of a node that are checked before anything is copied. -/
def preflightNode (size : ℕ) (node : NodeSpec) : Except Message ℕ := do
  require (node.config.length ≤ maxNodeConfigBytes)
    ⟨"node config exceeds %d bytes", [bound maxNodeConfigBytes]⟩
  require (node.contextView.stateFields.length ≤ maxContextStateFields ∧
    node.contextView.layers.length ≤ maxContextViewLayers ∧
    node.contextBudget.layerBudgets.keys.card ≤ maxContextViewLayers)
    ⟨"node context selection exceeds its bounded contract", []⟩
  node.amounts.foldlM addBytes size

def preflightDefinition (d : Definition) : Except Message Unit := do
  require (0 < d.nodes.length ∧ d.nodes.length ≤ maxNodes)
    ⟨"node count must be between 1 and %d", [bound maxNodes]⟩
  require (d.edges.length ≤ maxEdges) ⟨"edge count exceeds %d", [bound maxEdges]⟩
  require (d.state.fields.length ≤ maxStateFields ∧ d.redaction.length ≤ maxStateFields)
    ⟨"state or redaction field count exceeds %d", [bound maxStateFields]⟩
  let size ← [d.id.len, d.version.len, d.revision.len, d.entryNode.len, d.state.reducer.len,
    d.state.reducerVersion.len].foldlM addBytes 0
  let size ← d.nodes.foldlM preflightNode size
  let size ← (d.edges.flatMap EdgeSpec.amounts).foldlM addBytes size
  let size ← (d.state.fields.flatMap StateField.amounts).foldlM addBytes size
  let _ ← (d.redaction.map GoString.len).foldlM addBytes size

/-! ## Encoding -/

/-- A string as `json.Marshal` writes it. -/
def strDoc (s : GoString) : Doc := .str s.quote

/-- A slice; nil when it is empty. -/
def sliceDoc (ds : List Doc) : Doc := if ds.isEmpty then .null else .arr ds

/-- A field with `omitempty`. -/
def omitWhen (omitted : Bool) (name : String) (d : Doc) : FieldDoc :=
  ⟨name, if omitted then none else some d⟩

def ContextView.doc (view : ContextView) : Doc :=
  structDoc [omitWhen view.stateFields.isEmpty "state_fields" (.arr (view.stateFields.map strDoc)),
    omitWhen view.layers.isEmpty "layers" (.arr (view.layers.map (strDoc ·.text)))]

/-- The layers, in the order of their texts. -/
def sortedLayers : List LayerKind :=
  [.artifact, .currentInput, .pendingApproval, .recentHistory, .requiredState, .retrieval, .summary]

/-- `validLayer`. -/
def LayerKind.known : LayerKind → Bool
  | .other _ => false
  | _ => true

/-- A `ContextBudget` whose layers are known. -/
def ContextBudget.doc (budget : ContextBudget) : Doc :=
  structDoc [⟨"total_tokens", some (.int budget.totalTokens)⟩,
    ⟨"output_reserve", some (.int budget.outputReserve)⟩,
    ⟨"stable_prefix_tokens", some (.int budget.stablePrefixTokens)⟩,
    ⟨"layer_budgets", some (.obj (sortedLayers.filterMap fun layer =>
      (budget.layerBudgets.lookup layer).map fun tokens => (layer.text.quote, .int tokens)))⟩]

def ApprovalDeniedPolicy.text : ApprovalDeniedPolicy → GoString
  | .unset => .empty
  | .failed => go "failed"
  | .resumeWithDecision => go "resume_with_decision"
  | .other text => text

/-- A `NodeSpec`; its config is in canonical form, which is copied. -/
def NodeSpec.doc (node : NodeSpec) : Doc :=
  structDoc [⟨"id", some (strDoc node.id)⟩, ⟨"kind", some (strDoc node.kind)⟩,
    ⟨"kind_version", some (strDoc node.kindVersion)⟩,
    omitWhen node.config.isEmpty "config" ((Json.parse node.config).getD .null),
    ⟨"context_view", some node.contextView.doc⟩, ⟨"context_budget", some node.contextBudget.doc⟩,
    ⟨"retry", some (structDoc [
      omitWhen (decide (node.retry.maxAttempts = 0)) "max_attempts" (.int node.retry.maxAttempts),
      omitWhen (decide (node.retry.backoff = 0)) "backoff" (.int node.retry.backoff)])⟩,
    ⟨"timeout", some (.int node.timeout)⟩, ⟨"terminal", some (.bool node.terminal)⟩,
    ⟨"uses_sandbox", some (.bool node.usesSandbox)⟩,
    omitWhen (decide (node.approvalDeniedPolicy = .unset)) "approval_denied_policy"
      (strDoc node.approvalDeniedPolicy.text)]

def EdgeSpec.doc (edge : EdgeSpec) : Doc :=
  structDoc [⟨"from", some (strDoc edge.source)⟩, ⟨"to", some (strDoc edge.target)⟩,
    ⟨"kind", some (strDoc edge.kind.text)⟩,
    omitWhen (decide (edge.predicate = .empty)) "predicate" (strDoc edge.predicate),
    omitWhen (decide (edge.predicateVersion = .empty)) "predicate_version"
      (strDoc edge.predicateVersion)]

def StateField.doc (field : StateField) : Doc :=
  structDoc [⟨"name", some (strDoc field.name)⟩, ⟨"type", some (strDoc field.type.text)⟩,
    omitWhen (!field.required) "required" (.bool true),
    omitWhen (!field.sensitive) "sensitive" (.bool true), ⟨"max_bytes", some (.int field.maxBytes)⟩]

/-- A `Definition` without its revision. -/
def Definition.doc (d : Definition) : Doc :=
  structDoc [⟨"id", some (strDoc d.id)⟩, ⟨"version", some (strDoc d.version)⟩,
    ⟨"entry_node", some (strDoc d.entryNode)⟩,
    ⟨"nodes", some (sliceDoc (d.nodes.map NodeSpec.doc))⟩,
    ⟨"edges", some (sliceDoc (d.edges.map EdgeSpec.doc))⟩,
    ⟨"state", some (structDoc [⟨"reducer", some (strDoc d.state.reducer)⟩,
      ⟨"reducer_version", some (strDoc d.state.reducerVersion)⟩,
      ⟨"fields", some (sliceDoc (d.state.fields.map StateField.doc))⟩])⟩,
    ⟨"limits", some (structDoc [⟨"max_steps", some (.int d.limits.maxSteps)⟩,
      omitWhen (decide (d.limits.maxVisitsPerNode = 0)) "max_visits_per_node"
        (.int d.limits.maxVisitsPerNode)])⟩,
    ⟨"redaction", some (structDoc [
      omitWhen d.redaction.isEmpty "state_fields" (.arr (d.redaction.map strDoc))])⟩]

def textString (bytes : List UInt8) : GoString :=
  match String.fromUTF8? bytes.toByteArray with
  | some s => go s
  | none => ⟨bytes.map .invalid⟩

def definitionRevision (digest : Digest) (d : Definition) : Except Message GoString := do
  let encoded := Json.text d.doc
  require (encoded.length ≤ maxDefinitionBytes)
    ⟨"canonical definition exceeds %d bytes", [bound maxDefinitionBytes]⟩
  return digest.sum (textString encoded)

/-! ## Contexts -/

def validateContextName (value : GoString) (maximum : ℕ) (label : String) :
    Except Message Unit := do
  require (value ≠ .empty) ⟨"%s is required", [go label]⟩
  require (value.len ≤ maximum) ⟨"%s exceeds %d bytes", [go label, bound maximum]⟩
  require value.valid ⟨"%s is not valid UTF-8", [go label]⟩
  require (!containsControl value) ⟨"%s contains a control character", [go label]⟩
  require (!value.anyRune GoString.isSpace) ⟨"%s contains whitespace", [go label]⟩

/-- `isWildcardName`; only A to Z have the letters of these words as their lower case. -/
def isWildcardName (value : GoString) : Bool :=
  let lower : GoString := ⟨value.trimSpace.runes.map fun
    | .rune c => .rune (if 'A' ≤ c ∧ c ≤ 'Z' then Char.ofNat (c.toNat + 32) else c)
    | .invalid b => .invalid b⟩
  decide (lower ∈ [.empty, go "*", go "all", go "global", go "all_state", go "global_state"])

def selectField (seen : List GoString) (field : GoString) : Except Message (List GoString) := do
  validateContextName field maxContextIDBytes "state field"
  require (!(field.anyRune (fun c => c == '*' || c == '?') || isWildcardName field))
    ⟨"state field %q is not explicit", [field]⟩
  require (∀ other ∈ seen, other ≠ field) ⟨"duplicate state field %q", [field]⟩
  return seen ++ [field]

def selectLayer (seen : List LayerKind) (layer : LayerKind) : Except Message (List LayerKind) := do
  require (layer.known ∧ !isWildcardName layer.text)
    ⟨"unsupported or wildcard layer %q", [layer.text]⟩
  require (∀ other ∈ seen, other ≠ layer) ⟨"duplicate layer %q", [layer.text]⟩
  return seen ++ [layer]

def validateContextView (view : ContextView) : Except Message Unit := do
  require (view.stateFields.length ≤ maxContextStateFields) ⟨"too many state fields", []⟩
  require (view.layers.length ≤ maxContextViewLayers) ⟨"too many layers", []⟩
  let _ ← view.stateFields.foldlM selectField []
  let layers ← view.layers.foldlM selectLayer []
  require (view.stateFields = [] ∨ .requiredState ∈ layers)
    ⟨"state fields require the required_state layer", []⟩
  require (view.doc.size ≤ maxContextViewBytes)
    ⟨"encoded view exceeds %d bytes", [bound maxContextViewBytes]⟩

def validateContextBudget (budget : ContextBudget) : Except Message Unit := do
  require (0 ≤ budget.totalTokens ∧ budget.totalTokens ≤ maxContextTotalTokens)
    ⟨"total tokens out of range", []⟩
  require (0 ≤ budget.outputReserve ∧ 0 ≤ budget.stablePrefixTokens) ⟨"negative token budget", []⟩
  require (budget.outputReserve ≤ budget.totalTokens) ⟨"output reserve exceeds total tokens", []⟩
  require (budget.stablePrefixTokens ≤ budget.totalTokens - budget.outputReserve)
    ⟨"stable prefix exceeds input budget", []⟩
  require (budget.layerBudgets.keys.card ≤ maxContextViewLayers) ⟨"too many layer budgets", []⟩
  require (∀ e ∈ budget.layerBudgets.entries, e.1.known = true) ⟨"unsupported layer budget %q", []⟩
  require (∀ e ∈ budget.layerBudgets.entries, 0 ≤ e.2 ∧ e.2 ≤ maxContextSourceTokens)
    ⟨"layer %q token budget out of range", []⟩
  require ((budget.layerBudgets.entries.map fun e => e.2).sum ≤
    budget.totalTokens - budget.outputReserve)
    ⟨"layer budgets plus output reserve exceed total tokens", []⟩

def validateContext (view : ContextView) (budget : ContextBudget) (fields : List StateField) :
    Except Message Unit := do
  (validateContextView view).mapError (·.within "context view: invalid context view: " [])
  (validateContextBudget budget).mapError (·.within "context budget: invalid context budget: " [])
  require (.currentInput ∈ view.layers ∧ 0 < (budget.layerBudgets.lookup .currentInput).getD 0)
    ⟨"context view requires current_input with a positive budget", []⟩
  view.stateFields.forM fun name => do
    validateIdentifier name maxNodeIDBytes "context required state field"
    require (fieldOf fields name).isSome ⟨"context state field %q is not declared", [name]⟩
  require (∀ field ∈ fields, field.required → field.name ∈ view.stateFields)
    ⟨"context view must include required state field %q", []⟩

/-! ## Parts of a definition -/

def canonicalJSON (raw : RawJSON) : Except Message RawJSON := do
  require (!raw.isEmpty && Json.validUTF8 raw) ⟨"invalid JSON", []⟩
  match Json.parse raw with
  | none => .error ⟨"invalid JSON", []⟩
  | some d => return Json.text (Json.canonical d)

/-- The bounds of a node that do not depend on anything else. -/
def NodeSpec.bounded (node : NodeSpec) : Except Message Unit := do
  require (0 ≤ node.retry.maxAttempts ∧ node.retry.maxAttempts ≤ maxRetryAttempts ∧
    0 ≤ node.retry.backoff ∧ node.retry.backoff ≤ maxNodeTimeout)
    ⟨"retry policy is out of bounds", []⟩
  require (0 < node.timeout ∧ node.timeout ≤ maxNodeTimeout)
    ⟨"timeout must be positive and at most %s", [go "5m0s"]⟩
  match node.approvalDeniedPolicy with
  | .unset | .failed | .resumeWithDecision => return ()
  | .other _ => .error ⟨"invalid approval denied policy", []⟩

/-- A registered id has the registered version. -/
def registered (registry : GoString → Option GoString) (id version : GoString) (name : String) :
    Except Message Unit := do
  match registry id with
  | none => .error ⟨name ++ " %q is not registered", [id]⟩
  | some current =>
    require (current = version)
      ⟨name ++ " %q version %q does not match registered version %q", [id, version, current]⟩

variable (reg : Registries)

def validateNode (fields : List StateField) (node : NodeSpec) :
    Except Message Unit := do
  validateIdentifier node.id maxNodeIDBytes "node id"
  validateIdentifier node.kind maxNodeKindBytes "node kind"
  require (reg.nodeKinds node.kind).isSome ⟨"node kind %q is not registered", [node.kind]⟩
  validateIdentifier node.kindVersion maxGraphVersionBytes "node kind version"
  registered reg.nodeKinds node.kind node.kindVersion "node kind"
  require (node.config.length ≤ maxNodeConfigBytes)
    ⟨"node config exceeds %d bytes", [bound maxNodeConfigBytes]⟩
  if node.config ≠ [] then
    let _ ← (canonicalJSON node.config).mapError (·.within "node config: " [])
  validateContext node.contextView node.contextBudget fields
  node.bounded

/-- The keys of the map of nodes. -/
def ids (nodes : List NodeSpec) : List GoString := nodes.map NodeSpec.id

def validateEdge (nodes : List NodeSpec) (edge : EdgeSpec) :
    Except Message Unit := do
  validateIdentifier edge.source maxNodeIDBytes "edge from"
  validateIdentifier edge.target maxNodeIDBytes "edge to"
  require (edge.source ∈ ids nodes) ⟨"source node %q does not exist", [edge.source]⟩
  require (edge.target ∈ ids nodes) ⟨"target node %q does not exist", [edge.target]⟩
  match edge.kind with
  | .default | .error =>
    require (edge.predicate = .empty ∧ edge.predicateVersion = .empty)
      ⟨"%s edge cannot name a predicate or predicate version", [edge.kind.text]⟩
  | .conditional => do
      validateIdentifier edge.predicate maxNodeKindBytes "edge predicate"
      validateIdentifier edge.predicateVersion maxGraphVersionBytes "edge predicate version"
      registered reg.predicates edge.predicate edge.predicateVersion "predicate"
  | .other text => .error ⟨"edge kind %q is invalid", [text]⟩

def validateStateSchema (schema : StateSchema) :
    Except Message (List StateField) := do
  validateIdentifier schema.reducer maxNodeKindBytes "state reducer"
  validateIdentifier schema.reducerVersion maxGraphVersionBytes "state reducer version"
  registered reg.reducers schema.reducer schema.reducerVersion "state reducer"
  indexStateFields schema

def redactField (fields : List StateField) (seen : List GoString) (name : GoString) :
    Except Message (List GoString) := do
  validateIdentifier name maxNodeIDBytes "redacted state field"
  require (fieldOf fields name).isSome ⟨"redacted state field %q is not declared", [name]⟩
  require (∀ other ∈ seen, other ≠ name) ⟨"redacted state field %q is duplicate", [name]⟩
  return seen ++ [name]

def validateRedaction (redaction : List GoString) (fields : List StateField) :
    Except Message Unit := do
  require (redaction.length ≤ maxStateFields)
    ⟨"redaction field count exceeds %d", [bound maxStateFields]⟩
  let seen ← redaction.foldlM (redactField fields) []
  require (∀ field ∈ fields, field.sensitive → field.name ∈ seen)
    ⟨"sensitive state field %q must be redacted", []⟩

def validateLimits (limits : Limits) : Except Message Unit := do
  require (0 < limits.maxSteps ∧ limits.maxSteps ≤ maxSteps)
    ⟨"max_steps must be between 1 and %d", [bound 1024]⟩
  require (0 ≤ limits.maxVisitsPerNode ∧ limits.maxVisitsPerNode ≤ maxVisitsPerNode)
    ⟨"max_visits_per_node is out of bounds", []⟩

/-! ## Definitions -/

/-- The loop over the nodes. -/
def indexNode (fields : List StateField) (nodes : List NodeSpec) (node : NodeSpec) :
    Except Message (List NodeSpec) := do
  (validateNode reg fields node).mapError (·.within "node %d: " [bound nodes.length])
  require (∀ other ∈ nodes, other.id ≠ node.id) ⟨"node %q is duplicate", [node.id]⟩
  return nodes ++ [node]

/-- Two edges of one node may not both be default edges, or both error edges, or
conditional ones with one predicate. -/
def EdgeSpec.apart (a b : EdgeSpec) : Bool :=
  !decide (a.source = b.source ∧ a.kind = b.kind ∧
    (a.kind = .default ∨ a.kind = .error ∨ a.kind = .conditional ∧ a.predicate = b.predicate))

/-- The loop over the edges. -/
def indexEdge (nodes : List NodeSpec) (edges : List EdgeSpec) (edge : EdgeSpec) :
    Except Message (List EdgeSpec) := do
  (validateEdge reg nodes edge).mapError (·.within "edge %d: " [bound edges.length])
  require (∀ other ∈ edges, other.apart edge)
    (if edge.kind = .conditional then
      ⟨"node %q repeats conditional predicate %q", [edge.source, edge.predicate]⟩
    else ⟨"node %q has more than one %s edge", [edge.source, edge.kind.text]⟩)
  return edges ++ [edge]

/-- The targets of the edges of a node: `allSuccessors[id]`. -/
def successors (edges : List EdgeSpec) (id : GoString) : List GoString :=
  (edges.filter fun edge => edge.source = id).map EdgeSpec.target

/-- The edges that are not error edges; `successors` are theirs. -/
def successEdges (edges : List EdgeSpec) : List EdgeSpec :=
  edges.filter fun edge => edge.kind ≠ .error

/-- The sources of the edges to a node: `reverse[id]`. -/
def predecessors (edges : List EdgeSpec) (id : GoString) : List GoString :=
  (edges.filter fun edge => edge.target = id).map EdgeSpec.source

def validateReachability (entry : GoString) (nodes : List NodeSpec) (edges : List EdgeSpec) :
    Except Message Unit :=
  let seen := Digraph.search (successors edges) nodes.length [entry] [entry]
  require (∀ node ∈ nodes, node.id ∈ seen) ⟨"node %q is unreachable from entry", []⟩

def validateTerminalPaths (nodes : List NodeSpec) (edges : List EdgeSpec) :
    Except Message Unit := do
  let terminal := (nodes.filter NodeSpec.terminal).map NodeSpec.id
  require (terminal ≠ []) ⟨"graph has no terminal node", []⟩
  let canReach := Digraph.search (predecessors edges) nodes.length terminal terminal
  require (∀ node ∈ nodes, node.terminal = false → node.id ∈ canReach)
    ⟨"non-terminal node %q has no success path to a terminal", []⟩

def graphHasCycle (nodes : List NodeSpec) (edges : List EdgeSpec) : Bool :=
  Digraph.findsCycle (successors edges) nodes.length (ids nodes)

def validateGraph (d : Definition) : Except Message Unit := do
  require (∀ node ∈ d.nodes, node.terminal → successors d.edges node.id = [])
    ⟨"terminal node %q has outgoing edges", []⟩
  require (∀ node ∈ d.nodes, node.terminal = false →
    successors (successEdges d.edges) node.id ≠ [])
    ⟨"non-terminal node %q has no success edge", []⟩
  validateReachability d.entryNode d.nodes d.edges
  validateTerminalPaths d.nodes (successEdges d.edges)
  require (graphHasCycle d.nodes d.edges → 0 < d.limits.maxVisitsPerNode)
    ⟨"cyclic graph requires a positive max_visits_per_node", []⟩

def validateDefinition (d : Definition) : Except Message Unit := do
  validateIdentifier d.id maxGraphIDBytes "graph id"
  validateIdentifier d.version maxGraphVersionBytes "graph version"
  require (d.revision = .empty ∨ isDigest d.revision)
    ⟨"graph revision is not a SHA-256 hex string", []⟩
  validateIdentifier d.entryNode maxNodeIDBytes "entry node"
  require (0 < d.nodes.length ∧ d.nodes.length ≤ maxNodes)
    ⟨"node count must be between 1 and %d", [bound maxNodes]⟩
  require (d.edges.length ≤ maxEdges) ⟨"edge count exceeds %d", [bound maxEdges]⟩
  validateLimits d.limits
  let fields ← validateStateSchema reg d.state
  validateRedaction d.redaction fields
  let nodes ← d.nodes.foldlM (indexNode reg fields) []
  require (d.entryNode ∈ ids nodes) ⟨"entry node %q does not exist", [d.entryNode]⟩
  let _ ← d.edges.foldlM (indexEdge reg nodes) []
  validateGraph d

/-! ## Canonical form -/

/-- `sort.Slice` by a text that differs for all elements, and `sort.Strings`. -/
def sortBy {α : Type} (key : α → GoString) (xs : List α) : List α :=
  xs.insertionSort fun a b => (key b).before (key a) = false

/-- The config of a node in canonical form. -/
def canonicalConfig (raw : RawJSON) : RawJSON :=
  if raw = [] then [] else (canonicalJSON raw).toOption.getD []

def NodeSpec.canonical (node : NodeSpec) : NodeSpec :=
  { node with
    approvalDeniedPolicy :=
      if node.approvalDeniedPolicy = .failed then .unset else node.approvalDeniedPolicy
    config := canonicalConfig node.config
    contextView := ⟨sortBy (fun name => name) node.contextView.stateFields,
      sortBy LayerKind.text node.contextView.layers⟩ }

def EdgeSpec.sortKey (edge : EdgeSpec) : GoString :=
  edge.source ++ go "\x00" ++ edge.kind.text ++ go "\x00" ++ edge.predicate ++ go "\x00" ++
    edge.predicateVersion ++ go "\x00" ++ edge.target

def canonicalizeDefinition (d : Definition) : Definition :=
  { d with
    nodes := sortBy NodeSpec.id (d.nodes.map NodeSpec.canonical)
    edges := sortBy EdgeSpec.sortKey d.edges
    state := { d.state with fields := sortBy StateField.name d.state.fields }
    redaction := sortBy (fun name => name) d.redaction }

structure ValidatedDefinition where
  definition : Definition
  revision : GoString
  deriving DecidableEq

/-- The part of `ValidateDefinition` after the checks. -/
def freeze (digest : Digest) (d : Definition) : Except Message ValidatedDefinition := do
  let revision ← (definitionRevision digest d).mapError (·.within "revision: " [])
  require (d.revision = .empty ∨ d.revision = revision)
    ⟨"supplied revision does not match canonical definition", []⟩
  return ⟨{ d with revision }, revision⟩

/-- `ValidateDefinition`. -/
def validatedDefinition (digest : Digest) (reg : Registries) (d : Definition) :
    Except Message ValidatedDefinition :=
  Except.mapError (·.within "invalid graph definition: " []) do
    preflightDefinition d
    validateDefinition reg d
    freeze digest (canonicalizeDefinition d)

end AutoAgent.Graph
