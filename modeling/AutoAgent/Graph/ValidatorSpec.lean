import AutoAgent.Graph.Validator

/-!
# What a valid definition is

`Valid` says what `validateDefinition` accepts, without its loops: what each part satisfies,
which parts differ from each other, and the paths of the graph.

**Rearrangements.**  Two definitions are `Alike` if they differ in the order of their parts
only, in the configs of their nodes, and in how the default of the approval policy is spelled.
`Valid.of_alike` carries validity from one to the other, up to the configs.
-/

namespace AutoAgent.Graph

open List Unique

/-! ## Contexts -/

/-- A state field that a view may name. -/
def Explicit (field : GoString) : Prop :=
  validateContextName field maxContextIDBytes "state field" = .ok () ∧
    !(field.anyRune (fun c => c == '*' || c == '?') || isWildcardName field)

theorem selectFields_eq_ok {xs out : List GoString} : xs.foldlM selectField [] = .ok out ↔
    ((∀ x ∈ xs, Explicit x) ∧ xs.Nodup) ∧ out = xs := by
  refine foldlM_collect_nil fun seen field out => ?_
  simp only [selectField, Explicit, bind_eq_ok, require_eq_ok, pure_eq_ok, exists_iff,
    PUnit.default_eq_unit, and_assoc]

theorem selectLayers_eq_ok {xs out : List LayerKind} : xs.foldlM selectLayer [] = .ok out ↔
    ((∀ x ∈ xs, x.known ∧ !isWildcardName x.text) ∧ xs.Nodup) ∧ out = xs := by
  refine foldlM_collect_nil fun seen layer out => ?_
  simp only [selectLayer, bind_eq_ok, require_eq_ok, pure_eq_ok, exists_const]

variable {u : Unit}

theorem validateContextView_eq_ok {view : ContextView} :
    validateContextView view = .ok u ↔
      view.stateFields.length ≤ maxContextStateFields ∧ view.layers.length ≤ maxContextViewLayers ∧
      ((∀ f ∈ view.stateFields, Explicit f) ∧ view.stateFields.Nodup) ∧
      ((∀ l ∈ view.layers, l.known ∧ !isWildcardName l.text) ∧ view.layers.Nodup) ∧
      (view.stateFields = [] ∨ .requiredState ∈ view.layers) ∧
      view.doc.size ≤ maxContextViewBytes := by
  simp only [validateContextView, bind_eq_ok, require_eq_ok, selectFields_eq_ok, selectLayers_eq_ok,
    exists_const, and_assoc, exists_and_left, exists_eq_left]

theorem sum_size_perm {α : Type} {f : α → Doc} {xs ys : List α} (h : xs.Perm ys) :
    (Json.arr (xs.map f) : Doc).size = (Json.arr (ys.map f) : Doc).size := by
  simp only [Json.size_arr, map_map, length_map, (h.map (Json.size ∘ f)).sum_eq, h.length_eq]

variable {view view' : ContextView}

theorem size_doc_perm (fields : view.stateFields.Perm view'.stateFields)
    (layers : view.layers.Perm view'.layers) : view.doc.size = view'.doc.size := by
  have sizes := sum_size_perm (f := strDoc) fields
  have sizes' := sum_size_perm (f := fun l : LayerKind => strDoc l.text) layers
  have empty : view.stateFields.isEmpty = view'.stateFields.isEmpty := by
    rw [eq_iff_iff, isEmpty_iff_length_eq_zero, isEmpty_iff_length_eq_zero, fields.length_eq]
  have empty' : view.layers.isEmpty = view'.layers.isEmpty := by
    rw [eq_iff_iff, isEmpty_iff_length_eq_zero, isEmpty_iff_length_eq_zero, layers.length_eq]
  simp only [ContextView.doc, structDoc, fieldMembers, omitWhen, empty, empty']
  cases view'.stateFields.isEmpty <;> cases view'.layers.isEmpty <;>
    simp [Json.size_obj, sizes, sizes']

theorem validateContextView_perm (fields : view.stateFields.Perm view'.stateFields)
    (layers : view.layers.Perm view'.layers) (h : validateContextView view = .ok ()) :
    validateContextView view' = .ok () := by
  rw [validateContextView_eq_ok] at h ⊢
  obtain ⟨few, few', ⟨each, distinct⟩, ⟨each', distinct'⟩, state, bounded⟩ := h
  refine ⟨fields.length_eq ▸ few, layers.length_eq ▸ few',
    ⟨fun f mem => each f (fields.mem_iff.mpr mem), fields.nodup_iff.mp distinct⟩,
    ⟨fun l mem => each' l (layers.mem_iff.mpr mem), layers.nodup_iff.mp distinct'⟩, ?_,
    size_doc_perm fields layers ▸ bounded⟩
  exact state.imp (fun none => by rw [none] at fields; exact fields.nil_eq.symm) layers.mem_iff.mp

variable {fields : List StateField}

theorem fieldOf_isSome {name : GoString} :
    (fieldOf fields name).isSome ↔ ∃ field ∈ fields, field.name = name := by
  simp [fieldOf, find?_isSome]

theorem validateContext_perm {budget : ContextBudget} {fields fields' : List StateField}
    (names : view.stateFields.Perm view'.stateFields) (layers : view.layers.Perm view'.layers)
    (same : fields.Perm fields') (h : validateContext view budget fields = .ok ()) :
    validateContext view' budget fields' = .ok () := by
  simp only [validateContext, bind_eq_ok, mapError_eq_ok, require_eq_ok, forM_eq_ok,
    fieldOf_isSome, exists_iff, PUnit.default_eq_unit] at h ⊢
  obtain ⟨viewed, budgeted, ⟨current, funded⟩, declared, required⟩ := h
  refine ⟨validateContextView_perm names layers viewed, budgeted,
    ⟨layers.mem_iff.mp current, funded⟩,
    fun name mem => ?_, fun field mem own => ?_⟩
  · obtain ⟨valid, field, known, eq⟩ := declared name (names.mem_iff.mpr mem)
    exact ⟨valid, field, same.mem_iff.mp known, eq⟩
  · exact names.mem_iff.mp (required field (same.mem_iff.mpr mem) own)

/-! ## Nodes and edges -/

/-- The config of a node is nothing or one JSON text. -/
def ValidConfig (raw : RawJSON) : Prop :=
  raw.length ≤ maxNodeConfigBytes ∧ (raw ≠ [] → ∃ canonical, canonicalJSON raw = .ok canonical)

/-- The names of a node are valid and registered. -/
def NodeSpec.Named (reg : Registries) (node : NodeSpec) : Prop :=
  validName node.id maxNodeIDBytes ∧ validName node.kind maxNodeKindBytes ∧
    (reg.nodeKinds node.kind).isSome ∧
    validName node.kindVersion maxGraphVersionBytes ∧
    registered reg.nodeKinds node.kind node.kindVersion "node kind" = .ok ()

variable {reg : Registries}

theorem validateNode_eq_ok {node : NodeSpec} :
    validateNode reg fields node = .ok u ↔ node.Named reg ∧ ValidConfig node.config ∧
      validateContext node.contextView node.contextBudget fields = .ok () ∧
      node.bounded = .ok () := by
  by_cases empty : node.config = []
  · simp only [validateNode, NodeSpec.Named, ValidConfig, bind_eq_ok, require_eq_ok,
      validateIdentifier_eq_ok, empty, ne_eq, not_true_eq_false, if_false, false_implies, and_true,
      exists_iff, PUnit.default_eq_unit, and_assoc]
  · simp only [validateNode, NodeSpec.Named, ValidConfig, bind_eq_ok, require_eq_ok, mapError_eq_ok,
      validateIdentifier_eq_ok, empty, ne_eq, not_false_eq_true, if_true, true_implies,
      exists_and_right, exists_iff, PUnit.default_eq_unit, and_assoc]

/-- The policy with its default spelled one way. -/
def ApprovalDeniedPolicy.normal (policy : ApprovalDeniedPolicy) : ApprovalDeniedPolicy :=
  if policy = .failed then .unset else policy

/-- Two nodes that differ in the order of their view, in their config and in the spelling
of the default policy only. -/
structure NodeSpec.Alike (n n' : NodeSpec) : Prop where
  id : n.id = n'.id
  kind : n.kind = n'.kind
  kindVersion : n.kindVersion = n'.kindVersion
  stateFields : n.contextView.stateFields.Perm n'.contextView.stateFields
  layers : n.contextView.layers.Perm n'.contextView.layers
  budget : n.contextBudget = n'.contextBudget
  retry : n.retry = n'.retry
  timeout : n.timeout = n'.timeout
  terminal : n.terminal = n'.terminal
  usesSandbox : n.usesSandbox = n'.usesSandbox
  policy : n.approvalDeniedPolicy.normal = n'.approvalDeniedPolicy.normal

variable {n n' : NodeSpec}

theorem NodeSpec.Alike.bounded (h : n.Alike n') (ok : n.bounded = .ok ()) :
    n'.bounded = .ok () := by
  have policy := h.policy
  unfold NodeSpec.bounded at ok ⊢
  rw [h.retry, h.timeout] at ok
  cases old : n.approvalDeniedPolicy with
  | other text => simp [old, bind_eq_ok] at ok
  | unset | failed | resumeWithDecision =>
    rw [old] at ok policy
    cases new : n'.approvalDeniedPolicy with
    | other text => rw [new] at policy; cases policy
    | unset | failed | resumeWithDecision => exact ok

theorem NodeSpec.Alike.validateNode {fields fields' : List StateField} (h : n.Alike n')
    (same : fields.Perm fields') (config : ValidConfig n'.config)
    (ok : validateNode reg fields n = .ok ()) : validateNode reg fields' n' = .ok () := by
  rw [validateNode_eq_ok] at ok ⊢
  obtain ⟨named, -, context, bounded⟩ := ok
  refine ⟨?_, config, ?_, h.bounded bounded⟩
  · unfold NodeSpec.Named at named ⊢
    rwa [h.id, h.kind, h.kindVersion] at named
  · exact h.budget ▸ validateContext_perm h.stateFields h.layers same context

variable {nodes : List NodeSpec}

theorem validateEdge_congr {nodes nodes' : List NodeSpec}
    (same : ∀ id, id ∈ ids nodes ↔ id ∈ ids nodes') (edge : EdgeSpec) :
    validateEdge reg nodes edge = validateEdge reg nodes' edge := by
  simp only [validateEdge, same]

theorem ends_of_validateEdge {edge : EdgeSpec} (h : validateEdge reg nodes edge = .ok ()) :
    edge.source ∈ ids nodes ∧ edge.target ∈ ids nodes := by
  simp only [validateEdge, bind_eq_ok, require_eq_ok] at h
  obtain ⟨_, -, _, -, _, source, _, target, -⟩ := h
  exact ⟨source, target⟩

/-! ## Paths -/

/-- An edge from one node to another. -/
def Leads (edges : List EdgeSpec) (a b : GoString) : Prop :=
  ∃ edge ∈ edges, edge.source = a ∧ edge.target = b

variable {edges : List EdgeSpec} {a b : GoString}

theorem arc_successors :
    Digraph.Arc (successors edges) a b ↔ Leads edges a b := by
  simp [Digraph.Arc, successors, Leads, and_assoc]

theorem arc_predecessors :
    Digraph.Arc (predecessors edges) a b ↔ Leads edges b a := by
  simp only [Digraph.Arc, predecessors, Leads, mem_map, mem_filter, decide_eq_true_eq, and_assoc]
  exact exists_congr fun edge => and_congr_right fun _ => and_comm

structure ValidGraph (d : Definition) : Prop where
  terminal : ∀ n ∈ d.nodes, n.terminal → ∀ e ∈ d.edges, e.source ≠ n.id
  success : ∀ n ∈ d.nodes, n.terminal = false → ∃ e ∈ successEdges d.edges, e.source = n.id
  reachable : ∀ n ∈ d.nodes, Relation.ReflTransGen (Leads d.edges) d.entryNode n.id
  stops : ∃ n ∈ d.nodes, n.terminal
  ends : ∀ n ∈ d.nodes, n.terminal = false → ∃ t ∈ d.nodes, t.terminal ∧
    Relation.ReflTransGen (Leads (successEdges d.edges)) n.id t.id
  cycles : (∃ x, Relation.TransGen (Leads d.edges) x x) → 0 < d.limits.maxVisitsPerNode

section

variable {d : Definition} (entry : d.entryNode ∈ ids d.nodes)
  (ended : ∀ e ∈ d.edges, e.source ∈ ids d.nodes ∧ e.target ∈ ids d.nodes)

include entry ended in
theorem validateReachability_eq_ok {u : Unit} :
    validateReachability d.entryNode d.nodes d.edges = .ok u ↔
      ∀ n ∈ d.nodes, Relation.ReflTransGen (Leads d.edges) d.entryNode n.id := by
  have closed : ∀ x ∈ ids d.nodes, successors d.edges x ⊆ ids d.nodes := by
    intro x _ y mem
    obtain ⟨e, known, -, rfl⟩ := arc_successors.mp mem
    exact (ended e known).2
  have found := fun y => Digraph.mem_search (y := y) (n := d.nodes.length) closed
    (nodup_singleton d.entryNode) (by simpa using entry) (by simp [ids])
  have arcs : Digraph.Arc (successors d.edges) = Leads d.edges := by
    funext a b
    exact propext arc_successors
  simp only [validateReachability, require_eq_ok, found, mem_singleton, exists_eq_left, arcs]

include ended in
theorem validateTerminalPaths_eq_ok (distinct : (ids d.nodes).Nodup) {u : Unit} :
    validateTerminalPaths d.nodes (successEdges d.edges) = .ok u ↔
      (∃ n ∈ d.nodes, n.terminal) ∧ ∀ n ∈ d.nodes, n.terminal = false → ∃ t ∈ d.nodes, t.terminal ∧
        Relation.ReflTransGen (Leads (successEdges d.edges)) n.id t.id := by
  have closed : ∀ x ∈ ids d.nodes, predecessors (successEdges d.edges) x ⊆ ids d.nodes := by
    intro x _ y mem
    obtain ⟨e, known, rfl, -⟩ := arc_predecessors.mp mem
    exact (ended e (mem_of_mem_filter known)).1
  have some : ((d.nodes.filter NodeSpec.terminal).map NodeSpec.id).Sublist (ids d.nodes) :=
    (filter_sublist ..).map _
  have found := fun y => Digraph.mem_search (y := y) (n := d.nodes.length) closed
    (some.nodup distinct) some.subset (by simp [ids])
  have arcs : Digraph.Arc (predecessors (successEdges d.edges)) =
      Function.swap (Leads (successEdges d.edges)) := by
    funext a b
    exact propext arc_predecessors
  simp only [validateTerminalPaths, bind_eq_ok, require_eq_ok, exists_const, found, arcs,
    Relation.reflTransGen_swap, mem_map, exists_exists_and_eq_and, mem_filter]
  simp [filter_eq_nil_iff, and_assoc]

include ended in
theorem graphHasCycle_iff :
    graphHasCycle d.nodes d.edges ↔ ∃ x, Relation.TransGen (Leads d.edges) x x := by
  have arcs : Digraph.Arc (successors d.edges) = Leads d.edges := by
    funext a b
    exact propext arc_successors
  rw [graphHasCycle, Digraph.findsCycle_iff, arcs]
  · intro x _ y mem
    obtain ⟨e, known, -, rfl⟩ := arc_successors.mp mem
    exact (ended e known).2
  · intro x y arc
    obtain ⟨e, known, rfl, -⟩ := arc_successors.mp arc
    exact (ended e known).1
  · simp [ids]

include entry ended in
theorem validateGraph_eq_ok (distinct : (ids d.nodes).Nodup) {u : Unit} :
    validateGraph d = .ok u ↔ ValidGraph d := by
  have none : ∀ {edges : List EdgeSpec} {id : GoString}, successors edges id = [] ↔
      ∀ e ∈ edges, e.source ≠ id := by
    simp [successors, filter_eq_nil_iff]
  have some : ∀ {edges : List EdgeSpec} {id : GoString}, successors edges id ≠ [] ↔
      ∃ e ∈ edges, e.source = id := by
    simp [successors, filter_eq_nil_iff]
  simp only [validateGraph, bind_eq_ok, require_eq_ok, exists_iff, none, some,
    validateReachability_eq_ok entry ended, validateTerminalPaths_eq_ok ended distinct,
    graphHasCycle_iff ended]
  constructor
  · rintro ⟨terminal, success, reachable, ⟨stops, ends⟩, cycles⟩
    exact ⟨terminal, success, reachable, stops, ends, cycles⟩
  · rintro ⟨terminal, success, reachable, stops, ends, cycles⟩
    exact ⟨terminal, success, reachable, ⟨stops, ends⟩, cycles⟩

end

/-! ## Definitions -/

/-- The redaction lists declared fields once, the sensitive ones among them. -/
structure ValidRedaction (redaction : List GoString) (fields : List StateField) : Prop where
  count : redaction.length ≤ maxStateFields
  each : ∀ name ∈ redaction, validName name maxNodeIDBytes ∧ ∃ f ∈ fields, f.name = name
  distinct : redaction.Nodup
  sensitive : ∀ f ∈ fields, f.sensitive → f.name ∈ redaction

theorem validateRedaction_eq_ok {redaction : List GoString} :
    validateRedaction redaction fields = .ok u ↔ ValidRedaction redaction fields := by
  have loop : ∀ out, redaction.foldlM (redactField fields) [] = .ok out ↔
      ((∀ name ∈ redaction, validName name maxNodeIDBytes ∧ ∃ f ∈ fields, f.name = name) ∧
        redaction.Nodup) ∧ out = redaction := by
    refine fun out => foldlM_collect_nil fun seen name out => ?_
    simp only [redactField, bind_eq_ok, validateIdentifier_eq_ok, require_eq_ok, pure_eq_ok,
      exists_const, fieldOf_isSome, and_assoc]
  simp only [validateRedaction, bind_eq_ok, require_eq_ok, exists_const, loop]
  constructor
  · rintro ⟨count, _, ⟨⟨each, distinct⟩, rfl⟩, sensitive⟩
    exact ⟨count, each, distinct, sensitive⟩
  · rintro ⟨count, each, distinct, sensitive⟩
    exact ⟨count, _, ⟨⟨each, distinct⟩, rfl⟩, sensitive⟩

/-- What `validateDefinition` accepts. -/
structure Valid (reg : Registries) (d : Definition) : Prop where
  id : validName d.id maxGraphIDBytes
  version : validName d.version maxGraphVersionBytes
  revision : d.revision = .empty ∨ isDigest d.revision
  entry : validName d.entryNode maxNodeIDBytes
  count : 0 < d.nodes.length ∧ d.nodes.length ≤ maxNodes
  edgeCount : d.edges.length ≤ maxEdges
  limits : validateLimits d.limits = .ok ()
  reducer : validName d.state.reducer maxNodeKindBytes ∧
    validName d.state.reducerVersion maxGraphVersionBytes ∧
    registered reg.reducers d.state.reducer d.state.reducerVersion "state reducer" = .ok ()
  fields : ValidFields d.state.fields
  redaction : ValidRedaction d.redaction d.state.fields
  nodes : ∀ n ∈ d.nodes, validateNode reg d.state.fields n = .ok ()
  distinct : (ids d.nodes).Nodup
  entryKnown : d.entryNode ∈ ids d.nodes
  edges : ∀ e ∈ d.edges, validateEdge reg d.nodes e = .ok ()
  apart : d.edges.Pairwise fun a b => a.apart b
  graph : ValidGraph d

theorem indexNodes_eq_ok {nodes out : List NodeSpec} :
    nodes.foldlM (indexNode reg fields) [] = .ok out ↔
      ((∀ n ∈ nodes, validateNode reg fields n = .ok ()) ∧ (ids nodes).Nodup) ∧ out = nodes := by
  rw [ids, List.Nodup, pairwise_map]
  refine foldlM_collect_nil fun seen node out => ?_
  simp only [indexNode, bind_eq_ok, mapError_eq_ok, require_eq_ok, pure_eq_ok, exists_iff,
    PUnit.default_eq_unit]

theorem indexEdges_eq_ok {edges out : List EdgeSpec} :
    edges.foldlM (indexEdge reg nodes) [] = .ok out ↔
      ((∀ e ∈ edges, validateEdge reg nodes e = .ok ()) ∧
        edges.Pairwise fun a b => a.apart b) ∧ out = edges := by
  refine foldlM_collect_nil fun seen edge out => ?_
  simp only [indexEdge, bind_eq_ok, mapError_eq_ok, require_eq_ok, pure_eq_ok, exists_iff,
    PUnit.default_eq_unit]

/-- **What is accepted**, without the loops. -/
theorem validateDefinition_eq_ok {d : Definition} :
    validateDefinition reg d = .ok u ↔ Valid reg d := by
  simp only [validateDefinition, validateStateSchema, bind_eq_ok, validateIdentifier_eq_ok,
    require_eq_ok, exists_const, indexStateFields_iff, validateRedaction_eq_ok, indexNodes_eq_ok,
    indexEdges_eq_ok]
  constructor
  · rintro ⟨id, version, revision, entry, count, edgeCount, ⟨⟩, limits, _,
      ⟨reducer, reducerVersion, ⟨⟩, known, fields, rfl⟩, redaction, _,
      ⟨⟨nodes, distinct⟩, rfl⟩, entryKnown, _, ⟨⟨edges, apart⟩, rfl⟩, graph⟩
    have ended := fun e mem => ends_of_validateEdge (edges e mem)
    exact ⟨id, version, revision, entry, count, edgeCount, limits, ⟨reducer, reducerVersion, known⟩,
      fields, redaction, nodes, distinct, entryKnown, edges, apart,
      (validateGraph_eq_ok entryKnown ended distinct).mp graph⟩
  · intro h
    have ended := fun e mem => ends_of_validateEdge (h.edges e mem)
    exact ⟨h.id, h.version, h.revision, h.entry, h.count, h.edgeCount, (), h.limits, _,
      ⟨h.reducer.1, h.reducer.2.1, (), h.reducer.2.2, h.fields, rfl⟩, h.redaction, _,
      ⟨⟨h.nodes, h.distinct⟩, rfl⟩, h.entryKnown, _, ⟨⟨h.edges, h.apart⟩, rfl⟩,
      (validateGraph_eq_ok h.entryKnown ended h.distinct).mpr h.graph⟩

/-! ## Rearrangements -/

/-- Two definitions that differ in the order of their parts, in the configs of their nodes
and in the spelling of the default policy only; their revisions may be any. -/
structure Alike (d d' : Definition) : Prop where
  id : d.id = d'.id
  version : d.version = d'.version
  entryNode : d.entryNode = d'.entryNode
  nodes : ∃ middle, List.Forall₂ NodeSpec.Alike d.nodes middle ∧ middle.Perm d'.nodes
  edges : d.edges.Perm d'.edges
  reducer : d.state.reducer = d'.state.reducer
  reducerVersion : d.state.reducerVersion = d'.state.reducerVersion
  fields : d.state.fields.Perm d'.state.fields
  limits : d.limits = d'.limits
  redaction : d.redaction.Perm d'.redaction

theorem EdgeSpec.apart_comm (a b : EdgeSpec) : a.apart b = b.apart a := by
  unfold EdgeSpec.apart
  grind

namespace Alike

variable {d d' : Definition} (h : Alike d d')

include h

theorem exists_node {n' : NodeSpec} (mem : n' ∈ d'.nodes) : ∃ n ∈ d.nodes, n.Alike n' := by
  obtain ⟨middle, each, perm⟩ := h.nodes
  obtain ⟨i, bound, eq⟩ := getElem_of_mem (perm.mem_iff.mpr mem)
  have bound' : i < d.nodes.length := by rwa [each.length_eq]
  have alike : d.nodes[i].Alike middle[i] := each.get bound' bound
  exact ⟨d.nodes[i], getElem_mem bound', eq ▸ alike⟩

theorem exists_node' {n : NodeSpec} (mem : n ∈ d.nodes) : ∃ n' ∈ d'.nodes, n.Alike n' := by
  obtain ⟨middle, each, perm⟩ := h.nodes
  obtain ⟨i, bound, eq⟩ := getElem_of_mem mem
  have bound' : i < middle.length := by rwa [← each.length_eq]
  have alike : d.nodes[i].Alike middle[i] := each.get bound bound'
  exact ⟨middle[i], perm.mem_iff.mp (getElem_mem bound'), eq ▸ alike⟩

theorem ids_perm : (ids d.nodes).Perm (ids d'.nodes) := by
  obtain ⟨middle, each, perm⟩ := h.nodes
  have same : ids d.nodes = ids middle := by
    rw [ids, ids, ← forall₂_eq_eq_eq, forall₂_map_left_iff, forall₂_map_right_iff]
    exact each.imp fun _ _ alike => alike.id
  exact same ▸ perm.map NodeSpec.id

theorem leads : Leads d.edges = Leads d'.edges := by
  funext a b
  exact propext (exists_congr fun e => and_congr_left fun _ => h.edges.mem_iff)

theorem leads_success : Leads (successEdges d.edges) = Leads (successEdges d'.edges) := by
  funext a b
  exact propext (exists_congr fun e => and_congr_left fun _ => (h.edges.filter _).mem_iff)

theorem validGraph (valid : ValidGraph d) : ValidGraph d' where
  terminal n' mem last e known := by
    obtain ⟨n, there, alike⟩ := h.exists_node mem
    rw [← alike.id]
    exact valid.terminal n there (alike.terminal.trans last) e (h.edges.mem_iff.mpr known)
  success n' mem more := by
    obtain ⟨n, there, alike⟩ := h.exists_node mem
    obtain ⟨e, known, source⟩ := valid.success n there (alike.terminal.trans more)
    exact ⟨e, (h.edges.filter _).mem_iff.mp known, source.trans alike.id⟩
  reachable n' mem := by
    obtain ⟨n, there, alike⟩ := h.exists_node mem
    rw [← h.leads, ← h.entryNode, ← alike.id]
    exact valid.reachable n there
  stops := by
    obtain ⟨n, there, last⟩ := valid.stops
    obtain ⟨n', mem, alike⟩ := h.exists_node' there
    exact ⟨n', mem, alike.terminal.symm.trans last⟩
  ends n' mem more := by
    obtain ⟨n, there, alike⟩ := h.exists_node mem
    obtain ⟨t, known, last, path⟩ := valid.ends n there (alike.terminal.trans more)
    obtain ⟨t', known', alike'⟩ := h.exists_node' known
    rw [← h.leads_success, ← alike.id]
    exact ⟨t', known', alike'.terminal.symm.trans last, alike'.id ▸ path⟩
  cycles cycle := by
    rw [← h.leads] at cycle
    exact h.limits ▸ valid.cycles cycle

/-- **Validity does not depend on the arrangement.** -/
theorem valid {reg : Registries} (valid : Valid reg d)
    (revision : d'.revision = .empty ∨ isDigest d'.revision)
    (configs : ∀ n ∈ d'.nodes, ValidConfig n.config) : Valid reg d' where
  id := h.id ▸ valid.id
  version := h.version ▸ valid.version
  revision := revision
  entry := h.entryNode ▸ valid.entry
  count := by
    have same := h.ids_perm.length_eq
    simp only [ids, length_map] at same
    exact same ▸ valid.count
  edgeCount := h.edges.length_eq ▸ valid.edgeCount
  limits := h.limits ▸ valid.limits
  reducer := h.reducer ▸ h.reducerVersion ▸ valid.reducer
  fields :=
    { count := h.fields.length_eq ▸ valid.fields.count
      each := fun f mem => valid.fields.each f (h.fields.mem_iff.mpr mem)
      distinct := (h.fields.pairwise_iff fun apart => Ne.symm apart).mp valid.fields.distinct }
  redaction :=
    { count := h.redaction.length_eq ▸ valid.redaction.count
      each := fun name mem => by
        obtain ⟨named, f, known, eq⟩ := valid.redaction.each name (h.redaction.mem_iff.mpr mem)
        exact ⟨named, f, h.fields.mem_iff.mp known, eq⟩
      distinct := h.redaction.nodup_iff.mp valid.redaction.distinct
      sensitive := fun f mem secret =>
        h.redaction.mem_iff.mp (valid.redaction.sensitive f (h.fields.mem_iff.mpr mem) secret) }
  nodes n' mem := by
    obtain ⟨n, there, alike⟩ := h.exists_node mem
    exact alike.validateNode h.fields (configs n' mem) (valid.nodes n there)
  distinct := h.ids_perm.nodup_iff.mp valid.distinct
  entryKnown := h.entryNode ▸ h.ids_perm.mem_iff.mp valid.entryKnown
  edges e mem := by
    rw [← validateEdge_congr fun id => h.ids_perm.mem_iff]
    exact valid.edges e (h.edges.mem_iff.mpr mem)
  apart := (h.edges.pairwise_iff fun apart => by rwa [EdgeSpec.apart_comm]).mp valid.apart
  graph := h.validGraph valid.graph

end Alike

end AutoAgent.Graph
