import AutoAgent.App.BudgetLaws
import Mathlib.Data.List.Dedup

/-!
# The context of a model request

`AssembleModelContext` turns the messages of a session into items and lets
`Assemble` choose among them.  A provider refuses a call without its results and a
result without its call, so an assistant message with calls and the results of those
calls get one group.

**Reused ids.**  The loop over the messages remembers, for each call id, the group of
the last message that requested it.  A result belongs to that message; an earlier
message with the same id has the results that came before.

**Nested results.**  A workflow records its own calls under `parent/step`.  Such a
result is left out if no message requested it and its parent has its result later.

**Results without a call.**  A result whose id nobody requested, and that is not
nested, passes as a message of its own, and so does a message with calls that have
no result.  `pairs_stay_together` says that a message with calls and a result of one
of them are in the context together or not at all.
-/

namespace AutoAgent.ContextAssembly

open List
open Prod (fst snd)

/-! ## Items -/

/-- `Assembler`, with the tool costs of its `ContextEstimator`. -/
structure Assembler (τ : Type) where
  safetyMargin : Int64
  maxToolResultBytes : Int64
  estimator : Estimator
  estimateTools : List τ → Except AssemblyError Cost

variable {τ : Type}

/-- The answers of a context to `Err` along an assembly. -/
structure RequestContext extends Context where
  ended : Bool
  endedAt : ℕ → Bool

def callsOf (m : ChatMessage) : List ToolCall :=
  if m.toolCalls.isEmpty then m.toolCall.toList else m.toolCalls

def isSummary (m : ChatMessage) : Bool := m.provenance.any fun p => p.kind == go "summary"

/-- `latestUser`, if there is one. -/
def latestUser (messages : List ChatMessage) : Option ℕ :=
  (messages.zipIdx.reverse.find? fun x => x.1.role == .user && !isSummary x.1).map snd

/-- `resultPositions[id]`. -/
def resultPosition (messages : List ChatMessage) (id : GoString) : ℕ :=
  ((messages.zipIdx.reverse.find? fun x => x.1.role == .tool && x.1.toolCallID == id).map
    snd).getD 0

def sourceID (m : ChatMessage) (index : ℕ) : GoString :=
  if 0 < m.sourceSeq then go "seq-" ++ go (toString m.sourceSeq)
  else go "message-" ++ go (toString index)

def toolGroup (m : ChatMessage) (index : ℕ) : GoString := go "tool-group-" ++ sourceID m index

def toolMarker (content : GoString) : GoString :=
  go "[earlier tool result elided bytes=" ++ go (toString content.len) ++ go " sha256=" ++
    Sha256.hex ((Sha256.digest content.bytes).take 8) ++ go "]"

/-- `parent[:slash]` for the last slash, unless it is the first byte. -/
def parentID (id : GoString) : Option GoString :=
  match ((id.runes.reverse.dropWhile fun r => r ≠ .rune '/').drop 1).reverse with
  | [] => none
  | runes => some ⟨runes⟩

/-- The parents of a nested id, innermost first. -/
def parentIDs : ℕ → GoString → List GoString
  | 0, _ => []
  | fuel + 1, id =>
    match parentID id with
    | none => []
    | some parent => parent :: parentIDs fuel parent

/-- The group of each call id, the last one first. -/
abbrev Groups := List (GoString × GoString)

/-- `groups[id]`. -/
def Groups.get (groups : Groups) (id : GoString) : GoString := (groups.lookup id).getD .empty

/-- The compatibility alias of the first call is removed; one that differs from it is
an error. -/
def normalizeAlias (m : ChatMessage) : Except AssemblyError ChatMessage :=
  match m.toolCall, m.toolCalls with
  | some own, first :: _ =>
    if (ToolCall.codec.enc own).text = (ToolCall.codec.enc first).text then
      .ok { m with toolCall := none }
    else .error (.invalidWith (go "conflicting projected tool call alias"))
  | _, _ => .ok m

/-- The item of a message in a layer and a group. -/
def itemOf (current : Bool) (layer : Layer) (groupID : GoString) (m : ChatMessage) (i : ℕ) :
    Item where
  message := m
  layer := layer
  sourceID := sourceID m i
  revision :=
    match m.provenance with
    | some p => if p.revision = .empty then go (toString m.sourceSeq) else p.revision
    | none => go (toString m.sourceSeq)
  lineage := []
  groupID := groupID
  priority := if current then 300 else if isSummary m then 200 else 100
  required := current

/-- A tool result: it belongs to the group of its call, is left out as a nested
result, or stands alone. -/
def resultItem (a : Assembler τ) (messages : List ChatMessage) (groups : Groups) (m : ChatMessage)
    (i : ℕ) : Except AssemblyError (Option Item) :=
  let latest := latestUser messages
  let shown : ChatMessage :=
    if latest.any (i < ·) && decide (a.maxToolResultBytes < Int64.ofNat m.content.len) then
      { m with content := toolMarker m.content }
    else m
  let item := itemOf (latest.any (· ≤ i)) .toolResults (groups.get m.toolCallID) shown i
  if groups.get m.toolCallID ≠ .empty then .ok (some item)
  else
    match (parentIDs m.toolCallID.runeCount m.toolCallID).find? fun p => groups.get p ≠ .empty with
    | some parent =>
      if resultPosition messages parent ≤ i then
        .error (.invalidWith (go "nested tool result has no completed parent"))
      else .ok none
    | none => do
        require (!m.toolCallID.anyRune (· == '/')) .invalid
        return some item

/-- One round of the loop: the groups after it and the item, if there is one. -/
def itemStep (a : Assembler τ) (ctx : RequestContext) (messages : List ChatMessage)
    (groups : Groups) (m : ChatMessage) (i : ℕ) : Except AssemblyError (Groups × Option Item) := do
  require (!ctx.endedAt i) .context
  let m ← normalizeAlias m
  let current := (latestUser messages).any (· ≤ i)
  let layer := if isSummary m then Layer.summary else .recent
  if m.role = .assistant ∧ callsOf m ≠ [] then
    return ((callsOf m).foldl (fun g call => (call.id, toolGroup m i) :: g) groups,
      some (itemOf current layer (toolGroup m i) m i))
  else if m.role = .tool then
    return (groups, ← resultItem a messages groups m i)
  else return (groups, some (itemOf current layer .empty m i))

/-- The loop over the messages from a position on, with the position of each item's
message. -/
def itemsLoop (a : Assembler τ) (ctx : RequestContext) (messages : List ChatMessage) :
    ℕ → List ChatMessage → Groups → Except AssemblyError (List (ℕ × Item))
  | _, [], _ => .ok []
  | i, m :: rest, groups => do
      let (groups, item) ← itemStep a ctx messages groups m i
      let later ← itemsLoop a ctx messages (i + 1) rest groups
      return (item.toList.map fun item => (i, item)) ++ later

def Assembler.items (a : Assembler τ) (ctx : RequestContext) (messages : List ChatMessage) :
    Except AssemblyError (List Item) :=
  (itemsLoop a ctx messages 0 messages []).map fun placed => placed.map snd

/-! ## Assembly -/

structure ModelContext (τ : Type) where
  system : GoString
  messages : List ChatMessage
  tools : List τ
  contextWindowTokens : Int64
  maxOutputTokens : Int64
  inputBytes : Int64
  inputTokens : Int64
  droppedGroups : ℕ

def safeEstimateTools (a : Assembler τ) (tools : List τ) : Except AssemblyError Cost :=
  if tools.isEmpty then .ok .zero
  else do
    let cost ← a.estimateTools tools
    require (validCost cost ∧ cost.bytes ≠ 0 ∧ cost.tokens ≠ 0) .invalid
    return cost

def droppedGroups (e : Evidence) : ℕ :=
  if 0 < e.droppedGroups then e.droppedGroups
  else
    (e.droppedItems.map fun item =>
      if item.groupID = .empty then item.sourceID else item.groupID).dedup.length

/-- The request that `AssembleModelContext` makes of `Assemble`. -/
def Assembler.request (a : Assembler τ) (request : ModelContext τ) (tools : Cost)
    (items : List Item) : Request where
  budget := ⟨Int64.ofNat maxBytes,
    request.contextWindowTokens - request.maxOutputTokens - a.safetyMargin, fun _ => none,
    fun _ => none⟩
  estimator := some a.estimator
  requiredSystem := request.system
  requiredProfile := .empty
  requiredTools := tools
  items := items
  lightweightEvidence := true

def assembleModelContext (a : Assembler τ) (ctx : RequestContext) (request : ModelContext τ) :
    Except AssemblyError (ModelContext τ) := do
  require (0 < request.contextWindowTokens ∧ 0 < request.maxOutputTokens ∧
    request.maxOutputTokens + a.safetyMargin < request.contextWindowTokens) (.budgetExceeded .empty)
  require (!ctx.ended) .context
  let tools ← safeEstimateTools a request.tools
  let items ← a.items ctx request.messages
  let result ← assemble (some ctx.toContext) (a.request request tools items)
  return {
    system := result.system, messages := result.messages, tools := []
    contextWindowTokens := request.contextWindowTokens
    maxOutputTokens := request.maxOutputTokens
    inputBytes := result.evidence.used.bytes, inputTokens := result.evidence.used.tokens
    droppedGroups := droppedGroups result.evidence }

/-! ## Calls and their results -/

def Requests (m : ChatMessage) (id : GoString) : Prop :=
  m.role = .assistant ∧ id ∈ (callsOf m).map ToolCall.id

/-- The message at `j` is a result of a call of the message at `i`: the last message
before it that requests the id. -/
def Pairs (messages : List ChatMessage) (i j : ℕ) : Prop :=
  ∃ caller result, i < j ∧ messages[i]? = some caller ∧ messages[j]? = some result ∧
    result.role = .tool ∧ Requests caller result.toolCallID ∧
    ∀ k m, i < k → k < j → messages[k]? = some m → ¬Requests m result.toolCallID

/-- How a message of the history appears in a context: its content may be replaced by
a marker if it is a tool result. -/
structure Renders (m shown : ChatMessage) : Prop where
  role : shown.role = m.role
  toolCallID : shown.toolCallID = m.toolCallID
  calls : callsOf shown = callsOf m
  content : shown.content = m.content ∨ m.role = .tool ∧ shown.content = toolMarker m.content

variable {a : Assembler τ} {ctx : RequestContext} {messages : List ChatMessage}
  {groups groups' : Groups} {m m' : ChatMessage} {i : ℕ} {item : Option Item}

theorem toolGroup_ne_empty : toolGroup m i ≠ .empty := by
  intro absurd
  have runes := congrArg GoString.runes absurd
  exact cons_ne_nil _ _ (append_eq_nil_iff.mp runes).1

theorem get_of_calls (calls : List ToolCall) (group id : GoString) :
    Groups.get (calls.foldl (fun g call => (call.id, group) :: g) groups) id =
      if id ∈ calls.map ToolCall.id then group else groups.get id := by
  induction calls generalizing groups with
  | nil => simp
  | cons call calls ih =>
    rw [foldl_cons, ih, map_cons]
    by_cases later : id ∈ calls.map ToolCall.id
    · simp [later]
    · by_cases own : id = call.id
      · subst own
        simp [later, Groups.get]
      · have skip : (id == call.id) = false := beq_eq_false_iff_ne.mpr own
        simp [later, own, Groups.get, lookup_cons, skip]

/-- The message without its alias is the same message. -/
theorem normalizeAlias_spec (h : normalizeAlias m = .ok m') :
    m'.role = m.role ∧ m'.toolCallID = m.toolCallID ∧ callsOf m' = callsOf m ∧
      m'.content = m.content ∧ m'.sourceSeq = m.sourceSeq := by
  unfold normalizeAlias at h
  split at h
  next own first rest _ calls =>
    split at h
    · cases h
      simp [callsOf, calls]
    · cases h
  · cases h
    exact ⟨rfl, rfl, rfl, rfl, rfl⟩

/-- The item of a tool result, which has one if its id has been requested. -/
theorem resultItem_spec (tool : m.role = .tool) (h : resultItem a messages groups m i = .ok item) :
    (∀ it, item = some it → Renders m it.message) ∧
    (groups.get m.toolCallID ≠ .empty →
      ∃ it, item = some it ∧ it.groupID = groups.get m.toolCallID) := by
  unfold resultItem at h
  dsimp only at h
  generalize shown_eq : (if (latestUser messages).any (i < ·) &&
      decide (a.maxToolResultBytes < Int64.ofNat m.content.len) then
    { m with content := toolMarker m.content } else m) = shown at h
  have renders : Renders m shown := by
    subst shown_eq
    split
    · exact ⟨rfl, rfl, rfl, .inr ⟨tool, rfl⟩⟩
    · exact ⟨rfl, rfl, rfl, .inl rfl⟩
  by_cases requested : groups.get m.toolCallID ≠ .empty
  · rw [if_pos requested] at h
    cases h
    refine ⟨fun it own => ?_, fun _ => ⟨_, rfl, rfl⟩⟩
    cases own
    exact renders
  · rw [if_neg requested] at h
    refine ⟨fun it own => ?_, fun known => absurd known requested⟩
    subst own
    split at h
    · split at h
      · cases h
      · cases h
    · obtain ⟨_, _, h⟩ := bind_eq_ok.mp h
      cases h
      exact renders

/-- One round of the loop: who requests an id takes it over, and the item of a caller
and of a requested result are in the group of the caller. -/
theorem itemStep_spec (h : itemStep a ctx messages groups m i = .ok (groups', item)) :
    (∀ id, Requests m id → groups'.get id = toolGroup m i) ∧
    (∀ id, ¬Requests m id → groups'.get id = groups.get id) ∧
    (∀ it, item = some it → Renders m it.message) ∧
    (∀ id, Requests m id → ∃ it, item = some it ∧ it.groupID = toolGroup m i) ∧
    (m.role = .tool → groups.get m.toolCallID ≠ .empty →
      ∃ it, item = some it ∧ it.groupID = groups.get m.toolCallID) := by
  obtain ⟨_, _, h⟩ := bind_eq_ok.mp h
  obtain ⟨m', normal, h⟩ := bind_eq_ok.mp h
  obtain ⟨role, callID, calls, content, seq⟩ := normalizeAlias_spec normal
  have group : toolGroup m' i = toolGroup m i := by simp only [toolGroup, sourceID, seq]
  have renders : Renders m m' := ⟨role, callID, calls, .inl content⟩
  have asks : ∀ id, Requests m id → m'.role = .assistant ∧ callsOf m' ≠ [] := by
    rintro id ⟨assistant, mem⟩
    refine ⟨role.trans assistant, fun none => ?_⟩
    rw [← calls, none] at mem
    cases mem
  by_cases caller : m'.role = .assistant ∧ callsOf m' ≠ []
  · rw [if_pos caller] at h
    cases h
    refine ⟨fun id own => ?_, fun id other => ?_, fun it own => ?_, fun _ _ => ⟨_, rfl, group⟩,
      fun tool => ?_⟩
    · rw [get_of_calls, if_pos (calls ▸ own.2), group]
    · rw [get_of_calls, if_neg fun mem => other ⟨role ▸ caller.1, calls ▸ mem⟩]
    · cases own
      exact renders
    · rw [← role, caller.1] at tool
      cases tool
  · rw [if_neg caller] at h
    have silent : ∀ id, ¬Requests m id := fun id own => caller (asks id own)
    by_cases tool : m'.role = .tool
    · rw [if_pos tool] at h
      obtain ⟨result, placed, h⟩ := bind_eq_ok.mp h
      cases h
      obtain ⟨shown, requested⟩ := resultItem_spec tool placed
      refine ⟨fun id own => absurd own (silent id), fun _ _ => rfl, fun it own => ?_,
        fun id own => absurd own (silent id), fun _ known => callID ▸ requested (callID ▸ known)⟩
      have inner := shown it own
      exact ⟨inner.role.trans role, inner.toolCallID.trans callID, inner.calls.trans calls, by
        rw [← content, ← role]; exact inner.content⟩
    · rw [if_neg tool] at h
      cases h
      refine ⟨fun id own => absurd own (silent id), fun _ _ => rfl, fun it own => ?_,
        fun id own => absurd own (silent id), fun own => absurd (role.trans own) tool⟩
      cases own
      exact renders

variable {placed : List (ℕ × Item)} {rest : List ChatMessage}

/-- The positions of the items increase, and each item renders its message. -/
theorem itemsLoop_positions (h : itemsLoop a ctx messages i rest groups = .ok placed) :
    (placed.map fst).Pairwise (· < ·) ∧
      ∀ x ∈ placed, ∃ k m, x.1 = i + k ∧ rest[k]? = some m ∧ Renders m x.2.message := by
  induction rest generalizing i groups placed with
  | nil =>
    cases h
    exact ⟨.nil, nofun⟩
  | cons m rest ih =>
    obtain ⟨⟨groups', item⟩, step, h⟩ := bind_eq_ok.mp h
    obtain ⟨later, loop, h⟩ := bind_eq_ok.mp h
    cases h
    obtain ⟨increasing, known⟩ := ih loop
    have after : ∀ x ∈ later, i < x.1 := by
      intro x mem
      obtain ⟨k, _, position, _⟩ := known x mem
      omega
    have known' : ∀ x ∈ later, ∃ k m', x.1 = i + k ∧ (m :: rest)[k]? = some m' ∧
        Renders m' x.2.message := by
      intro x mem
      obtain ⟨k, m', position, own, renders⟩ := known x mem
      exact ⟨k + 1, m', by omega, own, renders⟩
    cases item with
    | none => exact ⟨by simpa using increasing, by simpa using known'⟩
    | some it =>
      have renders := (itemStep_spec step).2.2.1 it rfl
      refine ⟨?_, ?_⟩
      · refine pairwise_cons.mpr ⟨fun j mem => ?_, increasing⟩
        obtain ⟨x, own, rfl⟩ := mem_map.mp mem
        exact after x own
      · refine forall_mem_cons.mpr ⟨⟨0, m, rfl, rfl, renders⟩, known'⟩

/-- A result whose id has a group, and that nobody requests again before it, is in
that group. -/
theorem itemsLoop_result {result : ChatMessage} {k : ℕ}
    (h : itemsLoop a ctx messages i rest groups = .ok placed) (own : rest[k]? = some result)
    (tool : result.role = .tool) (known : groups.get result.toolCallID ≠ .empty)
    (quiet : ∀ k' m, k' < k → rest[k']? = some m → ¬Requests m result.toolCallID) :
    ∃ it, (i + k, it) ∈ placed ∧ it.groupID = groups.get result.toolCallID := by
  induction rest generalizing i groups placed k with
  | nil => simp at own
  | cons m rest ih =>
    obtain ⟨⟨groups', item⟩, step, h⟩ := bind_eq_ok.mp h
    obtain ⟨later, loop, h⟩ := bind_eq_ok.mp h
    cases h
    have spec := itemStep_spec step
    cases k with
    | zero =>
      cases own
      obtain ⟨it, rfl, group⟩ := spec.2.2.2.2 tool known
      exact ⟨it, mem_append_left _ (by simp), group⟩
    | succ k =>
      have same := spec.2.1 _ (quiet 0 m (by omega) rfl)
      obtain ⟨it, mem, group⟩ := ih loop own (same ▸ known)
        fun k' m' lt at_ => quiet (k' + 1) m' (by omega) at_
      refine ⟨it, mem_append_right _ ?_, group.trans same⟩
      rwa [Nat.add_right_comm, Nat.add_assoc] at mem

/-- A caller and a result of one of its calls are in one group. -/
theorem itemsLoop_pairs {j k : ℕ} (h : itemsLoop a ctx messages i rest groups = .ok placed)
    (pair : Pairs rest j k) :
    ∃ x y, (i + j, x) ∈ placed ∧ (i + k, y) ∈ placed ∧ x.groupID ≠ .empty ∧
      x.groupID = y.groupID := by
  induction rest generalizing i groups placed j k with
  | nil =>
    obtain ⟨_, _, _, own, _⟩ := pair
    simp at own
  | cons m rest ih =>
    obtain ⟨⟨groups', item⟩, step, h⟩ := bind_eq_ok.mp h
    obtain ⟨later, loop, h⟩ := bind_eq_ok.mp h
    cases h
    obtain ⟨caller, result, lt, first, second, tool, asks, quiet⟩ := pair
    obtain ⟨k, rfl⟩ : ∃ k', k = k' + 1 := ⟨k - 1, by omega⟩
    cases j with
    | zero =>
      -- the caller is the first message, and the rest begins with its groups
      cases first
      have spec := itemStep_spec step
      obtain ⟨x, rfl, group⟩ := spec.2.2.2.1 _ asks
      have taken := spec.1 _ asks
      obtain ⟨y, mem, group'⟩ := itemsLoop_result loop second tool
        (taken ▸ toolGroup_ne_empty) fun k' m' lt at_ => quiet (k' + 1) m' (by omega) (by omega) at_
      refine ⟨x, y, mem_append_left _ (by simp), mem_append_right _ ?_,
        group ▸ toolGroup_ne_empty, by rw [group, group', taken]⟩
      rwa [Nat.add_right_comm, Nat.add_assoc] at mem
    | succ j =>
      have inner : Pairs rest j k := ⟨caller, result, by omega, first, second, tool, asks,
        fun k' m' low high at_ => quiet (k' + 1) m' (by omega) (by omega) at_⟩
      obtain ⟨x, y, hx, hy, grouped, same⟩ := ih loop inner
      refine ⟨x, y, mem_append_right _ ?_, mem_append_right _ ?_, grouped, same⟩
      · rwa [Nat.add_right_comm, Nat.add_assoc] at hx
      · rwa [Nat.add_right_comm, Nat.add_assoc] at hy

/-! ## Pairs stay together -/

/-- The number of an entry is among those of the selected places if its place is
selected. -/
theorem mem_kept_iff {selected : List ℕ} {n p : ℕ} {it : Item}
    (distinct : (placed.map fst).Nodup) (own : placed[p]? = some (n, it)) :
    n ∈ (placed.zipIdx.filter fun x => selected.contains x.2).map (fun x => x.1.1) ↔
      p ∈ selected := by
  simp only [mem_map, mem_filter, contains_iff_mem]
  constructor
  · rintro ⟨⟨⟨n', it'⟩, p'⟩, ⟨mem, chosen⟩, rfl⟩
    have here := mem_zipIdx_iff_getElem?.mp mem
    have there : (placed.map fst)[p']? = (placed.map fst)[p]? := by
      rw [getElem?_map, getElem?_map, here, own]
      rfl
    have bound : p' < (placed.map fst).length := by
      rw [length_map]
      exact (List.getElem?_eq_some_iff.mp here).1
    exact (getElem?_inj bound distinct).mp there ▸ chosen
  · exact fun chosen => ⟨((n, it), p), ⟨mem_zipIdx_iff_getElem?.mpr own, chosen⟩, rfl⟩

/-- The messages of a context are messages of the history, in its order, and a message
with calls is among them if and only if each result that the history has for one of its
calls is: a result belongs to the last message before it that requests its id. -/
theorem pairs_stay_together {request out : ModelContext τ}
    (h : assembleModelContext a ctx request = .ok out) :
    ∃ shown : List (ℕ × ChatMessage), out.messages = shown.map snd ∧
      (shown.map fst).Pairwise (· < ·) ∧
      (∀ x ∈ shown, ∃ m, request.messages[x.1]? = some m ∧ Renders m x.2) ∧
      ∀ i j, Pairs request.messages i j → (i ∈ shown.map fst ↔ j ∈ shown.map fst) := by
  obtain ⟨_, _, h⟩ := bind_eq_ok.mp h
  obtain ⟨_, _, h⟩ := bind_eq_ok.mp h
  obtain ⟨tools, _, h⟩ := bind_eq_ok.mp h
  obtain ⟨items, loop, h⟩ := bind_eq_ok.mp h
  obtain ⟨result, assembled, h⟩ := bind_eq_ok.mp h
  cases h
  obtain ⟨placed, placing, rfl⟩ := map_eq_ok.mp loop
  obtain ⟨t, paid, _, messages⟩ := tally_of_assemble assembled
  obtain ⟨increasing, known⟩ := itemsLoop_positions placing
  -- the placed items that are selected, with their positions in the list of items
  generalize chosen_eq : placed.zipIdx.filter (fun x => t.selected.contains x.2) = kept
  have items_kept : chosen (placed.map snd) t.selected = kept.map fun x => x.1.2 := by
    subst chosen_eq
    rw [chosen, zipIdx_map, filter_map, map_map]
    rfl
  have position : ∀ {n : ℕ} {it : Item} {p : ℕ}, placed[p]? = some (n, it) →
      (n ∈ (kept.map fun x => (x.1.1, x.1.2.message)).map fst ↔ p ∈ t.selected) := by
    intro n it p own
    subst chosen_eq
    rw [map_map]
    exact mem_kept_iff (increasing.imp Nat.ne_of_lt) own
  refine ⟨kept.map fun x => (x.1.1, x.1.2.message), ?_, ?_, fun x mem => ?_, fun i j pair => ?_⟩
  · show result.messages = _
    rw [messages]
    show (chosen (placed.map snd) t.selected).map Item.message = _
    rw [items_kept, map_map, map_map]
    rfl
  · have sub : (kept.map fun x => x.1).Sublist placed := by
      subst chosen_eq
      have whole : placed.zipIdx.map fst = placed := zipIdx_map_fst 0 placed
      conv_rhs => rw [← whole]
      exact filter_sublist.map _
    have inner := increasing.sublist (sub.map fst)
    rw [map_map] at inner ⊢
    exact inner
  · obtain ⟨y, own, rfl⟩ := mem_map.mp mem
    subst chosen_eq
    have listed : y.1 ∈ placed := mem_of_getElem? (mem_zipIdx_iff_getElem?.mp (mem_filter.mp own).1)
    obtain ⟨k, m, at_, own, renders⟩ := known y.1 listed
    exact ⟨m, by rw [at_, Nat.zero_add]; exact own, renders⟩
  · obtain ⟨x, y, hx, hy, grouped, same⟩ := itemsLoop_pairs placing pair
    rw [Nat.zero_add] at hx hy
    obtain ⟨p, hp⟩ := mem_iff_getElem?.mp hx
    obtain ⟨q, hq⟩ := mem_iff_getElem?.mp hy
    rw [position hp, position hq]
    refine selected_iff paid ?_ ?_ grouped same
    · show (placed.map snd)[p]? = some x
      rw [getElem?_map, hp]
      rfl
    · show (placed.map snd)[q]? = some y
      rw [getElem?_map, hq]
      rfl

/-- An assembler with the defaults, for which tools cost nothing much. -/
def exampleAssembler : Assembler Unit := ⟨1024, 4096, .conservative, fun _ => .ok ⟨1, 1⟩⟩

/-- A history without a system text and tools. -/
def exampleHistory (messages : List ChatMessage) : ModelContext Unit :=
  ⟨.empty, messages, [], 10000, 100, 0, 0, 0⟩

/-- A context that does not end. -/
def calm : RequestContext := ⟨⟨fun _ => false⟩, false, fun _ => false⟩

def exampleCall (seq : ℕ) : ChatMessage :=
  ⟨.assistant, .empty, none, [⟨go "c", go "t", [], .empty⟩], .empty, seq, none⟩

def exampleResult (seq : ℕ) : ChatMessage := ⟨.tool, go "r", none, [], go "c", seq, none⟩

/-- A call without a result passes, and so does a result without a call. -/
theorem halves_pass :
    (∃ out, assembleModelContext exampleAssembler calm (exampleHistory [exampleCall 1]) = .ok out ∧
      out.messages = [exampleCall 1]) ∧
    ∃ out, assembleModelContext exampleAssembler calm (exampleHistory [exampleResult 1]) = .ok out ∧
      out.messages = [exampleResult 1] := by
  exact ⟨⟨_, rfl, rfl⟩, _, rfl, rfl⟩

/-- A call whose id is used again. -/
def reusedHistory : ModelContext Unit :=
  exampleHistory [exampleCall 1, exampleResult 2, exampleCall 3, exampleResult 4]

theorem pairs_stay_together_reused :
    ∃ out, assembleModelContext exampleAssembler calm reusedHistory = .ok out ∧
      ∃ shown : List (ℕ × ChatMessage), out.messages = shown.map snd ∧
        (2 ∈ shown.map fst ↔ 3 ∈ shown.map fst) := by
  have pair : Pairs reusedHistory.messages 2 3 :=
    ⟨exampleCall 3, exampleResult 4, by decide, rfl, rfl, rfl, ⟨rfl, mem_cons_self⟩,
      fun k m low high => by omega⟩
  obtain ⟨out, assembled⟩ :
      ∃ out, assembleModelContext exampleAssembler calm reusedHistory = .ok out := ⟨_, rfl⟩
  obtain ⟨shown, messages, _, _, together⟩ := pairs_stay_together assembled
  refine ⟨out, assembled, ?_⟩
  exact ⟨shown, messages, together 2 3 pair⟩

end AutoAgent.ContextAssembly
