import AutoAgent.Core.Messages
import AutoAgent.Lib.Gather
import Mathlib.Data.List.Sort

/-!
# Assembling a context within a budget

`Assemble` chooses, from the messages of a conversation, those that fit a budget of
bytes and tokens.  The system and profile texts and the tool declarations are paid
for first.  The items are then gathered into groups that may not be split, the
groups are sorted, and each is taken if it still fits.

**Costs** are `int64` values, added and compared as the machine does.  Estimators
are those of the package, or any other cost function; one that panics has reported
`ErrInvalid`.

**Evidence** says what was paid and for which items.  The lightweight mode leaves
out the lists of items, and hands out the messages themselves in place of copies.
-/

namespace AutoAgent.ContextAssembly

/-! ## Layers, costs and budgets -/

/-- `Layer`; other strings are not valid layers. -/
inductive Layer where
  | system | profile | summary | recent | toolResults | tools
  deriving DecidableEq

def Layer.text : Layer → GoString
  | .system => go "system"
  | .profile => go "profile"
  | .summary => go "summary"
  | .recent => go "recent"
  | .toolResults => go "tool_results"
  | .tools => go "tools"

/-- The layers a map of costs may have. -/
def Layer.all : List Layer := [.system, .profile, .summary, .recent, .toolResults, .tools]

def maxItems : ℕ := 4096

/-- `MaxBytes` and `MaxTokens`. -/
def maxBytes : ℕ := 16 * 2 ^ 20

def maxLineageRefs : ℕ := 16

def maxMetadataBytes : ℕ := 1024

inductive AssemblyError where
  /-- `invalid context assembly` -/
  | invalid
  /-- `invalid context assembly`, with what is invalid -/
  | invalidWith (what : GoString)
  /-- `context budget exceeded`, with what did not fit -/
  | budgetExceeded (required : GoString)
  /-- the error of a context that has ended -/
  | context
  /-- an error of an estimator -/
  | estimator (text : GoString)
  deriving DecidableEq

structure Cost where
  bytes : Int64
  tokens : Int64
  deriving DecidableEq

/-- `Cost{}`. -/
def Cost.zero : Cost := ⟨0, 0⟩

def addCost (a b : Cost) : Cost := ⟨a.bytes + b.bytes, a.tokens + b.tokens⟩

def validCost (c : Cost) : Bool :=
  0 ≤ c.bytes ∧ c.bytes ≤ Int64.ofNat maxBytes ∧ 0 ≤ c.tokens ∧ c.tokens ≤ Int64.ofNat maxBytes

/-- A `map[Layer]Cost`. -/
abbrev LayerCosts := Layer → Option Cost

/-- `by[l]`. -/
def LayerCosts.get (costs : LayerCosts) (l : Layer) : Cost := (costs l).getD .zero

/-- `by[l] = addCost(by[l], c)`. -/
def LayerCosts.add (costs : LayerCosts) (l : Layer) (c : Cost) : LayerCosts :=
  Function.update costs l (some (addCost (costs.get l) c))

/-- `Budget`.  No total of tokens is set when `totalTokens` is zero, and a layer
without an entry has no cap of its own. -/
structure Budget where
  totalBytes : Int64
  totalTokens : Int64
  layerBytes : Layer → Option Int64
  layerTokens : Layer → Option Int64

variable (b : Budget)

def Budget.validate : Except AssemblyError Unit := do
  require (0 < b.totalBytes ∧ b.totalBytes ≤ Int64.ofNat maxBytes ∧ 0 ≤ b.totalTokens ∧
    b.totalTokens ≤ Int64.ofNat maxBytes) .invalid
  require (Layer.all.all fun l => (b.layerBytes l).all fun n =>
    0 ≤ n ∧ n ≤ b.totalBytes) .invalid
  require (Layer.all.all fun l => (b.layerTokens l).all fun n =>
    0 ≤ n ∧ n ≤ Int64.ofNat maxBytes ∧ ¬(0 < b.totalTokens ∧ b.totalTokens < n)) .invalid

/-- The checks of the caps of a layer that `fits` and `fitsGroup` share. -/
def fitsLayer (l : Layer) (c : Cost) (spent : LayerCosts) : Bool :=
  ((b.layerBytes l).all fun n => ¬n - (spent.get l).bytes < c.bytes) &&
    (b.layerTokens l).all fun n => ¬n - (spent.get l).tokens < c.tokens

/-- The checks of the totals that `fits` and `fitsGroup` share. -/
def fitsTotal (c used : Cost) : Bool :=
  ¬b.totalBytes - used.bytes < c.bytes ∧
    ¬(0 < b.totalTokens ∧ b.totalTokens - used.tokens < c.tokens)

def fits (l : Layer) (c used : Cost) (spent : LayerCosts) : Bool :=
  fitsTotal b c used && fitsLayer b l c spent

def fitsGroup (total used : Cost) (spent group : LayerCosts) : Bool :=
  fitsTotal b total used && Layer.all.all fun l => (group l).all fun c => fitsLayer b l c spent

/-! ## Texts and messages -/

/-- `validateText` and `validateMetadata`. -/
def validateText (s : GoString) (max : ℕ) (allowEmpty : Bool) : Except AssemblyError Unit :=
  if s = .empty ∧ allowEmpty then .ok ()
  else do
    require (s ≠ .empty ∧ s.len ≤ max ∧ s.valid ∧ !s.anyRune (· == '\x00')) .invalid
    require (!s.anyRune fun c => GoString.isUnicodeControl c ||
      GoString.isFormatOrPrivate c) .invalid

def validatePromptText (s : GoString) : Except AssemblyError Unit :=
  require (s.len ≤ maxBytes ∧ s.valid ∧ !s.anyRune (· == '\x00')) .invalid

def validateIdentifier (s : GoString) (max : ℕ) (allowEmpty : Bool) :
    Except AssemblyError Unit := do
  validateText s max allowEmpty
  require (¬(s ≠ .empty ∧ s.trimSpace ≠ s)) .invalid

/-- The check of one call of a message, after the ids of those before it.
`ValidateJSONValue` accepts every value without a schema. -/
def checkToolCall (ids : List GoString) (tc : ToolCall) : Except AssemblyError (List GoString) := do
  require (tc.continuation.len ≤ 64 * 2 ^ 10 ∧ tc.continuation.valid) .invalid
  validateIdentifier tc.id maxMetadataBytes false
  validateIdentifier tc.name maxMetadataBytes false
  require (!ids.contains tc.id) .invalid
  require (((Codec.map .any).enc tc.args).size ≤ maxBytes) .invalid
  return tc.id :: ids

variable (m : ChatMessage)

/-- `validateMessage`; messages have one of its three roles. -/
def validateMessage : Except AssemblyError Unit := do
  require (m.content.valid && !m.content.anyRune (· == '\x00')) .invalid
  require (¬(m.role == .user ∧ (m.toolCall.isSome ∨ !m.toolCalls.isEmpty ∨ m.toolCallID ≠ .empty)))
    .invalid
  require (¬(m.role == .assistant ∧ m.toolCallID ≠ .empty)) .invalid
  if m.toolCallID ≠ .empty then validateIdentifier m.toolCallID maxMetadataBytes false else .ok ()
  require (¬(m.role == .tool ∧ (m.toolCall.isSome ∨ !m.toolCalls.isEmpty ∨ m.toolCallID = .empty)))
    .invalid
  require (!(m.toolCall.isSome && !m.toolCalls.isEmpty)) .invalid
  let _ ← (m.toolCall.toList ++ m.toolCalls).foldlM checkToolCall []
  return ()

/-! ## Estimators -/

/-- What one character adds to `jsonStringUpperBound`. -/
def jsonRuneBytes : GoRune → ℕ
  | .invalid _ => 1
  | .rune c =>
    if ['"', '\\', '\x08', '\x0c', '\n', '\r', '\t'].contains c then 2
    else if ['<', '>', '&', '\u2028', '\u2029'].contains c then 6
    else if c.toNat < 0x20 then 6 else (GoRune.rune c).size

def jsonStringUpperBound (s : GoString) : Except AssemblyError Int64 := do
  require s.valid .invalid
  return Int64.ofNat (2 + (s.runes.map jsonRuneBytes).sum)

/-- `jsonValueBytes` of a call. -/
def jsonValueBytes (tc : ToolCall) : Int64 := Int64.ofNat (ToolCall.codec.enc tc).size

def roleText : ChatRole → GoString
  | .user => go "user"
  | .assistant => go "assistant"
  | .tool => go "tool"

/-- `ByteEstimator.estimateValidated`. -/
def byteCost : Except AssemblyError Cost := do
  let role ← jsonStringUpperBound (roleText m.role)
  let content ← jsonStringUpperBound m.content
  let calls := (m.toolCall.toList ++ m.toolCalls).foldl (fun n tc => n + (64 + jsonValueBytes tc))
    (64 + role + content)
  let id ← jsonStringUpperBound m.toolCallID
  return ⟨calls + id, 0⟩

def utf8ByteUpperBoundTokens (text : GoString) : Except AssemblyError Int64 := do
  require text.valid .invalid
  require (!text.anyRune (· == '\x00')) .invalid
  return Int64.ofNat text.len

/-- The model has one value for the arguments `nil`, which cost nothing, and for an empty map, which
costs two in the source. -/
def toolCallTokens (call : ToolCall) : Except AssemblyError Int64 := do
  let id ← utf8ByteUpperBoundTokens call.id
  let name ← utf8ByteUpperBoundTokens call.name
  -- the text of `json.Marshal` is valid and without NUL
  let args := if call.args.isEmpty then 0 else Int64.ofNat ((Codec.map .any).enc call.args).size
  let continuation ← utf8ByteUpperBoundTokens call.continuation
  return id + name + args + continuation + 8

/-- `ConservativeEstimator.estimateValidated`. -/
def conservativeCost : Except AssemblyError Cost := do
  let bytes ← byteCost m
  let content ← utf8ByteUpperBoundTokens m.content
  let calls ← (m.toolCall.toList ++ m.toolCalls).foldlM
    (fun n tc => (toolCallTokens tc).map (n + ·)) content
  let tokens ←
    if m.toolCallID = .empty then pure calls
    else (utf8ByteUpperBoundTokens m.toolCallID).map fun n => calls + (n + 2)
  return ⟨bytes.bytes, tokens + 4⟩

/-- A `BudgetEstimator`: one of the two of the package, or another. -/
inductive Estimator where
  | byte
  | conservative
  | custom (estimate : ChatMessage → Except AssemblyError Cost)
      (estimateFragment : Layer → GoString → Except AssemblyError Cost)

/-- `safeEstimate`, on a message that has been validated. -/
def safeEstimate : Estimator → ChatMessage → Except AssemblyError Cost
  | .byte, m => byteCost m
  | .conservative, m => conservativeCost m
  | .custom estimate _, m => estimate m

def safeFragmentEstimate : Estimator → Layer → GoString → Except AssemblyError Cost
  | .byte, _, text => .ok ⟨Int64.ofNat text.len + 32, 0⟩
  | .conservative, _, text => do
      let tokens ← utf8ByteUpperBoundTokens text
      return ⟨Int64.ofNat text.len + 32, tokens + 4⟩
  | .custom _ estimateFragment, layer, text => estimateFragment layer text

/-! ## Requests and results -/

structure Item where
  message : ChatMessage
  layer : Layer
  sourceID : GoString
  revision : GoString
  lineage : List GoString
  groupID : GoString
  priority : ℤ
  required : Bool

/-- `Request`; an estimator that is nil is `none`. -/
structure Request where
  budget : Budget
  estimator : Option Estimator
  requiredSystem : GoString
  requiredProfile : GoString
  requiredTools : Cost
  items : List Item
  lightweightEvidence : Bool

structure EvidenceItem where
  sourceID : GoString
  revision : GoString
  groupID : GoString
  reason : GoString
  layer : Layer
  lineage : List GoString

structure Evidence where
  used : Cost
  byLayer : LayerCosts
  selected : ℕ
  dropped : ℕ
  droppedGroups : ℕ
  selectedItems : List EvidenceItem
  droppedItems : List EvidenceItem

structure Result where
  system : GoString
  profile : GoString
  messages : List ChatMessage
  evidence : Evidence

def Item.validate (it : Item) : Except AssemblyError Unit := do
  validateMessage it.message
  require (!(it.layer == .system || it.layer == .profile || it.layer == .tools) ∧
    it.sourceID ≠ .empty ∧ it.revision ≠ .empty ∧ it.lineage.length ≤ maxLineageRefs ∧
    0 ≤ it.priority ∧ it.priority ≤ 10000) .invalid
  [it.sourceID, it.revision, it.groupID].forM fun s => validateIdentifier s maxMetadataBytes true
  it.lineage.forM fun s => validateIdentifier s maxMetadataBytes true

def Request.validate (r : Request) : Except AssemblyError Unit := do
  (r.budget.validate).mapError fun _ => .invalid
  require (r.estimator.isSome ∧ r.items.length ≤ maxItems) .invalid
  require (validCost r.requiredTools) .invalid
  [r.requiredSystem, r.requiredProfile].forM validatePromptText
  r.items.forM Item.validate

/-! ## Assembly -/

/-- A `context.Context`, with its answers to `Err` before the texts are paid for. -/
structure Context where
  endedBefore : Layer → Bool

/-- What has been paid, and for which items. -/
structure Tally where
  used : Cost
  evidence : Evidence
  /-- the positions `i` with `selected[i]` -/
  selected : List ℕ

/-- The tally before anything is paid. -/
def Tally.start : Tally :=
  ⟨.zero, ⟨.zero, fun _ => none, 0, 0, 0, [], []⟩, []⟩

/-- The closure `add`: pay for a required text. -/
def Tally.addText (e : Estimator) (ctx : Context) (layer : Layer) (text : GoString) (t : Tally)
    : Except AssemblyError Tally :=
  if text = .empty then .ok t
  else do
    require (!ctx.endedBefore layer) .context
    let c ← safeFragmentEstimate e layer text
    require (validCost c) .invalid
    require (fits b layer c t.used t.evidence.byLayer)
      (.budgetExceeded (go "required " ++ layer.text))
    return { t with
      used := addCost t.used c
      evidence := { t.evidence with byLayer := t.evidence.byLayer.add layer c } }

def Tally.addTools (tools : Cost) (t : Tally) : Except AssemblyError Tally := do
  require (fits b .tools tools t.used t.evidence.byLayer) (.budgetExceeded (go "required tools"))
  return { t with
    used := addCost t.used tools
    evidence := { t.evidence with
      byLayer :=
        if tools = .zero then t.evidence.byLayer
        else Function.update t.evidence.byLayer .tools (some tools) } }

/-- `candidate`: a single item, or the items of a group, with their positions. -/
structure Candidate where
  grouped : Bool
  members : List (Item × ℕ)
  priority : ℤ
  newest : ℕ
  required : Bool

/-- The group of an item, if it is in one. -/
def Item.group (it : Item) : Option GoString :=
  if it.groupID = .empty then none else some it.groupID

/-- The candidate of a single item or of a group. -/
def candidateOf (members : List (Item × ℕ)) : Candidate where
  grouped := members.any fun x => x.1.group.isSome
  members := members
  priority := members.foldl (fun p x => if p < x.1.priority then x.1.priority else p) 0
  newest := members.foldl (fun n x => if n < x.2 then x.2 else n) 0
  required := members.any fun x => x.1.required

/-- The comparison of `sort.SliceStable`. -/
def Candidate.before (a b : Candidate) : Bool :=
  if a.required != b.required then a.required
  else if a.priority ≠ b.priority then b.priority < a.priority
  else b.newest < a.newest

/-- The candidates in the order in which they are considered. -/
def candidates (items : List Item) : List Candidate :=
  ((gather Item.group items).map candidateOf).insertionSort fun a b => b.before a = false

def evidenceItem (reason : GoString) (it : Item) : EvidenceItem :=
  ⟨it.sourceID, it.revision, it.groupID, reason, it.layer, it.lineage⟩

def Tally.drop (light : Bool) (members : List (Item × ℕ)) (t : Tally) : Tally :=
  { t with
    evidence := { t.evidence with
      dropped := t.evidence.dropped + members.length
      droppedGroups := t.evidence.droppedGroups + 1
      droppedItems := t.evidence.droppedItems ++
        if light then [] else members.map fun x => evidenceItem (go "budget") x.1 } }

/-- The candidate is selected at a cost. -/
def Tally.take (light : Bool) (members : List (Item × ℕ)) (cost : Cost) (byLayer : LayerCosts)
    (t : Tally) : Tally where
  used := addCost t.used cost
  selected := t.selected ++ members.map Prod.snd
  evidence :=
    { t.evidence with
      byLayer
      selected := t.evidence.selected + members.length
      selectedItems := t.evidence.selectedItems ++
        if light then [] else members.map fun x => evidenceItem (go "selected") x.1 }

/-- The cost of an item, if it is valid. -/
def priceOf (e : Estimator) (it : Item) : Except AssemblyError Cost := do
  let c ← safeEstimate e it.message
  require (validCost c) .invalid
  return c

/-- The cost of a group, in all and by layer. -/
def groupCost (e : Estimator) (members : List (Item × ℕ)) :
    Except AssemblyError (Cost × LayerCosts) :=
  members.foldlM (fun acc x => (priceOf e x.1).map fun c => (addCost acc.1 c,
  acc.2.add x.1.layer c))
    (.zero, fun _ => none)

/-- The costs by layer after those of a group. -/
def LayerCosts.addAll (spent group : LayerCosts) : LayerCosts := fun l =>
  match group l with
  | none => spent l
  | some c => some (addCost (spent.get l) c)

/-- A candidate that does not fit: an error if it is required. -/
def Candidate.refuse (light : Bool) (c : Candidate) (t : Tally) : Except AssemblyError Tally := do
  require (!c.required) (.budgetExceeded (go "required messages"))
  return t.drop light c.members

def Candidate.consider (e : Estimator) (light : Bool) (t : Tally) (c : Candidate) :
    Except AssemblyError Tally :=
  match c.grouped, c.members with
  | false, [x] => do
      let cost ← priceOf e x.1
      if fits b x.1.layer cost t.used t.evidence.byLayer then
        return t.take light c.members cost (t.evidence.byLayer.add x.1.layer cost)
      else c.refuse light t
  | _, members => do
      let (total, byGroupLayer) ← groupCost e members
      if fitsGroup b total t.used t.evidence.byLayer byGroupLayer then
        return t.take light members total (t.evidence.byLayer.addAll byGroupLayer)
      else c.refuse light t

mutual

def cloneValue : GoAny → GoAny
  | .arr items => .arr (cloneItems items)
  | .obj members => .obj (cloneMembers members)
  | v => v

/-- The elements of a slice. -/
def cloneItems : List GoAny → List GoAny
  | [] => []
  | v :: vs => cloneValue v :: cloneItems vs

/-- `cloneMap`. -/
def cloneMembers : List (GoString × GoAny) → List (GoString × GoAny)
  | [] => []
  | (k, v) :: ms => (k, cloneValue v) :: cloneMembers ms

end

def cloneCall (tc : ToolCall) : ToolCall := { tc with args := cloneMembers tc.args }

def cloneMessage : ChatMessage :=
  { m with toolCall := m.toolCall.map cloneCall, toolCalls := m.toolCalls.map cloneCall }

/-- The items at some positions, in the order of the items. -/
def chosen (items : List Item) (selected : List ℕ) : List Item :=
  (items.zipIdx.filter fun x => selected.contains x.2).map Prod.fst

/-- The first part of `Assemble`: the required texts and the tools are paid for. -/
def Request.payRequired (ctx : Context) (r : Request) :
    Except AssemblyError (Estimator × Tally) := do
  r.validate
  match r.estimator with
  | none => .error .invalid
  | some e => do
      let t ← Tally.start.addText r.budget e ctx .system r.requiredSystem
      let t ← t.addText r.budget e ctx .profile r.requiredProfile
      let t ← t.addTools r.budget r.requiredTools
      return (e, t)

/-- `Assemble` until the messages are collected. -/
def Request.tally (ctx : Context) (r : Request) : Except AssemblyError Tally := do
  let (e, t) ← r.payRequired ctx
  (candidates r.items).foldlM (Candidate.consider r.budget e r.lightweightEvidence) t

def assemble (ctx : Option Context) (r : Request) : Except AssemblyError Result :=
  match ctx with
  | none => .error .invalid
  | some ctx => do
      let t ← r.tally ctx
      let messages := (chosen r.items t.selected).map Item.message
      return {
        system := r.requiredSystem, profile := r.requiredProfile
        messages := if r.lightweightEvidence then messages else messages.map cloneMessage
        evidence := { t.evidence with used := t.used } }

end AutoAgent.ContextAssembly
