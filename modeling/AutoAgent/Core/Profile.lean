import AutoAgent.Core.Scope

/-!
# Agent profiles

Scopes contribute layers to named profiles.  The registry keeps every layer twice:
in a slice under its scope and profile, for resolution, and in a flat list in mount
order, for listing.  `replaceExact` swaps one layer in both places after it has
resolved the profile with the candidate.
-/

namespace AutoAgent

structure PromptFragment where
  id : GoString
  section_ : GoString
  content : GoString
  priority : Int64
  deriving DecidableEq

/-- `AgentProfileLayer`; missing values are `none`. -/
structure AgentProfileLayer where
  scope : ScopePath
  profileID : GoString
  extends_ : GoString
  name : Option GoString
  description : Option GoString
  model : Option ModelSelection
  maxSteps : Option ℤ
  maxToolCalls : Option ℤ
  addCapabilities : List GoString
  removeCapabilities : List GoString
  putFragments : List PromptFragment
  removeFragments : List GoString
  metadata : List (GoString × GoString)
  deriving DecidableEq

/-- Why a call on the profile registry fails. -/
inductive ProfileError where
  | emptyScope
  | profileID (id : GoString)
  | extendsItself (id : GoString)
  | capabilityChanges
  | fragmentChanges
  | metadataItems
  | capabilityID (id : GoString)
  | promptFragment
  | fragmentBytes (id : GoString)
  | unknownSection (id section_ : GoString)
  | metadata
  | full (cap : ℤ)
  | replaceOld (e : ProfileError)
  | replaceNew (e : ProfileError)
  | replaceResolve (e : ProfileError)
  | differentIdentity
  | multipleMatches
  | layerNotFound
  | inconsistent
  | notOwner (scope target : ScopePath)
  | cycle (id : GoString)
  | notFound (id : GoString)
  | conflictingParents (first second : GoString)
  | parent (id : GoString) (e : ProfileError)
  | maxSteps
  | maxToolCalls
  | modelProvider
  | modelName
  | capabilities
  | fragments
  | systemPromptBytes
  | emptyTarget

/-! ## Validation -/

def promptSectionOrder (s : GoString) : Option ℕ :=
  ([(go "identity", 10), (go "traits", 20), (go "values", 30), (go "goals", 40),
    (go "style", 50), (go "boundaries", 60), (go "instructions", 70)].find? (·.1 = s)).map (·.2)

def containsControl (s : GoString) : Bool := s.anyRune GoString.isControl

def validateFragment (f : PromptFragment) : Except ProfileError Unit := do
  require (¬(f.id == .empty ∨ 128 < f.id.len ∨ containsControl f.id ∨ f.content.isBlank))
    .promptFragment
  require (f.content.len ≤ 64 * 2 ^ 10) (.fragmentBytes f.id)
  require (promptSectionOrder f.section_).isSome (.unknownSection f.id f.section_)

def validateProfileLayer (layer : AgentProfileLayer) : Except ProfileError Unit := do
  require (layer.scope.depth != 0) .emptyScope
  require (runIDPattern layer.profileID) (.profileID layer.profileID)
  require (layer.extends_ != layer.profileID) (.extendsItself layer.profileID)
  require (layer.addCapabilities.length + layer.removeCapabilities.length ≤ 256) .capabilityChanges
  require (layer.putFragments.length + layer.removeFragments.length ≤ 512) .fragmentChanges
  require (layer.metadata.length ≤ 256) .metadataItems
  (layer.addCapabilities ++ layer.removeCapabilities).forM fun id =>
    require (validNamespacedID id) (.capabilityID id)
  layer.putFragments.forM validateFragment
  layer.metadata.forM fun (key, value) =>
    require (¬(key == .empty ∨ 128 < key.len ∨ containsControl key ∨ 64 * 2 ^ 10 < value.len ∨
      containsControl value)) .metadata

def validateModelSelection (selection : ModelSelection) : Except ProfileError Unit := do
  let provider := selection.provider.trimSpace
  let model := selection.model.trimSpace
  require (¬(provider == .empty ∨ 128 < provider.len ∨ containsControl provider)) .modelProvider
  require (¬(model == .empty ∨ 256 < model.len ∨ containsControl model)) .modelName

/-! ## The registry -/

/-- `AgentProfileRegistry`. -/
structure ProfileRegistry where
  layers : Shelves GoString AgentProfileLayer
  flat : List (Stored AgentProfileLayer)
  next : ℕ
  maxBindings : ℤ

def profileLayerKey (scope : ScopePath) (profileID : GoString) : GoString :=
  ⟨scope.string.runes ++ .rune '\x00' :: profileID.runes⟩

def AgentProfileLayer.key (layer : AgentProfileLayer) : GoString :=
  profileLayerKey layer.scope layer.profileID

namespace ProfileRegistry

/-- `NewAgentProfileRegistry`. -/
def new (maxBindings : ℤ) : ProfileRegistry := ⟨∅, [], 0, maxBindings⟩

variable (r : ProfileRegistry)

def mount (layer : AgentProfileLayer) :
    Except ProfileError ProfileRegistry := do
  validateProfileLayer layer
  require ((r.flat.length : ℤ) < registryCap r.maxBindings) (.full (registryCap r.maxBindings))
  let stored := ⟨layer, r.next + 1⟩
  return { r with
    layers := r.layers.put layer.key (r.layers.at_ layer.key ++ [stored])
    flat := r.flat ++ [stored]
    next := r.next + 1 }

/-- What an unmount function does the first time it is called. -/
def unmount (key : GoString) (order : ℕ) : ProfileRegistry :=
  { r with
    layers := r.layers.put key (Stored.without order (r.layers.at_ key))
    flat := Stored.without order r.flat }

/-- `layersForLocked`: the layers of a profile on the way to the target. -/
def layersFor (target : ScopePath) (profileID : GoString) :
    List AgentProfileLayer :=
  target.prefixes.flatMap fun p =>
    (Stored.byOrder (r.layers.at_ (profileLayerKey p profileID))).map Stored.value

/-! ### Resolution -/

/-- `profileState`. -/
structure State where
  name : GoString
  description : GoString
  model : ModelSelection
  maxSteps : ℤ
  maxToolCalls : ℤ
  capabilities : List GoString
  fragments : GoMap ResolvedPromptFragment
  metadata : GoMap GoString

/-- The state of a profile without parent before its layers. -/
def State.initial : State := ⟨.empty, .empty, ⟨.empty, .empty⟩, 10, 16, [], ∅, ∅⟩

/-- A budget a layer may set. -/
def budget (e : ProfileError) (hard : ℤ) (current : ℤ) : Option ℤ → Except ProfileError ℤ
  | none => .ok current
  | some n => do
      require (0 < n ∧ n ≤ hard) e
      return n

def State.apply (state : State) (layer : AgentProfileLayer) : Except ProfileError State := do
  let maxSteps ← budget .maxSteps hardMaxSteps state.maxSteps layer.maxSteps
  let maxToolCalls ← budget .maxToolCalls hardMaxToolCalls state.maxToolCalls layer.maxToolCalls
  let added := layer.addCapabilities.foldl (fun ids id => ids.insert id) state.capabilities
  let kept := layer.removeFragments.foldl (fun m id => m.erase id) state.fragments
  return {
    name := layer.name.getD state.name
    description := layer.description.getD state.description
    model := layer.model.getD state.model
    maxSteps
    maxToolCalls
    capabilities := added.filter (!layer.removeCapabilities.contains ·)
    fragments := layer.putFragments.foldl (fun m f =>
      m.insert f.id ⟨f.id, f.section_, f.content, f.priority, layer.scope⟩) kept
    metadata := layer.metadata.foldl (fun m e => m.insert e.1 e.2) state.metadata }

/-- The parent the layers agree on; empty when none names one. -/
def parentOf (layers : List AgentProfileLayer) : Except ProfileError GoString :=
  layers.foldlM (fun parent layer =>
    if layer.extends_ = .empty then .ok parent
    else if parent != .empty && parent != layer.extends_ then
      .error (.conflictingParents parent layer.extends_)
    else .ok layer.extends_) .empty

/-- `resolveLocked`.  `visiting` holds the profiles on the way here; each step adds
one that has layers, so `fuel` above the number of layers is never used up
(`resolveLocked_spec`). -/
def resolveLocked (r : ProfileRegistry) (target : ScopePath) :
    ℕ → List GoString → GoString → Except ProfileError State
  | 0, _, id => .error (.cycle id)
  | fuel + 1, visiting, id =>
    if visiting.contains id then .error (.cycle id)
    else if (r.layersFor target id).isEmpty then .error (.notFound id)
    else do
      let parent ← parentOf (r.layersFor target id)
      let start ← (if parent = .empty then .ok .initial
        else (resolveLocked r target fuel (id :: visiting) parent).mapError (.parent id))
      let state ← (r.layersFor target id).foldlM State.apply start
      validateModelSelection state.model
      return { state with name := if state.name = .empty then id else state.name }

/-- `SystemPrompt`: the fragments under their section headings. -/
def systemPrompt (fragments : List ResolvedPromptFragment) : GoString :=
  let step := fun (out : GoString × GoString) (f : ResolvedPromptFragment) =>
    let heading := if f.section_ = out.2 then out.1
      else (if out.1 = .empty then out.1 else out.1 ++ go "\n\n") ++ go "## " ++
        f.section_ ++ go "\n"
    (heading ++ go "- " ++ f.content ++ go "\n", f.section_)
  (fragments.foldl step (.empty, .empty)).1.trimSpace

/-- The order of fragments in a prompt: section, priority, identifier. -/
def fragmentBefore (a b : ResolvedPromptFragment) : Bool :=
  let left := (promptSectionOrder a.section_).getD 0
  let right := (promptSectionOrder b.section_).getD 0
  if left = right then
    if a.priority = b.priority then !b.id.before a.id else decide
      (a.priority.toInt < b.priority.toInt)
  else decide (left < right)

def resolve (now : Timestamp) (scope target : ScopePath) (profileID : GoString)
    : Except ProfileError AgentProfileSnapshot := do
  require (scope.isAncestorOf target) (.notOwner scope target)
  let state ← resolveLocked r target (r.flat.length + 1) [] profileID
  let fragments := (state.fragments.entries.map (·.2)).insertionSort fun a b =>
    fragmentBefore a b
  let snapshot : AgentProfileSnapshot := {
    id := .empty, profileID, createdAt := .zero, scope := target
    name := state.name, description := state.description, model := state.model
    maxSteps := .ofInt state.maxSteps, maxToolCalls := .ofInt state.maxToolCalls
    capabilities := state.capabilities.insertionSort fun a b => b.before a = false
    fragments
    metadata := (state.metadata.entries.map fun e => (e.1, e.2)).insertionSort fun a b =>
      b.1.before a.1 = false }
  require (snapshot.capabilities.length ≤ 256) .capabilities
  require (fragments.length ≤ 512) .fragments
  require ((systemPrompt fragments).len ≤ 2 ^ 20) .systemPromptBytes
  return { snapshot with
    id := digestDoc (AgentProfileSnapshot.codec.enc snapshot), createdAt := now }

/-! ### Replacement and listing -/

/-- The position and the number of the only layer of a slice that equals `old`. -/
def findMatch (slice : List (Stored AgentProfileLayer)) (old : AgentProfileLayer) :
    Except ProfileError (ℕ × ℕ) :=
  match slice.zipIdx.filter (fun e => e.1.value = old) with
  | [] => .error .layerNotFound
  | [(s, i)] => .ok (i, s.order)
  | _ => .error .multipleMatches

/-- The position of the number in the flat list; only `old` may stand there. -/
def findFlat (flat : List (Stored AgentProfileLayer)) (order : ℕ) (old : AgentProfileLayer) :
    Except ProfileError ℕ :=
  match flat.zipIdx.filter (fun e => e.1.order == order) with
  | [(s, j)] => if s.value = old then .ok j else .error .inconsistent
  | _ => .error .inconsistent

def replaceExact (now : Timestamp) (old next : AgentProfileLayer) :
    Except ProfileError ProfileRegistry := do
  (validateProfileLayer old).mapError .replaceOld
  (validateProfileLayer next).mapError .replaceNew
  require (old.profileID == next.profileID && old.scope.equal next.scope) .differentIdentity
  let (i, order) ← findMatch (r.layers.at_ old.key) old
  let j ← findFlat r.flat order old
  let candidate := { r with
    layers := r.layers.put old.key ((r.layers.at_ old.key).set i ⟨next, order⟩)
    flat := r.flat.set j ⟨next, order⟩ }
  let _ ← (candidate.resolve now next.scope next.scope next.profileID).mapError .replaceResolve
  return candidate

def listProfiles (target : ScopePath) :
    Except ProfileError (List GoString) := do
  require (target.depth != 0) .emptyTarget
  let out := r.flat.foldl (fun out s =>
    if s.value.scope.isAncestorOf target && !out.contains s.value.profileID
    then out ++ [s.value.profileID] else out) []
  return out.insertionSort fun a b => b.before a = false

end ProfileRegistry

end AutoAgent
