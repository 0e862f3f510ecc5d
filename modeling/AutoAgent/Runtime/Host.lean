import AutoAgent.Lib.GoString
import AutoAgent.Lib.Transition

/-!
# The module host

The host stages the modules it is given, activates an owner for each and routes to them as a
composition.  Applying another set of modules builds a new composition, which takes over the
owners of the modules that stay the same; the old one is then drained, deactivated or fenced.

**Shared owners.**  An owner can belong to several compositions at once.  Each composition
counts only the leases taken through it, and remembers in `retainedIDs` which of its owners
its successor took over.  The reported lifecycle states are kept per module, not per
composition.

**Environment.**  Owners, modules, the effect journal and the durable store answer each call as
they like; the answers of one call of the host are the `Answers` it is given.  Random
identifiers are numbers that were not drawn before.  Every activation yields an owner of its own,
named by the number of the activation.
-/

namespace AutoAgent.Runtime

/-- The values of `LifecycleState` that the host uses. -/
inductive LifecycleState where
  | constructed
  | active
  | draining
  | waitingDependencies
  | inactive
  deriving DecidableEq

inductive EffectState where
  | prepared
  | applied
  | unknown
  | reverted
  deriving DecidableEq

/-- `RecordedEffect`, with the parts of its descriptor that decide who reverts it. -/
structure RecordedEffect where
  id : GoString
  moduleID : GoString
  compositionRevision : ℕ
  state : EffectState
  deriving DecidableEq

structure Lease where
  leaseID : ℕ
  compositionRevision : ℕ
  moduleID : GoString
  token : ℕ
  deriving DecidableEq

/-- A `Module` the host is given: its manifest, and which instance it is. -/
structure Module (μ : Type) where
  manifest : μ
  identity : ℕ

/-- What the host computes from manifests. -/
structure Manifests (μ : Type) where
  id : μ → GoString
  version : μ → GoString
  /-- `manifestFingerprint`. -/
  fingerprint : μ → GoString
  /-- The routed manifests in dependency order, unless the set is refused:
  `prepareDesiredModules`, `routableManifests`, `BuildSnapshotForAPI` and `moduleOrder`. -/
  route : List μ → Option (List μ)
  /-- The revision of the snapshot of routed manifests. -/
  revision : List μ → GoString

inductive HostError where
  | refused
  | invalid
  | notFound
  | mismatch
  | leasesRemaining
  | failed
  deriving DecidableEq

/-- `moduleComposition`. -/
structure Composition (μ : Type) where
  /-- `compositionRevision`. -/
  revision : ℕ
  /-- The manifests of `snapshot`, in the order of `moduleOrder`. -/
  routed : List μ
  owners : GoString → Option ℕ
  leases : List Lease
  state : LifecycleState
  inherited : List RecordedEffect
  retainedIDs : List GoString

/-- `ModuleHost`.  `active` names a composition, `drawn` counts the identifiers drawn. -/
structure ModuleHost (μ : Type) where
  modules : List (Module μ)
  active : Option ℕ
  compositions : List (Composition μ)
  states : GoString → Option LifecycleState
  journal : List RecordedEffect
  drawn : ℕ

/-- What a call leaves behind: the host, the owners it deactivated and its error. -/
structure Outcome (μ : Type) extends host : ModuleHost μ where
  deactivated : List ℕ
  error : Option HostError

/-- The answers to the calls that taking a composition down makes. -/
structure Answers where
  /-- The host still owns its state. -/
  owned : Bool
  /-- A fence is admitted: authorized, and not a replay, a conflict or unknown. -/
  execute : Bool
  /-- `durableBlock`. -/
  blocked : Bool
  drained : GoString → Bool
  fenced : GoString → Bool
  /-- The effects are listed and pass their checks. -/
  listed : Bool
  /-- Inverse and mark, for each effect. -/
  inverted : GoString → Bool
  marked : GoString → Bool
  deactivated : GoString → Bool
  /-- `durableRemove`. -/
  removed : Bool
  /-- The fence journal completes. -/
  completed : Bool

/-- What staging and activating a module comes to. -/
inductive Staged where
  | active
  | failed
  /-- The activation fails and still returns an owner. -/
  | failedActive
  deriving DecidableEq

/-- The answers to the calls of an apply. -/
structure ApplyAnswers where
  owned : Bool
  /-- `durableDesired`. -/
  stored : Bool
  /-- `durablePrepare`. -/
  prepared : Bool
  /-- The effects of the old composition are listed. -/
  listed : Bool
  staged : GoString → Staged
  /-- The effects that activations record: their ids, modules and states. -/
  recorded : List (GoString × GoString × EffectState)
  /-- `durablePromote`. -/
  promoted : Bool
  /-- `forceRenewOwnership` of `publishCandidate`. -/
  renewed : Bool
  /-- The answers that a rollback gets. -/
  undo : Answers

def markReverted (journal : List RecordedEffect) (id : GoString) : List RecordedEffect :=
  journal.map fun r => if r.id == id then { r with state := .reverted } else r

/-- Runs the inverses of the records in the order given, and goes on after a failure. -/
def revertEffects (a : Answers) :
    List RecordedEffect → List RecordedEffect → List RecordedEffect × Bool
  | [], journal => (journal, true)
  | r :: rest, journal =>
    if r.state = .reverted then revertEffects a rest journal
    else if a.inverted r.id && a.marked r.id then revertEffects a rest (markReverted journal r.id)
    else ((revertEffects a rest journal).1, false)

/-- `Record` of the journal, for the effects of one composition. -/
def recordEffects (revision : ℕ) (journal : List RecordedEffect)
    (recorded : List (GoString × GoString × EffectState)) : List RecordedEffect :=
  recorded.foldl (fun journal e => if journal.any (·.id == e.1) then journal
    else journal ++ [⟨e.1, e.2.1, revision, e.2.2⟩]) journal

/-- `List` of the journal. -/
def effectsOf (journal : List RecordedEffect) (revision : ℕ) : List RecordedEffect :=
  journal.filter (·.compositionRevision == revision)

/-- `refreshInheritedEffects`, where the journal still has what was inherited. -/
def refreshInheritedEffects (journal inherited : List RecordedEffect) : List RecordedEffect :=
  (inherited.map (·.compositionRevision)).eraseDups.flatMap fun revision =>
    (effectsOf journal revision).filter fun r =>
      (effectsOf inherited revision).any (·.id == r.id)

def mergeRetainedEffects (owners : GoString → Option ℕ) (prior current : List RecordedEffect) :
    List RecordedEffect :=
  ((prior ++ current).filter fun r => (owners r.moduleID).isSome).eraseDupsBy (·.id == ·.id)

namespace Composition

variable {μ : Type} (k : Manifests μ)

/-- The composition handed the module on to its successor. -/
def retained (c : Composition μ) (id : GoString) : Bool := c.retainedIDs.contains id

/-- The owners that taking the composition down deactivates, in reverse module order. -/
def ownersLeft (c : Composition μ) : List ℕ :=
  c.routed.reverse.filterMap fun m => if c.retained (k.id m) then none else c.owners (k.id m)

/-- An unreleased lease on the owner was taken through the composition. -/
def Leased (c : Composition μ) (o : ℕ) : Prop := ∃ l ∈ c.leases, c.owners l.moduleID = some o

instance (c : Composition μ) (o : ℕ) : Decidable (c.Leased o) :=
  inferInstanceAs (Decidable (∃ l ∈ c.leases, c.owners l.moduleID = some o))

end Composition

namespace ModuleHost

variable {μ : Type} (k : Manifests μ) (h : ModuleHost μ)

def composition (revision : ℕ) : Option (Composition μ) :=
  h.compositions.find? (·.revision == revision)

/-- Changes a composition in place. -/
def update (revision : ℕ) (f : Composition μ → Composition μ) : ModuleHost μ :=
  { h with compositions := h.compositions.map fun c =>
      if c.revision == revision then f c else c }

/-- `deactivateCompositionWork`: the host, the owners it deactivated, and whether nothing
failed. -/
def deactivateCompositionWork (c : Composition μ) (a : Answers) :
    ModuleHost μ × List ℕ × Bool :=
  if a.listed then
    let inherited := refreshInheritedEffects h.journal c.inherited
    let records := (inherited ++ effectsOf h.journal c.revision).reverse.filter
      fun r => !c.retained r.moduleID
    let reverted := revertEffects a records h.journal
    let h := h.update c.revision ({ · with state := .draining, inherited })
    ({ h with journal := reverted.1 }, c.ownersLeft k,
      reverted.2 && c.routed.all fun m => c.retained (k.id m) || (c.owners (k.id m)).isNone ||
          a.deactivated (k.id m))
  else (h.update c.revision ({ · with state := .draining }), [], false)

/-- The states after a composition was removed. -/
def retireStates (c : Composition μ) (id : GoString) : Option LifecycleState :=
  if (c.owners id).isSome && !c.retained id && h.states id == some .draining then some .inactive
  else h.states id

def finalizeDeactivation (c : Composition μ) (a : Answers) :
    ModuleHost μ × Option HostError :=
  if a.removed then
    ({ h with
        states := h.retireStates c
        active := if h.active = some c.revision then none else h.active
        compositions := h.compositions.filter (·.revision != c.revision) },
      none)
  else (h, some .refused)

/-- The work and the finalization. -/
def takeDown (c : Composition μ) (a : Answers) : Outcome μ :=
  match h.deactivateCompositionWork k c a with
  | (h', owners, true) =>
    let final := h'.finalizeDeactivation c a
    ⟨final.1, owners, final.2⟩
  | (h', owners, false) => ⟨h', owners, some .failed⟩

/-- A call that, once it is admitted, works on a composition. -/
def onComposition (revision : ℕ) (admitted : Bool) (f : Composition μ → Outcome μ) : Outcome μ :=
  if !admitted then ⟨h, [], some .refused⟩ else
  match h.composition revision with
  | none => ⟨h, [], some .notFound⟩
  | some c => f c

def drain (revision : ℕ) (a : Answers) : Outcome μ :=
  h.onComposition revision a.owned fun c =>
    if !a.blocked then ⟨h, [], some .refused⟩ else
    let h := h.update revision ({ · with state := .draining })
    if !(c.routed.all fun m => (c.owners (k.id m)).isNone || a.drained (k.id m)) ||
        !c.leases.isEmpty then ⟨h, [], some .leasesRemaining⟩
    else h.takeDown k c a

def deactivate (revision : ℕ) (a : Answers) : Outcome μ :=
  h.onComposition revision a.owned fun c =>
    if !c.leases.isEmpty then ⟨h, [], some .leasesRemaining⟩
    else if !a.blocked then ⟨h, [], some .refused⟩
    else h.takeDown k c a

/-- The states after a fence began. -/
def fenceStates (c : Composition μ) (id : GoString) : Option LifecycleState :=
  if (c.owners id).isSome && h.states id == some .active then some .draining else h.states id

/-- `FenceAuthorized` and `executeFence`. -/
def fence (revision : ℕ) (a : Answers) : Outcome μ :=
  h.onComposition revision (a.owned && a.execute) fun c =>
    if !a.blocked then ⟨h, [], some .refused⟩ else
    let h := { h.update revision ({ · with state := .draining }) with states := h.fenceStates c }
    if !c.routed.all fun m => (c.owners (k.id m)).isNone || a.fenced (k.id m) then
      ⟨h, [], some .failed⟩
    else
      let out := (h.update revision ({ · with leases := [] })).takeDown k c a
      { out with error := out.error.or (if a.completed then none else some .failed) }

def lookup (modules : List (Module μ)) (id : GoString) : Option (Module μ) :=
  modules.find? (k.id ·.manifest == id)

def acquireLease (revision : ℕ) (moduleID moduleRevision : GoString) (granted : Bool) : Outcome μ :=
  match h.composition revision, lookup k h.modules moduleID with
  | some c, some m =>
    if h.active ≠ some revision ∨ c.state ≠ .active ∨ (c.owners moduleID).isNone ∨
        k.version m.manifest ≠ moduleRevision then ⟨h, [], some .mismatch⟩
    else if !granted then ⟨h, [], some .refused⟩
    else
      let lease : Lease := ⟨h.drawn, revision, moduleID, h.drawn + 1⟩
      let h := h.update revision fun c => { c with leases := c.leases ++ [lease] }
      ⟨{ h with drawn := h.drawn + 2 }, [], none⟩
  | _, _ => ⟨h, [], some .mismatch⟩

def releaseLease (lease : Lease) (accepted : Bool) : Outcome μ :=
  h.onComposition lease.compositionRevision true fun c =>
    match c.leases.find? (·.leaseID == lease.leaseID) with
    | none => ⟨h, [], some .notFound⟩
    | some stored =>
      if stored ≠ lease then ⟨h, [], some .mismatch⟩
      else if !accepted then ⟨h, [], some .refused⟩
      else ⟨h.update c.revision fun c =>
          { c with leases := c.leases.filter (·.leaseID != lease.leaseID) }, [], none⟩

/-- `Reconcile`: the owners record further effects, and the call fails if one of them does. -/
def reconcile (revision : ℕ) (listed reconciled : Bool)
    (recorded : List (GoString × GoString × EffectState)) : Outcome μ :=
  h.onComposition revision true fun c =>
    if !listed then ⟨h, [], some .refused⟩ else
    let inherited := refreshInheritedEffects h.journal c.inherited
    let recorded := recorded.filter fun e => (c.owners e.2.1).isSome
    ⟨{ h.update revision ({ · with inherited }) with
        journal := recordEffects revision h.journal recorded }, [],
      if reconciled then none else some .failed⟩

def desiredManifestSetEqual (left right : List (Module μ)) : Bool :=
  left.length == right.length && left.all fun m =>
    (lookup k right (k.id m.manifest)).any fun m' =>
      k.fingerprint m.manifest == k.fingerprint m'.manifest

/-- The module is registered with the manifest of `m`, and `same` holds of the instances. -/
def registered (modules : List (Module μ)) (m : Module μ) (same : ℕ → ℕ → Bool) : Bool :=
  (lookup k modules (k.id m.manifest)).any fun m' =>
    k.fingerprint m'.manifest == k.fingerprint m.manifest && same m'.identity m.identity

def desiredStates (modules : List (Module μ)) (routed : List μ) (replaces : Bool) (id : GoString)
    : Option LifecycleState :=
  if routed.any (k.id · == id) then some .active
  else if (lookup k modules id).isSome then some .waitingDependencies
  else if replaces && (lookup k h.modules id).isSome then some .inactive
  else none

/-- The owners that `prepareReuse` takes over.  A manifest that changed in place rules out any
reuse. -/
def reusedOwners (modules : List (Module μ)) (routed : List μ) (old : Option (Composition μ))
    (id : GoString) : Option ℕ :=
  match old with
  | none => none
  | some old =>
    if h.modules.any (fun m => (lookup k modules (k.id m.manifest)).any fun m' =>
        k.fingerprint m.manifest != k.fingerprint m'.manifest) then none
    else if routed.any (k.id · == id) &&
        (lookup k modules id).any (fun m => registered k h.modules m (· == ·)) then old.owners id
    else none

/-- `stageCandidateWithRevision`: the owners of the candidate, the owners it activated, newest
first, and whether every module was activated. -/
def stageCandidate (staged : GoString → Staged) : List μ → (GoString → Option ℕ) → ℕ →
    List ℕ → (GoString → Option ℕ) × List ℕ × Bool
  | [], owners, _, new => (owners, new, true)
  | m :: rest, owners, n, new =>
    if (owners (k.id m)).isSome then stageCandidate staged rest owners n new else
    match staged (k.id m) with
    | .failed => (owners, new, false)
    | .failedActive => (owners, n :: new, false)
    | .active => stageCandidate staged rest (Function.update owners (k.id m) (some n)) (n + 1)
        (n :: new)

/-- `publishCandidate`: the candidate becomes active, and its predecessor drains. -/
def publishCandidate (modules : List (Module μ)) (routed : List μ) (old : Option (Composition μ))
    (owners : GoString → Option ℕ) : ModuleHost μ :=
  let reused := h.reusedOwners k modules routed old
  let inherited := (old.map fun c => mergeRetainedEffects reused
    (refreshInheritedEffects h.journal c.inherited)
    (effectsOf h.journal c.revision)).getD []
  let supersede := fun c : Composition μ => if h.active = some c.revision then
    { c with
      state := .draining
      retainedIDs := (routed.map k.id).filter fun id => (reused id).isSome } else c
  { h with
    modules
    active := some h.drawn
    compositions := h.compositions.map supersede ++
      [⟨h.drawn, routed, owners, [], .active, inherited, []⟩]
    states := h.desiredStates k modules routed old.isSome }

/-- The part of `applyModulesLocked` that builds a candidate and publishes it. -/
def replaceComposition (modules : List (Module μ)) (routed : List μ) (old : Option (Composition μ))
    (a : ApplyAnswers) : Outcome μ :=
  if !a.prepared || !a.listed then ⟨h, [], some .refused⟩ else
  let candidate := stageCandidate k a.staged routed (h.reusedOwners k modules routed old) h.drawn []
  let journal := recordEffects h.drawn h.journal a.recorded
  let drawn := h.drawn + 1 + routed.length
  if !candidate.2.2 || !a.promoted then
    -- The rollback reverts what the candidate recorded and deactivates what it activated.
    let undone := if a.undo.listed then
      (revertEffects a.undo (effectsOf journal h.drawn).reverse journal).1 else journal
    ⟨{ h with drawn, journal := undone }, candidate.2.1, some .failed⟩
  else if !a.renewed then ⟨{ h with drawn, journal }, [], some .refused⟩
  else ⟨{ h.publishCandidate k modules routed old candidate.1 with drawn, journal }, [], none⟩

/-- `applyModulesLocked`. -/
def applyModules (modules : List (Module μ)) (a : ApplyAnswers) : Outcome μ :=
  if !a.owned then ⟨h, [], some .refused⟩ else
  match k.route (modules.map (·.manifest)) with
  | none => ⟨h, [], some .invalid⟩
  | some routed =>
    match h.active.bind h.composition with
    | none => h.replaceComposition k modules routed none a
    | some old =>
      if desiredManifestSetEqual k h.modules modules then
        ⟨h, [], if modules.all fun m => registered k h.modules m (· == ·) then none
          else some .invalid⟩
      else if k.revision old.routed = k.revision routed then
        if a.stored then
          ⟨{ h with modules, states := h.desiredStates k modules routed true }, [], none⟩
        else ⟨h, [], some .refused⟩
      else if modules.any fun m => registered k h.modules m (· != ·) then ⟨h, [], some .invalid⟩
      else h.replaceComposition k modules routed (some old) a

end ModuleHost

end AutoAgent.Runtime
