import AutoAgent.Control.Release

/-!
# Canaries

A canary offers a profile layer to part of the subjects of a scope before it is released.
The `CanaryManager` of a process keeps a copy of each open record and writes a full record
built from its copy; the store compares only the status.  While a canary is open its manager
reserves the profile and scope in the release manager, and `promote` publishes the layer
with the canary's id as operation id.
-/

namespace AutoAgent.Control

inductive CanaryStatus where
  | active
  | paused
  | promoting
  | promoted
  | rolledBack
  deriving DecidableEq

/-- The statuses of an open canary. -/
def CanaryStatus.isOpen (s : CanaryStatus) : Bool := s == .active || s == .paused || s == .promoting

/-- `CanaryRecord`; of the gate what the validation reads: that it passed, and the verdict of
`ValidateGateResult` and of the required efficiency contract. -/
structure CanaryRecord where
  id : GoString
  profileID : GoString
  scope : ScopePath
  layer : AgentProfileLayer
  revision : GoString
  baseReleaseRevision : GoString
  status : CanaryStatus
  basisPoints : ℤ
  baselineEvaluationRunID : GoString
  candidateEvaluationRunID : GoString
  gatePassed : Bool
  gateValid : Bool
  releaseVersion : ℕ
  deriving DecidableEq

inductive CanaryError where
  | invalid (field : String)
  | release (e : ReleaseError)
  | openCap (cap : ℕ)
  | duplicate (id : GoString)
  | notRestored
  | notStageable
  | conflict (id : GoString)
  | notActiveHere (id : GoString)
  | changedConcurrently (id : GoString)
  | notFound
  | notPromotable (id : GoString)

def CanaryRecord.artifact (r : CanaryRecord) : AgentProfileLayer :=
  { r.layer with scope := r.scope }

def validateCanaryRecord (F : Fingerprints) (r : CanaryRecord) : Except CanaryError Unit := do
  require (runIDPattern r.id) (.invalid "id")
  require (validNamespacedID r.profileID) (.invalid "profile id")
  require (r.scope.depth != 0 && r.revision != .empty) (.invalid "artifact")
  require (r.layer.profileID == r.profileID) (.invalid "layer profile id")
  require (r.baseReleaseRevision == .empty && (r.status == .promoted || r.status == .rolledBack) ||
    isHexDigest r.baseReleaseRevision) (.invalid "base release revision")
  require (F.layerRevision r.artifact == r.revision) (.invalid "artifact revision")
  require (1 ≤ r.basisPoints ∧ r.basisPoints ≤ 10000) (.invalid "basis points")
  require r.gatePassed (.invalid "gate")
  require r.gateValid (.invalid "coverage gate")
  require (if r.status == .promoted then 1 ≤ r.releaseVersion else r.releaseVersion = 0)
    (.invalid "release version")
  require (runIDPattern r.candidateEvaluationRunID) (.invalid "candidate evaluation run id")
  require (r.baselineEvaluationRunID == .empty || runIDPattern r.baselineEvaluationRunID)
    (.invalid "baseline evaluation run id")

/-! ## The store -/

/-- The durable tables of one database: releases and canaries share the control revision. -/
structure Store where
  journal : Journal
  canaries : List CanaryRecord
  openCap : ℕ

namespace Store

variable (F : Fingerprints) (s : Store)

/-- The columns an update writes. -/
def overwrite (row r : CanaryRecord) : CanaryRecord :=
  { row with status := r.status, basisPoints := r.basisPoints, releaseVersion := r.releaseVersion }

/-- The store after a write. -/
def bump (canaries : List CanaryRecord) : Store :=
  { s with canaries, journal := { s.journal with revision := s.journal.revision + 1 } }

def createCanary (r : CanaryRecord) : Except CanaryError Store := do
  validateCanaryRecord F r
  require ((s.canaries.filter (·.status.isOpen)).length < s.openCap) (.openCap s.openCap)
  require (s.canaries.all (·.id != r.id)) (.duplicate r.id)
  return s.bump (s.canaries ++ [r])

/-- `UpdateCanary`: the new store, or `none` when no row has an expected status. -/
def updateCanary (r : CanaryRecord) (expected : List CanaryStatus) :
    Except CanaryError (Option Store) := do
  validateCanaryRecord F r
  let hit (row : CanaryRecord) : Bool := row.id == r.id && expected.contains row.status
  return if s.canaries.any hit then
    some (s.bump (s.canaries.map fun row => if hit row then overwrite row r else row))
  else none

def getCanary (id : GoString) : Except CanaryError CanaryRecord :=
  match s.canaries.find? (·.id == id) with
  | some r => .ok r
  | none => .error .notFound

def listOpenCanaries : List CanaryRecord := s.canaries.filter (·.status.isOpen)

end Store

/-! ## Calls that change one field -/

/-- The changes `update` is called with. -/
inductive Change where
  | basisPoints (value : ℤ)
  | pause
  | resume
  | rollback
  deriving DecidableEq

namespace Change

/-- What the change does to the copy of the record. -/
def apply (r : CanaryRecord) : Change → CanaryRecord
  | .basisPoints value => { r with basisPoints := value }
  | .pause => { r with status := .paused }
  | .resume => { r with status := .active }
  | .rollback => { r with status := .rolledBack }

/-- The statuses the store has to find. -/
def expected : Change → List CanaryStatus
  | .basisPoints _ => [.active, .paused]
  | .pause => [.active]
  | .resume => [.paused]
  | .rollback => [.active, .paused]

/-- The check of `SetBasisPoints` before it calls `update`. -/
def check : Change → Except CanaryError Unit
  | .basisPoints value =>
    require (1 ≤ value ∧ value ≤ 10000) (.invalid "basis points")
  | _ => .ok ()

end Change

/-- `update` of a cached record: the new record and the store after it. -/
def updateCached (F : Fingerprints) (s : Store) (cached : Option CanaryRecord) (id : GoString)
    (change : Change) : Except CanaryError (CanaryRecord × Store) := do
  change.check
  match cached with
  | none => .error (.notActiveHere id)
  | some r =>
    match ← s.updateCanary F (change.apply r) change.expected with
    | none => .error (.changedConcurrently id)
    | some s' => return (change.apply r, s')

/-- The record that starts a promotion. -/
def CanaryRecord.asPromoting (r : CanaryRecord) : CanaryRecord := { r with status := .promoting }

/-- The first store call of `Promote`: the cached record moves to promoting. -/
def beginPromotion (F : Fingerprints) (s : Store) (r : CanaryRecord) :
    Except CanaryError (CanaryRecord × Store) := do
  match ← s.updateCanary F r.asPromoting [r.status] with
  | none => .error (.changedConcurrently r.id)
  | some s' => return (r.asPromoting, s')

/-- The record that ends a promotion. -/
def CanaryRecord.promotedAs (r : CanaryRecord) (version : ℕ) : CanaryRecord :=
  { r with status := .promoted, releaseVersion := version }

/-! ## The manager -/

/-- `prepareReservedCandidate`: the candidate is mounted in a copy of the registry. -/
def ReleaseManager.reserve (F : Fingerprints) (m : ReleaseManager) (layer : AgentProfileLayer)
    (owner expected : GoString) : Except ReleaseError ReleaseManager := do
  require (runIDPattern owner) (.operationID owner)
  require (!m.journaled || m.restored) .notRestored
  let current ← m.baselineRevision F layer.profileID layer.scope
  require (expected == .empty || current == expected) (.baselineDrift expected current)
  let _ ← (m.profiles.mount layer).mapError (.mount layer.profileID 0)
  let reservation := ⟨owner, layer.profileID, layer.scope, current, F.layerRevision layer⟩
  match m.reserved.find? (·.owner == owner) with
  | some existing => do
      require (existing == reservation) (.reservationArtifact owner)
      return m
  | none => return { m with reserved := m.reserved ++ [reservation] }

/-- `releaseReservation`. -/
def ReleaseManager.unreserve (m : ReleaseManager) (profileID owner : GoString) : ReleaseManager :=
  { m with reserved := m.reserved.filter fun r => !(r.owner == owner && r.profileID == profileID) }

/-- `CanaryManager`; of a state the record, without the candidate registry that routes
subjects. -/
structure CanaryManager where
  releases : ReleaseManager
  states : List CanaryRecord
  restored : Bool

namespace CanaryManager

variable (F : Fingerprints) (m : CanaryManager) (s : Store) (r : CanaryRecord)

/-- `activeCanaryConflict`. -/
def conflict : Option CanaryRecord :=
  m.states.find? fun state =>
    state.profileID == r.profileID && state.scope.equal r.scope && state.status.isOpen

def setState (id : GoString) (r : CanaryRecord) : List CanaryRecord :=
  m.states.map fun state => if state.id == id then r else state

def buildState : Except CanaryError ReleaseManager := do
  require (r.profileID != .empty && r.scope.depth != 0 && r.revision != .empty)
    (.invalid "artifact")
  require (r.layer.profileID == r.profileID) (.invalid "layer profile id")
  require (F.layerRevision r.artifact == r.revision) (.invalid "artifact revision")
  (m.releases.reserve F r.artifact r.id r.baseReleaseRevision).mapError .release

/-- The baseline a staged canary names, or the current one. -/
def stagedBase : Except CanaryError GoString :=
  if r.baseReleaseRevision == .empty then
    (m.releases.baselineRevision F r.profileID r.scope).mapError .release
  else .ok r.baseReleaseRevision

/-- `Stage` up to the store: the record with its baseline and the reserved releases. -/
def stageable : Except CanaryError (CanaryRecord × ReleaseManager) := do
  require m.restored .notRestored
  require (r.status == .active && r.gatePassed) .notStageable
  require (1 ≤ r.basisPoints ∧ r.basisPoints ≤ 10000) (.invalid "basis points")
  match m.conflict r with
  | some other => .error (.conflict other.id)
  | none =>
    let base ← m.stagedBase F r
    let releases ← m.buildState F { r with baseReleaseRevision := base }
    return ({ r with baseReleaseRevision := base }, releases)

/-- `Stage`, of a record that has its id. -/
def stage : CanaryManager × Store × Except CanaryError CanaryRecord :=
  match m.stageable F r with
  | .error e => (m, s, .error e)
  | .ok (r, releases) =>
    match s.createCanary F r with
    | .error e => ({ m with releases := releases.unreserve r.profileID r.id }, s, .error e)
    | .ok s' => ({ m with releases, states := m.states ++ [r] }, s', .ok r)

/-- `SetBasisPoints`, `Pause`, `Resume` and `Rollback`. -/
def update (id : GoString) (c : Change) : CanaryManager × Store × Except CanaryError CanaryRecord :=
  match updateCached F s (m.states.find? (·.id == id)) id c with
  | .error e => (m, s, .error e)
  | .ok (r, s') =>
    if c == .rollback then
      ({ m with
        states := m.states.filter (·.id != id)
        releases := m.releases.unreserve r.profileID r.id }, s', .ok r)
    else ({ m with states := m.setState id r }, s', .ok r)

def reconcilePromotion : CanaryManager × Store × Except CanaryError CanaryRecord :=
  match m.releases.publishWithOperationAtBaseline F (fun _ => false) s.journal r.artifact r.id
      r.baseReleaseRevision with
  | (releases, journal, .error e) => ({ m with releases }, { s with journal }, .error (.release e))
  | (releases, journal, .ok release) =>
    let s := { s with journal }
    match s.updateCanary F (r.promotedAs release.version) [.promoting] with
    | .error e => ({ m with releases }, s, .error e)
    | .ok (some s') =>
      ({ m with releases := releases.unreserve r.profileID r.id },
      s', .ok (r.promotedAs release.version))
    | .ok none =>
      match s.getCanary r.id with
      | .ok current =>
        if current.status == .promoted && current.releaseVersion == release.version then
          ({ m with releases := releases.unreserve r.profileID r.id }, s, .ok current)
        else ({ m with releases }, s, .error (.changedConcurrently r.id))
      | .error _ => ({ m with releases }, s, .error (.changedConcurrently r.id))

/-- The rest of `Promote` once the record is promoting. -/
def finishPromotion : CanaryManager × Store × Except CanaryError CanaryRecord :=
  match m.reconcilePromotion F s r with
  | (m, s, .error e) => (m, s, .error e)
  | (m, s, .ok promoted) =>
    ({ m with
      states := m.states.filter (·.id != r.id)
      releases := m.releases.unreserve r.profileID r.id }, s, .ok promoted)

def promote (id : GoString) : CanaryManager × Store × Except CanaryError CanaryRecord :=
  match m.states.find? (·.id == id) with
  | none =>
    match s.getCanary id with
    | .error e => (m, s, .error e)
    | .ok r =>
      if r.status == .promoted then (m, s, .ok r)
      else if r.status != .promoting then (m, s, .error (.notPromotable id))
      else { m with states := m.states ++ [r] }.finishPromotion F s r
  | some r =>
    if r.status == .active || r.status == .paused then
      match (m.releases.verifyBaseline F r.profileID r.scope r.baseReleaseRevision).mapError
          CanaryError.release >>= fun _ => beginPromotion F s r with
      | .error e => (m, s, .error e)
      | .ok (r, s) =>
        { m with states := m.setState id r }.finishPromotion F s r
    else if r.status != .promoting then (m, s, .error (.notPromotable id))
    else m.finishPromotion F s r

end CanaryManager

end AutoAgent.Control
