import AutoAgent.Core.ProfileRuns

/-!
# Profile releases

A `ReleaseManager` publishes profile layers as numbered releases: it mounts the layer
in the live registry, keeps the release with its unmount function, and records it in a
journal that other processes share; `sync` takes over what others wrote to the journal.

**Failures.**  Every call of the journal may fail (`Faults`), and then it has had no
effect.  A call of the manager returns the manager it leaves behind beside its result, so
that what a failed call leaves behind can be compared with what was there before.
-/

namespace AutoAgent.Control

/-- What goes into the baseline of a scope of each release that overlaps it. -/
structure BaselineRelease where
  version : ℕ
  scope : GoString
  revision : GoString
  rolledBack : Bool
  operationID : GoString
  deriving DecidableEq

/-- A SHA-256 digest in hexadecimal digits. -/
def isHexDigest (value : GoString) : Bool :=
  decide (value.len = 64) && value.allRunes fun c =>
    ('0' ≤ c && c ≤ '9') || ('a' ≤ c && c ≤ 'f') || ('A' ≤ c && c ≤ 'F')

/-- The fingerprints: `core.ProfileLayerRevision` of a layer that has a scope, and the
digest of the encoded baseline. -/
structure Fingerprints where
  layerRevision : AgentProfileLayer → GoString
  baseline : List BaselineRelease → GoString
  revision_ne : ∀ layer, layerRevision layer ≠ .empty
  hex : ∀ items, isHexDigest (baseline items)

/-- `ReleaseInfo`, and what a `ProfileRelease` has in common with it. -/
structure ReleaseInfo where
  profileID : GoString
  version : ℕ
  operationID : GoString
  scope : ScopePath
  rolledBack : Bool
  layer : Option AgentProfileLayer
  revision : GoString
  deriving DecidableEq

/-- `ProfileRelease`; the unmount function is named by what it remembers. -/
structure ProfileRelease extends ReleaseInfo where
  unmount : Option (GoString × ℕ)
  deriving DecidableEq

/-- `releaseReservation`. -/
structure Reservation where
  owner : GoString
  profileID : GoString
  scope : ScopePath
  baselineRevision : GoString
  candidateRevision : GoString
  deriving DecidableEq

inductive JournalCall where
  | find
  | record
  | list
  | load (profileID : GoString)
  | revision
  | revisionAgain
  deriving DecidableEq

/-- Which calls of the journal fail. -/
abbrev Faults := JournalCall → Bool

inductive ReleaseError where
  | journal (call : JournalCall)
  | noProfileID
  | notRestored
  | noScope
  | operationID (id : GoString)
  | baselineDigest
  | operationArtifact (id : GoString)
  | operationRolledBack (id : GoString)
  | profileID (id : GoString)
  | baselineDrift (expected found : GoString)
  | reserved (owner : GoString)
  | reservationArtifact (owner : GoString)
  | mount (profileID : GoString) (version : ℕ) (e : ProfileError)
  | noArtifact (profileID : GoString) (version : ℕ)
  | artifactMismatch (profileID : GoString) (version : ℕ)
  | historyFull (profileID : GoString) (cap : ℕ)
  | duplicate (profileID : GoString)
  | invalidRecord (profileID : GoString)
  | repeatedVersion (profileID : GoString)
  | repeatedOperation (profileID : GoString)
  | disappeared (profileID : GoString)
  | versionDisappeared (profileID : GoString) (version : ℕ)
  | immutable (profileID : GoString) (version : ℕ)
  | resurrected (profileID : GoString) (version : ℕ)

/-- A call of the journal that may fail. -/
def Faults.call (faults : Faults) (c : JournalCall) : Except ReleaseError Unit :=
  require (!faults c) (.journal c)

/-! ## The journal -/

/-- The `profile_releases` table and the control revision. -/
structure Journal where
  rows : List ReleaseInfo
  revision : ℤ
  historyCap : ℕ

namespace Journal

variable (F : Fingerprints) (j : Journal)

/-- `RecordRelease`; the table has unique versions in each profile and unique operation ids. -/
def recordRelease (info : ReleaseInfo) : Except ReleaseError Journal := do
  require (validNamespacedID info.profileID) (.profileID info.profileID)
  require (info.operationID == .empty || runIDPattern info.operationID)
    (.operationID info.operationID)
  require (info.layer.isSome && info.revision != .empty) (.noArtifact info.profileID info.version)
  require (info.layer.all fun layer =>
    F.layerRevision { layer with scope := info.scope } == info.revision)
    (.artifactMismatch info.profileID info.version)
  require ((j.rows.filter (·.profileID == info.profileID)).length < j.historyCap)
    (.historyFull info.profileID j.historyCap)
  require (j.rows.all fun row =>
    !(row.profileID == info.profileID && row.version == info.version) &&
    (info.operationID == .empty || row.operationID != info.operationID)) (.duplicate info.profileID)
  return { j with rows := j.rows ++ [info], revision := j.revision + 1 }

def findReleaseByOperation (operationID : GoString) : Option ReleaseInfo :=
  j.rows.find? (·.operationID == operationID)

def listReleaseProfiles : List GoString :=
  (j.rows.map (·.profileID)).dedup.insertionSort fun a b => !b.before a

def loadReleases (profileID : GoString) : List ReleaseInfo :=
  (j.rows.filter (·.profileID == profileID)).insertionSort fun a b => a.version ≤ b.version

end Journal

/-! ## The manager -/

/-- `ReleaseManager`.  The map `releases` is given by its keys (`held`) and its values. -/
structure ReleaseManager where
  profiles : ProfileRegistry
  journaled : Bool
  next : GoString → ℕ
  held : List GoString
  releases : GoString → List ProfileRelease
  reserved : List Reservation
  syncedRevision : ℤ
  restored : Bool

def scopesOverlap (left right : ScopePath) : Bool :=
  left.isAncestorOf right || right.isAncestorOf left

/-- What the baseline takes from a release. -/
def ReleaseInfo.baseline (info : ReleaseInfo) : BaselineRelease :=
  ⟨info.version, info.scope.string, info.revision, info.rolledBack, info.operationID⟩

def matchReleaseOperation (existing : ReleaseInfo) (profileID : GoString) (scope : ScopePath)
    (revision : GoString) : Except ReleaseError ReleaseInfo := do
  require (existing.profileID == profileID && existing.scope.equal scope &&
    existing.revision == revision) (.operationArtifact existing.operationID)
  require (!existing.rolledBack) (.operationRolledBack existing.operationID)
  return existing

/-- The release that `publish` builds. -/
def newRelease (F : Fingerprints) (layer : AgentProfileLayer) (version : ℕ)
    (operationID : GoString) : ReleaseInfo :=
  ⟨layer.profileID, version, operationID, layer.scope, false, some layer, F.layerRevision layer⟩

namespace ReleaseManager

variable (F : Fingerprints) (m : ReleaseManager) (profiles : ProfileRegistry)

/-- `NewReleaseManager`. -/
def new (journaled : Bool) : ReleaseManager :=
  ⟨profiles, journaled, fun _ => 0, [], fun _ => [], [], -1, false⟩

variable (profileID : GoString)

/-- `baselineRevisionLocked`. -/
def baselineRevision (scope : ScopePath) :
    Except ReleaseError GoString := do
  require (validNamespacedID profileID) (.profileID profileID)
  require (scope.depth != 0) .noScope
  return F.baseline (((m.releases profileID).filter fun r => scopesOverlap scope r.scope).map
    (·.toReleaseInfo.baseline))

def verifyBaseline (scope : ScopePath) (expected : GoString) :
    Except ReleaseError Unit := do
  let current ← m.baselineRevision F profileID scope
  require (current == expected) (.baselineDrift expected current)

/-- `releaseByOperationLocked`. -/
def releaseByOperation (operationID : GoString) : Option ReleaseInfo :=
  ((m.held.flatMap m.releases).find? (·.operationID == operationID)).map (·.toReleaseInfo)

/-- The reservation that refuses a publication. -/
def blocking (scope : ScopePath) (operationID baseline : GoString) :
    Option Reservation :=
  m.reserved.find? fun r => r.profileID == profileID && scopesOverlap r.scope scope &&
    (r.owner != operationID || baseline == .empty || baseline != r.baselineRevision)

variable (faults : Faults)

/-- The release an earlier publication with the operation id made. -/
def replayed (j : Journal) (layer : AgentProfileLayer) (operationID : GoString)
    : Except ReleaseError (Option ReleaseInfo) :=
  if operationID == .empty then .ok none else
  match m.releaseByOperation operationID with
  | some existing =>
    some <$> matchReleaseOperation existing layer.profileID layer.scope (F.layerRevision layer)
  | none =>
    if !m.journaled then .ok none else do
    faults.call .find
    match j.findReleaseByOperation operationID with
    | some existing => some <$>
        matchReleaseOperation existing layer.profileID layer.scope (F.layerRevision layer)
    | none => return none

/-- The checks of `publish` before it changes anything: the release to return, or `none`
for a new one. -/
def publishable (j : Journal) (layer : AgentProfileLayer) (operationID baseline : GoString)
    : Except ReleaseError (Option ReleaseInfo) := do
  require (layer.profileID != .empty) .noProfileID
  require (!m.journaled || m.restored) .notRestored
  require (layer.scope.depth != 0) .noScope
  match ← m.replayed F faults j layer operationID with
  | some existing => return some existing
  | none =>
    let current ← m.baselineRevision F layer.profileID layer.scope
    require (baseline == .empty || current == baseline) (.baselineDrift baseline current)
    match m.blocking layer.profileID layer.scope operationID baseline with
    | some r => .error (.reserved r.owner)
    | none => return none

/-- The manager with a release mounted and kept. -/
def mounted (info : ReleaseInfo) (key : GoString) :
    ReleaseManager :=
  { m with
    profiles
    next := Function.update m.next info.profileID info.version
    held := m.held.insert info.profileID
    releases := Function.update m.releases info.profileID
      (m.releases info.profileID ++ [⟨info, some (key, profiles.next)⟩]) }

/-- What `publish` does when the journal refuses the release just mounted. -/
def undo (layer : AgentProfileLayer) (version : ℕ) : ReleaseManager :=
  { m with
    profiles := m.profiles.unmount layer.key m.profiles.next
    next := Function.update m.next layer.profileID (version - 1)
    releases := Function.update m.releases layer.profileID (m.releases layer.profileID).dropLast }

/-- `publish`, of a layer with the scope it is published at. -/
def publish (j : Journal) (layer : AgentProfileLayer) (operationID baseline : GoString) :
    ReleaseManager × Journal × Except ReleaseError ReleaseInfo :=
  match m.publishable F faults j layer operationID baseline with
  | .error e => (m, j, .error e)
  | .ok (some existing) => (m, j, .ok existing)
  | .ok none =>
    let version := m.next layer.profileID + 1
    let info := newRelease F layer version operationID
    match m.profiles.mount layer with
    | .error e => (m, j, .error (.mount layer.profileID version e))
    | .ok profiles =>
      let after := m.mounted profiles info layer.key
      if !m.journaled then (after, j, .ok info) else
      match faults.call .record >>= fun _ => j.recordRelease F info with
      | .error e => (after.undo layer version, j, .error e)
      | .ok j' => ({ after with syncedRevision := -1 }, j', .ok info)

def publishWithOperationAtBaseline (j : Journal) (layer : AgentProfileLayer)
    (operationID baseline : GoString)
    : ReleaseManager × Journal × Except ReleaseError ReleaseInfo :=
  if !runIDPattern operationID then (m, j, .error (.operationID operationID))
  else if !isHexDigest baseline then (m, j, .error .baselineDigest)
  else m.publish F faults j layer operationID baseline

/-- The unmount functions of a release, called. -/
def unmountRelease (release : ProfileRelease) : ProfileRegistry :=
  release.unmount.elim profiles fun (key, order) => profiles.unmount key order

/-- The releases with some of them rolled back. -/
def rolledBack (targets : List ProfileRelease) : ReleaseManager :=
  { m with
    profiles := targets.foldl unmountRelease m.profiles
    releases := fun profileID => (m.releases profileID).map fun release =>
      if release ∈ targets then ⟨{ release.toReleaseInfo with rolledBack := true }, none⟩
      else release }

/-! ## Taking over the journal -/

variable (info : ReleaseInfo)

/-- The release of a record that is well formed and whose artifact can be restored. -/
def releaseFromInfo : Except ReleaseError ProfileRelease := do
  require (1 ≤ info.version ∧ info.scope.depth != 0) (.invalidRecord info.profileID)
  require (info.operationID == .empty || runIDPattern info.operationID)
    (.operationID info.operationID)
  let layer := info.layer.map fun layer => { layer with scope := info.scope }
  require (info.rolledBack || (layer.isSome && info.revision != .empty))
    (.noArtifact info.profileID info.version)
  require (info.rolledBack || layer.all fun layer => F.layerRevision layer == info.revision)
    (.artifactMismatch info.profileID info.version)
  return ⟨{ info with layer }, none⟩

/-- Mounts the live ones of a sequence of releases, each checked beside those before it.
After a failure everything that was mounted is unmounted again. -/
def mountEach {α : Type} (check : List ProfileRelease → α → Except ReleaseError ProfileRelease)
    (prior : List ProfileRelease) (profiles : ProfileRegistry) :
    List α → ProfileRegistry × Except ReleaseError (List ProfileRelease)
  | [] => (profiles, .ok prior)
  | a :: rest =>
    match check prior a with
    | .error e => (profiles, .error e)
    | .ok release =>
      if release.rolledBack then mountEach check (prior ++ [release]) profiles rest else
      match release.layer.elim (.error .emptyScope) fun layer =>
          (profiles.mount layer).map (layer.key, ·) with
      | .error e => (profiles, .error (.mount release.profileID release.version e))
      | .ok (key, next) =>
        match mountEach check
          (prior ++ [{ release with unmount := some (key, next.next) }]) next rest with
        | (after, .error e) => (after.unmount key next.next, .error e)
        | done => done

/-- The largest version of a history. -/
def newest (releases : List ProfileRelease) : ℕ := (releases.map (·.version)).foldl max 0

/-- The histories that `Sync` reads, each with its profile. -/
def histories (j : Journal) :
    Except ReleaseError (List (GoString × List ReleaseInfo)) := do
  faults.call .list
  j.listReleaseProfiles.foldlM (fun acc profileID => do
    faults.call (.load profileID)
    let infos := j.loadReleases profileID
    infos.forM fun info => discard (releaseFromInfo F info)
    require (decide (infos.map (·.version)).Nodup) (.repeatedVersion profileID)
    require (decide (((acc ++ [(profileID, infos)]).flatMap (·.2.map (·.operationID))).filter
      (· != .empty)).Nodup) (.repeatedOperation profileID)
    return acc ++ [(profileID, infos)]) []

def matchDurableRelease (locally : ProfileRelease) (info : ReleaseInfo) :
    Except ReleaseError Unit := do
  require (locally.profileID == info.profileID && locally.version == info.version &&
    locally.operationID == info.operationID && locally.scope.equal info.scope &&
    locally.revision == info.revision) (.immutable locally.profileID locally.version)
  require (!locally.rolledBack || info.rolledBack) (.resurrected locally.profileID locally.version)

/-- The releases of one profile are still in the journal. -/
def checkHeld (durable : List (GoString × List ReleaseInfo)) (profileID : GoString) :
    Except ReleaseError Unit :=
  match durable.find? (·.1 == profileID) with
  | none => .error (.disappeared profileID)
  | some (_, infos) => (m.releases profileID).forM fun release =>
    match infos.find? (·.version == release.version) with
    | none => .error (.versionDisappeared profileID release.version)
    | some info => matchDurableRelease release info

def validateExternalReleaseChange (scope : ScopePath) (operationID revision : GoString)
    : Except ReleaseError Unit :=
  m.reserved.forM fun r =>
    if !(r.profileID == profileID && scopesOverlap r.scope scope) then .ok () else do
    require (operationID == r.owner && r.scope.equal scope && r.candidateRevision == revision)
      (.reserved r.owner)
    let current ← m.baselineRevision F profileID scope
    require (current == r.baselineRevision) (.reserved r.owner)

/-- What `Sync` has to do about a record: the local release to roll back or the release to
add. -/
def plan : Except ReleaseError (List ProfileRelease × List ProfileRelease) :=
  match (m.releases info.profileID).find? (·.version == info.version) with
  | some release =>
    if !release.rolledBack && info.rolledBack then do
      m.validateExternalReleaseChange F release.profileID release.scope .empty .empty
      return ([release], [])
    else return ([], [])
  | none => do
      let release ← releaseFromInfo F info
      if !release.rolledBack then
        m.validateExternalReleaseChange F release.profileID release.scope release.operationID
          release.revision
      return ([], [release])

/-- The checks of `Sync` before it changes anything. -/
def syncPlan (j : Journal) :
    Except ReleaseError (List ProfileRelease × List ProfileRelease) := do
  let durable ← histories F faults j
  m.held.forM (m.checkHeld durable)
  let plans ← (durable.flatMap (·.2)).mapM (m.plan F)
  return (plans.flatMap (·.1), plans.flatMap (·.2))

/-- The manager after `Sync` has mounted the new releases. -/
def synced (rollbacks news : List ProfileRelease) : ReleaseManager :=
  let after := { m with profiles }.rolledBack rollbacks
  { after with
    held := (news.map (·.profileID)).foldl (fun held p => held.insert p) m.held
    next := fun p => max (m.next p) (newest (news.filter (·.profileID == p)))
    releases := fun p => (after.releases p ++ news.filter (·.profileID == p)).insertionSort
      fun a b => a.version ≤ b.version }

/-- `Sync`; no other process writes between its two readings of the revision. -/
def sync (j : Journal) : ReleaseManager × Except ReleaseError Unit :=
  if !m.journaled then ({ m with restored := true, syncedRevision := 0 }, .ok ()) else
  match (do require m.restored .notRestored; faults.call .revision : Except ReleaseError Unit) with
  | .error e => (m, .error e)
  | .ok _ =>
    if j.revision == m.syncedRevision then (m, .ok ()) else
    match m.syncPlan F faults j with
    | .error e => (m, .error e)
    | .ok (rollbacks, news) =>
      match mountEach (fun _ release => .ok release) [] m.profiles news with
      | (profiles, .error e) => ({ m with profiles }, .error e)
      | (profiles, .ok news) =>
        let after := m.synced profiles rollbacks news
        match faults.call .revisionAgain with
        | .error e => ({ after with syncedRevision := -1 }, .error e)
        | .ok _ => ({ after with syncedRevision := j.revision }, .ok ())

end ReleaseManager

end AutoAgent.Control
