import AutoAgent.Core.Types
import AutoAgent.Lib.Sha256
import Mathlib.Data.List.Lex
import Mathlib.Data.List.Sort
import Mathlib.Data.Prod.Lex
import Mathlib.Order.WithBot

/-!
# Module manifests

A module describes itself by a manifest.  The host writes the manifests of its modules to a
store as JSON, and a new host binds its modules to what it reads there: the fingerprint of
each module's manifest has to equal that of the stored one.

**Canonical manifests.**  What is written and what is hashed is sorted first.  The manifest
that is read back is therefore canonical, and hashing it sorts it once more, to no effect
(`Written.canonical_canonical`).

**Nil and empty.**  Every list of a manifest is written with `omitempty`, so an empty list
comes back as nil.  The fingerprint also hashes the provided extensions on their own, without
`omitempty`: there nil is `null` and an empty list `[]`.

**Across modules.**  What `BuildSnapshotForAPI` checks across the manifests is left open: any
test of the canonical manifests in the order of their ids.  The compositions of the state
are left out; no module is bound to them.
-/

namespace AutoAgent.Runtime

open List

open Codec (int64 ptr slice string)

structure Version where
  major : Int64
  minor : Int64
  patch : Int64
  deriving DecidableEq

structure VersionRange where
  min : Version
  max : Option Version
  deriving DecidableEq

structure Dependency where
  moduleID : GoString
  contract : GoString
  version : VersionRange
  deriving DecidableEq

structure ProvidedExtension where
  id : GoString
  semantic : GoString
  contract : GoString
  version : Version
  priority : Int64
  before : List GoString
  after : List GoString
  resourceKey : GoString
  deriving DecidableEq

/-- The part of a `ModuleManifest` that JSON keeps: the lists without the difference of nil
and empty. -/
structure Written where
  id : GoString
  version : Version
  compatibleAPI : VersionRange
  requires : List Dependency
  optional : List Dependency
  provides : List ProvidedExtension
  effects : List GoString
  drainTimeout : Int64
  deriving DecidableEq

/-- `ModuleManifest`, with the one list whose nil value is told from the empty one. -/
structure ModuleManifest where
  written : Written
  provides : Option (List ProvidedExtension)
  same : written.provides = provides.getD []

/-! ## Validation -/

namespace Version

def valid (v : Version) : Bool :=
  0 ≤ v.major ∧ 0 ≤ v.minor ∧ 0 ≤ v.patch

/-- `Version.Compare` compares these keys. -/
def key (v : Version) : ℤ ×ₗ ℤ ×ₗ ℤ :=
  toLex (v.major.toInt, toLex (v.minor.toInt, v.patch.toInt))

end Version

namespace VersionRange

def valid (r : VersionRange) : Bool :=
  r.min.valid ∧ r.max.all fun max => max.valid ∧ r.min.key ≤ max.key

def contains (r : VersionRange) (v : Version) : Bool :=
  r.valid ∧ v.valid ∧ r.min.key ≤ v.key ∧ r.max.all fun max => v.key ≤ max.key

end VersionRange

inductive ManifestError where
  | count (list : String)
  | id (label : String) (value : GoString)
  | version
  | drainTimeout
  | duplicate (label : String)
  | semantic (value : GoString)
  | ordersItself (id : GoString)
  deriving DecidableEq

def isModuleIDChar (c : Char) : Bool :=
  isAlphaNum c || c == '.' || c == '_' || c == '/' || c == '-'

def validateID (value : GoString) (label : String) : Except ManifestError Unit :=
  require (value ≠ .empty ∧ value.len ≤ 128 ∧ value.allRunes isModuleIDChar ∧
    (.rune '.', .rune '.') ∉ value.runes.zip value.runes.tail) (.id label value)

def validateDependency (d : Dependency) : Except ManifestError Unit := do
  validateID d.moduleID "dependency module"
  validateID d.contract "dependency contract"
  require d.version.valid .version

def validateResourceKey (value : GoString) : Except ManifestError Unit :=
  if value = .empty then .ok () else validateID value "resource key"

def validateExtension (e : ProvidedExtension) : Except ManifestError Unit := do
  validateID e.id "extension"
  require (e.semantic ∈ ["collection", "pipeline", "scoped_overlay", "single_strategy",
    "stateful_resource"].map go) (.semantic e.semantic)
  require e.version.valid .version
  validateID e.contract "contract"
  validateResourceKey e.resourceKey
  (e.before ++ e.after).forM fun id => do
    validateID id "ordering extension"
    require (id ≠ e.id) (.ordersItself e.id)
  require (e.before ++ e.after).Nodup (.duplicate "ordering target")

def validateManifest (m : Written) : Except ManifestError Unit := do
  require (m.requires.length + m.optional.length ≤ 256) (.count "dependency")
  require (m.provides.length ≤ 1024) (.count "provided extension")
  require (m.effects.length ≤ 256) (.count "effect")
  validateID m.id "module"
  require (m.version.valid ∧ m.compatibleAPI.valid) .version
  require (0 ≤ m.drainTimeout ∧ m.drainTimeout.toInt ≤ 24 * 60 * 60 * 10 ^ 9) .drainTimeout
  (m.requires ++ m.optional).forM validateDependency
  require ((m.requires ++ m.optional).map fun d => (d.moduleID, d.contract)).Nodup
    (.duplicate "dependency")
  m.effects.forM (validateID · "effect")
  require m.effects.Nodup (.duplicate "effect")
  m.provides.forM fun e => do
    require (e.before.length + e.after.length ≤ 64) (.count "ordering target")
    validateExtension e
  require (m.provides.map (·.id)).Nodup (.duplicate "extension")

/-! ## JSON -/

def Version.codec : Codec Version :=
  .struct [
    int64.tag "major" (·.major),
    int64.tag "minor" (·.minor),
    int64.tag "patch" (·.patch)] mk

/-- JSON of an upper bound. -/
def maxCodec : Codec (Option Version) := Version.codec.ptr fun _ => structDoc_ne_null _

def VersionRange.codec : Codec VersionRange :=
  .struct [Version.codec.tag "min" (·.min), maxCodec.opt "max" (·.max)] mk

def Dependency.codec : Codec Dependency :=
  .struct [
    string.tag "module_id" (·.moduleID),
    string.tag "contract" (·.contract),
    VersionRange.codec.tag "version" (·.version)] mk

def ProvidedExtension.codec : Codec ProvidedExtension :=
  .struct [
    string.tag "id" (·.id),
    string.tag "semantic" (·.semantic),
    string.tag "contract" (·.contract),
    Version.codec.tag "version" (·.version),
    int64.tag "priority" (·.priority),
    (slice .string).opt "before" (·.before),
    (slice .string).opt "after" (·.after),
    string.opt "resource_key" (·.resourceKey)] mk

def Written.codec : Codec Written :=
  .struct [
    string.tag "id" (·.id),
    Version.codec.tag "version" (·.version),
    VersionRange.codec.tag "compatible_api" (·.compatibleAPI),
    (slice Dependency.codec).opt "requires" (·.requires),
    (slice Dependency.codec).opt "optional" (·.optional),
    (slice ProvidedExtension.codec).opt "provides" (·.provides),
    (slice .string).opt "effects" (·.effects),
    int64.tag "drain_timeout" (·.drainTimeout)] mk

/-! ## Canonical manifests -/

/-- `sort.Slice`, where the function that compares does so by a key. -/
def sortBy {α κ : Type} [LinearOrder κ] (key : α → κ) (l : List α) : List α :=
  l.insertionSort fun a b => key a ≤ key b

/-- `dependencyLess` compares these keys; no upper bound comes first. -/
def Dependency.key (d : Dependency) :
    List ℕ ×ₗ List ℕ ×ₗ (ℤ ×ₗ ℤ ×ₗ ℤ) ×ₗ WithBot (ℤ ×ₗ ℤ ×ₗ ℤ) :=
  toLex (d.moduleID.codes, toLex (d.contract.codes, toLex (d.version.min.key,
    d.version.max.elim ⊥ fun max => (max.key : WithBot (ℤ ×ₗ ℤ ×ₗ ℤ)))))

/-- The keys by which the provided extensions are sorted. -/
def ProvidedExtension.key (e : ProvidedExtension) : List ℕ ×ₗ ℤ ×ₗ List ℕ :=
  toLex (e.semantic.codes, toLex (e.priority.toInt, e.id.codes))

def ProvidedExtension.canonical (e : ProvidedExtension) : ProvidedExtension :=
  { e with before := sortBy GoString.codes e.before, after := sortBy GoString.codes e.after }

def canonicalExtensions (l : List ProvidedExtension) : List ProvidedExtension :=
  sortBy ProvidedExtension.key (l.map ProvidedExtension.canonical)

/-- `canonicalizeManifest`, on what JSON keeps. -/
def Written.canonical (w : Written) : Written :=
  { w with
    requires := sortBy Dependency.key w.requires
    optional := sortBy Dependency.key w.optional
    effects := sortBy GoString.codes w.effects
    provides := canonicalExtensions w.provides }

/-- The manifest a decoder makes; a missing list is nil. -/
def Written.manifest (w : Written) : ModuleManifest :=
  ⟨w, if w.provides = [] then none else some w.provides, by split_ifs with empty <;> simp [empty]⟩

namespace ModuleManifest

/-- What `manifestFingerprint` hashes. -/
def payload (m : ModuleManifest) : Doc :=
  structDoc [⟨"manifests", some (.arr [Written.codec.enc m.written.canonical])⟩,
    ⟨"extensions", some ((m.provides.map canonicalExtensions).elim .null fun l =>
      .arr (l.map ProvidedExtension.codec.enc))⟩]

/-- `manifestFingerprint`. -/
def fingerprint (m : ModuleManifest) : GoString :=
  go "rev_" ++ Sha256.hex ((Sha256.digest m.payload.text).take 16)

end ModuleManifest

/-! ## The stored state -/

structure DurableHostState where
  storeRevision : GoString
  hostAPIVersion : Version
  desired : List ModuleManifest

/-- The document of a `DurableHostState`. -/
structure StateDocument where
  storeRevision : GoString
  hostAPIVersion : Version
  desired : List Written

def StateDocument.codec : Codec StateDocument :=
  .struct [
    string.tag "store_revision" (·.storeRevision),
    Version.codec.tag "host_api_version" (·.hostAPIVersion),
    (slice Written.codec).tag "desired" (·.desired)] mk

namespace DurableHostState

variable (snapshot : List Written → Bool)

/-- The desired manifests as `MarshalJSON` writes them. -/
def document (s : DurableHostState) : List Written :=
  (sortBy (·.written.id.codes) s.desired).map (·.written.canonical)

/-- `ValidateDurableHostState`. -/
def valid (s : DurableHostState) : Bool :=
  validateID s.storeRevision "store revision" = .ok () ∧ s.hostAPIVersion.valid ∧
    (∀ m ∈ s.desired, validateManifest m.written = .ok () ∧
      m.written.compatibleAPI.contains s.hostAPIVersion) ∧
    (s.desired.map (·.written.id)).Nodup ∧ snapshot s.document ∧
    s.desired.length ≤ 4 * 1024 ∧ (s.desired.map (·.written.provides.length)).sum ≤ 4 * 4096

/-- What a new host reads: `MarshalJSON`, then `json.Unmarshal`. -/
def reopen (s : DurableHostState) : Option DurableHostState :=
  (StateDocument.codec.dec StateDocument.codec.zero
      (StateDocument.codec.enc ⟨s.storeRevision, s.hostAPIVersion, s.document⟩)).map fun d =>
    ⟨d.storeRevision, d.hostAPIVersion, d.desired.map Written.manifest⟩

/-- `validateOpenedState`, with the manifests of the constructor's modules, which have
different ids. -/
def validateOpenedState (s : DurableHostState) (apiVersion : Version)
    (bound : List ModuleManifest) : Bool :=
  s.valid snapshot ∧ s.hostAPIVersion = apiVersion ∧ s.desired.length = bound.length ∧
    ∀ m ∈ s.desired, ∃ b ∈ bound, b.written.id = m.written.id ∧ b.fingerprint = m.fingerprint

end DurableHostState

/-! ## What canonicalization keeps -/

section Sorting

variable {α κ : Type} [LinearOrder κ] {key : α → κ} {l : List α}

theorem perm_sortBy : (sortBy key l).Perm l := perm_insertionSort _ l

theorem mem_sortBy {a : α} : a ∈ sortBy key l ↔ a ∈ l := perm_sortBy.mem_iff

theorem pairwise_sortBy : (sortBy key l).Pairwise fun a b => key a ≤ key b := by
  have total : Std.Total fun a b => key a ≤ key b := ⟨fun a b => le_total _ _⟩
  have trans : IsTrans α fun a b => key a ≤ key b := ⟨fun a b c => le_trans⟩
  exact pairwise_insertionSort _ l

theorem sortBy_of_pairwise (h : l.Pairwise fun a b => key a ≤ key b) : sortBy key l = l :=
  h.insertionSort_eq

theorem sortBy_sortBy : sortBy key (sortBy key l) = sortBy key l :=
  sortBy_of_pairwise pairwise_sortBy

end Sorting

theorem ProvidedExtension.canonical_canonical (e : ProvidedExtension) :
    e.canonical.canonical = e.canonical := by
  simp only [ProvidedExtension.canonical, sortBy_sortBy]

theorem canonicalExtensions_canonicalExtensions (l : List ProvidedExtension) :
    canonicalExtensions (canonicalExtensions l) = canonicalExtensions l := by
  have same : (canonicalExtensions l).map ProvidedExtension.canonical = canonicalExtensions l := by
    refine (map_congr_left fun e mem => ?_).trans (map_id _)
    obtain ⟨e', -, rfl⟩ := mem_map.mp (mem_sortBy.mp mem)
    exact e'.canonical_canonical
  rw [canonicalExtensions, same, canonicalExtensions, sortBy_sortBy]

/-- A canonical manifest stays as it is. -/
theorem Written.canonical_canonical (w : Written) : w.canonical.canonical = w.canonical := by
  simp only [Written.canonical, sortBy_sortBy, canonicalExtensions_canonicalExtensions]

theorem length_canonicalExtensions (l : List ProvidedExtension) :
    (canonicalExtensions l).length = l.length := by
  rw [canonicalExtensions, perm_sortBy.length_eq, length_map]

/-- Sorted targets are accepted. -/
theorem validateExtension_canonical {e : ProvidedExtension} (h : validateExtension e = .ok ()) :
    validateExtension e.canonical = .ok () := by
  have targets : (e.canonical.before ++ e.canonical.after).Perm (e.before ++ e.after) :=
    perm_sortBy.append perm_sortBy
  simp only [validateExtension, bind_eq_ok, require_eq_ok, forM_eq_ok, targets.mem_iff,
    targets.nodup_iff] at h ⊢
  exact h

/-- A sorted manifest is accepted. -/
theorem validateManifest_canonical {w : Written} (h : validateManifest w = .ok ()) :
    validateManifest w.canonical = .ok () := by
  have requires : w.canonical.requires.Perm w.requires := perm_sortBy
  have optional : w.canonical.optional.Perm w.optional := perm_sortBy
  have effects : w.canonical.effects.Perm w.effects := perm_sortBy
  have provides : w.canonical.provides.Perm (w.provides.map ProvidedExtension.canonical) :=
    perm_sortBy
  have dependencies := requires.append optional
  have ids : (w.canonical.provides.map (·.id)).Perm (w.provides.map (·.id)) := by
    have mapped := provides.map (·.id)
    rw [map_map] at mapped
    exact mapped
  simp only [validateManifest, bind_eq_ok, require_eq_ok, forM_eq_ok, exists_const,
    requires.length_eq, optional.length_eq, effects.length_eq, provides.length_eq, length_map,
    dependencies.mem_iff, (dependencies.map _).nodup_iff, effects.mem_iff, effects.nodup_iff,
    provides.mem_iff, ids.nodup_iff, forall_mem_map] at h ⊢
  obtain ⟨few, fewProvided, fewEffects, _, id, versions, drain, each, apart, kinds, apartKinds,
    extensions, apartIDs⟩ := h
  refine ⟨few, fewProvided, fewEffects, _, id, versions, drain, each, apart, kinds, apartKinds,
    fun e mem => ?_, apartIDs⟩
  have targets : e.canonical.before.length + e.canonical.after.length =
      e.before.length + e.after.length :=
    congrArg₂ _ perm_sortBy.length_eq perm_sortBy.length_eq
  rw [targets]
  exact ⟨(extensions e mem).1, validateExtension_canonical (extensions e mem).2⟩

variable {u : Unit} {label : String}

theorem valid_of_validateID {value : GoString} (h : validateID value label = .ok u) : value.valid :=
  GoString.valid_of_allRunes (require_eq_ok.mp h).2.2.1

theorem ok_version (v : Version) : Version.codec.ok v := rfl

theorem ok_versionRange (r : VersionRange) : VersionRange.codec.ok r := by
  refine Codec.ok_struct_iff.mpr ⟨ok_version _, ?_⟩
  show maxCodec.ok r.max
  cases r.max <;> rfl

theorem ok_extension {e : ProvidedExtension} (h : validateExtension e = .ok u) :
    ProvidedExtension.codec.ok e := by
  simp only [validateExtension, bind_eq_ok, require_eq_ok, forM_eq_ok, exists_const] at h
  obtain ⟨_, id, semantic, -, _, contract, _, key, orders, -⟩ := h
  have ordered : ∀ target ∈ e.before ++ e.after, target.valid := fun target mem => by
    obtain ⟨_, checked, -⟩ := orders target mem
    exact valid_of_validateID checked
  have resource : e.resourceKey.valid := by
    rw [validateResourceKey] at key
    split_ifs at key with empty
    · rw [empty]
      rfl
    · exact valid_of_validateID key
  have known : e.semantic.valid := by
    generalize e.semantic = name at semantic ⊢
    revert name
    decide
  exact Codec.ok_struct_iff.mpr ⟨valid_of_validateID id, known, valid_of_validateID contract,
    ok_version _, rfl, all_eq_true.mpr fun target mem => ordered target (mem_append_left _ mem),
    all_eq_true.mpr fun target mem => ordered target (mem_append_right _ mem), resource⟩

/-- Everything in an accepted manifest survives JSON. -/
theorem ok_of_validateManifest {m : Written} (h : validateManifest m = .ok u) :
    Written.codec.ok m := by
  simp only [validateManifest, bind_eq_ok, require_eq_ok, forM_eq_ok, exists_const] at h
  obtain ⟨-, -, -, _, id, -, -, dependencies, -, effects, -, provides, -⟩ := h
  have dependency : ∀ d ∈ m.requires ++ m.optional, Dependency.codec.ok d := fun d mem => by
    obtain ⟨_, moduleID, checked⟩ := bind_eq_ok.mp (dependencies d mem)
    obtain ⟨_, contract, -⟩ := bind_eq_ok.mp checked
    exact Codec.ok_struct_iff.mpr ⟨valid_of_validateID moduleID, valid_of_validateID contract,
      ok_versionRange _⟩
  exact Codec.ok_struct_iff.mpr ⟨valid_of_validateID id, ok_version _, ok_versionRange _,
    all_eq_true.mpr fun d mem => dependency d (mem_append_left _ mem),
    all_eq_true.mpr fun d mem => dependency d (mem_append_right _ mem),
    all_eq_true.mpr fun e mem => ok_extension (provides e mem).2,
    all_eq_true.mpr fun id mem => valid_of_validateID (effects id mem), rfl⟩

/-! ## Reopening -/

/-- The manifest that is read back. -/
def ModuleManifest.reread (m : ModuleManifest) : ModuleManifest := m.written.canonical.manifest

/-- Only an empty list that is not nil comes back as another list. -/
theorem reread_provides (m : ModuleManifest) : m.reread.provides.map canonicalExtensions =
    if m.provides = some [] then none else m.provides.map canonicalExtensions := by
  obtain ⟨w, provides, same⟩ := m
  change w.provides = provides.getD [] at same
  have back : (ModuleManifest.mk w provides same).reread.provides =
      if canonicalExtensions w.provides = [] then none else some (canonicalExtensions w.provides) :=
    rfl
  rw [back, same]
  rcases provides with _ | _ | ⟨e, rest⟩
  · rfl
  · rfl
  · have filled : canonicalExtensions (e :: rest) ≠ [] := by
      rw [← length_pos_iff, length_canonicalExtensions]
      exact Nat.succ_pos _
    simp [filled, canonicalExtensions_canonicalExtensions]

/-- What is hashed for the manifest that is read back is what was hashed, exactly if the
provided extensions are nil or not empty. -/
theorem payload_reread_iff (m : ModuleManifest) :
    m.reread.payload = m.payload ↔ m.provides ≠ some [] := by
  have written : m.reread.written.canonical = m.written.canonical := m.written.canonical_canonical
  rw [ModuleManifest.payload, ModuleManifest.payload, written, reread_provides]
  split_ifs with empty
  · simp [empty, structDoc, fieldMembers]
  · simp [empty]

namespace DurableHostState

variable {snapshot : List Written → Bool} {s : DurableHostState}

/-- The state that is read back. -/
def reread (s : DurableHostState) : DurableHostState :=
  ⟨s.storeRevision, s.hostAPIVersion,
    (sortBy (·.written.id.codes) s.desired).map ModuleManifest.reread⟩

/-- An accepted state can be read back. -/
theorem reopen_of_valid (h : s.valid snapshot) : s.reopen = some s.reread := by
  obtain ⟨revision, -, manifests, -⟩ := of_decide_eq_true h
  have ok : StateDocument.codec.ok ⟨s.storeRevision, s.hostAPIVersion, s.document⟩ := by
    refine Codec.ok_struct_iff.mpr ⟨valid_of_validateID revision, ok_version _,
      all_eq_true.mpr fun w mem => ?_⟩
    obtain ⟨m, inside, rfl⟩ := mem_map.mp mem
    exact ok_of_validateManifest
      (validateManifest_canonical (manifests m (mem_sortBy.mp inside)).1)
  rw [reopen, StateDocument.codec.dec_enc ok, map_some, document, map_map]
  rfl

/-- What is read back is written as before. -/
theorem document_reread (s : DurableHostState) : s.reread.document = s.document := by
  have sorted : sortBy (·.written.id.codes) s.reread.desired = s.reread.desired :=
    sortBy_of_pairwise (pairwise_map.mpr pairwise_sortBy)
  rw [document, sorted, document, reread, map_map]
  exact map_congr_left fun m _ => m.written.canonical_canonical

/-- What is read back is accepted. -/
theorem valid_reread (h : s.valid snapshot) : s.reread.valid snapshot := by
  obtain ⟨revision, api, manifests, ids, checked, few, fewProvided⟩ := of_decide_eq_true h
  have perm : s.reread.desired.Perm (s.desired.map ModuleManifest.reread) := perm_sortBy.map _
  have names : (s.reread.desired.map (·.written.id)).Perm (s.desired.map (·.written.id)) := by
    have mapped := perm.map (·.written.id)
    rw [map_map] at mapped
    exact mapped
  have counts : (s.reread.desired.map (·.written.provides.length)).sum =
      (s.desired.map (·.written.provides.length)).sum := by
    rw [(perm.map _).sum_eq, map_map]
    exact congrArg sum (map_congr_left fun m _ => length_canonicalExtensions _)
  refine decide_eq_true ⟨revision, api, fun m mem => ?_, names.nodup_iff.mpr ids,
    (document_reread s).symm ▸ checked, by rwa [perm.length_eq, length_map], counts ▸ fewProvided⟩
  obtain ⟨m, inside, rfl⟩ := mem_map.mp (perm.mem_iff.mp mem)
  exact ⟨validateManifest_canonical (manifests m inside).1, (manifests m inside).2⟩

end DurableHostState

open DurableHostState

/-- A module that provides a pipeline of two extensions, listed out of order, with two
effects. -/
def pipelineModule : ModuleManifest :=
  let stage (id : String) (before : List GoString) : ProvidedExtension :=
    ⟨go id, go "pipeline", go "text", ⟨1, 0, 0⟩, 0, before, [], .empty⟩
  ⟨⟨go "pipe", ⟨1, 2, 0⟩, ⟨⟨1, 0, 0⟩, some ⟨2, 0, 0⟩⟩, [], [],
    [stage "trim" [], stage "split" [go "trim", go "count"]], [go "write", go "read"],
    0⟩, some _, rfl⟩

/-- A module that requires it and provides nothing. -/
def clientModule : ModuleManifest :=
  ⟨⟨go "client", ⟨0, 1, 0⟩, ⟨⟨1, 0, 0⟩, none⟩, [⟨go "pipe", go "text", ⟨⟨1, 0, 0⟩, none⟩⟩], [], [],
    [], 10 ^ 9⟩, none, rfl⟩

/-- A module with an allocated but empty list of extensions. -/
def bareModule : ModuleManifest :=
  ⟨⟨go "m", ⟨1, 0, 0⟩, ⟨⟨1, 0, 0⟩, none⟩, [], [], [], [], 0⟩, some [], rfl⟩

end AutoAgent.Runtime
