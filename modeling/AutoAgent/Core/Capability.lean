import AutoAgent.Core.Scope

/-!
# Capability resolution

Scopes provide, replace and disable capabilities.  `resolveEntries` walks from the
root to the target and applies the bindings it meets in mount order; `resolve`
keeps the entries the caller may use and fixes them in a snapshot.

**Protection.**  A protected entry may be replaced or disabled only by its own
scope.  Below the scope where it is in force every binding of its identifier makes
the walk fail, so wherever resolution succeeds the entry is still there
(`foldlM_applyBinding_of_protected`).

**Isolation.**  The walk reads the slices of the target's prefixes and nothing
else, so bindings elsewhere in the hierarchy cannot be observed.
-/

namespace AutoAgent

open List AList

/-- `BindingMode`, the unset mode and unknown texts included. -/
inductive BindingMode where
  | unset
  | provide
  | replace
  | disable
  | other (text : GoString)
  deriving DecidableEq

structure CapabilityBinding (ρ : Type) where
  scope : ScopePath
  mode : BindingMode
  manifest : CapabilityManifest
  provider : Option ρ
  protected_ : Bool

/-- What resolution observes of providers, and the schema checker it calls. -/
structure ProviderKit (ρ : Type) where
  isToolProvider : ρ → Bool
  artifactRevisionLabel : ρ → GoString
  validateSchema : AnyMap → Bool

variable {ρ : Type} (kit : ProviderKit ρ)

/-! ## Mounting -/

/-- A list of identifiers, each namespaced and none repeated. -/
def checkDistinct (repeated : GoString → RegistryError) :
    List GoString → List GoString → Except RegistryError Unit
  | _, [] => .ok ()
  | seen, id :: ids => do
      validateNamespacedID id
      require (!seen.contains id) (repeated id)
      checkDistinct repeated (id :: seen) ids

/-- A count between zero and a limit. -/
def checkCount (e : RegistryError) (limit : ℤ) (n : Int64) : Except RegistryError Unit :=
  require (0 ≤ n.toInt ∧ n.toInt ≤ limit) e

def validateCapabilityManifest (m : CapabilityManifest) : Except RegistryError Unit := do
  require (!m.kind.isBlank) .emptyKind
  checkCount .perTurnBudget hardMaxToolCalls m.perTurnBudget
  checkCount .maxOutputBytes (16 * 2 ^ 20) m.maxOutputBytes
  checkCount .timeout (24 * 60 * 60 * 1000) m.timeoutMs
  checkDistinct .repeatedPermission [] m.requiredPermissions
  checkDistinct .repeatedCredential [] m.requiredCredentials
  require (kit.validateSchema m.inputSchema) .inputSchema
  require (kit.validateSchema m.outputSchema) .outputSchema
  require (m.tool.all fun tool => kit.validateSchema tool.parameters) .toolSchema
  m.execution.forM fun execution =>
    require ([GoString.empty, go "read-only", go "workspace-write",
      go "danger-full-access"].contains execution.sandbox.mode)
      (.sandboxMode execution.sandbox.mode)

/-- What `Mount` stores of a binding whose identifier and version it accepted. -/
def CapabilityBinding.stored (b : CapabilityBinding ρ) :
    BindingMode → Except RegistryError (CapabilityBinding ρ)
  | .disable => .ok { b with
      mode := .disable, provider := none, manifest := cloneManifest b.manifest }
  | .other _ => .error .unknownMode
  | mode => do
      validateCapabilityManifest kit b.manifest
      require ((CapabilityManifest.codec.enc b.manifest).size ≤ 256 * 2 ^ 10) .manifestBytes
      require b.provider.isSome .noProvider
      require (b.manifest.tool.isNone || b.provider.all kit.isToolProvider) .notToolProvider
      return { b with mode, manifest := cloneManifest b.manifest }

/-- The checks of `Mount` and the binding it stores; an unset mode provides. -/
def CapabilityBinding.accept (b : CapabilityBinding ρ) :
    Except RegistryError (CapabilityBinding ρ) := do
  require (b.scope.depth != 0) .emptyScope
  validateNamespacedID b.manifest.id
  require (b.manifest.version != .empty) .emptyVersion
  b.stored kit (if b.mode = .unset then .provide else b.mode)

/-- Capability bindings as contributions of scopes. -/
def capabilityContribution : Contribution (CapabilityBinding ρ) where
  scopeOf := CapabilityBinding.scope
  accept := CapabilityBinding.accept kit
  keeps {a b} h := by
    simp only [CapabilityBinding.accept, bind_eq_ok] at h
    obtain ⟨_, _, _, _, _, _, stored⟩ := h
    unfold CapabilityBinding.stored at stored
    split at stored
    · cases stored
      rfl
    · cases stored
    · simp only [bind_eq_ok, pure_eq_ok] at stored
      obtain ⟨_, _, _, _, _, _, _, _, rfl⟩ := stored
      rfl

/-! ## Resolution -/

structure ResolvedEntry (ρ : Type) where
  manifest : CapabilityManifest
  provider : Option ρ
  scope : ScopePath
  protected_ : Bool

/-- The entry a binding puts in force. -/
def CapabilityBinding.entry (b : CapabilityBinding ρ) : ResolvedEntry ρ :=
  ⟨b.manifest, b.provider, b.scope, b.protected_⟩

/-- A protected entry yields only to bindings of its own scope. -/
def ResolvedEntry.guards (current : ResolvedEntry ρ) (scope : ScopePath) : Bool :=
  current.protected_ && !current.scope.equal scope

/-- One binding of the walk. -/
def applyBinding (effective : GoMap (ResolvedEntry ρ)) (b : CapabilityBinding ρ) :
    Except RegistryError (GoMap (ResolvedEntry ρ)) :=
  let id := b.manifest.id
  match b.mode, effective.lookup id with
  | .provide, some _ => .error (.alreadyProvided id)
  | .provide, none => .ok (effective.insert id b.entry)
  | .replace, none => .error (.replacesMissing id)
  | .replace, some current =>
    if current.guards b.scope then .error (.protectedBy id current.scope)
    else .ok (effective.insert id b.entry)
  | .disable, none => .ok effective
  | .disable, some current =>
    if current.guards b.scope then .error (.protectedBy id current.scope)
    else .ok (effective.erase id)
  | _, _ => .ok effective

/-- `resolveEntriesLocked`. -/
def resolveEntries (r : ScopedRegistry (CapabilityBinding ρ)) (target : ScopePath) :
    Except RegistryError (GoMap (ResolvedEntry ρ)) :=
  (r.walk target).foldlM applyBinding ∅

def artifactRevision (provider : Option ρ) : GoString :=
  let label := (provider.map kit.artifactRevisionLabel).getD .empty
  if label = .empty then .empty else go "sha256:" ++ Sha256.hex (Sha256.digest label.bytes)

/-- The entry as a snapshot records it. -/
def ResolvedEntry.capability (entry : ResolvedEntry ρ) : SnapshotCapability :=
  ⟨cloneManifest entry.manifest, entry.scope, artifactRevision kit entry.provider⟩

structure CapabilitySnapshot (ρ : Type) where
  id : GoString
  scope : ScopePath
  principal : Principal
  capabilities : List SnapshotCapability
  providers : GoMap (Option ρ)

def snapshotDigest (scope : ScopePath) (principal : Principal)
    (capabilities : List SnapshotCapability) : Except RegistryError GoString := do
  let doc := structDoc [
    ScopePath.codec.field "Scope" scope,
    Codec.string.field "Subject" principal.subjectID,
    (Codec.slice SnapshotCapability.codec).field "Capabilities" capabilities]
  require (doc.size ≤ 8 * 2 ^ 20) .snapshotBytes
  return digestDoc doc

/-- The entries the caller's grants allow. -/
def permitted (principal : Principal) (effective : GoMap (ResolvedEntry ρ)) :
    List (Sigma fun _ : GoString => ResolvedEntry ρ) :=
  effective.entries.filter fun e => principal.permissions.allows e.2.manifest.requiredPermissions

/-- `Resolve`: the entries the caller may use, sorted by identifier. -/
def resolve (r : ScopedRegistry (CapabilityBinding ρ)) (principal : Principal)
    (target : ScopePath) : Except RegistryError (CapabilitySnapshot ρ) := do
  require (principal.scope.isAncestorOf target) (.notOwner principal.scope target)
  let effective ← resolveEntries r target
  let kept := permitted principal effective
  let entries := (kept.map fun e => e.2.capability kit).insertionSort fun a b =>
    b.manifest.id.before a.manifest.id = false
  let id ← snapshotDigest target principal entries
  return { id, scope := target, principal, capabilities := entries
           providers := kept.foldl (fun m e => m.insert e.1 e.2.provider) ∅ }

/-! ## What the walk keeps -/

variable {kit} {r : ScopedRegistry (CapabilityBinding ρ)}
    {effective effective' : GoMap (ResolvedEntry ρ)}
  {b : CapabilityBinding ρ} {entry : ResolvedEntry ρ} {id : GoString}

/-- What one binding does: nothing, put its own entry in force, or take the entry
of its identifier out; the entry in force is not guarded against it. -/
theorem applyBinding_eq_ok (h : applyBinding effective b = .ok effective') :
    (effective' = effective ∧ (b.mode = .disable → effective.lookup b.manifest.id = none)) ∨
      (effective' = effective.insert b.manifest.id b.entry ∨
        effective' = effective.erase b.manifest.id) ∧
      ∀ current, effective.lookup b.manifest.id = some current →
      current.guards b.scope = false := by
  unfold applyBinding at h
  dsimp only at h
  split at h
  · cases h
  · next absent =>
      cases h
      exact .inr ⟨.inl rfl, fun current found => by simp [absent] at found⟩
  · cases h
  · next current found =>
      split at h
      · cases h
      · next free =>
          cases h
          refine .inr ⟨.inl rfl, fun other same => ?_⟩
          cases found.symm.trans same
          simpa using free
  · next absent =>
      cases h
      exact .inl ⟨rfl, fun _ => absent⟩
  · next current found =>
      split at h
      · cases h
      · next free =>
          cases h
          refine .inr ⟨.inr rfl, fun other same => ?_⟩
          cases found.symm.trans same
          simpa using free
  · next notDisable =>
      cases h
      exact .inl ⟨rfl, fun same => by rcases e : effective.lookup b.manifest.id <;> simp_all⟩

variable {bindings : List (CapabilityBinding ρ)}

/-- Bindings of deeper scopes leave a protected entry in force. -/
theorem foldlM_applyBinding_of_protected
    (deeper : ∀ b ∈ bindings, entry.scope.depth < b.scope.depth) (guarded : entry.protected_)
    (found : effective.lookup id = some entry)
    (ok : bindings.foldlM applyBinding effective = .ok effective') :
    effective'.lookup id = some entry := by
  refine foldlM_keeps (I := fun m => m.lookup id = some entry) ?_ found ok
  intro b mem current next found step
  by_cases same : b.manifest.id = id
  · subst same
    rcases applyBinding_eq_ok step with ⟨rfl, _⟩ | ⟨_, free⟩
    · exact found
    · -- the scopes differ in depth, so the entry is guarded against the binding
      have open_ := free entry found
      have differ : entry.scope.equal b.scope = false := by
        rw [← not_eq_true, ScopePath.equal_iff]
        rintro same
        exact absurd (deeper b mem) (same ▸ lt_irrefl _)
      simp [ResolvedEntry.guards, guarded, differ] at open_
  · rcases applyBinding_eq_ok step with ⟨rfl, _⟩ | ⟨rfl | rfl, _⟩
    · exact found
    · rwa [lookup_insert_ne (Ne.symm same)]
    · rwa [lookup_erase_ne (Ne.symm same)]

/-- Every entry in force was put there by a binding of the walk, under the
identifier of its manifest. -/
theorem of_foldlM_applyBinding (ok : bindings.foldlM applyBinding ∅ = .ok effective)
    (found : effective.lookup id = some entry) :
    entry.manifest.id = id ∧ ∃ b ∈ bindings, entry = b.entry := by
  refine foldlM_keeps (I := fun m => ∀ id entry, m.lookup id = some entry →
    entry.manifest.id = id ∧ ∃ b ∈ bindings, entry = CapabilityBinding.entry b) ?_ ?_ ok
    id entry found
  · intro b mem current next holds step id entry found
    rcases applyBinding_eq_ok step with ⟨rfl, _⟩ | ⟨rfl | rfl, _⟩
    · exact holds id entry found
    · by_cases same : id = b.manifest.id
      · subst same
        rw [lookup_insert] at found
        cases found
        exact ⟨rfl, b, mem, rfl⟩
      · rw [lookup_insert_ne same] at found
        exact holds id entry found
    · by_cases same : id = b.manifest.id
      · subst same
        simp at found
      · rw [lookup_erase_ne same] at found
        exact holds id entry found
  · intro id entry found
    simp at found

/-- Where the walk to a target succeeds, so does the walk to each ancestor, and the
entries protected there are in force at the target. -/
theorem resolveEntries_of_isAncestorOf (h : r.Orderly (capabilityContribution kit))
    {scope target : ScopePath} (below : scope.isAncestorOf target)
    (ok : resolveEntries r target = .ok effective') :
    ∃ effective, resolveEntries r scope = .ok effective ∧
      ∀ id entry, effective.lookup id = some entry → entry.protected_ →
        effective'.lookup id = some entry := by
  obtain ⟨rest, split, deeper⟩ := ScopedRegistry.walk_of_isAncestorOf h below
  rw [resolveEntries, split, foldlM_append, bind_eq_ok] at ok
  obtain ⟨effective, first, second⟩ := ok
  refine ⟨effective, first, fun id entry found guarded => ?_⟩
  obtain ⟨-, b, mem, rfl⟩ := of_foldlM_applyBinding first found
  have above : b.scope.depth ≤ scope.depth := by
    have among := (h.mem_walk.mp mem).2
    exact (ScopePath.isAncestorOf_iff.mp (ScopePath.mem_prefixes.mp among).1).length_le
  exact foldlM_applyBinding_of_protected (fun c later => lt_of_le_of_lt above (deeper c later))
    guarded found second

/-! ## Snapshots -/

variable {principal : Principal} {target : ScopePath} {snapshot : CapabilitySnapshot ρ}

theorem mem_permitted {e : Sigma fun _ : GoString => ResolvedEntry ρ} :
    e ∈ permitted principal effective ↔ effective.lookup e.1 = some e.2 ∧
      principal.permissions.allows e.2.manifest.requiredPermissions := by
  rw [permitted, mem_filter, ← mem_lookup_iff]
  rfl

/-- The last provider written for an identifier is found. -/
theorem lookup_foldl_insert {kept : List (Sigma fun _ : GoString => ResolvedEntry ρ)}
    {m : GoMap (Option ρ)} {p : Option ρ} (only : ∀ e ∈ kept, e.1 = id → e.2.provider = p)
    (some_ : m.lookup id = some p ∨ ∃ e ∈ kept, e.1 = id) :
    (kept.foldl (fun m e => m.insert e.1 e.2.provider) m).lookup id = some p := by
  induction kept generalizing m with
  | nil => exact some_.resolve_right (by simp)
  | cons e kept ih =>
    refine ih (fun f mem => only f (mem_cons_of_mem _ mem)) ?_
    by_cases same : e.1 = id
    · left
      rw [← only e (mem_cons_self ..) same, ← same, lookup_insert]
    · rcases some_ with before | ⟨f, mem, found⟩
      · exact .inl (by rwa [lookup_insert_ne (Ne.symm same)])
      · rcases mem_cons.mp mem with rfl | later
        · exact absurd found same
        · exact .inr ⟨f, later, found⟩

/-- A snapshot records, under an identifier in force, the entry in force: if the
caller may use it, and nothing else otherwise. -/
structure CapabilitySnapshot.Records (kit : ProviderKit ρ) (snapshot : CapabilitySnapshot ρ)
    (id : GoString) (entry : ResolvedEntry ρ) : Prop where
  only : ∀ c ∈ snapshot.capabilities, c.manifest.id = id → c = entry.capability kit
  present : (∃ c ∈ snapshot.capabilities, c.manifest.id = id) ↔
    snapshot.principal.permissions.allows entry.manifest.requiredPermissions
  provider : (∃ c ∈ snapshot.capabilities, c.manifest.id = id) →
    snapshot.providers.lookup id = some entry.provider

theorem records_of_resolve (ok : resolve kit r principal target = .ok snapshot) :
    ∃ effective, resolveEntries r target = .ok effective ∧
      ∀ id entry, effective.lookup id = some entry → snapshot.Records kit id entry := by
  simp only [resolve, bind_eq_ok, pure_eq_ok] at ok
  obtain ⟨_, _, effective, walked, _, _, rfl⟩ := ok
  refine ⟨effective, walked, fun id entry found => ?_⟩
  have named : ∀ {e : Sigma fun _ : GoString => ResolvedEntry ρ},
      e ∈ permitted principal effective → e.2.manifest.id = e.1 :=
    fun mem => (of_foldlM_applyBinding walked (mem_permitted.mp mem).1).1
  have self : ∀ {e : Sigma fun _ : GoString => ResolvedEntry ρ},
      e ∈ permitted principal effective → e.1 = id → e.2 = entry := by
    intro e mem same
    have inForce := (mem_permitted.mp mem).1
    rw [same, found] at inForce
    exact (some.inj inForce).symm
  have listed : ∀ {c : SnapshotCapability}, c ∈ ((permitted principal effective).map fun e =>
      e.2.capability kit).insertionSort (fun a b => b.manifest.id.before a.manifest.id = false) →
      ∃ e ∈ permitted principal effective, e.2.capability kit = c := by
    intro c mem
    exact mem_map.mp ((mem_insertionSort _).mp mem)
  have own : ∀ {c : SnapshotCapability}, c ∈ ((permitted principal effective).map fun e =>
      e.2.capability kit).insertionSort (fun a b => b.manifest.id.before a.manifest.id = false) →
      c.manifest.id = id → ∃ e ∈ permitted principal effective, e.1 = id ∧
      e.2.capability kit = c := by
    intro c mem same
    obtain ⟨e, kept, rfl⟩ := listed mem
    exact ⟨e, kept, (named kept).symm.trans same, rfl⟩
  refine ⟨fun c mem same => ?_, ⟨?_, fun allowed => ?_⟩, ?_⟩
  · obtain ⟨e, kept, found, rfl⟩ := own mem same
    rw [self kept found]
  · rintro ⟨c, mem, same⟩
    obtain ⟨e, kept, found, -⟩ := own mem same
    exact self kept found ▸ (mem_permitted.mp kept).2
  · have kept : (⟨id, entry⟩ : Sigma fun _ : GoString => ResolvedEntry ρ) ∈
        permitted principal effective := mem_permitted.mpr ⟨found, allowed⟩
    exact ⟨entry.capability kit, (mem_insertionSort _).mpr (mem_map.mpr ⟨_, kept, rfl⟩), named kept⟩
  · rintro ⟨c, mem, same⟩
    obtain ⟨e, kept, found, -⟩ := own mem same
    exact lookup_foldl_insert (fun f among same => by rw [self among same]) (.inr ⟨e, kept, found⟩)

/-- **Protected capabilities stay and foreign scopes are invisible.**  After any
calls on a registry, where resolution succeeds for a target: what is protected and
in force at an ancestor is in force at the target with the same entry, and the
snapshot records that entry; and any registry with the same bindings at the
target's prefixes resolves to the same snapshot. -/
theorem protected_capabilities_stay (kit : ProviderKit ρ) (maxBindings : ℤ)
    (calls : List (MountCall (CapabilityBinding ρ))) (principal : Principal) (target : ScopePath)
    (snapshot : CapabilitySnapshot ρ)
    (ok : resolve kit (.run (capabilityContribution kit) maxBindings calls) principal target =
      .ok snapshot) :
    (∀ scope : ScopePath, scope.isAncestorOf target = true → ∃ above effective,
        resolveEntries (.run (capabilityContribution kit) maxBindings calls) scope = .ok above ∧
        resolveEntries (.run (capabilityContribution kit) maxBindings calls) target =
          .ok effective ∧
        ∀ id entry, above.lookup id = some entry → entry.protected_ = true →
          effective.lookup id = some entry ∧ snapshot.Records kit id entry) ∧
      ∀ maxBindings' calls', (∀ p ∈ target.prefixes,
          (ScopedRegistry.run (capabilityContribution kit) maxBindings' calls').slice p =
            (ScopedRegistry.run (capabilityContribution kit) maxBindings calls).slice p) →
        resolve kit (.run (capabilityContribution kit) maxBindings' calls') principal target =
          .ok snapshot := by
  constructor
  · intro scope below
    obtain ⟨effective, walked, records⟩ := records_of_resolve ok
    obtain ⟨above, first, stays⟩ :=
      resolveEntries_of_isAncestorOf (ScopedRegistry.run_orderly maxBindings calls) below walked
    refine ⟨above, effective, first, walked, fun id entry found guarded => ?_⟩
    have inForce := stays id entry found guarded
    exact ⟨inForce, records id entry inForce⟩
  · intro maxBindings' calls' same
    rw [resolve, resolveEntries, ScopedRegistry.walk_congr same]
    exact ok

def exampleManifest : CapabilityManifest :=
  ⟨go "crm.send", go "1", .empty, .empty, go "tool", .empty, [], [], [], [], 0, 0, 0, false, false,
    none, none, []⟩

/-- Providers without methods, and a checker that accepts every schema. -/
def exampleKit : ProviderKit Unit := ⟨fun _ => false, fun _ => .empty, fun _ => true⟩

/-- The root protects the capability. -/
def exampleCalls : List (MountCall (CapabilityBinding Unit)) :=
  [.mount ⟨exampleGlobal, .provide, exampleManifest, some (), true⟩]

theorem protected_capabilities_stay_tenant :
    ∃ snapshot, resolve exampleKit (.run (capabilityContribution exampleKit) 0 exampleCalls)
        examplePrincipal exampleTenant = .ok snapshot ∧
      ∃ above, resolveEntries (.run (capabilityContribution exampleKit) 0 exampleCalls)
          exampleGlobal = .ok above ∧
        ∃ entry, above.lookup (go "crm.send") = some entry ∧ entry.protected_ = true ∧
          snapshot.Records exampleKit (go "crm.send") entry := by
  have succeeds : (resolve exampleKit (.run (capabilityContribution exampleKit) 0 exampleCalls)
      examplePrincipal exampleTenant).toBool = true := by decide +kernel
  rcases ok : resolve exampleKit (.run (capabilityContribution exampleKit) 0 exampleCalls)
    examplePrincipal exampleTenant with e | snapshot
  · rw [ok] at succeeds
    cases succeeds
  · refine ⟨snapshot, rfl, ?_⟩
    obtain ⟨above, _, first, -, stays⟩ := (protected_capabilities_stay exampleKit 0 exampleCalls
      examplePrincipal exampleTenant snapshot ok).1 exampleGlobal (by decide)
    refine ⟨above, first, ⟨cloneManifest exampleManifest, some (), exampleGlobal, true⟩, ?_⟩
    have found : above.lookup (go "crm.send") =
        some ⟨cloneManifest exampleManifest, some (), exampleGlobal, true⟩ := by
      cases first
      rfl
    exact ⟨found, rfl, (stays _ _ found rfl).2⟩

end AutoAgent
