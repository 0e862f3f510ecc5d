import AutoAgent.Core.Scope

/-!
# Layered run policies

A scope narrows the policy of the runs below it: a layer intersects the granted
permissions with its allow list, removes the denied ones and caps the step and
tool-call budgets.  `resolvePolicy` folds the layers on the way to the target over
the grants of the caller.

**What the fold computes.**  Permissions and caps are characterised without the
fold (`ResolvedPolicy.Exact`): a permission survives when every layer on the way
lets it through, a cap is the least of the caps on the way.  Neither depends on the
order of the layers, and both only shrink when layers are added.
-/

namespace AutoAgent

/-- `PolicyLayer`; a missing cap is `none`. -/
structure PolicyLayer where
  scope : ScopePath
  allowPermissions : List GoString
  denyPermissions : List GoString
  maxSteps : Option ℤ
  maxToolCalls : Option ℤ
  deriving DecidableEq

/-- A cap of a layer lies between one and the hard limit. -/
def checkCap (e : RegistryError) (hard : ℤ) (cap : Option ℤ) : Except RegistryError Unit :=
  require (cap.all fun c => decide (0 < c) && decide (c ≤ hard)) e

/-- The checks of `Mount`. -/
def PolicyLayer.validate (layer : PolicyLayer) : Except RegistryError Unit := do
  require (layer.scope.depth != 0) .emptyScope
  checkCap .maxSteps hardMaxSteps layer.maxSteps
  checkCap .maxToolCalls hardMaxToolCalls layer.maxToolCalls
  (layer.allowPermissions ++ layer.denyPermissions).forM validateNamespacedID

/-- Policy layers as contributions of scopes. -/
def policyContribution : Contribution PolicyLayer where
  scopeOf := PolicyLayer.scope
  accept layer := do
    layer.validate
    return layer
  keeps h := by
    simp only [bind_eq_ok, pure_eq_ok] at h
    obtain ⟨_, _, rfl⟩ := h
    rfl

structure ResolvedPolicy where
  permissions : PermissionSet
  maxSteps : Option ℤ
  maxToolCalls : Option ℤ

/-- The stricter of a layer's cap and the cap so far. -/
def tighten (cap current : Option ℤ) : Option ℤ :=
  match cap, current with
  | none, current => current
  | some c, none => some c
  | some c, some d => if c < d then some c else some d

/-- What one layer does to the policy so far. -/
def ResolvedPolicy.narrow (resolved : ResolvedPolicy) (layer : PolicyLayer) : ResolvedPolicy where
  permissions := layer.denyPermissions.foldl .delete
    (if layer.allowPermissions.isEmpty then resolved.permissions
      else resolved.permissions.intersect (.new layer.allowPermissions))
  maxSteps := tighten layer.maxSteps resolved.maxSteps
  maxToolCalls := tighten layer.maxToolCalls resolved.maxToolCalls

def resolvePolicy (r : ScopedRegistry PolicyLayer) (principal : Principal) (target : ScopePath) :
    Except RegistryError ResolvedPolicy := do
  require (principal.scope.isAncestorOf target) (.notOwner principal.scope target)
  return (r.walk target).foldl .narrow ⟨principal.permissions, none, none⟩

/-! ## The fold -/

/-- A layer lets a permission through. -/
def PolicyLayer.Lets (layer : PolicyLayer) (permission : GoString) : Prop :=
  (layer.allowPermissions ≠ [] → permission ∈ layer.allowPermissions) ∧
    permission ∉ layer.denyPermissions

variable {permission : GoString}

theorem foldl_delete {s : PermissionSet} {denied : List GoString} :
    denied.foldl PermissionSet.delete s permission ↔
      s permission ∧ permission ∉ denied := by
  induction denied generalizing s with
  | nil => simp
  | cons first rest ih =>
    rw [List.foldl_cons, ih, PermissionSet.delete, Function.update_apply, List.mem_cons]
    by_cases same : permission = first
    · simp [same]
    · simp [same]

variable {layer : PolicyLayer}

theorem permissions_narrow {resolved : ResolvedPolicy} :
    (resolved.narrow layer).permissions permission ↔
      resolved.permissions permission ∧ layer.Lets permission := by
  rw [ResolvedPolicy.narrow, foldl_delete, PolicyLayer.Lets]
  by_cases none : layer.allowPermissions = []
  · simp [none]
  · have some : layer.allowPermissions.isEmpty = false := by simpa using none
    simp only [some, false_eq_true, if_false, PermissionSet.intersect, PermissionSet.new,
      and_eq_true, decide_eq_true_eq, ne_eq, none, not_false_eq_true, true_imp_iff]
    exact and_assoc

/-- A permission survives the layers that all let it through. -/
theorem permissions_foldl {layers : List PolicyLayer} {resolved : ResolvedPolicy} :
    (layers.foldl ResolvedPolicy.narrow resolved).permissions permission ↔
      resolved.permissions permission ∧ ∀ layer ∈ layers, layer.Lets permission := by
  induction layers generalizing resolved with
  | nil => simp
  | cons layer layers ih =>
    rw [List.foldl_cons, ih, permissions_narrow, List.forall_mem_cons]
    exact and_assoc

variable {c : ℤ}

/-- The stricter cap is one of the two. -/
theorem of_tighten_eq_some {cap current : Option ℤ} (h : tighten cap current = some c) :
    cap = some c ∨ current = some c := by
  rcases cap with _ | a
  · exact .inr h
  · rcases current with _ | b
    · exact .inl h
    · rw [tighten] at h
      split at h
      · exact .inl h
      · exact .inr h

/-- The stricter cap is below both. -/
theorem exists_tighten_le (cap current : Option ℤ) {d : ℤ}
    (h : cap = some d ∨ current = some d) : ∃ c ≤ d, tighten cap current = some c := by
  rcases cap with _ | a
  · exact ⟨d, le_refl d, h.resolve_left (by simp)⟩
  · rcases current with _ | b
    · exact ⟨d, le_refl d, h.resolve_right (by simp)⟩
    · simp only [some.injEq] at h
      by_cases lower : a < b
      · exact ⟨a, by omega, if_pos lower⟩
      · exact ⟨b, by omega, if_neg lower⟩

/-- A cap is the minimum of the caps that occur; without any there is no cap. -/
structure MinimumCap (occurs : ℤ → Prop) (cap : Option ℤ) : Prop where
  attained : ∀ {c}, cap = some c → occurs c
  below : ∀ {d}, occurs d → ∃ c ≤ d, cap = some c

/-- A cap that is at most another; no cap is the highest. -/
def CapAtMost (a b : Option ℤ) : Prop := ∀ c, b = some c → ∃ d ≤ c, a = some d

variable {a b : Option ℤ}

/-- Where more caps occur the minimum is lower. -/
theorem MinimumCap.atMost {p q : ℤ → Prop} (ha : MinimumCap p a) (hb : MinimumCap q b)
    (sub : ∀ d, q d → p d) : CapAtMost a b :=
  fun c same => ha.below (sub c (hb.attained same))

theorem CapAtMost.antisymm (h : CapAtMost a b) (h' : CapAtMost b a) : a = b := by
  rcases a with _ | c
  · rcases b with _ | d
    · rfl
    · obtain ⟨_, _, same⟩ := h d rfl
      cases same
  · obtain ⟨d, below, rfl⟩ := h' c rfl
    obtain ⟨_, above, same⟩ := h d rfl
    cases same
    rw [le_antisymm above below]

section Caps

variable (cap : PolicyLayer → Option ℤ)

/-- The caps of the layers folded into one. -/
def foldCaps (layers : List PolicyLayer) (current : Option ℤ) : Option ℤ :=
  layers.foldl (fun current layer => tighten (cap layer) current) current

variable {layers : List PolicyLayer} {current : Option ℤ}

theorem of_foldCaps_eq_some {c : ℤ} (h : foldCaps cap layers current = some c) :
    (∃ layer ∈ layers, cap layer = some c) ∨ current = some c := by
  induction layers generalizing current with
  | nil => exact .inr h
  | cons layer layers ih =>
    rcases ih h with ⟨other, mem, same⟩ | start
    · exact .inl ⟨other, List.mem_cons_of_mem _ mem, same⟩
    · rcases of_tighten_eq_some start with own | start
      · exact .inl ⟨layer, List.mem_cons_self .., own⟩
      · exact .inr start

theorem exists_foldCaps_le {d : ℤ} (h : (∃ layer ∈ layers, cap layer = some d) ∨ current = some d) :
    ∃ c ≤ d, foldCaps cap layers current = some c := by
  induction layers generalizing current d with
  | nil => exact ⟨d, le_refl d, h.resolve_left (by simp)⟩
  | cons layer layers ih =>
    rcases h with ⟨other, mem, same⟩ | start
    · rcases List.mem_cons.mp mem with rfl | later
      · obtain ⟨c, below, tightened⟩ := exists_tighten_le _ current (.inl same)
        obtain ⟨c', below', folded⟩ := ih (.inr tightened)
        exact ⟨c', le_trans below' below, folded⟩
      · exact ih (.inl ⟨other, later, same⟩)
    · obtain ⟨c, below, tightened⟩ := exists_tighten_le (cap layer) _ (.inr start)
      obtain ⟨c', below', folded⟩ := ih (.inr tightened)
      exact ⟨c', le_trans below' below, folded⟩

/-- Folding caps leaves the minimum of the layers' caps, whatever their order. -/
theorem minimumCap_foldCaps (layers : List PolicyLayer) :
    MinimumCap (fun d => ∃ layer ∈ layers, cap layer = some d) (foldCaps cap layers none) where
  attained h := (of_foldCaps_eq_some cap h).resolve_right (by simp)
  below h := exists_foldCaps_le cap (.inl h)

end Caps

theorem caps_foldl (layers : List PolicyLayer) (resolved : ResolvedPolicy) :
    (layers.foldl ResolvedPolicy.narrow resolved).maxSteps =
        foldCaps PolicyLayer.maxSteps layers resolved.maxSteps ∧
      (layers.foldl ResolvedPolicy.narrow resolved).maxToolCalls =
        foldCaps PolicyLayer.maxToolCalls layers resolved.maxToolCalls := by
  induction layers generalizing resolved with
  | nil => exact ⟨rfl, rfl⟩
  | cons layer layers ih => exact ih (resolved.narrow layer)

/-! ## The resolved policy -/

/-- The layers of a registry that a target is under. -/
def PolicyLayer.Over (r : ScopedRegistry PolicyLayer) (target : ScopePath) (layer : PolicyLayer) :
    Prop := r.Mounted layer ∧ layer.scope ∈ target.prefixes

/-- The policy that the layers over the target leave of the caller's grants. -/
structure ResolvedPolicy.Exact (r : ScopedRegistry PolicyLayer) (principal : Principal)
    (target : ScopePath) (resolved : ResolvedPolicy) : Prop where
  permissions : ∀ permission, resolved.permissions permission ↔
    principal.permissions permission ∧
      ∀ layer : PolicyLayer, layer.Over r target → layer.Lets permission
  maxSteps : MinimumCap (fun d => ∃ layer : PolicyLayer, layer.Over r target ∧
    layer.maxSteps = some d) resolved.maxSteps
  maxToolCalls : MinimumCap (fun d => ∃ layer : PolicyLayer, layer.Over r target ∧
    layer.maxToolCalls = some d) resolved.maxToolCalls
  /-- The caps that count are positive. -/
  positive : ∀ layer : PolicyLayer, layer.Over r target → ∀ c,
    layer.maxSteps = some c ∨ layer.maxToolCalls = some c → 0 < c

/-- A policy that allows no more than another. -/
structure ResolvedPolicy.Within (a b : ResolvedPolicy) : Prop where
  permissions : ∀ permission, a.permissions permission → b.permissions permission
  maxSteps : CapAtMost a.maxSteps b.maxSteps
  maxToolCalls : CapAtMost a.maxToolCalls b.maxToolCalls

theorem ResolvedPolicy.Within.antisymm {a b : ResolvedPolicy} (h : a.Within b) (h' : b.Within a) :
    a = b := by
  have permissions : a.permissions = b.permissions := by
    funext permission
    exact eq_iff_iff.mpr ⟨h.permissions permission, h'.permissions permission⟩
  have steps := h.maxSteps.antisymm h'.maxSteps
  have calls := h.maxToolCalls.antisymm h'.maxToolCalls
  obtain ⟨_, _, _⟩ := a
  simp only at permissions steps calls
  rw [permissions, steps, calls]

theorem positive_of_validate {u : Unit} (h : layer.validate = .ok u)
    (occurs : layer.maxSteps = some c ∨ layer.maxToolCalls = some c) : 0 < c := by
  simp only [PolicyLayer.validate, checkCap, bind_eq_ok, require_eq_ok] at h
  obtain ⟨_, _, _, steps, _, calls, _⟩ := h
  rcases occurs with same | same
  · simp only [same, Option.all_some, and_eq_true, decide_eq_true_eq] at steps
    exact steps.1
  · simp only [same, Option.all_some, and_eq_true, decide_eq_true_eq] at calls
    exact calls.1

variable {r r' : ScopedRegistry PolicyLayer} {principal : Principal} {target target' : ScopePath}
  {resolved resolved' : ResolvedPolicy}

theorem resolvePolicy_eq_ok :
    resolvePolicy r principal target = .ok resolved ↔ principal.scope.isAncestorOf target ∧
        (r.walk target).foldl .narrow ⟨principal.permissions, none, none⟩ = resolved := by
  simp only [resolvePolicy, bind_eq_ok, require_eq_ok, pure_eq_ok]
  exact ⟨fun ⟨_, owns, same⟩ => ⟨owns, same⟩, fun ⟨owns, same⟩ => ⟨(), owns, same⟩⟩

theorem exact_of_resolvePolicy (h : r.Orderly policyContribution)
    (ok : resolvePolicy r principal target = .ok resolved) : resolved.Exact r principal target := by
  obtain ⟨_, rfl⟩ := resolvePolicy_eq_ok.mp ok
  have covers : ∀ layer, layer ∈ r.walk target ↔ layer.Over r target := fun _ => h.mem_walk
  refine ⟨fun permission => ?_, ?_, ?_, ?_⟩
  · rw [permissions_foldl]
    simp only [covers]
  · rw [(caps_foldl _ _).1]
    simpa only [covers] using minimumCap_foldCaps PolicyLayer.maxSteps (r.walk target)
  · rw [(caps_foldl _ _).2]
    simpa only [covers] using minimumCap_foldCaps PolicyLayer.maxToolCalls (r.walk target)
  · intro layer mem c occurs
    obtain ⟨value, accepted⟩ := h.accepted_of_mounted mem.1
    simp only [policyContribution, bind_eq_ok, pure_eq_ok] at accepted
    obtain ⟨_, valid, rfl⟩ := accepted
    exact positive_of_validate valid occurs

/-- With more layers over the target the policy allows no more. -/
theorem ResolvedPolicy.Exact.within (h' : resolved'.Exact r' principal target')
    (h : resolved.Exact r principal target)
    (sub : ∀ layer : PolicyLayer, layer.Over r target → layer.Over r' target') :
    resolved'.Within resolved where
  permissions permission survives := by
    obtain ⟨granted, lets⟩ := (h'.permissions permission).mp survives
    exact (h.permissions permission).mpr
      ⟨granted, fun layer covers => lets layer (sub layer covers)⟩
  maxSteps := h'.maxSteps.atMost h.maxSteps fun _ ⟨layer, covers, same⟩ =>
    ⟨layer, sub layer covers, same⟩
  maxToolCalls :=
    h'.maxToolCalls.atMost h.maxToolCalls fun _ ⟨layer, covers, same⟩ =>
    ⟨layer, sub layer covers, same⟩

/-- A descendant is under every layer its ancestor is under. -/
theorem PolicyLayer.Over.mono (h : layer.Over r target)
    (more : ∀ layer, r.Mounted layer → r'.Mounted layer)
    (below : target.isAncestorOf target') : layer.Over r' target' := by
  obtain ⟨mounted, among⟩ := h
  obtain ⟨ancestor, positive⟩ := ScopePath.mem_prefixes.mp among
  exact ⟨more layer mounted,
    ScopePath.mem_prefixes.mpr ⟨ScopePath.isAncestorOf_trans ancestor below, positive⟩⟩

/-- **Policies only narrow.**  After any calls on a registry, a caller that owns
the target gets exactly what the mounted layers over the target leave: the grants
that every layer lets through and the minimum of the caps.  Any other registry
with the same layers gives the same policy; a registry with more layers, or a
descendant of the target, gives a policy within it. -/
theorem policy_only_narrows (maxBindings : ℤ) (calls : List (MountCall PolicyLayer))
    (principal : Principal) (target : ScopePath)
    (owns : principal.scope.isAncestorOf target = true) :
    ∃ resolved, resolvePolicy (.run policyContribution maxBindings calls) principal target =
        .ok resolved ∧
      resolved.Exact (.run policyContribution maxBindings calls) principal target ∧
      ∀ maxBindings' calls' target' resolved',
        resolvePolicy (.run policyContribution maxBindings' calls') principal target' =
          .ok resolved' →
        (target' = target →
          (∀ layer, (ScopedRegistry.run policyContribution maxBindings' calls').Mounted layer ↔
            (ScopedRegistry.run policyContribution maxBindings calls).Mounted layer) →
          resolved' = resolved) ∧
        (target.isAncestorOf target' = true →
          (∀ layer, (ScopedRegistry.run policyContribution maxBindings calls).Mounted layer →
            (ScopedRegistry.run policyContribution maxBindings' calls').Mounted layer) →
          resolved'.Within resolved) := by
  have exact_ : ∀ {maxBindings calls target resolved},
      resolvePolicy (.run policyContribution maxBindings calls) principal target = .ok resolved →
      resolved.Exact (.run policyContribution maxBindings calls) principal target :=
    fun ok => exact_of_resolvePolicy (ScopedRegistry.run_orderly _ _) ok
  have here : resolvePolicy (.run policyContribution maxBindings calls) principal target =
      .ok _ := resolvePolicy_eq_ok.mpr ⟨owns, rfl⟩
  refine ⟨_, here, exact_ here, ?_⟩
  intro maxBindings' calls' target' resolved' there
  refine ⟨?_, ?_⟩
  · rintro rfl same
    have self := ScopePath.isAncestorOf_refl target'
    exact ((exact_ there).within (exact_ here) fun layer covers =>
      covers.mono (fun layer => (same layer).mpr) self).antisymm
      ((exact_ here).within (exact_ there) fun layer covers =>
        covers.mono (fun layer => (same layer).mp) self)
  · intro below more
    exact (exact_ there).within (exact_ here) fun layer covers => covers.mono more below

theorem policy_only_narrows_tenant :
    examplePrincipal.scope.isAncestorOf exampleTenant = true ∧
      ∃ resolved, resolvePolicy (.run policyContribution 0
          [.mount ⟨exampleGlobal, [], [], some 8, none⟩,
            .mount ⟨exampleTenant, [], [go "data.write"], some 12, none⟩])
          examplePrincipal exampleTenant = .ok resolved ∧
        resolved.permissions (go "data.read") = true ∧
        resolved.permissions (go "data.write") = false ∧ resolved.maxSteps = some 8 := by
  obtain ⟨resolved, ok, -⟩ := policy_only_narrows 0
    [.mount ⟨exampleGlobal, [], [], some 8, none⟩,
      .mount ⟨exampleTenant, [], [go "data.write"], some 12, none⟩]
    examplePrincipal exampleTenant (by decide)
  refine ⟨by decide, resolved, ok, ?_⟩
  obtain ⟨-, rfl⟩ := resolvePolicy_eq_ok.mp ok
  decide

end AutoAgent
