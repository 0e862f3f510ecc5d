import AutoAgent.Runtime.Host

/-!
# Runs of the module host

Calls of a host are serialized, so a run is a sequence of calls, each with the answers it gets.

**Handing on.**  Compositions are numbered in the order of their creation.  An owner that a
composition shares with a later one is among those it handed on (`HandsOn`), so taking a
composition down never touches an owner that a later composition uses.  It can touch an owner
that an earlier composition still has leases on.
-/

namespace AutoAgent.Runtime.ModuleHost

open List

variable {μ : Type} {k : Manifests μ} {h h' h'' : ModuleHost μ} {c c' : Composition μ}

inductive Call (μ : Type) where
  | acquire (revision : ℕ) (moduleID moduleRevision : GoString) (granted : Bool)
  | release (lease : Lease) (accepted : Bool)
  | reconcile (revision : ℕ) (listed reconciled : Bool)
      (recorded : List (GoString × GoString × EffectState))
  | apply (modules : List (Module μ)) (a : ApplyAnswers)
  | drain (revision : ℕ) (a : Answers)
  | deactivate (revision : ℕ) (a : Answers)
  | fence (revision : ℕ) (a : Answers)

def call (k : Manifests μ) (h : ModuleHost μ) : Call μ → Outcome μ
  | .acquire revision id version granted => h.acquireLease k revision id version granted
  | .release lease accepted => h.releaseLease lease accepted
  | .reconcile revision listed reconciled recorded =>
    h.reconcile revision listed reconciled recorded
  | .apply modules a => h.applyModules k modules a
  | .drain revision a => h.drain k revision a
  | .deactivate revision a => h.deactivate k revision a
  | .fence revision a => h.fence k revision a

/-- A new host, on a journal that may hold effects of an earlier one. -/
def system (k : Manifests μ) : System (ModuleHost μ) (Call μ) where
  init h := h.active = none ∧ h.compositions = [] ∧ (h.journal.map (·.id)).Nodup
  step h l h' := (h.call k l).host = h'

/-! ## What a call keeps -/

/-- The same composition, up to its leases, its state and the effects it inherited. -/
structure Alike (c c' : Composition μ) : Prop where
  revision : c'.revision = c.revision
  routed : c'.routed = c.routed
  owners : c'.owners = c.owners
  retained : c'.retainedIDs = c.retainedIDs

/-- The host has the same compositions, or fewer. -/
structure Kept (h h' : ModuleHost μ) : Prop where
  modules : h'.modules = h.modules
  active : h'.active = h.active ∨ h'.active = none
  alike : ∀ c' ∈ h'.compositions, ∃ c ∈ h.compositions, Alike c c'
  revisions : (h'.compositions.map (·.revision)).Sublist
    (h.compositions.map (·.revision))
  drawn : h.drawn ≤ h'.drawn
  ids : (h.journal.map (·.id)).Nodup → (h'.journal.map (·.id)).Nodup

theorem Alike.refl (c : Composition μ) : Alike c c := ⟨rfl, rfl, rfl, rfl⟩

theorem Kept.refl (h : ModuleHost μ) : Kept h h :=
  ⟨rfl, .inl rfl, fun c mem => ⟨c, mem, .refl c⟩, .refl _, le_rfl, id⟩

theorem Kept.trans (first : Kept h h') (second : Kept h' h'') : Kept h h'' where
  modules := second.modules.trans first.modules
  active := by
    rcases second.active with same | none
    · rw [same]
      exact first.active
    · exact .inr none
  alike c'' mem := by
    obtain ⟨c', mem', alike'⟩ := second.alike c'' mem
    obtain ⟨c, mem, alike⟩ := first.alike c' mem'
    exact ⟨c, mem, alike'.revision.trans alike.revision, alike'.routed.trans alike.routed,
      alike'.owners.trans alike.owners, alike'.retained.trans alike.retained⟩
  revisions := second.revisions.trans first.revisions
  drawn := le_trans first.drawn second.drawn
  ids := second.ids ∘ first.ids

theorem kept_update (revision : ℕ) {f : Composition μ → Composition μ}
    (alike : ∀ c, Alike c (f c) := by intro c; constructor <;> rfl) :
    Kept h (h.update revision f) where
  modules := rfl
  active := .inl rfl
  alike c' mem := by
    obtain ⟨c, old, rfl⟩ := mem_map.mp mem
    refine ⟨c, old, ?_⟩
    split
    · exact alike c
    · exact .refl c
  revisions := by
    have same : (h.update revision f).compositions.map (·.revision) =
        h.compositions.map (·.revision) := by
      rw [update, map_map]
      refine map_congr_left fun c _ => ?_
      simp only [comp_apply]
      split
      · exact (alike c).revision
      · rfl
    rw [same]
  drawn := le_rfl
  ids := id

variable {journal : List RecordedEffect}

/-- Effects recorded or reverted, and identifiers drawn. -/
theorem Kept.withJournal (kept : Kept h h') {drawn : ℕ}
    (ids : (h'.journal.map (·.id)).Nodup → (journal.map (·.id)).Nodup) (more : h'.drawn ≤ drawn) :
    Kept h { h' with journal, drawn } :=
  { kept with drawn := le_trans kept.drawn more, ids := ids ∘ kept.ids }

theorem map_id_markReverted (journal : List RecordedEffect) (id : GoString) :
    (markReverted journal id).map (·.id) = journal.map (·.id) := by
  rw [markReverted, map_map]
  refine map_congr_left fun r _ => ?_
  simp only [comp_apply]
  split <;> rfl

theorem map_id_revertEffects (a : Answers) (records journal : List RecordedEffect) :
    (revertEffects a records journal).1.map (·.id) = journal.map (·.id) := by
  fun_induction revertEffects a records journal <;> simp_all [map_id_markReverted]

theorem nodup_recordEffects (revision : ℕ) (recorded : List (GoString × GoString × EffectState))
    (ids : (journal.map (·.id)).Nodup) :
    ((recordEffects revision journal recorded).map (·.id)).Nodup := by
  induction recorded generalizing journal with
  | nil => exact ids
  | cons e rest ih =>
    rw [recordEffects, foldl_cons]
    refine ih ?_
    split
    · exact ids
    · next new =>
      rw [map_append, nodup_append]
      refine ⟨ids, by simp, ?_⟩
      simpa using new

theorem kept_work (c : Composition μ) (a : Answers) :
    Kept h (h.deactivateCompositionWork k c a).1 := by
  unfold deactivateCompositionWork
  split
  · refine Kept.withJournal (kept_update _) (fun ids => ?_) le_rfl
    rwa [map_id_revertEffects]
  · exact kept_update _

theorem kept_finalizeDeactivation (c : Composition μ) (a : Answers) :
    Kept h (h.finalizeDeactivation c a).1 := by
  unfold finalizeDeactivation
  split
  · exact {
      modules := rfl
      active := by dsimp only; split <;> simp
      alike := fun c mem => ⟨c, (mem_filter.mp mem).1, .refl c⟩
      revisions := filter_sublist.map _
      drawn := le_rfl
      ids := id }
  · exact .refl h

theorem kept_takeDown (c : Composition μ) (a : Answers) : Kept h (h.takeDown k c a).host := by
  have work := kept_work (k := k) (h := h) c a
  unfold takeDown
  split
  · next final =>
    exact (by simpa [final] using work : Kept h _).trans (kept_finalizeDeactivation c a)
  · next final => simpa [final] using work

/-- The composition that a call takes down. -/
def Call.target : Call μ → Option ℕ
  | .drain revision _ | .deactivate revision _ | .fence revision _ => some revision
  | _ => none

/-- The call is a fence that is admitted and blocks the composition. -/
def Call.fences : Call μ → Bool
  | .fence _ a => a.owned && a.execute && a.blocked
  | _ => false

variable {revision : ℕ} {l : Call μ}

theorem onComposition_cases (h : ModuleHost μ) (revision : ℕ) (admitted : Bool)
    (f : Composition μ → Outcome μ) :
    (∃ error, h.onComposition revision admitted f = ⟨h, [], error⟩ ∧
      (admitted → h.composition revision = none)) ∨
    ∃ c, h.composition revision = some c ∧ admitted ∧
      h.onComposition revision admitted f = f c := by
  unfold onComposition
  cases admitted <;> cases h.composition revision <;> simp

/-- The three ways to take a composition down: nothing happens, the call stops before the
work on the owners and effects, or it does that work, unless it is a fence only when the
composition has no leases. -/
theorem retire_cases {l : Call μ} (target : l.target = some revision) :
    ((h.call k l).host = h ∧ (h.call k l).deactivated = [] ∧
      (l.fences → h.composition revision = none)) ∨
    ∃ c h₁, h.composition revision = some c ∧ Kept h h₁ ∧ h₁.journal = h.journal ∧
      h₁.states = (if l.fences then h.fenceStates c else h.states) ∧
      ((h.call k l).host = h₁ ∧ (h.call k l).deactivated = [] ∨
        ∃ a, (l.fences ∨ c.leases = []) ∧ (h.call k l).host = (h₁.takeDown k c a).host ∧
          (h.call k l).deactivated = (h₁.takeDown k c a).deactivated) := by
  have draining : Kept h (h.update revision ({ · with state := .draining })) := kept_update _
  cases l with
  | drain r a =>
    obtain rfl : r = revision := by simpa [Call.target] using target
    rw [call, drain]
    rcases onComposition_cases h r a.owned _ with ⟨_, same, -⟩ | ⟨c, found, -, same⟩ <;> rw [same]
    · exact .inl ⟨rfl, rfl, nofun⟩
    split
    · exact .inl ⟨rfl, rfl, nofun⟩
    refine .inr ⟨c, _, found, draining, rfl, rfl, ?_⟩
    split
    · exact .inl ⟨rfl, rfl⟩
    · next idle => exact .inr ⟨a, .inr (by simp_all), rfl, rfl⟩
  | deactivate r a =>
    obtain rfl : r = revision := by simpa [Call.target] using target
    rw [call, deactivate]
    rcases onComposition_cases h r a.owned _ with ⟨_, same, -⟩ | ⟨c, found, -, same⟩ <;> rw [same]
    · exact .inl ⟨rfl, rfl, nofun⟩
    split
    · exact .inl ⟨rfl, rfl, nofun⟩
    next idle =>
    split
    · exact .inl ⟨rfl, rfl, nofun⟩
    · exact .inr ⟨c, h, found, .refl h, rfl, rfl, .inr ⟨a, .inr (by simpa using idle), rfl, rfl⟩⟩
  | fence r a =>
    obtain rfl : r = revision := by simpa [Call.target] using target
    rw [call, fence]
    rcases onComposition_cases h r (a.owned && a.execute) _ with
      ⟨_, same, none⟩ | ⟨c, found, admitted, same⟩ <;> rw [same]
    · exact .inl ⟨rfl, rfl, fun fences => none (and_eq_true_iff.mp fences).1⟩
    split
    · next open_ => exact .inl ⟨rfl, rfl, by simp_all [Call.fences]⟩
    have fences : (Call.fence r a : Call μ).fences := by simp_all [Call.fences]
    have begun : Kept h { h.update r ({ · with state := .draining }) with
      states := h.fenceStates c } := { draining with }
    split
    · exact .inr ⟨c, _, found, begun, rfl, rfl, .inl ⟨rfl, rfl⟩⟩
    · exact .inr ⟨c, _, found, begun.trans (kept_update r), rfl,
        rfl, .inr ⟨a, .inl fences, rfl, rfl⟩⟩
  | _ => simp [Call.target] at target

theorem kept_retire (target : l.target = some revision) :
    Kept h (h.call k l).host := by
  rcases retire_cases (k := k) (h := h) target with
    ⟨same, -⟩ | ⟨c, h₁, -, kept, -, -, ⟨stopped, -⟩ | ⟨a, -, done, -⟩⟩
  · rw [same]
    exact .refl h
  · exact stopped ▸ kept
  · exact done ▸ kept.trans (kept_takeDown c a)

variable {a : Answers}

/-- The owners that taking a composition down deactivates are those it did not hand on. -/
theorem deactivated_takeDown {o : ℕ} (mem : o ∈ (h.takeDown k c a).deactivated) :
    ∃ id, c.owners id = some o ∧ c.retained id = false := by
  have left : o ∈ c.ownersLeft k := by
    unfold takeDown deactivateCompositionWork at mem
    by_cases listed : a.listed
    · split at mem <;> simp_all
    · simp [listed] at mem
  obtain ⟨m, -, some⟩ := mem_filterMap.mp left
  split at some
  · cases some
  · next other => exact ⟨k.id m, some, by simpa using other⟩

/-! ## Applies -/

/-- Owners with numbers below `n`, each for one module. -/
structure Numbered (owners : GoString → Option ℕ) (n : ℕ) : Prop where
  below : ∀ {id o}, owners id = some o → o < n
  injective : ∀ {id id' o}, owners id = some o → owners id' = some o → id' = id

variable {modules : List (Module μ)} {staged : GoString → Staged} {routed : List μ}
  {owners : GoString → Option ℕ} {n n' : ℕ} {new : List ℕ} {o : ℕ}

theorem Numbered.mono (num : Numbered owners n) (le : n ≤ n') : Numbered owners n' :=
  ⟨fun own => lt_of_lt_of_le (num.below own) le, num.injective⟩

theorem Numbered.update (num : Numbered owners n) (id : GoString) :
    Numbered (Function.update owners id (some n)) (n + 1) := by
  have inv : ∀ {id' o}, Function.update owners id (some n) id' = some o →
      id' = id ∧ o = n ∨ owners id' = some o ∧ o < n := by
    intro id' o own
    rw [Function.update_apply] at own
    split at own
    · next same => exact .inl ⟨same, (some.inj own).symm⟩
    · exact .inr ⟨own, num.below own⟩
  constructor
  · intro id' o own
    rcases inv own with ⟨-, rfl⟩ | ⟨-, less⟩ <;> omega
  · intro id₁ id₂ o own₁ own₂
    rcases inv own₁ with ⟨rfl, rfl⟩ | ⟨own₁, less⟩ <;>
      rcases inv own₂ with ⟨rfl, same⟩ | ⟨own₂, less'⟩
    · rfl
    · omega
    · omega
    · exact num.injective own₁ own₂

/-- The owners that staging adds, and those that a rollback deactivates, are fresh. -/
theorem stageCandidate_fresh :
    (∀ {id}, (stageCandidate k staged routed owners n new).1 id = some o →
      owners id = some o ∨ n ≤ o) ∧
      (o ∈ (stageCandidate k staged routed owners n new).2.1 → o ∈ new ∨ n ≤ o) := by
  have own : ∀ {n new}, o ∈ n :: new → o ∈ new ∨ n ≤ o := fun mem =>
    (mem_cons.mp mem).symm.imp_right ge_of_eq
  fun_induction stageCandidate k staged routed owners n new with
  | case5 m rest owners n new missing active ih =>
    refine ⟨fun {id} added => ?_, fun mem => ?_⟩
    · rcases ih.1 added with old | later
      · by_cases same : id = k.id m
        · rw [same, Function.update_self, some.injEq] at old
          exact .inr (by omega)
        · exact .inl (by rwa [Function.update_of_ne same] at old)
      · exact .inr (by omega)
    · rcases ih.2 mem with mem | later
      · exact own mem
      · exact .inr (by omega)
  | case2 m rest owners n new present ih => exact ih
  | case4 => exact ⟨.inl, own⟩
  | _ => exact ⟨.inl, .inl⟩

theorem stageCandidate_numbered (num : Numbered owners n) :
    Numbered (stageCandidate k staged routed owners n new).1 (n + routed.length) := by
  fun_induction stageCandidate k staged routed owners n new with
  | case5 m rest owners n new missing active ih =>
    exact (ih (num.update _)).mono (by simp; omega)
  | case2 m rest owners n new present ih => exact (ih num).mono (by simp)
  | _ => exact num.mono (by simp)

/-- Staging that does not fail gives every module an owner. -/
theorem stageCandidate_isSome {id : GoString}
    (done : (stageCandidate k staged routed owners n new).2.2)
    (own : (owners id).isSome ∨ id ∈ routed.map k.id) :
    ((stageCandidate k staged routed owners n new).1 id).isSome := by
  fun_induction stageCandidate k staged routed owners n new with
  | case5 m rest owners n new missing active ih =>
    refine ih done ?_
    by_cases same : id = k.id m
    · exact .inl (by rw [same, Function.update_self]; rfl)
    · rw [Function.update_of_ne same]
      exact own.imp_right fun mem => (mem_cons.mp mem).resolve_left same
  | case2 m rest owners n new present ih =>
    refine ih done (own.elim .inl fun mem => ?_)
    exact (mem_cons.mp mem).imp_left fun same : id = k.id m => same ▸ present
  | case1 => exact own.resolve_right not_mem_nil
  | _ => cases done

/-- The owners that a candidate takes over. -/
def takenOver (k : Manifests μ) (h : ModuleHost μ) (modules : List (Module μ)) (routed : List μ) :
    GoString → Option ℕ :=
  h.reusedOwners k modules routed (h.active.bind h.composition)

/-- The modules are routed as the active composition routes its own. -/
def Unmoved (k : Manifests μ) (h : ModuleHost μ) (modules : List (Module μ)) : Prop :=
  (h.active.bind h.composition).map (k.revision ·.routed) =
    (k.route (modules.map (·.manifest))).map k.revision

/-- What an apply can come to: the compositions stay, only the registered modules change, or a
candidate is published. -/
inductive Applied (k : Manifests μ) (h : ModuleHost μ) (modules : List (Module μ)) :
    Outcome μ → Prop where
  | kept {out : Outcome μ} : Kept h out.host → (∀ o ∈ out.deactivated, h.drawn ≤ o) →
      (out.error = none → ∀ m ∈ modules, registered k h.modules m (· == ·)) →
      Applied k h modules out
  | registered {states : GoString → Option LifecycleState} : Unmoved k h modules →
      Applied k h modules ⟨{ h with modules, states }, [], none⟩
  | published {routed : List μ} {owners : GoString → Option ℕ} {journal : List RecordedEffect} :
      (∀ m ∈ routed, (owners (k.id m)).isSome) →
      (∀ {id o}, owners id = some o → h.takenOver k modules routed id = some o ∨ h.drawn ≤ o) →
      (Numbered (h.takenOver k modules routed) h.drawn →
        Numbered owners (h.drawn + routed.length)) →
      ((h.journal.map (·.id)).Nodup → (journal.map (·.id)).Nodup) →
      Applied k h modules ⟨{ h.publishCandidate k modules routed
          (h.active.bind h.composition) owners with
        drawn := h.drawn + 1 + routed.length
        journal }, [], none⟩

theorem applied_replaceComposition {old : Option (Composition μ)} (a : ApplyAnswers)
    (active : old = h.active.bind h.composition) :
    Applied k h modules (h.replaceComposition k modules routed old a) := by
  subst active
  have ids : (h.journal.map (·.id)).Nodup → _ := nodup_recordEffects h.drawn a.recorded
  have more : h.drawn ≤ h.drawn + 1 + routed.length := by omega
  unfold replaceComposition
  split
  · exact .kept (.refl h) nofun nofun
  dsimp only
  split
  · refine .kept (.withJournal (.refl h) (fun old => ?_) more) (fun o mem => ?_) nofun
    · split
      · rw [map_id_revertEffects]
        exact ids old
      · exact ids old
    · exact (stageCandidate_fresh.2 mem).resolve_left nofun
  next done =>
  split
  · exact .kept (.withJournal (.refl h) ids more) nofun nofun
  · exact .published (fun m mem => stageCandidate_isSome (by simp_all) (.inr (mem_map_of_mem mem)))
      stageCandidate_fresh.1 stageCandidate_numbered ids

theorem applied_apply (k : Manifests μ) (h : ModuleHost μ) (modules : List (Module μ))
    (a : ApplyAnswers) : Applied k h modules (h.call k (.apply modules a)) := by
  have same : ∀ error, Applied k h modules ⟨h, [], some error⟩ :=
    fun _ => .kept (.refl h) nofun nofun
  rw [call, applyModules]
  split
  · exact same _
  split
  · exact same _
  next routes =>
  split
  · next missing => exact applied_replaceComposition a missing.symm
  next found =>
  split
  · exact .kept (.refl h) nofun (by simp)
  split
  · next unmoved =>
    split
    · exact .registered (by simp [Unmoved, found, routes, unmoved])
    · exact same _
  split
  · exact same _
  · exact applied_replaceComposition a found.symm

/-! ## Reachable hosts -/

/-- An owner of `c` that the later composition `c'` uses was handed on. -/
def HandsOn (c c' : Composition μ) : Prop :=
  ∀ {id id' o}, c.owners id = some o → c'.owners id' = some o → id' = id ∧ c.retained id

structure Sound (h : ModuleHost μ) : Prop where
  below : ∀ c ∈ h.compositions, c.revision < h.drawn
  numbered : ∀ c ∈ h.compositions, Numbered c.owners h.drawn
  handed : ∀ c ∈ h.compositions, ∀ c' ∈ h.compositions, c.revision < c'.revision → HandsOn c c'
  distinct : (h.compositions.map (·.revision)).Nodup
  latest : ∀ r, h.active = some r → ∀ c ∈ h.compositions, c.revision ≤ r
  ids : (h.journal.map (·.id)).Nodup

theorem Sound.kept (sound : Sound h) (kept : Kept h h') : Sound h' where
  below c' mem := by
    obtain ⟨c, old, alike⟩ := kept.alike c' mem
    exact alike.revision ▸ lt_of_lt_of_le (sound.below c old) kept.drawn
  numbered c' mem := by
    obtain ⟨c, old, alike⟩ := kept.alike c' mem
    exact alike.owners ▸ (sound.numbered c old).mono kept.drawn
  handed c' mem d' mem' less := by
    obtain ⟨c, old, alike⟩ := kept.alike c' mem
    obtain ⟨d, old', alike'⟩ := kept.alike d' mem'
    rw [alike.revision, alike'.revision] at less
    intro id id' o own own'
    rw [Composition.retained, alike.retained]
    exact sound.handed c old d old' less (alike.owners ▸ own) (alike'.owners ▸ own')
  distinct := sound.distinct.sublist kept.revisions
  latest r active c' mem := by
    obtain ⟨c, old, alike⟩ := kept.alike c' mem
    rcases kept.active with same | none
    · exact alike.revision ▸ sound.latest r (same ▸ active) c old
    · rw [none] at active
      cases active
  ids := kept.ids sound.ids

/-- Compositions are told apart by their revisions. -/
theorem Sound.eq_of_revision (sound : Sound h) (mem : c ∈ h.compositions)
    (mem' : c' ∈ h.compositions) (same : c.revision = c'.revision) : c = c' :=
  inj_on_of_nodup_map sound.distinct mem mem' same

/-- The instance that the modules have under an id. -/
def instanceOf (k : Manifests μ) (modules : List (Module μ)) (id : GoString) : Option ℕ :=
  (lookup k modules id).map (·.identity)

theorem instanceOf_of_registered {id : GoString} {m : Module μ}
    (found : lookup k modules id = some m) (same : registered k h.modules m (· == ·)) :
    instanceOf k h.modules id = some m.identity := by
  have named : k.id m.manifest = id := by simpa using find?_some found
  obtain ⟨m', found', both⟩ := (Option.any_eq_true _ _).mp same
  rw [instanceOf, ← named, found']
  exact congrArg some (beq_iff_eq.mp (and_eq_true_iff.mp both).2)

/-- A reused owner belongs to the active composition. -/
theorem reusedOwners_active {id : GoString}
    (own : h.reusedOwners k modules routed (h.active.bind h.composition) id = some o) :
    ∃ c ∈ h.compositions, h.active = some c.revision ∧ c.owners id = some o ∧
      id ∈ routed.map k.id ∧ instanceOf k modules id = instanceOf k h.modules id := by
  unfold reusedOwners at own
  split at own
  · cases own
  next c active =>
  obtain ⟨r, hr, found⟩ := bind_eq_some_iff.mp active
  have revision : c.revision = r := by simpa using find?_some found
  refine ⟨c, mem_of_find?_eq_some found, revision ▸ hr, ?_⟩
  split at own
  · cases own
  split at own
  · next both =>
    simp only [and_eq_true, any_eq_true, beq_iff_eq, Option.any_eq_true] at both
    obtain ⟨listed, m, found, same⟩ := both
    refine ⟨own, mem_map.mpr listed, ?_⟩
    rw [instanceOf_of_registered found same, instanceOf, found]
    rfl
  · cases own

theorem Sound.numbered_takenOver (sound : Sound h) :
    Numbered (h.takenOver k modules routed) h.drawn := by
  constructor
  · intro id o own
    obtain ⟨c, mem, -, own, -⟩ := reusedOwners_active own
    exact (sound.numbered c mem).below own
  · intro id id' o own own'
    obtain ⟨c, mem, active, own, -⟩ := reusedOwners_active own
    obtain ⟨c', mem', active', own', -⟩ := reusedOwners_active own'
    obtain rfl := sound.eq_of_revision mem mem' (some.inj (active.symm.trans active'))
    exact (sound.numbered c mem).injective own own'

theorem Sound.published (sound : Sound h)
    (taken : ∀ {id o}, owners id = some o → h.takenOver k modules routed id = some o ∨ h.drawn ≤ o)
    (num : Numbered owners (h.drawn + routed.length))
    (ids : (h.journal.map (·.id)).Nodup → (journal.map (·.id)).Nodup) :
    Sound { h.publishCandidate k modules routed (h.active.bind h.composition) owners with
      drawn := h.drawn + 1 + routed.length
      journal } := by
  -- A composition after the publication is an old one, with what it hands on, or the new one.
  have inv : ∀ c' ∈ (h.publishCandidate k modules routed (h.active.bind h.composition)
      owners).compositions, (∃ c ∈ h.compositions, c'.revision = c.revision ∧
        c'.owners = c.owners ∧ c'.retainedIDs = if h.active = some c.revision then
          (routed.map k.id).filter fun id => (h.takenOver k modules routed id).isSome
        else c.retainedIDs) ∨ c'.revision = h.drawn ∧ c'.owners = owners := by
    intro c' mem
    simp only [publishCandidate, mem_append, mem_map, mem_singleton] at mem
    rcases mem with ⟨c, mem, rfl⟩ | rfl
    · refine .inl ⟨c, mem, ?_⟩
      split <;> simp [takenOver]
    · exact .inr ⟨rfl, rfl⟩
  constructor
  · intro c' mem
    rcases inv c' mem with ⟨c, mem, revision, -⟩ | ⟨revision, -⟩
    · have := sound.below c mem
      simp only [revision]
      omega
    · simp only [revision]
      omega
  · intro c' mem
    rcases inv c' mem with ⟨c, mem, -, owners, -⟩ | ⟨-, owners⟩
    · exact owners ▸ (sound.numbered c mem).mono (by simp only; omega)
    · exact owners ▸ num.mono (by simp only; omega)
  · intro c' mem d' mem' less id id' o own own'
    rcases inv c' mem with ⟨c, mem, revision, owners, retained⟩ | ⟨revision, -⟩ <;>
      rcases inv d' mem' with ⟨d, mem', revision', owners', -⟩ | ⟨revision', owners'⟩
    · rw [revision, revision'] at less
      -- The active composition is the latest, so what `c` hands on did not change.
      have other : h.active ≠ some c.revision := by
        intro active
        exact absurd (sound.latest _ active d mem') (by omega)
      rw [Composition.retained, retained, if_neg other]
      exact sound.handed c mem d mem' less (owners ▸ own) (owners' ▸ own')
    · rw [owners] at own
      rw [owners'] at own'
      rcases taken own' with old | fresh
      · obtain ⟨d, mem', active, owned, listed, -⟩ := reusedOwners_active old
        rcases Nat.lt_or_ge c.revision d.revision with less | ge
        · have other : h.active ≠ some c.revision := by
            rw [active]
            simp only [ne_eq, some.injEq]
            omega
          rw [Composition.retained, retained, if_neg other]
          exact sound.handed c mem d mem' less own owned
        · have same : c.revision = d.revision :=
            le_antisymm (sound.latest _ active c mem) ge
          obtain rfl := sound.eq_of_revision mem mem' same
          obtain rfl := (sound.numbered c mem).injective own owned
          refine ⟨rfl, ?_⟩
          rw [Composition.retained, retained, if_pos active, contains_iff_mem, mem_filter]
          exact ⟨listed, by rw [old]; rfl⟩
      · exact absurd ((sound.numbered c mem).below own) (by omega)
    · have := sound.below d mem'
      omega
    · omega
  · have revisions : (h.publishCandidate k modules routed (h.active.bind h.composition)
        owners).compositions.map (·.revision) = h.compositions.map (·.revision) ++ [h.drawn] := by
      simp only [publishCandidate, map_append, map_map]
      congr 1
      refine map_congr_left fun c _ => ?_
      simp only [comp_apply]
      split <;> rfl
    simp only [revisions]
    refine nodup_append.mpr ⟨sound.distinct, by simp, ?_⟩
    simp only [mem_map, mem_singleton]
    rintro _ ⟨c, mem, rfl⟩ _ rfl
    exact Nat.ne_of_lt (sound.below c mem)
  · intro r active c' mem
    obtain rfl : h.drawn = r := some.inj active
    rcases inv c' mem with ⟨c, mem, revision, -⟩ | ⟨revision, -⟩
    · have := sound.below c mem
      omega
    · omega
  · exact ids sound.ids

/-- Only an apply can do more than keep the compositions. -/
theorem kept_call (l : Call μ) :
    (∃ modules a, l = .apply modules a) ∨ Kept h (h.call k l).host := by
  cases l with
  | acquire revision moduleID version granted =>
    right
    rw [call]
    unfold acquireLease
    repeat' (first | exact Kept.refl h | split)
    exact .withJournal (kept_update _) id (by simp [update])
  | release lease accepted =>
    right
    rw [call]
    unfold releaseLease onComposition
    repeat' (first | exact Kept.refl h | split | dsimp only)
    exact kept_update _
  | reconcile revision listed reconciled recorded =>
    right
    rw [call]
    unfold ModuleHost.reconcile onComposition
    repeat' (first | exact Kept.refl h | split)
    all_goals
      exact .withJournal (kept_update _) (nodup_recordEffects _ _) le_rfl
  | apply modules a => exact .inl ⟨modules, a, rfl⟩
  | drain | deactivate | fence => exact .inr (kept_retire rfl)

theorem Sound.call (sound : Sound h) (l : Call μ) : Sound (h.call k l).host := by
  rcases kept_call (k := k) (h := h) l with ⟨modules, a, rfl⟩ | kept
  · have applied := applied_apply k h modules a
    generalize h.call k (.apply modules a) = out at applied ⊢
    cases applied with
    | kept kept => exact sound.kept kept
    | registered => exact { sound with }
    | published _ taken num ids => exact sound.published taken (num sound.numbered_takenOver) ids
  · exact sound.kept kept

theorem sound_of_reachable (reach : (system k).Reachable h) : Sound h := by
  refine System.Invariant.holds ⟨?_, ?_⟩ reach
  · rintro h ⟨active, none, ids⟩
    refine ⟨?_, ?_, ?_, ?_, ?_, ids⟩ <;> simp [none]
  · rintro h l _ sound rfl
    exact sound.call l

/-! ## Leases -/

/-- No composition older than the one a drain or deactivation takes down has a lease on an
owner that this one took over and did not hand on. -/
def Clear (h : ModuleHost μ) (l : Call μ) : Prop :=
  ∀ c ∈ h.compositions, l.target = some c.revision →
    ∀ c' ∈ h.compositions, c'.revision < c.revision →
      ∀ id o, c.owners id = some o → c'.Leased o → c.retained id

/-- The composition that a call takes down exists. -/
theorem composition_eq_some (found : h.composition revision = some c) :
    c ∈ h.compositions ∧ c.revision = revision :=
  ⟨mem_of_find?_eq_some found, by simpa using find?_some found⟩

/-- In every run, a call that is no fence deactivates only owners without unreleased leases in
any composition, if no older composition has leases on what it takes down. -/
theorem deactivated_unleased (reach : (system k).Reachable h) (l : Call μ)
    (noFence : l.fences = false) (clear : h.Clear l) :
    ∀ o ∈ (h.call k l).deactivated, ∀ c ∈ h.compositions, ¬c.Leased o := by
  have sound := sound_of_reachable reach
  intro o deactivated d mem leased
  have retire : ∀ {revision}, l.target = some revision → False := by
    intro revision target
    rcases retire_cases (k := k) (h := h) target with ⟨-, none, -⟩ |
      ⟨c, h₁, found, -, -, -, ⟨-, none⟩ | ⟨a, idle, -, same⟩⟩
    · simp [none] at deactivated
    · simp [none] at deactivated
    obtain ⟨mem', rfl⟩ := composition_eq_some found
    obtain ⟨id, own, left⟩ := deactivated_takeDown (same ▸ deactivated)
    obtain ⟨lease, held, own'⟩ := leased
    rcases Nat.lt_trichotomy d.revision c.revision with less | eq | less
    · simp [clear c mem' target d mem less id o own ⟨lease, held, own'⟩] at left
    · obtain rfl := sound.eq_of_revision mem mem' eq
      simp [idle.resolve_left (by simp [noFence])] at held
    · simp [(sound.handed c mem' d mem less own own').2] at left
  cases l with
  | drain | deactivate | fence => exact retire rfl
  | apply modules a =>
    obtain ⟨lease, -, own⟩ := leased
    have applied := applied_apply k h modules a
    generalize h.call k (.apply modules a) = out at applied deactivated
    cases applied with
    | kept _ fresh =>
      exact absurd ((sound.numbered d mem).below own) (by have := fresh o deactivated; omega)
    | registered => simp at deactivated
    | published => simp at deactivated
  | acquire | release | reconcile =>
    revert deactivated
    simp only [call, acquireLease, releaseLease, ModuleHost.reconcile, onComposition]
    repeat' (first | exact not_mem_nil | split)

/-! ## The modules of a superseded composition -/

/-- The effects of a module that are not reverted. -/
def unreverted (journal : List RecordedEffect) (id : GoString) : List RecordedEffect :=
  journal.filter fun r => r.moduleID == id && r.state != .reverted

/-- The active composition retained the module from `c`: it has the same owner for it. -/
def Retains (active c : Composition μ) (id : GoString) : Prop :=
  (c.owners id).isSome ∧ active.owners id = c.owners id

instance (active c : Composition μ) (id : GoString) : Decidable (Retains active c id) :=
  inferInstanceAs (Decidable (_ ∧ _))

theorem unreverted_markReverted {id target : GoString}
    (other : ∀ e ∈ journal, e.id = target → e.moduleID ≠ id) :
    unreverted (markReverted journal target) id = unreverted journal id := by
  induction journal with
  | nil => rfl
  | cons e journal ih =>
    have rest := ih fun e mem => other e (mem_cons_of_mem _ mem)
    unfold unreverted markReverted at rest ⊢
    by_cases same : e.id = target <;> simp_all [filter_cons]

/-- Reverting the effects of other modules leaves those of a module. -/
theorem unreverted_revertEffects {records journal : List RecordedEffect} {id : GoString}
    (other : ∀ r ∈ records, ∀ e ∈ journal, e.id = r.id → e.moduleID ≠ id) :
    unreverted (revertEffects a records journal).1 id = unreverted journal id := by
  induction records generalizing journal with
  | nil => rfl
  | cons r rest ih =>
    have later := fun s mem => other s (mem_cons_of_mem r mem)
    rw [revertEffects]
    split
    · exact ih later
    split
    · rw [ih ?_, unreverted_markReverted (other r (mem_cons_self ..))]
      intro s mem e old same
      obtain ⟨e', there, rfl⟩ := mem_map.mp old
      have kept := later s mem e' there
      split at same <;> simp_all
    · exact ih later

/-- Taking a composition down leaves the modules it handed on alone. -/
theorem takeDown_frame {id : GoString} (ids : (h.journal.map (·.id)).Nodup)
    (retained : c.retained id) :
    (h.takeDown k c a).states id = h.states id ∧
      unreverted (h.takeDown k c a).journal id = unreverted h.journal id := by
  have work : (h.deactivateCompositionWork k c a).1.states = h.states ∧
      unreverted (h.deactivateCompositionWork k c a).1.journal id = unreverted h.journal id := by
    unfold deactivateCompositionWork
    split
    · refine ⟨rfl, unreverted_revertEffects fun r mem e old same => ?_⟩
      have listed : r ∈ h.journal ∧ c.retained r.moduleID = false := by
        simp only [mem_filter, mem_reverse, mem_append, effectsOf,
          refreshInheritedEffects, mem_flatMap, not_eq_true'] at mem
        grind
      obtain rfl := inj_on_of_nodup_map ids old listed.1 same
      rintro rfl
      simp [retained] at listed
    · exact ⟨rfl, rfl⟩
  have final : ∀ h' : ModuleHost μ, (h'.finalizeDeactivation c a).1.states id = h'.states id ∧
      (h'.finalizeDeactivation c a).1.journal = h'.journal := by
    unfold finalizeDeactivation
    split <;> simp [retireStates, retained]
  unfold takeDown
  split
  · next done =>
    rw [done] at work
    exact ⟨(final _).1.trans (by rw [work.1]),
      (congrArg (unreverted · id) (final _).2).trans work.2⟩
  · next done =>
    rw [done] at work
    exact ⟨by rw [work.1], work.2⟩

/-- Taking down a superseded composition leaves the states and unreverted effects of the
modules that the active composition retained from it unchanged, unless a fence finds one of
them active. -/
theorem superseded_frame_iff (reach : (system k).Reachable h) {active : Composition μ}
    (mem : active ∈ h.compositions) (isActive : h.active = some active.revision)
    (mem' : c ∈ h.compositions) (superseded : c ≠ active) (target : l.target = some c.revision) :
    (∀ id, Retains active c id → (h.call k l).states id = h.states id ∧
      unreverted (h.call k l).journal id = unreverted h.journal id) ↔
    (l.fences = true → ∀ id, Retains active c id → h.states id ≠ some .active) := by
  have sound := sound_of_reachable reach
  have less : c.revision < active.revision :=
    lt_of_le_of_ne (sound.latest _ isActive c mem')
      fun same => superseded (sound.eq_of_revision mem' mem same)
  have retained : ∀ {id}, Retains active c id → c.retained id = true := by
    rintro id ⟨owned, same⟩
    obtain ⟨o, own⟩ := isSome_iff_exists.mp owned
    exact (sound.handed c mem' active mem less own (same.trans own)).2
  -- The states and effects of a retained module after the call are those of its first step.
  have after : ∀ {id}, Retains active c id →
      (h.call k l).states id = (if l.fences then h.fenceStates c id else h.states id) ∧
      unreverted (h.call k l).journal id = unreverted h.journal id := by
    intro id ret
    rcases retire_cases (k := k) (h := h) target with ⟨same, -, stopped⟩ |
      ⟨d, h₁, found, kept, journal, states, ⟨same, -⟩ | ⟨a, -, same, -⟩⟩
    · have open_ : l.fences = false := by
        by_contra fences
        have none := stopped (by simpa using fences)
        simp only [composition, find?_eq_none, beq_iff_eq] at none
        exact none c mem' rfl
      simp [same, open_]
    all_goals
      obtain ⟨there, revision⟩ := composition_eq_some found
      obtain rfl := sound.eq_of_revision there mem' revision
    · rw [same, journal, states]
      exact ⟨by split <;> rfl, rfl⟩
    · rw [same, ← journal]
      have frame := takeDown_frame (k := k) (a := a) (kept.ids sound.ids) (retained ret)
      exact ⟨frame.1.trans (by rw [states]; split <;> rfl), frame.2⟩
  constructor
  · rintro unchanged fences id ret isActive
    have fenced := (after ret).1
    rw [(unchanged id ret).1] at fenced
    simp [fences, fenceStates, ret.1, isActive] at fenced
  · intro inactive id ret
    refine ⟨(after ret).1.trans ?_, (after ret).2⟩
    split
    · next fences => simp [fenceStates, inactive fences id ret]
    · rfl

/-! ## The instances behind the owners -/

/-- A host, with the instance that produced each owner of a module. -/
abbrev Traced (μ : Type) := ModuleHost μ × (GoString → ℕ → Option ℕ)

/-- A call of a host.  The owners that an apply activates are produced by the instances it is
given. -/
def trace (k : Manifests μ) (s : Traced μ) (l : Call μ) : Traced μ :=
  ((s.1.call k l).host, fun id o => match l with
    | .apply modules _ => if o < s.1.drawn then s.2 id o else instanceOf k modules id
    | _ => s.2 id o)

/-- The runs of a host, with the instances. -/
def traced (k : Manifests μ) : System (Traced μ) (Call μ) where
  init s := (system k).init s.1
  step s l s' := trace k s l = s'

/-- The active composition has an owner for each module it routes, and each of its owners was
produced by the instance registered. -/
def Serves (k : Manifests μ) (s : Traced μ) : Prop :=
  ∀ c ∈ s.1.compositions, s.1.active = some c.revision →
    (∀ m ∈ c.routed, (c.owners (k.id m)).isSome) ∧
    ∀ id o, c.owners id = some o → s.2 id o = instanceOf k s.1.modules id

/-- An apply that does not change the routes has the same instances of what they lead to. -/
def Steady (k : Manifests μ) (s : Traced μ) : Call μ → Prop
  | .apply modules _ => Unmoved k s.1 modules → ∀ c ∈ s.1.compositions,
      s.1.active = some c.revision → ∀ id, (c.owners id).isSome →
        instanceOf k modules id = instanceOf k s.1.modules id
  | _ => True

variable {s : Traced μ}

theorem trace_of_lt (before : o < s.1.drawn) (id : GoString) : (trace k s l).2 id o = s.2 id o := by
  cases l with
  | apply => exact if_pos before
  | _ => rfl

theorem Serves.kept (serves : Serves k s) (sound : Sound s.1) (kept : Kept s.1 (trace k s l).1) :
    Serves k (trace k s l) := by
  intro c' mem active
  obtain ⟨c, mem, alike⟩ := kept.alike c' mem
  have active' : s.1.active = some c.revision := by
    rcases kept.active with same | none
    · rw [← same, active, alike.revision]
    · simp [none] at active
  rw [alike.routed, alike.owners, kept.modules]
  refine ⟨(serves c mem active').1, fun id o own => ?_⟩
  rw [trace_of_lt ((sound.numbered c mem).below own)]
  exact (serves c mem active').2 id o own

theorem Serves.step (serves : Serves k s) (sound : Sound s.1) (steady : Steady k s l) :
    Serves k (trace k s l) := by
  rcases kept_call (k := k) (h := s.1) l with ⟨modules, a, rfl⟩ | kept
  · have applied := applied_apply k s.1 modules a
    generalize outcome : s.1.call k (.apply modules a) = out at applied
    cases applied with
    | kept kept => exact serves.kept sound (by simpa [trace, outcome] using kept)
    | registered unmoved =>
      intro c mem active
      simp only [trace, outcome] at mem active ⊢
      refine ⟨(serves c mem active).1, fun id o own => ?_⟩
      rw [if_pos ((sound.numbered c mem).below own), (serves c mem active).2 id o own]
      exact (steady unmoved c mem active id (by rw [own]; rfl)).symm
    | published all taken =>
      intro c mem active
      simp only [trace, outcome, publishCandidate, mem_append, mem_map, mem_singleton,
        some.injEq] at mem active ⊢
      rcases mem with ⟨c, mem, rfl⟩ | rfl
      · have below := sound.below c mem
        split at active <;> exact absurd active below.ne'
      refine ⟨all, fun id o own => ?_⟩
      rcases taken own with old | fresh
      · obtain ⟨c, mem, active, own, -, same⟩ := reusedOwners_active old
        rw [if_pos ((sound.numbered c mem).below own), (serves c mem active).2 id o own, same]
      · exact if_neg (not_lt.mpr fresh)
  · exact serves.kept sound kept

/-- In every run, the active composition routes each module to an owner that the registered
instance produced, and an apply without error registers the instances it is given, if no apply
that leaves the routes as they are replaces an instance. -/
theorem served_by_registered (reach : ((traced k).restrict (Steady k)).Reachable s) :
    Serves k s ∧ ∀ modules a, (s.1.call k (.apply modules a)).error = none →
      ∀ id m, lookup k modules id = some m →
        instanceOf k (s.1.call k (.apply modules a)).modules id = some m.identity := by
  constructor
  · have inv : Sound s.1 ∧ Serves k s := by
      refine System.Invariant.holds (P := fun s => Sound s.1 ∧ Serves k s) ⟨?_, ?_⟩ reach
      · intro s init
        exact ⟨sound_of_reachable (k := k) (.init init), by simp [Serves, init.2.1]⟩
      · rintro s l _ ⟨sound, serves⟩ ⟨steady, rfl⟩
        exact ⟨sound.call l, serves.step sound steady⟩
    exact inv.2
  · intro modules a ok id m found
    have applied := applied_apply k s.1 modules a
    generalize s.1.call k (.apply modules a) = out at applied ok ⊢
    cases applied with
    | kept kept _ all =>
      rw [kept.modules]
      exact instanceOf_of_registered found (all ok m (mem_of_find?_eq_some found))
    | registered | published => exact congrArg (Option.map _) found

/-! ## Runs that fail -/

/-- Manifests that are their module's id, all routed. -/
def plainManifests : Manifests GoString := ⟨id, id, id, some, List.foldr (· ++ ·) (go "")⟩

/-- Every call succeeds. -/
def granted : Answers := ⟨true, true, true, fun _ => true, fun _ => true, true, fun _ => true,
  fun _ => true, fun _ => true, true, true⟩

/-- An apply of modules that all of its calls let through. -/
def applyAll (ids : List GoString) : Call GoString :=
  .apply (ids.map (⟨·, 0⟩)) ⟨true, true, true, true, fun _ => .active, [], true, true, granted⟩

/-- A new host, and what the calls make of it. -/
def after (calls : List (Call GoString)) : ModuleHost GoString :=
  calls.foldl (fun h l => (h.call plainManifests l).host) ⟨[], none, [], fun _ => none, [], 0⟩

theorem reachable_after (calls : List (Call GoString)) :
    (system plainManifests).Reachable (after calls) := by
  unfold after
  generalize start : (⟨[], none, [], fun _ => none, [], 0⟩ : ModuleHost GoString) = h
  have reach : (system plainManifests).Reachable h := .init (start ▸ ⟨rfl, rfl, nodup_nil⟩)
  clear start
  induction calls generalizing h with
  | nil => exact reach
  | cons l calls ih => exact ih _ (.step (l := l) reach rfl)

/-- The second composition takes a module over from the first. -/
def twoApplied : ModuleHost GoString := after [applyAll [go "m"], applyAll [go "m", go "n"]]

/-- A module of the first composition is leased, taken over by the second, and given back. -/
def leaseReturned : ModuleHost GoString := after [applyAll [go "m"],
  .acquire 0 (go "m") (go "m") true, applyAll [go "m", go "n"], .release ⟨2, 0, go "m", 3⟩ true]

/-- Deactivating the second composition deactivates both modules, which have no leases. -/
theorem deactivated_unleased_returned :
    (leaseReturned.call plainManifests (.deactivate 4 granted)).deactivated.length = 2 ∧
    ∀ o ∈ (leaseReturned.call plainManifests (.deactivate 4 granted)).deactivated,
      ∀ c ∈ leaseReturned.compositions, ¬c.Leased o := by
  have returned : ∀ c ∈ leaseReturned.compositions, c.leases = [] := by decide
  refine ⟨by decide, deactivated_unleased (reachable_after _) _ rfl ?_⟩
  rintro c - - c' mem - id o - ⟨lease, held, -⟩
  rw [returned c' mem] at held
  cases held

/-- A module leased through the first composition is taken over by the second, and
deactivating the second deactivates its owner. -/
theorem exists_leased_deactivated : ∃ h, (system plainManifests).Reachable h ∧
    ∃ o ∈ (h.call plainManifests (.deactivate 4 granted)).deactivated,
      ∃ c ∈ h.compositions, c.Leased o :=
  ⟨after [applyAll [go "m"], .acquire 0 (go "m") (go "m") true, applyAll [go "m", go "n"]],
    reachable_after _, by decide⟩

/-- The theorem on a drain of the first of two compositions. -/
theorem superseded_frame_iff_drain : ∃ c ∈ twoApplied.compositions,
    ∃ active ∈ twoApplied.compositions, Retains active c (go "m") ∧ ∀ id, Retains active c id →
      (twoApplied.call plainManifests (.drain 0 granted)).states id =
      twoApplied.states id := by
  obtain ⟨c, mem, active, mem', isActive, first, other, retains⟩ :
      ∃ c ∈ twoApplied.compositions, ∃ active ∈ twoApplied.compositions,
        twoApplied.active = some active.revision ∧ c.revision = 0 ∧ active.revision ≠ 0 ∧
        Retains active c (go "m") := by
    decide
  have target : (Call.drain 0 granted : Call GoString).target = some c.revision := by
    rw [first]
    rfl
  have unchanged := (superseded_frame_iff (reachable_after _) mem' isActive mem
    (fun same => other (same ▸ first)) target).mpr nofun
  exact ⟨c, mem, active, mem', retains, fun id ret => (unchanged id ret).1⟩

/-- Fencing the first composition marks a module draining that the second one took over. -/
theorem exists_fence_drains : ∃ h, (system plainManifests).Reachable h ∧
    ∃ c ∈ h.compositions, ∃ active ∈ h.compositions,
      h.active = some active.revision ∧ c.revision = 0 ∧
      active.revision ≠ 0 ∧ Retains active c (go "m") ∧
      h.states (go "m") = some .active ∧
      (h.call plainManifests (.fence 0 granted)).error = none ∧
      (h.call plainManifests (.fence 0 granted)).states (go "m") = some .draining :=
  ⟨twoApplied, reachable_after _, by decide⟩

/-- Three applies: a module, the same instance beside another module, and both once more. -/
theorem served_by_registered_again : ∃ s, (s : Traced GoString).1.active = some 2 ∧
    s.1.modules.length = 2 ∧ Serves plainManifests s := by
  let s₀ : Traced GoString := (after [], fun _ _ => none)
  let s₁ := trace plainManifests s₀ (applyAll [go "m"])
  let s₂ := trace plainManifests s₁ (applyAll [go "m", go "n"])
  have init : (traced plainManifests).init s₀ := ⟨rfl, rfl, nodup_nil⟩
  have first : Steady plainManifests s₀ (applyAll [go "m"]) := fun _ _ mem => nomatch mem
  have second : Steady plainManifests s₁ (applyAll [go "m", go "n"]) := fun same => by
    have moved : ¬Unmoved plainManifests s₁.1 [⟨go "m", 0⟩, ⟨go "n", 0⟩] := by
      unfold Unmoved
      decide
    exact absurd same moved
  have third : Steady plainManifests s₂ (applyAll [go "m", go "n"]) := fun _ _ _ _ _ _ => rfl
  have reach : ((traced plainManifests).restrict (Steady plainManifests)).Reachable
      (trace plainManifests s₂ (applyAll [go "m", go "n"])) :=
    .step (.step (.step (.init init) ⟨first, rfl⟩) ⟨second, rfl⟩) ⟨third, rfl⟩
  exact ⟨_, by decide, by decide, (served_by_registered reach).1⟩

/-- A module is supplied with another instance beside one that is not routed: no error is
reported, and the active composition keeps the owner of the old instance. -/
theorem exists_replaced_unreported : ∃ k s l, (traced k).Reachable s ∧
    (s.1.call k l).error = none ∧ ∃ c ∈ (trace k s l).1.compositions,
      (trace k s l).1.active = some c.revision ∧ go "m" ∈ c.routed ∧
      c.owners (go "m") = some 0 ∧ (trace k s l).2 (go "m") 0 = some 0 ∧
      instanceOf k (trace k s l).1.modules (go "m") = some 1 := by
  let k : Manifests GoString := { plainManifests with route ms := some (ms.filter (· != go "x")) }
  let a : ApplyAnswers := ⟨true, true, true, true, fun _ => .active, [], true, true, granted⟩
  have init : (traced k).init (after [], fun _ _ => none) := ⟨rfl, rfl, nodup_nil⟩
  exact ⟨k, trace k (after [], fun _ _ => none) (applyAll [go "m"]),
    .apply [⟨go "m", 1⟩, ⟨go "x", 0⟩] a, .step (.init init) rfl, by decide⟩

end AutoAgent.Runtime.ModuleHost
