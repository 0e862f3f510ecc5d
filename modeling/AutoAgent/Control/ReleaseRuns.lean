import AutoAgent.Control.Release

/-!
# Runs of release managers

**A failed publication.**  `publish` mounts the layer and keeps the release before the
journal has accepted it, and undoes both when the journal refuses.  The undo restores the
releases, the mounted layers and the counters, but the map of releases keeps the key of the
profile: `sync` then asks the journal for a history of a profile it has never seen.
-/

namespace AutoAgent

open List

namespace ProfileRegistry

/-- The views of a registry agree and its mount numbers are those of its counter. -/
structure Indexed (r : ProfileRegistry) : Prop where
  index : ∀ key, r.layers.at_ key = ProfileRun.part r.flat key
  numbered : ∀ e ∈ r.flat, e.order ≤ r.next

/-- Every registry reached by its calls is. -/
theorem indexed_run (maxBindings : ℤ) (calls : List ProfileCall) :
    Indexed (ProfileRun.run maxBindings calls).registry :=
  have sound := ProfileRun.run_sound maxBindings calls
  ⟨sound.index, sound.numbered⟩

variable {r r' : ProfileRegistry} {layer : AgentProfileLayer}

theorem room_of_mount (ok : r.mount layer = .ok r') :
    r'.flat.length = r.flat.length + 1 ∧ r'.maxBindings = r.maxBindings := by
  obtain ⟨-, rfl⟩ := mount_eq_ok.mp ok
  simp

theorem without_of_numbered {flat : List (Stored AgentProfileLayer)} {n : ℕ}
    (numbered : ∀ e ∈ flat, e.order ≤ n) (e : Stored AgentProfileLayer) (last : e.order = n + 1) :
    Stored.without (n + 1) (flat ++ [e]) = flat := by
  rw [Stored.without, eraseP_append_right]
  · simp [last]
  · intro s mem
    have below := numbered s mem
    simp only [beq_iff_eq]
    omega

/-- A mount and its unmount leave the layers as they were. -/
theorem Indexed.unmount_mount (h : Indexed r) (ok : r.mount layer = .ok r') :
    (r'.unmount layer.key r'.next).flat = r.flat ∧
    (∀ key, (r'.unmount layer.key r'.next).layers.at_ key = r.layers.at_ key) ∧
    r.maxBindings = r'.maxBindings := by
  obtain ⟨-, rfl⟩ := mount_eq_ok.mp ok
  refine ⟨without_of_numbered h.numbered _ rfl, fun key => ?_, rfl⟩
  simp only [unmount, Shelves.at_put]
  split_ifs with same
  · subst same
    refine without_of_numbered (fun e mem => h.numbered e ?_) _ rfl
    rw [h.index] at mem
    exact (mem_filter.mp mem).1
  · rfl

end ProfileRegistry

namespace Control

namespace ReleaseManager

variable {F : Fingerprints} {m m' : ReleaseManager} {j j' : Journal} {faults : Faults}
  {layer : AgentProfileLayer} {operationID baseline : GoString} {e : ReleaseError}

/-- The map of releases has values only at its keys, over a registry in order. -/
structure WellFormed (m : ReleaseManager) : Prop where
  absent : ∀ p ∉ m.held, m.releases p = []
  indexed : m.profiles.Indexed

/-- Two managers with the same releases, mounted layers, counters and reservations. -/
structure Same (m m' : ReleaseManager) : Prop where
  releases : m'.releases = m.releases
  next : m'.next = m.next
  flat : m'.profiles.flat = m.profiles.flat
  layers : ∀ key, m'.profiles.layers.at_ key = m.profiles.layers.at_ key
  room : m'.profiles.maxBindings = m.profiles.maxBindings
  reserved : m'.reserved = m.reserved
  journaled : m'.journaled = m.journaled
  restored : m'.restored = m.restored
  syncedRevision : m'.syncedRevision = m.syncedRevision

/-- The publication gets as far as mounting its layer. -/
def Mounts (F : Fingerprints) (m : ReleaseManager) (faults : Faults) (j : Journal)
    (layer : AgentProfileLayer) (operationID baseline : GoString) : Prop :=
  m.publishable F faults j layer operationID baseline = .ok none ∧
    ∃ r, m.profiles.mount layer = .ok r

/-- What a failed publication leaves behind: the manager as it was, but for the key of the
profile after a mount. -/
theorem publish_error (wf : m.WellFormed)
    (failed : m.publish F faults j layer operationID baseline = (m', j', .error e)) :
    j' = j ∧ m.Same m' ∧ ((m' = m ∧ ¬ Mounts F m faults j layer operationID baseline) ∨
      (m'.held = m.held.insert layer.profileID ∧ m.journaled ∧
        Mounts F m faults j layer operationID baseline)) := by
  have untouched : m.Same m := ⟨rfl, rfl, rfl, fun _ => rfl, rfl, rfl, rfl, rfl, rfl⟩
  unfold publish at failed
  split at failed
  next e' refused =>
    cases failed
    exact ⟨rfl, untouched, .inl ⟨rfl, fun ⟨ok, _⟩ => by simp [refused] at ok⟩⟩
  next => simp at failed
  next new =>
    simp only at failed
    split at failed
    next e' refused =>
      cases failed
      exact ⟨rfl, untouched, .inl ⟨rfl, fun ⟨_, r, ok⟩ => by simp [refused] at ok⟩⟩
    next r ok =>
      split at failed
      · simp at failed
      next journaled =>
        split at failed
        next =>
          cases failed
          obtain ⟨flat, layers, room⟩ := wf.indexed.unmount_mount ok
          refine ⟨rfl, ⟨?_, ?_, flat, layers, room.symm, rfl, rfl, rfl, rfl⟩,
            .inr ⟨rfl, by simpa using journaled, new, r, ok⟩⟩
          · simp [undo, mounted, newRelease]
          · simp [undo, mounted, newRelease]
        next => simp at failed

/-! ## What makes `sync` succeed -/

theorem foldlM_histories {step : List (GoString × List ReleaseInfo) → GoString →
      Except ReleaseError (List (GoString × List ReleaseInfo))} {ps : List GoString}
    (one : ∀ {acc p out}, step acc p = .ok out → out = acc ++ [(p, j.loadReleases p)])
    {acc out : List (GoString × List ReleaseInfo)} (run : ps.foldlM step acc = .ok out) :
    out = acc ++ ps.map fun p => (p, j.loadReleases p) := by
  induction ps generalizing acc with
  | nil => simpa [pure_eq_ok] using (pure_eq_ok.mp run).symm
  | cons p ps ih =>
    rw [foldlM_cons, bind_eq_ok] at run
    obtain ⟨next, first, rest⟩ := run
    rw [ih rest, one first]
    simp

/-- `Sync` reads the history of every profile of the journal. -/
theorem histories_eq {out : List (GoString × List ReleaseInfo)}
    (ok : histories F faults j = .ok out) :
    out = j.listReleaseProfiles.map fun p => (p, j.loadReleases p) := by
  simp only [histories, bind_eq_ok] at ok
  obtain ⟨_, -, run⟩ := ok
  refine foldlM_histories (fun step => ?_) run
  simp only [bind_eq_ok, pure_eq_ok] at step
  obtain ⟨_, -, _, -, _, -, _, -, rfl⟩ := step
  rfl

/-- A sequence of releases is mounted one by one. -/
theorem mountEach_cons {α : Type}
    {check : List ProfileRelease → α → Except ReleaseError ProfileRelease}
    {prior out : List ProfileRelease} {r r' : ProfileRegistry} {a : α} {rest : List α} :
    mountEach check prior r (a :: rest) = (r', .ok out) ↔
      ∃ release, check prior a = .ok release ∧
        ((release.rolledBack ∧ mountEach check (prior ++ [release]) r rest = (r', .ok out)) ∨
        (release.rolledBack = false ∧ ∃ layer next, release.layer = some layer ∧
          r.mount layer = .ok next ∧
          mountEach check (prior ++ [{ release with unmount := some (layer.key, next.next) }]) next
            rest = (r', .ok out))) := by
  rw [mountEach]
  cases check prior a with
  | error e => simp
  | ok release =>
    simp only [Except.ok.injEq, exists_eq_left']
    cases back : release.rolledBack with
    | true => simp
    | false =>
      cases release.layer with
      | none => simp
      | some layer =>
        cases mount : r.mount layer with
        | error e => simp [Except.map, mount]
        | ok next =>
          simp only [Option.elim_some, Except.map, false_eq_true, if_false, false_and,
            true_and, false_or, some.injEq, mount]
          split
          next eq =>
            refine ⟨fun h => by simp at h, ?_⟩
            rintro ⟨_, next', rfl, same, run⟩
            cases mount.symm.trans same
            simp [eq] at run
          next =>
            refine ⟨fun run => ⟨layer, next, rfl, mount, run⟩, ?_⟩
            rintro ⟨_, next', rfl, same, run⟩
            cases mount.symm.trans same
            exact run

/-- Whether a sequence of releases can be mounted depends on the room of the registry. -/
theorem mountEach_congr {releases prior prior' : List ProfileRelease} {r r' : ProfileRegistry}
    (room : r'.flat.length = r.flat.length) (most : r'.maxBindings = r.maxBindings)
    (ok : ∃ after out, mountEach (fun _ release => .ok release) prior r releases =
      (after, .ok out)) :
    ∃ after out, mountEach (fun _ release => .ok release) prior' r' releases =
      (after, .ok out) := by
  induction releases generalizing prior prior' r r' with
  | nil => exact ⟨_, _, rfl⟩
  | cons release rest ih =>
    simp only [mountEach_cons, Except.ok.injEq, exists_eq_left'] at ok ⊢
    obtain ⟨after, out, ⟨back, done⟩ | ⟨live, layer, next, some, mount, done⟩⟩ := ok
    · obtain ⟨after', out', done'⟩ := ih room most ⟨after, out, done⟩
      exact ⟨after', out', .inl ⟨back, done'⟩⟩
    · obtain ⟨fits, -⟩ := ProfileRegistry.mount_eq_ok.mp mount
      rw [← room, ← most] at fits
      obtain ⟨next', mount'⟩ : ∃ next', r'.mount layer = .ok next' :=
        ⟨_, ProfileRegistry.mount_eq_ok.mpr ⟨fits, rfl⟩⟩
      have grown := ProfileRegistry.room_of_mount mount
      have grown' := ProfileRegistry.room_of_mount mount'
      have room' : next'.flat.length = next.flat.length := by rw [grown.1, grown'.1, room]
      obtain ⟨after', out', done'⟩ := ih room' (grown'.2.trans (most.trans grown.2.symm))
        ⟨after, out, done⟩
      exact ⟨after', out', .inr ⟨live, layer, next', some, mount', done'⟩⟩

/-- What has to hold for `Sync` to succeed. -/
theorem sync_eq_ok : (m.sync F faults j).2 = .ok () ↔ m.journaled = false ∨
    ((m.restored ∧ faults .revision = false) ∧ (j.revision = m.syncedRevision ∨
      ∃ rollbacks news, m.syncPlan F faults j = .ok (rollbacks, news) ∧
        (∃ after out, mountEach (fun _ release => .ok release) [] m.profiles news =
        (after, .ok out)) ∧
        faults .revisionAgain = false)) := by
  unfold sync
  cases m.journaled with
  | false => simp
  | true =>
    cases m.restored <;> cases readable : faults .revision <;>
      simp [require, Faults.call, bind, Except.bind, readable]
    by_cases current : j.revision = m.syncedRevision
    · simp [current]
    · simp only [current, if_false, false_or]
      cases m.syncPlan F faults j with
      | error e => simp
      | ok plan =>
        obtain ⟨rollbacks, news⟩ := plan
        rcases run : mountEach (fun _ release => .ok release) [] m.profiles news with
          ⟨after, _ | out⟩ <;> cases faults .revisionAgain <;> simp [run]

/-! ## The key that stays -/

variable {p : GoString}

/-- The histories a `Sync` reads hold the profile exactly if the journal lists it. -/
theorem checkHeld_of_nil {durable : List (GoString × List ReleaseInfo)}
    (read : histories F faults j = .ok durable) (none : m.releases p = []) :
    m.checkHeld durable p = .ok () ↔ p ∈ j.listReleaseProfiles := by
  rw [histories_eq read, checkHeld]
  split
  next missing =>
    refine ⟨fun h => by simp at h, fun mem => ?_⟩
    simp only [find?_eq_none, mem_map, beq_iff_eq] at missing
    exact absurd rfl (missing _ ⟨p, mem, rfl⟩)
  next q infos found =>
    rw [none]
    refine ⟨fun _ => ?_, fun _ => rfl⟩
    obtain ⟨p', mem, eq⟩ := mem_map.mp (mem_of_find?_eq_some found)
    obtain rfl : q = p := by simpa using find?_some found
    obtain rfl : p' = q := congrArg Prod.fst eq
    exact mem

variable {plan : List ProfileRelease × List ProfileRelease}

/-- What `Sync` checks, record by record and key by key. -/
theorem syncPlan_eq_ok :
    m.syncPlan F faults j = .ok plan ↔ ∃ durable plans, histories F faults j = .ok durable ∧
      (∀ p ∈ m.held, m.checkHeld durable p = .ok ()) ∧
      (durable.flatMap (·.2)).mapM (m.plan F) = .ok plans ∧
      (plans.flatMap (·.1), plans.flatMap (·.2)) = plan := by
  simp only [syncPlan, bind_eq_ok, pure_eq_ok, forM_eq_ok, exists_and_left, exists_const]

/-- The plan of a `Sync` with one more key that has no releases. -/
theorem syncPlan_insert (same : m.Same m') (more : m'.held = m.held.insert p)
    (absent : ∀ p ∉ m.held, m.releases p = []) (ok : m.syncPlan F faults j = .ok plan) :
    (p ∈ m.held ∨ p ∈ j.listReleaseProfiles → m'.syncPlan F faults j = .ok plan) ∧
    (∀ plan', m'.syncPlan F faults j = .ok plan' → p ∈ m.held ∨ p ∈ j.listReleaseProfiles) := by
  have plans : m'.plan F = m.plan F := by
    funext info
    simp only [ReleaseManager.plan, validateExternalReleaseChange, baselineRevision, same.releases,
      same.reserved]
  have checks : ∀ durable, m'.checkHeld durable = m.checkHeld durable := fun durable => by
    funext p
    simp only [checkHeld, same.releases]
  obtain ⟨durable, out, read, kept, planned, rfl⟩ := syncPlan_eq_ok.mp ok
  simp only [syncPlan_eq_ok, plans, checks, more, mem_insert_iff]
  constructor
  · refine fun known => ⟨durable, out, read, fun q mem => ?_, planned, rfl⟩
    by_cases held : q ∈ m.held
    · exact kept q held
    · obtain rfl := mem.resolve_right held
      exact (checkHeld_of_nil read (absent q held)).mpr (known.resolve_left held)
  · rintro plan' ⟨durable', out', read', kept', -⟩
    by_cases held : p ∈ m.held
    · exact .inl held
    · exact .inr ((checkHeld_of_nil read' (absent p held)).mp (kept' p (.inl rfl)))

/-- **A failed publication leaves the manager as it was, and a `Sync` that would have
succeeded on the same journal still succeeds exactly when** the publication failed before
its mount, the profile already has a key or a history in the journal, or the `Sync` does not
read the journal. -/
theorem publish_failed_sync (wf : m.WellFormed)
    (failed : m.publish F faults j layer operationID baseline = (m', j', .error e)) :
    j' = j ∧ m.Same m' ∧ ∀ again : Faults, (m.sync F again j).2 = .ok () →
      ((m'.sync F again j).2 = .ok () ↔
        (Mounts F m faults j layer operationID baseline →
          layer.profileID ∈ m.held ∨ layer.profileID ∈ j.listReleaseProfiles ∨
          j.revision = m.syncedRevision)) := by
  obtain ⟨unchanged, same, ⟨rfl, early⟩ | ⟨more, journaled, late⟩⟩ := publish_error wf failed
  · exact ⟨unchanged, same, fun again ok => ⟨fun _ mounts => absurd mounts early, fun _ => ok⟩⟩
  · refine ⟨unchanged, same, fun again ok => ?_⟩
    rw [sync_eq_ok] at ok ⊢
    simp only [same.journaled, same.restored, same.syncedRevision, journaled, Bool.true_eq_false,
      false_or, late, true_imp_iff] at ok ⊢
    obtain ⟨ready, current | ⟨rollbacks, news, planned, mountable, quiet⟩⟩ := ok
    · simp [ready, current]
    · obtain ⟨only, known⟩ := syncPlan_insert same more wf.absent planned
      constructor
      · rintro ⟨-, current | ⟨_, _, planned', -⟩⟩
        · exact .inr (.inr current)
        · exact (known _ planned').elim .inl fun listed => .inr (.inl listed)
      · intro cause
        refine ⟨ready, ?_⟩
        by_cases current : j.revision = m.syncedRevision
        · exact .inl current
        · have listed : layer.profileID ∈ m.held ∨ layer.profileID ∈ j.listReleaseProfiles :=
            cause.imp_right fun h => h.resolve_right current
          exact .inr ⟨rollbacks, news, only listed,
            mountEach_congr (congrArg List.length same.flat) same.room mountable, quiet⟩

/-! A manager over an empty journal that refuses the first release of a profile. -/

/-- Fingerprints that do not look at their argument. -/
def blind : Fingerprints where
  layerRevision _ := go "r"
  baseline _ := ⟨List.replicate 64 (.rune '0')⟩
  revision_ne _ := by decide
  hex _ := by decide

/-- A layer that only names its profile. -/
def plainLayer : AgentProfileLayer :=
  ⟨exampleGlobal, go "team.agent", .empty, none, none, none, none, none, [], [], [], [], []⟩

/-- The manager of a process that has restored the empty journal. -/
def restoredEmpty : ReleaseManager := { new (.new 0) true with restored := true }

/-- The journal fails to record a release. -/
def recordFails : Faults := fun c => c == .record

theorem restoredEmpty_wellFormed : restoredEmpty.WellFormed :=
  ⟨fun _ _ => rfl, ProfileRegistry.indexed_run 0 []⟩

theorem publish_failed_sync_restoredEmpty :
    restoredEmpty.Same (restoredEmpty.publish blind recordFails ⟨[], 0,
      64⟩ plainLayer .empty .empty).1 := by
  have failed : (restoredEmpty.publish blind recordFails ⟨[], 0, 64⟩ plainLayer .empty .empty).2 =
      (⟨[], 0, 64⟩, .error (.journal .record)) := rfl
  exact (publish_failed_sync restoredEmpty_wellFormed (Prod.ext rfl failed)).2.1

/-- `Sync` succeeds before the failed publication and no longer after it. -/
theorem exists_sync_lost : (restoredEmpty.sync blind (fun _ => false) ⟨[], 0, 64⟩).2.isOk = true ∧
    (restoredEmpty.publish blind recordFails ⟨[], 0, 64⟩ plainLayer .empty .empty).2.2.isOk =
      false ∧
    ((restoredEmpty.publish blind recordFails ⟨[], 0, 64⟩ plainLayer .empty .empty).1.sync blind
      (fun _ => false) ⟨[], 0, 64⟩).2.isOk = false := by
  decide

end ReleaseManager

end Control

end AutoAgent
