import AutoAgent.Control.CanaryRuns

/-!
# How a canary ends

One `CanaryManager` with its release manager and store, and every sequence of its calls.
`Stage` refuses a second canary only at the very same scope, and reserves the profile for
each; a promotion is refused while another canary reserves an overlapping scope, but only
after the record has been moved to promoting, from where neither `Promote` nor `Rollback`
leads on.

**The runs without dead ends.**  `Clear` asks of each staged canary that no open one of its
profile overlaps its scope, that no release carries its id, and that registry and journal
have room for all open canaries.  In such runs the reservations, baselines and histories
stay as `Promote` needs them (`Rollout.Sound`), so every open canary can be promoted.
-/

namespace AutoAgent.Control

open List CanaryManager CanaryRecord
open Rollouts (exampleCanary)
open ReleaseManager (blind baselineRevision)

/-- A manager with its store. -/
structure Rollout extends manager : CanaryManager, store : Store

inductive CanaryCall where
  | stage (r : CanaryRecord)
  | update (id : GoString) (c : Change)
  | promote (id : GoString)
  deriving DecidableEq

def CanaryRecord.reservation (r : CanaryRecord) : Reservation :=
  ⟨r.id, r.profileID, r.scope, r.baseReleaseRevision, r.revision⟩

/-- The record of an id replaced. -/
def put (rows : List CanaryRecord) (id : GoString) (r : CanaryRecord) : List CanaryRecord :=
  rows.map fun row => if row.id == id then r else row

def ofProfile (rows : List CanaryRecord) (profileID : GoString) : List CanaryRecord :=
  rows.filter (·.profileID == profileID)

namespace Rollout

variable {F : Fingerprints} {w w' : Rollout} {r r' : CanaryRecord} {id : GoString}
  {rows : List CanaryRecord}

def call (F : Fingerprints) (w : Rollout) : CanaryCall → Rollout
  | .stage r => let out := w.stage F w.store r; ⟨out.1, out.2.1⟩
  | .update id c => let out := w.update F w.store id c; ⟨out.1, out.2.1⟩
  | .promote id => let out := w.promote F w.store id; ⟨out.1, out.2.1⟩

/-- A release carries the operation id. -/
def Used (w : Rollout) (id : GoString) : Prop :=
  (∃ p, ∃ x ∈ w.releases.releases p, x.operationID = id) ∨
  (w.releases.journaled ∧ ∃ x ∈ w.journal.rows, x.operationID = id)

/-- The canary to be staged overlaps no open one, its id is unused, and there is room to
promote every open canary. -/
def Clear (w : Rollout) : CanaryCall → Prop
  | .stage r =>
    (∀ x ∈ w.states, x.profileID = r.profileID → scopesOverlap x.scope r.scope = false) ∧
    ¬ w.Used r.id ∧
    ((w.releases.profiles.flat.length : ℤ) + w.states.length + 1 ≤
      registryCap w.releases.profiles.maxBindings) ∧
    (w.releases.journaled →
      (w.journal.rows.filter (·.profileID == r.profileID)).length +
        (ofProfile w.states r.profileID).length + 1 ≤ w.journal.historyCap)
  | _ => True

/-- A restored manager without open canaries, whose counters cover the journal. -/
def Fresh (w : Rollout) : Prop :=
  w.states = [] ∧ w.releases.reserved = [] ∧
  (w.canaries.map (·.id)).Nodup ∧ (∀ r ∈ w.canaries, r.status.isOpen = false) ∧
  (w.releases.journaled → w.releases.restored ∧
    ∀ row ∈ w.journal.rows, row.version ≤ w.releases.next row.profileID)

def system (F : Fingerprints) : System Rollout CanaryCall where
  init := Fresh
  step w c w' := w.call F c = w'

/-- What the calls keep as long as every staged canary is clear. -/
structure Sound (F : Fingerprints) (w : Rollout) : Prop where
  ids : (w.canaries.map (·.id)).Nodup
  states : w.states = w.canaries.filter (·.status.isOpen)
  resting : ∀ r ∈ w.states, r.status = .active ∨ r.status = .paused
  restored : (!w.releases.journaled || w.releases.restored)
  owned : ∀ x ∈ w.releases.reserved, ∃ r ∈ w.states, x = r.reservation
  apart : ∀ r ∈ w.states, ∀ r' ∈ w.states, r.profileID = r'.profileID →
    scopesOverlap r.scope r'.scope → r = r'
  based : ∀ r ∈ w.states,
    w.releases.baselineRevision F r.profileID r.scope = .ok r.baseReleaseRevision
  unused : ∀ r ∈ w.states, ¬ w.Used r.id
  valid : ∀ r ∈ w.states, validateCanaryRecord F r = .ok () ∧
    validateProfileLayer r.artifact = .ok ()
  room : w.states ≠ [] →
    (w.releases.profiles.flat.length : ℤ) + w.states.length ≤
      registryCap w.releases.profiles.maxBindings
  history : w.releases.journaled → ∀ r ∈ w.states,
    (w.journal.rows.filter (·.profileID == r.profileID)).length +
      (ofProfile w.states r.profileID).length ≤ w.journal.historyCap
  versions : w.releases.journaled →
    ∀ row ∈ w.journal.rows, row.version ≤ w.releases.next row.profileID

theorem mem_put {x : CanaryRecord} :
    x ∈ put rows id r ↔ (x ∈ rows ∧ x.id ≠ id) ∨ (x = r ∧ ∃ y ∈ rows, y.id = id) := by
  simp only [put, mem_map]
  constructor
  · rintro ⟨y, mem, rfl⟩
    by_cases same : y.id = id
    · exact .inr ⟨by simp [same], y, mem, same⟩
    · exact .inl ⟨by simpa [same] using mem, by simp [same]⟩
  · rintro (⟨mem, other⟩ | ⟨rfl, y, mem, same⟩)
    · exact ⟨x, mem, by simp [other]⟩
    · exact ⟨y, mem, by simp [same]⟩

variable {expected : List CanaryStatus}

/-- An update from a record that is up to date replaces it. -/
theorem write_eq_put (ids : (rows.map (·.id)).Nodup) (mem : r ∈ rows)
    (expects : r.status ∈ expected) (same : r'.id = r.id) (keeps : Store.overwrite r r' = r') :
    Rollouts.write rows r' expected = put rows r.id r' := by
  refine map_congr_left fun row row_mem => ?_
  by_cases here : row.id = r.id
  · obtain rfl := inj_on_of_nodup_map ids row_mem mem here
    simp [same, expects, keeps]
  · simp [same, here]

theorem ids_put (same : r.id = id) : (put rows id r).map (·.id) = rows.map (·.id) := by
  rw [put, map_map]
  refine map_congr_left fun row _ => ?_
  simp only [comp_apply]
  split_ifs with here
  · rw [same, beq_iff_eq.mp here]
  · rfl

theorem nodup_put (ids : (rows.map (·.id)).Nodup) (same : r.id = id) :
    ((put rows id r).map (·.id)).Nodup := by
  rwa [ids_put same]

/-- The update of a record that is up to date. -/
theorem updateCanary_put {s : Store} (valid : validateCanaryRecord F r' = .ok ())
    (ids : (s.canaries.map (·.id)).Nodup) (mem : r ∈ s.canaries) (expects : r.status ∈ expected)
    (same : r'.id = r.id) (keeps : Store.overwrite r r' = r') :
    s.updateCanary F r' expected = .ok (some (s.bump (put s.canaries r.id r'))) := by
  rw [← write_eq_put ids mem expects same keeps]
  simp only [Store.updateCanary, valid, bind, Except.bind, pure, Except.pure]
  rw [if_pos]
  · rfl
  · exact any_eq_true.mpr ⟨r, mem, by simp [same, expects]⟩

/-- A filter that does not tell the new record from the old one. -/
theorem filter_put_eq {p : CanaryRecord → Bool} (alike : ∀ x ∈ rows, x.id = id → p r = p x) :
    (put rows id r).filter p = put (rows.filter p) id r := by
  rw [put, filter_map, put]
  refine congrArg _ (filter_congr fun x hx => ?_)
  simp only [comp_apply]
  split_ifs with here
  · exact alike x hx (beq_iff_eq.mp here)
  · rfl

/-- A filter that drops the new record. -/
theorem filter_put_of_not {p : CanaryRecord → Bool} (drops : p r = false) :
    (put rows id r).filter p = (rows.filter p).filter (·.id != id) := by
  induction rows with
  | nil => rfl
  | cons row rest ih =>
    rw [put, map_cons, filter_cons, filter_cons]
    by_cases here : row.id = id <;> cases keeps : p row <;> simp_all [put]

theorem Sound.mem_states (h : w.Sound F) : r ∈ w.states ↔ r ∈ w.canaries ∧ r.status.isOpen := by
  rw [h.states, mem_filter]

theorem Sound.eq_of_id (h : w.Sound F) (mem : r ∈ w.states) (mem' : r' ∈ w.states)
    (same : r.id = r'.id) : r = r' :=
  inj_on_of_nodup_map h.ids (h.mem_states.mp mem).1 (h.mem_states.mp mem').1 same

theorem Sound.find (h : w.Sound F) (mem : r ∈ w.states) :
    w.states.find? (·.id == r.id) = some r := by
  cases found : w.states.find? (·.id == r.id) with
  | none => exact absurd mem (by simpa using fun mem => find?_eq_none.mp found r mem)
  | some x =>
    have same : x.id = r.id := by simpa using find?_some found
    rw [h.eq_of_id (mem_of_find?_eq_some found) mem same]

/-- A record replaced by one with the same artifact. -/
theorem Sound.replaced (h : w.Sound F) (mem : r ∈ w.states)
    (resting : r'.status = .active ∨ r'.status = .paused)
    (valid : validateCanaryRecord F r' = .ok ())
    (alike : r'.reservation = r.reservation) (artifact : r'.artifact = r.artifact) :
    Sound F ⟨{ w.manager with states := put w.states r.id r' },
      w.bump (put w.canaries r.id r')⟩ := by
  have sameID : r'.id = r.id := congrArg (·.owner) alike
  have ids := nodup_put h.ids sameID
  have states : put w.states r.id r' =
      (put w.canaries r.id r').filter (·.status.isOpen) := by
    obtain ⟨row, isOpen⟩ := h.mem_states.mp mem
    rw [h.states, filter_put_eq fun x hx same => ?_]
    rw [inj_on_of_nodup_map h.ids hx row same, isOpen]
    rcases resting with eq | eq <;> rw [eq] <;> rfl
  have back : ∀ x ∈ put w.states r.id r', ∃ y ∈ w.states, x.id = y.id ∧
      x.profileID = y.profileID ∧ x.scope = y.scope ∧
      x.baseReleaseRevision = y.baseReleaseRevision := by
    intro x hx
    rcases mem_put.mp hx with ⟨old, -⟩ | ⟨rfl, -⟩
    · exact ⟨x, old, rfl, rfl, rfl, rfl⟩
    · simp only [reservation, Reservation.mk.injEq] at alike
      exact ⟨r, mem, alike.1, alike.2.1, alike.2.2.1, alike.2.2.2.1⟩
  have count : ∀ p, (ofProfile (put w.states r.id r') p).length =
      (ofProfile w.states p).length := by
    intro p
    rw [ofProfile, filter_put_eq fun x hx same => ?_, put, length_map, ofProfile]
    rw [h.eq_of_id hx mem same, show r'.profileID = r.profileID from congrArg (·.profileID) alike]
  refine ⟨ids, states, fun x hx => ?_, h.restored, fun x hx => ?_, fun x hx x' hx' p o => ?_,
    fun x hx => ?_, fun x hx => ?_, fun x hx => ?_, ?_, fun journaled x hx => ?_, h.versions⟩
  · rcases mem_put.mp hx with ⟨old, -⟩ | ⟨rfl, -⟩
    · exact h.resting x old
    · exact resting
  · obtain ⟨y, hy, rfl⟩ := h.owned x hx
    by_cases here : y.id = r.id
    · rw [h.eq_of_id hy mem here, ← alike]
      exact ⟨r', mem_put.mpr (.inr ⟨rfl, r, mem, rfl⟩), rfl⟩
    · exact ⟨y, mem_put.mpr (.inl ⟨hy, here⟩), rfl⟩
  · obtain ⟨y, hy, sameID, profile, scope, -⟩ := back x hx
    obtain ⟨y', hy', sameID', profile', scope', -⟩ := back x' hx'
    have one := h.apart y hy y' hy' (by rw [← profile, ← profile', p])
      (by rw [← scope, ← scope', o])
    rw [states] at hx hx'
    exact inj_on_of_nodup_map ids (mem_filter.mp hx).1 (mem_filter.mp hx').1
      (by rw [sameID, sameID', one])
  · obtain ⟨y, hy, -, profile, scope, base⟩ := back x hx
    rw [profile, scope, base]
    exact h.based y hy
  · obtain ⟨y, hy, same, -⟩ := back x hx
    rw [same]
    exact h.unused y hy
  · rcases mem_put.mp hx with ⟨old, -⟩ | ⟨rfl, -⟩
    · exact h.valid x old
    · exact ⟨valid, artifact ▸ (h.valid r mem).2⟩
  · intro _
    simpa [put] using h.room (ne_nil_of_mem mem)
  · obtain ⟨y, hy, -, profile, -⟩ := back x hx
    rw [count, profile]
    exact h.history journaled y hy

/-- A canary ends: with a rollback, or with a release of its own artifact. -/
theorem Sound.ended (h : w.Sound F) (mem : r ∈ w.states) (closed : r'.status.isOpen = false)
    (same : r'.id = r.id)
    (states : w'.states = w.states.filter (·.id != r.id))
    (canaries : w'.canaries = put w.canaries r.id r')
    (cap : w'.journal.historyCap = w.journal.historyCap)
    (journaled : w'.releases.journaled = w.releases.journaled)
    (restored : w'.releases.restored = w.releases.restored)
    (owned : ∀ x ∈ w'.releases.reserved, x ∈ w.releases.reserved ∧
      (x.owner ≠ r.id ∨ x.profileID ≠ r.profileID))
    (based : ∀ x ∈ w.states, x ≠ r →
      w'.releases.baselineRevision F x.profileID x.scope =
        w.releases.baselineRevision F x.profileID x.scope)
    (used : ∀ id, id ≠ r.id → w'.Used id → w.Used id)
    (room : w'.releases.profiles.flat.length ≤ w.releases.profiles.flat.length + 1 ∧
      w'.releases.profiles.maxBindings = w.releases.profiles.maxBindings)
    (rows : ∀ p, (w'.journal.rows.filter (·.profileID == p)).length ≤
      (w.journal.rows.filter (·.profileID == p)).length + if p = r.profileID then 1 else 0)
    (versions : w.releases.journaled →
      ∀ row ∈ w'.journal.rows, row.version ≤ w'.releases.next row.profileID) :
    w'.Sound F := by
  have kept : ∀ x, x ∈ w'.states ↔ x ∈ w.states ∧ x ≠ r := by
    intro x
    rw [states, mem_filter, bne_iff_ne]
    exact and_congr_right fun hx => not_congr ⟨h.eq_of_id hx mem, congrArg CanaryRecord.id⟩
  have shorter : w'.states.length < w.states.length := by
    rw [states]
    exact length_filter_lt_length_iff_exists.mpr ⟨r, mem, by simp⟩
  have fewer : (ofProfile w'.states r.profileID).length <
      (ofProfile w.states r.profileID).length := by
    rw [ofProfile, states, filter_comm]
    exact length_filter_lt_length_iff_exists.mpr ⟨r, by simpa using mem, by simp⟩
  refine ⟨?_, ?_, fun x hx => h.resting x ((kept x).mp hx).1, ?_, fun x hx => ?_,
    fun x hx x' hx' => h.apart x ((kept x).mp hx).1 x' ((kept x').mp hx').1, fun x hx => ?_,
    fun x hx use => ?_, fun x hx => h.valid x ((kept x).mp hx).1, ?_, fun on x hx =>
    ?_, fun on => ?_⟩
  · exact canaries ▸ nodup_put h.ids same
  · rw [states, canaries, filter_put_of_not closed, h.states]
  · rw [journaled, restored]
    exact h.restored
  · obtain ⟨old, other⟩ := owned x hx
    obtain ⟨y, hy, rfl⟩ := h.owned x old
    refine ⟨y, (kept y).mpr ⟨hy, ?_⟩, rfl⟩
    rintro rfl
    simp [reservation] at other
  · obtain ⟨old, other⟩ := (kept x).mp hx
    rw [based x old other]
    exact h.based x old
  · obtain ⟨old, other⟩ := (kept x).mp hx
    exact h.unused x old (used x.id (fun eq => other (h.eq_of_id old mem eq)) use)
  · rw [room.2]
    have before := h.room (ne_nil_of_mem mem)
    omega
  · obtain ⟨old, other⟩ := (kept x).mp hx
    have before := h.history (journaled ▸ on) x old
    have more := rows x.profileID
    have less : (ofProfile w'.states x.profileID).length ≤
        (ofProfile w.states x.profileID).length := by
      rw [states]
      exact (filter_sublist.filter _).length_le
    split_ifs at more with profile
    · rw [profile] at before more less ⊢
      omega
    · omega
  · exact versions (journaled ▸ on)

/-! ## The calls -/

theorem validate_iff : validateCanaryRecord F r = .ok () ↔
    (runIDPattern r.id ∧ validNamespacedID r.profileID ∧
      (r.scope.depth != 0 && r.revision != .empty) ∧ (r.layer.profileID == r.profileID) ∧
      ((r.baseReleaseRevision == .empty && (r.status == .promoted || r.status == .rolledBack)) ||
        isHexDigest r.baseReleaseRevision) ∧ (F.layerRevision r.artifact == r.revision) ∧
      (1 ≤ r.basisPoints ∧ r.basisPoints ≤ 10000) ∧ r.gatePassed ∧ r.gateValid ∧
      (if r.status == .promoted then 1 ≤ r.releaseVersion else r.releaseVersion = 0) ∧
      runIDPattern r.candidateEvaluationRunID ∧
      (r.baselineEvaluationRunID == .empty || runIDPattern r.baselineEvaluationRunID)) := by
  simp only [validateCanaryRecord, bind_eq_ok, require_eq_ok, exists_const]

/-- Every change of a field keeps the artifact, and every update it commits is of a resting
canary or ends it. -/
theorem Sound.update (h : w.Sound F) (id : GoString) (c : Change) :
    (w.call F (.update id c)).Sound F := by
  simp only [call, CanaryManager.update]
  split
  · exact h
  next r' s' ok =>
    obtain ⟨r, found, rfl, done⟩ := Rollouts.updateCached_eq_ok ok
    have mem := mem_of_find?_eq_some found
    obtain rfl : r.id = id := by simpa using find?_some found
    have row := (h.mem_states.mp mem).1
    obtain ⟨valid, hit, rfl⟩ := Rollouts.updateCanary_eq_ok done
    have same : (c.apply r).id = r.id := by cases c <;> rfl
    have expects : r.status ∈ c.expected := by
      obtain ⟨x, hx, ids, expects⟩ := hit
      exact inj_on_of_nodup_map h.ids hx row (ids.trans same) ▸ expects
    rw [write_eq_put h.ids row expects same (by cases c <;> rfl)]
    split_ifs with back
    · obtain rfl := beq_iff_eq.mp back
      have closed : (Change.apply r .rollback).status.isOpen = false := rfl
      refine h.ended mem closed same rfl rfl rfl rfl rfl (fun x hx => ?_) (fun _ _ _ => rfl)
        (fun _ _ use => use) ⟨Nat.le_succ _, rfl⟩ (fun p => Nat.le_add_right _ _) h.versions
      obtain ⟨old, other⟩ := mem_filter.mp hx
      exact ⟨old, by simpa [Change.apply] using other⟩
    · refine h.replaced mem ?_ valid ?_ ?_ <;> cases c <;>
        simp_all [Change.apply, CanaryRecord.artifact,
        reservation, h.resting r mem]

/-- The release that promotes a canary. -/
def release (F : Fingerprints) (w : Rollout) (r : CanaryRecord) : ReleaseInfo :=
  newRelease F r.artifact (w.releases.next r.profileID + 1) r.id

section

variable (h : w.Sound F) (mem : r ∈ w.states)

include h mem

theorem Sound.profileID_artifact : r.artifact.profileID = r.profileID :=
  beq_iff_eq.mp (validate_iff.mp (h.valid r mem).1).2.2.2.1

theorem Sound.isHexDigest_base : isHexDigest r.baseReleaseRevision := by
  obtain ⟨-, -, -, -, base, -⟩ := validate_iff.mp (h.valid r mem).1
  rcases h.resting r mem with status | status <;> simpa [status] using base

theorem Sound.publishable : w.releases.publishable F (fun _ => false) w.journal
    r.artifact r.id r.baseReleaseRevision = .ok none := by
  obtain ⟨runID, namespaced, artifact, -⟩ := validate_iff.mp (h.valid r mem).1
  have nonempty : r.profileID ≠ .empty :=
    fun eq => by simp [eq, validNamespacedID, runIDPattern, GoString.empty] at namespaced
  have depth : r.artifact.scope.depth ≠ 0 := by
    simp only [and_eq_true, bne_iff_ne] at artifact
    exact artifact.1
  have locally : w.releases.releaseByOperation r.id = none := by
    rw [ReleaseManager.releaseByOperation, Option.map_eq_none_iff, find?_eq_none]
    intro x hx same
    obtain ⟨p, -, here⟩ := mem_flatMap.mp hx
    exact h.unused r mem (.inl ⟨p, x, here, beq_iff_eq.mp same⟩)
  have replay : w.releases.replayed F (fun _ => false) w.journal r.artifact r.id =
      .ok none := by
    have given : r.id ≠ .empty := fun eq => by simp [eq, runIDPattern, GoString.empty] at runID
    have journal : w.releases.journaled →
        w.journal.findReleaseByOperation r.id = none := fun on => by
      refine find?_eq_none.mpr fun x hx same => ?_
      exact h.unused r mem (.inr ⟨on, x, hx, beq_iff_eq.mp same⟩)
    simp only [ReleaseManager.replayed, beq_iff_eq, given, if_false, locally]
    cases on : w.releases.journaled with
    | false => rfl
    | true => simp [journal on, Faults.call, require, bind, Except.bind, pure, Except.pure]
  have free : w.releases.blocking r.profileID r.scope r.id
    r.baseReleaseRevision = none := by
    refine find?_eq_none.mpr fun x hx blocks => ?_
    obtain ⟨y, hy, rfl⟩ := h.owned x hx
    simp only [reservation, and_eq_true, beq_iff_eq] at blocks
    obtain rfl := h.apart y hy r mem blocks.1.1 blocks.1.2
    have hex := h.isHexDigest_base hy
    have given : y.baseReleaseRevision ≠ .empty := fun eq => by
      simp [eq, isHexDigest, GoString.empty, GoString.len] at hex
    simp [given] at blocks
  simp only [ReleaseManager.publishable, bind_eq_ok, require_eq_ok, exists_const,
    h.profileID_artifact mem]
  refine ⟨by simpa using nonempty, h.restored, by simpa using depth, none, replay, ?_⟩
  have scope : r.artifact.scope = r.scope := rfl
  simp only [scope, bind_eq_ok, h.based r mem, require_eq_ok, exists_const, Except.ok.injEq,
    exists_eq_left', free]
  simp [pure, Except.pure]

/-- The journal takes the release of an open canary. -/
theorem Sound.recordRelease (on : w.releases.journaled) :
    ∃ j', w.journal.recordRelease F (w.release F r) = .ok j' ∧
      j'.rows = w.journal.rows ++ [w.release F r] ∧
      j'.historyCap = w.journal.historyCap := by
  obtain ⟨runID, namespaced, -⟩ := validate_iff.mp (h.valid r mem).1
  refine ⟨⟨_, w.journal.revision + 1, _⟩, ?_, rfl, rfl⟩
  simp only [Journal.recordRelease, release, newRelease, h.profileID_artifact mem, bind_eq_ok,
    require_eq_ok, exists_const, pure_eq_ok]
  refine ⟨namespaced, by simp [runID], by simp [F.revision_ne], by simp, ?_, ?_, trivial⟩
  · have counted := h.history on r mem
    have one : 0 < (ofProfile w.states r.profileID).length :=
      length_pos_of_mem (mem_filter.mpr ⟨mem, by simp⟩)
    omega
  · refine all_eq_true.mpr fun row hrow => ?_
    have older := h.versions on row hrow
    have fresh : row.operationID ≠ r.id := fun eq => h.unused r mem (.inr ⟨on, row, hrow, eq⟩)
    refine and_eq_true_iff.mpr ⟨?_, by simp [fresh]⟩
    by_cases same : row.profileID = r.profileID
    · rw [same] at older
      have other : row.version ≠ w.releases.next r.profileID + 1 := by omega
      simp [other]
    · simp [same]

/-- The publication of an open canary succeeds, and adds at most its release to the journal. -/
theorem Sound.publish :
    ∃ profiles synced j', w.releases.profiles.mount r.artifact = .ok profiles ∧
      (∀ x ∈ j'.rows, x ∈ w.journal.rows ∨ x = w.release F r) ∧
      (∀ p, (j'.rows.filter (·.profileID == p)).length ≤
        (w.journal.rows.filter (·.profileID == p)).length +
        if p = r.profileID then 1 else 0) ∧
      j'.historyCap = w.journal.historyCap ∧
      w.releases.publishWithOperationAtBaseline F (fun _ => false) w.journal
        r.artifact r.id r.baseReleaseRevision =
        ({ w.releases.mounted profiles (w.release F r) r.artifact.key with
            syncedRevision := synced }, j', .ok (w.release F r)) := by
  have profile := h.profileID_artifact mem
  have fits : (w.releases.profiles.flat.length : ℤ) <
      registryCap w.releases.profiles.maxBindings := by
    have room := h.room (ne_nil_of_mem mem)
    have one := length_pos_of_mem mem
    omega
  have mount := ProfileRegistry.mount_eq_ok.mpr ⟨⟨(h.valid r mem).2, fits⟩, rfl⟩
  simp only [ReleaseManager.publishWithOperationAtBaseline, (validate_iff.mp (h.valid r mem).1).1,
    h.isHexDigest_base mem, Bool.not_true, false_eq_true, if_false, ReleaseManager.publish,
    h.publishable mem, profile, mount]
  cases on : w.releases.journaled with
  | false =>
    exact ⟨_, _, _, rfl, fun x hx => .inl hx, fun p => Nat.le_add_right _ _,
      rfl, by simp [release]; rfl⟩
  | true =>
    obtain ⟨j', recorded, rows, cap⟩ := h.recordRelease mem on
    rw [release] at recorded
    refine ⟨_, _, j', rfl, fun x hx => by simpa [rows] using hx, fun p => ?_, cap,
      by simp [Faults.call, require, bind, Except.bind, recorded, release]; rfl⟩
    rw [rows, filter_append, length_append]
    refine Nat.add_le_add_left ?_ _
    by_cases here : p = r.profileID
    · simp [release, newRelease, profile, here]
    · simp [release, newRelease, profile, here, Ne.symm here]

end

theorem put_put {a b : CanaryRecord} (same : a.id = id) :
    put (put rows id a) id b = put rows id b := by
  rw [put, put, put, map_map]
  refine map_congr_left fun row _ => ?_
  by_cases here : row.id = id <;> simp [here, same]

section

variable (h : w.Sound F) (mem : r ∈ w.states)

include h mem

/-- An open record passes its checks with another status and the version that goes with it. -/
theorem Sound.valid_as {status : CanaryStatus} {version : ℕ}
    (fits : if status == .promoted then 1 ≤ version else version = 0) :
    validateCanaryRecord F { r with status, releaseVersion := version } = .ok () := by
  obtain ⟨a, b, c, d, -, f, g, i, j, -, k, l⟩ := validate_iff.mp (h.valid r mem).1
  exact validate_iff.mpr ⟨a, b, c, d, by simp [h.isHexDigest_base mem], f, g, i, j, fits, k, l⟩

/-- The first write of a promotion. -/
theorem Sound.beginPromotion : beginPromotion F w.store r =
    .ok (r.asPromoting, w.bump (put w.canaries r.id r.asPromoting)) := by
  have version : r.releaseVersion = 0 := by
    have checked := (validate_iff.mp (h.valid r mem).1).2.2.2.2.2.2.2.2.2.1
    rcases h.resting r mem with eq | eq <;> simpa [eq] using checked
  have fits : validateCanaryRecord F r.asPromoting = .ok () := h.valid_as mem (by simp [version])
  rw [Control.beginPromotion, updateCanary_put fits h.ids (h.mem_states.mp mem).1
    (mem_singleton.mpr rfl) rfl rfl]
  rfl

/-- The second write, behind the publication. -/
theorem Sound.finishPromotion (j : Journal) :
    let s : Store := { w.bump (put w.canaries r.id r.asPromoting) with journal := j }
    let out := r.asPromoting.promotedAs (w.release F r).version
    s.updateCanary F out [.promoting] = .ok (some (s.bump (put w.canaries r.id out))) := by
  intro s out
  have fits : validateCanaryRecord F out = .ok () :=
    h.valid_as mem (by simp [release, newRelease])
  have unique : (s.canaries.map (·.id)).Nodup := nodup_put (r := r.asPromoting) h.ids rfl
  have there : r.asPromoting ∈ s.canaries :=
    mem_put.mpr (.inr ⟨rfl, r, (h.mem_states.mp mem).1, rfl⟩)
  have expects : r.asPromoting.status ∈ [CanaryStatus.promoting] := mem_singleton.mpr rfl
  rw [updateCanary_put fits unique there expects rfl rfl]
  exact congrArg (fun rows => Except.ok (some (s.bump rows))) (put_put rfl)

/-- What a promotion does, with the releases and the journal of the publication. -/
theorem Sound.promote_eq {releases : ReleaseManager} {j : Journal}
    (published : w.releases.publishWithOperationAtBaseline F (fun _ => false)
      (w.bump w.canaries).journal r.artifact r.id r.baseReleaseRevision =
        (releases, j, .ok (w.release F r))) :
    let out := r.asPromoting.promotedAs (w.release F r).version
    w.promote F w.store r.id =
      (⟨(releases.unreserve r.profileID r.id).unreserve r.profileID r.id,
        w.states.filter (·.id != r.id), w.restored⟩,
        { w.bump (put w.canaries r.id r.asPromoting) with journal := j }.bump
          (put w.canaries r.id out), .ok out) := by
  intro out
  have resting : (r.status == .active || r.status == .paused) := by
    simpa using h.resting r mem
  have verified : w.releases.verifyBaseline F r.profileID r.scope r.baseReleaseRevision =
      .ok () := by
    simp [ReleaseManager.verifyBaseline, h.based r mem, require, bind, Except.bind]
  have reconciled : reconcilePromotion F
      { w.manager with states := w.setState r.id r.asPromoting }
      (w.bump (put w.canaries r.id r.asPromoting)) r.asPromoting =
      (⟨releases.unreserve r.profileID r.id, w.setState r.id r.asPromoting,
        w.restored⟩,
        { w.bump (put w.canaries r.id r.asPromoting) with journal := j }.bump
          (put w.canaries r.id out), .ok out) := by
    rw [reconcilePromotion]
    erw [published]
    simp only
    erw [h.finishPromotion mem j]
    rfl
  simp only [CanaryManager.promote, h.find mem, resting, if_true, verified, Except.mapError, bind,
    Except.bind, h.beginPromotion mem, CanaryManager.finishPromotion, reconciled]
  have left : (put w.states r.id r.asPromoting).filter (·.id != r.id) =
      w.states.filter (·.id != r.id) := by
    rw [filter_put_of_not (by simp [asPromoting]), filter_filter]
    simp
  rw [← left]
  rfl

/-- **Every open canary can be promoted**, and the promotion ends it. -/
theorem Sound.promote : (∃ out, (w.promote F w.store r.id).2.2 = .ok out) ∧
    (w.call F (.promote r.id)).Sound F := by
  -- the publication sees the store after the first write
  have h₁ : Sound F ⟨w.manager, w.bump w.canaries⟩ := { h with }
  obtain ⟨profiles, synced, j, mount, rows, count, cap, published⟩ := h₁.publish mem
  rw [show release F ⟨w.manager, w.bump w.canaries⟩ r = w.release F r from rfl]
    at rows published
  have result := h.promote_eq mem published
  refine ⟨⟨_, by rw [result]⟩, ?_⟩
  simp only [call, result]
  have profileOf : (w.release F r).profileID = r.profileID := h.profileID_artifact mem
  have closed : (r.asPromoting.promotedAs (w.release F r).version).status.isOpen = false := rfl
  refine h.ended mem closed rfl rfl rfl cap rfl rfl (fun x hx => ?_) (fun x hx other => ?_)
    (fun id other use => ?_) ?_ count (fun on x hx => ?_)
  · obtain ⟨old, other⟩ := mem_filter.mp (mem_filter.mp hx).1
    exact ⟨old, by simpa using other⟩
  · simp only [baselineRevision, ReleaseManager.unreserve,
      ReleaseManager.mounted, Function.update_apply, profileOf]
    split_ifs with same
    · have apart : scopesOverlap x.scope (w.release F r).scope = false := by
        by_contra overlap
        exact other (h.apart x hx r mem same (not_eq_false _ ▸ overlap))
      rw [filter_append, same]
      simp [apart]
    · rfl
  · rcases use with ⟨p, x, hx, rfl⟩ | ⟨on, x, hx, rfl⟩
    · have hx' : x ∈ Function.update w.releases.releases (w.release F r).profileID _ p := hx
      rw [Function.update_apply] at hx'
      split_ifs at hx' with here
      · rcases mem_append.mp hx' with old | new
        · exact .inl ⟨_, x, old, rfl⟩
        · exact absurd (congrArg (·.operationID) (mem_singleton.mp new)) other
      · exact .inl ⟨p, x, hx', rfl⟩
    · rcases rows x hx with old | new
      · exact .inr ⟨on, x, old, rfl⟩
      · exact absurd (congrArg (·.operationID) new) other
  · have grown := ProfileRegistry.room_of_mount mount
    exact ⟨grown.1.le, grown.2⟩
  · show x.version ≤ Function.update w.releases.next (w.release F r).profileID _ x.profileID
    rw [Function.update_apply]
    rcases rows x hx with old | rfl
    · have below := h.versions on x old
      split_ifs with here
      · rw [here, profileOf] at below
        exact below.trans (Nat.le_succ _)
      · exact below
    · exact (if_pos rfl).ge

end

/-- Fewer reservations do not matter. -/
theorem Sound.withReserved (h : w.Sound F) {reserved : List Reservation}
    (fewer : ∀ x ∈ reserved, x ∈ w.releases.reserved) :
    Sound F ⟨{ w.manager with releases := { w.releases with reserved } }, w.store⟩ :=
  { h with owned := fun x hx => h.owned x (fewer x hx) }

/-- A successful reservation. -/
theorem reserve_eq_ok {m m' : ReleaseManager} {layer : AgentProfileLayer}
    {owner expected : GoString}
    (ok : m.reserve F layer owner expected = .ok m') :
    ∃ current, m.baselineRevision F layer.profileID layer.scope = .ok current ∧
      (expected = .empty ∨ current = expected) ∧ validateProfileLayer layer = .ok () ∧
      ∃ reserved, m' = { m with reserved } ∧ ∀ x ∈ reserved, x ∈ m.reserved ∨
        x = ⟨owner, layer.profileID, layer.scope, current, F.layerRevision layer⟩ := by
  simp only [ReleaseManager.reserve, bind_eq_ok, require_eq_ok, mapError_eq_ok, exists_const] at ok
  obtain ⟨-, -, current, based, drift, _, mount, ok⟩ := ok
  refine ⟨current, based, by simpa using drift, (ProfileRegistry.mount_eq_ok.mp mount).1.1, ?_⟩
  split at ok
  · simp only [bind_eq_ok, require_eq_ok, pure_eq_ok, exists_const] at ok
    exact ⟨m.reserved, ok.2.symm, fun x hx => .inl hx⟩
  · exact ⟨_, (pure_eq_ok.mp ok).symm, fun x hx => by simpa using hx⟩

/-- What `Stage` has checked before it calls the store. -/
theorem stageable_eq_ok {m : CanaryManager} {releases : ReleaseManager}
    (ok : m.stageable F r = .ok (r', releases)) :
    (r'.status = .active ∧ r'.id = r.id ∧ r'.profileID = r.profileID ∧ r'.scope = r.scope) ∧
      m.releases.baselineRevision F r'.profileID r'.scope = .ok r'.baseReleaseRevision ∧
      validateProfileLayer r'.artifact = .ok () ∧
      ∃ reserved, releases = { m.releases with reserved } ∧
        ∀ x ∈ reserved, x ∈ m.releases.reserved ∨ x = r'.reservation := by
  simp only [stageable, bind_eq_ok, require_eq_ok, exists_const] at ok
  obtain ⟨-, active, -, ok⟩ := ok
  split at ok
  · simp at ok
  simp only [bind_eq_ok, pure_eq_ok, Prod.mk.injEq] at ok
  obtain ⟨base, chosen, _, built, rfl, rfl⟩ := ok
  simp only [buildState, bind_eq_ok, require_eq_ok, mapError_eq_ok, exists_const] at built
  obtain ⟨-, profile, revision, reserved⟩ := built
  obtain ⟨current, based, drift, valid, list, rfl, from'⟩ := reserve_eq_ok reserved
  simp only [beq_iff_eq] at profile revision
  have given : base ≠ .empty := by
    simp only [stagedBase] at chosen
    split_ifs at chosen with empty
    · simp only [mapError_eq_ok, baselineRevision, bind_eq_ok, require_eq_ok, pure_eq_ok,
        exists_const] at chosen
      obtain ⟨-, -, rfl⟩ := chosen
      intro eq
      have hex := F.hex (((m.releases.releases r.profileID).filter fun x =>
        scopesOverlap r.scope x.scope).map (·.toReleaseInfo.baseline))
      rw [eq] at hex
      simp [isHexDigest, GoString.empty, GoString.len] at hex
    · obtain rfl := Except.ok.inj chosen
      simpa using empty
  obtain rfl := drift.resolve_left given
  have profile' : (CanaryRecord.artifact { r with baseReleaseRevision := current }).profileID =
      r.profileID := profile
  refine ⟨⟨by simpa using (and_eq_true_iff.mp active).1, rfl, rfl, rfl⟩, profile' ▸ based, valid,
    list, rfl, ?_⟩
  intro x hx
  refine (from' x hx).imp_right fun eq => ?_
  rw [eq, profile', revision]
  rfl

theorem scopesOverlap_comm (a b : ScopePath) : scopesOverlap a b = scopesOverlap b a :=
  Bool.or_comm ..

/-- A clear canary can be staged, or the call fails. -/
theorem Sound.stage (h : w.Sound F) (clear : w.Clear (.stage r)) :
    (w.call F (.stage r)).Sound F := by
  simp only [call, CanaryManager.stage]
  split
  · exact h
  next r' releases ok =>
    obtain ⟨⟨active, sameID, sameProfile, sameScope⟩, based, layerValid, reserved, rfl, list⟩ :=
      stageable_eq_ok ok
    split
    next =>
      refine h.withReserved fun x hx => ?_
      obtain ⟨mem, kept⟩ := mem_filter.mp hx
      refine (list x mem).resolve_right fun eq => ?_
      simp [eq, reservation] at kept
    next s' created =>
      simp only [Store.createCanary, bind_eq_ok, require_eq_ok, pure_eq_ok, exists_const] at created
      obtain ⟨_, valid, -, fresh, rfl⟩ := created
      obtain ⟨apart, unused, room, history⟩ := clear
      rw [← sameID] at unused
      rw [← sameProfile] at history apart
      rw [← sameScope] at apart
      have new : ∀ x ∈ w.canaries, x.id ≠ r'.id := fun x hx => by
        simpa using all_eq_true.mp fresh x hx
      have cases : ∀ {P : CanaryRecord → Prop}, (∀ x ∈ w.states, P x) → P r' →
          ∀ x ∈ w.states ++ [r'], P x := fun old last x hx => by
        rcases mem_append.mp hx with mem | mem
        · exact old x mem
        · exact mem_singleton.mp mem ▸ last
      refine ⟨?_, ?_, cases h.resting (.inl active), h.restored, fun x hx => ?_, ?_,
        cases h.based based, cases h.unused unused, cases h.valid ⟨valid, layerValid⟩, ?_,
        fun on => ?_, h.versions⟩
      · show ((w.canaries ++ [r']).map (·.id)).Nodup
        simp only [map_append, nodup_append, h.ids]
        simpa using new
      · show w.states ++ [r'] = (w.canaries ++ [r']).filter (·.status.isOpen)
        simp [h.states, active, CanaryStatus.isOpen]
      · rcases list x hx with old | rfl
        · obtain ⟨y, hy, rfl⟩ := h.owned x old
          exact ⟨y, mem_append_left _ hy, rfl⟩
        · exact ⟨r', mem_append_right _ (mem_singleton.mpr rfl), rfl⟩
      · refine cases (fun x hx => cases (h.apart x hx) fun same overlap => ?_)
          (cases (fun x hx same overlap => ?_) fun _ _ => rfl)
        · simp [apart x hx same] at overlap
        · rw [scopesOverlap_comm, apart x hx same.symm] at overlap
          simp at overlap
      · intro _
        show _ + (((w.states ++ [r']).length : ℕ) : ℤ) ≤ _
        simpa [add_assoc] using room
      · have count : ∀ p, (ofProfile (w.states ++ [r']) p).length =
            (ofProfile w.states p).length + if r'.profileID = p then 1 else 0 := fun p => by
          rw [ofProfile, filter_append, length_append, ofProfile]
          by_cases here : r'.profileID = p <;> simp [here]
        have own := history on
        refine cases (fun x hx => ?_) ?_
        · show _ + (ofProfile (w.states ++ [r']) x.profileID).length ≤ _
          rw [count]
          split_ifs with same
          · rw [← same, ← add_assoc]
            exact own
          · exact h.history on x hx
        · show _ + (ofProfile (w.states ++ [r']) r'.profileID).length ≤ _
          rw [count, if_pos rfl, ← add_assoc]
          exact own

theorem sound_of_reachable (reach : ((system F).restrict Clear).Reachable w) : w.Sound F := by
  refine System.Invariant.holds (P := Sound F) ⟨?_, ?_⟩ reach
  · rintro s ⟨none, free, ids, closed, journal⟩
    refine ⟨ids, ?_, ?_, ?_, by simp [free], ?_, ?_, ?_, ?_, fun some => absurd none some, ?_,
      fun on => (journal on).2⟩ <;> try simp [none]
    · simpa using closed
    · cases on : s.releases.journaled with
      | false => exact .inl rfl
      | true => exact .inr (journal on).1
  · rintro s c s' h ⟨clear, rfl⟩
    cases c with
    | stage r => exact h.stage clear
    | update id c => exact h.update id c
    | promote id =>
      by_cases known : ∃ r ∈ s.states, r.id = id
      · obtain ⟨r, mem, rfl⟩ := known
        exact (h.promote mem).2
      · have missing : s.states.find? (·.id == id) = none := by
          simpa [find?_eq_none] using known
        simp only [call, CanaryManager.promote, missing]
        split
        · exact h
        next r found =>
          split_ifs with done pending
          · exact h
          · exact h
          · refine absurd ?_ known
            have row : s.canaries.find? (·.id == id) = some r := by
              simp only [Store.getCanary] at found
              split at found
              next x eq => exact Except.ok.inj found ▸ eq
              next => simp at found
            refine ⟨r, h.mem_states.mpr ⟨mem_of_find?_eq_some row, ?_⟩,
              by simpa using find?_some row⟩
            simp [CanaryStatus.isOpen, show r.status = .promoting by simpa using pending]

/-- **In every run whose staged canaries are all clear, every open canary can be promoted
and none is left promoting.** -/
theorem canary_ends (reach : ((system F).restrict Clear).Reachable w) :
    ∀ r ∈ w.canaries, r.status.isOpen = true →
      (∃ out, (w.promote F w.store r.id).2.2 = .ok out) ∧ r.status ≠ .promoting := by
  intro r row isOpen
  have h := sound_of_reachable reach
  have mem := h.mem_states.mpr ⟨row, isOpen⟩
  refine ⟨(h.promote mem).1, fun eq => ?_⟩
  rcases h.resting r mem with status | status <;> simp [status] at eq

/-! Two canaries of one profile, the second at a scope below that of the first. -/

/-- A restored manager over an empty journal. -/
def emptyRollout : Rollout :=
  ⟨⟨ReleaseManager.restoredEmpty, [], true⟩, ⟨⟨[], 0, 64⟩, [], 64⟩⟩

def exampleBelow : CanaryRecord :=
  { exampleCanary with id := go "canary2", scope := exampleTenant }

theorem emptyRollout_fresh : emptyRollout.Fresh := by
  refine ⟨rfl, rfl, nodup_nil, fun _ mem => absurd mem not_mem_nil, fun _ => ⟨rfl, ?_⟩⟩
  exact fun _ mem => absurd mem not_mem_nil

theorem exampleCanary_clear : emptyRollout.Clear (.stage exampleCanary) := by
  refine ⟨fun _ mem => absurd mem not_mem_nil, ?_, by decide, fun _ => by decide⟩
  rintro (⟨_, _, mem, _⟩ | ⟨_, _, mem, _⟩) <;> exact absurd mem not_mem_nil

/-- The theorem on a run with one canary. -/
theorem canary_ends_exampleCanary :
    (emptyRollout.call blind (.stage exampleCanary)).canaries.length = 1 ∧
    ∀ r ∈ (emptyRollout.call blind (.stage exampleCanary)).canaries,
      r.status.isOpen = true → (∃ out,
        ((emptyRollout.call blind (.stage exampleCanary)).promote blind
          (emptyRollout.call blind (.stage exampleCanary)).store r.id).2.2 =
            .ok out) ∧ r.status ≠ .promoting :=
  ⟨by decide, canary_ends (.step (.init emptyRollout_fresh) ⟨exampleCanary_clear, rfl⟩)⟩

/-- Some open canary can be neither promoted nor rolled back. -/
def stuck (F : Fingerprints) (w : Rollout) : Bool :=
  w.canaries.any fun r => r.status == .promoting &&
    !(w.promote F w.store r.id).2.2.isOk &&
    !(w.update F w.store r.id .rollback).2.2.isOk

/-- Promoting the upper canary fails after it was moved to promoting, and it stays there. -/
theorem exists_stuck : ∃ w, (system blind).Reachable w ∧ stuck blind w = true :=
  System.exists_of_run (f := fun w c => some (w.call blind c))
    (fun _ _ _ h => some.inj h) emptyRollout_fresh _
    [.stage exampleCanary, .stage exampleBelow, .promote exampleCanary.id] (by decide)

end Rollout

end AutoAgent.Control
