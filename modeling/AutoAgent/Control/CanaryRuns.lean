import AutoAgent.Control.Canary
import AutoAgent.Control.ReleaseRuns

/-!
# Several canary managers on one store

Each step is one call of the store by one of the managers, or a change of a manager's own
copies.  A record that is listed or adopted may be old by the time it is used.

**Which updates are lost.**  The store compares the status a call expects and then writes
status, basis points and release version of the caller's copy.  A call keeps the fields it
does not name exactly when the copy agrees with the stored row in those fields
(`step_keeps_iff`); the end of a promotion needs no condition, because a promoting row is
changed by nobody else.
-/

namespace AutoAgent.Control

open List ReleaseManager Store
open Function (update update_apply)

/-- A store with the copies of each manager, and what a running `Refresh` or `Restore` has
listed. -/
structure Rollouts (ι : Type) extends store : Store where
  states : ι → GoString → Option CanaryRecord
  listed : ι → List CanaryRecord

inductive Step (ι : Type) where
  /-- `Stage` creates the record. -/
  | stage (i : ι) (r : CanaryRecord)
  /-- `SetBasisPoints`, `Pause`, `Resume` or `Rollback`. -/
  | change (i : ι) (id : GoString) (c : Change)
  /-- `Promote` moves its copy to promoting. -/
  | promote (i : ι) (id : GoString)
  /-- `Promote` takes over a promoting record it has no copy of. -/
  | adopt (i : ι) (id : GoString)
  /-- `reconcilePromotion` ends a promotion. -/
  | finish (i : ι) (r : CanaryRecord) (version : ℕ)
  /-- `Refresh` or `Restore` lists the open records. -/
  | list (i : ι)
  /-- `Refresh` or `Restore` replaces the copies. -/
  | install (i : ι)
  /-- A copy is dropped. -/
  | forget (i : ι) (id : GoString)
  deriving DecidableEq

namespace Rollouts

variable {ι : Type} {F : Fingerprints} {w w' : Rollouts ι} {l : Step ι} [DecidableEq ι]

/-- The copies with one of them replaced. -/
def setState (w : Rollouts ι) (i : ι) (id : GoString) (r : Option CanaryRecord) :
    ι → GoString → Option CanaryRecord :=
  update w.states i (update (w.states i) id r)

/-- What a step does; a call that fails takes no step. -/
def next (F : Fingerprints) (w : Rollouts ι) : Step ι → Option (Rollouts ι)
  | .stage i r =>
    if r.status ≠ .active then none else
    (w.createCanary F r).toOption.map fun store =>
      { w with store, states := w.setState i r.id (some r) }
  | .change i id c =>
    (updateCached F w.store (w.states i id) id c).toOption.map fun (r, store) =>
      { w with store, states := w.setState i id (some r) }
  | .promote i id => do
      let r ← w.states i id
      if r.status = .active ∨ r.status = .paused then
        (beginPromotion F w.store r).toOption.map fun (r, store) =>
          { w with store, states := w.setState i id (some r) }
      else none
  | .adopt i id =>
    match w.getCanary id with
    | .ok r => if r.status = .promoting then
        some { w with states := w.setState i id (some r) } else none
    | .error _ => none
  | .finish i r version =>
    if r.status = .promoting ∧ (w.states i r.id = some r ∨ r ∈ w.listed i) then
      ((w.updateCanary F (r.promotedAs version) [.promoting]).toOption.bind fun s => s).map
        fun store => { w with store }
    else none
  | .list i => some { w with listed := update w.listed i w.listOpenCanaries }
  | .install i => some { w with
      states := update w.states i fun id => (w.listed i).find? fun r =>
        r.id == id && (r.status == .active || r.status == .paused)
      listed := update w.listed i [] }
  | .forget i id => some { w with states := w.setState i id none }

/-- Managers that start without copies on a store with one row for each id. -/
def system (ι : Type) [DecidableEq ι] (F : Fingerprints) : System (Rollouts ι) (Step ι) where
  init w := (w.canaries.map (·.id)).Nodup ∧ (∀ i id, w.states i id = none) ∧
    ∀ i, w.listed i = []
  step w l w' := w.next F l = some w'

def setsBasisPoints : Step ι → Bool
  | .change _ _ (.basisPoints _) => true
  | _ => false

/-- The copy that a call writes from, and the statuses it expects in the store. -/
def copy (w : Rollouts ι) : Step ι → Option (CanaryRecord × List CanaryStatus)
  | .change i id c => (w.states i id).map (·, c.expected)
  | .promote i id => (w.states i id).map fun r => (r, [r.status])
  | _ => none

/-- The copy a call leaves behind. -/
def written (w : Rollouts ι) : Step ι → Option CanaryRecord
  | .stage _ r => some r
  | .change i id c => (w.states i id).map c.apply
  | .promote i id => (w.states i id).map CanaryRecord.asPromoting
  | _ => none

/-- The copy agrees with the row it will overwrite in the field the call does not name. -/
def Current (w : Rollouts ι) (l : Step ι) : Prop :=
  ∀ r expected, w.copy l = some (r, expected) → ∀ row ∈ w.canaries, row.id = r.id →
    row.status ∈ expected →
      if setsBasisPoints l then row.status = r.status else row.basisPoints = r.basisPoints

/-- A row after a step: a call keeps the field it does not name, and nothing changes a
canary that has ended. -/
def Kept (l : Step ι) (row row' : CanaryRecord) : Prop :=
  (if setsBasisPoints l then row'.status = row.status else row'.basisPoints = row.basisPoints) ∧
  (row.status.isOpen = false → row' = row)

/-- The rows after an update. -/
def write (rows : List CanaryRecord) (r : CanaryRecord) (expected : List CanaryStatus) :
    List CanaryRecord :=
  rows.map fun row => if row.id == r.id && expected.contains row.status then overwrite row r
    else row

variable {expected : List CanaryStatus} {r : CanaryRecord} {s s' : Store}

theorem updateCanary_eq_ok (ok : s.updateCanary F r expected = .ok (some s')) :
    validateCanaryRecord F r = .ok () ∧
    (∃ row ∈ s.canaries, row.id = r.id ∧ row.status ∈ expected) ∧
    s' = s.bump (write s.canaries r expected) := by
  simp only [updateCanary, bind_eq_ok, pure_eq_ok] at ok
  obtain ⟨_, valid, eq⟩ := ok
  split_ifs at eq with hit
  cases eq
  exact ⟨valid, by simpa using hit, rfl⟩

theorem updateCached_eq_ok {cached : Option CanaryRecord} {id : GoString} {c : Change}
    {r' : CanaryRecord} (ok : updateCached F s cached id c = .ok (r', s')) :
    ∃ r, cached = some r ∧ c.apply r = r' ∧ s.updateCanary F r' c.expected = .ok (some s') := by
  simp only [updateCached, bind_eq_ok] at ok
  obtain ⟨_, -, ok⟩ := ok
  cases cached with
  | none => simp at ok
  | some r =>
    obtain ⟨_ | s, done, ok⟩ := bind_eq_ok.mp ok
    · simp at ok
    · obtain ⟨rfl, rfl⟩ : c.apply r = r' ∧ s = s' := by simpa [pure_eq_ok] using ok
      exact ⟨r, rfl, rfl, done⟩

theorem beginPromotion_eq_ok {r r' : CanaryRecord} (ok : beginPromotion F s r = .ok (r', s')) :
    r.asPromoting = r' ∧ s.updateCanary F r' [r.status] = .ok (some s') := by
  obtain ⟨_ | s, done, ok⟩ := bind_eq_ok.mp ok
  · simp at ok
  · obtain ⟨rfl, rfl⟩ : r.asPromoting = r' ∧ s = s' := by simpa [pure_eq_ok] using ok
    exact ⟨rfl, done⟩

/-- The four things a step can do to the rows. -/
inductive Effect (w : Rollouts ι) (l : Step ι) : List CanaryRecord → Prop where
  | none (reads : w.copy l = Option.none) (writes : w.written l = Option.none) : Effect w l
      w.canaries
  | created (i : ι) (r : CanaryRecord) (eq : l = .stage i r) (active : r.status = .active)
      (fresh : ∀ row ∈ w.canaries, row.id ≠ r.id) : Effect w l (w.canaries ++ [r])
  | written (r r' : CanaryRecord) (expected : List CanaryStatus)
      (from' : w.copy l = some (r, expected)) (leaves : w.written l = some r') (same : r'.id = r.id)
      (named : if setsBasisPoints l then r'.status = r.status else r'.basisPoints = r.basisPoints)
      (held : ∀ status ∈ expected, status = .active ∨ status = .paused)
      (hit : ∃ row ∈ w.canaries, row.id = r'.id ∧ row.status ∈ expected) :
      Effect w l (write w.canaries r' expected)
  | finished (i : ι) (r : CanaryRecord) (version : ℕ) (eq : l = .finish i r version)
      (promoting : r.status = .promoting) (known : w.states i r.id = some r ∨ r ∈ w.listed i) :
      Effect w l (write w.canaries (r.promotedAs version) [.promoting])

theorem effect_of_next (step : w.next F l = some w') : Effect w l w'.canaries := by
  cases l with
  | stage i r =>
    simp only [next] at step
    split_ifs at step with active
    obtain ⟨store, ok, rfl⟩ := map_eq_some_iff.mp step
    simp only [toOption_eq_some, createCanary, bind_eq_ok, pure_eq_ok, require_eq_ok,
      exists_const] at ok
    obtain ⟨_, -, -, fresh, rfl⟩ := ok
    exact .created i r rfl (not_not.mp active) fun row mem => by
      simpa using all_eq_true.mp fresh row mem
  | change i id c =>
    obtain ⟨⟨r', store⟩, ok, rfl⟩ := map_eq_some_iff.mp step
    obtain ⟨r, cached, rfl, done⟩ := updateCached_eq_ok (toOption_eq_some.mp ok)
    obtain ⟨-, hit, rfl⟩ := updateCanary_eq_ok done
    refine .written r _ c.expected (by simp [copy, cached]) (by simp [written, cached]) ?_ ?_ ?_
      hit <;> cases c <;> simp [Change.apply, setsBasisPoints, Change.expected]
  | promote i id =>
    simp only [next, bind_eq_bind, bind_eq_some_iff] at step
    obtain ⟨r, cached, step⟩ := step
    split_ifs at step with status
    obtain ⟨⟨r', store⟩, ok, rfl⟩ := map_eq_some_iff.mp step
    obtain ⟨rfl, done⟩ := beginPromotion_eq_ok (toOption_eq_some.mp ok)
    obtain ⟨-, hit, rfl⟩ := updateCanary_eq_ok done
    exact .written r _ [r.status] (by simp [copy, cached]) (by simp [written, cached]) rfl
      (by simp [setsBasisPoints, CanaryRecord.asPromoting]) (by simpa using status) hit
  | adopt i id =>
    simp only [next] at step
    split at step
    · split_ifs at step
      cases step
      exact .none rfl rfl
    · simp at step
  | finish i r version =>
    simp only [next] at step
    split_ifs at step with use
    obtain ⟨store, ok, rfl⟩ := map_eq_some_iff.mp step
    obtain ⟨_, done, rfl⟩ := bind_eq_some_iff.mp ok
    obtain ⟨-, -, rfl⟩ := updateCanary_eq_ok (toOption_eq_some.mp done)
    exact .finished i r version rfl use.1 use.2
  | list i => cases step; exact .none rfl rfl
  | install i => cases step; exact .none rfl rfl
  | forget i id => cases step; exact .none rfl rfl

/-! ## Promoting rows -/

/-- A copy of some manager. -/
def Held (w : Rollouts ι) (r : CanaryRecord) : Prop :=
  ∃ i, (∃ id, w.states i id = some r) ∨ r ∈ w.listed i

/-- There is one row for each id, and the row of a promoting copy is promoted or promoting
with the basis points of the copy. -/
structure Sound (w : Rollouts ι) : Prop where
  ids : (w.canaries.map (·.id)).Nodup
  promoting : ∀ r, w.Held r → r.status = .promoting → ∃ row ∈ w.canaries, row.id = r.id ∧
    (row.status = .promoted ∨ row.status = .promoting ∧ row.basisPoints = r.basisPoints)

omit [DecidableEq ι] in
theorem Sound.eq_of_id (h : w.Sound) {a b : CanaryRecord} (ha : a ∈ w.canaries)
    (hb : b ∈ w.canaries) (same : a.id = b.id) : a = b :=
  inj_on_of_nodup_map h.ids ha hb same

variable {rows : List CanaryRecord}

theorem mem_write {r row : CanaryRecord} (mem : row ∈ rows) :
    (if row.id == r.id && expected.contains row.status then
      overwrite row r else row) ∈ write rows r expected :=
  mem_map.mpr ⟨row, mem, rfl⟩

omit [DecidableEq ι] in
/-- A step leaves promoting and promoted rows alone, but for the end of a promotion. -/
theorem Effect.keeps (effect : Effect w l rows) {row : CanaryRecord} (mem : row ∈ w.canaries)
    (late : row.status = .promoted ∨ row.status = .promoting) :
    ∃ row' ∈ rows, row'.id = row.id ∧ (row'.status = .promoted ∨ row' = row) := by
  cases effect with
  | none => exact ⟨row, mem, rfl, .inr rfl⟩
  | created i r => exact ⟨row, mem_append_left _ mem, rfl, .inr rfl⟩
  | written r r' expected _ _ _ _ held =>
    have missed : row.status ∉ expected := fun expects => by
      rcases held _ expects with h | h <;> rcases late with h' | h' <;> simp [h] at h'
    refine ⟨_, mem_write mem, ?_, .inr ?_⟩ <;> simp [missed]
  | finished i r version =>
    refine ⟨_, mem_write mem, ?_, ?_⟩ <;> split_ifs <;>
      simp [overwrite, CanaryRecord.promotedAs]

omit [DecidableEq ι] in
theorem Effect.ids (effect : Effect w l rows) (h : (w.canaries.map (·.id)).Nodup) :
    (rows.map (·.id)).Nodup := by
  have same : ∀ r expected, (write w.canaries r expected).map (·.id) =
      w.canaries.map (·.id) := fun r expected => by
    rw [write, map_map]
    refine map_congr_left fun row _ => ?_
    simp only [comp_apply]
    split_ifs <;> rfl
  cases effect with
  | none => exact h
  | created i r _ _ fresh =>
    simp only [map_append, nodup_append, h]
    simpa using fresh
  | written | finished => rwa [same]

omit [DecidableEq ι] in
/-- The row of a copy that a call leaves behind promoting. -/
theorem Effect.fresh (effect : Effect w l rows) (leaves : w.written l = some r)
    (promoting : r.status = .promoting) :
    ∃ row ∈ rows, row.id = r.id ∧ row.status = .promoting ∧ row.basisPoints = r.basisPoints := by
  cases effect with
  | none _ writes => simp [writes] at leaves
  | created i r' eq active =>
    obtain rfl : r' = r := by simpa [eq, Rollouts.written] using leaves
    simp [active] at promoting
  | written r₀ r' expected _ writes _ _ _ hit =>
    obtain rfl : r' = r := some.inj (writes.symm.trans leaves)
    obtain ⟨row, mem, same, expects⟩ := hit
    refine ⟨_, mem_write mem, ?_⟩
    simp [same, expects, overwrite, promoting]
  | finished i r' version eq => simp [eq, Rollouts.written] at leaves

/-- Where the copies of a step come from. -/
theorem held_of_next (step : w.next F l = some w') (held : w'.Held r) :
    w.Held r ∨ r ∈ w.canaries ∨ w.written l = some r := by
  -- One copy was replaced, or those of one manager were.
  have set : ∀ {store i id new}, Held { w with store, states := w.setState i id new } r →
      w.Held r ∨ new = some r := by
    rintro store i id new ⟨k, ⟨id', cached⟩ | listed⟩
    · by_cases here : k = i
      · subst here
        simp only [setState, Function.update_self, update_apply] at cached
        split_ifs at cached
        · exact .inr cached
        · exact .inl ⟨k, .inl ⟨id', cached⟩⟩
      · exact .inl ⟨k, .inl ⟨id', by simpa [setState, here] using cached⟩⟩
    · exact .inl ⟨k, .inr listed⟩
  cases l with
  | stage i r' =>
    simp only [next] at step
    split_ifs at step
    obtain ⟨store, -, rfl⟩ := map_eq_some_iff.mp step
    exact (set held).imp_right .inr
  | change i id c =>
    obtain ⟨⟨r', store⟩, ok, rfl⟩ := map_eq_some_iff.mp step
    obtain ⟨r₀, cached, rfl, -⟩ := updateCached_eq_ok (toOption_eq_some.mp ok)
    exact (set held).imp_right fun eq => .inr (by simpa [written, cached] using eq)
  | promote i id =>
    simp only [next, bind_eq_bind, bind_eq_some_iff] at step
    obtain ⟨r₀, cached, step⟩ := step
    split_ifs at step
    obtain ⟨⟨r', store⟩, ok, rfl⟩ := map_eq_some_iff.mp step
    obtain ⟨rfl, -⟩ := beginPromotion_eq_ok (toOption_eq_some.mp ok)
    exact (set held).imp_right fun eq => .inr (by simpa [written, cached] using eq)
  | adopt i id =>
    simp only [next, getCanary] at step
    cases found : w.canaries.find? (·.id == id) with
    | none => simp [found] at step
    | some row =>
      simp only [found] at step
      split_ifs at step
      cases step
      refine (set held).imp_right fun eq => .inl ?_
      exact some.inj eq ▸ mem_of_find?_eq_some found
  | finish i r' version =>
    simp only [next] at step
    split_ifs at step
    obtain ⟨store, -, rfl⟩ := map_eq_some_iff.mp step
    exact .inl held
  | list i =>
    cases step
    obtain ⟨k, cached | listed⟩ := held
    · exact .inl ⟨k, .inl cached⟩
    · simp only [update_apply] at listed
      split_ifs at listed
      · exact .inr (.inl (mem_filter.mp listed).1)
      · exact .inl ⟨k, .inr listed⟩
  | install i =>
    cases step
    obtain ⟨k, ⟨id, cached⟩ | listed⟩ := held
    · simp only [update_apply] at cached
      split_ifs at cached with here
      · exact .inl ⟨i, .inr (mem_of_find?_eq_some cached)⟩
      · exact .inl ⟨k, .inl ⟨id, cached⟩⟩
    · simp only [update_apply] at listed
      split_ifs at listed
      · simp at listed
      · exact .inl ⟨k, .inr listed⟩
  | forget i id =>
    cases step
    exact (set held).imp_right fun eq => by simp at eq

theorem Sound.next (h : w.Sound) (step : w.next F l = some w') : w'.Sound := by
  have effect := effect_of_next step
  refine ⟨effect.ids h.ids, fun r held promoting => ?_⟩
  rcases held_of_next step held with old | stored | fresh
  · obtain ⟨row, mem, same, late⟩ := h.promoting r old promoting
    obtain ⟨row', mem', same', h' | rfl⟩ := effect.keeps mem (late.imp_right (·.1))
    · exact ⟨row', mem', same'.trans same, .inl h'⟩
    · exact ⟨row', mem', same, late⟩
  · obtain ⟨row, mem, same, h' | rfl⟩ := effect.keeps stored (.inr promoting)
    · exact ⟨row, mem, same, .inl h'⟩
    · exact ⟨row, mem, same, .inr ⟨promoting, rfl⟩⟩
  · obtain ⟨row, mem, same, late⟩ := effect.fresh fresh promoting
    exact ⟨row, mem, same, .inr late⟩

theorem sound_of_reachable (reach : (system ι F).Reachable w) : w.Sound := by
  refine System.Invariant.holds (P := Sound) ⟨?_, fun h step => h.next step⟩ reach
  rintro s ⟨ids, states, listed⟩
  refine ⟨ids, ?_⟩
  rintro r ⟨i, ⟨id, cached⟩ | mem⟩
  · simp [states] at cached
  · simp [listed] at mem

omit [DecidableEq ι] in
/-- The row an update makes of a row. -/
theorem Sound.eq_of_mem_write (h : w.Sound) {r row row' : CanaryRecord}
    (mem : row ∈ w.canaries) (mem' : row' ∈ write w.canaries r expected)
    (same : row.id = row'.id) :
    row' = if row.id == r.id && expected.contains row.status then overwrite row r else row := by
  obtain ⟨row₀, mem₀, rfl⟩ := mem_map.mp mem'
  have ids : row.id = row₀.id := by
    rw [same]
    split_ifs <;> rfl
  rw [h.eq_of_id mem mem₀ ids]

/-- **In every run of any number of managers, a call keeps the stored fields it does not
name, and canaries that have ended, exactly when the copy it writes from agrees in that field
with the row it overwrites.** -/
theorem step_keeps_iff (reach : (system ι F).Reachable w) (step : (system ι F).step w l w') :
    (∀ row ∈ w.canaries, ∀ row' ∈ w'.canaries, row.id = row'.id → Kept l row row') ↔
      w.Current l := by
  have sound := sound_of_reachable reach
  have effect := effect_of_next step
  have refl : ∀ row, Kept l row row := fun row => ⟨by split_ifs <;> rfl, fun _ => rfl⟩
  generalize w'.canaries = rows at effect ⊢
  cases effect with
  | none reads =>
    refine iff_of_true (fun row mem row' mem' same => ?_) fun r expected read => by
      simp [reads] at read
    exact sound.eq_of_id mem mem' same ▸ refl row
  | created i r eq active fresh =>
    refine iff_of_true (fun row mem row' mem' same => ?_) fun r expected read => by
      simp [eq, copy] at read
    rcases mem_append.mp mem' with old | new
    · exact sound.eq_of_id mem old same ▸ refl row
    · exact absurd (same.trans (congrArg (·.id) (mem_singleton.mp new))) (fresh row mem)
  | written r r' expected from' _ same named held hit =>
    constructor
    · intro kept r₁ expected₁ read row mem ids expects
      obtain ⟨rfl, rfl⟩ := Prod.mk.inj (some.inj (from'.symm.trans read))
      have overwritten : (if row.id == r'.id && expected.contains row.status then
          overwrite row r' else row) ∈ write w.canaries r' expected := mem_write mem
      simp only [ids, same, expects, contains_iff_mem.mpr, beq_self_eq_true, Bool.and_self,
        if_true] at overwritten
      have field := (kept row mem _ overwritten rfl).1
      split_ifs at field named ⊢
      · exact field.symm.trans named
      · exact field.symm.trans named
    · intro current row mem row' mem' ids
      rw [sound.eq_of_mem_write mem mem' ids]
      split_ifs with hit
      · obtain ⟨ids', expects⟩ : row.id = r'.id ∧ row.status ∈ expected := by simpa using hit
        have agrees := current r expected from' row mem (ids'.trans same) expects
        refine ⟨?_, fun closed => ?_⟩
        · split_ifs at agrees named ⊢
          · exact named.trans agrees.symm
          · exact named.trans agrees.symm
        · rcases held _ expects with h | h <;> simp [h, CanaryStatus.isOpen] at closed
      · exact refl row
  | finished i r version eq promoting known =>
    subst eq
    refine iff_of_true (fun row mem row' mem' ids => ?_) fun r expected read => by
      simp [copy] at read
    rw [sound.eq_of_mem_write mem mem' ids]
    split_ifs with hit
    · obtain ⟨ids', status⟩ : row.id = r.id ∧ row.status = .promoting := by
        simpa [CanaryRecord.promotedAs] using hit
      have held : w.Held r := ⟨i, known.imp_left fun cached => ⟨r.id, cached⟩⟩
      obtain ⟨row₁, mem₁, same₁, late⟩ := sound.promoting r held promoting
      rw [← sound.eq_of_id mem mem₁ (ids'.trans same₁.symm), status] at late
      have points := (late.resolve_left (by simp)).2
      refine ⟨?_, fun closed => by simp [status, CanaryStatus.isOpen] at closed⟩
      simpa [setsBasisPoints, overwrite, CanaryRecord.promotedAs] using points.symm
    · exact refl row

/-! Two managers with a copy of one active canary: the first pauses it, the second sets its
basis points. -/

def exampleCanary : CanaryRecord :=
  ⟨go "canary1", go "team.agent", exampleGlobal, plainLayer, go "r",
    ⟨List.replicate 64 (.rune '0')⟩, .active, 100, .empty, go "eval1", true, true, 0⟩

/-- Two managers on a store with that canary. -/
def twoManagers : Rollouts Bool :=
  ⟨⟨⟨[], 0, 64⟩, [exampleCanary], 64⟩, fun _ _ => none, fun _ => []⟩

/-- The run: both take a copy, and the first pauses. -/
def pausedByFirst : List (Step Bool) :=
  [.list false, .install false, .list true, .install true, .change false exampleCanary.id .pause]

theorem twoManagers_init : (system Bool blind).init twoManagers := by
  refine ⟨by decide, fun _ _ => rfl, fun _ => rfl⟩

/-- Both take a copy, the first sets the basis points, and the second takes a new copy. -/
def refreshedBySecond : List (Step Bool) :=
  [.list false, .install false, .list true, .install true,
    .change false exampleCanary.id (.basisPoints 500), .list true, .install true]

/-- The second manager, whose copy is current, pauses the canary and keeps its basis points. -/
theorem step_keeps_iff_refreshed : ∃ w w', (system Bool blind).Reachable w ∧
    (system Bool blind).step w (.change true exampleCanary.id .pause) w' ∧
    (w'.canaries.head?.map fun r => (r.status, r.basisPoints)) = some (.paused, 500) ∧
    ∀ row ∈ w.canaries, ∀ row' ∈ w'.canaries, row.id = row'.id →
      Kept (.change true exampleCanary.id .pause) row row' := by
  obtain ⟨w, reach, current, paused⟩ := System.exists_of_run (M := system Bool blind)
    (fun _ _ _ h => h) twoManagers_init
    (fun w => w.canaries = (w.states true exampleCanary.id).toList ∧
      ((w.next blind (.change true exampleCanary.id .pause)).bind fun w' =>
        w'.canaries.head?.map fun r => (r.status, r.basisPoints)) = some (.paused, 500))
    refreshedBySecond (by decide)
  obtain ⟨w', step, after⟩ := Option.bind_eq_some_iff.mp paused
  refine ⟨w, w', reach, step, after, (step_keeps_iff reach step).mpr ?_⟩
  intro r expected read row mem _ _
  obtain ⟨own, cached, eq⟩ := Option.map_eq_some_iff.mp read
  obtain ⟨rfl, -⟩ := Prod.mk.inj eq
  rw [current, cached, Option.toList_some, mem_singleton] at mem
  rw [mem]
  rfl

/-- The status that the second manager's `SetBasisPoints` leaves in the store. -/
def statusAfter (w : Rollouts Bool) : Option CanaryStatus :=
  (w.next blind (.change true exampleCanary.id (.basisPoints 500))).bind fun w' =>
    w'.canaries.head?.map (·.status)

/-- The second manager's `SetBasisPoints` undoes the pause of the first. -/
theorem exists_pause_undone : ∃ w, (system Bool blind).Reachable w ∧
    (w.canaries.head?.map (·.status) = some .paused ∧ statusAfter w = some .active) :=
  System.exists_of_run (fun _ _ _ h => h) twoManagers_init _ pausedByFirst (by decide)

end Rollouts

end AutoAgent.Control
