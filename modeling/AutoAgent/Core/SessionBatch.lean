import AutoAgent.Core.Derive
import AutoAgent.Lib.Transition

/-!
# Batches and single appends

Validation of a batch simulates the effect of its earlier entries in a
`BatchState` without committing them.  What the append rules read is a
`LogView`: the runs started, the usage totals and the invocation ids used.  The
accumulator extends the view exactly as committing the entry would
(`view_extendBatch`, `view_commitEntry`), so a batch is valid exactly when its
entries are valid one after the other (`validateAppend_cons`).

Every session is therefore reached by committing one acceptable entry at a time,
from an empty session.  `Grown` is that statement, and `sessionSystem_invariant` and
`sessionSystem_restrict_invariant` are the induction rules it gives.
-/

namespace AutoAgent

open List SessionEvent

/-! ## Acceptable entries -/

/-- A prepared entry that passed the payload checks: an encoded argument of
`Append`, or a stored event that is restored. -/
structure Acceptable (p : PreparedEntry) : Prop where
  runID : runIDPattern p.runID
  valid : validatePayload p.runID p.kind p.data p.raw = .ok ()
  stored : p.data = .absent ∨ encodePayload p.kind p.data = .ok p.raw

variable {p : PreparedEntry}

theorem acceptable_of_prepareEntry {e : AppendEntry}
    (h : prepareEntry e = .ok p) : Acceptable p := by
  simp only [prepareEntry, bind_eq_ok, pure_eq_ok] at h
  obtain ⟨_, id, raw, encoded, _, valid, rfl⟩ := h
  exact ⟨by simpa [validateRunID] using id, valid, .inr encoded⟩

variable {d : EventData}

/-- The stored text of a struct is the text of the struct. -/
theorem raw_of_encodePayload {kind : SessionEventType} {raw : RawMessage}
    (h : encodePayload kind (.typed d) = .ok raw) : raw = .ofDoc d.marshal := by
  simp only [encodePayload, encodePayload.bounded] at h
  split at h
  · simp at h
  · simpa using h.symm

/-- An accepted struct of the expected type is valid and is stored as its text. -/
theorem Acceptable.typed (acceptable : Acceptable p) (data : p.data = .typed d)
    (fits : d.fits p.kind) :
    validateEventData p.kind d = .ok () ∧ p.raw = .ofDoc d.marshal := by
  have valid := acceptable.valid
  simp only [validatePayload, data, fits, if_true] at valid
  refine ⟨valid, ?_⟩
  rcases acceptable.stored with absent | encoded
  · simp [data] at absent
  · rw [data] at encoded
    exact raw_of_encodePayload encoded

/-- A stored event that passed the checks has a valid payload. -/
theorem validateSessionEvent_spec {runID : GoString} {kind : SessionEventType} {raw : RawMessage}
    (h : validateSessionEvent runID kind raw = .ok ()) : runIDPattern runID ∧
      ∃ d, decodeEvent kind raw = some d ∧ validateEventData kind d = .ok () := by
  simp only [validateSessionEvent, bind_eq_ok] at h
  obtain ⟨_, id, _, _, h⟩ := h
  refine ⟨by simpa [validateRunID] using id, ?_⟩
  split at h
  · cases h
  · split at h
    · cases h
    · split at h
      · cases h
      next d read => exact ⟨d, read, h⟩

/-- The session reads the struct of an accepted entry when it has the expected
type, and the stored text otherwise. -/
theorem PreparedEntry.payload_cases (p : PreparedEntry) :
    (∃ d, p.data = .typed d ∧ d.fits p.kind ∧ p.payload = some d) ∨
      p.payload = decodeEvent p.kind p.raw ∧ validatePayload p.runID p.kind p.data p.raw =
        validateSessionEvent p.runID p.kind p.raw := by
  unfold PreparedEntry.payload eventData validatePayload
  split
  next d data =>
    by_cases fits : d.fits p.kind
    · exact .inl ⟨d, data, fits, by simp [fits]⟩
    · exact .inr (by simp [fits])
  next => exact .inr ⟨rfl, rfl⟩

/-- The payload the session reads has the type its event expects. -/
theorem PreparedEntry.fits_payload (h : p.payload = some d) : d.fits p.kind := by
  rcases p.payload_cases with ⟨d', _, fits, read⟩ | ⟨read, -⟩
  · rw [read] at h
    cases h
    exact fits
  · exact fits_of_decodeEvent (read ▸ h)

/-- The payload the session reads of an accepted entry is valid. -/
theorem Acceptable.payload_valid (acceptable : Acceptable p)
    (h : p.payload = some d) : validateEventData p.kind d = .ok () := by
  rcases p.payload_cases with ⟨d', data, fits, read⟩ | ⟨read, checked⟩
  · rw [read] at h
    cases h
    exact (acceptable.typed data fits).1
  · obtain ⟨d', decoded, valid⟩ := (validateSessionEvent_spec (checked ▸ acceptable.valid)).2
    rw [read, decoded] at h
    cases h
    exact valid

/-- The entry that restores a stored event. -/
def SessionEvent.toEntry (e : SessionEvent) : PreparedEntry := ⟨e.runID, e.kind, .absent, e.data⟩

@[simp] theorem SessionEvent.toEntry_payload (e : SessionEvent) : e.toEntry.payload = e.payload :=
  rfl

theorem acceptable_toEntry {e : SessionEvent}
    (h : validateSessionEvent e.runID e.kind e.data = .ok ()) : Acceptable e.toEntry :=
  ⟨(validateSessionEvent_spec h).1, h, .inl rfl⟩

/-! ## What validation depends on -/

def PreparedEntry.usage (p : PreparedEntry) : Option RunUsageData :=
  match p.kind, p.payload with
  | .runUsage, some (.runUsage d) => some d
  | _, _ => none

/-- The facts about a log that the append rules read: the runs started, and the
total and the invocation ids of each run's usage. -/
@[ext] structure LogView where
  started : GoString → Prop
  total : GoString → TokenUsage
  used : GoString → GoString → Prop

namespace LogView

/-- The append rules, without the event cap. -/
structure Allows (v : LogView) (p : PreparedEntry) : Prop where
  start : p.kind = .runStart → ¬v.started p.runID
  resume : p.kind = .runResume → v.started p.runID
  readable : p.kind = .runUsage → p.usage.isSome
  fresh : ∀ d ∈ p.usage, d.invocationID ≠ .empty → ¬v.used p.runID d.invocationID
  total : ∀ d ∈ p.usage, ∃ t, addUsageTotal (v.total p.runID) d.inputTokens d.outputTokens = .ok t

def after (v : LogView) (p : PreparedEntry) : LogView where
  started r := v.started r ∨ (p.kind = .runStart ∧ r = p.runID)
  total r := if r = p.runID then
      (p.usage.map fun d => (v.total r).add d.inputTokens d.outputTokens).getD (v.total r)
    else v.total r
  used r id := v.used r id ∨
    (r = p.runID ∧ ∃ d ∈ p.usage, d.invocationID ≠ .empty ∧ id = d.invocationID)

end LogView

namespace BatchState

/-- The accumulated usage of a run over the index entry `entry`. -/
def usageState (b : BatchState) (s : Session) (r : GoString) : UsageIndexState :=
  (b.usage.lookup r).getD ⟨(s.entry r).usage, ∅⟩

end BatchState

namespace Session

/-- A session with the earlier entries of a batch. -/
def view (s : Session) (b : BatchState) : LogView where
  started r := r ∈ s.runStarts ∨ r ∈ b.starts
  total r := (b.usageState s r).total
  used r id := id ∈ (s.entry r).usageIDs ∨ id ∈ (b.usageState s r).ids

variable {s : Session} {b b' : BatchState} {p : PreparedEntry}

theorem validateStart_eq_ok {starts starts' : Finset GoString} :
    s.validateStart p starts = .ok starts' ↔
      (p.kind = .runStart → ¬(p.runID ∈ s.runStarts ∨ p.runID ∈ starts)) ∧
        (p.kind = .runResume → p.runID ∈ s.runStarts ∨ p.runID ∈ starts) ∧
        starts' = if p.kind = .runStart then insert p.runID starts else starts := by
  unfold validateStart
  cases p.kind with
  | runStart =>
    by_cases known : p.runID ∈ s.runStarts ∨ p.runID ∈ starts
    · simp [known]
    · simp [known, eq_comm]
  | runResume =>
    by_cases known : p.runID ∈ s.runStarts ∨ p.runID ∈ starts
    · have refused : ¬(p.runID ∉ s.runStarts ∧ p.runID ∉ starts) := by tauto
      simp [known, refused, eq_comm]
    · have refused : p.runID ∉ s.runStarts ∧ p.runID ∉ starts := by tauto
      simp [refused]
  | _ => simp [eq_comm]

/-- The accumulated usage after one more contribution. -/
def addUsage (state : UsageIndexState) (d : RunUsageData) : UsageIndexState :=
  ⟨state.total.add d.inputTokens d.outputTokens,
    if d.invocationID = .empty then state.ids else insert d.invocationID state.ids⟩

theorem total_addUsage (u : Option RunUsageData) (state : UsageIndexState) :
    ((u.map (addUsage state)).getD state).total =
      (u.map fun d => state.total.add d.inputTokens d.outputTokens).getD state.total := by
  cases u <;> rfl

theorem mem_addUsage {u : Option RunUsageData} {state : UsageIndexState} {id : GoString} :
    id ∈ ((u.map (addUsage state)).getD state).ids ↔
      id ∈ state.ids ∨ ∃ d ∈ u, d.invocationID ≠ .empty ∧ id = d.invocationID := by
  cases u with
  | none => simp
  | some d => by_cases legacy : d.invocationID = .empty <;> simp [addUsage, legacy, or_comm]

theorem addUsageTotal_eq_ok {total t : TokenUsage} {input output : Int64}
    (h : addUsageTotal total input output = .ok t) : t = total.add input output := by
  unfold addUsageTotal at h
  split at h
  · simp at h
  · simpa using h.symm

variable {usage' : GoMap UsageIndexState}

theorem validateRunUsage_eq_ok {r : GoString} {d : RunUsageData} :
    s.validateRunUsage r d b.usage = .ok usage' ↔
      (d.invocationID ≠ .empty → ¬(s.view b).used r d.invocationID) ∧
        (∃ t, addUsageTotal ((s.view b).total r) d.inputTokens d.outputTokens = .ok t) ∧
        usage' = b.usage.insert r (addUsage (b.usageState s r) d) := by
  unfold validateRunUsage
  rw [← BatchState.usageState]
  simp only [view]
  by_cases repeated : d.invocationID ≠ .empty ∧ (d.invocationID ∈ (s.entry r).usageIDs ∨
      d.invocationID ∈ (b.usageState s r).ids)
  · simp only [repeated, and_self, not_true, if_true, reduceCtorEq, ne_eq, not_false_eq_true,
      true_imp_iff, false_and]
  · rw [if_neg repeated]
    have fresh : d.invocationID ≠ .empty → ¬(d.invocationID ∈ (s.entry r).usageIDs ∨
        d.invocationID ∈ (b.usageState s r).ids) := fun named used => repeated ⟨named, used⟩
    cases added : addUsageTotal (b.usageState s r).total d.inputTokens d.outputTokens with
    | error e => simp
    | ok t =>
      obtain rfl := addUsageTotal_eq_ok added
      simp only [Except.ok.injEq, exists_eq', true_and, addUsage]
      exact ⟨fun h => ⟨fresh, h.symm⟩, fun h => h.2.symm⟩

/-- The accumulated usage after an entry. -/
def extendUsage (s : Session) (b : BatchState) (p : PreparedEntry) : GoMap UsageIndexState :=
  match p.usage with
  | some d => b.usage.insert p.runID (addUsage (b.usageState s p.runID) d)
  | none => b.usage

theorem validateUsage_eq_ok :
    s.validateUsage p b.usage = .ok usage' ↔ (p.kind = .runUsage → p.usage.isSome) ∧
        (∀ d ∈ p.usage, d.invocationID ≠ .empty → ¬(s.view b).used p.runID d.invocationID) ∧
        (∀ d ∈ p.usage, ∃ t,
          addUsageTotal ((s.view b).total p.runID) d.inputTokens d.outputTokens = .ok t) ∧
        usage' = s.extendUsage b p := by
  unfold validateUsage extendUsage PreparedEntry.usage
  cases p.kind with
  | runUsage =>
    cases p.payload with
    | none => simp
    | some data =>
      cases data with
      | runUsage d => simpa using validateRunUsage_eq_ok
      | _ => simp
  | _ => simp [eq_comm]

/-- The accumulator after an allowed entry. -/
def extendBatch (s : Session) (b : BatchState) (p : PreparedEntry) : BatchState where
  starts := if p.kind = .runStart then insert p.runID b.starts else b.starts
  usage := s.extendUsage b p

/-- One entry passes validation exactly when the rules allow it. -/
theorem validateEntry_eq_ok :
    s.validateEntry b p = .ok b' ↔ (s.view b).Allows p ∧ b' = s.extendBatch b p := by
  simp only [validateEntry, bind_eq_ok, pure_eq_ok, validateStart_eq_ok, validateUsage_eq_ok]
  constructor
  · rintro ⟨_, ⟨start, resume, rfl⟩, _, ⟨readable, fresh, total, rfl⟩, rfl⟩
    exact ⟨⟨start, resume, readable, fresh, total⟩, rfl⟩
  · rintro ⟨⟨start, resume, readable, fresh, total⟩, rfl⟩
    exact ⟨_, ⟨start, resume, rfl⟩, _, ⟨readable, fresh, total, rfl⟩, rfl⟩

theorem usageState_extendBatch (r : GoString) :
    (s.extendBatch b p).usageState s r =
      if r = p.runID then (p.usage.map (addUsage (b.usageState s r))).getD (b.usageState s r)
      else b.usageState s r := by
  simp only [BatchState.usageState, extendBatch, extendUsage]
  cases p.usage with
  | none => simp
  | some d =>
    by_cases own : r = p.runID
    · subst own
      simp
    · simp [own, AList.lookup_insert_ne]

/-- The accumulator records an entry as committing it would. -/
theorem view_extendBatch : s.view (s.extendBatch b p) = (s.view b).after p := by
  ext r
  · simp only [view, LogView.after, extendBatch]
    by_cases start : p.kind = .runStart
    · simp only [start, if_true, Finset.mem_insert, true_and]
      tauto
    · simp [start]
  · simp only [view, LogView.after, usageState_extendBatch]
    split_ifs <;> simp [total_addUsage]
  next id =>
    simp only [view, LogView.after, usageState_extendBatch]
    split_ifs with own
    · simp [mem_addUsage, own, or_assoc]
    · simp [own]

/-- The usage and the invocation ids of an index entry after an event. -/
theorem record_usage (entry : RunIndexEntry) (seq : ℕ) :
    (⟨(entry.record seq p.kind p.payload).usage, (entry.record seq p.kind p.payload).usageIDs⟩ :
      UsageIndexState) =
      (p.usage.map (addUsage ⟨entry.usage, entry.usageIDs⟩)).getD
        ⟨entry.usage, entry.usageIDs⟩ := by
  unfold RunIndexEntry.record PreparedEntry.usage
  cases p.kind <;> cases p.payload with
  | none => rfl
  | some data => cases data <;> first | rfl | (simp only; split <;> rfl)

/-- Committing an entry changes the view as the rules expect. -/
theorem view_commitEntry : (s.commitEntry p).view .empty = (s.view .empty).after p := by
  have record := fun r => record_usage (p := p) (s.entry r) s.events.length
  ext r
  · simp only [view, LogView.after, commitEntry_runStarts, BatchState.empty]
    by_cases start : p.kind = .runStart
    · simp only [start, if_true, Finset.mem_insert, true_and, Finset.notMem_empty, or_false]
      tauto
    · simp [start]
  · simp only [view, LogView.after, BatchState.usageState, BatchState.empty, AList.lookup_empty,
      Option.getD_none, commitEntry_entry]
    split_ifs with own
    · exact (congrArg UsageIndexState.total (record r)).trans (total_addUsage _ _)
    · rfl
  next id =>
    simp only [view, LogView.after, BatchState.usageState, BatchState.empty, AList.lookup_empty,
      Option.getD_none, commitEntry_entry]
    split_ifs with own
    · have ids := congrArg UsageIndexState.ids (record r)
      simp only at ids
      rw [ids, mem_addUsage]
      simp [own]
    · simp [own]

/-! ## Whole batches -/

/-- The rules allow the entries one after the other. -/
def AllowsAll : LogView → List PreparedEntry → Prop
  | _, [] => True
  | v, p :: ps => v.Allows p ∧ AllowsAll (v.after p) ps

variable {ps : List PreparedEntry}

theorem foldlM_validateEntry :
    (∃ b', ps.foldlM s.validateEntry b = .ok b') ↔ AllowsAll (s.view b) ps := by
  induction ps generalizing b with
  | nil => simp [AllowsAll, pure_eq_ok]
  | cons p ps ih =>
    simp only [foldlM_cons, bind_eq_ok, validateEntry_eq_ok, AllowsAll, ← view_extendBatch, ← ih]
    constructor
    · rintro ⟨b', _, ⟨allowed, rfl⟩, rest⟩
      exact ⟨allowed, b', rest⟩
    · rintro ⟨allowed, b', rest⟩
      exact ⟨b', _, ⟨allowed, rfl⟩, rest⟩

theorem validateAppend_eq_ok :
    s.validateAppend ps = .ok () ↔
      s.events.length + ps.length ≤ s.eventCap ∧ AllowsAll (s.view .empty) ps := by
  unfold validateAppend
  split
  next full => simpa using fun room => absurd full (by omega)
  next room =>
    simp only [bind_eq_ok, pure_eq_ok, ← foldlM_validateEntry]
    exact ⟨fun ⟨b', h, _⟩ => ⟨by omega, b', h⟩, fun ⟨_, b', h⟩ => ⟨b', h, trivial⟩⟩

/-- A batch is valid exactly when its first entry is and the rest is valid after
committing it. -/
theorem validateAppend_cons :
    s.validateAppend (p :: ps) = .ok () ↔
      s.validateAppend [p] = .ok () ∧ (s.commitEntry p).validateAppend ps = .ok () := by
  simp only [validateAppend_eq_ok, AllowsAll, view_commitEntry, commitEntry_eventCap,
    commitEntry_events, length_append, length_cons, length_nil, and_true]
  constructor
  · rintro ⟨room, allowed, rest⟩
    exact ⟨⟨by omega, allowed⟩, by omega, rest⟩
  · rintro ⟨⟨_, allowed⟩, room, rest⟩
    exact ⟨by omega, allowed, rest⟩

/-- Each entry has the property `Q` in the session it is committed to. -/
def CommitsOnly (Q : Session → PreparedEntry → Prop) : Session → List PreparedEntry → Prop
  | _, [] => True
  | s, p :: ps => Q s p ∧ CommitsOnly Q (s.commitEntry p) ps

/-- A session grows into another by committing acceptable entries with the
property `Q`. -/
inductive Grown (Q : Session → PreparedEntry → Prop) (s : Session) : Session → Prop where
  | refl : Grown Q s s
  | commit {s' : Session} {p : PreparedEntry} : Grown Q s s' → Acceptable p →
      s'.validateAppend [p] = .ok () → Q s' p → Grown Q s (s'.commitEntry p)

variable {Q : Session → PreparedEntry → Prop}

theorem Grown.trans {s₁ s₂ s₃ : Session} (h : Grown Q s₁ s₂) (h' : Grown Q s₂ s₃) :
    Grown Q s₁ s₃ := by
  induction h' with
  | refl => exact h
  | commit _ acceptable valid meets ih => exact .commit ih acceptable valid meets

theorem grown_of_validateAppend (acceptable : ∀ p ∈ ps, Acceptable p)
    (valid : s.validateAppend ps = .ok ()) (meets : CommitsOnly Q s ps) :
    Grown Q s (ps.foldl commitEntry s) := by
  induction ps generalizing s with
  | nil => exact .refl
  | cons p ps ih =>
    obtain ⟨first, rest⟩ := validateAppend_cons.mp valid
    have head : Grown Q s (s.commitEntry p) := .commit .refl (acceptable p (by simp)) first meets.1
    exact head.trans (ih (fun q mem => acceptable q (mem_cons_of_mem _ mem)) rest meets.2)

/-- The two outcomes of `appendBatch`: an error that leaves the session alone, or
the committed batch. -/
theorem appendBatch_cases (s : Session) (entries : List AppendEntry) :
    (∃ e, s.appendBatch entries = (.error e, s)) ∨
      ∃ ps, entries ≠ [] ∧ entries.mapM prepareEntry = .ok ps ∧ s.validateAppend ps = .ok () ∧
        s.appendBatch entries =
          (.ok ((ps.foldl commitEntry s).events.drop s.events.length), ps.foldl commitEntry s) := by
  unfold appendBatch
  split
  next => exact .inl ⟨_, rfl⟩
  next nonempty =>
    split
    next e _ => exact .inl ⟨e, rfl⟩
    next ps prepared =>
      split
      next e _ => exact .inl ⟨e, rfl⟩
      next valid => exact .inr ⟨ps, by simpa using nonempty, prepared, valid, rfl⟩

variable {entries : List AppendEntry}

theorem acceptable_of_mapM (h : entries.mapM prepareEntry = .ok ps) : ∀ p ∈ ps, Acceptable p := by
  have each := mapM_eq_ok.mp h
  clear h
  induction each with
  | nil => simp
  | cons prepared _ ih =>
    exact forall_mem_cons.mpr ⟨acceptable_of_prepareEntry prepared, ih⟩

/-! ## One by one -/

/-- Appending the entries of a list one after the other, up to the first that is
rejected. -/
def appendEach (s : Session) : List AppendEntry → Except SessionError Session
  | [] => .ok s
  | e :: es =>
    match s.append e with
    | (.ok _, s') => appendEach s' es
    | (.error err, _) => .error err

variable {s' : Session}

theorem append_eq_ok {e : AppendEntry} {events : List SessionEvent} :
    s.append e = (.ok events, s') ↔
      ∃ p, prepareEntry e = .ok p ∧ s.validateAppend [p] = .ok () ∧ s' = s.commitEntry p ∧
        events = [s.nextEvent p] := by
  simp only [append, appendBatch, isEmpty_cons, false_eq_true, if_false, mapM_cons, mapM_nil]
  cases prepared : prepareEntry e with
  | error err => simp [bind, Except.bind]
  | ok p =>
    cases valid : s.validateAppend [p] with
    | error err => simp [bind, Except.bind, pure, Except.pure, valid]
    | ok u =>
      simp only [bind, Except.bind, pure, Except.pure, valid, foldl_cons, foldl_nil,
        commitEntry_events, drop_left, Prod.mk.injEq, Except.ok.injEq, exists_eq_left']
      tauto

theorem room_commitEntry (valid : s.validateAppend [p] = .ok ()) :
    (s.commitEntry p).events.length ≤ (s.commitEntry p).eventCap := by
  have room := (validateAppend_eq_ok.mp valid).1
  simpa using room

/-- Appending one by one succeeds with `s'` exactly when the entries can be
prepared, form a valid batch and are committed to `s'`. -/
theorem appendEach_eq_ok (room : s.events.length ≤ s.eventCap) :
    s.appendEach entries = .ok s' ↔
      ∃ ps, entries.mapM prepareEntry = .ok ps ∧ s.validateAppend ps = .ok () ∧
        s' = ps.foldl commitEntry s := by
  induction entries generalizing s with
  | nil =>
    have valid : s.validateAppend [] = .ok () :=
      validateAppend_eq_ok.mpr ⟨by simpa using room, trivial⟩
    simp only [appendEach, mapM_nil, pure_eq_ok, exists_eq_left', valid, true_and,
      foldl_nil, Except.ok.injEq]
    exact eq_comm
  | cons e es ih =>
    simp only [mapM_cons, bind_eq_ok, pure_eq_ok]
    constructor
    · intro h
      rw [appendEach] at h
      split at h
      next events s₁ appended =>
        obtain ⟨p, prepared, valid, rfl, _⟩ := append_eq_ok.mp appended
        obtain ⟨ps, rest, validRest, rfl⟩ := (ih (room_commitEntry valid)).mp h
        exact ⟨p :: ps, ⟨p, prepared, ps, rest, rfl⟩,
          validateAppend_cons.mpr ⟨valid, validRest⟩, rfl⟩
      next => simp at h
    · rintro ⟨_, ⟨p, prepared, ps, rest, rfl⟩, valid, rfl⟩
      obtain ⟨first, validRest⟩ := validateAppend_cons.mp valid
      have appended : s.append e = (.ok [s.nextEvent p], s.commitEntry p) :=
        append_eq_ok.mpr ⟨p, prepared, first, rfl, rfl⟩
      rw [appendEach, appended]
      exact (ih (room_commitEntry first)).mpr ⟨ps, rest, validRest, rfl⟩

/-! ## Restoring as committing -/

/-- A session without a usable cache, as `RestoreSession` builds it. -/
structure Dormant (s : Session) : Prop where
  projValid : s.projValid = false
  projCache : s.projCache = []
  projCount : s.projCount = 0

theorem Dormant.updateProjection (dormant : s.Dormant) (seq : ℕ) :
    s.updateProjection p seq =
      if p.kind = .contextSummary then { s with summaryEvents := s.summaryEvents + 1 } else s := by
  obtain ⟨projValid, projCache, projCount⟩ := dormant
  cases s
  simp_all [Session.updateProjection]

theorem Dormant.logEntry (dormant : s.Dormant) (p : PreparedEntry) : (s.logEntry p).Dormant :=
  ⟨dormant.projValid, dormant.projCache, dormant.projCount⟩

theorem Dormant.commitEntry (dormant : s.Dormant) (p : PreparedEntry) :
    (s.commitEntry p).Dormant := by
  have logged := dormant.logEntry p
  rw [Session.commitEntry, logged.updateProjection]
  split
  · exact ⟨logged.projValid, logged.projCache, logged.projCount⟩
  · exact logged

variable {e : SessionEvent}

/-- The run start rule holds again when a valid event is recorded. -/
theorem storeStart_storeEvent (dormant : s.Dormant) (place : e.seq = s.events.length)
    (valid : s.validateAppend [e.toEntry] = .ok ()) :
    (s.storeEvent e).storeStart e = .ok (s.commitEntry e.toEntry) := by
  obtain ⟨start, resume, _⟩ := (validateAppend_eq_ok.mp valid).2.1
  simp only [view, BatchState.empty, Finset.notMem_empty, or_false] at start resume
  have same : s.nextEvent e.toEntry = e := by
    cases e
    exact congrArg (fun n => SessionEvent.mk n _ _ _) place.symm
  rw [Session.commitEntry, (dormant.logEntry _).updateProjection]
  simp only [Session.logEntry, same, toEntry_payload]
  simp only [toEntry] at start resume ⊢
  by_cases isStart : e.kind = .runStart
  · simp [storeStart, storeEvent, indexEvent, entry, isStart, start isStart]
  · have resumed : ¬(e.kind = .runResume ∧ e.runID ∉ s.runStarts) := by tauto
    by_cases isSummary : e.kind = .contextSummary
    · simp [storeStart, storeEvent, indexEvent, entry, isSummary]
    · simp [storeStart, storeEvent, indexEvent, entry, isStart, isSummary, resumed]

/-- Restoring one event is committing it. -/
theorem restoreEvent_eq_ok (dormant : s.Dormant) :
    s.restoreEvent s.events.length e = .ok s' ↔
      e.seq = s.events.length ∧ validateSessionEvent e.runID e.kind e.data = .ok () ∧
        s.validateAppend [e.toEntry] = .ok () ∧ s' = s.commitEntry e.toEntry := by
  unfold restoreEvent
  split
  next misplaced => simpa using fun place => absurd place misplaced
  next place =>
    have place : e.seq = s.events.length := by simpa using place
    simp only [bind_eq_ok, mapError_eq_ok, place, true_and]
    constructor
    · rintro ⟨_, checked, _, valid, stored⟩
      rw [storeStart_storeEvent dormant place valid] at stored
      exact ⟨checked, valid, by simpa using stored.symm⟩
    · rintro ⟨checked, valid, rfl⟩
      exact ⟨_, checked, _, valid, storeStart_storeEvent dormant place valid⟩

/-- The stored events pass the checks of `RestoreSession` one after the other. -/
def Loadable : Session → List SessionEvent → Prop
  | _, [] => True
  | s, e :: es =>
    (e.seq = s.events.length ∧ validateSessionEvent e.runID e.kind e.data = .ok () ∧
      s.validateAppend [e.toEntry] = .ok ()) ∧ Loadable (s.commitEntry e.toEntry) es

def commitEvents (s : Session) (es : List SessionEvent) : Session :=
  es.foldl (fun s e => s.commitEntry e.toEntry) s

variable {es : List SessionEvent}

theorem restoreEvents_eq_ok (dormant : s.Dormant) :
    s.restoreEvents s.events.length es = .ok s' ↔ s.Loadable es ∧ s' = s.commitEvents es := by
  induction es generalizing s with
  | nil => simpa [restoreEvents, Loadable, commitEvents] using eq_comm
  | cons e es ih =>
    have next : s.events.length + 1 = (s.commitEntry e.toEntry).events.length := by simp
    simp only [restoreEvents, bind_eq_ok, restoreEvent_eq_ok dormant, Loadable, commitEvents,
      foldl_cons]
    constructor
    · rintro ⟨_, ⟨place, checked, valid, rfl⟩, rest⟩
      rw [next, ih (dormant.commitEntry _)] at rest
      exact ⟨⟨⟨place, checked, valid⟩, rest.1⟩, rest.2⟩
    · rintro ⟨⟨⟨place, checked, valid⟩, rest⟩, rfl⟩
      refine ⟨_, ⟨place, checked, valid, rfl⟩, ?_⟩
      rw [next]
      exact (ih (dormant.commitEntry _)).mpr ⟨rest, rfl⟩

/-- The session `RestoreSession` starts from. -/
def blank (id : GoString) (valid : Bool) : Session := { Session.new id with projValid := valid }

/-- `RestoreSession` succeeds exactly on a loadable log that fits the cap. -/
theorem restore_eq_ok {id : GoString} :
    restore id es = .ok s' ↔ es.length ≤ maxSessionEvents ∧ (blank id es.isEmpty).Loadable es ∧
        s' = (blank id es.isEmpty).commitEvents es := by
  have cap : (Session.new id).eventCap = maxSessionEvents := rfl
  simp only [restore, cap]
  split
  next full => simpa using fun room => absurd full (by omega)
  next room =>
    have fits : es.length ≤ maxSessionEvents := by omega
    simp only [fits, true_and]
    cases es with
    | nil => simpa [restoreEvents, Loadable, commitEvents, blank] using eq_comm
    | cons e es => exact restoreEvents_eq_ok (s := blank id false) ⟨rfl, rfl, rfl⟩

theorem grown_of_loadable (loadable : s.Loadable es)
    (meets : CommitsOnly Q s (es.map toEntry)) : Grown Q s (s.commitEvents es) := by
  induction es generalizing s with
  | nil => exact .refl
  | cons e es ih =>
    obtain ⟨⟨_, checked, valid⟩, rest⟩ := loadable
    have head : Grown Q s (s.commitEntry e.toEntry) :=
      .commit .refl (acceptable_toEntry checked) valid meets.1
    exact head.trans (ih rest meets.2)

end Session

/-! ## The session as a transition system -/

inductive SessionOp where
  | append (entries : List AppendEntry)
  | derive
  | restore (id : GoString) (events : List SessionEvent)

/-- A session under appends of single events and of batches, accepted or
rejected, message derivations, and restores of stored events. -/
def sessionSystem : System Session SessionOp where
  init s := ∃ id, s = Session.new id
  step s op s' :=
    match op with
    | .append entries => s' = (s.appendBatch entries).2
    | .derive => s' = s.deriveMessages.2
    | .restore id events => Session.restore id events = .ok s'

/-- Every entry the operation commits has the property `Q` in the session it is
committed to. -/
def SessionOp.Meets (Q : Session → PreparedEntry → Prop) (s : Session) : SessionOp → Prop
  | .append entries => ∀ ps, entries.mapM prepareEntry = .ok ps → s.CommitsOnly Q ps
  | .derive => True
  | .restore id events =>
    (Session.blank id events.isEmpty).CommitsOnly Q (events.map toEntry)

theorem SessionOp.meets_append {Q : Session → PreparedEntry → Prop} {s : Session}
    {entries : List AppendEntry} {ps : List PreparedEntry}
    (prepared : entries.mapM prepareEntry = .ok ps) (meets : s.CommitsOnly Q ps) :
    (SessionOp.append entries).Meets Q s := by
  intro ps' prepared'
  obtain rfl : ps = ps' := by simpa [prepared] using prepared'
  exact meets

/-- The three ways a session changes. -/
theorem sessionSystem_step_cases {Q : Session → PreparedEntry → Prop} {s s' : Session}
    {op : SessionOp}
    (step : sessionSystem.step s op s') (meets : op.Meets Q s) :
    Session.Grown Q s s' ∨ s' = s.deriveMessages.2 ∨
      ∃ id b, Session.Grown Q (Session.blank id b) s' := by
  cases op with
  | append entries =>
    obtain rfl := step
    rcases s.appendBatch_cases entries with ⟨e, h⟩ | ⟨ps, _, prepared, valid, h⟩
    · rw [h]
      exact .inl .refl
    · rw [h]
      exact .inl (Session.grown_of_validateAppend (Session.acceptable_of_mapM prepared) valid
        (meets ps prepared))
  | derive => exact .inr (.inl step)
  | restore id events =>
    obtain ⟨_, loadable, rfl⟩ := Session.restore_eq_ok.mp step
    exact .inr (.inr ⟨id, events.isEmpty, Session.grown_of_loadable loadable meets⟩)

section Invariant

variable {P : Session → Prop} {Q : Session → PreparedEntry → Prop}

private theorem grown_keeps
    (commit : ∀ s p, P s → Acceptable p → s.validateAppend [p] = .ok () → Q s p →
      P (s.commitEntry p))
    {s s' : Session} (grown : Session.Grown Q s s') (h : P s) : P s' := by
  induction grown with
  | refl => exact h
  | commit _ acceptable valid meets ih => exact commit _ _ ih acceptable valid meets

/-- What holds of the empty sessions and is kept by committing one acceptable
entry with the property `Q` and by a derivation holds in every run that commits
only such entries. -/
theorem sessionSystem_restrict_invariant (blank : ∀ id b, P (Session.blank id b))
    (commit : ∀ s p, P s → Acceptable p → s.validateAppend [p] = .ok () → Q s p →
      P (s.commitEntry p))
    (derive : ∀ s, P s → P s.deriveMessages.2) :
    (sessionSystem.restrict fun s op => op.Meets Q s).Invariant P := by
  refine ⟨?_, ?_⟩
  · rintro _ ⟨id, rfl⟩
    exact blank id true
  · rintro s op s' hs ⟨meets, step⟩
    rcases sessionSystem_step_cases step meets with grown | rfl | ⟨id, b, grown⟩
    · exact grown_keeps commit grown hs
    · exact derive s hs
    · exact grown_keeps commit grown (blank id b)

/-- What holds of the empty sessions and is kept by committing one acceptable
entry and by a derivation holds of every session. -/
theorem sessionSystem_invariant (blank : ∀ id b, P (Session.blank id b))
    (commit : ∀ s p, P s → Acceptable p → s.validateAppend [p] = .ok () → P (s.commitEntry p))
    (derive : ∀ s, P s → P s.deriveMessages.2) : sessionSystem.Invariant P := by
  have all : ∀ (ps : List PreparedEntry) (s : Session), s.CommitsOnly (fun _ _ => True) ps := by
    intro ps
    induction ps with
    | nil => exact fun _ => trivial
    | cons p ps ih => exact fun s => ⟨trivial, ih _⟩
  have any : ∀ s (op : SessionOp), op.Meets (fun _ _ => True) s := by
    intro s op
    cases op with
    | append entries => exact fun ps _ => all ps s
    | derive => trivial
    | restore id events => exact all _ _
  have inv := sessionSystem_restrict_invariant (Q := fun _ _ => True) blank
    (fun s p h acceptable valid _ => commit s p h acceptable valid) derive
  exact ⟨inv.init, fun h step => inv.step h ⟨any _ _, step⟩⟩

end Invariant

end AutoAgent
