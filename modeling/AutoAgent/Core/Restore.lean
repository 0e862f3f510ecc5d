import AutoAgent.Core.SessionInvariant

/-!
# Restoring a live session

A live session validates and indexes the Go values it is given; a restored one
validates and indexes what is read back from their JSON.  The two agree on the
payloads that survive their codec (`PreparedEntry.Storable`).  In every run that
appends only such payloads the log can be restored (`sessionSystem_restorable`),
and the index of a run is the fold of the stored events of that run
(`sessionSystem_indexed`), so a restored session has the index of the live one.
-/

namespace AutoAgent

/-! ## Payloads that survive storage -/

/-- A struct of the expected type is clean and within the nesting depth of the
decoder.  Every other payload is stored as the text that was validated. -/
def PreparedEntry.Storable (p : PreparedEntry) : Prop :=
  ∀ d, p.data = .typed d → d.fits p.kind → d.clean ∧ d.marshal.depth ≤ maxNestingDepth

theorem storable_toEntry (e : SessionEvent) : e.toEntry.Storable := by
  intro d data
  simp [SessionEvent.toEntry] at data

variable {d : EventData} {p : PreparedEntry}

theorem storable_of_clean (data : p.data = .typed d) (clean : d.clean)
    (shallow : d.marshal.depth ≤ maxNestingDepth) : p.Storable := by
  intro d' data' _
  obtain rfl : d = d' := by simpa [data] using data'
  exact ⟨clean, shallow⟩

theorem Json.size_structDoc_pos (fs : List FieldDoc) : 0 < (structDoc fs).size := by
  simp [structDoc, Json.size, Json.text, Json.ascii]

theorem EventData.size_marshal_pos (d : EventData) : 0 < d.marshal.size := by
  cases d <;> exact Json.size_structDoc_pos _

theorem size_le_of_encodePayload {kind : SessionEventType} {raw : RawMessage}
    (h : encodePayload kind (.typed d) = .ok raw) : raw.size ≤ maxSessionEventDataBytes := by
  simp only [encodePayload, encodePayload.bounded] at h
  split at h
  · simp at h
  next bound =>
    cases h
    exact Nat.le_of_not_lt bound

section

variable (acceptable : Acceptable p) (storable : p.Storable)

include acceptable storable

/-- What is stored of an entry is what the session read from it. -/
theorem payload_nextEvent (s : Session) : (s.nextEvent p).payload = p.payload := by
  change decodeEvent p.kind p.raw = p.payload
  rcases p.payload_cases with ⟨d, data, fits, read⟩ | ⟨read, -⟩
  · obtain ⟨clean, shallow⟩ := storable d data fits
    rw [(acceptable.typed data fits).2, read, decodeEvent_marshal fits clean shallow]
  · exact read.symm

/-- The stored form of an accepted payload passes the checks on stored events. -/
theorem validateSessionEvent_raw : validateSessionEvent p.runID p.kind p.raw = .ok () := by
  rcases p.payload_cases with ⟨d, data, fits, -⟩ | ⟨-, same⟩
  · obtain ⟨checked, raw⟩ := acceptable.typed data fits
    have bound : p.raw.size ≤ maxSessionEventDataBytes := by
      rcases acceptable.stored with absent | encoded
      · simp [data] at absent
      · exact size_le_of_encodePayload (data ▸ encoded)
    have positive : p.raw.size ≠ 0 := by
      rw [raw]
      exact d.size_marshal_pos.ne'
    have decoded : decodeEvent p.kind p.raw = some d := by
      obtain ⟨clean, shallow⟩ := storable d data fits
      rw [raw, decodeEvent_marshal fits clean shallow]
    simp only [validateSessionEvent, bind_eq_ok, invalidEvent_eq_ok]
    refine ⟨(), by simp [validateRunID, acceptable.runID], (), by simpa using bound, ?_⟩
    split
    next kind =>
      rw [kind] at fits
      cases d <;> simp [EventData.fits] at fits
    next => simp [positive, decoded, checked]
  · -- the text itself was validated when the entry was prepared
    exact same ▸ acceptable.valid

end

/-! ## The log of a live session can be restored -/

namespace Session

variable {s : Session} {p : PreparedEntry}

theorem commitEvents_concat (es : List SessionEvent) (e : SessionEvent) :
    s.commitEvents (es ++ [e]) = (s.commitEvents es).commitEntry e.toEntry := by
  simp [commitEvents]

theorem loadable_concat {es : List SessionEvent} {e : SessionEvent} :
    s.Loadable (es ++ [e]) ↔ s.Loadable es ∧ e.seq = (s.commitEvents es).events.length ∧
      validateSessionEvent e.runID e.kind e.data = .ok () ∧
        (s.commitEvents es).validateAppend [e.toEntry] = .ok () := by
  induction es generalizing s with
  | nil => simp [Loadable, commitEvents]
  | cons e' es ih =>
    simp only [List.cons_append, Loadable, commitEvents, List.foldl_cons, and_assoc]
    rw [ih, commitEvents]

/-- The session rebuilt from the stored events of `s`. -/
def reloaded (s : Session) (valid : Bool) : Session := (blank s.id valid).commitEvents s.events

/-- The log of the session can be restored, and what the append rules read of the
restored session is what they read of the session itself. -/
structure Restorable (s : Session) : Prop where
  standard : s.maxEvents = 0
  loadable : ∀ b, (blank s.id b).Loadable s.events
  events : ∀ b, (s.reloaded b).events = s.events
  maxEvents : ∀ b, (s.reloaded b).maxEvents = 0
  view : ∀ b, (s.reloaded b).view .empty = s.view .empty

section

variable (acceptable : Acceptable p) (storable : p.Storable)

include acceptable storable

theorem usage_toEntry_nextEvent : (s.nextEvent p).toEntry.usage = p.usage := by
  rw [PreparedEntry.usage_eq, PreparedEntry.usage_eq, SessionEvent.toEntry_payload,
    payload_nextEvent acceptable storable]

theorem after_toEntry_nextEvent (v : LogView) :
    v.after (s.nextEvent p).toEntry = v.after p := by
  simp only [LogView.after, usage_toEntry_nextEvent acceptable storable]
  rfl

theorem allows_toEntry_nextEvent {v : LogView} (allowed : v.Allows p) :
    v.Allows (s.nextEvent p).toEntry := by
  have usage := usage_toEntry_nextEvent (s := s) acceptable storable
  exact ⟨allowed.start, allowed.resume, fun kind => usage ▸ allowed.readable kind,
    usage ▸ allowed.fresh, usage ▸ allowed.total⟩

theorem restorable_commitEntry (h : s.Restorable) (valid : s.validateAppend [p] = .ok ()) :
    (s.commitEntry p).Restorable := by
  have extend : ∀ b, (s.commitEntry p).reloaded b =
      (s.reloaded b).commitEntry (s.nextEvent p).toEntry := fun b => by
    simp only [reloaded, commitEntry_id, commitEntry_events, commitEvents_concat]
  have room := (validateAppend_eq_ok.mp valid).1
  have allowed := (validateAppend_eq_ok.mp valid).2.1
  refine ⟨by simpa using h.standard, fun b => ?_, fun b => ?_, fun b => ?_, fun b => ?_⟩
  · rw [commitEntry_events, commitEntry_id, loadable_concat]
    refine ⟨h.loadable b, by rw [← reloaded, h.events b]; rfl,
      validateSessionEvent_raw acceptable storable, validateAppend_eq_ok.mpr ⟨?_, ?_, trivial⟩⟩
    · rw [← reloaded, h.events b, eventCap, h.maxEvents b]
      rwa [eventCap, h.standard] at room
    · rw [← reloaded, h.view b]
      exact allows_toEntry_nextEvent acceptable storable allowed
  · rw [extend, commitEntry_events, commitEntry_events, h.events b]
    simp only [nextEvent, SessionEvent.toEntry, h.events b]
  · rw [extend, commitEntry_maxEvents, h.maxEvents b]
  · rw [extend, view_commitEntry, view_commitEntry, h.view b,
      after_toEntry_nextEvent acceptable storable]

end

theorem Restorable.room (h : s.Restorable) (reach : sessionSystem.Reachable s) :
    s.events.length ≤ maxSessionEvents := by
  have room := (sessionSystem_logInvariant.holds reach).1.cap
  rwa [eventCap, h.standard] at room

theorem Restorable.restore (h : s.Restorable) (reach : sessionSystem.Reachable s) :
    Session.restore s.id s.events = .ok (s.reloaded s.events.isEmpty) :=
  restore_eq_ok.mpr ⟨h.room reach, h.loadable _, rfl⟩

end Session

variable {Q : Session → PreparedEntry → Prop}

/-- In every run that appends only payloads that survive storage the log can be
restored. -/
theorem sessionSystem_restorable (storable : ∀ s p, Q s p → p.Storable) :
    (sessionSystem.restrict fun s op => op.Meets Q s).Invariant Session.Restorable := by
  refine sessionSystem_restrict_invariant (fun id b => ?_) (fun s p h acceptable valid meets => ?_)
    (fun s h => ?_)
  · exact ⟨rfl, fun _ => trivial, fun _ => rfl, fun _ => rfl, fun _ => rfl⟩
  · exact Session.restorable_commitEntry acceptable (storable s p meets) h valid
  · obtain ⟨_, _, _, _, frame⟩ := s.deriveMessages_frame
    rw [frame]
    exact ⟨h.standard, h.loadable, h.events, h.maxEvents, h.view⟩

/-! ## The index as a fold of the log -/

variable (events : List SessionEvent)

def runEvents (r : GoString) : List SessionEvent :=
  events.filter fun e => e.runID = r

/-- The index entry the stored events of a run give. -/
def indexOf : RunIndexEntry :=
  events.foldl (fun entry e => entry.record e.seq e.kind e.payload) .zero

theorem indexOf_concat (e : SessionEvent) :
    indexOf (events ++ [e]) = (indexOf events).record e.seq e.kind e.payload := by
  simp [indexOf]

theorem runEvents_concat (e : SessionEvent) (r : GoString) :
    runEvents (events ++ [e]) r = runEvents events r ++ if e.runID = r then [e] else [] := by
  by_cases own : e.runID = r <;> simp [runEvents, own]

/-- The index entries are the folds of the stored events of their runs. -/
def Session.Indexed (s : Session) : Prop := ∀ r, s.entry r = indexOf (runEvents s.events r)

variable {s : Session}

theorem Session.indexed_commitEntry (h : s.Indexed)
    (acceptable : Acceptable p) (storable : p.Storable) : (s.commitEntry p).Indexed := by
  intro r
  rw [commitEntry_entry, commitEntry_events, runEvents_concat, nextEvent_runID]
  by_cases own : r = p.runID
  · subst own
    rw [if_pos rfl, if_pos rfl, indexOf_concat, payload_nextEvent acceptable storable, h p.runID]
    rfl
  · simp [own, Ne.symm own, h r]

/-- In every run that appends only payloads that survive storage the index is a
function of the stored log. -/
theorem sessionSystem_indexed (storable : ∀ s p, Q s p → p.Storable) :
    (sessionSystem.restrict fun s op => op.Meets Q s).Invariant Session.Indexed := by
  refine sessionSystem_restrict_invariant (fun id b => ?_) (fun s p h acceptable valid meets => ?_)
    (fun s h => ?_)
  · exact fun _ => rfl
  · exact Session.indexed_commitEntry h acceptable (storable s p meets)
  · obtain ⟨_, _, _, _, frame⟩ := s.deriveMessages_frame
    rw [frame]
    exact h

variable {es : List SessionEvent}

/-- Committing stored events indexes them. -/
theorem Session.indexed_commitEvents (indexed : s.Indexed)
    (loadable : s.Loadable es) :
    (s.commitEvents es).Indexed := by
  induction es generalizing s with
  | nil => exact indexed
  | cons e es ih =>
    obtain ⟨⟨_, checked, _⟩, rest⟩ := loadable
    exact ih (indexed_commitEntry indexed (acceptable_toEntry checked) (storable_toEntry e)) rest

/-- The restored session has the index of the log too. -/
theorem Session.indexed_reloaded (h : s.Restorable) (b : Bool) :
    (s.reloaded b).Indexed :=
  indexed_commitEvents (fun _ => rfl) (h.loadable b)

/-! ## Loaded sessions -/

/-- What is known of the log of a session that was loaded. -/
structure Session.Loaded (s : Session) : Prop where
  checked : ∀ e ∈ s.events, validateSessionEvent e.runID e.kind e.data = .ok ()
  indexed : s.Indexed

theorem Session.events_commitEvents (loadable : s.Loadable es) :
    (s.commitEvents es).events = s.events ++ es ∧
      ∀ e ∈ es, validateSessionEvent e.runID e.kind e.data = .ok () := by
  induction es generalizing s with
  | nil => simp [commitEvents]
  | cons e es ih =>
    obtain ⟨⟨place, checked, _⟩, rest⟩ := loadable
    obtain ⟨events, others⟩ := ih rest
    have same : s.nextEvent e.toEntry = e := by
      cases e
      exact congrArg (fun n => SessionEvent.mk n _ _ _) place.symm
    refine ⟨?_, List.forall_mem_cons.mpr ⟨checked, others⟩⟩
    rw [commitEvents, List.foldl_cons, ← commitEvents, events, commitEntry_events, same]
    simp

theorem Session.loaded_of_restore {id : GoString} (h : restore id es = .ok s) :
    s.Loaded := by
  obtain ⟨_, loadable, rfl⟩ := restore_eq_ok.mp h
  obtain ⟨events, checked⟩ := events_commitEvents loadable
  refine ⟨fun e mem => checked e ?_, indexed_commitEvents (fun _ => rfl) loadable⟩
  rw [events] at mem
  simpa [blank, new] using mem

end AutoAgent
