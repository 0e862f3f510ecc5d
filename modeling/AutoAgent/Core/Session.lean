import AutoAgent.Core.Messages
import Mathlib.Data.Finset.Insert

/-!
# The session

A session is an append-only log of events together with three things derived
from it: the set of started runs, an index entry per run, and a cache of the
projected messages.  `appendBatch` validates a whole batch against the log and
the earlier entries of the batch, and only then commits it entry by entry;
`restoreSession` rebuilds a session from stored events.

**State passing.**  `appendBatch` returns the session after the call also when
it fails, so that what a failed call leaves behind is part of its result.

**What is left out.**  The lock, the wall-clock time of events and the session's
immutable identity other than its id.
-/

namespace AutoAgent

structure TokenUsage where
  inputTokens : Int64
  outputTokens : Int64
  deriving DecidableEq, Repr

namespace TokenUsage

def zero : TokenUsage := ⟨0, 0⟩

/-- Addition of both counts, wrapping as Go's `+=` does. -/
def add (u : TokenUsage) (input output : Int64) : TokenUsage :=
  ⟨u.inputTokens + input, u.outputTokens + output⟩

end TokenUsage

/-- `runIndexEntry`: what the session remembers of one run.  The maps send an
approval or call id to the sequence number of its event. -/
structure RunIndexEntry where
  started : Bool
  status : RunStatus
  ended : Bool
  pending : GoMap ℕ
  toolCalls : GoMap ℕ
  toolResults : GoMap ℕ
  usage : TokenUsage
  usageIDs : Finset GoString

/-- The entry of a run that has no event yet. -/
def RunIndexEntry.zero : RunIndexEntry :=
  ⟨false, .unset, false, ∅, ∅, ∅, .zero, ∅⟩

structure Session where
  id : GoString
  events : List SessionEvent
  runStarts : Finset GoString
  runIndex : GoMap RunIndexEntry
  maxEvents : ℕ
  summaryEvents : ℕ
  projCount : ℕ
  projSummaries : ℕ
  projCache : List ChatMessage
  projValid : Bool

namespace Session

/-- `NewSession`. -/
def new (id : GoString) : Session :=
  { id, events := [], runStarts := ∅, runIndex := ∅, maxEvents := 0, summaryEvents := 0,
    projCount := 0, projSummaries := 0, projCache := [], projValid := true }

def eventCap (s : Session) : ℕ := if 0 < s.maxEvents then s.maxEvents else maxSessionEvents

/-- The index entry of a run, zero when there is none. -/
def entry (s : Session) (runID : GoString) : RunIndexEntry :=
  (s.runIndex.lookup runID).getD .zero

end Session

/-! ## Preparing a batch -/

/-- One entry of a batch: the arguments of `Append`. -/
structure AppendEntry where
  runID : GoString
  kind : SessionEventType
  data : Payload

/-- An entry with its stored text: `sessionAppendEntry` after preparation. -/
structure PreparedEntry where
  runID : GoString
  kind : SessionEventType
  data : Payload
  raw : RawMessage

def encodePayload (kind : SessionEventType) : Payload → Except SessionError RawMessage
  | .absent => .ok .empty
  | .unencodable => .error (.encode kind)
  | .typed d => bounded d.marshal
  | .value doc => bounded doc
where
  /-- The size limit of a payload. -/
  bounded (doc : Doc) : Except SessionError RawMessage :=
    if maxSessionEventDataBytes < doc.size then .error .payloadTooLarge else .ok (.ofDoc doc)

/-- The validation of a prepared payload: the struct itself when it is of the
expected type, its stored text otherwise. -/
def validatePayload (runID : GoString) (kind : SessionEventType) (data : Payload)
    (raw : RawMessage) : Except SessionError Unit :=
  match data with
  | .typed d =>
    if d.fits kind then validateEventData kind d else validateSessionEvent runID kind raw
  | _ => validateSessionEvent runID kind raw

/-- The body of the preparation loop of `appendBatch`. -/
def prepareEntry (e : AppendEntry) : Except SessionError PreparedEntry := do
  validateRunID e.runID
  let raw ← encodePayload e.kind e.data
  validatePayload e.runID e.kind e.data raw
  return ⟨e.runID, e.kind, e.data, raw⟩

/-- `eventData`: the struct itself when it is of the expected type, the decoded
text otherwise. -/
def eventData (kind : SessionEventType) (data : Payload) (raw : RawMessage) : Option EventData :=
  match data with
  | .typed d => if d.fits kind then some d else decodeEvent kind raw
  | _ => decodeEvent kind raw

/-- The payload the session reads from a prepared entry. -/
def PreparedEntry.payload (p : PreparedEntry) : Option EventData := eventData p.kind p.data p.raw

/-! ## Validating a batch -/

def addUsageTotal (total : TokenUsage) (input output : Int64) : Except SessionError TokenUsage :=
  if input < 0 ∨ output < 0 ∨ Int64.maxValue - total.inputTokens < input ∨
      Int64.maxValue - total.outputTokens < output
  then .error .usageOverflow
  else .ok (total.add input output)

/-- `usageIndexState`: the usage of one run with the earlier entries of the
batch added. -/
structure UsageIndexState where
  total : TokenUsage
  ids : Finset GoString

/-- What the validation loop has accumulated from the earlier entries. -/
structure BatchState where
  starts : Finset GoString
  usage : GoMap UsageIndexState

/-- The accumulator of the first entry. -/
def BatchState.empty : BatchState := ⟨∅, ∅⟩

namespace Session

/-- `validateRunUsageLocked`. -/
def validateRunUsage (s : Session) (runID : GoString) (data : RunUsageData)
    (usage : GoMap UsageIndexState) : Except SessionError (GoMap UsageIndexState) :=
  let state := (usage.lookup runID).getD ⟨(s.entry runID).usage, ∅⟩
  if data.invocationID ≠ .empty ∧
      (data.invocationID ∈ (s.entry runID).usageIDs ∨ data.invocationID ∈ state.ids) then
    .error (.repeatedInvocation runID data.invocationID)
  else
    match addUsageTotal state.total data.inputTokens data.outputTokens with
    | .error e => .error e
    | .ok total =>
      let ids := if data.invocationID = .empty then state.ids
        else insert data.invocationID state.ids
      .ok (usage.insert runID ⟨total, ids⟩)

/-- The start and resume rules of `validateAppendLocked`. -/
def validateStart (s : Session) (p : PreparedEntry) (starts : Finset GoString) :
    Except SessionError (Finset GoString) :=
  match p.kind with
  | .runStart =>
    if p.runID ∈ s.runStarts ∨ p.runID ∈ starts then .error (.runExists p.runID)
    else .ok (insert p.runID starts)
  | .runResume =>
    if p.runID ∉ s.runStarts ∧ p.runID ∉ starts then .error (.runNotStarted p.runID)
    else .ok starts
  | _ => .ok starts

/-- The usage rule of `validateAppendLocked`. -/
def validateUsage (s : Session) (p : PreparedEntry) (usage : GoMap UsageIndexState) :
    Except SessionError (GoMap UsageIndexState) :=
  match p.kind with
  | .runUsage =>
    match p.payload with
    | some (.runUsage data) => s.validateRunUsage p.runID data usage
    | _ => .error (.decode .runUsage)
  | _ => .ok usage

/-- The body of the loop of `validateAppendLocked`. -/
def validateEntry (s : Session) (b : BatchState) (p : PreparedEntry) :
    Except SessionError BatchState := do
  let starts ← s.validateStart p b.starts
  let usage ← s.validateUsage p b.usage
  return ⟨starts, usage⟩

/-- `validateAppendLocked`. -/
def validateAppend (s : Session) (ps : List PreparedEntry) : Except SessionError Unit :=
  if s.eventCap < s.events.length + ps.length then .error .tooManyEvents
  else do
    let _ ← ps.foldlM s.validateEntry .empty
    return ()

end Session

/-! ## Committing a batch -/

/-- The switch of `indexEvent`: what an event of payload `data` does to the entry
of its run. -/
def RunIndexEntry.record (entry : RunIndexEntry) (seq : ℕ) (kind : SessionEventType)
    (data : Option EventData) : RunIndexEntry :=
  match kind, data with
  | .runStart, _ => { entry with started := true, status := .unset }
  | .runEnd, some (.runEnd d) =>
    if entry.ended then entry else { entry with status := d.status, ended := true }
  | .approvalRequested, some (.approvalRequested d) =>
    { entry with pending := entry.pending.insert d.approvalID seq }
  | .approvalResolved, some (.approvalResolved d) =>
    { entry with pending := entry.pending.erase d.approvalID }
  | .toolCall, some (.toolCall d) =>
    { entry with toolCalls := entry.toolCalls.insert d.callID seq }
  | .toolResult, some (.toolResult d) =>
    if d.callID ∈ entry.toolResults then entry
    else { entry with toolResults := entry.toolResults.insert d.callID seq }
  | .runUsage, some (.runUsage d) =>
    { entry with
      usage := entry.usage.add d.inputTokens d.outputTokens
      usageIDs := if d.invocationID = .empty then entry.usageIDs
        else insert d.invocationID entry.usageIDs }
  | _, _ => entry

namespace Session

def indexEvent (s : Session) (e : SessionEvent) (data : Option EventData) : Session :=
  { s with runIndex := s.runIndex.insert e.runID ((s.entry e.runID).record e.seq e.kind data) }

/-- The update of the projection cache after an event was appended. -/
def updateProjection (s : Session) (p : PreparedEntry) (seq : ℕ) : Session :=
  if p.kind = .contextSummary then
    { s with
      summaryEvents := s.summaryEvents + 1
      projValid := false, projCache := [], projCount := 0 }
  else if s.projValid then
    match projectCommittedData p.kind p.data seq with
    | .message m =>
      { s with projCache := s.projCache ++ [m], projCount := s.events.length }
    | .undecided =>
      { s with projValid := false, projCache := [], projCount := s.events.length }
    | .invisible => { s with projCount := s.events.length }
  else s

def nextEvent (s : Session) (p : PreparedEntry) : SessionEvent :=
  ⟨s.events.length, p.runID, p.kind, p.raw⟩

/-- The part of the commit loop of `appendBatch` that records the event. -/
def logEntry (s : Session) (p : PreparedEntry) : Session :=
  let e := s.nextEvent p
  ({ s with
    runStarts := if p.kind = SessionEventType.runStart then insert p.runID s.runStarts
      else s.runStarts
    events := s.events ++ [e] } : Session).indexEvent e p.payload

/-- The body of the commit loop of `appendBatch`. -/
def commitEntry (s : Session) (p : PreparedEntry) : Session :=
  (s.logEntry p).updateProjection p s.events.length

def appendBatch (s : Session) (entries : List AppendEntry) :
    Except SessionError (List SessionEvent) × Session :=
  if entries.isEmpty then (.error .emptyBatch, s)
  else
    match entries.mapM prepareEntry with
    | .error e => (.error e, s)
    | .ok ps =>
      match s.validateAppend ps with
      | .error e => (.error e, s)
      | .ok () =>
        let s' := ps.foldl commitEntry s
        (.ok (s'.events.drop s.events.length), s')

/-- `Append`: a batch of one, whose event the source returns. -/
def append (s : Session) (e : AppendEntry) : Except SessionError (List SessionEvent) × Session :=
  s.appendBatch [e]

/-! ## Restoring -/

/-- The part of the loop of `RestoreSession` that records an event. -/
def storeEvent (s : Session) (e : SessionEvent) : Session :=
  let s := ({ s with events := s.events ++ [e] } : Session).indexEvent e e.payload
  if e.kind = .contextSummary then { s with summaryEvents := s.summaryEvents + 1 } else s

/-- The part of the loop of `RestoreSession` that records run starts. -/
def storeStart (s : Session) (e : SessionEvent) : Except SessionError Session :=
  if e.kind = .runStart then
    if e.runID ∈ s.runStarts then .error (.duplicateStart e.runID)
    else .ok { s with runStarts := insert e.runID s.runStarts }
  else if e.kind = .runResume ∧ e.runID ∉ s.runStarts then .error (.resumeBeforeStart e.runID)
  else .ok s

/-- The body of the loop of `RestoreSession`. -/
def restoreEvent (s : Session) (index : ℕ) (e : SessionEvent) : Except SessionError Session :=
  if e.seq ≠ index then .error (.discontinuous index)
  else do
    (validateSessionEvent e.runID e.kind e.data).mapError (.atEvent index)
    (s.validateAppend [⟨e.runID, e.kind, .absent, e.data⟩]).mapError (.atEvent index)
    (s.storeEvent e).storeStart e

/-- The loop of `RestoreSession`, from event number `index` on. -/
def restoreEvents (s : Session) (index : ℕ) : List SessionEvent → Except SessionError Session
  | [] => .ok s
  | e :: es => do
      let s ← s.restoreEvent index e
      restoreEvents s (index + 1) es

/-- `RestoreSession`. -/
def restore (id : GoString) (events : List SessionEvent) : Except SessionError Session :=
  let s := Session.new id
  if s.eventCap < events.length then .error .tooManyEvents
  else restoreEvents { s with projValid := events.isEmpty } 0 events

/-! ## What a committed entry changes -/

section Commit

variable (s : Session) (p : PreparedEntry) (seq : ℕ) (runID : GoString)

/-- The projection cache is all that changes. -/
@[simp] theorem updateProjection_frame : (s.updateProjection p seq).events = s.events ∧
    (s.updateProjection p seq).runStarts = s.runStarts ∧
    (s.updateProjection p seq).runIndex = s.runIndex ∧
    (s.updateProjection p seq).maxEvents = s.maxEvents ∧ (s.updateProjection p seq).id = s.id ∧
    (s.updateProjection p seq).projSummaries = s.projSummaries := by
  unfold updateProjection
  repeat' split
  all_goals exact ⟨rfl, rfl, rfl, rfl, rfl, rfl⟩

theorem updateProjection_summaryEvents :
    (s.updateProjection p seq).summaryEvents =
      if p.kind = .contextSummary then s.summaryEvents + 1 else s.summaryEvents := by
  unfold updateProjection
  by_cases summary : p.kind = .contextSummary
  · simp [summary]
  · repeat' split
    all_goals rfl

@[simp] theorem commitEntry_events :
    (s.commitEntry p).events = s.events ++ [s.nextEvent p] := by
  simp [commitEntry, logEntry, indexEvent]

@[simp] theorem commitEntry_runStarts :
    (s.commitEntry p).runStarts =
      if p.kind = .runStart then insert p.runID s.runStarts else s.runStarts := by
  simp [commitEntry, logEntry, indexEvent]

@[simp] theorem commitEntry_maxEvents : (s.commitEntry p).maxEvents = s.maxEvents := by
  simp [commitEntry, logEntry, indexEvent]

@[simp] theorem commitEntry_id : (s.commitEntry p).id = s.id := by
  simp [commitEntry, logEntry, indexEvent]

@[simp] theorem commitEntry_eventCap : (s.commitEntry p).eventCap = s.eventCap := by
  simp [eventCap]

@[simp] theorem commitEntry_projSummaries :
    (s.commitEntry p).projSummaries = s.projSummaries := by
  simp [commitEntry, logEntry, indexEvent]

@[simp] theorem commitEntry_summaryEvents :
    (s.commitEntry p).summaryEvents =
      if p.kind = .contextSummary then s.summaryEvents + 1 else s.summaryEvents := by
  simp [commitEntry, updateProjection_summaryEvents, logEntry, indexEvent]

/-- A committed entry changes the index entry of its own run only. -/
theorem commitEntry_entry :
    (s.commitEntry p).entry runID =
      if runID = p.runID then (s.entry runID).record s.events.length p.kind p.payload
      else s.entry runID := by
  simp only [commitEntry, logEntry, entry, updateProjection_frame, indexEvent, nextEvent]
  by_cases same : runID = p.runID
  · subst same
    simp
  · rw [AList.lookup_insert_ne same, if_neg same]

/-- A cache that is valid after a commit was valid before, and was extended by the
message of the committed struct if there is one. -/
theorem commitEntry_projection (valid : (s.commitEntry p).projValid) :
    p.kind ≠ .contextSummary ∧ s.projValid ∧ (s.commitEntry p).projCount = s.events.length + 1 ∧
      ((∃ m, projectCommittedData p.kind p.data s.events.length = .message m ∧
          (s.commitEntry p).projCache = s.projCache ++ [m]) ∨
        (projectCommittedData p.kind p.data s.events.length = .invisible ∧
          (s.commitEntry p).projCache = s.projCache)) := by
  have logged : (s.logEntry p).projValid = s.projValid := rfl
  unfold commitEntry updateProjection at valid ⊢
  split at valid
  · simp at valid
  next other =>
    split at valid
    next live =>
      simp only [other, if_false, live, if_true, ne_eq, not_false_eq_true, true_and]
      rw [logged] at live
      split at valid
      next m message => simp [logEntry, indexEvent, live, message]
      next => simp at valid
      next hidden => simp [logEntry, indexEvent, live, hidden]
    next dead => exact absurd valid dead

@[simp] theorem nextEvent_seq : (s.nextEvent p).seq = s.events.length := rfl

@[simp] theorem nextEvent_kind : (s.nextEvent p).kind = p.kind := rfl

@[simp] theorem nextEvent_runID : (s.nextEvent p).runID = p.runID := rfl

@[simp] theorem nextEvent_data : (s.nextEvent p).data = p.raw := rfl

end Commit

end Session

end AutoAgent
