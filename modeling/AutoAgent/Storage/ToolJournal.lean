import AutoAgent.Core.ToolInvocation
import AutoAgent.Lib.Table

/-!
# The journal of tool invocations

The journal fences side effects: before a provider is called, `Begin` inserts a
row for the call, and a row that is already there tells what became of an
earlier attempt.  The key is the session, the run and the call; the row also
keeps the capability, the digest of the arguments and the owner, and a call that
agrees in the key only is a conflict.

`Begin` is several statements: a count, an insert and, when the row exists, a
read.  Other transactions may run between them.  `JournalState` therefore has,
beside the table, the place where every worker stands in the guarded call, and
a history of the answers given and the providers called.  A worker may crash
anywhere, and any statement may fail, with or without having taken effect.
-/

namespace AutoAgent.Storage

open List

/-! ## Rows and records -/

/-- `ToolInvocationState`. -/
inductive InvocationState where
  | started | uncertain | completed
  deriving DecidableEq, Repr

/-- The order in which a row moves through its states. -/
def InvocationState.rank : InvocationState → ℕ
  | .started => 0
  | .uncertain => 1
  | .completed => 2

/-- A row of `tool_invocations`. -/
structure JournalRow where
  invocation : ToolInvocation
  state : InvocationState
  result : RawMessage
  errorCode : GoString
  startedAt : ℤ
  updatedAt : ℤ
  completedAt : ℤ

/-- The row of a session, run and call. -/
def JournalRow.hasKey (i : ToolInvocation) (row : JournalRow) : Bool :=
  row.invocation.sessionID == i.sessionID && row.invocation.runID == i.runID &&
    row.invocation.callID == i.callID

/-- The primary key of `tool_invocations`. -/
def JournalRow.clash (a b : JournalRow) : Bool := a.hasKey b.invocation

/-- The table `tool_invocations`. -/
abbrev JournalTable := Table JournalRow JournalRow.clash

/-- `ToolInvocationRecord`, with its times in milliseconds. -/
structure ToolInvocationRecord where
  invocation : ToolInvocation
  state : InvocationState
  result : Option CapabilityResult
  errorCode : GoString
  startedAt : ℤ
  updatedAt : ℤ
  completedAt : ℤ

def cloneToolInvocationRecord (r : ToolInvocationRecord) : ToolInvocationRecord :=
  { r with result := r.result.map cloneCapabilityResult }

/-- The errors of the journal, one constructor per error path. -/
inductive JournalError where
  /-- the error of `ValidateToolInvocation`, `validate tool invocation record: %w` -/
  | invocation (cause : InvocationError)
  /-- `capability result exceeds hard output limit %d` -/
  | outputTooLarge
  /-- the error of `validateResultMetadata` -/
  | metadata (cause : SessionError)
  /-- `tool invocation not found` -/
  | notFound
  /-- `tool invocation has invalid timestamps` -/
  | timestamps
  /-- `non-completed tool invocation has a durable result` -/
  | unexpectedResult
  /-- `completed tool invocation has no durable result`, `completed tool invocation has no
  result` -/
  | missingResult
  /-- `decode tool invocation result: null is not a capability result` -/
  | nullResult
  /-- `decode tool invocation result: %w` -/
  | decodeResult
  /-- `tool invocation identity conflicts with the durable journal` -/
  | identityConflict
  /-- `tool invocation did not reach completed state` -/
  | notCompleted
  /-- `tool invocation could not be marked uncertain` -/
  | notMarked
  /-- a broken constraint -/
  | duplicate

def validateCapabilityResult (result : CapabilityResult) : Except JournalError Unit := do
  require (result.content.len ≤ hardMaxCapabilityOutputBytes) .outputTooLarge
  (validateResultMetadata result.metadata).mapError .metadata

/-- The stored result, decoded and validated. -/
def decodeResult (raw : RawMessage) : Except JournalError CapabilityResult := do
  match raw.doc with
  | some .null => throw .nullResult
  | _ =>
    match raw.decode CapabilityResult.codec with
    | none => throw .decodeResult
    | some result =>
      validateCapabilityResult result
      return result

/-- The result column of a row: present exactly when the row is completed. -/
def scanResult (row : JournalRow) : Except JournalError (Option CapabilityResult) :=
  match row.state with
  | .started | .uncertain => do
      require (row.result.size = 0 ∧ row.completedAt = 0) .unexpectedResult
      return none
  | .completed => do
      require (row.result.size ≠ 0 ∧ 0 < row.completedAt) .missingResult
      some <$> decodeResult row.result

def scanToolInvocation (row : JournalRow) : Except JournalError ToolInvocationRecord := do
  (validateToolInvocation row.invocation).mapError .invocation
  require (0 < row.startedAt ∧ 0 < row.updatedAt) .timestamps
  let result ← scanResult row
  return cloneToolInvocationRecord
    { invocation := row.invocation, state := row.state, result
      errorCode := row.errorCode, startedAt := row.startedAt, updatedAt := row.updatedAt
      completedAt := row.completedAt }

def getToolInvocation (t : JournalTable) (i : ToolInvocation) :
    Except JournalError ToolInvocationRecord :=
  match t.find (·.hasKey i) with
  | none => .error .notFound
  | some row => scanToolInvocation row

/-! ## The operations -/

/-- `ToolInvocationDecision`. -/
inductive InvocationDecision where
  | executeNew | executeRetry | replay | outcomeUnknown | conflict
  deriving DecidableEq, Repr

def invocationCap (maxInvocations : ℤ) : ℤ := if 0 < maxInvocations then maxInvocations else 8192

/-- The row `sqlInsertToolInvocation` inserts. -/
def newJournalRow (i : ToolInvocation) (now : ℤ) : JournalRow where
  invocation := i
  state := .started
  result := .empty
  errorCode := .empty
  startedAt := now
  updatedAt := now
  completedAt := 0

def existingToolInvocationDecision (record : ToolInvocationRecord) (i : ToolInvocation) :
    Except JournalError (ToolInvocationRecord × InvocationDecision) :=
  if record.invocation ≠ i then .ok (record, .conflict)
  else
    match record.state with
    | .completed =>
      if record.result.isNone then .error .missingResult else .ok (record, .replay)
    | .started | .uncertain =>
      .ok (record, if i.idempotent then .executeRetry else .outcomeUnknown)

def sqlCompleteToolInvocation (i : ToolInvocation) (result : RawMessage) (now : ℤ) :
    Update JournalRow where
  selects row := row.invocation = i ∧ (row.state = .started ∨ row.state = .uncertain)
  set row := { row with
    state := .completed, result, errorCode := .empty, updatedAt := now
    completedAt := now }

def sqlUncertainToolInvocation (i : ToolInvocation) (errorCode : GoString) (now : ℤ) :
    Update JournalRow where
  selects row := row.invocation = i ∧ row.state ≠ .completed
  set row := { row with state := .uncertain, errorCode, updatedAt := now }

/-- `CompleteToolInvocation`, one transaction: it commits only a row that can be
read back as completed. -/
def completeToolInvocation (i : ToolInvocation) (result : CapabilityResult) (now : ℤ)
    (t : JournalTable) : Except JournalError (ToolInvocationRecord × JournalTable) := do
  (validateToolInvocation i).mapError .invocation
  validateCapabilityResult result
  let encoded := RawMessage.ofDoc (CapabilityResult.codec.enc result)
  match t.execute (sqlCompleteToolInvocation i encoded now) with
  | none => throw .duplicate
  | some (_, t') =>
    let record ← getToolInvocation t' i
    require (record.invocation = i) .identityConflict
    require (record.state = .completed ∧ record.result.isSome) .notCompleted
    return (cloneToolInvocationRecord record, t')

/-- `MarkToolInvocationUncertain`, with the table after it. -/
def markToolInvocationUncertain (i : ToolInvocation) (errorCode : GoString) (now : ℤ)
    (t : JournalTable) : Except JournalError Unit × JournalTable :=
  match (validateToolInvocation i).mapError JournalError.invocation with
  | .error e => (.error e, t)
  | .ok () =>
    let errorCode := if 128 < errorCode.len then errorCode.sliceTo 128 else errorCode
    match t.execute (sqlUncertainToolInvocation i errorCode now) with
    | none => (.error .duplicate, t)
    | some (_ + 1, t') => (.ok (), t')
    | some (0, t') =>
      let answer := do
        let record ← getToolInvocation t' i
        require (record.invocation = i) .identityConflict
        require (record.state = .completed) .notMarked
      (answer, t')

/-! ## Guarded calls -/

/-- Where a worker stands in a guarded call. -/
inductive GuardPC where
  | idle
  /-- `Begin` is about to count the rows -/
  | counting (i : ToolInvocation)
  /-- `Begin` is about to insert the row -/
  | inserting (i : ToolInvocation)
  /-- `Begin` is about to read the row -/
  | reading (i : ToolInvocation)
  /-- the guard is about to call the provider -/
  | running (i : ToolInvocation)
  /-- the guard is about to record the result -/
  | completing (i : ToolInvocation) (result : CapabilityResult)
  /-- the guard is about to mark the outcome uncertain -/
  | marking (i : ToolInvocation) (errorCode : GoString)

/-- What happened: an answer of `Begin` with the result of its record, a call of
a provider, an answer of `Complete`. -/
inductive JournalEvent where
  | answered (i : ToolInvocation) (decision : InvocationDecision)
      (result : Option CapabilityResult)
  | ran (i : ToolInvocation)
  | completed (i : ToolInvocation) (result : Option CapabilityResult)

/-- The journal, the workers and what happened so far. -/
structure JournalState where
  table : JournalTable
  workers : ℕ → GuardPC
  history : List JournalEvent

/-- How a provider call ends: with a result, with an error, suspended for an
approval, or with a crash of the worker. -/
inductive ProviderOutcome where
  | ok (result : CapabilityResult)
  | error
  | pending
  | crash

/-- The steps of the workers, and retention. -/
inductive JournalAct where
  /-- a worker enters a guarded call -/
  | start (w : ℕ) (i : ToolInvocation)
  | count (w : ℕ)
  | insert (w : ℕ) (now : ℤ)
  | read (w : ℕ)
  | provider (w : ℕ) (outcome : ProviderOutcome)
  | complete (w : ℕ) (now : ℤ)
  | mark (w : ℕ) (now : ℤ)
  /-- the statement a worker is about to make fails without effect -/
  | fail (w : ℕ)
  /-- the statement a worker is about to make takes effect but reports an error -/
  | lost (w : ℕ) (now : ℤ)
  | crash (w : ℕ)
  /-- `PruneToolInvocations`, which spares what other evidence refers to -/
  | prune (olderThan : ℤ) (spared : JournalRow → Bool)

namespace JournalState

def empty : JournalState := ⟨.empty, fun _ => .idle, []⟩

def goto (s : JournalState) (w : ℕ) (pc : GuardPC) : JournalState :=
  { s with workers := Function.update s.workers w pc }

def log (s : JournalState) (e : JournalEvent) : JournalState :=
  { s with history := s.history ++ [e] }

/-- The rows `PruneToolInvocations` deletes. -/
def prunable (olderThan : ℤ) (spared : JournalRow → Bool) (row : JournalRow) : Bool :=
  row.state = .completed ∧ 0 < row.completedAt ∧ row.completedAt < olderThan ∧ !spared row

/-- The guard's switch over the decision of `Begin`. -/
def afterBegin (i : ToolInvocation) : InvocationDecision → GuardPC
  | .executeNew => .running i
  | .executeRetry => if i.idempotent then .running i else .idle
  | .replay | .outcomeUnknown | .conflict => .idle

/-- `Begin` answers, and the guard moves on. -/
def answer (s : JournalState) (w : ℕ) (i : ToolInvocation) (decision : InvocationDecision)
    (result : Option CapabilityResult) : JournalState :=
  (s.log (.answered i decision result)).goto w (afterBegin i decision)

/-- The code the guard marks a call with whose result was not recorded. -/
def unavailable : GoString := go "tool_journal_unavailable"

/-- One step; nothing when the worker is elsewhere. -/
def act (cap : ℤ) (s : JournalState) : JournalAct → Option JournalState
  | .start w i =>
    match s.workers w, validateToolInvocation i with
    | .idle, .ok () => some (s.goto w (.counting i))
    | _, _ => none
  | .count w =>
    match s.workers w with
    | .counting i =>
      if invocationCap cap ≤ (s.table.rows.length : ℤ) then
        some (s.goto w (.reading i))
      else some (s.goto w (.inserting i))
    | _ => none
  | .insert w now =>
    match s.workers w with
    | .inserting i =>
      match s.table.insert (newJournalRow i now) with
      | some t => some (({ s with table := t }).answer w i .executeNew none)
      | none => some (s.goto w (.reading i))
    | _ => none
  | .read w =>
    match s.workers w with
    | .reading i =>
      match getToolInvocation s.table i >>= (existingToolInvocationDecision · i) with
      | .ok (record, decision) => some (s.answer w i decision record.result)
      | .error _ => some (s.goto w .idle)
    | _ => none
  | .provider w outcome =>
    match s.workers w with
    | .running i =>
      match outcome with
      | .ok result => some ((s.log (.ran i)).goto w (.completing i result))
      | .error => some ((s.log (.ran i)).goto w (.marking i (go "provider_error")))
      | .pending | .crash => some ((s.log (.ran i)).goto w .idle)
    | _ => none
  | .complete w now =>
    match s.workers w with
    | .completing i result =>
      match completeToolInvocation i result now s.table with
      | .ok (record, t) =>
        some ((({ s with table := t }).log (.completed i record.result)).goto w .idle)
      | .error _ => some (s.goto w (.marking i unavailable))
    | _ => none
  | .mark w now =>
    match s.workers w with
    | .marking i errorCode =>
      some (({ s with table := (markToolInvocationUncertain i errorCode now s.table).2 }).goto w
        .idle)
    | _ => none
  | .fail w =>
    match s.workers w with
    | .counting _ | .inserting _ | .reading _ | .marking _ _ => some (s.goto w .idle)
    | .completing i _ => some (s.goto w (.marking i unavailable))
    | .idle | .running _ => none
  | .lost w now =>
    match s.workers w with
    | .inserting i =>
      match s.table.insert (newJournalRow i now) with
      | some t => some (({ s with table := t }).goto w .idle)
      | none => none
    | .completing i result =>
      match completeToolInvocation i result now s.table with
      | .ok (_, t) => some (({ s with table := t }).goto w (.marking i unavailable))
      | .error _ => none
    | .marking i errorCode =>
      some (({ s with table := (markToolInvocationUncertain i errorCode now s.table).2 }).goto w
        .idle)
    | _ => none
  | .crash w => some (s.goto w .idle)
  | .prune olderThan spared =>
    some { s with table := s.table.delete (prunable olderThan spared) }

end JournalState

/-- Any number of workers on one journal. -/
def journalSystem (cap : ℤ) : System JournalState JournalAct where
  init s := s = .empty
  step s a s' := s.act cap a = some s'

/-! ## Rows move forward -/

variable {t t' : JournalTable} {i j : ToolInvocation} {row row' : JournalRow}

/-- A row is replaced by one that is at least as far, and a completed row stays
as it is. -/
def JournalRow.Advances (row row' : JournalRow) : Prop :=
  row'.invocation = row.invocation ∧ row.state.rank ≤ row'.state.rank ∧
    (row.state = .completed → row' = row)

/-- The row of an invocation moves forward, if there is one. -/
def Advances (i : ToolInvocation) (t t' : JournalTable) : Prop :=
  ∀ row ∈ t.rows, row.invocation = i → ∃ row' ∈ t'.rows, row.Advances row'

theorem JournalRow.Advances.refl (row : JournalRow) : row.Advances row :=
  ⟨rfl, le_rfl, fun _ => rfl⟩

theorem Advances.refl (i : ToolInvocation) (t : JournalTable) : Advances i t t :=
  fun row mem _ => ⟨row, mem, .refl row⟩

theorem JournalRow.clash_comm (a b : JournalRow) : a.clash b = b.clash a := by
  simp only [JournalRow.clash, JournalRow.hasKey, Bool.beq_comm (a := a.invocation.sessionID),
    Bool.beq_comm (a := a.invocation.runID), Bool.beq_comm (a := a.invocation.callID)]

/-- An invocation has one row. -/
theorem eq_of_invocation (h : row ∈ t.rows) (h' : row' ∈ t.rows)
    (same : row.invocation = row'.invocation) : row = row' :=
  Table.eq_of_clash JournalRow.clash_comm h h' (by simp [JournalRow.clash, JournalRow.hasKey, same])

theorem advances_of_insert (h : t.insert row = some t') : Advances i t t' := by
  intro old mem _
  exact ⟨old, by rw [rows_of_insert h]; exact mem_append_left _ mem, .refl old⟩

/-- An update that moves the rows it selects forward. -/
theorem advances_of_execute {u : Update JournalRow} {n : ℕ} (h : t.execute u = some (n, t'))
    (moves : ∀ row, u.selects row → row.Advances (u.set row)) : Advances i t t' := by
  intro row mem _
  refine ⟨u.apply row, by rw [(rows_of_execute h).2]; exact mem_map_of_mem mem, ?_⟩
  by_cases selected : u.selects row
  · simpa [Update.apply, selected] using moves row selected
  · simpa [Update.apply, selected] using JournalRow.Advances.refl row

variable {now : ℤ}

theorem advances_sqlCompleteToolInvocation {result : RawMessage}
    (selected : (sqlCompleteToolInvocation j result now).selects row) :
    row.Advances ((sqlCompleteToolInvocation j result now).set row) := by
  obtain ⟨-, open_⟩ := of_decide_eq_true selected
  refine ⟨rfl, ?_, fun state => ?_⟩
  · rcases open_ with state | state <;>
      simp [state, InvocationState.rank, sqlCompleteToolInvocation]
  · rcases open_ with other | other <;> simp [state] at other

variable {errorCode : GoString}

theorem advances_sqlUncertainToolInvocation
    (selected : (sqlUncertainToolInvocation j errorCode now).selects row) :
    row.Advances ((sqlUncertainToolInvocation j errorCode now).set row) := by
  have open_ := (of_decide_eq_true selected).2
  refine ⟨rfl, ?_, fun state => absurd state open_⟩
  cases state : row.state <;> simp_all [InvocationState.rank, sqlUncertainToolInvocation]

/-! ## What the operations return -/

/-- The result a completed row answers with. -/
def JournalRow.durableResult (row : JournalRow) : Option CapabilityResult :=
  (scanToolInvocation row).toOption.bind (·.result)

/-- The journal holds the result of a completed invocation. -/
def Stored (t : JournalTable) (i : ToolInvocation) (result : CapabilityResult) : Prop :=
  ∃ row ∈ t.rows, row.invocation = i ∧ row.state = .completed ∧ row.durableResult = some result

theorem Stored.unique {result result' : CapabilityResult} (h : Stored t i result)
    (h' : Stored t i result') : result = result' := by
  obtain ⟨row, mem, own, _, durable⟩ := h
  obtain ⟨row', mem', own', _, durable'⟩ := h'
  obtain rfl := eq_of_invocation mem mem' (own.trans own'.symm)
  exact some.inj (durable.symm.trans durable')

variable {result : CapabilityResult}

theorem Stored.mono (h : Stored t i result) (advances : Advances i t t') : Stored t' i result := by
  obtain ⟨row, mem, own, state, durable⟩ := h
  obtain ⟨row', mem', _, _, same⟩ := advances row mem own
  exact ⟨row, same state ▸ mem', own, state, durable⟩

theorem cloneToolInvocationRecord_clone (r : ToolInvocationRecord) :
    cloneToolInvocationRecord (cloneToolInvocationRecord r) = cloneToolInvocationRecord r := by
  cases h : r.result <;>
    simp [cloneToolInvocationRecord, cloneCapabilityResult, h, cloneMap_cloneMap]

variable {record : ToolInvocationRecord}

theorem scanToolInvocation_spec (h : scanToolInvocation row = .ok record) :
    record.invocation = row.invocation ∧ record.state = row.state ∧
      cloneToolInvocationRecord record = record := by
  simp only [scanToolInvocation, bind_eq_ok, pure_eq_ok] at h
  obtain ⟨_, _, _, _, _, _, rfl⟩ := h
  exact ⟨rfl, rfl, cloneToolInvocationRecord_clone _⟩

/-- What is read by the key of an invocation is a row of the table. -/
theorem getToolInvocation_spec (h : getToolInvocation t i = .ok record) :
    ∃ row ∈ t.rows, record.invocation = row.invocation ∧ record.state = row.state ∧
      row.durableResult = record.result ∧ cloneToolInvocationRecord record = record := by
  unfold getToolInvocation at h
  split at h
  · cases h
  next row found =>
    obtain ⟨invocation, state, clone⟩ := scanToolInvocation_spec h
    exact ⟨row, mem_of_find?_eq_some found, invocation, state,
      by simp [JournalRow.durableResult, h, Except.toOption], clone⟩

/-- A completed transaction leaves the result it returns in the journal. -/
theorem completeToolInvocation_spec (h : completeToolInvocation i result now t = .ok (record, t')) :
    (∀ j, Advances j t t') ∧ ∃ r, record.result = some r ∧ Stored t' i r := by
  simp only [completeToolInvocation, bind_eq_ok] at h
  obtain ⟨_, _, _, _, h⟩ := h
  split at h
  · cases h
  next executed =>
    simp only [bind_eq_ok, pure_eq_ok, Prod.mk.injEq, require_eq_ok] at h
    obtain ⟨read, found, _, own, _, ⟨completed, some⟩, rfl, rfl⟩ := h
    obtain ⟨row, mem, invocation, state, durable, clone⟩ := getToolInvocation_spec found
    obtain ⟨r, result⟩ := isSome_iff_exists.mp some
    refine ⟨fun j => advances_of_execute executed fun _ => advances_sqlCompleteToolInvocation,
      r, by rw [clone, result], row, mem, invocation.symm.trans own, state.symm.trans completed,
      durable.trans result⟩

theorem advances_markToolInvocationUncertain :
    Advances j t (markToolInvocationUncertain i errorCode now t).2 := by
  unfold markToolInvocationUncertain
  split
  · exact .refl j t
  · dsimp only
    split
    · exact .refl j t
    all_goals exact advances_of_execute ‹_› fun _ => advances_sqlUncertainToolInvocation

/-- An existing row never makes `Begin` answer that the call is new; it allows a
retry of an idempotent call only, and replays what the journal holds. -/
theorem existingToolInvocationDecision_spec {read record : ToolInvocationRecord}
    {decision : InvocationDecision} (found : getToolInvocation t i = .ok read)
    (h : existingToolInvocationDecision read i = .ok (record, decision)) :
    decision ≠ .executeNew ∧ (decision = .executeRetry → i.idempotent) ∧
      (decision = .replay → ∃ r, record.result = some r ∧ Stored t i r) := by
  unfold existingToolInvocationDecision at h
  split at h
  · cases h
    exact ⟨nofun, nofun, nofun⟩
  next own =>
    rw [not_not] at own
    split at h
    next completed =>
      split at h
      · cases h
      next missing =>
        cases h
        refine ⟨nofun, nofun, fun _ => ?_⟩
        obtain ⟨row, mem, invocation, state, durable, _⟩ := getToolInvocation_spec found
        obtain ⟨r, result⟩ := Option.ne_none_iff_exists'.mp (by simpa using missing)
        exact ⟨r, result, row, mem, invocation.symm.trans own, state.symm.trans completed,
          durable.trans result⟩
    all_goals
      cases h
      cases i.idempotent <;> simp

/-! ## At most one execution -/

/-- `Begin` answered that the invocation is to be executed. -/
def JournalEvent.executes (i : ToolInvocation) : JournalEvent → Bool
  | .answered j decision _ => j = i ∧ (decision = .executeNew ∨ decision = .executeRetry)
  | _ => false

/-- The provider was called for the invocation. -/
def JournalEvent.runs (i : ToolInvocation) : JournalEvent → Bool
  | .ran j => j = i
  | _ => false

/-- The result `Complete` or a replay returned for the invocation. -/
def JournalEvent.returned (i : ToolInvocation) : JournalEvent → Option CapabilityResult
  | .answered j .replay result | .completed j result => if j = i then result else none
  | _ => none

namespace JournalState

/-- How often `Begin` answered that the invocation is to be executed. -/
def executions (s : JournalState) (i : ToolInvocation) : ℕ :=
  s.history.countP (JournalEvent.executes i)

/-- How often the provider was called for the invocation. -/
def providerRuns (s : JournalState) (i : ToolInvocation) : ℕ :=
  s.history.countP (JournalEvent.runs i)

/-- The results that were returned for the invocation. -/
def results (s : JournalState) (i : ToolInvocation) : List CapabilityResult :=
  s.history.filterMap (JournalEvent.returned i)

/-- Retention does not delete the row of the invocation. -/
def Retains (i : ToolInvocation) (s : JournalState) : JournalAct → Prop
  | .prune olderThan spared =>
    ∀ row ∈ s.table.rows, row.invocation = i → prunable olderThan spared row = false
  | _ => True

/-- What the journal guarantees for one invocation. -/
structure Once (i : ToolInvocation) (s : JournalState) : Prop where
  /-- an executed invocation has its row -/
  recorded : 0 < s.executions i → ∃ row ∈ s.table.rows, row.invocation = i
  executedOnce : s.executions i ≤ 1
  /-- a worker about to call the provider is the only one, and the first -/
  first : ∀ {w}, s.workers w = .running i → s.executions i = 1 ∧ s.providerRuns i = 0
  alone : ∀ {w w'}, s.workers w = .running i → s.workers w' = .running i → w = w'
  ranOnce : s.providerRuns i ≤ s.executions i
  /-- every returned result is the durable one -/
  durable : ∀ {r}, r ∈ s.results i → Stored s.table i r

variable {s s' : JournalState} {w : ℕ} {pc : GuardPC} {a : JournalAct} {cap : ℤ}

theorem workers_goto_self : (s.goto w pc).workers w = pc := Function.update_self ..

theorem workers_goto_of_ne {w' : ℕ} (ne : w' ≠ w) : (s.goto w pc).workers w' = s.workers w' :=
  Function.update_of_ne ne ..

theorem once_empty : Once i .empty where
  recorded := nofun
  executedOnce := Nat.zero_le _
  first := nofun
  alone := nofun
  ranOnce := le_rfl
  durable := nofun

/-- A worker moves to a place where it is not about to call the provider. -/
theorem Once.goto (once : Once i s) (elsewhere : pc ≠ .running i) : Once i (s.goto w pc) := by
  have before : ∀ {w'}, (s.goto w pc).workers w' = .running i → s.workers w' = .running i := by
    intro w' running
    by_cases own : w' = w
    · subst own
      rw [workers_goto_self] at running
      exact absurd running elsewhere
    · rwa [workers_goto_of_ne own] at running
  exact ⟨once.recorded, once.executedOnce, fun h => once.first (before h),
    fun h h' => once.alone (before h) (before h'), once.ranOnce, once.durable⟩

theorem Once.table (once : Once i s) (advances : Advances i s.table t) :
    Once i { s with table := t } where
  recorded h := by
    obtain ⟨row, mem, own⟩ := once.recorded h
    obtain ⟨row', mem', same, _⟩ := advances row mem own
    exact ⟨row', mem', same.trans own⟩
  executedOnce := once.executedOnce
  first := once.first
  alone := once.alone
  ranOnce := once.ranOnce
  durable h := (once.durable h).mono advances

/-- Something happens that executes nothing, and returns a durable result if it
returns one. -/
theorem Once.log {e : JournalEvent} (once : Once i s) (executes : e.executes i = false)
    (runs : e.runs i = false) (returned : ∀ r ∈ e.returned i, Stored s.table i r) :
    Once i (s.log e) := by
  have executions : (s.log e).executions i = s.executions i := by
    simp [JournalState.executions, JournalState.log, executes]
  have providerRuns : (s.log e).providerRuns i = s.providerRuns i := by
    simp [JournalState.providerRuns, JournalState.log, runs]
  refine ⟨fun h => once.recorded (executions ▸ h), executions ▸ once.executedOnce,
    fun h => ?_, once.alone, by rw [executions, providerRuns]; exact once.ranOnce, fun {r} h => ?_⟩
  · rw [executions, providerRuns]
    exact once.first h
  · simp only [results, JournalState.log, filterMap_append, mem_append,
      mem_filterMap, mem_singleton, exists_eq_left] at h
    rcases h with ⟨e', mem, same⟩ | own
    · exact once.durable (mem_filterMap.mpr ⟨e', mem, same⟩)
    · exact returned r own

/-- The row is inserted and the worker is told to execute: nobody was told
before, since the row would have been there. -/
theorem Once.insert {now : ℤ} (once : Once i s)
    (inserted : s.table.insert (newJournalRow j now) = some t) :
    Once i (({ s with table := t }).answer w j .executeNew none) := by
  have grown := once.table (advances_of_insert inserted)
  by_cases own : j = i
  · subst own
    have never : s.executions j = 0 := by
      by_contra executed
      obtain ⟨row, mem, same⟩ := once.recorded (Nat.pos_of_ne_zero executed)
      have clash : row.clash (newJournalRow j now) := by
        simp [JournalRow.clash, JournalRow.hasKey, newJournalRow, same]
      unfold Table.insert at inserted
      split at inserted
      next apart => exact absurd (apart row mem) (by simp [clash])
      next => cases inserted
    have notRun : s.providerRuns j = 0 := Nat.le_zero.mp (never ▸ once.ranOnce)
    have notRunning : ∀ w', s.workers w' ≠ .running j := by
      intro w' running
      have first := (once.first running).1
      omega
    have executions : (({ s with table := t }).answer w j .executeNew none).executions j = 1 := by
      simpa [answer, JournalState.executions, JournalState.log, JournalState.goto,
        JournalEvent.executes] using never
    have runs : (({ s with table := t }).answer w j .executeNew none).providerRuns j = 0 := by
      simpa [answer, JournalState.providerRuns, JournalState.log, JournalState.goto,
        JournalEvent.runs] using notRun
    have only : ∀ {w'}, (({ s with table := t }).answer w j .executeNew none).workers w' =
        .running j → w' = w := by
      intro w' running
      by_contra other
      exact notRunning w' ((workers_goto_of_ne other).symm.trans running)
    refine ⟨fun _ => ⟨newJournalRow j now, ?_, rfl⟩, executions.le, fun _ => ⟨executions, runs⟩,
      fun h h' => (only h).trans (only h').symm, by omega, fun {r} h => ?_⟩
    · change newJournalRow j now ∈ t.rows
      simp [rows_of_insert inserted]
    · refine grown.durable (r := r) ?_
      simpa [answer, results, JournalState.log, JournalState.goto, JournalEvent.returned] using h
  · exact (grown.log (by simp [JournalEvent.executes, own]) rfl
      (by simp [JournalEvent.returned])).goto
      (by simpa [afterBegin] using own)

/-- The worker that was told to execute calls the provider. -/
theorem Once.provider (once : Once i s) (running : s.workers w = .running j)
    (elsewhere : pc ≠ .running i) : Once i ((s.log (.ran j)).goto w pc) := by
  by_cases own : j = i
  · subst own
    obtain ⟨executed, notRun⟩ := once.first running
    have executions : ((s.log (.ran j)).goto w pc).executions j = 1 := by
      simpa [JournalState.executions, JournalState.log, JournalState.goto,
        JournalEvent.executes] using executed
    have runs : ((s.log (.ran j)).goto w pc).providerRuns j = 1 := by
      simpa [JournalState.providerRuns, JournalState.log, JournalState.goto,
        JournalEvent.runs] using notRun
    have nobody : ∀ w', ((s.log (.ran j)).goto w pc).workers w' ≠ .running j := by
      intro w' other
      by_cases same : w' = w
      · subst same
        rw [workers_goto_self] at other
        exact elsewhere other
      · rw [workers_goto_of_ne same] at other
        exact same (once.alone other running)
    refine ⟨fun _ => once.recorded (by omega), executions.le, fun h => absurd h (nobody _),
      fun h => absurd h (nobody _), by omega, fun {r} h => once.durable (r := r) ?_⟩
    simpa [results, JournalState.log, JournalState.goto, JournalEvent.returned] using h
  · exact (once.log rfl (by simp [JournalEvent.runs, own]) (by simp [JournalEvent.returned])).goto
      elsewhere

/-- An existing row is read: a call that is not idempotent is not executed. -/
theorem Once.read {record : ToolInvocationRecord} {decision : InvocationDecision} (once : Once i s)
    (single : i.idempotent = false)
    (found : getToolInvocation s.table j >>= (existingToolInvocationDecision · j) =
      .ok (record, decision)) : Once i (s.answer w j decision record.result) := by
  obtain ⟨read, found, decided⟩ := bind_eq_ok.mp found
  obtain ⟨notNew, retry, replay⟩ := existingToolInvocationDecision_spec found decided
  have notRetry : j = i → decision ≠ .executeRetry := by
    rintro rfl again
    rw [retry again] at single
    cases single
  refine (once.log ?_ rfl ?_).goto ?_
  · by_cases own : j = i
    · simp [JournalEvent.executes, own, notNew, notRetry own]
    · simp [JournalEvent.executes, own]
  · intro r returned
    cases decision <;> simp only [JournalEvent.returned, Option.mem_def, reduceCtorEq] at returned
    split_ifs at returned with own
    · subst own
      obtain ⟨r', result, stored⟩ := replay rfl
      obtain rfl := some.inj (result.symm.trans returned)
      exact stored
  · cases decision with
    | executeNew => exact absurd rfl notNew
    | executeRetry =>
      have other : j ≠ i := fun own => notRetry own rfl
      simp [afterBegin, retry rfl, other]
    | _ => simp [afterBegin]

/-- Every step moves the row of the invocation forward and keeps the guarantees. -/
theorem act_spec (retains : Retains i s a) (h : s.act cap a = some s') :
    Advances i s.table s'.table ∧ (i.idempotent = false → Once i s → Once i s') := by
  -- a worker moves, and rows move forward, but nothing is executed or answered
  have moves : ∀ {t w pc}, Advances i s.table t → pc ≠ .running i →
      Advances i s.table t ∧ (i.idempotent = false → Once i s →
        Once i (({ s with table := t }).goto w pc)) :=
    fun advances elsewhere => ⟨advances, fun _ once => (once.table advances).goto elsewhere⟩
  have stays := Advances.refl i s.table
  cases a <;> simp only [act] at h
  case prune olderThan spared =>
    cases h
    have advances : Advances i s.table (s.table.delete (prunable olderThan spared)) :=
      fun row mem own => ⟨row, mem_delete.mpr ⟨mem, retains row mem own⟩, .refl row⟩
    exact ⟨advances, fun _ once => once.table advances⟩
  case insert w now =>
    split at h
    · split at h <;> cases h
      next inserted => exact ⟨advances_of_insert inserted, fun _ once => once.insert inserted⟩
      next => exact moves stays nofun
    · cases h
  case complete w now =>
    split at h
    · split at h <;> cases h
      next j _ _ record t completed =>
        obtain ⟨advances, r', result, stored⟩ := completeToolInvocation_spec completed
        refine ⟨advances i, fun _ once => ((once.table (advances i)).log rfl rfl ?_).goto nofun⟩
        intro r returned
        simp only [JournalEvent.returned, Option.mem_def] at returned
        split_ifs at returned with own
        · subst own
          obtain rfl := some.inj (result.symm.trans returned)
          exact stored
      next => exact moves stays nofun
    · cases h
  case mark w now =>
    split at h <;> cases h
    exact moves advances_markToolInvocationUncertain nofun
  case lost w now =>
    split at h
    · split at h <;> cases h
      next inserted => exact moves (advances_of_insert inserted) nofun
    · split at h <;> cases h
      next completed => exact moves ((completeToolInvocation_spec completed).1 i) nofun
    · cases h
      exact moves advances_markToolInvocationUncertain nofun
    · cases h
  case crash w =>
    cases h
    exact moves stays nofun
  case start w j =>
    split at h <;> cases h
    exact moves stays nofun
  case count w =>
    split at h
    · split at h <;> cases h <;> exact moves stays nofun
    · cases h
  case read w =>
    split at h
    · split at h <;> cases h
      next found => exact ⟨stays, fun single once => once.read single found⟩
      next => exact moves stays nofun
    · cases h
  case provider w outcome =>
    split at h
    next running =>
      split at h <;> cases h <;> exact ⟨stays, fun _ once => once.provider running nofun⟩
    · cases h
  case fail w =>
    split at h <;> cases h <;> exact moves stays nofun

/-- For an invocation that is not idempotent and whose row is retained: `Begin`
answers that it is to be executed at most once, its provider is called at most
once, every result that `Complete` or a replay returns is the one the journal
holds, and every step moves the row forward and leaves a completed row as it is. -/
theorem invocation_at_most_once {cap : ℤ} {i : ToolInvocation} (single : i.idempotent = false)
    {s : JournalState} (reach : ((journalSystem cap).restrict (Retains i)).Reachable s) :
    s.executions i ≤ 1 ∧ s.providerRuns i ≤ 1 ∧ (∀ r ∈ s.results i, Stored s.table i r) ∧
      (∀ r ∈ s.results i, ∀ r' ∈ s.results i, r = r') ∧
      ∀ a s', ((journalSystem cap).restrict (Retains i)).step s a s' →
        Advances i s.table s'.table := by
  have once : Once i s := by
    refine System.Invariant.holds ⟨?_, ?_⟩ reach
    · rintro _ rfl
      exact once_empty
    · rintro s a s' once ⟨retains, step⟩
      exact (act_spec retains step).2 single once
  exact ⟨once.executedOnce, once.ranOnce.trans once.executedOnce, fun r mem => once.durable mem,
    fun r mem r' mem' => (once.durable mem).unique (once.durable mem'),
    fun a s' step => (act_spec step.1 step.2).1⟩

/-! ## A call that is retried -/

/-- A call that is not idempotent. -/
def exampleInvocation : ToolInvocation where
  tenantID := go "t"
  subjectID := go "u"
  sessionID := go "s1"
  runID := go "r1"
  callID := go "c1"
  capabilityID := go "demo.charge"
  argsDigest := ⟨List.replicate 64 (.rune '0')⟩
  idempotent := false

/-- One worker executes the call and records its result; another one, which
entered the call before that, gets the recorded result. -/
def executeThenReplay : List JournalAct := [
  .start 0 exampleInvocation, .count 0, .start 1 exampleInvocation, .count 1, .insert 0 1,
  .insert 1 2, .provider 0 (.ok ⟨go "charged", true, []⟩), .complete 0 3, .read 1]

def after (acts : List JournalAct) : JournalState :=
  (acts.foldlM (act 0) empty).getD empty

theorem invocation_at_most_once_replayed :
    (after executeThenReplay).executions exampleInvocation = 1 ∧
      (after executeThenReplay).providerRuns exampleInvocation ≤ 1 ∧
      ((after executeThenReplay).results exampleInvocation).length = 2 ∧
      ∀ r ∈ (after executeThenReplay).results exampleInvocation,
        Stored (after executeThenReplay).table exampleInvocation r := by
  have run : executeThenReplay.foldlM (act 0) empty = some (after executeThenReplay) := rfl
  have reach : ((journalSystem 0).restrict (Retains exampleInvocation)).Reachable
      (after executeThenReplay) := by
    refine System.reachable_of_run (fun a mem {s s'} accepted => ?_) rfl run
    refine ⟨?_, accepted⟩
    simp only [executeThenReplay, mem_cons, not_mem_nil, or_false] at mem
    rcases mem with rfl | rfl | rfl | rfl | rfl | rfl | rfl | rfl | rfl <;> trivial
  obtain ⟨_, ran, stored, _, _⟩ := invocation_at_most_once rfl reach
  exact ⟨by decide, ran, by decide, stored⟩

end JournalState

end AutoAgent.Storage
