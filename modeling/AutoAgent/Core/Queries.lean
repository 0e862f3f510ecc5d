import AutoAgent.Core.Restore

/-!
# Questions about a run

The session answers questions about a run from its index: the status, the
pending approval, whether a call was logged, the result of a call and the usage
total.  Each answer has a plain specification as a scan of the log
(`scanStatus`, `openApprovals`, …), and `ScanAnswers` says that every answer is
the scan's.

**Two conditions.**  The index is built from the values that were appended and
the scan reads what was stored, so payloads have to survive storage.  And a
`run/start` clears the recorded status of its run, so a start must not follow
the end of its run.
-/

namespace AutoAgent

open List AList

/-! ## The questions -/

structure CapabilityResult where
  content : GoString
  ok : Bool
  metadata : AnyMap

def cloneCapabilityResult (result : CapabilityResult) : CapabilityResult :=
  { result with metadata := cloneMap result.metadata }

/-- The result an event records. -/
def ToolResultData.result (d : ToolResultData) : CapabilityResult := ⟨d.content, d.ok, d.metadata⟩

def cloneApprovalRequested (d : ApprovalRequestedData) : ApprovalRequestedData :=
  { d with
    toolCall := cloneToolCall d.toolCall
    resumeCall := cloneToolCall d.resumeCall
    remainingCalls := d.remainingCalls.map cloneToolCall }

/-- The loop over the pending approvals: the greatest sequence number. -/
def latestPending (pending : GoMap ℕ) : ℤ :=
  pending.entries.foldl (fun latest e => if latest < (e.2 : ℤ) then (e.2 : ℤ) else latest) (-1)

namespace Session

def runStatus (s : Session) (runID : GoString) : RunStatus × Bool :=
  if runIDPattern runID then
    match s.runIndex.lookup runID with
    | none => (.unset, false)
    | some entry =>
      if entry.ended then (entry.status, true)
      else if entry.pending.entries ≠ [] then (.waitingApproval, true)
      else (.unset, entry.started)
  else (.unset, false)

def pendingApproval (s : Session) (runID : GoString) :
    Except SessionError (Option ApprovalRequestedData) := do
  validateRunID runID
  match s.runIndex.lookup runID with
  | none => .ok none
  | some entry =>
    if entry.pending.entries = [] then .ok none
    else
      let latest := latestPending entry.pending
      if latest < 0 ∨ (s.events.length : ℤ) ≤ latest then .error .corruptIndex
      else
        match s.events[latest.toNat]? with
        | none => .error .corruptIndex
        | some e =>
          match e.data.decode ApprovalRequestedData.codec with
          | none => .error (.decode .approvalRequested)
          | some d => .ok (some (cloneApprovalRequested d))

def hasToolCall (s : Session) (runID callID : GoString) : Except SessionError Bool := do
  validateRunID runID
  validateToolCallID callID
  match s.runIndex.lookup runID with
  | none => .ok false
  | some entry => .ok (decide (callID ∈ entry.toolCalls))

def toolResult (s : Session) (runID callID : GoString) :
    Except SessionError (Option CapabilityResult) := do
  validateRunID runID
  validateToolCallID callID
  match s.runIndex.lookup runID with
  | none => .ok none
  | some entry =>
    match entry.toolResults.lookup callID with
    | none => .ok none
    | some seq =>
      match s.events[seq]? with
      | none => .ok none
      | some e =>
        match e.data.decode ToolResultData.codec with
        | none => .error (.decode .toolResult)
        | some d => .ok (some (cloneCapabilityResult d.result))

def runUsageTotal (s : Session) (runID : GoString) : TokenUsage :=
  match s.runIndex.lookup runID with
  | none => .zero
  | some entry => entry.usage

def clone (s : Session) : Except SessionError Session := restore s.id s.events

end Session

/-! ## The scans -/

/-- The status a `run/end` event records. -/
def SessionEvent.endStatus (e : SessionEvent) : Option RunStatus :=
  match e.payload with
  | some (.runEnd d) => some d.status
  | _ => none

/-- The call a `tool/call` event records. -/
def SessionEvent.loggedCall (e : SessionEvent) : Option GoString :=
  match e.payload with
  | some (.toolCall d) => some d.callID
  | _ => none

/-- The result a `tool/result` event records. -/
def SessionEvent.loggedResult (e : SessionEvent) : Option ToolResultData :=
  match e.payload with
  | some (.toolResult d) => some d
  | _ => none

/-- One event of the scan for open approvals: a request opens one, a resolution
closes those of its id. -/
def scanApproval (opened : List (ℕ × ApprovalRequestedData)) (e : SessionEvent) :
    List (ℕ × ApprovalRequestedData) :=
  match e.payload with
  | some (.approvalRequested d) => opened ++ [(e.seq, d)]
  | some (.approvalResolved d) => opened.filter fun a => a.2.approvalID ≠ d.approvalID
  | _ => opened

variable (run : List SessionEvent)

/-- The requests of a run that are not resolved, oldest first. -/
def openApprovals : List (ℕ × ApprovalRequestedData) :=
  run.foldl scanApproval []

/-- The first `run/end` decides; otherwise an open approval; otherwise the run is
known by its start. -/
def scanStatus : RunStatus × Bool :=
  match run.findSome? SessionEvent.endStatus with
  | some status => (status, true)
  | none =>
    if openApprovals run ≠ [] then (.waitingApproval, true)
    else (.unset, run.any fun e => e.kind = .runStart)

/-- The result an event records for a call. -/
def SessionEvent.resultFor (e : SessionEvent) (callID : GoString) : Option ToolResultData :=
  e.loggedResult.filter fun d => d.callID = callID

def scanResult (callID : GoString) : Option ToolResultData :=
  run.findSome? fun e => e.resultFor callID

/-- The usage of a run, added up in log order. -/
def scanUsage : TokenUsage :=
  (run.filterMap SessionEvent.usage).foldl (fun u d => u.add d.inputTokens d.outputTokens) .zero

/-- Every question about a run is answered as a scan of the log answers it. -/
structure ScanAnswers (s : Session) : Prop where
  status : ∀ r, s.runStatus r =
    if runIDPattern r then scanStatus (runEvents s.events r) else (.unset, false)
  pending : ∀ r, s.pendingApproval r = do
    validateRunID r
    return (openApprovals (runEvents s.events r)).getLast?.map fun a => cloneApprovalRequested a.2
  calls : ∀ r id, s.hasToolCall r id = do
    validateRunID r
    validateToolCallID id
    return (runEvents s.events r).any fun e => e.loggedCall = some id
  results : ∀ r id, s.toolResult r id = do
    validateRunID r
    validateToolCallID id
    return (scanResult (runEvents s.events r) id).map fun d => cloneCapabilityResult d.result
  usage : ∀ r, s.runUsageTotal r = scanUsage (runEvents s.events r)

/-! ## What an event does to the index, by its payload -/

/-- The event types a payload is expected by. -/
def EventData.kinds : EventData → List SessionEventType
  | .runStart _ => [.runStart]
  | .runResume _ => [.runResume]
  | .runEnd _ => [.runEnd]
  | .runtimeError _ => [.runError, .stepError]
  | .runUsage _ => [.runUsage]
  | .step _ => [.stepStart, .stepEnd]
  | .userMessage _ => [.userMessage]
  | .assistantMessage _ => [.assistantMessage]
  | .assistantChunk _ => [.assistantChunk]
  | .toolCall _ => [.toolCall]
  | .toolResult _ => [.toolResult]
  | .approvalRequested _ => [.approvalRequested]
  | .approvalResolved _ => [.approvalResolved]
  | .contextSummary _ => [.contextSummary]

variable {d : EventData}

theorem EventData.mem_kinds_of_fits {kind : SessionEventType} (h : d.fits kind) :
    kind ∈ d.kinds := by
  cases d <;> cases kind <;> simp [EventData.fits] at h <;> simp [EventData.kinds]

variable {e : SessionEvent}

/-- The type of an event is one its payload is expected by. -/
theorem SessionEvent.kind_mem (h : e.payload = some d) :
    e.kind ∈ d.kinds :=
  EventData.mem_kinds_of_fits (fits_of_decodeEvent h)

export SessionEvent (endStatus kind_mem loggedCall loggedResult resultFor)

/-- `record` field by field, read off the stored event. -/
def RunIndexEntry.recordStored (entry : RunIndexEntry) (e : SessionEvent) : RunIndexEntry where
  started := entry.started || decide (e.kind = .runStart)
  status := if e.kind = .runStart then .unset
    else if entry.ended then entry.status else e.endStatus.getD entry.status
  ended := entry.ended || e.endStatus.isSome
  pending :=
    match e.payload with
    | some (.approvalRequested d) => entry.pending.insert d.approvalID e.seq
    | some (.approvalResolved d) => entry.pending.erase d.approvalID
    | _ => entry.pending
  toolCalls := (e.loggedCall.map (entry.toolCalls.insert · e.seq)).getD entry.toolCalls
  toolResults :=
    match e.loggedResult with
    | some d => if d.callID ∈ entry.toolResults then entry.toolResults
        else entry.toolResults.insert d.callID e.seq
    | none => entry.toolResults
  usage := (e.usage.map fun d => entry.usage.add d.inputTokens d.outputTokens).getD entry.usage
  usageIDs :=
    match e.usage with
    | some d => if d.invocationID = .empty then entry.usageIDs
        else insert d.invocationID entry.usageIDs
    | none => entry.usageIDs

theorem RunIndexEntry.record_eq (entry : RunIndexEntry) (e : SessionEvent) :
    entry.record e.seq e.kind e.payload = entry.recordStored e := by
  unfold recordStored endStatus loggedCall loggedResult
    SessionEvent.usage
  cases read : e.payload with
  | none => cases kind : e.kind <;> simp [record]
  | some d =>
    have kinds := kind_mem read
    cases d <;> simp only [EventData.kinds, mem_cons, not_mem_nil, or_false] at kinds
    case runtimeError => rcases kinds with kind | kind <;> simp [record, kind, EventData.usage]
    case step => rcases kinds with kind | kind <;> simp [record, kind, EventData.usage]
    case runEnd d =>
      cases entry with
      | mk started status ended => cases ended <;> simp [record, kinds, EventData.usage]
    case toolResult d =>
      by_cases known : d.callID ∈ entry.toolResults <;> simp [record, kinds, EventData.usage, known]
    all_goals simp [record, kinds, EventData.usage]

/-- The entry after one more stored event. -/
theorem indexOf_snoc (es : List SessionEvent) (e : SessionEvent) :
    indexOf (es ++ [e]) = (indexOf es).recordStored e := by
  rw [indexOf_concat, RunIndexEntry.record_eq]

/-! ## The index answers as the scan does -/

section Index

variable (es : List SessionEvent)

theorem indexOf_started : (indexOf es).started = es.any fun e => e.kind = .runStart := by
  induction es using List.reverseRecOn with
  | nil => rfl
  | append_singleton es e ih => simp [indexOf_snoc, RunIndexEntry.recordStored, ih]

theorem indexOf_ended : (indexOf es).ended = (es.findSome? endStatus).isSome := by
  induction es using List.reverseRecOn with
  | nil => rfl
  | append_singleton es e ih =>
    simp only [indexOf_snoc, RunIndexEntry.recordStored, ih, findSome?_append]
    cases es.findSome? endStatus <;> simp

/-- The end of a run is never followed by its start. -/
def EndsLast (a b : SessionEvent) : Prop := a.kind = .runEnd → b.kind ≠ .runStart

variable {status : RunStatus}

theorem kind_of_endStatus {e : SessionEvent} (h : e.endStatus = some status) :
    e.kind = .runEnd := by
  unfold endStatus at h
  split at h
  next d read => simpa [EventData.kinds] using kind_mem read
  next => simp at h

theorem indexOf_status {es : List SessionEvent} (order : es.Pairwise EndsLast)
    (h : es.findSome? endStatus = some status) : (indexOf es).status = status := by
  induction es using List.reverseRecOn with
  | nil => simp at h
  | append_singleton es e ih =>
    obtain ⟨before, _, last⟩ := pairwise_append.mp order
    have ended := indexOf_ended es
    cases found : es.findSome? endStatus with
    | some status' =>
      -- the first end lies before `e`, which is therefore no start
      obtain rfl : status' = status := by simpa [found] using h
      obtain ⟨e', mem, own⟩ := exists_of_findSome?_eq_some found
      have later : e.kind ≠ .runStart := last e' mem e (by simp) (kind_of_endStatus own)
      simp [indexOf_snoc, RunIndexEntry.recordStored, later, ended, found, ih before found]
    | none =>
      have own : e.endStatus = some status := by simpa [found] using h
      have notStart : e.kind ≠ .runStart := by simp [kind_of_endStatus own]
      simp [indexOf_snoc, RunIndexEntry.recordStored, notStart, ended, found, own]

theorem mem_indexOf_toolCalls (id : GoString) :
    id ∈ (indexOf es).toolCalls ↔ ∃ e ∈ es, e.loggedCall = some id := by
  induction es using List.reverseRecOn with
  | nil => simp [indexOf, RunIndexEntry.zero]
  | append_singleton es e ih =>
    simp only [indexOf_snoc, RunIndexEntry.recordStored, mem_append, mem_singleton,
      or_and_right, exists_or, exists_eq_left, ← ih]
    cases called : e.loggedCall with
    | none => simp
    | some id' => simp [or_comm, eq_comm]

theorem lookup_indexOf_toolResults (id : GoString) :
    (indexOf es).toolResults.lookup id =
      (es.find? fun e => (e.resultFor id).isSome).map SessionEvent.seq := by
  induction es using List.reverseRecOn with
  | nil => rfl
  | append_singleton es e ih =>
    simp only [indexOf_snoc, RunIndexEntry.recordStored, find?_append]
    cases logged : e.loggedResult with
    | none => simp [resultFor, logged, ih]
    | some d =>
      by_cases own : d.callID = id
      · subst own
        -- an earlier result of the call is kept
        by_cases known : d.callID ∈ (indexOf es).toolResults
        · have found : (es.find? fun e => (e.resultFor d.callID).isSome).isSome := by
            rw [← Option.isSome_map (f := SessionEvent.seq), ← ih, lookup_isSome]
            exact known
          obtain ⟨e', first⟩ := isSome_iff_exists.mp found
          simp [known, ih, first]
        · have missing : (es.find? fun e => (e.resultFor d.callID).isSome) = none := by
            rw [← Option.map_eq_none_iff (f := SessionEvent.seq), ← ih, lookup_eq_none]
            exact known
          have answer : e.resultFor d.callID = some d := by simp [resultFor, logged]
          rw [missing]
          simp [known, answer]
      · have other : e.resultFor id = none := by
          simp [resultFor, logged, Option.filter, own]
        rw [find?_singleton, other]
        dsimp only
        split
        · simp [ih]
        · simp [lookup_insert_ne (Ne.symm own), ih]

theorem indexOf_usage : (indexOf es).usage = scanUsage es := by
  induction es using List.reverseRecOn with
  | nil => rfl
  | append_singleton es e ih =>
    simp only [indexOf_snoc, RunIndexEntry.recordStored, ih, scanUsage]
    cases used : e.usage <;> simp [used]

theorem openApprovals_snoc (e : SessionEvent) :
    openApprovals (es ++ [e]) = scanApproval (openApprovals es) e := by
  simp [openApprovals]

/-- An open request is an event of the run. -/
theorem mem_openApprovals {es : List SessionEvent} {a : ℕ × ApprovalRequestedData}
    (mem : a ∈ openApprovals es) :
    ∃ e ∈ es, e.seq = a.1 ∧ e.payload = some (.approvalRequested a.2) := by
  induction es using List.reverseRecOn with
  | nil => simp [openApprovals] at mem
  | append_singleton es e ih =>
    have old : a ∈ openApprovals es →
        ∃ e' ∈ es ++ [e], e'.seq = a.1 ∧ e'.payload = some (.approvalRequested a.2) := by
      intro mem
      obtain ⟨e', inside, facts⟩ := ih mem
      exact ⟨e', by simp [inside], facts⟩
    rw [openApprovals_snoc] at mem
    unfold scanApproval at mem
    split at mem
    next d read =>
      rcases mem_append.mp mem with before | own
      · exact old before
      · obtain rfl : a = (e.seq, d) := by simpa using own
        exact ⟨e, by simp, rfl, read⟩
    next => exact old (mem_filter.mp mem).1
    next => exact old mem

/-- The pending map holds, for each id with an open request, the sequence number
of its latest one. -/
theorem lookup_indexOf_pending (id : GoString) : (indexOf es).pending.lookup id =
    ((openApprovals es).reverse.find? fun a => a.2.approvalID = id).map Prod.fst := by
  induction es using List.reverseRecOn with
  | nil => rfl
  | append_singleton es e ih =>
    rw [openApprovals_snoc, indexOf_snoc]
    simp only [RunIndexEntry.recordStored]
    unfold scanApproval
    split
    next d read =>
      by_cases own : d.approvalID = id
      · simp [own]
      · simp [lookup_insert_ne (Ne.symm own), own, ih]
    next d read =>
      rw [← filter_reverse, find?_filter]
      by_cases own : d.approvalID = id
      · simp [own, lookup_erase]
      · have closed : ∀ a : ℕ × ApprovalRequestedData, (a.2.approvalID ≠ d.approvalID ∧
            a.2.approvalID = id) = (a.2.approvalID = id) := by
          intro a
          simpa using fun same => same ▸ Ne.symm own
        simp [lookup_erase_ne (Ne.symm own), ih, closed]
    next => exact ih

theorem openApprovals_pairwise {es : List SessionEvent}
    (order : es.Pairwise fun a b => a.seq < b.seq) :
    (openApprovals es).Pairwise fun a b => a.1 < b.1 := by
  induction es using List.reverseRecOn with
  | nil => exact .nil
  | append_singleton es e ih =>
    obtain ⟨before, _, last⟩ := pairwise_append.mp order
    rw [openApprovals_snoc]
    unfold scanApproval
    split
    next d read =>
      refine pairwise_append.mpr ⟨ih before, pairwise_singleton _ _, ?_⟩
      intro a mem b own
      obtain rfl : b = (e.seq, d) := by simpa using own
      obtain ⟨e', inside, seq, _⟩ := mem_openApprovals mem
      exact seq ▸ last e' inside e (by simp)
    next => exact (ih before).filter _
    next => exact ih before

end Index

/-- The loop over the pending approvals computes the greatest entry. -/
theorem latestPending_spec {pending : GoMap ℕ} (nonempty : pending.entries ≠ []) :
    ∃ id seq, pending.lookup id = some seq ∧ latestPending pending = seq ∧
      ∀ id' seq', pending.lookup id' = some seq' → seq' ≤ seq := by
  obtain ⟨m, greatest⟩ := Option.ne_none_iff_exists'.mp
    (mt max?_eq_none_iff.mp (mt map_eq_nil_iff.mp nonempty :
      (pending.entries.map fun e => (e.2 : ℤ)) ≠ []))
  have loop : latestPending pending = max (-1) m := by
    have step : ∀ a b : ℤ, (if a < b then b else a) = max a b := fun a b => (max_def_lt a b).symm
    simp only [latestPending, step]
    rw [← foldl_map (f := fun e : Sigma fun _ : GoString => ℕ => (e.2 : ℤ)), foldl_max, greatest]
    rfl
  obtain ⟨mem, upper⟩ := max?_eq_some_iff.mp greatest
  obtain ⟨⟨id, seq⟩, own, rfl⟩ := mem_map.mp mem
  refine ⟨id, seq, mem_lookup_iff.mpr own, by rw [loop]; dsimp only; omega,
    fun id' seq' found => ?_⟩
  exact_mod_cast upper _ (mem_map_of_mem (mem_lookup_iff.mp found))

variable {es : List SessionEvent}

/-- The latest pending request is the last open one of the scan. -/
theorem latestPending_eq (order : (openApprovals es).Pairwise fun a b => a.1 < b.1)
    {a : ℕ × ApprovalRequestedData} (last : (openApprovals es).getLast? = some a) :
    (indexOf es).pending.entries ≠ [] ∧ latestPending (indexOf es).pending = a.1 := by
  obtain ⟨front, opened⟩ := getLast?_eq_some_iff.mp last
  have own : (indexOf es).pending.lookup a.2.approvalID = some a.1 := by
    simp [lookup_indexOf_pending, opened]
  have nonempty := ne_nil_of_mem (mem_lookup_iff.mp own)
  obtain ⟨id, seq, found, same, upper⟩ := latestPending_spec nonempty
  rw [lookup_indexOf_pending, map_eq_some_iff] at found
  obtain ⟨b, first, rfl⟩ := found
  have high : b.1 ≤ a.1 := by
    have mem := mem_reverse.mp (mem_of_find?_eq_some first)
    rw [opened] at mem order
    rcases mem_append.mp mem with old | new
    · exact ((pairwise_append.mp order).2.2 b old a (by simp)).le
    · rw [mem_singleton.mp new]
  exact ⟨nonempty, by have := upper _ _ own; omega⟩

theorem pending_eq_nil (order : (openApprovals es).Pairwise fun a b => a.1 < b.1) :
    (indexOf es).pending.entries = [] ↔ openApprovals es = [] := by
  cases last : (openApprovals es).getLast? with
  | some a =>
    have some : openApprovals es ≠ [] := fun empty => by simp [empty] at last
    exact iff_of_false (latestPending_eq order last).1 some
  | none =>
    have empty := getLast?_eq_none_iff.mp last
    refine iff_of_true (eq_nil_iff_forall_not_mem.mpr fun e mem => ?_) empty
    have found := mem_lookup_iff.mpr mem
    simp [lookup_indexOf_pending, empty] at found

/-! ## The answers of an indexed session -/

/-- A log that is numbered and whose runs end last. -/
structure Ordered (events : List SessionEvent) : Prop where
  numbered : ∀ (i : ℕ) (e : SessionEvent), events[i]? = some e → e.seq = i
  endsLast : events.Pairwise fun a b => a.runID = b.runID → EndsLast a b

namespace Ordered

variable {events : List SessionEvent} (h : Ordered events) (r : GoString)

include h

theorem seq_lt : (runEvents events r).Pairwise fun a b => a.seq < b.seq := by
  refine List.Pairwise.filter _ (pairwise_iff_getElem.mpr fun i j hi hj lt => ?_)
  rw [h.numbered i _ (getElem?_eq_getElem hi), h.numbered j _ (getElem?_eq_getElem hj)]
  exact lt

theorem run_endsLast : (runEvents events r).Pairwise EndsLast := by
  refine List.Pairwise.imp_of_mem ?_ (List.Pairwise.filter _ h.endsLast)
  intro a b memA memB same
  have idA : a.runID = r := by simpa using (mem_filter.mp memA).2
  have idB : b.runID = r := by simpa using (mem_filter.mp memB).2
  exact same (idA.trans idB.symm)

/-- An event of a run is found under its sequence number. -/
theorem getElem?_seq {e : SessionEvent} (mem : e ∈ runEvents events r) :
    events[e.seq]? = some e := by
  obtain ⟨i, inside, rfl⟩ := mem_iff_getElem.mp (mem_filter.mp mem).1
  rw [h.numbered i _ (getElem?_eq_getElem inside), getElem?_eq_getElem inside]

end Ordered

theorem decode_approvalRequested {d : ApprovalRequestedData}
    (h : e.payload = some (.approvalRequested d)) :
    e.data.decode ApprovalRequestedData.codec = some d := by
  have kind : e.kind = .approvalRequested := by
    simpa [EventData.kinds] using kind_mem h
  simpa [SessionEvent.payload, decodeEvent, kind] using h

theorem decode_toolResult {id : GoString} {d : ToolResultData} (h : e.resultFor id = some d) :
    e.data.decode ToolResultData.codec = some d := by
  have logged : e.loggedResult = some d := (Option.filter_eq_some_iff.mp h).1
  unfold loggedResult at logged
  split at logged
  next d' read =>
    cases logged
    have kind : e.kind = .toolResult := by simpa [EventData.kinds] using kind_mem read
    simpa [SessionEvent.payload, decodeEvent, kind] using read
  next => simp at logged

theorem findSome?_eq_bind_find? {α β : Type} (f : α → Option β) (xs : List α) :
    xs.findSome? f = (xs.find? fun x => (f x).isSome).bind f := by
  induction xs with
  | nil => rfl
  | cons x xs ih =>
    cases hit : f x <;> simp [hit, ih]

namespace Session

variable {s : Session} (indexed : s.Indexed) (ordered : Ordered s.events) (r : GoString)

include indexed

/-- What the index holds for a run: nothing only when the scan finds nothing. -/
theorem lookup_eq : (s.runIndex.lookup r).getD .zero = indexOf (runEvents s.events r) := indexed r

theorem lookup_cases : s.runIndex.lookup r = none ∧ indexOf (runEvents s.events r) = .zero ∨
    s.runIndex.lookup r = some (indexOf (runEvents s.events r)) := by
  rw [← lookup_eq indexed r]
  cases s.runIndex.lookup r <;> simp

theorem hasToolCall_eq (id : GoString) : s.hasToolCall r id = do
    validateRunID r
    validateToolCallID id
    return (runEvents s.events r).any fun e => e.loggedCall = some id := by
  have calls : decide (id ∈ ((s.runIndex.lookup r).getD .zero).toolCalls) =
      (runEvents s.events r).any fun e => e.loggedCall = some id := by
    rw [lookup_eq indexed r, eq_iff_iff]
    simpa using mem_indexOf_toolCalls _ id
  unfold hasToolCall
  rw [← calls]
  cases s.runIndex.lookup r <;> simp [RunIndexEntry.zero, pure, Except.pure]

theorem runUsageTotal_eq : s.runUsageTotal r = scanUsage (runEvents s.events r) := by
  rw [← indexOf_usage, ← lookup_eq indexed r]
  unfold runUsageTotal
  cases s.runIndex.lookup r <;> rfl

theorem runStatus_of_ended (runID : runIDPattern r)
    (ended : (indexOf (runEvents s.events r)).ended) :
    s.runStatus r = ((indexOf (runEvents s.events r)).status, true) := by
  rcases lookup_cases indexed r with ⟨-, zero⟩ | found
  · simp [zero, RunIndexEntry.zero] at ended
  · simp [runStatus, runID, found, ended]

include ordered

theorem runStatus_eq : s.runStatus r =
    if runIDPattern r then scanStatus (runEvents s.events r) else (.unset, false) := by
  have read : s.runStatus r = if runIDPattern r then
      (let entry := (s.runIndex.lookup r).getD .zero
        if entry.ended then (entry.status, true)
        else if entry.pending.entries ≠ [] then (.waitingApproval, true)
        else (.unset, entry.started))
      else (.unset, false) := by
    unfold runStatus
    cases s.runIndex.lookup r <;> rfl
  rw [read, lookup_eq indexed r]
  simp only [indexOf_ended, indexOf_started, scanStatus, ne_eq,
    pending_eq_nil (openApprovals_pairwise (ordered.seq_lt r))]
  cases ended : (runEvents s.events r).findSome? endStatus with
  | none => simp
  | some status => simp [indexOf_status (ordered.run_endsLast r) ended]

theorem pendingApproval_eq : s.pendingApproval r = do
    validateRunID r
    return (openApprovals (runEvents s.events r)).getLast?.map fun a =>
      cloneApprovalRequested a.2 := by
  have order := openApprovals_pairwise (ordered.seq_lt r)
  have empty := pending_eq_nil order
  refine bind_congr fun _ => ?_
  rcases lookup_cases indexed r with ⟨found, zero⟩ | found
  · rw [zero] at empty
    simp [found, empty.mp rfl, pure, Except.pure]
  cases last : (openApprovals (runEvents s.events r)).getLast? with
  | none => simp [found, empty.mpr (getLast?_eq_none_iff.mp last), pure, Except.pure]
  | some a =>
    obtain ⟨nonempty, latest⟩ := latestPending_eq order last
    obtain ⟨e, mem, seq, payload⟩ := mem_openApprovals (mem_of_getLast? last)
    have place := ordered.getElem?_seq r mem
    rw [seq] at place
    have inside := (List.getElem?_eq_some_iff.mp place).1
    have bound : ¬((a.1 : ℤ) < 0 ∨ (s.events.length : ℤ) ≤ (a.1 : ℤ)) := by omega
    simp only [found, nonempty, if_false, latest, bound, Int.toNat_natCast, place,
      decode_approvalRequested payload]
    rfl

theorem toolResult_eq (id : GoString) : s.toolResult r id = do
    validateRunID r
    validateToolCallID id
    return (scanResult (runEvents s.events r) id).map fun d => cloneCapabilityResult d.result := by
  have results := lookup_indexOf_toolResults (runEvents s.events r) id
  refine bind_congr fun _ => bind_congr fun _ => ?_
  rw [scanResult, findSome?_eq_bind_find?]
  cases first : (runEvents s.events r).find? fun e => (e.resultFor id).isSome with
  | none =>
    rw [first] at results
    rcases lookup_cases indexed r with ⟨found, -⟩ | found
    · simp [found, pure, Except.pure]
    · simp [found, results, pure, Except.pure]
  | some e =>
    rw [first] at results
    have answered : (e.resultFor id).isSome = true := by simpa using find?_some first
    obtain ⟨d, answer⟩ := isSome_iff_exists.mp answered
    have place := ordered.getElem?_seq r (mem_of_find?_eq_some first)
    rcases lookup_cases indexed r with ⟨-, zero⟩ | found
    · rw [zero] at results
      cases results
    · simp only [found, results, map_some, place, decode_toolResult answer, bind_some, answer]
      rfl

/-- An indexed and ordered session answers as the scan does. -/
theorem scanAnswers : ScanAnswers s :=
  ⟨runStatus_eq indexed ordered, pendingApproval_eq indexed ordered, hasToolCall_eq indexed,
    toolResult_eq indexed ordered, runUsageTotal_eq indexed⟩

end Session

/-! ## Live and restored sessions -/

/-- The payload survives storage, and a start does not follow the end of its
run. -/
structure Replayable (s : Session) (p : PreparedEntry) : Prop where
  storable : p.Storable
  unended : p.kind = .runStart → ∀ e ∈ s.events, e.runID = p.runID → e.kind ≠ .runEnd

theorem ordered_commitEntry {s : Session} {p : PreparedEntry} (h : Ordered s.events)
    (replayable : Replayable s p) : Ordered (s.commitEntry p).events := by
  rw [Session.commitEntry_events]
  refine ⟨fun i e here => ?_, pairwise_append.mpr ⟨h.endsLast, pairwise_singleton _ _, ?_⟩⟩
  · rcases Nat.lt_trichotomy i s.events.length with lt | rfl | gt
    · exact h.numbered i e (by rwa [getElem?_append_left lt] at here)
    · obtain rfl : s.nextEvent p = e := by simpa using here
      rfl
    · simp [getElem?_eq_none (by simp; omega : (s.events ++ [s.nextEvent p]).length ≤ i)] at here
  · intro e mem e' own same ended
    obtain rfl : e' = s.nextEvent p := by simpa using own
    exact fun start => replayable.unended start e mem same ended

theorem sessionSystem_ordered :
    (sessionSystem.restrict fun s op => op.Meets Replayable s).Invariant
      fun s => Ordered s.events := by
  refine sessionSystem_restrict_invariant (fun id b => ?_) (fun s p h _ _ replayable => ?_)
    (fun s h => ?_)
  · exact ⟨by simp [Session.blank, Session.new], .nil⟩
  · exact ordered_commitEntry h replayable
  · obtain ⟨_, _, _, _, frame⟩ := s.deriveMessages_frame
    rw [frame]
    exact h

/-- Two sessions answer every question alike. -/
structure SameAnswers (s' s : Session) : Prop where
  status : ∀ r, s'.runStatus r = s.runStatus r
  pending : ∀ r, s'.pendingApproval r = s.pendingApproval r
  calls : ∀ r id, s'.hasToolCall r id = s.hasToolCall r id
  results : ∀ r id, s'.toolResult r id = s.toolResult r id
  usage : ∀ r, s'.runUsageTotal r = s.runUsageTotal r

theorem ScanAnswers.same {s' s : Session} (h' : ScanAnswers s') (h : ScanAnswers s)
    (events : s'.events = s.events) : SameAnswers s' s where
  status r := by rw [h'.status, h.status, events]
  pending r := by rw [h'.pending, h.pending, events]
  calls r id := by rw [h'.calls, h.calls, events]
  results r id := by rw [h'.results, h.results, events]
  usage r := by rw [h'.usage, h.usage, events]

/-- The start of a run without a recorded composition. -/
def startEntry : AppendEntry :=
  ⟨go "r1", .runStart, .typed (.runStart ⟨.empty, .empty, .empty, .empty, none⟩)⟩

def endEntry : AppendEntry := ⟨go "r1", .runEnd, .typed (.runEnd ⟨.completed⟩)⟩

/-- A tool call whose id is a hundred stray bytes.  Each is three bytes long once
it was replaced by the replacement character. -/
def strayCallEntry : AppendEntry :=
  ⟨go "r1", .toolCall, .typed (.toolCall ⟨⟨List.replicate 100 (.invalid 255)⟩, go "demo.tool", []⟩)⟩

/-- A run that is started after its end. -/
def restartedSession : Session :=
  ((Session.new (go "s")).appendBatch [endEntry, startEntry]).2

end AutoAgent
