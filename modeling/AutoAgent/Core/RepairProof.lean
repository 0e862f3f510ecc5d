import AutoAgent.Core.Repair

/-!
# What a repair establishes

On a serialized log the sets of the scan are the unanswered calls of the open
run (`ScanFacts`), and each synthetic event passes the append rules, because the
call ids it is built from were validated when their events were loaded.  The
repaired log has one more result for every unanswered record and ends the run
as failed.
-/

namespace AutoAgent

open List Session RepairScan
open RepairScan (reset closers ofLog)
open SessionEvent (requestedCalls)

/-! ## The scan finds the unanswered calls -/

section Snoc

variable {run : List SessionEvent} {e : SessionEvent} {id : GoString}

/-- The witness of a split of `run ++ [e]` is the last event or lies before it. -/
theorem split_snoc {P : SessionEvent → Prop} {R : SessionEvent → Prop} :
    (∃ before x after, run ++ [e] = before ++ x :: after ∧ P x ∧ ∀ x' ∈ after, R x') ↔
      P e ∨ ((∃ before x after, run = before ++ x :: after ∧ P x ∧ ∀ x' ∈ after, R x') ∧ R e) := by
  constructor
  · rintro ⟨before, x, after, split, hit, rest⟩
    rcases eq_nil_or_concat after with rfl | ⟨after, last, rfl⟩
    · obtain ⟨_, rfl⟩ : run = before ∧ e = x := by simpa using split
      exact .inl hit
    · rw [concat_eq_append, ← cons_append, ← append_assoc] at split
      obtain ⟨rfl, ⟨⟩⟩ := append_inj' split rfl
      exact .inr ⟨⟨before, x, after, rfl, hit, fun x' mem => rest x' (by simp [mem])⟩,
        rest e (by simp)⟩
  · rintro (hit | ⟨⟨before, x, after, rfl, hit, rest⟩, last⟩)
    · exact ⟨run, e, [], rfl, hit, by simp⟩
    · refine ⟨before, x, after ++ [e], by simp, hit, fun x' mem => ?_⟩
      rcases mem_append.mp mem with old | own
      · exact rest x' old
      · obtain rfl : x' = e := by simpa using own
        exact last

theorem unansweredRequest_snoc : UnansweredRequest (run ++ [e]) id ↔ id ∈ e.requestedCalls ∨
      (UnansweredRequest run id ∧ e.loggedCall ≠ some id ∧ e.resultFor id = none) :=
  split_snoc

theorem unansweredCall_snoc : UnansweredCall (run ++ [e]) id ↔
    e.loggedCall = some id ∨ (UnansweredCall run id ∧ e.resultFor id = none) :=
  split_snoc

end Snoc

/-- The sets of a scan describe a run. -/
structure ScanFacts (scan : RepairScan) (run : List SessionEvent) : Prop where
  expected : ∀ id, id ∈ scan.expected ↔ UnansweredRequest run id
  inFlight : ∀ id, id ∈ scan.inFlight ↔ UnansweredCall run id
  approvals : ∀ id, id ∈ scan.approvals ↔ ∃ a ∈ openApprovals run, a.2.approvalID = id

theorem mem_foldl_insert (calls : List ToolCall) (expected : GoMap Bool) (id : GoString) :
    id ∈ calls.foldl (fun expected call => expected.insert call.id true) expected ↔
      id ∈ calls.map ToolCall.id ∨ id ∈ expected := by
  induction calls generalizing expected with
  | nil => simp
  | cons call calls ih =>
    simp only [foldl_cons, ih, AList.mem_insert, map_cons, mem_cons]
    tauto

/-- The three sets after one event, read off its payload. -/
theorem RepairScan.mem_record (scan : RepairScan) (e : SessionEvent) (id : GoString)
    {opened : List (ℕ × ApprovalRequestedData)}
    (same : id ∈ scan.approvals ↔ ∃ a ∈ opened, a.2.approvalID = id) :
    (id ∈ (scan.record e.kind e.payload).expected ↔ id ∈ e.requestedCalls ∨
        (id ∈ scan.expected ∧ e.loggedCall ≠ some id ∧ e.resultFor id = none)) ∧
    (id ∈ (scan.record e.kind e.payload).inFlight ↔
      e.loggedCall = some id ∨ (id ∈ scan.inFlight ∧ e.resultFor id = none)) ∧
    (id ∈ (scan.record e.kind e.payload).approvals ↔
      ∃ a ∈ scanApproval opened e, a.2.approvalID = id) := by
  unfold requestedCalls loggedCall resultFor
    loggedResult scanApproval
  cases read : e.payload with
  | none => cases kind : e.kind <;> simp [record, same]
  | some d =>
    have kinds := kind_mem read
    cases d <;> simp only [EventData.kinds, mem_cons, not_mem_nil, or_false] at kinds
    case runtimeError => rcases kinds with kind | kind <;> simp [record, kind, same]
    case step => rcases kinds with kind | kind <;> simp [record, kind, same]
    case assistantMessage d => simp [record, kinds, mem_foldl_insert, same]
    case toolCall d => simp [record, kinds, AList.mem_erase, eq_comm, and_comm, same]
    case toolResult d =>
      by_cases own : d.callID = id
      · simp [record, kinds, AList.mem_erase, Option.filter, own, same]
      · simp [record, kinds, AList.mem_erase, Option.filter, own, Ne.symm own, same]
    case approvalRequested d =>
      simp [record, kinds, same, or_and_right, exists_or, or_comm, eq_comm]
    case approvalResolved d =>
      simp only [record, kinds, AList.mem_erase, same, mem_filter]
      refine ⟨by simp, by simp, ?_, ?_⟩
      · rintro ⟨other, a, mem, rfl⟩
        exact ⟨a, ⟨mem, by simpa using other⟩, rfl⟩
      · rintro ⟨a, ⟨mem, other⟩, rfl⟩
        exact ⟨by simpa using other, a, mem, rfl⟩
    all_goals simp [record, kinds, same]

variable {scan : RepairScan} {run : List SessionEvent}

theorem ScanFacts.record (h : ScanFacts scan run) (e : SessionEvent) :
    ScanFacts (scan.record e.kind e.payload) (run ++ [e]) where
  expected id := by
    rw [(scan.mem_record e id (h.approvals id)).1, unansweredRequest_snoc, h.expected]
  inFlight id := by
    rw [(scan.mem_record e id (h.approvals id)).2.1, unansweredCall_snoc, h.inFlight]
  approvals id := by
    rw [openApprovals_snoc]
    exact (scan.mem_record e id (h.approvals id)).2.2

theorem RepairScan.ofLog_snoc (events : List SessionEvent) (e : SessionEvent) :
    ofLog (events ++ [e]) = (ofLog events).step e := by
  simp [ofLog]

theorem openRun_snoc (events : List SessionEvent) (e : SessionEvent) :
    openRun (events ++ [e]) =
      if e.kind = .runStart then some e.runID
      else if e.kind = .runEnd then none else openRun events := by
  simp [openRun]

theorem RepairScan.record_runID (scan : RepairScan) (kind : SessionEventType)
    (data : Option EventData) : (scan.record kind data).runID = scan.runID := by
  unfold record
  split <;> rfl

variable {e : SessionEvent}

/-- A start event alone leaves nothing unanswered. -/
theorem scanFacts_start (start : e.kind = .runStart) :
    ScanFacts (.reset e.runID) [e] := by
  have quiet : e.requestedCalls = [] ∧ e.loggedCall = none ∧ scanApproval [] e = [] := by
    unfold requestedCalls loggedCall scanApproval
    cases read : e.payload with
    | none => simp
    | some d =>
      have kinds := kind_mem read
      rw [start] at kinds
      cases d <;> simp [EventData.kinds] at kinds
      simp
  refine ⟨fun id => ?_, fun id => ?_, fun id => ?_⟩
  · rw [← nil_append [e], unansweredRequest_snoc, quiet.1]
    simp [reset, UnansweredRequest]
  · rw [← nil_append [e], unansweredCall_snoc, quiet.2.1]
    simp [reset, UnansweredCall]
  · simp [reset, openApprovals, quiet.2.2]

variable {events : List SessionEvent}

/-- The scan of a serialized log: no run id when no run is open, and otherwise the
open run with its unanswered calls. -/
theorem ofLog_spec (serialized : Serialized events) (named : ∀ e ∈ events, e.runID ≠ .empty) :
    (openRun events = none → (ofLog events).runID = .empty) ∧
      ∀ r, openRun events = some r → (ofLog events).runID = r ∧
        ScanFacts (ofLog events) (runEvents events r) ∧
        ∀ e ∈ runEvents events r, e.kind ≠ .runEnd := by
  induction serialized with
  | nil => simp [openRun, ofLog, reset]
  | @snoc es e _ start ends inside ih =>
    obtain ⟨closed, opened⟩ := ih fun e' mem => named e' (by simp [mem])
    rw [openRun_snoc, ofLog_snoc, RepairScan.step]
    by_cases isStart : e.kind = .runStart
    · -- the run's first event: nothing of the run lies before it
      have first : runEvents es e.runID = [] := by
        simpa [runEvents] using (start isStart).2
      simp only [isStart, if_true, reduceCtorEq, false_imp_iff, true_and, some.injEq]
      rintro r rfl
      rw [runEvents_concat, first]
      simp only [nil_append, if_true]
      exact ⟨rfl, scanFacts_start isStart, by simp [isStart]⟩
    · by_cases isEnd : e.kind = .runEnd
      · simp [isEnd, reset]
      · simp only [isStart, isEnd, if_false]
        refine ⟨fun none => ?_, fun r some => ?_⟩
        · simp [closed none]
        · obtain ⟨same, facts, unended⟩ := opened r some
          have own : e.runID = r := inside r some
          have nonempty : (ofLog es).runID ≠ .empty := by
            rw [same, ← own]
            exact named e (by simp)
          rw [if_neg nonempty, runEvents_concat, if_pos own]
          refine ⟨by rw [record_runID, same], facts.record e, fun e' mem => ?_⟩
          rcases mem_append.mp mem with old | last
          · exact unended e' old
          · obtain rfl : e' = e := by simpa using last
            exact isEnd

/-! ## The ids of loaded calls -/

/-- A call id that was read from a stored event and accepted. -/
structure SoundID (id : GoString) : Prop where
  valid : id.valid
  accepted : validateToolCallID id = .ok ()

theorem ToolCall.codec_keeps : ToolCall.codec.Keeps fun call => call.id.valid := by
  intro cur d v valid read
  simp only [ToolCall.codec, Codec.struct] at read
  cases d <;> simp only [intoStruct, Field.read, some.injEq, reduceCtorEq, bind_eq_bind,
    bind_eq_some_iff] at read
  · exact read ▸ valid
  · obtain ⟨id, first, _, _, _, _, _, _, rfl⟩ := read
    exact Codec.keeps_string.member valid first

variable {raw : RawMessage}

/-- The calls of a stored assistant message have valid ids. -/
theorem valid_of_decoded_calls {d : AssistantMessageData}
    (h : raw.decode AssistantMessageData.codec = some d) :
    ∀ call ∈ d.calls, call.id.valid := by
  obtain ⟨doc, _, read⟩ := bind_eq_some_iff.mp h
  have both : (∀ call ∈ d.toolCall, call.id.valid) ∧
      ∀ call ∈ d.toolCalls, call.id.valid := by
    simp only [AssistantMessageData.codec, Codec.struct] at read
    cases doc <;> simp only [intoStruct, Field.read, some.injEq, reduceCtorEq, bind_eq_bind,
      bind_eq_some_iff] at read
    · obtain rfl : d = ⟨.empty, none, []⟩ := read.symm
      simp
    · obtain ⟨_, _, single, readSingle, list, readList, rfl⟩ := read
      have zero : ToolCall.codec.zero.id.valid := rfl
      exact ⟨(ToolCall.codec_keeps.ptr zero fun _ => structDoc_ne_null _).member
          (fun a mem => absurd mem (Option.not_mem_none a)) readSingle,
        (ToolCall.codec_keeps.slice zero).member (fun a mem => absurd mem not_mem_nil) readList⟩
  intro call mem
  unfold AssistantMessageData.calls at mem
  split at mem
  · exact both.1 call (by simpa using mem)
  · exact both.2 call mem

theorem valid_of_decoded_call {d : ToolCallData} (h : raw.decode ToolCallData.codec = some d) :
    d.callID.valid := by
  obtain ⟨doc, _, read⟩ := bind_eq_some_iff.mp h
  simp only [ToolCallData.codec, Codec.struct] at read
  cases doc <;> simp only [intoStruct, Field.read, some.injEq, reduceCtorEq, bind_eq_bind,
    bind_eq_some_iff] at read
  · exact read ▸ rfl
  · obtain ⟨id, first, _, _, _, _, rfl⟩ := read
    exact Codec.keeps_string.member rfl first

theorem validateToolCallID_of_validateToolCall {call : ToolCall}
    (h : validateToolCall call = .ok ()) : validateToolCallID call.id = .ok () := by
  simp only [validateToolCall, bind_eq_ok] at h
  obtain ⟨_, _, _, accepted, _⟩ := h
  exact accepted

theorem validateToolCall_of_list {wrap : SessionError → SessionError} {strict : Bool} :
    ∀ {calls : List ToolCall} {seen : List GoString},
      validateToolCallList wrap strict seen calls = .ok () →
        ∀ call ∈ calls, validateToolCall call = .ok () := by
  intro calls
  induction calls with
  | nil => simp
  | cons call calls ih =>
    intro seen h
    simp only [validateToolCallList, bind_eq_ok, mapError_eq_ok] at h
    obtain ⟨_, own, _, _, rest⟩ := h
    exact forall_mem_cons.mpr ⟨own, ih rest⟩

theorem soundID_of_requested
    (checked : validateSessionEvent e.runID e.kind e.data = .ok ()) :
    ∀ id ∈ e.requestedCalls, SoundID id := by
  intro id mem
  unfold requestedCalls at mem
  split at mem
  next d read =>
    have valid := (acceptable_toEntry checked).payload_valid read
    have kind : e.kind = .assistantMessage := by
      simpa [EventData.kinds] using kind_mem read
    have decoded : e.data.decode AssistantMessageData.codec = some d := by
      simpa [SessionEvent.payload, decodeEvent, kind] using read
    obtain ⟨call, inside, rfl⟩ := mem_map.mp mem
    refine ⟨valid_of_decoded_calls decoded call inside, validateToolCallID_of_validateToolCall ?_⟩
    simp only [validateEventData, validateAssistantMessageData] at valid
    split at valid
    · simp only [bind_eq_ok] at valid
      obtain ⟨_, _, _, list, _⟩ := valid
      exact validateToolCall_of_list list call inside
    · simp only [bind_eq_ok] at valid
      obtain ⟨_, list, _⟩ := valid
      exact validateToolCall_of_list list call inside
  next => simp at mem

variable {r code id : GoString}

theorem soundID_of_loggedCall
    (checked : validateSessionEvent e.runID e.kind e.data = .ok ())
    (logged : e.loggedCall = some id) : SoundID id := by
  unfold loggedCall at logged
  split at logged
  next d read =>
    cases logged
    have valid := (acceptable_toEntry checked).payload_valid read
    have kind : e.kind = .toolCall := by simpa [EventData.kinds] using kind_mem read
    have decoded : e.data.decode ToolCallData.codec = some d := by
      simpa [SessionEvent.payload, decodeEvent, kind] using read
    exact ⟨valid_of_decoded_call decoded, validateToolCallID_of_validateToolCall valid⟩
  next => simp at logged

/-! ## The synthetic events pass the append rules -/

theorem cost_string_le (name : String) (s : GoString) :
    (Codec.string.field name s).cost ≤ 6 * name.toList.length + 6 * s.runes.length + 6 := by
  have := Json.size_str_le s.quote
  have length : s.quote.length = s.runes.length := by simp [GoString.quote]
  change 6 * name.toList.length + 4 + (Json.str s.quote).size ≤ _
  omega

/-- The payload of the result of a lost call. -/
abbrev lostData (code id : GoString) : EventData := .toolResult (lostResult code id)

section Lost

variable (known : code = codeToolNotStarted ∨ code = codeToolOutcomeUnknown)

include known

theorem size_lostResult_le (short : id.len ≤ 256) :
    (lostData code id).marshal.size ≤ maxSessionEventDataBytes := by
  have runes := id.length_runes_le
  have own := cost_string_le "call_id" id
  have content := cost_string_le "content" (lostResult code id).content
  have length : (lostResult code id).content.runes.length = id.runes.length + 60 := by
    simp [lostResult, go]
  have flag : (Codec.bool.field "ok" false).cost ≤ 100 := by decide
  have metadata : ((Codec.map .any).omitEmpty "metadata" (lostResult code id).metadata).cost ≤
    300 := by
    simp only [lostResult]
    rcases known with rfl | rfl <;> decide
  change (ToolResultData.codec.enc (lostResult code id)).size ≤ _
  refine le_trans (size_structDoc_le _) ?_
  simp only [map_cons, map_nil, sum_cons, sum_nil, Field.doc_tag, Field.doc_opt]
  have names : "call_id".toList.length = 7 ∧ "content".toList.length = 7 := by decide
  have cap : 100000 ≤ maxSessionEventDataBytes := by decide
  simp only [lostResult] at own content flag metadata length ⊢
  omega

/-- The result of a lost call survives storage. -/
theorem decodeEvent_lostResult (valid : id.valid) :
    (lostData code id).clean ∧ (lostData code id).marshal.depth ≤ maxNestingDepth ∧
      decodeEvent .toolResult (.ofDoc (lostData code id).marshal) = some (lostData code id) := by
  have clean : (lostData code id).clean := by
    have codes : code.valid := by rcases known with rfl | rfl <;> decide
    have content : (lostResult code id).content.valid := by simp +decide [lostResult, valid]
    have metadata : (Codec.map .any).ok (lostResult code id).metadata := by
      simp +decide [lostResult, Codec.map, Codec.any, faithfulAny, Json.inRange, codes, sortedKeys]
    show ToolResultData.codec.ok _ = true
    exact Codec.ok_struct_iff.mpr ⟨valid, content, rfl, metadata⟩
  have shallow : (lostData code id).marshal.depth ≤ maxNestingDepth := by
    have flat : (lostData code id).marshal.depth = 2 := rfl
    rw [flat]
    decide
  exact ⟨clean, shallow, decodeEvent_marshal rfl clean shallow⟩

end Lost

/-- The synthetic event `e` is appended as the entry `p`. -/
structure Ready (e : SessionEvent) (p : PreparedEntry) : Prop where
  payload : repairPayload e = some p.data
  prepared : prepareEntry ⟨e.runID, e.kind, p.data⟩ = .ok p
  raw : p.raw = e.data
  storable : p.Storable
  plain : e.kind ≠ .runStart ∧ e.kind ≠ .runResume ∧ e.kind ≠ .runUsage

section Ready

variable (runID : runIDPattern r)

include runID

theorem ready_of_typed {kind : SessionEventType} {d : EventData}
    (typed : kind ∈ [.toolResult, .runError, .runEnd]) (fits : d.fits kind)
    (clean : d.clean) (shallow : d.marshal.depth ≤ maxNestingDepth)
    (valid : validateEventData kind d = .ok ())
    (bound : d.marshal.size ≤ maxSessionEventDataBytes) :
    ∃ p, Ready (syntheticEvent r kind d) p := by
  have decoded := decodeEvent_marshal fits clean shallow
  have payload : repairPayload (syntheticEvent r kind d) = some (.typed d) := by
    simp only [mem_cons, not_mem_nil, or_false] at typed
    rcases typed with rfl | rfl | rfl <;>
      simpa [repairPayload, syntheticEvent, decodeEvent] using decoded
  have encoded : encodePayload kind (.typed d) = .ok (.ofDoc d.marshal) := by
    simp [encodePayload, encodePayload.bounded, Nat.not_lt.mpr bound]
  refine ⟨⟨r, kind, .typed d, .ofDoc d.marshal⟩, payload, ?_, rfl,
    storable_of_clean rfl clean shallow,
    ?_⟩
  · simp only [prepareEntry, bind_eq_ok, pure_eq_ok, syntheticEvent]
    exact ⟨(), by simp [validateRunID, runID], _, encoded,
      (), by simp [validatePayload, fits, valid],
      rfl⟩
  · refine ⟨?_, ?_, ?_⟩ <;> rintro rfl <;> simp at typed

theorem ready_lostResult
    (known : code = codeToolNotStarted ∨ code = codeToolOutcomeUnknown) (sound : SoundID id) :
    ∃ p, Ready (syntheticEvent r .toolResult (lostData code id)) p := by
  have short : id.len ≤ 256 := by
    have accepted := sound.accepted
    simp only [validateToolCallID, invalidEvent_eq_ok, not_or] at accepted
    omega
  obtain ⟨clean, shallow, _⟩ := decodeEvent_lostResult known sound.valid
  have valid : validateEventData .toolResult (.toolResult (lostResult code id)) = .ok () := by
    simp only [validateEventData, validateToolResultData, bind_eq_ok]
    refine ⟨(), sound.accepted, ?_⟩
    rcases known with rfl | rfl <;> rfl
  exact ready_of_typed runID (by simp) rfl clean shallow valid (size_lostResult_le known short)

theorem length_runes_le_of_runIDPattern : r.runes.length ≤ 128 := by
  obtain ⟨runes⟩ := r
  cases runes with
  | nil => simp
  | cons c rest =>
    simp only [runIDPattern, and_eq_true, decide_eq_true_eq] at runID
    exact Nat.succ_le_succ runID.2

theorem ready_interruptedError :
    ∃ p, Ready (syntheticEvent r .runError (.runtimeError (interruptedError r))) p := by
  have short := length_runes_le_of_runIDPattern runID
  have clean : (EventData.runtimeError (interruptedError r)).clean := by
    have message : (interruptedError r).message.valid := by
      simp +decide [interruptedError, valid_of_runIDPattern runID]
    show RuntimeErrorData.codec.ok _ = true
    exact Codec.ok_struct_iff.mpr ⟨rfl, message, rfl⟩
  have shallow : (EventData.runtimeError (interruptedError r)).marshal.depth ≤ maxNestingDepth := by
    have flat : (EventData.runtimeError (interruptedError r)).marshal.depth = 1 := rfl
    rw [flat]
    decide
  have bound : (EventData.runtimeError (interruptedError r)).marshal.size ≤
      maxSessionEventDataBytes := by
    have code : (Codec.string.field "code" codeRunInterrupted).cost ≤ 200 := by decide
    have message := cost_string_le "message" (interruptedError r).message
    have length : (interruptedError r).message.runes.length = r.runes.length + 94 := by
      simp [interruptedError, go]
    have flag : (Codec.bool.field "retryable" true).cost ≤ 100 := by decide
    change (RuntimeErrorData.codec.enc (interruptedError r)).size ≤ _
    refine le_trans (size_structDoc_le _) ?_
    simp only [map_cons, map_nil, sum_cons, sum_nil, Field.doc_tag]
    have name : "message".toList.length = 7 := by decide
    have cap : 100000 ≤ maxSessionEventDataBytes := by decide
    simp only [interruptedError] at message length ⊢
    omega
  exact ready_of_typed runID (by simp) rfl clean shallow rfl bound

theorem ready_runEnd :
    ∃ p, Ready (syntheticEvent r .runEnd (.runEnd ⟨.failed⟩)) p :=
  ready_of_typed runID (by simp) rfl rfl (by decide) rfl (by decide)

theorem ready_stepEnd :
    ∃ p, Ready (syntheticEvent r .stepEnd (.step ⟨-1⟩)) p := by
  refine ⟨⟨r, .stepEnd, .value (EventData.step ⟨-1⟩).marshal, .ofDoc (EventData.step ⟨-1⟩).marshal⟩,
    rfl, ?_, rfl, ?_, by simp [syntheticEvent]⟩
  · simp only [prepareEntry, bind_eq_ok, pure_eq_ok, syntheticEvent]
    refine ⟨(), by simp [validateRunID, runID], .ofDoc (EventData.step ⟨-1⟩).marshal,
      rfl, (), ?_, rfl⟩
    simp only [validatePayload, validateSessionEvent, bind_eq_ok]
    exact ⟨(), by simp [validateRunID, runID], (), rfl, rfl⟩
  · intro d data
    simp at data

end Ready

/-- The closers without the final `run/end`. -/
def RepairScan.beforeEnd (scan : RepairScan) : List SessionEvent :=
  lostResults scan.runID scan.expected codeToolNotStarted ++
    lostResults scan.runID scan.inFlight codeToolOutcomeUnknown ++
    (if scan.stepOpen then [syntheticEvent scan.runID .stepEnd (.step ⟨-1⟩)] else []) ++
    [syntheticEvent scan.runID .runError (.runtimeError (interruptedError scan.runID))]

theorem closers_eq (scan : RepairScan) : scan.closers =
    scan.beforeEnd ++ [syntheticEvent scan.runID .runEnd (.runEnd ⟨.failed⟩)] := by
  simp [closers, RepairScan.beforeEnd]

/-- What holds of each kind of closer holds of all of them. -/
theorem RepairScan.forall_closers {P : SessionEvent → Prop}
    (expected : ∀ id ∈ scan.expected, P (syntheticEvent scan.runID .toolResult
      (lostData codeToolNotStarted id)))
    (inFlight : ∀ id ∈ scan.inFlight, P (syntheticEvent scan.runID .toolResult
      (lostData codeToolOutcomeUnknown id)))
    (step : P (syntheticEvent scan.runID .stepEnd (.step ⟨-1⟩)))
    (error : P (syntheticEvent scan.runID .runError
      (.runtimeError (interruptedError scan.runID)))) :
    (∀ e ∈ scan.beforeEnd, P e) := by
  intro e mem
  simp only [beforeEnd, lostResults, sortStrings, mem_append, mem_map,
    mem_insertionSort, AList.mem_keys.symm, mem_singleton, mem_ite_nil_right] at mem
  rcases mem with ((⟨id, inside, rfl⟩ | ⟨id, inside, rfl⟩) | ⟨_, rfl⟩) | rfl
  · exact expected id inside
  · exact inFlight id inside
  · exact step
  · exact error

/-- Every closer of a scan whose calls are sound is ready. -/
theorem ready_closers (runID : runIDPattern scan.runID)
    (expected : ∀ id ∈ scan.expected, SoundID id) (inFlight : ∀ id ∈ scan.inFlight, SoundID id) :
    ∀ e ∈ scan.closers, ∃ p, Ready e p := by
  rw [closers_eq]
  refine forall_mem_append.mpr ⟨forall_closers ?_ ?_ (ready_stepEnd runID)
    (ready_interruptedError runID), forall_mem_singleton.mpr (ready_runEnd runID)⟩
  · exact fun id mem => ready_lostResult runID (.inl rfl) (expected id mem)
  · exact fun id mem => ready_lostResult runID (.inr rfl) (inFlight id mem)

/-! ## Appending the closers -/

/-- The parts of an event a synthetic event determines. -/
def SessionEvent.parts (e : SessionEvent) : GoString × SessionEventType × RawMessage :=
  (e.runID, e.kind, e.data)

variable {p : PreparedEntry}

theorem Ready.parts (ready : Ready e p) (s : Session) :
    (s.nextEvent p).parts = e.parts := by
  have prepared := ready.prepared
  simp only [prepareEntry, bind_eq_ok, pure_eq_ok] at prepared
  obtain ⟨_, _, _, _, _, _, same⟩ := prepared
  have runID := congrArg PreparedEntry.runID same
  have kind := congrArg PreparedEntry.kind same
  simp only at runID kind
  simp [SessionEvent.parts, nextEvent, runID, kind, ready.raw]

variable {s : Session}

theorem Ready.valid (ready : Ready e p)
    (room : s.events.length + 1 ≤ s.eventCap) :
    s.validateAppend [p] = .ok () := by
  have parts := ready.parts s
  have kind : p.kind = e.kind := congrArg (fun parts => parts.2.1) parts
  obtain ⟨notStart, notResume, notUsage⟩ := ready.plain
  rw [← kind] at notStart notResume notUsage
  have usage : p.usage = none := by
    unfold PreparedEntry.usage
    split
    next used _ => exact absurd used notUsage
    next => rfl
  refine validateAppend_eq_ok.mpr ⟨room, ⟨?_, ?_, ?_, ?_, ?_⟩, trivial⟩
  · exact fun start => absurd start notStart
  · exact fun resume => absurd resume notResume
  · exact fun used => absurd used notUsage
  · simp [usage]
  · simp [usage]

/-- Ready events are appended one after the other. -/
theorem appendRepair_of_ready {es : List SessionEvent} (ready : ∀ e ∈ es, ∃ p, Ready e p)
    (room : s.events.length + es.length ≤ s.eventCap) (indexed : s.Indexed) :
    ∃ s' news, appendRepair s es = (.ok (), s') ∧ s'.events = s.events ++ news ∧
      news.map SessionEvent.parts = es.map SessionEvent.parts ∧ s'.Indexed := by
  induction es generalizing s with
  | nil => exact ⟨s, [], rfl, by simp, rfl, indexed⟩
  | cons e es ih =>
    obtain ⟨p, own⟩ := ready e (by simp)
    simp only [length_cons] at room
    have valid := own.valid (s := s) (by omega)
    have appended := append_eq_ok.mpr ⟨p, own.prepared, valid, rfl, rfl⟩
    have acceptable := acceptable_of_prepareEntry own.prepared
    obtain ⟨s', news, rest, events, parts, indexed'⟩ :=
      ih (s := s.commitEntry p) (fun e' mem => ready e' (by simp [mem])) (by simp; omega)
        (indexed_commitEntry indexed acceptable own.storable)
    refine ⟨s', s.nextEvent p :: news, ?_, by simp [events], by simp [parts, own.parts], indexed'⟩
    simp [appendRepair, own.payload, appended, rest]

/-! ## The repaired run -/

variable {es es' : List SessionEvent}

theorem resultCount_of_parts (h : es.map SessionEvent.parts = es'.map SessionEvent.parts)
    (id : GoString) : resultCount es id = resultCount es' id := by
  have view : ∀ es, resultCount es id =
      (es.map SessionEvent.parts).countP fun (runID, kind, data) =>
      (resultFor ⟨0, runID, kind, data⟩ id).isSome := fun es => by
    rw [countP_map]
    rfl
  rw [view, view, h]

theorem resultCount_append (es es' : List SessionEvent) (id : GoString) :
    resultCount (es ++ es') id = resultCount es id + resultCount es' id :=
  countP_append

theorem resultFor_lostResult {id' : GoString}
    (known : code = codeToolNotStarted ∨ code = codeToolOutcomeUnknown) (sound : SoundID id')
    (id : GoString) :
    ((syntheticEvent r .toolResult (lostData code id')).resultFor id).isSome =
      decide (id' = id) := by
  have read : (syntheticEvent r .toolResult (lostData code id')).payload =
      some (lostData code id') := (decodeEvent_lostResult known sound.valid).2.2
  have same : (lostResult code id').callID = id' := rfl
  rw [resultFor, loggedResult, read]
  by_cases own : id' = id
  · subst own
    simp [Option.filter, same]
  · simp [Option.filter, same, own]

/-- Only a `tool/result` answers a call. -/
theorem resultFor_eq_none (other : e.kind ≠ .toolResult) (id : GoString) :
    e.resultFor id = none := by
  unfold resultFor loggedResult
  split
  next d read => exact absurd (by simpa [EventData.kinds] using kind_mem read) other
  next => rfl

/-- One result for each call of a group. -/
theorem resultCount_lostResults
    (known : code = codeToolNotStarted ∨ code = codeToolOutcomeUnknown) {calls : GoMap Bool}
    (sound : ∀ id ∈ calls, SoundID id) (id : GoString) :
    resultCount (lostResults r calls code) id = if id ∈ calls then 1 else 0 := by
  have each : ∀ id' ∈ sortStrings calls.keys,
      ((syntheticEvent r .toolResult (lostData code id')).resultFor id).isSome =
        decide (id' = id) := fun id' mem =>
    resultFor_lostResult known
      (sound id' (AList.mem_keys.mpr (by simpa [sortStrings] using mem))) id
  have count : resultCount (lostResults r calls code) id = (sortStrings calls.keys).count id := by
    simp only [resultCount, lostResults, countP_map, List.count]
    refine countP_congr fun id' mem => ?_
    simp [each id' mem]
  have sorted : (sortStrings calls.keys).Perm calls.keys := perm_insertionSort _ _
  rw [count, sorted.count_eq, List.Nodup.count calls.keys_nodup]
  simp only [AList.mem_keys]

/-- The closers answer each unanswered record once. -/
theorem resultCount_closers (expected : ∀ id ∈ scan.expected, SoundID id)
    (inFlight : ∀ id ∈ scan.inFlight, SoundID id) (id : GoString) :
    resultCount scan.closers id =
      (if id ∈ scan.expected then 1 else 0) + if id ∈ scan.inFlight then 1 else 0 := by
  have tail : ∀ flag : Bool, resultCount ((if flag = true then
      [syntheticEvent scan.runID .stepEnd (.step ⟨-1⟩)] else []) ++
        [syntheticEvent scan.runID .runError (.runtimeError (interruptedError scan.runID)),
          syntheticEvent scan.runID .runEnd (.runEnd ⟨.failed⟩)]) id = 0 := by
    intro flag
    cases flag <;> simp [resultCount, resultFor_eq_none, syntheticEvent]
  rw [closers, append_assoc, resultCount_append, resultCount_append, tail,
    resultCount_lostResults (.inl rfl) expected, resultCount_lostResults (.inr rfl) inFlight]
  rfl

/-- The events of a run that mention a call, in the order of a call's life: `0`
for a request, `1` for a `tool/call`, `2` for a `tool/result`. -/
def SessionEvent.mentions (e : SessionEvent) (id : GoString) : List ℕ :=
  (if id ∈ e.requestedCalls then [0] else []) ++ (if e.loggedCall = some id then [1] else []) ++
    if (e.resultFor id).isSome then [2] else []

/-- The id of a call is not used again: it is requested, logged and answered at
most once each, and in this order. -/
def NotReused (run : List SessionEvent) (id : GoString) : Prop :=
  (run.flatMap fun e => e.mentions id).Pairwise (· < ·)

/-- The call was requested or logged. -/
def Mentioned (run : List SessionEvent) (id : GoString) : Prop :=
  ∃ e ∈ run, id ∈ e.requestedCalls ∨ e.loggedCall = some id

/-- An event mentions a call in at most one way. -/
theorem mentions_cases (e : SessionEvent) (id : GoString) :
    (id ∉ e.requestedCalls ∧ e.loggedCall ≠ some id ∧ e.resultFor id = none) ∨
      (id ∈ e.requestedCalls ∧ e.loggedCall ≠ some id ∧ e.resultFor id = none) ∨
      (id ∉ e.requestedCalls ∧ e.loggedCall = some id ∧ e.resultFor id = none) ∨
      (id ∉ e.requestedCalls ∧ e.loggedCall ≠ some id ∧ (e.resultFor id).isSome) := by
  unfold requestedCalls loggedCall resultFor
    loggedResult
  cases e.payload with
  | none => simp
  | some d =>
    cases d with
    | assistantMessage d => by_cases own : id ∈ d.calls.map ToolCall.id <;> simp [own]
    | toolCall d => by_cases own : d.callID = id <;> simp [own]
    | toolResult d => by_cases own : d.callID = id <;> simp [Option.filter, own]
    | _ => simp

/-- What is left of a call that is not reused, by its mentions. -/
structure CallState (run : List SessionEvent) (id : GoString) (ranks : List ℕ) : Prop where
  results : resultCount run id = ranks.count 2
  request : UnansweredRequest run id ↔ 0 ∈ ranks ∧ 1 ∉ ranks ∧ 2 ∉ ranks
  call : UnansweredCall run id ↔ 1 ∈ ranks ∧ 2 ∉ ranks
  mentioned : Mentioned run id ↔ 0 ∈ ranks ∨ 1 ∈ ranks

theorem mentioned_snoc :
    Mentioned (run ++ [e]) id ↔ Mentioned run id ∨ id ∈ e.requestedCalls ∨
    e.loggedCall = some id := by
  simp [Mentioned, or_and_right, exists_or]

theorem callState (fresh : NotReused run id) :
    CallState run id (run.flatMap fun e => e.mentions id) := by
  induction run using List.reverseRecOn with
  | nil => exact ⟨rfl, by simp [UnansweredRequest], by simp [UnansweredCall], by simp [Mentioned]⟩
  | append_singleton run e ih =>
    unfold NotReused at fresh
    rw [flatMap_append, flatMap_singleton] at fresh ⊢
    obtain ⟨before, _, later⟩ := pairwise_append.mp fresh
    obtain ⟨results, request, call, mentioned⟩ := ih before
    have count : resultCount (run ++ [e]) id =
        resultCount run id + if (e.resultFor id).isSome then 1 else 0 := by
      simp [resultCount]
    generalize (run.flatMap fun e => e.mentions id) = ranks at *
    -- the ranks before a mention are smaller than its own
    rcases mentions_cases e id with ⟨h₀, h₁, h₂⟩ | ⟨h₀, h₁, h₂⟩ | ⟨h₀, h₁, h₂⟩ | ⟨h₀, h₁, h₂⟩
    · have own : e.mentions id = [] := by simp [SessionEvent.mentions, h₀, h₁, h₂]
      rw [own, append_nil]
      exact ⟨by simp [count, results, h₂], by simp [unansweredRequest_snoc, request, h₀, h₁, h₂],
        by simp [unansweredCall_snoc, call, h₁, h₂], by simp [mentioned_snoc, mentioned, h₀, h₁]⟩
    · have own : e.mentions id = [0] := by simp [SessionEvent.mentions, h₀, h₁, h₂]
      rw [own] at later ⊢
      obtain rfl : ranks = [] := eq_nil_iff_forall_not_mem.mpr fun x mem => by
        simpa using later x mem 0 (by simp)
      exact ⟨by simp [count, results, h₂], by simp [unansweredRequest_snoc, h₀],
        by simp [unansweredCall_snoc, call, h₁], by simp [mentioned_snoc, h₀]⟩
    · have own : e.mentions id = [1] := by simp [SessionEvent.mentions, h₀, h₁, h₂]
      rw [own] at later ⊢
      have low : 2 ∉ ranks := fun mem => by simpa using later 2 mem 1 (by simp)
      exact ⟨by simp [count, results, h₂], by simp [unansweredRequest_snoc, h₀, h₁],
        by simp [unansweredCall_snoc, h₁, low], by simp [mentioned_snoc, h₁]⟩
    · have own : e.mentions id = [2] := by
        simp [SessionEvent.mentions, h₀, h₁, h₂]
      rw [own]
      have some : e.resultFor id ≠ none := Option.isSome_iff_ne_none.mp h₂
      exact ⟨by simp [count, results, h₂], by simp [unansweredRequest_snoc, h₀, some],
        by simp [unansweredCall_snoc, h₁, some], by simp [mentioned_snoc, mentioned, h₀, h₁]⟩

open Classical in
/-- A call that is not reused has one result or one unanswered record. -/
theorem one_result_of_notReused
    (fresh : NotReused run id) (mentioned : Mentioned run id) :
    resultCount run id + ((if UnansweredRequest run id then 1 else 0) +
      if UnansweredCall run id then 1 else 0) = 1 := by
  obtain ⟨results, request, call, mention⟩ := callState fresh
  unfold NotReused at fresh
  generalize (run.flatMap fun e => e.mentions id) = ranks at *
  have nodup : ranks.Nodup := fresh.imp fun lt => lt.ne
  rw [results, List.Nodup.count nodup]
  by_cases two : 2 ∈ ranks
  · simp [request, call, two]
  · rcases mention.mp mentioned with zero | one
    · by_cases one : 1 ∈ ranks <;> simp [request, call, two, zero, one]
    · simp [request, call, two, one]

/-! ## The theorem -/

theorem exists_of_openRun (h : openRun events = some r) : ∃ e ∈ events, e.runID = r := by
  induction events using List.reverseRecOn with
  | nil => simp [openRun] at h
  | append_singleton events e ih =>
    rw [openRun_snoc] at h
    split at h
    · exact ⟨e, by simp, by simpa using h⟩
    · split at h
      · simp at h
      · obtain ⟨e', mem, same⟩ := ih h
        exact ⟨e', by simp [mem], same⟩

theorem Session.Loaded.runIDPattern (loaded : s.Loaded) (mem : e ∈ s.events) :
    runIDPattern e.runID :=
  (acceptable_toEntry (loaded.checked e mem)).runID

theorem Session.Loaded.named (loaded : s.Loaded) : ∀ e ∈ s.events, e.runID ≠ .empty := by
  intro e mem empty
  have pattern := loaded.runIDPattern mem
  rw [empty] at pattern
  exact absurd pattern (by decide)

/-- The unanswered calls of a loaded log have sound ids. -/
theorem Session.Loaded.sound (loaded : s.Loaded) {r id : GoString} :
    (UnansweredRequest (runEvents s.events r) id → SoundID id) ∧
      (UnansweredCall (runEvents s.events r) id → SoundID id) := by
  have inside : ∀ {before e after}, runEvents s.events r = before ++ e :: after → e ∈ s.events :=
    fun split => (mem_filter.mp (split ▸ by simp : _ ∈ runEvents s.events r)).1
  constructor
  · rintro ⟨before, e, after, split, requested, _⟩
    exact soundID_of_requested (loaded.checked e (inside split)) id requested
  · rintro ⟨before, e, after, split, logged, _⟩
    exact soundID_of_loggedCall (loaded.checked e (inside split)) logged

theorem approvals_eq_nil (facts : ScanFacts scan run) :
    scan.approvals.keys = [] ↔ openApprovals run = [] := by
  constructor
  · intro empty
    refine eq_nil_iff_forall_not_mem.mpr fun a mem => ?_
    have known := AList.mem_keys.mp ((facts.approvals a.2.approvalID).mpr ⟨a, mem, rfl⟩)
    simp [empty] at known
  · intro empty
    refine eq_nil_iff_forall_not_mem.mpr fun id mem => ?_
    obtain ⟨a, inside, _⟩ := (facts.approvals id).mp (AList.mem_keys.mpr mem)
    simp [empty] at inside

/-- When there is something to repair, the repair closes the open run. -/
theorem repairInterrupted_eq (loaded : s.Loaded) (serialized : Serialized s.events)
    (opened : openRun s.events = some r) :
    (ofLog s.events).runID = r ∧ ScanFacts (ofLog s.events) (runEvents s.events r) ∧
      (∀ e ∈ runEvents s.events r, e.kind ≠ .runEnd) ∧ AutoAgent.runIDPattern r ∧
      repairInterrupted s.events =
        if openApprovals (runEvents s.events r) = [] then (ofLog s.events).closers
        else [] := by
  obtain ⟨runID, facts, unended⟩ := (ofLog_spec serialized loaded.named).2 r opened
  obtain ⟨e, mem, same⟩ := exists_of_openRun opened
  refine ⟨runID, facts, unended, same ▸ loaded.runIDPattern mem, ?_⟩
  have named : (ofLog s.events).runID ≠ .empty := by
    rw [runID, ← same]
    exact loaded.named e mem
  simp only [repairInterrupted, named, if_false, ne_eq, approvals_eq_nil facts, ite_not]

theorem closers_runID (scan : RepairScan) : ∀ e ∈ scan.closers, e.runID = scan.runID := by
  rw [closers_eq]
  exact forall_mem_append.mpr ⟨forall_closers (fun _ _ => rfl) (fun _ _ => rfl) rfl
    rfl, forall_mem_singleton.mpr rfl⟩

theorem forall_parts (h : es.map SessionEvent.parts = es'.map SessionEvent.parts)
    {P : GoString × SessionEventType × RawMessage → Prop} (all : ∀ e ∈ es', P e.parts) :
    ∀ e ∈ es, P e.parts := by
  intro e mem
  have image : e.parts ∈ es'.map SessionEvent.parts := h ▸ mem_map_of_mem mem
  obtain ⟨e', mem', same⟩ := mem_map.mp image
  exact same ▸ all e' mem'

theorem beforeEnd_kind (scan : RepairScan) :
    ∀ e ∈ scan.beforeEnd, e.kind ≠ .runEnd ∧ e.kind ≠ .runStart := by
  refine forall_closers (fun _ _ => ?_) (fun _ _ => ?_) ?_ ?_ <;> simp [syntheticEvent]

/-- Appended closers: everything but the last is neither a start nor an end, and
the last ends the run as failed. -/
theorem exists_news_split {news : List SessionEvent}
    (parts : news.map SessionEvent.parts = scan.closers.map SessionEvent.parts) :
    ∃ front last, news = front ++ [last] ∧
      (∀ e ∈ front, e.kind ≠ .runEnd ∧ e.kind ≠ .runStart) ∧
      last.kind = .runEnd ∧ last.endStatus = some .failed := by
  rw [closers_eq, map_append, map_singleton] at parts
  obtain ⟨front, tail, rfl, early, final⟩ := map_eq_append_iff.mp parts
  obtain ⟨last, rfl, same⟩ := map_eq_singleton_iff.mp final
  obtain ⟨_, kind, data⟩ : _ ∧ last.kind = .runEnd ∧
      last.data = .ofDoc (EventData.runEnd ⟨.failed⟩).marshal := by
    simpa [SessionEvent.parts, syntheticEvent] using same
  refine ⟨front, last, rfl, ?_, kind, ?_⟩
  · exact forall_parts early (P := fun parts => parts.2.1 ≠ .runEnd ∧ parts.2.1 ≠ .runStart)
      (beforeEnd_kind scan)
  · have read : last.payload = some (.runEnd ⟨.failed⟩) := by
      rw [SessionEvent.payload, kind, data]
      exact decodeEvent_marshal rfl rfl (by decide)
    simp [endStatus, read]

variable {last : SessionEvent}

/-- The status of a run whose first end is the last of its events. -/
theorem runStatus_of_end (indexed : s.Indexed) (pattern : runIDPattern r)
    {run front : List SessionEvent} (events : runEvents s.events r = run ++ (front ++ [last]))
    (unended : ∀ e ∈ run, e.kind ≠ .runEnd)
    (inner : ∀ e ∈ front, e.kind ≠ .runEnd ∧ e.kind ≠ .runStart) {status : RunStatus}
    (ended : last.endStatus = some status) :
    s.runStatus r = (status, true) := by
  have earlier : ∀ e ∈ run ++ front, e.kind ≠ .runEnd := by
    intro e mem
    rcases mem_append.mp mem with old | new
    · exact unended e old
    · exact (inner e new).1
  have quiet : (run ++ front).findSome? endStatus = none := by
    refine findSome?_eq_none_iff.mpr fun e mem => ?_
    cases status : e.endStatus with
    | none => rfl
    | some _ => exact absurd (kind_of_endStatus status) (earlier e mem)
  have first : (runEvents s.events r).findSome? endStatus = some status := by
    rw [events, ← append_assoc, findSome?_append, quiet]
    simp [ended]
  have order : (runEvents s.events r).Pairwise EndsLast := by
    rw [events, ← append_assoc]
    refine pairwise_append.mpr ⟨?_, pairwise_singleton _ _, ?_⟩
    · exact List.Pairwise.imp_of_mem (R := fun _ _ => True)
        (fun mem _ _ ended => absurd ended (earlier _ mem)) (pairwise_of_forall fun _ _ => trivial)
    · exact fun e mem _ _ ended => absurd ended (earlier e mem)
  rw [runStatus_of_ended indexed r pattern (by rw [indexOf_ended, first]; rfl),
    indexOf_status order first]

/-- Nothing is open after a `run/end`. -/
theorem repairInterrupted_of_end (events : List SessionEvent) (isEnd : last.kind = .runEnd) :
    repairInterrupted (events ++ [last]) = [] := by
  simp [repairInterrupted, ofLog_snoc, RepairScan.step, isEnd, reset]

open Classical in
/-- **Repair closes an interrupted run.**  Let a loaded session have a serialized
log with room for the repair.  Appending the repair succeeds, and a second repair
finds nothing.  There is nothing to repair exactly when no run is open or the
open run waits on an approval.  Otherwise the open run ends as failed, and every
call gains one result for each of its records that was unanswered; a call whose
id is not reused then has exactly one result. -/
theorem repair_closes_open_run {sessionID : GoString} {stored : List SessionEvent} {s : Session}
    (loads : restore sessionID stored = .ok s) (serialized : Serialized s.events)
    (room : s.events.length + (repairInterrupted s.events).length ≤ s.eventCap) :
    ∃ s', appendRepair s (repairInterrupted s.events) = (.ok (), s') ∧
      repairInterrupted s'.events = [] ∧
      (repairInterrupted s.events = [] ↔ openRun s.events = none ∨
        ∃ r, openRun s.events = some r ∧ openApprovals (runEvents s.events r) ≠ []) ∧
      ∀ r, openRun s.events = some r → openApprovals (runEvents s.events r) = [] →
        s'.runStatus r = (.failed, true) ∧
        (∀ id, resultCount (runEvents s'.events r) id = resultCount (runEvents s.events r) id +
          ((if UnansweredRequest (runEvents s.events r) id then 1 else 0) +
            if UnansweredCall (runEvents s.events r) id then 1 else 0)) ∧
        ∀ id, NotReused (runEvents s.events r) id → Mentioned (runEvents s.events r) id →
          resultCount (runEvents s'.events r) id = 1 := by
  have loaded := loaded_of_restore loads
  cases opened : openRun s.events with
  | none =>
    have empty : repairInterrupted s.events = [] := by
      have quiet := (ofLog_spec serialized loaded.named).1 opened
      simp [repairInterrupted, quiet]
    exact ⟨s, by simp [empty, appendRepair], empty, by simp [empty], by simp⟩
  | some r =>
    obtain ⟨runID, facts, unended, pattern, repair⟩ := repairInterrupted_eq loaded serialized opened
    by_cases waiting : openApprovals (runEvents s.events r) = []
    · rw [if_pos waiting] at repair
      have expected : ∀ id ∈ (ofLog s.events).expected, SoundID id := fun id mem =>
        loaded.sound.1 ((facts.expected id).mp mem)
      have inFlight : ∀ id ∈ (ofLog s.events).inFlight, SoundID id := fun id mem =>
        loaded.sound.2 ((facts.inFlight id).mp mem)
      obtain ⟨s', news, appended, events, parts, indexed⟩ := appendRepair_of_ready
        (repair ▸ ready_closers (runID.symm ▸ pattern) expected inFlight) room loaded.indexed
      rw [repair] at parts
      obtain ⟨front, last, rfl, inner, isEnd, ended⟩ := exists_news_split parts
      have own : ∀ e ∈ front ++ [last], e.runID = r :=
        forall_parts parts (P := fun parts => parts.1 = r)
          fun e mem => (closers_runID _ e mem).trans runID
      have run : runEvents s'.events r = runEvents s.events r ++ (front ++ [last]) := by
        rw [events, runEvents, filter_append]
        congr 1
        exact filter_eq_self.mpr fun e mem => by simpa using own e mem
      have count : ∀ id, resultCount (runEvents s'.events r) id =
          resultCount (runEvents s.events r) id +
            ((if UnansweredRequest (runEvents s.events r) id then 1 else 0) +
              if UnansweredCall (runEvents s.events r) id then 1 else 0) := by
        intro id
        rw [run, resultCount_append, resultCount_of_parts parts id,
          resultCount_closers expected inFlight id]
        simp only [facts.expected, facts.inFlight]
      refine ⟨s', appended, ?_, ?_, ?_⟩
      · rw [events, ← append_assoc]
        exact repairInterrupted_of_end _ isEnd
      · rw [repair]
        simp [closers_eq, waiting]
      · rintro _ ⟨rfl⟩ _
        refine ⟨runStatus_of_end indexed pattern run unended inner ended, count, ?_⟩
        intro id fresh mentioned
        rw [count]
        exact one_result_of_notReused fresh mentioned
    · rw [if_neg waiting] at repair
      exact ⟨s, by simp [repair, appendRepair], repair, by simp [repair, waiting],
        fun r' same none => absurd none (by cases same; exact waiting)⟩

/-! ## An interrupted run -/

def echoCall : ToolCall := ⟨go "c1", go "demo.echo", [], .empty⟩

/-- The assistant message that requests it. -/
def requestEntry : AppendEntry :=
  ⟨go "r1", .assistantMessage, .typed (.assistantMessage ⟨.empty, none, [echoCall]⟩)⟩

def resultEntry : AppendEntry :=
  ⟨go "r1", .toolResult, .typed (.toolResult ⟨go "c1", go "done", true, []⟩)⟩

/-- The stored events of a run that was interrupted after the given entries. -/
def interruptedLog (entries : List AppendEntry) : List SessionEvent :=
  ((Session.new (go "s")).appendBatch (startEntry :: entries)).2.events

/-- The log of one run that is still open is serialized. -/
theorem serialized_of_open {first : SessionEvent} {rest : List SessionEvent}
    (start : first.kind = .runStart)
    (inside : ∀ e ∈ rest, e.runID = first.runID ∧ e.kind ≠ .runStart ∧ e.kind ≠ .runEnd) :
    Serialized (first :: rest) := by
  have head : Serialized ([] ++ [first]) := by
    refine .snoc .nil ?_ ?_ ?_
    · simp [openRun]
    · simp [start]
    · simp [openRun]
  suffices h : Serialized (first :: rest) ∧ openRun (first :: rest) = some first.runID from h.1
  induction rest using List.reverseRecOn with
  | nil => exact ⟨head, by simp [openRun, start]⟩
  | append_singleton rest e ih =>
    obtain ⟨serialized, opened⟩ := ih fun e' mem => inside e' (by simp [mem])
    obtain ⟨own, notStart, notEnd⟩ := inside e (by simp)
    rw [← cons_append]
    refine ⟨serialized.snoc (fun h => absurd h notStart) (fun h => absurd h notEnd) ?_, ?_⟩
    · intro r h
      rw [opened] at h
      exact own.trans (some.inj h)
    · rw [openRun_snoc, if_neg notStart, if_neg notEnd, opened]

/-- The session loaded from such a log. -/
def interruptedSession (entries : List AppendEntry) : Session :=
  (restore (go "s") (interruptedLog entries)).toOption.getD (Session.new (go "s"))

/-- A run that was interrupted after requesting a call. -/
theorem repair_closes_open_run_requested_call :
    openRun (interruptedSession [requestEntry]).events = some (go "r1") ∧
      ∃ s', appendRepair (interruptedSession [requestEntry])
          (repairInterrupted (interruptedSession [requestEntry]).events) = (.ok (), s') ∧
        repairInterrupted s'.events = [] ∧ s'.runStatus (go "r1") = (.failed, true) ∧
        resultCount (runEvents s'.events (go "r1")) (go "c1") = 1 := by
  have serialized : Serialized (interruptedSession [requestEntry]).events :=
    serialized_of_open (by decide) (by decide)
  have loads : restore (go "s") (interruptedLog [requestEntry]) =
      .ok (interruptedSession [requestEntry]) := rfl
  obtain ⟨s', appended, again, _, closed⟩ := repair_closes_open_run loads serialized (by decide)
  obtain ⟨status, _, one⟩ := closed (go "r1") (by decide) (by decide)
  exact ⟨by decide, s', appended, again, status, one (go "c1") (by unfold NotReused; decide)
    (by unfold Mentioned; decide)⟩

/-- A call id that was answered and is requested again has two results after the
repair. -/
theorem repair_reused_call_two_results :
    Serialized (interruptedSession [requestEntry, resultEntry, requestEntry]).events ∧
      openRun (interruptedSession [requestEntry, resultEntry, requestEntry]).events =
        some (go "r1") ∧
      resultCount (runEvents (appendRepair
        (interruptedSession [requestEntry, resultEntry, requestEntry])
        (repairInterrupted
          (interruptedSession [requestEntry, resultEntry, requestEntry]).events)).2.events
        (go "r1")) (go "c1") = 2 :=
  ⟨serialized_of_open (by decide) (by decide), by decide, by decide +kernel⟩

end AutoAgent
