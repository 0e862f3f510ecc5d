import AutoAgent.Core.FusedProjection
import AutoAgent.Core.Restore
import AutoAgent.Core.Shadowing

/-!
# The projection cache against a full recomputation

A live session extends its message cache on append; a restored one recomputes
the messages from the whole log, shadowing the events every summary covers.  The
two agree when each summary covers only events that are already in the log
(`SummarisesPast`) and each payload survives storage: an event appended later
then lies behind every range, so the full recomputation emits all summaries
before it and appends its message as the cache does.

A summary whose range reaches beyond the log separates them.  The recomputation
shadows the events appended into the range, the cache keeps them.
-/

namespace AutoAgent

open Session (commitEntry_events deriveMessages blank new restore)

/-! ## The message of a committed struct -/

theorem cloneToolCall_of_ok {call : ToolCall} (ok : ToolCall.codec.ok call)
    (shallow : (ToolCall.codec.enc call).depth ≤ maxNestingDepth) : cloneToolCall call = call := by
  have args : cloneMap call.args = call.args := by
    by_cases empty : call.args = []
    · rw [empty]
      rfl
    · refine cloneMap_of_ok ?_ ?_
      · exact (Codec.ok_struct_iff.mp ok).2.2.1
      · have deeper : ((Codec.map .any).enc call.args).depth < (ToolCall.codec.enc call).depth :=
          Codec.depth_lt_struct (f := (Codec.map .any).opt "args" ToolCall.args) (by simp)
            (by simpa [Codec.opt, Codec.map] using empty)
        omega
  simp [cloneToolCall, args]

/-- The calls of a message that survives storage are copied as they are. -/
theorem clone_calls_of_clean {d : AssistantMessageData}
    (clean : (EventData.assistantMessage d).clean)
    (shallow : (EventData.assistantMessage d).marshal.depth ≤ maxNestingDepth) :
    d.toolCall.map cloneToolCall = d.toolCall ∧ d.toolCalls.map cloneToolCall = d.toolCalls := by
  change AssistantMessageData.codec.ok d = true at clean
  obtain ⟨_, single, list⟩ := Codec.ok_struct_iff.mp clean
  change (AssistantMessageData.codec.enc d).depth ≤ _ at shallow
  constructor
  · cases call : d.toolCall with
    | none => rfl
    | some c =>
      have deeper : (ToolCall.ptrCodec.enc d.toolCall).depth <
          (AssistantMessageData.codec.enc d).depth :=
        Codec.depth_lt_struct (f := ToolCall.ptrCodec.opt "tool_call" AssistantMessageData.toolCall)
          (by simp) (by simp [Codec.opt, ToolCall.ptrCodec, Codec.ptr, call])
      change ToolCall.ptrCodec.ok d.toolCall = true at single
      rw [call] at single deeper
      simp [cloneToolCall_of_ok single (deeper.le.trans shallow)]
  · refine (List.map_congr_left fun c mem => ?_).trans (List.map_id _)
    have deeper : ((Codec.slice ToolCall.codec).enc d.toolCalls).depth <
        (AssistantMessageData.codec.enc d).depth :=
      Codec.depth_lt_struct
        (f := (Codec.slice ToolCall.codec).opt "tool_calls" AssistantMessageData.toolCalls)
        (by simp) (by simpa [Codec.opt, Codec.slice] using List.ne_nil_of_mem mem)
    have item := ToolCall.codec.depth_lt_slice mem
    exact cloneToolCall_of_ok (List.all_eq_true.mp list c mem) (by omega)

variable {p : PreparedEntry}

/-- The message the cache is extended by is the message the stored event gives. -/
theorem projectEvent_of_committed (acceptable : Acceptable p) (storable : p.Storable) (s : Session)
    {m : ChatMessage} (h : projectCommittedData p.kind p.data s.events.length = .message m) :
    projectEvent (s.nextEvent p) = some m := by
  have stored := payload_nextEvent acceptable storable s
  unfold projectCommittedData at h
  split at h <;> cases h
  all_goals
    rename_i d kind data
    simp only [PreparedEntry.payload, eventData, data, kind, EventData.fits, if_true] at stored
  case h_2 =>
    obtain ⟨clean, shallow⟩ := storable _ data (by rw [kind]; rfl)
    obtain ⟨single, list⟩ := clone_calls_of_clean clean shallow
    simp [projectEvent, kind, stored, projectData, single, list]
  all_goals simp [projectEvent, kind, stored, projectData]

/-! ## The cache is the recomputation -/

/-- The payload survives storage, and a summary covers only events that are
already in the log. -/
structure Settled (s : Session) (p : PreparedEntry) : Prop where
  storable : p.Storable
  past : ∀ d, p.payload = some (.contextSummary d) → d.stop.toInt ≤ s.events.length

/-- The cache holds what a full recomputation returns. -/
structure CacheFull (s : Session) : Prop where
  numbered : ∀ (i : ℕ) (e : SessionEvent), s.events[i]? = some e → e.seq = i
  past : PastSummaries s.events
  cache : s.projValid → fullDerive s.events = .ok s.projCache

variable {s : Session}

theorem proper_of_valid {kind : SessionEventType} {d : ContextSummaryData}
    (h : validateEventData kind (.contextSummary d) = .ok ()) : d.start.toInt ≤ d.stop.toInt := by
  simp only [validateEventData, validateContextSummaryData, invalidEvent_eq_ok, not_or,
    Int64.lt_iff_toInt_lt] at h
  omega

theorem cacheFull_commitEntry (h : CacheFull s) (acceptable : Acceptable p)
    (settled : Settled s p) :
    CacheFull (s.commitEntry p) := by
  refine ⟨fun i e here => ?_, fun i e d here payload => ?_, fun valid => ?_⟩
  · rw [commitEntry_events] at here
    rcases getElem?_concat here with old | ⟨rfl, rfl⟩
    · exact h.numbered i e old
    · rfl
  · rw [commitEntry_events] at here
    rcases getElem?_concat here with old | ⟨rfl, rfl⟩
    · exact h.past i e d old payload
    · rw [payload_nextEvent acceptable settled.storable] at payload
      exact ⟨proper_of_valid (acceptable.payload_valid payload), settled.past d payload⟩
  · obtain ⟨other, live, _, extended⟩ := Session.commitEntry_projection s p valid
    have grown := fullDerive_concat h.numbered h.past (h.cache live) (Session.nextEvent_seq s p)
      (by simpa using other)
    rw [commitEntry_events, grown]
    rcases extended with ⟨m, message, cached⟩ | ⟨hidden, cached⟩
    · simp [cached, projectEvent_of_committed acceptable settled.storable s message]
    · have unseen : modelVisibleEvent (s.nextEvent p) = false :=
        modelVisibleEvent_of_invisible (e := s.nextEvent p) hidden
      simp [cached, projectEvent_eq_none unseen]

theorem cacheFull_deriveMessages (shape : CacheShape s) (h : CacheFull s) :
    CacheFull s.deriveMessages.2 := by
  unfold deriveMessages
  split
  · exact h
  · split
    next delta =>
      -- a valid cache is never behind the log
      obtain ⟨live, _, _, behind⟩ := delta
      have := (shape.current live).1
      omega
    next =>
      split
      · exact h
      next out derived => exact ⟨h.numbered, h.past, fun _ => derived⟩

theorem sessionSystem_cacheFull :
    (sessionSystem.restrict fun s op => op.Meets Settled s).Invariant
      fun s => CacheShape s ∧ CacheFull s := by
  refine sessionSystem_restrict_invariant (fun id b => ?_)
    (fun s p ⟨shape, full⟩ acceptable _ settled => ?_) (fun s ⟨shape, full⟩ => ?_)
  · exact ⟨⟨rfl, fun _ => ⟨rfl, rfl⟩, fun _ _ _ => rfl⟩, ⟨by simp [blank, new],
      by simp [PastSummaries, blank, new], fun _ => rfl⟩⟩
  · exact ⟨cacheShape_commitEntry p shape, cacheFull_commitEntry full acceptable settled⟩
  · exact ⟨cacheShape_deriveMessages shape, cacheFull_deriveMessages shape full⟩

/-- A session whose cache is the recomputation derives the recomputation. -/
theorem deriveMessages_eq_fullDerive (shape : CacheShape s) (full : CacheFull s) :
    s.deriveMessages.1 = (fullDerive s.events).map cloneChatMessages := by
  unfold deriveMessages
  by_cases live : s.projValid
  · obtain ⟨count, sums⟩ := shape.current live
    simp [live, count, sums, full.cache live, Except.map]
  · cases derived : fullDerive s.events <;> simp [live, Except.map]

theorem Session.Dormant.commitEvents (dormant : s.Dormant) (es : List SessionEvent) :
    (s.commitEvents es).Dormant := by
  induction es generalizing s with
  | nil => exact dormant
  | cons e es ih => exact ih (dormant.commitEntry e.toEntry)

/-- A restored session derives the recomputation. -/
theorem deriveMessages_restored {id : GoString} {es : List SessionEvent}
    (h : restore id es = .ok s) :
    s.deriveMessages.1 = (fullDerive es).map cloneChatMessages := by
  obtain ⟨_, loadable, rfl⟩ := Session.restore_eq_ok.mp h
  obtain ⟨events, _⟩ := Session.events_commitEvents loadable
  cases es with
  | nil => rfl
  | cons e es =>
    have dormant : ((blank id false).commitEvents (e :: es)).Dormant :=
      Session.Dormant.commitEvents ⟨rfl, rfl, rfl⟩ _
    simp only [List.isEmpty_cons] at events ⊢
    simp only [deriveMessages, dormant.projValid, events]
    cases derived : fullDerive (e :: es) <;> simp [Except.map, blank, new, derived]

def question : AppendEntry := ⟨go "r1", .userMessage, .typed (.userMessage ⟨go "question"⟩)⟩

/-- A summary of the events from `0` to `stop`. -/
def summaryTo (stop : Int64) : AppendEntry :=
  ⟨go "r1", .contextSummary, .typed (.contextSummary ⟨go "replace", 0, stop, go "short"⟩)⟩

/-- A question and its summary, a derivation, and a second question. -/
def summarisedSession (stop : Int64) : Session :=
  (((new (go "s")).appendBatch [question, summaryTo stop]).2.deriveMessages.2.appendBatch
    [question]).2

theorem reachable_summarisedSession (stop : Int64) :
    sessionSystem.Reachable (summarisedSession stop) :=
  .step (l := .append _) (.step (l := .derive) (.step (l := .append _) (.init ⟨_, rfl⟩) rfl) rfl)
  rfl

/-- The prepared form of an entry with a clean struct. -/
theorem settled_of_clean {d : EventData} (data : p.data = .typed d) (fits : d.fits p.kind)
    (clean : d.clean) (shallow : d.marshal.depth ≤ maxNestingDepth)
    (past : ∀ c, d = .contextSummary c → c.stop.toInt ≤ s.events.length) : Settled s p := by
  refine ⟨storable_of_clean data clean shallow, fun c read => past c ?_⟩
  simpa [PreparedEntry.payload, eventData, data, fits] using read

end AutoAgent
