import AutoAgent.Core.SessionBatch

/-!
# Invariants of the event log

Every session reached by any mix of appends, derivations and restores has a log
numbered `0, 1, 2, …` within the event cap, at most one start per run, no resume
before its start, no usage invocation counted twice, and usage totals that are
the exact sums of what the log records (`LogInvariant`).  The totals are stated
on the decoded log: an accepted usage payload always survives storage, because
its one string is a checked identifier.
-/

namespace AutoAgent

open List Session
open Session (nextEvent_kind commitEntry_events nextEvent_runID blank new)

/-! ## Usage events survive storage -/

theorem valid_of_parseCanonical {s : GoString} (h : (parseCanonical s).isSome) : s.valid := by
  unfold parseCanonical at h
  dsimp only at h
  split at h
  · simp at h
  · rename_i accepted
    simp only [or_eq_true, not_or, not_eq_true'] at accepted
    exact GoString.valid_of_allRunes (by simpa using accepted.1.2)

theorem valid_of_validRunUsageInvocationID {value : GoString}
    (h : validRunUsageInvocationID value) : value.valid := by
  unfold validRunUsageInvocationID at h
  apply GoString.valid_of_splitOn ':'
  split at h
  next tag n parts =>
    simp only [and_eq_true, beq_iff_eq] at h
    simp only [parts, mem_cons, not_mem_nil, or_false]
    rintro part (rfl | rfl)
    · simp [h.1]
    · exact valid_of_parseCanonical h.2
  next tag start stop n parts =>
    split at h
    next first last count hstart hstop hn =>
      simp only [and_eq_true, beq_iff_eq] at h
      simp only [parts, mem_cons, not_mem_nil, or_false]
      rintro part (rfl | rfl | rfl | rfl)
      · simp [h.1]
      · exact valid_of_parseCanonical (by simp [hstart])
      · exact valid_of_parseCanonical (by simp [hstop])
      · exact valid_of_parseCanonical (by simp [hn])
    next => simp at h
  next => simp at h

theorem ok_of_validateRunUsageData {d : RunUsageData} (h : validateRunUsageData d = .ok ()) :
    RunUsageData.codec.ok d := by
  have id : d.invocationID.valid := by
    simp only [validateRunUsageData, bind_eq_ok] at h
    obtain ⟨_, _, named⟩ := h
    split at named
    next legacy => rw [legacy]; rfl
    next =>
      simp only [bind_eq_ok, invalidEvent_eq_ok, not_or] at named
      obtain ⟨_, ⟨_, shape⟩, _⟩ := named
      exact valid_of_validRunUsageInvocationID (by simpa using shape)
  exact Codec.ok_struct_iff.mpr ⟨rfl, rfl, id⟩

theorem depth_runUsage (d : RunUsageData) : (RunUsageData.codec.enc d).depth ≤ 1 :=
  Codec.depth_struct_le ⟨le_rfl, le_rfl, le_rfl⟩

def EventData.usage : EventData → Option RunUsageData
  | .runUsage d => some d
  | _ => none

/-- The usage contribution a stored event records. -/
def SessionEvent.usage (e : SessionEvent) : Option RunUsageData := e.payload.bind EventData.usage

variable {kind : SessionEventType}

theorem EventData.usage_eq_none {d : EventData} (fits : d.fits kind)
    (other : kind ≠ .runUsage) : d.usage = none := by
  cases d with
  | runUsage d => cases kind <;> simp_all [EventData.fits]
  | _ => rfl

/-- Only a usage event has a usage contribution. -/
theorem usage_eq_none_of_decodeEvent {raw : RawMessage} (other : kind ≠ .runUsage) :
    (decodeEvent kind raw).bind EventData.usage = none := by
  cases stored : decodeEvent kind raw with
  | none => rfl
  | some d => exact EventData.usage_eq_none (fits_of_decodeEvent stored) other

theorem PreparedEntry.usage_eq (p : PreparedEntry) : p.usage = p.payload.bind EventData.usage := by
  unfold PreparedEntry.usage
  by_cases kind : p.kind = .runUsage
  · rw [kind]
    cases p.payload with
    | none => rfl
    | some d => cases d <;> rfl
  · have none : p.payload.bind EventData.usage = none := by
      cases read : p.payload with
      | none => rfl
      | some d => exact EventData.usage_eq_none (PreparedEntry.fits_payload read) kind
    rw [none]
    split
    next usage _ => exact absurd usage kind
    next => rfl

/-- What the log records of an accepted usage entry is what the session read. -/
theorem usage_nextEvent {p : PreparedEntry} (acceptable : Acceptable p) (s : Session) :
    (s.nextEvent p).usage = p.usage := by
  rw [p.usage_eq]
  rcases p.payload_cases with ⟨d, data, fits, read⟩ | ⟨read, -⟩
  · obtain ⟨valid, raw⟩ := acceptable.typed data fits
    simp only [SessionEvent.usage, SessionEvent.payload, nextEvent_kind, nextEvent_data, read, raw]
    by_cases kind : p.kind = .runUsage
    · rw [kind] at fits valid ⊢
      cases d with
      | runUsage d =>
        have shallow := (depth_runUsage d).trans (by decide : 1 ≤ maxNestingDepth)
        rw [decodeEvent_marshal fits (ok_of_validateRunUsageData valid) shallow]
      | _ => simp [EventData.fits] at fits
    · rw [usage_eq_none_of_decodeEvent kind]
      exact (EventData.usage_eq_none fits kind).symm
  · rw [read]
    rfl

/-! ## The invariant -/

/-- The usage contributions a log records for a run, in log order. -/
def usageOf (events : List SessionEvent) (r : GoString) : List RunUsageData :=
  (events.filter fun e => e.runID = r).filterMap SessionEvent.usage

/-- The exact sums of a list of contributions. -/
def inputSum (ds : List RunUsageData) : ℤ := (ds.map fun d => d.inputTokens.toInt).sum

@[inherit_doc inputSum]
def outputSum (ds : List RunUsageData) : ℤ := (ds.map fun d => d.outputTokens.toInt).sum

/-- The invocation ids of a list of contributions; legacy events have none. -/
def invocationIDs (ds : List RunUsageData) : List GoString :=
  (ds.map RunUsageData.invocationID).filter fun id => id ≠ .empty

/-- The runs of a log that have a start event. -/
def startsOf (events : List SessionEvent) : List GoString :=
  (events.filter fun e => e.kind = .runStart).map SessionEvent.runID

structure LogInvariant (s : Session) : Prop where
  /-- Sequence numbers are `0, …, n - 1`. -/
  sequence : s.events.map SessionEvent.seq = List.range s.events.length
  /-- The log stays within the cap. -/
  cap : s.events.length ≤ s.eventCap
  /-- A run starts at most once. -/
  startOnce : (startsOf s.events).Nodup
  /-- A resume comes after the start of its run. -/
  resume : ∀ before e after, s.events = before ++ e :: after → e.kind = .runResume →
    e.runID ∈ startsOf before
  /-- A run's invocation ids are distinct. -/
  invocations : ∀ r, (invocationIDs (usageOf s.events r)).Nodup
  /-- The stored totals are the exact sums of the log. -/
  totals : ∀ r, (s.entry r).usage.inputTokens.toInt = inputSum (usageOf s.events r) ∧
    (s.entry r).usage.outputTokens.toInt = outputSum (usageOf s.events r)

/-- An event's sequence number is its position. -/
theorem LogInvariant.seq_eq {s : Session} (log : LogInvariant s) {i : ℕ} {e : SessionEvent}
    (h : s.events[i]? = some e) : e.seq = i := by
  obtain ⟨inside, _⟩ := List.getElem?_eq_some_iff.mp h
  have numbered := congrArg (·[i]?) log.sequence
  simpa [h, getElem?_range inside] using numbered

/-- What the index remembers of the log. -/
structure IndexInvariant (s : Session) : Prop where
  starts : ∀ r, r ∈ s.runStarts ↔ r ∈ startsOf s.events
  ids : ∀ r id, id ∈ (s.entry r).usageIDs ↔ id ∈ invocationIDs (usageOf s.events r)
  nonneg : ∀ r, 0 ≤ (s.entry r).usage.inputTokens.toInt ∧ 0 ≤ (s.entry r).usage.outputTokens.toInt

section Append

variable (events : List SessionEvent) (e : SessionEvent) (r : GoString)

theorem startsOf_append : startsOf (events ++ [e]) =
    startsOf events ++ if e.kind = .runStart then [e.runID] else [] := by
  by_cases start : e.kind = .runStart <;> simp [startsOf, start]

theorem usageOf_append : usageOf (events ++ [e]) r =
    usageOf events r ++ if e.runID = r then e.usage.toList else [] := by
  by_cases own : e.runID = r
  · cases usage : e.usage <;> simp [usageOf, own, usage]
  · simp [usageOf, own]

end Append

/-- Two counts that pass the overflow check add up exactly. -/
theorem toInt_add_of_le {total x : Int64} (nonneg : 0 ≤ total.toInt)
    (room : ¬Int64.maxValue - total < x) (hx : ¬x < 0) :
    (total + x).toInt = total.toInt + x.toInt := by
  have bound := total.toInt_lt
  simp only [Int64.lt_iff_toInt_lt, Int64.toInt_zero] at room hx
  rw [Int64.toInt_sub, Int64.toInt_maxValue, Int.bmod_eq_of_le (by omega) (by omega)] at room
  rw [Int64.toInt_add, Int.bmod_eq_of_le (by omega) (by omega)]

/-- An accepted contribution is added exactly. -/
theorem add_of_addUsageTotal {total t : TokenUsage} {input output : Int64}
    (nonneg : 0 ≤ total.inputTokens.toInt ∧ 0 ≤ total.outputTokens.toInt)
    (h : addUsageTotal total input output = .ok t) :
    (total.add input output).inputTokens.toInt = total.inputTokens.toInt + input.toInt ∧
      (total.add input output).outputTokens.toInt = total.outputTokens.toInt + output.toInt ∧
      0 ≤ input.toInt ∧ 0 ≤ output.toInt := by
  unfold addUsageTotal at h
  split at h
  · simp at h
  next room =>
    simp only [not_or] at room
    obtain ⟨hin, hout, roomIn, roomOut⟩ := room
    refine ⟨toInt_add_of_le nonneg.1 roomIn hin, toInt_add_of_le nonneg.2 roomOut hout, ?_, ?_⟩
    · simpa [Int64.lt_iff_toInt_lt] using hin
    · simpa [Int64.lt_iff_toInt_lt] using hout

section Commit

variable {s : Session} {p : PreparedEntry}

/-- What a commit does to the usage of a run: nothing, or the contribution of the
entry is added. -/
theorem usage_commitEntry_cases (acceptable : Acceptable p) (r : GoString) :
    ((s.commitEntry p).entry r).usage = (s.entry r).usage ∧
        ((s.commitEntry p).entry r).usageIDs = (s.entry r).usageIDs ∧
        usageOf (s.commitEntry p).events r = usageOf s.events r ∨
      ∃ d ∈ p.usage, r = p.runID ∧
        ((s.commitEntry p).entry r).usage = (s.entry r).usage.add d.inputTokens d.outputTokens ∧
        ((s.commitEntry p).entry r).usageIDs = (if d.invocationID = .empty then
          (s.entry r).usageIDs else insert d.invocationID (s.entry r).usageIDs) ∧
        usageOf (s.commitEntry p).events r = usageOf s.events r ++ [d] := by
  rw [commitEntry_events, usageOf_append, usage_nextEvent acceptable,
    nextEvent_runID, commitEntry_entry]
  by_cases own : r = p.runID
  · have record := record_usage (p := p) (s.entry r) s.events.length
    cases contribution : p.usage with
    | none => simpa [own, contribution] using record
    | some d =>
      refine .inr ⟨d, rfl, own, ?_⟩
      simpa [own, contribution, addUsage, ← and_assoc] using record
  · simp [own, Ne.symm own]

theorem indexInvariant_commitEntry (index : IndexInvariant s) (acceptable : Acceptable p)
    (valid : s.validateAppend [p] = .ok ()) : IndexInvariant (s.commitEntry p) := by
  obtain ⟨_, _, _, _, total⟩ := (validateAppend_eq_ok.mp valid).2.1
  refine ⟨fun r => ?_, fun r id => ?_, fun r => ?_⟩
  · rw [commitEntry_runStarts, commitEntry_events, startsOf_append, nextEvent_kind, nextEvent_runID]
    by_cases start : p.kind = .runStart
    · simp [start, index.starts r, or_comm]
    · simp [start, index.starts r]
  · rcases usage_commitEntry_cases acceptable r with ⟨-, ids, log⟩ | ⟨d, _, -, -, ids, log⟩
    · rw [ids, log, index.ids]
    · rw [ids, log]
      by_cases legacy : d.invocationID = .empty
      · simp [legacy, index.ids, invocationIDs]
      · simp [legacy, index.ids, invocationIDs, or_comm]
  · have nonneg := index.nonneg r
    rcases usage_commitEntry_cases acceptable r with ⟨usage, -⟩ | ⟨d, mem, rfl, usage, -⟩
    · rwa [usage]
    · obtain ⟨t, added⟩ := total d mem
      obtain ⟨hin, hout, nin, nout⟩ := add_of_addUsageTotal nonneg added
      rw [usage]
      omega

theorem logInvariant_commitEntry (log : LogInvariant s) (index : IndexInvariant s)
    (acceptable : Acceptable p) (valid : s.validateAppend [p] = .ok ()) :
    LogInvariant (s.commitEntry p) := by
  obtain ⟨start, resume, _, fresh, total⟩ := (validateAppend_eq_ok.mp valid).2.1
  have room := room_commitEntry valid
  refine ⟨?_, room, ?_, ?_, fun r => ?_, fun r => ?_⟩
  · simp [log.sequence, range_succ]
  · rw [commitEntry_events, startsOf_append, nextEvent_kind, nextEvent_runID]
    by_cases isStart : p.kind = .runStart
    · have unstarted : p.runID ∉ startsOf s.events := by
        rw [← index.starts]
        exact fun known => start isStart (.inl known)
      simp only [isStart, if_true]
      exact log.startOnce.append (nodup_singleton _) (disjoint_singleton.mpr unstarted)
    · simpa [isStart] using log.startOnce
  · intro before e after split isResume
    rw [commitEntry_events] at split
    rcases eq_nil_or_concat after with rfl | ⟨after, last, rfl⟩
    · obtain ⟨rfl, hlast⟩ := append_inj' split rfl
      obtain rfl : s.nextEvent p = e := by simpa using hlast
      rw [← index.starts]
      simpa [view, BatchState.empty] using resume isResume
    · have shorter : s.events = before ++ e :: after := by
        have whole : s.events ++ [s.nextEvent p] = (before ++ e :: after) ++ [last] := by
          simpa using split
        exact (append_inj' whole rfl).1
      exact log.resume before e after shorter isResume
  · rcases usage_commitEntry_cases acceptable r with ⟨-, -, events⟩ | ⟨d, mem, rfl, -, -, events⟩
    · rw [events]
      exact log.invocations r
    · rw [events]
      by_cases legacy : d.invocationID = .empty
      · simpa [invocationIDs, legacy] using log.invocations p.runID
      · have unused : d.invocationID ∉ invocationIDs (usageOf s.events p.runID) := by
          rw [← index.ids]
          exact fun used => fresh d mem legacy (.inl used)
        have extended : invocationIDs (usageOf s.events p.runID ++ [d]) =
            invocationIDs (usageOf s.events p.runID) ++ [d.invocationID] := by
          simp [invocationIDs, legacy]
        rw [extended]
        exact (log.invocations p.runID).append (nodup_singleton _) (disjoint_singleton.mpr unused)
  · obtain ⟨sumIn, sumOut⟩ := log.totals r
    rcases usage_commitEntry_cases acceptable r with
      ⟨usage, -, events⟩ | ⟨d, mem, rfl, usage, -, events⟩
    · rw [usage, events]
      exact ⟨sumIn, sumOut⟩
    · obtain ⟨t, added⟩ := total d mem
      obtain ⟨hin, hout, _, _⟩ := add_of_addUsageTotal (index.nonneg p.runID) added
      rw [usage, events]
      simp only [inputSum, outputSum, map_append, sum_append, map_cons,
        map_nil, sum_cons, sum_nil] at sumIn sumOut ⊢
      omega

end Commit

/-- A derivation changes nothing but the projection cache. -/
theorem Session.deriveMessages_frame (s : Session) :
    ∃ count sums cache valid, s.deriveMessages.2 =
      { s with projCount := count, projSummaries := sums, projCache := cache,
               projValid := valid } := by
  unfold deriveMessages
  split
  · exact ⟨_, _, _, _, rfl⟩
  · split
    · exact ⟨_, _, _, _, rfl⟩
    · split <;> exact ⟨_, _, _, _, rfl⟩

theorem sessionSystem_logInvariant :
    sessionSystem.Invariant fun s => LogInvariant s ∧ IndexInvariant s := by
  refine sessionSystem_invariant (fun id b => ⟨?_, ?_⟩) ?_ ?_
  · exact ⟨rfl, by simp [blank, new], by simp [blank, new, startsOf],
      by simp [blank, new], fun _ => nodup_nil, fun _ => ⟨rfl, rfl⟩⟩
  · exact ⟨fun r => by simp [blank, new, startsOf], fun r id => by
      simp [blank, new, entry, RunIndexEntry.zero, usageOf, invocationIDs],
      fun r => ⟨le_rfl, le_rfl⟩⟩
  · rintro s p ⟨log, index⟩ acceptable valid
    exact ⟨logInvariant_commitEntry log index acceptable valid,
      indexInvariant_commitEntry index acceptable valid⟩
  · rintro s ⟨log, index⟩
    obtain ⟨_, _, _, _, frame⟩ := s.deriveMessages_frame
    rw [frame]
    exact ⟨⟨log.sequence, log.cap, log.startOnce, log.resume, log.invocations, log.totals⟩,
      ⟨index.starts, index.ids, index.nonneg⟩⟩

/-- **The log of every session.**  In every session reached by appends, batches,
derivations and restores the log invariant holds; a rejected batch leaves the
whole session as it was; and a non-empty batch is accepted, with session `s'` as
the result, exactly when appending its entries one by one is. -/
theorem reachable_session_log {s : Session} (reach : sessionSystem.Reachable s) :
    LogInvariant s ∧
      (∀ entries e, (s.appendBatch entries).1 = .error e → (s.appendBatch entries).2 = s) ∧
      ∀ entries, entries ≠ [] → ∀ s',
        (∃ events, s.appendBatch entries = (.ok events, s')) ↔ s.appendEach entries = .ok s' := by
  have log := (sessionSystem_logInvariant.holds reach).1
  refine ⟨log, fun entries e rejected => ?_, fun entries nonempty s' => ?_⟩
  · rcases s.appendBatch_cases entries with ⟨e', h⟩ | ⟨ps, _, _, _, h⟩
    · rw [h]
    · simp [h] at rejected
  · rw [appendEach_eq_ok log.cap]
    rcases s.appendBatch_cases entries with ⟨e', h⟩ | ⟨ps, _, prepared, valid, h⟩
    · constructor
      · rintro ⟨events, accepted⟩
        simp [h] at accepted
      · rintro ⟨ps, prepared, valid, rfl⟩
        simp [appendBatch, nonempty, prepared, valid] at h
    · constructor
      · rintro ⟨events, accepted⟩
        rw [h] at accepted
        obtain ⟨_, rfl⟩ := Prod.mk.inj accepted
        exact ⟨ps, prepared, valid, rfl⟩
      · rintro ⟨ps', prepared', _, rfl⟩
        obtain rfl : ps = ps' := by simpa [prepared] using prepared'
        exact ⟨_, h⟩

/-- The session after one user message, and one more. -/
theorem reachable_session_log_user_message :
    let s := ((new (go "s")).append ⟨go "r1", .userMessage, .typed (.userMessage ⟨go "hello"⟩)⟩).2
    s.events.length = 1 ∧ LogInvariant s ∧
      (∀ entries e, (s.appendBatch entries).1 = .error e → (s.appendBatch entries).2 = s) ∧
      ∀ entries, entries ≠ [] → ∀ s',
        (∃ events, s.appendBatch entries = (.ok events, s')) ↔ s.appendEach entries = .ok s' :=
  ⟨by decide, reachable_session_log (.step (l := .append [_]) (.init ⟨_, rfl⟩) rfl)⟩

/-- The empty batch is rejected although there is nothing to append. -/
theorem appendBatch_empty_rejected :
    (new (go "s")).appendBatch [] = (.error .emptyBatch, new (go "s")) ∧
      (new (go "s")).appendEach [] = .ok (new (go "s")) :=
  ⟨rfl, rfl⟩

end AutoAgent
