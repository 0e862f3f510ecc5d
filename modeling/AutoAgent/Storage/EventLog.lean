import AutoAgent.Core.Session
import AutoAgent.Lib.JsonRoundTrip

/-!
# Stored events

Every session store keeps the events of a session as JSON lines: one object a line,
ended by a newline.

**Times.**  An event carries the wall-clock time at which it was appended.  Nothing
depends on how a `time.Time` is written except that it is a JSON string, so the format
is a parameter (`TimeFormat`); its `ok` says which times `MarshalJSON` accepts.

**What survives.**  Reading a line gives the event back with its strings cleaned of
stray bytes and its data as compact text (`StoredEvent.reread`), unless the line is
nested too deeply to be read at all (`StoredEvent.readable`).  An event that a session
holds is its own reading (`reread_of_exact`).
-/

namespace AutoAgent

open List

/-! ## Event types -/

namespace SessionEventType

def text : SessionEventType → GoString
  | .runStart => go "run/start"
  | .runResume => go "run/resume"
  | .runEnd => go "run/end"
  | .runError => go "run/error"
  | .runUsage => go "run/usage"
  | .stepStart => go "step/start"
  | .stepEnd => go "step/end"
  | .stepError => go "step/error"
  | .userMessage => go "user/message"
  | .assistantMessage => go "assistant/message"
  | .assistantChunk => go "assistant/chunk"
  | .toolCall => go "tool/call"
  | .toolResult => go "tool/result"
  | .approvalRequested => go "approval/requested"
  | .approvalResolved => go "approval/resolved"
  | .contextSummary => go "context/summary"
  | .other name => name

def known : List SessionEventType :=
  [.runStart, .runResume, .runEnd, .runError, .runUsage, .stepStart, .stepEnd, .stepError,
    .userMessage, .assistantMessage, .assistantChunk, .toolCall, .toolResult,
    .approvalRequested, .approvalResolved, .contextSummary]

def ofText (name : GoString) : SessionEventType :=
  (known.find? fun kind => kind.text == name).getD (.other name)

variable {kind : SessionEventType}

theorem valid_text_of_known (h : kind ∈ known) : kind.text.valid := by
  revert kind
  decide

theorem ofText_text_of_known (h : kind ∈ known) :
    ofText kind.text = kind := by
  revert kind
  decide

end SessionEventType

/-! ## The fields of an event -/

/-- A count, as the `int64` it is written as. -/
def Codec.count : Codec ℕ where
  zero := 0
  enc n := .int n
  dec
    | cur, .null => some cur
    | _, .int n => if 0 ≤ n then some n.toNat else none
    | _, _ => none
  isEmpty n := n == 0
  ok _ := true
  dec_enc _ := by simp
  eq_zero h := by simpa using h

/-- A `json.RawMessage`, read as the compact text of its document. -/
def Codec.raw : Codec RawMessage where
  zero := .empty
  enc raw := raw.doc.getD .null
  dec _ d := some (.ofDoc d)
  isEmpty raw := raw.size == 0 && raw.doc.isNone
  ok raw := raw.doc.any fun d => raw.size == d.size && decide (d.depth ≤ maxNestingDepth)
  dec_enc {raw} h := by
    obtain ⟨size, doc⟩ := raw
    cases doc with
    | none => simp at h
    | some d =>
      simp only [Option.any_some, and_eq_true, beq_iff_eq, decide_eq_true_eq] at h
      simp [RawMessage.ofDoc, h.1, h.2]
  eq_zero {raw} h := by
    obtain ⟨size, doc⟩ := raw
    simp only [and_eq_true, beq_iff_eq, Option.isNone_iff_eq_none] at h
    rw [h.1, h.2]
    rfl

namespace RawMessage

variable (raw : RawMessage)

/-- `json.Marshal` accepts the data: there is none, or it is valid JSON. -/
def marshals : Bool := raw.size == 0 || raw.doc.any Json.wellFormed

/-- The field `data`, with `omitempty`. -/
def field : FieldDoc := ⟨"data", if raw.size = 0 then none else raw.doc⟩

def reread : RawMessage :=
  if raw.size = 0 then .empty else (raw.doc.map ofDoc).getD .empty

/-- No data, or the compact text of a document. -/
def Exact : Prop :=
  raw = .empty ∨ ∃ d : Doc, raw = .ofDoc d ∧ d.wellFormed ∧ d.depth < maxNestingDepth

theorem reread_of_exact {raw : RawMessage} (h : raw.Exact) : raw.reread = raw := by
  rcases h with rfl | ⟨d, rfl, written, shallow⟩
  · rfl
  · have positive : (ofDoc d).size ≠ 0 := by
      obtain ⟨b, t, text, -⟩ := Json.exists_cons_text written
      simp [ofDoc, Json.size, text]
    rw [reread, if_neg positive]
    simp [ofDoc, Nat.le_of_lt shallow]

end RawMessage

namespace Storage

/-! ## Events -/

/-- How a `time.Time` is written: as a JSON string. -/
structure TimeFormat (τ : Type) extends Codec τ where
  isString : ∀ t, ∃ s, enc t = .str s

/-- A `SessionEvent` with its time. -/
structure StoredEvent (τ : Type) extends event : SessionEvent where
  time : τ

variable {τ : Type} (times : TimeFormat τ)

namespace StoredEvent

def fields (e : StoredEvent τ) : List FieldDoc :=
  [Codec.count.field "seq" e.seq, times.field "time" e.time,
    Codec.string.field "run_id" e.runID, Codec.string.field "type" e.kind.text,
    e.data.field]

def marshal (e : StoredEvent τ) : Option Doc :=
  if times.ok e.time && e.data.marshals then some (structDoc (e.fields times)) else none

def unmarshal (d : Doc) : Option (StoredEvent τ) :=
  intoStruct ⟨⟨0, .empty, .ofText .empty, .empty⟩, times.zero⟩ d fun ms => do
    let seq ← member .count "seq" 0 ms
    let time ← member times.toCodec "time" times.zero ms
    let runID ← member .string "run_id" .empty ms
    let kind ← member .string "type" .empty ms
    let data ← member .raw "data" .empty ms
    return ⟨⟨seq, runID, .ofText kind, data⟩, time⟩

def reread (e : StoredEvent τ) : StoredEvent τ where
  event := {
    seq := e.seq
    runID := .unquote e.runID.quote
    kind := .ofText (.unquote e.kind.text.quote)
    data := e.data.reread }
  time := e.time

/-- The line of the event is within the nesting depth of the decoder. -/
def readable (e : StoredEvent τ) : Bool :=
  decide ((structDoc (e.fields times)).depth ≤ maxNestingDepth)

/-- The event is one a session can hold: its strings have no stray bytes, its type is
known and its data is compact. -/
structure Exact (e : StoredEvent τ) : Prop where
  runID : e.runID.valid
  kind : e.kind ∈ SessionEventType.known
  data : e.data.Exact

variable {times} {e : StoredEvent τ} {d : Doc}

theorem marshal_eq_some : e.marshal times = some d ↔
    (times.ok e.time ∧ e.data.marshals) ∧ structDoc (e.fields times) = d := by
  simp [marshal]

theorem readField_raw {raw : RawMessage} (h : raw.marshals) :
    readField .raw .empty raw.field = some raw.reread := by
  simp only [RawMessage.marshals, or_eq_true, beq_iff_eq] at h
  unfold RawMessage.field RawMessage.reread readField
  by_cases nothing : raw.size = 0
  · simp [nothing]
  · obtain ⟨d, doc, -⟩ := (Option.any_eq_true _ _).mp (h.resolve_left nothing)
    simp [nothing, doc, Codec.raw]

/-- An event that was written is read back. -/
theorem unmarshal_of_marshal (written : e.marshal times = some d) :
    unmarshal times d = some e.reread := by
  obtain ⟨⟨time, data⟩, rfl⟩ := marshal_eq_some.mp written
  have named : fieldsNamed "seq" (e.fields times) = [Codec.count.field "seq" e.seq] ∧
      fieldsNamed "time" (e.fields times) = [times.field "time" e.time] ∧
      fieldsNamed "run_id" (e.fields times) = [Codec.string.field "run_id" e.runID] ∧
      fieldsNamed "type" (e.fields times) = [Codec.string.field "type" e.kind.text] ∧
      fieldsNamed "data" (e.fields times) = [e.data.field] := by
    simp +decide [fields, RawMessage.field]
  rw [unmarshal, intoStruct_structDoc]
  simp only [member_fieldMembers, named, foldlM_cons, foldlM_nil, readField_raw data]
  simp [readField, Codec.field, Codec.count, Codec.string, times.dec_enc time, reread]

theorem reread_of_exact (h : e.Exact) : e.reread = e := by
  obtain ⟨⟨seq, runID, kind, data⟩, time⟩ := e
  have named := GoString.unquote_quote (SessionEventType.valid_text_of_known h.kind)
  have run := GoString.unquote_quote h.runID
  have raw := RawMessage.reread_of_exact h.data
  have own := SessionEventType.ofText_text_of_known h.kind
  simp only [reread, named, run, raw, own]

/-- The documents of all fields but the data are scalars. -/
theorem fields_cases {f : FieldDoc} (mem : f ∈ e.fields times) {d : Doc} (doc : f.doc = some d) :
    (d.depth = 0 ∧ d.wellFormed) ∨ (e.data.size ≠ 0 ∧ e.data.doc = some d) := by
  simp only [fields, mem_cons, not_mem_nil, or_false] at mem
  rcases mem with rfl | rfl | rfl | rfl | rfl
  · cases doc
    exact .inl ⟨rfl, rfl⟩
  · obtain ⟨s, string⟩ := times.isString e.time
    cases doc
    rw [string]
    exact .inl ⟨rfl, rfl⟩
  · cases doc
    exact .inl ⟨rfl, rfl⟩
  · cases doc
    exact .inl ⟨rfl, rfl⟩
  · simp only [RawMessage.field] at doc
    split_ifs at doc with nothing
    exact .inr ⟨nothing, doc⟩

theorem readable_of_exact (h : e.Exact) : e.readable times := by
  rw [readable, decide_eq_true_eq]
  have bound : 1 ≤ maxNestingDepth := by decide
  refine le_trans (depth_structDoc_le (n := maxNestingDepth - 1) fun f mem d doc => ?_) (by omega)
  rcases fields_cases mem doc with ⟨flat, -⟩ | ⟨-, data⟩
  · omega
  · rcases h.data with nothing | ⟨d', own, -, shallow⟩
    · rw [nothing] at data
      cases data
    · rw [own, RawMessage.ofDoc, if_pos (Nat.le_of_lt shallow)] at data
      cases data
      omega

/-- What `json.Marshal` writes is JSON. -/
theorem wellFormed_of_marshal (written : e.marshal times = some d) : d.wellFormed := by
  obtain ⟨⟨-, data⟩, rfl⟩ := marshal_eq_some.mp written
  refine Json.wellFormed_structDoc fun f mem d doc => ?_
  rcases fields_cases mem doc with ⟨-, own⟩ | ⟨nothing, own⟩
  · exact own
  · simp only [RawMessage.marshals, or_eq_true, beq_iff_eq] at data
    simpa [own] using data.resolve_left nothing

end StoredEvent

/-! ## Lines -/

/-- A line without anything but white space. -/
def isBlankLine (line : List UInt8) : Bool := line.all fun b => b == 32 || (9 ≤ b && b ≤ 13)

inductive LineError where
  /-- the line is longer than the reader allows -/
  | tooLong
  /-- the error of `json.Unmarshal` -/
  | decode
  deriving DecidableEq

def decodeLine (line : List UInt8) : Option (StoredEvent τ) :=
  (Json.parse line).bind (StoredEvent.unmarshal times)

/-- One line of at most `limit` bytes. -/
def readLine (limit : ℕ) (line : List UInt8) : Except LineError (StoredEvent τ) :=
  if limit < line.length then .error .tooLong
  else
    match decodeLine times line with
    | none => .error .decode
    | some e => .ok e

/-- The lines of a text; blank ones are skipped. -/
def readLines (limit : ℕ) (bytes : List UInt8) : Except LineError (List (StoredEvent τ)) :=
  ((bytes.splitOn 10).filter fun line => !isBlankLine line).mapM (readLine times limit)

def lineBytes (d : Doc) : List UInt8 := d.text ++ [10]

def batchBytes (docs : List Doc) : List UInt8 := docs.flatMap lineBytes

/-- The documents are what `json.Marshal` writes of the events. -/
def Marshalled (es : List (StoredEvent τ)) (docs : List Doc) : Prop :=
  List.Forall₂ (fun e d => e.marshal times = some d) es docs

variable {times} {e : StoredEvent τ} {d : Doc} {limit : ℕ}

section

variable (written : e.marshal times = some d)

include written

theorem parse_of_marshal :
    Json.parse d.text = if e.readable times then some d else none := by
  have wellFormed := StoredEvent.wellFormed_of_marshal written
  obtain ⟨-, rfl⟩ := StoredEvent.marshal_eq_some.mp written
  rw [Json.parse_text wellFormed, StoredEvent.readable]
  simp

/-- The line of an event is read back unless it is nested too deeply. -/
theorem readLine_of_marshal (fits : d.text.length ≤ limit) :
    readLine times limit d.text = if e.readable times then .ok e.reread else .error .decode := by
  rw [readLine, if_neg (Nat.not_lt.mpr fits), decodeLine, parse_of_marshal written]
  split_ifs
  · rw [bind_some, StoredEvent.unmarshal_of_marshal written]
  · rfl

/-- The line of an event starts with its brace. -/
theorem exists_brace_of_marshal :
    ∃ members, d = .obj members ∧ d.text = 123 :: (Json.membersText members ++ [125]) := by
  obtain ⟨-, rfl⟩ := StoredEvent.marshal_eq_some.mp written
  exact ⟨_, rfl, by simp [structDoc, Json.text, Json.ascii]⟩

theorem not_isBlankLine_of_marshal : isBlankLine d.text = false := by
  obtain ⟨members, -, text⟩ := exists_brace_of_marshal written
  simp [text, isBlankLine]

end

theorem splitOn_lineBytes (h : d.wellFormed) (rest : List UInt8) :
    (lineBytes d ++ rest).splitOn 10 = d.text :: rest.splitOn 10 := by
  rw [lineBytes, append_assoc, singleton_append, splitOn_append_cons_self,
    splitOn_eq_singleton (Json.newline_notMem_text h), singleton_append]

variable {docs : List Doc}

/-- The lines of a batch are the texts of its documents, and what follows it is another
line. -/
theorem splitOn_batchBytes (h : ∀ d ∈ docs, d.wellFormed) (rest : List UInt8) :
    (batchBytes docs ++ rest).splitOn 10 = docs.map Json.text ++ rest.splitOn 10 := by
  induction docs with
  | nil => rfl
  | cons d docs ih =>
    rw [batchBytes, flatMap_cons, append_assoc,
      splitOn_lineBytes (h d (mem_cons_self ..)), ← batchBytes,
      ih fun d mem => h d (mem_cons_of_mem _ mem)]
    rfl

variable {es : List (StoredEvent τ)}

theorem Marshalled.exists_of_mem (written : Marshalled times es docs) (mem : d ∈ docs) :
    ∃ e : StoredEvent τ, e.marshal times = some d := by
  induction written with
  | nil => cases mem
  | cons own _ ih =>
    rcases mem_cons.mp mem with rfl | tail
    · exact ⟨_, own⟩
    · exact ih tail

theorem Marshalled.wellFormed (written : Marshalled times es docs) : ∀ d ∈ docs, d.wellFormed := by
  intro d mem
  obtain ⟨_, own⟩ := written.exists_of_mem mem
  exact StoredEvent.wellFormed_of_marshal own

/-- The lines of a batch are read back by a reader that reads each of them back. -/
theorem Marshalled.mapM_eq (written : Marshalled times es docs) {β : Type}
    {read : List UInt8 → Except LineError β} {out : StoredEvent τ → β}
    (each : ∀ d ∈ docs, ∀ e : StoredEvent τ, e.marshal times = some d →
      read d.text = if e.readable times then .ok (out e) else .error .decode) :
    (docs.map Json.text).mapM read =
      if es.all (·.readable times) then .ok (es.map out) else .error .decode := by
  induction written with
  | nil => rfl
  | @cons e d es docs own tail ih =>
    rw [map_cons, mapM_cons, each d (mem_cons_self ..) e own,
      ih fun d mem => each d (mem_cons_of_mem _ mem)]
    by_cases head : e.readable times
    · by_cases others : es.all (·.readable times)
      · simp only [all_cons, head, others, Bool.and_self, if_true]
        rfl
      · simp only [all_cons, head, others, if_true, Bool.true_and]
        rfl
    · simp only [all_cons, head, Bool.false_and]
      rfl

/-- What is read of a batch. -/
theorem readLines_batch (written : Marshalled times es docs)
    (fits : ∀ d ∈ docs, d.text.length ≤ limit) :
    readLines times limit (batchBytes docs) =
      if es.all (·.readable times) then .ok (es.map (·.reread)) else .error .decode := by
  have visible : (docs.map Json.text).filter (fun line => !isBlankLine line) =
      docs.map Json.text := by
    refine filter_eq_self.mpr (forall_mem_map.mpr fun d mem => ?_)
    obtain ⟨_, own⟩ := written.exists_of_mem mem
    simp [not_isBlankLine_of_marshal own]
  have lines := splitOn_batchBytes written.wellFormed []
  rw [append_nil] at lines
  -- the batch ends with a newline, so its last line is empty and skipped
  have blank : ([] : List UInt8).splitOn 10 = [[]] := rfl
  rw [readLines, lines, filter_append, visible, blank, filter_cons_of_neg (by simp [isBlankLine]),
    filter_nil, append_nil]
  exact written.mapM_eq fun d mem _ own => readLine_of_marshal own (fits d mem)

/-! ## Example events -/

/-- Times written as they are. -/
def exampleTimes : TimeFormat GoString where
  toCodec := Codec.string
  isString t := ⟨t.quote, rfl⟩

/-- A short text, as the event with a number and a type. -/
def exampleEvent (seq : ℕ) (kind : SessionEventType) : StoredEvent GoString where
  event := ⟨seq, go "run-1", kind, .ofDoc (structDoc [Codec.string.field "text" (go "hello")])⟩
  time := go "2026-01-02T03:04:05Z"

end Storage

end AutoAgent
