import AutoAgent.Core.Session
import AutoAgent.Lib.Search
import Mathlib.Data.List.Sort
import Mathlib.Data.List.ReduceOption

/-!
# Deriving the messages of a session

`DeriveMessages` projects a log to the messages of a model request.  A
`context/summary` event replaces a range of the log by one message: the events
of the range are shadowed, the ranges are merged into disjoint intervals and
looked up by binary search, and each summary is emitted just before the first
event at or after its start.

The session caches the result and extends it on append.  `deriveMessages`
returns the session after the call, since it may rebuild the cache.
-/

namespace AutoAgent

/-- `summaryRange`: a summary event with its bounds. -/
structure SummaryRange where
  start : ℤ
  stop : ℤ
  seq : ℕ
  data : ContextSummaryData

structure ShadowInterval where
  start : ℤ
  stop : ℤ

/-- The range of one event, if it is a summary. -/
def summaryRange (e : SessionEvent) : Except SessionError (Option SummaryRange) :=
  if e.kind = .contextSummary then
    match e.payload with
    | some (.contextSummary d) => .ok (some ⟨d.start.toInt, d.stop.toInt, e.seq, d⟩)
    | _ => .error (.summaryDecode e.seq)
  else .ok none

/-- The ranges of a log, in log order. -/
def summaryRanges (events : List SessionEvent) : Except SessionError (List SummaryRange) := do
  return (← events.mapM summaryRange).reduceOption

/-- The order of `sort.Slice`: by start, then by sequence number. -/
def SummaryRange.le (a b : SummaryRange) : Bool :=
  a.start < b.start ∨ a.start = b.start ∧ a.seq ≤ b.seq

/-- Adds a range to the merged intervals, the latest of which comes first. -/
def mergeRange : List ShadowInterval → SummaryRange → List ShadowInterval
  | [], r => [⟨r.start, r.stop⟩]
  | last :: rest, r =>
    if last.stop < r.start ∧ ¬(last.stop ≠ 2 ^ 63 - 1 ∧ r.start = last.stop + 1) then
      ⟨r.start, r.stop⟩ :: last :: rest
    else if last.stop < r.stop then ⟨last.start, r.stop⟩ :: rest
    else last :: rest

/-- The merged intervals, in increasing order. -/
def shadowIntervals (ranges : List SummaryRange) : List ShadowInterval :=
  (ranges.foldl mergeRange []).reverse

def isShadowed (intervals : List ShadowInterval) (seq : ℕ) : Bool :=
  let index := sortSearch intervals.length fun k =>
    (intervals[k]?.map fun i => decide ((seq : ℤ) ≤ i.stop)).getD true
  match intervals[index]? with
  | some i => i.start ≤ (seq : ℤ)
  | none => false

/-- The decimal text of a number. -/
def decimal (n : ℕ) : GoString := ⟨(Nat.toDigits 10 n).map .rune⟩

/-- The decimal text of a signed number. -/
def signedDecimal (n : ℤ) : GoString :=
  if n < 0 then go "-" ++ decimal n.natAbs else decimal n.natAbs

def summaryMessage (r : SummaryRange) : ChatMessage where
  role := .user
  content := go "[conversation summary of events " ++ signedDecimal r.start ++ go "–" ++
    signedDecimal r.stop ++ go "]\n" ++ r.data.summary
  toolCall := none
  toolCalls := []
  toolCallID := .empty
  sourceSeq := r.seq
  provenance := some ⟨go "summary", r.data.start, r.data.stop, decimal r.seq⟩

/-- The messages of the summaries that are not themselves shadowed. -/
def emitSummaries (shadowed : ℕ → Bool) (ranges : List SummaryRange) : List ChatMessage :=
  (ranges.filter fun r => !shadowed r.seq).map summaryMessage

/-- The loop over the events: the summaries that start at or before an event
come first, then the event itself unless it is shadowed; the summaries left over
come last. -/
def projectLog (shadowed : ℕ → Bool) : List SessionEvent → List SummaryRange → List ChatMessage
  | [], ranges => emitSummaries shadowed ranges
  | e :: es, ranges =>
    emitSummaries shadowed (ranges.takeWhile fun r => r.start ≤ (e.seq : ℤ)) ++
      (if shadowed e.seq then [] else (projectEvent e).toList) ++
      projectLog shadowed es (ranges.dropWhile fun r => r.start ≤ (e.seq : ℤ))

/-- The full recomputation of `DeriveMessages`. -/
def fullDerive (events : List SessionEvent) : Except SessionError (List ChatMessage) := do
  let ranges ← summaryRanges events
  let ranges := ranges.insertionSort fun a b => a.le b
  return projectLog (isShadowed (shadowIntervals ranges)) events ranges

def Session.deriveMessages (s : Session) : Except SessionError (List ChatMessage) × Session :=
  if s.projValid ∧ s.projCount = s.events.length ∧ s.projSummaries = s.summaryEvents then
    (.ok (cloneChatMessages s.projCache), s)
  else if s.projValid ∧ s.projSummaries = s.summaryEvents ∧ 0 < s.projCount ∧
      s.projCount < s.events.length then
    let out := s.projCache ++ (s.events.drop s.projCount).filterMap projectEvent
    (.ok (cloneChatMessages out), { s with projCache := out, projCount := s.events.length })
  else
    match fullDerive s.events with
    | .error e => (.error e, s)
    | .ok out =>
      (.ok (cloneChatMessages out),
        { s with
          projCache := out, projCount := s.events.length, projSummaries := s.summaryEvents
          projValid := true })

end AutoAgent
