import AutoAgent.Core.Derive

/-!
# Context compaction

`RecentTurnsCompactor` elides old tool results and drops whole turns from the
front of the message list.  The session has a fused path that computes the same
thing from the log without projecting the dropped events,
`deriveRecentCompactedMessages`: it walks the log backwards to find the first
event to keep, and then projects from there, from the cache when it is valid.
-/

namespace AutoAgent

/-- `RecentTurnsCompactor`.  A setting that is not positive is off. -/
structure RecentTurnsCompactor where
  maxMessages : ℤ
  maxToolResultChars : ℤ
  deriving DecidableEq

/-- `lastUserIndex`, `none` for `-1`. -/
def lastUserIndex (ms : List ChatMessage) : Option ℕ :=
  ms.zipIdx.foldl (fun acc m => if m.1.role = .user then some m.2 else acc) none

namespace RecentTurnsCompactor

variable (c : RecentTurnsCompactor)

def elidedToolResult (content : GoString) : Option GoString :=
  if c.maxToolResultChars ≤ 0 ∨ (content.len : ℤ) ≤ c.maxToolResultChars then none
  else if (content.runeCount : ℤ) ≤ c.maxToolResultChars then none
  else some (go "[earlier tool result elided: " ++ decimal content.runeCount ++ go " chars]")

def elideMessage (m : ChatMessage) : ChatMessage :=
  if m.role = .tool then { m with content := (c.elidedToolResult m.content).getD m.content } else m

/-- Elides the tool results among the first `k` messages. -/
def elideBefore (k : ℕ) (ms : List ChatMessage) : List ChatMessage :=
  (ms.take k).map c.elideMessage ++ ms.drop k

/-- `pruneOldToolResults`: elides before the last user message, unless that is
the first message.  The source skips the copy when nothing is elided. -/
def pruneOldToolResults (ms : List ChatMessage) : List ChatMessage :=
  match lastUserIndex ms with
  | some (k + 1) => c.elideBefore (k + 1) ms
  | _ => ms

/-- The loop of `windowTurns` from message number `i` on: the first boundary that
fits, `0` for none, and the last boundary. -/
def boundaries (max : ℤ) (n : ℕ) : ℕ → List ChatMessage → ℕ × ℕ → ℕ × ℕ
  | _, [], acc => acc
  | i, m :: ms, (first, last) =>
    if m.role = .user ∧ 0 < i then
      boundaries max n (i + 1) ms
        (if first = 0 ∧ (n : ℤ) - i ≤ max then i else first, i)
    else boundaries max n (i + 1) ms (first, last)

def windowTurns (ms : List ChatMessage) : List ChatMessage :=
  if (ms.length : ℤ) ≤ c.maxMessages then ms
  else
    let (first, last) := boundaries c.maxMessages ms.length 0 ms (0, 0)
    ms.drop (if first = 0 then last else first)

def compact (ms : List ChatMessage) : List ChatMessage :=
  let ms := if 0 < c.maxToolResultChars then c.pruneOldToolResults ms else ms
  if 0 < c.maxMessages then c.windowTurns ms else ms

end RecentTurnsCompactor

/-! ## The fused path -/

/-- The variables of the backward loop: messages seen, the newest and the oldest
fitting boundary, as event indices. -/
structure WindowScan where
  seen : ℕ
  latestBoundary : Option ℕ
  candidate : Option ℕ

/-- How the backward loop ends: a summary was met, the window was exceeded, or
the whole log was seen. -/
inductive ScanResult where
  | summary
  | exceeded (scan : WindowScan)
  | finished

/-- The scan variables after a visible event at `index` is counted; a user message
that is not the newest message is a boundary. -/
def WindowScan.count (scan : WindowScan) (boundary : Bool) (index : ℕ) : WindowScan :=
  if boundary then ⟨scan.seen + 1, scan.latestBoundary.or (some index), some index⟩
  else { scan with seen := scan.seen + 1 }

/-- The backward loop, over the log in reverse; the index of an event is the
number of events before it. -/
def scanWindow (max : ℤ) : List SessionEvent → WindowScan → ScanResult
  | [], _ => .finished
  | e :: older, scan =>
    if e.kind = .contextSummary then .summary
    else if ¬modelVisibleEvent e then scanWindow max older scan
    else
      let boundary := decide (e.kind = .userMessage ∧ 0 < scan.seen)
      let counted := scan.count boundary older.length
      if boundary ∧ ¬(scan.seen : ℤ) + 1 ≤ max then
        .exceeded ⟨scan.seen, counted.latestBoundary, scan.candidate⟩
      else if max < (counted.seen : ℤ) ∧ counted.latestBoundary.isSome then .exceeded counted
      else scanWindow max older counted

namespace Session

/-- The index of the first event the fused path keeps; `none` when a summary was
met. -/
def firstKeptEvent (s : Session) (c : RecentTurnsCompactor) : Option ℕ :=
  if 0 < c.maxMessages then
    match scanWindow c.maxMessages s.events.reverse ⟨0, none, none⟩ with
    | .summary => none
    | .exceeded scan => some ((scan.candidate.or scan.latestBoundary).getD 0)
    | .finished => some 0
  else some 0

/-- The capacity of the slice the fused path makes. -/
def keptMessages (s : Session) (c : RecentTurnsCompactor) : ℤ :=
  if 0 < c.maxMessages then c.maxMessages else s.events.length

end Session

/-- How the fused path ends: it does not apply, `make` panics, or it returns
messages. -/
inductive FusedResult where
  | notApplicable
  | panics
  | messages (ms : List ChatMessage)

/-- The number of messages returned. -/
def FusedResult.length : FusedResult → ℕ
  | .messages ms => ms.length
  | _ => 0

/-- `deriveRecentCompactedMessages`.  Its two elision loops are those of
`pruneOldToolResults`.  The capacity `maxCap` is the greatest with which the runtime can
make a slice of messages. -/
def Session.deriveRecentCompactedMessages (s : Session) (maxCap : ℤ) (c : RecentTurnsCompactor) :
    FusedResult :=
  if s.summaryEvents ≠ 0 then .notApplicable
  else
    match s.firstKeptEvent c with
    | none => .notApplicable
    | some first =>
      if maxCap < s.keptMessages c then .panics
      else if s.projValid ∧ s.projCount = s.events.length ∧ s.projSummaries = 0 then
        let kept := match s.events[first]? with
          | some e => s.projCache.filter fun m : ChatMessage => e.seq ≤ m.sourceSeq
          | none => s.projCache
        .messages (c.pruneOldToolResults (kept.map cloneChatMessage))
      else if (s.events.drop first).any fun e => e.kind = .contextSummary then .notApplicable
      else
        .messages (c.pruneOldToolResults
          (((s.events.drop first).filterMap projectEvent).map cloneChatMessage))

end AutoAgent
