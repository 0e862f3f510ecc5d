import AutoAgent.Core.Queries
import Mathlib.Data.List.Lex

/-!
# Repairing an interrupted run

`RepairInterrupted` scans a loaded log for a run that never reached `run/end`
and returns the events that close it: an error result for every tool call left
without an answer, a `step/end` for an open step, `run/error` and `run/end`.
`AppendRepair` appends them one by one.

The scan does not look at the run id of an event; it relies on the runs of a log
being serialized (`Serialized`).  On such a log its sets are exactly the calls
of the open run that are left unanswered.
-/

namespace AutoAgent

/-! ## The scan -/

/-- The variables of the scan.  An empty run id stands for no open run. -/
structure RepairScan where
  runID : GoString
  stepOpen : Bool
  expected : GoMap Bool
  inFlight : GoMap Bool
  approvals : GoMap Bool

namespace RepairScan

def reset (id : GoString) : RepairScan := ⟨id, false, ∅, ∅, ∅⟩

/-- The switch of the scan, for an event inside a run.  A payload that cannot be
decoded is skipped. -/
def record (scan : RepairScan) (kind : SessionEventType) (data : Option EventData) : RepairScan :=
  match kind, data with
  | .stepStart, _ => { scan with stepOpen := true }
  | .stepEnd, _ => { scan with stepOpen := false }
  | .stepError, _ => { scan with stepOpen := false }
  | .assistantMessage, some (.assistantMessage d) =>
    { scan with
      expected := d.calls.foldl (fun expected call => expected.insert call.id true) scan.expected }
  | .toolCall, some (.toolCall d) =>
    { scan with
      expected := scan.expected.erase d.callID
      inFlight := scan.inFlight.insert d.callID true }
  | .toolResult, some (.toolResult d) =>
    { scan with
      expected := scan.expected.erase d.callID
      inFlight := scan.inFlight.erase d.callID }
  | .approvalRequested, some (.approvalRequested d) =>
    { scan with approvals := scan.approvals.insert d.approvalID true }
  | .approvalResolved, some (.approvalResolved d) =>
    { scan with approvals := scan.approvals.erase d.approvalID }
  | _, _ => scan

def step (scan : RepairScan) (e : SessionEvent) : RepairScan :=
  if e.kind = .runStart then reset e.runID
  else if e.kind = .runEnd then reset .empty
  else if scan.runID = .empty then scan
  else scan.record e.kind e.payload

def ofLog (events : List SessionEvent) : RepairScan := events.foldl step (reset .empty)

end RepairScan

/-! ## The synthetic events -/

def codeRunInterrupted : GoString := go "run_interrupted"
def codeToolOutcomeUnknown : GoString := go "tool_outcome_unknown"
def codeToolNotStarted : GoString := go "tool_not_started"

def sortStrings (ids : List GoString) : List GoString :=
  ids.insertionSort fun a b => a.codes ≤ b.codes

/-- The result recorded for a lost call. -/
def lostResult (code id : GoString) : ToolResultData where
  callID := id
  content := go "tool outcome lost: the run was interrupted before " ++ id ++ go " completed"
  ok := false
  metadata := [(go "code", .str code), (go "repaired", .bool true)]

/-- A synthetic event; sequence number and time are assigned on append. -/
def syntheticEvent (runID : GoString) (kind : SessionEventType) (data : EventData) : SessionEvent :=
  ⟨0, runID, kind, .ofDoc data.marshal⟩

/-- The results for one group of lost calls. -/
def lostResults (runID : GoString) (calls : GoMap Bool) (code : GoString) : List SessionEvent :=
  (sortStrings calls.keys).map fun id =>
    syntheticEvent runID .toolResult (.toolResult (lostResult code id))

/-- The error recorded for the run. -/
def interruptedError (runID : GoString) : RuntimeErrorData where
  code := codeRunInterrupted
  message := go "run " ++ runID ++
    go " was interrupted before reaching a terminal state; synthetic closers were appended on load"
  retryable := true

/-- The events that close the run of a scan. -/
def RepairScan.closers (scan : RepairScan) : List SessionEvent :=
  lostResults scan.runID scan.expected codeToolNotStarted ++
    lostResults scan.runID scan.inFlight codeToolOutcomeUnknown ++
    (if scan.stepOpen then [syntheticEvent scan.runID .stepEnd (.step ⟨-1⟩)] else []) ++
    [syntheticEvent scan.runID .runError (.runtimeError (interruptedError scan.runID)),
      syntheticEvent scan.runID .runEnd (.runEnd ⟨.failed⟩)]

def repairInterrupted (events : List SessionEvent) : List SessionEvent :=
  let scan := RepairScan.ofLog events
  if scan.runID = .empty then []
  else if scan.approvals.keys ≠ [] then []
  else scan.closers

/-- The value `AppendRepair` decodes a synthetic event into. -/
def repairPayload (e : SessionEvent) : Option Payload :=
  match e.kind with
  | .toolResult => (e.data.decode ToolResultData.codec).map fun d => .typed (.toolResult d)
  | .stepEnd => (e.data.decode (.map .int64)).map fun m => .value ((Codec.map .int64).enc m)
  | .runError => (e.data.decode RuntimeErrorData.codec).map fun d => .typed (.runtimeError d)
  | .runEnd => (e.data.decode RunEndData.codec).map fun d => .typed (.runEnd d)
  | _ => (e.data.decode (.map .any)).map fun m => .value ((Codec.map .any).enc m)

def appendRepair (s : Session) : List SessionEvent → Except SessionError Unit × Session
  | [] => (.ok (), s)
  | e :: es =>
    match repairPayload e with
    | none => (.error (.decode e.kind), s)
    | some data =>
      match s.append ⟨e.runID, e.kind, data⟩ with
      | (.ok _, s') => appendRepair s' es
      | (.error err, s') => (.error err, s')

/-! ## Serialized logs -/

/-- The run that is open after a log. -/
def openRun (events : List SessionEvent) : Option GoString :=
  events.foldl (fun cur e =>
    if e.kind = .runStart then some e.runID else if e.kind = .runEnd then none else cur) none

/-- The runs of a log follow one another: a run starts while no other is open and
with its own first event, ends while it is open, and every event inside a run
belongs to it. -/
inductive Serialized : List SessionEvent → Prop where
  | nil : Serialized []
  | snoc {es : List SessionEvent} {e : SessionEvent} : Serialized es →
      (e.kind = .runStart → openRun es = none ∧ ∀ e' ∈ es, e'.runID ≠ e.runID) →
      (e.kind = .runEnd → openRun es = some e.runID) →
      (∀ r, openRun es = some r → e.runID = r) → Serialized (es ++ [e])

/-- The calls an assistant message requests. -/
def SessionEvent.requestedCalls (e : SessionEvent) : List GoString :=
  match e.payload with
  | some (.assistantMessage d) => d.calls.map ToolCall.id
  | _ => []

variable (run : List SessionEvent)

/-- A request for the call that neither a `tool/call` nor a `tool/result`
follows. -/
def UnansweredRequest (id : GoString) : Prop :=
  ∃ before e after, run = before ++ e :: after ∧ id ∈ e.requestedCalls ∧
    ∀ e' ∈ after, e'.loggedCall ≠ some id ∧ e'.resultFor id = none

/-- A `tool/call` for the call that no `tool/result` follows. -/
def UnansweredCall (id : GoString) : Prop :=
  ∃ before e after, run = before ++ e :: after ∧ e.loggedCall = some id ∧
    ∀ e' ∈ after, e'.resultFor id = none

def resultCount (id : GoString) : ℕ :=
  run.countP fun e => (e.resultFor id).isSome

end AutoAgent
