import AutoAgent.Lib.JsonText
import AutoAgent.Lib.Transaction
import AutoAgent.Storage.RunControl

/-!
# Receipts of route evidence and their delivery

A receipt says, in a fixed set of facts, which route a finished run took.  It is
written once, together with a row of the outbox from which dispatchers deliver it;
the outbox row alone carries the state of the delivery.

**What a receipt may say.**  `canonicalRouteEvidenceV1Payload` accepts a JSON object
of strings whose keys are the facts of the first version, checks the values, and
writes the object again, so that what is hashed and stored depends on the facts
only.

**Transactions.**  Creating and claiming are transactions of several statements,
written out below on a database that may fail at each of them.  Acknowledging and
retrying are one statement each.  A call that meets a duplicate or a busy database
tries again, up to eight times; each attempt is a transaction of its own.  Claiming
reads the clock at each attempt, creating once before the first.
-/

namespace AutoAgent.Storage

open Tx

/-! ## Receipts -/

/-- The errors of the route-evidence calls. -/
inductive RouteError where
  /-- `route evidence receipt protocol is invalid` -/
  | protocol
  /-- an error of `ValidateSessionID`, `ValidateRunID` or `validateWorkerID` -/
  | store (cause : StoreError)
  /-- `route evidence receipt terminal identity is invalid` -/
  | terminalIdentity
  /-- `route evidence receipt payload is invalid` -/
  | payload
  /-- `route evidence receipt payload must be a string-valued JSON object` -/
  | payloadShape
  /-- `route evidence receipt payload contains an invalid fact` -/
  | invalidFact
  /-- `route evidence receipt payload terminal facts do not match identity` -/
  | factMismatch
  /-- `unavailable route evidence receipt must contain only identity facts` -/
  | unavailableFacts
  /-- `verified route evidence receipt is missing fixed facts` -/
  | missingFacts
  /-- `verified route evidence receipt contains invalid fixed facts` -/
  | fixedFacts
  /-- `verified route evidence receipt contains an invalid count` -/
  | count
  /-- `route evidence receipt identity status is invalid` -/
  | identityStatus
  /-- `route evidence receipt payload digest does not match payload` -/
  | digest
  /-- `route evidence receipt source conflicts with immutable receipt` -/
  | sourceConflict
  /-- `route evidence receipt is missing its outbox record` -/
  | missingOutbox
  /-- a primary key or unique index of the tables; the attempt is repeated -/
  | duplicate
  /-- a `CHECK` constraint of the tables -/
  | constraint
  /-- `route evidence lease ttl must be positive` -/
  | ttl
  /-- an `UPDATE` that found its row changed; the attempt is repeated -/
  | raced
  /-- `route evidence receipt id is invalid` -/
  | receiptID
  /-- `route evidence lease generation must be positive` -/
  | generation
  /-- `route evidence retry availability time is zero` -/
  | availability
  /-- `route evidence error class is invalid` -/
  | errorClass

/-- `RouteEvidenceReceiptInput`; a creation time of zero is `none`. -/
structure RouteEvidenceReceiptInput where
  protocol : GoString
  sessionID : GoString
  runID : GoString
  terminalEventSeq : ℤ
  sourceSessionVersion : ℤ
  terminalStatus : GoString
  payload : List UInt8
  payloadSHA256 : GoString
  createdAt : Option ℤ

/-- `RouteEvidenceReceipt`, and a row of `route_evidence_receipts`, in which
`createdAt` counts milliseconds. -/
structure RouteEvidenceReceipt where
  receiptID : GoString
  protocol : GoString
  sessionID : GoString
  runID : GoString
  terminalEventSeq : ℤ
  sourceSessionVersion : ℤ
  terminalStatus : GoString
  payload : List UInt8
  payloadSHA256 : GoString
  createdAt : ℤ
  deriving DecidableEq

def routeEvidenceReceiptProtocol : GoString := go "route_evidence_receipt/v1"

def maxRouteEvidencePayloadBytes : ℕ := 32 * 2 ^ 10

def routeEvidenceV2Implementation : GoString :=
  go "programmatic-route-projection/v2-probe-once-host-projected-ptc-choice-capacity-admission"

def routeEvidenceV1Fields : List GoString :=
  [go "run.id", go "session.id", go "run.status", go "programmatic.route.identity.status",
    go "programmatic.route.version", go "programmatic.route.mode",
    go "programmatic.route.implementation", go "programmatic.route.selection",
    go "programmatic.route.selection.status", go "programmatic.route.coverage.status",
    go "programmatic.route.coverage.candidates", go "programmatic.route.coverage.selected",
    go "programmatic.route.coverage.executed", go "programmatic.route.coverage.duplicate",
    go "programmatic.route.coverage.exact_once", go "programmatic.route.effects.journal.status",
    go "programmatic.route.effects.journal.completed",
    go "programmatic.route.effects.external.status", go "programmatic.route.accounting.status",
    go "programmatic.route.accounting.model_calls", go "programmatic.route.context.archive.status",
    go "programmatic.route.context.assembly.status",
    go "programmatic.route.context.summary_events"]

/-- The facts of a payload, a `map[string]string`. -/
abbrev RouteFacts := List (GoString × GoString)

/-- `values[key]`. -/
def RouteFacts.fact (values : RouteFacts) (key : String) : GoString :=
  (values.lookup (go key)).getD .empty

variable (value : GoString)

def oneOfRouteEvidence (allowed : List String) : Bool :=
  allowed.any fun candidate => value == go candidate

def digitValue : GoRune → ℕ
  | .rune c => c.toNat - 48
  | _ => 0

/-- `strconv.ParseInt` with base 10 and 64 bits. -/
def parseInt (text : GoString) : Option ℤ :=
  let (negative, digits) : Bool × List GoRune :=
    match text.runes with
    | .rune '-' :: rest => (true, rest)
    | .rune '+' :: rest => (false, rest)
    | runes => (false, runes)
  let magnitude : ℤ := digits.foldl (fun n d => n * 10 + digitValue d) 0
  let value := if negative then -magnitude else magnitude
  if digits ≠ [] ∧ digits.all (·.satisfies Char.isDigit) ∧ -2 ^ 63 ≤ value ∧ value < 2 ^ 63 then
    some value
  else none

def validateVerifiedRouteEvidenceV1 (values : RouteFacts) : Except RouteError Unit := do
  let oneOf key := oneOfRouteEvidence (values.fact key)
  require (values.fact "programmatic.route.version" = go "2" ∧
    values.fact "programmatic.route.mode" = go "auto_probe_once" ∧
    values.fact "programmatic.route.implementation" = routeEvidenceV2Implementation ∧
    oneOf "programmatic.route.selection" ["unavailable", "direct", "ptc"] ∧
    oneOf "programmatic.route.selection.status" ["verified", "unavailable"] ∧
    oneOf "programmatic.route.coverage.status" ["complete", "incomplete", "unavailable"] ∧
    oneOf "programmatic.route.effects.journal.status" ["verified", "unavailable"] ∧
    values.fact "programmatic.route.effects.external.status" = go "unavailable" ∧
    oneOf "programmatic.route.accounting.status" ["verified", "unavailable"] ∧
    oneOf "programmatic.route.context.archive.status" ["verified", "unavailable"] ∧
    values.fact "programmatic.route.context.assembly.status" = go "unavailable" ∧
    oneOf "programmatic.route.coverage.duplicate" ["true", "false"] ∧
    oneOf "programmatic.route.coverage.exact_once" ["true", "false"]) .fixedFacts
  require (["programmatic.route.coverage.candidates", "programmatic.route.coverage.selected",
      "programmatic.route.coverage.executed", "programmatic.route.effects.journal.completed",
      "programmatic.route.accounting.model_calls",
      "programmatic.route.context.summary_events"].all fun key =>
    (parseInt (values.fact key)).any fun value => 0 ≤ value) .count

def canonicalRouteEvidenceV1Payload (payload : List UInt8)
    (sessionID runID terminalStatus : GoString) : Except RouteError (List UInt8) := do
  let values ←
    match Json.parse payload with
    | some (.obj members) =>
      match Codec.decEntries .string [] members with
      | some values => .ok values
      | none => .error .payloadShape
    | _ => .error .payloadShape
  require (values.all fun (key, value) => key ∈ routeEvidenceV1Fields ∧ value.len ≤ 256 ∧
    !value.anyRune fun c => c = '\x00' ∨ c = '\r' ∨ c = '\n') .invalidFact
  require (RouteFacts.fact values "session.id" == sessionID &&
    RouteFacts.fact values "run.id" == runID &&
    RouteFacts.fact values "run.status" == terminalStatus) .factMismatch
  let identity := RouteFacts.fact values "programmatic.route.identity.status"
  if identity = go "unavailable" then require (values.length = 4) .unavailableFacts
  else if identity = go "verified" then do
    require (values.length = routeEvidenceV1Fields.length) .missingFacts
    validateVerifiedRouteEvidenceV1 values
  else .error .identityStatus
  return ((Codec.map .string).enc values).text

def validRouteEvidenceTerminalStatus : Bool :=
  oneOfRouteEvidence value ["completed", "limited", "failed", "cancelled"]

/-- `validRouteEvidenceSHA256`: the text is 64 bytes long, is its own lower case and
can be decoded. -/
def validRouteEvidenceSHA256 : Bool :=
  value.len == 64 && value.allRunes fun c => c.isDigit || ('a' ≤ c && c ≤ 'f')

variable (input : RouteEvidenceReceiptInput)

/-- `validateRouteEvidenceReceiptInput`, with the payload it writes into its
argument. -/
def validateRouteEvidenceReceiptInput :
    Except RouteError RouteEvidenceReceiptInput := do
  require (input.protocol == routeEvidenceReceiptProtocol) .protocol
  (validateSessionID input.sessionID).mapError .store
  ((validateRunID input.runID).mapError StoreError.runID).mapError .store
  require (0 ≤ input.terminalEventSeq ∧ input.terminalEventSeq < input.sourceSessionVersion ∧
    validRouteEvidenceTerminalStatus input.terminalStatus) .terminalIdentity
  require (2 ≤ input.payload.length ∧ input.payload.length ≤ maxRouteEvidencePayloadBytes ∧
    (Json.parse input.payload).isSome) .payload
  let canonicalPayload ← canonicalRouteEvidenceV1Payload input.payload input.sessionID input.runID
    input.terminalStatus
  let canonicalDigest := Sha256.hex (Sha256.digest canonicalPayload)
  require (validRouteEvidenceSHA256 input.payloadSHA256 &&
    input.payloadSHA256 == canonicalDigest) .digest
  return { input with payload := canonicalPayload, payloadSHA256 := canonicalDigest }

def routeEvidenceReceiptID : GoString :=
  let value := input.protocol ++ go "\x00" ++ input.sessionID ++ go "\x00" ++ input.runID ++
    go "\x00" ++ go (toString input.terminalEventSeq) ++ go "\x00" ++
    go (toString input.sourceSessionVersion) ++ go "\x00" ++ input.terminalStatus ++ go "\x00" ++
    input.payloadSHA256
  go "re_" ++ Sha256.hex (Sha256.digest value.bytes)

/-- `receiptFromRouteEvidenceInput`, with the creation time `CreateOrLoad` gives a
receipt without one. -/
def receiptFromRouteEvidenceInput (clock : ℤ) :
    RouteEvidenceReceipt :=
  ⟨routeEvidenceReceiptID input, input.protocol, input.sessionID, input.runID,
    input.terminalEventSeq, input.sourceSessionVersion, input.terminalStatus, input.payload,
    input.payloadSHA256, input.createdAt.getD clock⟩

namespace RouteEvidenceReceipt

variable (r : RouteEvidenceReceipt)

/-- The row that is inserted for a receipt. -/
def row : RouteEvidenceReceipt :=
  { r with createdAt := unixMilli r.createdAt }

/-- `scanRouteEvidenceReceipt`. -/
def scan : RouteEvidenceReceipt :=
  { r with createdAt := r.createdAt * 10 ^ 6 }

/-- The condition of `sqlSelectRouteEvidenceReceipt`. -/
def hasSource (sessionID runID : GoString) (terminalEventSeq : ℤ) (r : RouteEvidenceReceipt) :
    Bool :=
  r.sessionID = sessionID ∧ r.runID = runID ∧ r.terminalEventSeq = terminalEventSeq

/-- The primary key and the unique index of `route_evidence_receipts`. -/
def clash (a b : RouteEvidenceReceipt) : Bool :=
  a.receiptID = b.receiptID ∨ a.hasSource b.sessionID b.runID b.terminalEventSeq

/-- The number of characters of a UTF-8 text. -/
def characters (text : List UInt8) : ℕ := text.countP fun b => b &&& 0xc0 != 0x80

/-- The `CHECK` constraints of `route_evidence_receipts`. -/
def checks : Bool :=
  r.receiptID.runeCount = 67 ∧ r.protocol = routeEvidenceReceiptProtocol ∧
    1 ≤ r.sessionID.runeCount ∧ r.sessionID.runeCount ≤ 128 ∧
    1 ≤ r.runID.runeCount ∧ r.runID.runeCount ≤ 128 ∧
    0 ≤ r.terminalEventSeq ∧ r.terminalEventSeq < r.sourceSessionVersion ∧
    validRouteEvidenceTerminalStatus r.terminalStatus ∧
    2 ≤ characters r.payload ∧ characters r.payload ≤ 32768 ∧
    r.payloadSHA256.runeCount = 64 ∧ 0 < r.createdAt

end RouteEvidenceReceipt

/-- `routeEvidenceReceiptMatches`: all but the creation time. -/
def routeEvidenceReceiptMatches (left right : RouteEvidenceReceipt) : Bool :=
  left.receiptID = right.receiptID ∧ left.protocol = right.protocol ∧
    left.sessionID = right.sessionID ∧ left.runID = right.runID ∧
    left.terminalEventSeq = right.terminalEventSeq ∧
    left.sourceSessionVersion = right.sourceSessionVersion ∧
    left.terminalStatus = right.terminalStatus ∧
    left.payloadSHA256 = right.payloadSHA256 ∧ left.payload = right.payload

/-! ## The outbox -/

/-- `state` of `route_evidence_outbox`. -/
inductive DeliveryState where
  | pending | leased | delivered
  deriving DecidableEq

/-- A row of `route_evidence_outbox`. -/
structure OutboxRow where
  receiptID : GoString
  state : DeliveryState
  availableAt : ℤ
  leaseOwner : GoString
  leaseGeneration : ℤ
  leaseExpiresAt : ℤ
  attempts : ℤ
  lastErrorClass : GoString
  deliveredAt : ℤ
  deriving DecidableEq

namespace OutboxRow

/-- The primary key of `route_evidence_outbox`. -/
def clash (a b : OutboxRow) : Bool := a.receiptID == b.receiptID

/-- The row `sqlInsertRouteEvidenceOutbox` inserts. -/
def new (receiptID : GoString) (availableAt : ℤ) : OutboxRow :=
  ⟨receiptID, .pending, availableAt, .empty, 0, 0, 0, .empty, 0⟩

/-- The row may be claimed. -/
def due (now : ℤ) (o : OutboxRow) : Bool :=
  o.state = .pending ∧ o.availableAt ≤ now ∨ o.state = .leased ∧ o.leaseExpiresAt ≤ now

/-- When a row that waits came, or comes, up. -/
def time (o : OutboxRow) : ℤ := if o.state = .pending then o.availableAt else o.leaseExpiresAt

/-- The order of claims. -/
def before (a b : OutboxRow) : Bool :=
  a.time < b.time ∨ a.time = b.time ∧ a.receiptID.before b.receiptID

/-- The row is leased to the claim and the lease has not expired. -/
def heldBy (receiptID workerID : GoString) (generation now : ℤ) (o : OutboxRow) : Bool :=
  o.receiptID = receiptID ∧ o.state = .leased ∧ o.leaseOwner = workerID ∧
    o.leaseGeneration = generation ∧ now < o.leaseExpiresAt

end OutboxRow

structure RouteTables where
  receipts : Table RouteEvidenceReceipt RouteEvidenceReceipt.clash
  outbox : Table OutboxRow OutboxRow.clash

def sqlClaimRouteEvidenceOutbox (workerID : GoString) (leaseExpiry : ℤ) (receiptID : GoString)
    (generation now : ℤ) : Update OutboxRow where
  selects o := o.receiptID = receiptID ∧ o.leaseGeneration = generation ∧ o.due now
  set o :=
    { o with
      state := .leased, leaseOwner := workerID, leaseGeneration := o.leaseGeneration + 1
      leaseExpiresAt := leaseExpiry, attempts := o.attempts + 1, lastErrorClass := .empty }

def sqlAckRouteEvidenceOutbox (receiptID workerID : GoString) (generation now : ℤ) :
    Update OutboxRow where
  selects := OutboxRow.heldBy receiptID workerID generation now
  set o :=
    { o with state := .delivered, leaseOwner := .empty, leaseExpiresAt := 0, deliveredAt := now }

def sqlRetryRouteEvidenceOutbox (availableAt : ℤ) (errorClass receiptID workerID : GoString)
    (generation now : ℤ) : Update OutboxRow where
  selects := OutboxRow.heldBy receiptID workerID generation now
  set o :=
    { o with
      state := .pending, availableAt, leaseOwner := .empty, leaseExpiresAt := 0
      lastErrorClass := errorClass }

/-! ## Calls -/

/-- An `INSERT` into the receipts. -/
def insertReceipt (r : RouteEvidenceReceipt) (w : RouteTables) :
    Except RouteError (Unit × RouteTables) := do
  require r.checks .constraint
  match w.receipts.insert r with
  | some receipts => .ok ((), { w with receipts })
  | none => .error .duplicate

/-- An `INSERT` into the outbox; the row meets the constraints of its columns. -/
def insertOutbox (o : OutboxRow) (w : RouteTables) : Except RouteError (Unit × RouteTables) :=
  match w.outbox.insert o with
  | some outbox => .ok ((), { w with outbox })
  | none => .error .duplicate

/-- An `UPDATE` of the outbox, with the number of rows. -/
def updateOutbox (u : Update OutboxRow) (w : RouteTables) : Except RouteError (ℕ × RouteTables) :=
  match w.outbox.execute u with
  | some (affected, outbox) => .ok (affected, { w with outbox })
  | none => .error .duplicate

/-- One attempt of `CreateOrLoadRouteEvidenceReceipt`, with whether the receipt was
created. -/
def createOrLoadRouteEvidenceReceipt (receipt : RouteEvidenceReceipt) :
    Tx RouteTables RouteError (RouteEvidenceReceipt × Bool) := do
  let found ← query fun w =>
    w.receipts.find (·.hasSource receipt.sessionID receipt.runID receipt.terminalEventSeq)
  match found with
  | some row =>
    check (require (routeEvidenceReceiptMatches row.scan receipt) .sourceConflict)
    let outbox ← query fun w => w.outbox.lookup OutboxRow.receiptID row.receiptID
    check (require outbox.isSome .missingOutbox)
    commit
    return (row.scan, false)
  | none =>
    statement (insertReceipt receipt.row)
    statement (insertOutbox (.new receipt.receiptID (unixMilli receipt.createdAt)))
    commit
    return (receipt, true)

structure RouteEvidenceOutboxClaim where
  receipt : RouteEvidenceReceipt
  workerID : GoString
  leaseGeneration : ℤ
  leaseExpiresAt : ℤ
  attempts : ℤ
  deriving DecidableEq

/-- `sqlClaimRouteEvidenceCandidate`: the first of the due rows that have a receipt. -/
def claimRouteEvidenceCandidate (now : ℤ) (w : RouteTables) :
    Option (RouteEvidenceReceipt × OutboxRow) := do
  let o ← Table.firstBy OutboxRow.before (w.outbox.rows.filter fun o =>
    o.due now ∧ (w.receipts.lookup (·.receiptID) o.receiptID).isSome)
  return (← w.receipts.lookup (·.receiptID) o.receiptID, o)

/-- One attempt of `ClaimRouteEvidenceReceipt`. -/
def claimRouteEvidenceReceipt (workerID : GoString) (leaseTTL clock : ℤ) :
    Tx RouteTables RouteError (Option RouteEvidenceOutboxClaim) := do
  let now := unixMilli clock
  match ← query (claimRouteEvidenceCandidate now) with
  | none => return none
  | some (receipt, o) =>
    let affected ← statement (updateOutbox (sqlClaimRouteEvidenceOutbox workerID
      (unixMilli (clock + leaseTTL)) receipt.receiptID o.leaseGeneration now))
    check (require (affected = 1) .raced)
    commit
    return some ⟨receipt.scan, workerID, o.leaseGeneration + 1, clock + leaseTTL, o.attempts + 1⟩

def validRouteEvidenceReceiptID : Bool :=
  value.len == 67 && value.runes.take 3 == (go "re_").runes &&
    validRouteEvidenceSHA256 ⟨value.runes.drop 3⟩

def validateRouteEvidenceClaim (receiptID workerID : GoString) (leaseGeneration : ℤ) :
    Except RouteError Unit := do
  require (validRouteEvidenceReceiptID receiptID) .receiptID
  (validateWorkerID workerID).mapError .store
  require (1 ≤ leaseGeneration) .generation

/-- `validateRouteEvidenceErrorClass`, with `maxRouteEvidenceErrorClass`. -/
def validateRouteEvidenceErrorClass : Except RouteError Unit :=
  require (value ≠ .empty ∧ value.len ≤ 64 ∧
    value.allRunes fun c => c.isLower || c.isDigit || c == '.' || c == '_' || c == '-') .errorClass

/-- What a dispatcher or a reconciler asks for, with the clock it reads. -/
inductive RouteCall where
  /-- `CreateOrLoadRouteEvidenceReceipt` -/
  | create (input : RouteEvidenceReceiptInput) (clock : ℤ)
  /-- `ClaimRouteEvidenceReceipt` -/
  | claim (workerID : GoString) (leaseTTL clock : ℤ)
  /-- `AckRouteEvidenceReceipt` -/
  | ack (receiptID workerID : GoString) (leaseGeneration clock : ℤ)
  /-- `RetryRouteEvidenceReceipt`; an availability time of zero is `none` -/
  | retry (receiptID workerID : GoString) (leaseGeneration : ℤ) (availableAt : Option ℤ)
      (errorClass : GoString) (clock : ℤ)

inductive RouteAnswer where
  | receipt (receipt : RouteEvidenceReceipt) (created : Bool)
  | claimed (claim : Option RouteEvidenceOutboxClaim)
  | settled (won : Bool)
  deriving DecidableEq

def RouteCall.attempt : RouteCall → Tx RouteTables RouteError RouteAnswer
  | .create input clock => do
      let input ← check (validateRouteEvidenceReceiptInput input)
      let made ← createOrLoadRouteEvidenceReceipt (receiptFromRouteEvidenceInput input clock)
      return .receipt made.1 made.2
  | .claim workerID leaseTTL clock => do
      check ((validateWorkerID workerID).mapError .store)
      check (require (0 < leaseTTL) .ttl)
      return .claimed (← claimRouteEvidenceReceipt workerID leaseTTL clock)
  | .ack receiptID workerID leaseGeneration clock => do
      check (validateRouteEvidenceClaim receiptID workerID leaseGeneration)
      let affected ← statement (updateOutbox
        (sqlAckRouteEvidenceOutbox receiptID workerID leaseGeneration (unixMilli clock)))
      commit
      return .settled (decide (affected = 1))
  | .retry receiptID workerID leaseGeneration availableAt errorClass clock => do
      check (validateRouteEvidenceClaim receiptID workerID leaseGeneration)
      check (require availableAt.isSome .availability)
      check (validateRouteEvidenceErrorClass errorClass)
      let affected ← statement (updateOutbox (sqlRetryRouteEvidenceOutbox
        (unixMilli (availableAt.getD 0)) errorClass receiptID workerID leaseGeneration
        (unixMilli clock)))
      commit
      return .settled (decide (affected = 1))

/-- What an attempt reports and leaves on a database that fails some statements. -/
def RouteCall.run (call : RouteCall) (faults : List Bool) (w : RouteTables) :
    Except (Option RouteError) RouteAnswer × RouteTables :=
  call.attempt.transact faults w

end AutoAgent.Storage
