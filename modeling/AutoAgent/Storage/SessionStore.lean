import AutoAgent.Storage.EventLog
import AutoAgent.Storage.RunControl

/-!
# The SQL session store

A session is a row of `sessions`, which holds its version, and rows of `event_chunks`,
each with the JSON lines of one batch under the number of its first event.  `Create`
writes the row and a first chunk; `AppendEvents` adds a chunk and moves the version in
one transaction; `Load` reads the row, then the chunks, in two queries that are not one
transaction, and puts the session together again.

**What the tables stand for.**  `SessionTables.Holds` says that the tables hold a
session as a sequence of batches: the chunks are the batches, one after the other, and
the version is the number of their events.  Each operation is one step on the sequence,
and `Load` is the concatenation of it.

**The header.**  What the header column says is left open: `readHeader` is any function
from it to the id of the session, which fails if the header cannot be decoded or
`NewSession` refuses it.

**Faults.**  A transaction that the database fails changes nothing and is not counted.
The evidence rows that both transactions also write are not modelled: what they can do
is fail the transaction.
-/

namespace AutoAgent.Storage

open List StoredEvent

/-! ## Tables -/

/-- A row of `sessions`.  The columns of the catalogue are left out. -/
structure SessionRow (η : Type) where
  id : GoString
  version : ℤ
  header : η

/-- The primary key of `sessions`. -/
def SessionRow.clash {η : Type} (a b : SessionRow η) : Bool := a.id == b.id

/-- A row of `event_chunks`. -/
structure ChunkRow where
  sessionID : GoString
  startSeq : ℤ
  payload : List UInt8
  deriving DecidableEq

/-- The primary key of `event_chunks`. -/
def ChunkRow.clash (a b : ChunkRow) : Bool := a.sessionID = b.sessionID ∧ a.startSeq = b.startSeq

/-- The tables of the session store. -/
structure SessionTables (η : Type) where
  sessions : Table (SessionRow η) SessionRow.clash
  chunks : Table ChunkRow ChunkRow.clash

/-- The limits of a store; zero and less mean the default. -/
structure SQLSessionStore where
  maxSessions : ℤ
  maxEventChunks : ℤ

def maxStoredSessions : ℕ := 4096

def maxEventChunksPerSession : ℕ := 4096

def maxEventChunkBytes : ℕ := 16 * 2 ^ 20

namespace SQLSessionStore

def sessionCap (store : SQLSessionStore) : ℤ :=
  if 0 < store.maxSessions then store.maxSessions else maxStoredSessions

def eventChunkCap (store : SQLSessionStore) : ℤ :=
  if 0 < store.maxEventChunks then store.maxEventChunks else maxEventChunksPerSession

end SQLSessionStore

/-! ## Writing -/

/-- The errors of `Create` and `AppendEvents`. -/
inductive SessionStoreError where
  /-- the error of `ValidateSessionID` -/
  | sessionID (cause : StoreError)
  /-- `event append is discontinuous: expected seq …, found …` -/
  | discontinuous (want found : ℤ)
  /-- `ErrSessionConflict` -/
  | conflict
  /-- `ErrSessionNotFound` -/
  | notFound
  /-- `stored sessions exceed maximum of …` -/
  | tooManySessions
  /-- the error of `json.Marshal` -/
  | marshal
  /-- `event chunk exceeds … bytes` -/
  | chunkTooLarge
  /-- `session event chunks exceed maximum of …` -/
  | tooManyChunks
  /-- the primary key of `event_chunks` -/
  | duplicateChunk

variable {τ η : Type} (times : TimeFormat τ) (store : SQLSessionStore)

/-- The loop of `insertChunk` over the events, with the bytes written so far. -/
def appendLines (payload : List UInt8) :
    List (StoredEvent τ) → Except SessionStoreError (List UInt8)
  | [] => .ok payload
  | e :: es =>
    match e.marshal times with
    | none => .error .marshal
    | some d =>
      let payload := payload ++ lineBytes d
      if maxEventChunkBytes < payload.length then .error .chunkTooLarge
      else appendLines payload es

def chunkPayload (events : List (StoredEvent τ)) : Except SessionStoreError (List UInt8) :=
  appendLines times [] events

def insertChunk (id : GoString) (startSeq : ℤ) (events : List (StoredEvent τ))
    (db : SessionTables η) : Except SessionStoreError (SessionTables η) := do
  let payload ← chunkPayload times events
  let stored := db.chunks.count fun c => c.sessionID == id
  require ((stored : ℤ) < store.eventChunkCap) .tooManyChunks
  match db.chunks.insert ⟨id, startSeq, payload⟩ with
  | none => .error .duplicateChunk
  | some chunks => .ok { db with chunks }

/-- The chunk of a batch, if there is anything to write. -/
def insertEvents (id : GoString) (startSeq : ℤ) (events : List (StoredEvent τ))
    (db : SessionTables η) : Except SessionStoreError (SessionTables η) :=
  if events = [] then .ok db else insertChunk times store id startSeq events db

def SessionTables.session (db : SessionTables η) (id : GoString) : Option (SessionRow η) :=
  db.sessions.lookup SessionRow.id id

def create (id : GoString) (header : η) (events : List (StoredEvent τ)) (db : SessionTables η) :
    Except SessionStoreError (SessionTables η) := do
  (validateSessionID id).mapError .sessionID
  let stored := db.sessions.count fun _ => true
  if store.sessionCap ≤ stored then
    .error (if (db.session id).isSome then .conflict else .tooManySessions)
  else
    match db.sessions.insert ⟨id, events.length, header⟩ with
    | none => .error .conflict
    | some sessions =>
      insertEvents times store id 0 events { db with sessions }

/-- `validateAppendEvents`, from event number `index` on. -/
def validateAppendEvents (want : ℤ) : List (StoredEvent τ) → Except SessionStoreError Unit
  | [] => .ok ()
  | e :: es =>
    if (e.seq : ℤ) ≠ want then .error (.discontinuous want e.seq)
    else validateAppendEvents (want + 1) es

def sqlUpdateSessionTip (target : ℤ) (id : GoString) (version : ℤ) : Update (SessionRow η) where
  selects r := r.id = id ∧ r.version = version
  set r := { r with version := target }

/-- The move of the version, which some other writer may have moved. -/
def updateSessionTip (target : ℤ) (id : GoString) (version : ℤ) (db : SessionTables η) :
    Except SessionStoreError (SessionTables η) :=
  match db.sessions.execute (sqlUpdateSessionTip target id version) with
  | none => .error .conflict
  | some (affected, sessions) =>
    if affected = 0 then .error .conflict else .ok { db with sessions }

def appendEvents (id : GoString) (expectedVersion : ℤ) (events : List (StoredEvent τ))
    (db : SessionTables η) : Except SessionStoreError (SessionTables η) := do
  (validateSessionID id).mapError .sessionID
  validateAppendEvents expectedVersion events
  match db.session id with
  | none => .error .notFound
  | some row =>
    if row.version ≠ expectedVersion then .error .conflict
    else
      let db ← insertEvents times store id expectedVersion events db
      updateSessionTip (expectedVersion + events.length) id row.version db

/-! ## Reading -/

inductive LoadError where
  /-- the error of `ValidateSessionID` -/
  | sessionID (cause : StoreError)
  /-- `ErrSessionNotFound` -/
  | notFound
  /-- `decode session … header: …`, or the error of `NewSession` -/
  | header
  /-- `session … committed version … is outside the supported range …` -/
  | version
  /-- `session … chunk sequence discontinuous at …` -/
  | discontinuous (startSeq : ℤ)
  /-- `decode session … event: …` -/
  | line (cause : LineError)
  /-- `session … committed version … exceeds restored event count …` -/
  | missingEvents
  /-- the error of `RestoreSession` -/
  | restore (cause : SessionError)

/-- The longest line `Load` reads. -/
def maxLineBytes : ℕ := maxSessionEventDataBytes + 2 ^ 20

/-- The loop of `restore` over the chunks. -/
def readChunks (nextSeq : ℤ) : List ChunkRow → Except LoadError (List (StoredEvent τ))
  | [] => .ok []
  | c :: cs =>
    if c.startSeq ≠ nextSeq then .error (.discontinuous c.startSeq)
    else do
      let events ← (readLines times maxLineBytes c.payload).mapError .line
      let rest ← readChunks (nextSeq + events.length) cs
      return events ++ rest

/-- A restored session, and its events with their times. -/
structure Loaded (τ : Type) where
  session : Session
  events : List (StoredEvent τ)

/-- `RestoreSession` on stored events. -/
def restoreSession (id : GoString) (events : List (StoredEvent τ)) :
    Except LoadError (Loaded τ) :=
  match Session.restore id (events.map (·.event)) with
  | .error e => .error (.restore e)
  | .ok session => .ok ⟨session, events⟩

def SessionTables.selectChunks (db : SessionTables η) (id : GoString) : List ChunkRow :=
  (db.chunks.rows.filter fun c => c.sessionID == id).insertionSort (·.startSeq ≤ ·.startSeq)

variable (readHeader : η → Option GoString)

/-- `loadSessionRow`: the version and the id in the header. -/
def loadSessionRow (db : SessionTables η) (id : GoString) : Except LoadError (ℤ × GoString) :=
  match db.session id with
  | none => .error .notFound
  | some row =>
    match readHeader row.header with
    | none => .error .header
    | some own => .ok (row.version, own)

/-- `restore`, on what was read of the row and the tables at the second query. -/
def restoreRow (id : GoString) (version : ℤ) (own : GoString) (db : SessionTables η) :
    Except LoadError (Loaded τ) := do
  require (0 ≤ version ∧ version ≤ maxSessionEvents) .version
  let events ← readChunks times 0 (db.selectChunks id)
  let events := events.take version.toNat
  require (version ≤ events.length) .missingEvents
  restoreSession own events

/-- `Load`, on the tables at its two queries. -/
def load (first second : SessionTables η) (id : GoString) : Except LoadError (Loaded τ) := do
  (validateSessionID id).mapError .sessionID
  let (version, own) ← loadSessionRow readHeader first id
  restoreRow times id version own second

/-! ## Sessions as batches -/

variable {times store readHeader} {id own : GoString} {db db' : SessionTables η}
  {es : List (StoredEvent τ)}
  {payload : List UInt8} {batches : List (List (StoredEvent τ))}

theorem appendLines_eq_ok {start : List UInt8} (h : appendLines times start es = .ok payload) :
    ∃ docs, Marshalled times es docs ∧ payload = start ++ batchBytes docs ∧
      (es ≠ [] → payload.length ≤ maxEventChunkBytes) := by
  induction es generalizing start with
  | nil =>
    cases h
    exact ⟨[], .nil, by simp [batchBytes], by simp⟩
  | cons e es ih =>
    rw [appendLines] at h
    cases written : e.marshal times with
    | none => simp [written] at h
    | some d =>
      simp only [written] at h
      split_ifs at h with large
      obtain ⟨docs, rest, bytes, bound⟩ := ih h
      refine ⟨d :: docs, .cons written rest, ?_, fun _ => ?_⟩
      · rw [bytes, append_assoc]
        rfl
      · by_cases last : es = []
        · subst last
          cases rest
          rw [bytes, batchBytes, flatMap_nil, append_nil]
          exact Nat.le_of_not_lt large
        · exact bound last

theorem length_le_batchBytes {docs : List Doc} {d : Doc} (mem : d ∈ docs) :
    d.text.length ≤ (batchBytes docs).length := by
  induction docs with
  | nil => cases mem
  | cons d' docs ih =>
    rw [batchBytes, flatMap_cons, length_append, ← batchBytes, lineBytes, length_append]
    rcases mem_cons.mp mem with rfl | tail
    · omega
    · have rest := ih tail
      omega

theorem readLines_chunkPayload (h : chunkPayload times es = .ok payload) :
    readLines times maxLineBytes payload =
      if es.all (·.readable times) then .ok (es.map (·.reread)) else .error .decode := by
  obtain ⟨docs, written, bytes, bound⟩ := appendLines_eq_ok h
  subst bytes
  refine readLines_batch written fun d mem => ?_
  have nonempty : es ≠ [] := by
    rintro rfl
    cases written
    cases mem
  have limit : maxEventChunkBytes ≤ maxLineBytes := by decide
  exact le_trans (length_le_batchBytes mem) (le_trans (bound nonempty) limit)

variable (times) in
/-- The rows are the chunks of the batches, one after the other from a sequence number
on. -/
def ChunksOf (id : GoString) : ℤ → List (List (StoredEvent τ)) → List ChunkRow → Prop
  | _, [], rows => rows = []
  | start, es :: batches, rows => ∃ payload rest, rows = ⟨id, start, payload⟩ :: rest ∧
      chunkPayload times es = .ok payload ∧ ChunksOf id (start + es.length) batches rest

variable {rows : List ChunkRow} {start : ℤ}

section

variable (h : ChunksOf times id start batches rows)

include h

theorem ChunksOf.concat (written : chunkPayload times es = .ok payload) :
    ChunksOf times id start (batches ++ [es])
      (rows ++ [⟨id, start + batches.flatten.length, payload⟩]) := by
  induction batches generalizing start rows with
  | nil =>
    obtain rfl : rows = [] := h
    refine ⟨payload, [], ?_, written, rfl⟩
    simp
  | cons first batches ih =>
    obtain ⟨own, rest, rfl, firstWritten, tail⟩ := h
    refine ⟨own, _, rfl, firstWritten, ?_⟩
    have next := ih tail
    have position : start + (first.length : ℤ) + (batches.flatten.length : ℤ) =
        start + ((first :: batches).flatten.length : ℤ) := by
      simp
      omega
    rw [position] at next
    exact next

/-- Chunks start where they should or later, each after the one before it. -/
theorem ChunksOf.sorted : (∀ r ∈ rows, start ≤ r.startSeq) ∧
    rows.Pairwise (·.startSeq ≤ ·.startSeq) := by
  induction batches generalizing start rows with
  | nil =>
    obtain rfl : rows = [] := h
    exact ⟨by simp, .nil⟩
  | cons first batches ih =>
    obtain ⟨own, rest, rfl, -, tail⟩ := h
    obtain ⟨bound, sorted⟩ := ih tail
    have later : ∀ r ∈ rest, start ≤ r.startSeq := by
      intro r mem
      have := bound r mem
      omega
    exact ⟨forall_mem_cons.mpr ⟨le_rfl, later⟩, .cons later sorted⟩

/-- The chunks are put together again. -/
theorem ChunksOf.read :
    readChunks times start rows =
      if batches.flatten.all (·.readable times) then .ok (batches.flatten.map (·.reread))
      else .error (.line .decode) := by
  induction batches generalizing start rows with
  | nil =>
    obtain rfl : rows = [] := h
    rfl
  | cons first batches ih =>
    obtain ⟨own, rest, rfl, written, tail⟩ := h
    rw [readChunks, if_neg (not_not_intro rfl), readLines_chunkPayload written]
    by_cases head : first.all (·.readable times)
    · have others : readChunks times (start + ((first.map (·.reread)).length : ℤ)) rest =
          if batches.flatten.all (·.readable times) then .ok (batches.flatten.map (·.reread))
          else .error (.line .decode) := by
        rw [length_map]
        exact ih tail
      rw [if_pos head]
      show (readChunks times (start + ((first.map (·.reread)).length : ℤ)) rest >>= fun more =>
        pure (first.map (·.reread) ++ more)) = _
      rw [others, flatten_cons, all_append, head, map_append, Bool.true_and]
      split_ifs <;> rfl
    · simp only [head, flatten_cons, all_append, Bool.false_and]
      rfl

end

/-- The chunks of a session, in the order in which they were written. -/
def SessionTables.chunksOf (db : SessionTables η) (id : GoString) : List ChunkRow :=
  db.chunks.rows.filter fun c => c.sessionID == id

variable (times) in
/-- What the tables hold of a session: nothing, or a row with the number of its events
and one chunk for each batch. -/
def SessionTables.Holds (db : SessionTables η) (id : GoString) :
    Option (List (List (StoredEvent τ))) → Prop
  | none => db.session id = none ∧ db.chunksOf id = []
  | some batches => ChunksOf times id 0 batches (db.chunksOf id) ∧
      ∃ row, db.session id = some row ∧ row.version = batches.flatten.length

instance : Fact (Table.UniqueKey (@SessionRow.clash η) SessionRow.id) where
  out _ _ same := beq_iff_eq.mpr same

theorem insertChunk_eq_ok {startSeq : ℤ} (h : insertChunk times store id startSeq es db = .ok db') :
    ∃ payload, chunkPayload times es = .ok payload ∧ db'.sessions = db.sessions ∧
      db'.chunks.rows = db.chunks.rows ++ [⟨id, startSeq, payload⟩] := by
  simp only [insertChunk, bind_eq_ok] at h
  obtain ⟨payload, written, -, -, h⟩ := h
  cases inserted : db.chunks.insert ⟨id, startSeq, payload⟩ with
  | none => simp [inserted] at h
  | some chunks =>
    rw [inserted] at h
    cases h
    exact ⟨payload, written, rfl, rows_of_insert inserted⟩

/-- A chunk of a session is the last one of that session and touches no other. -/
theorem chunksOf_of_concat {row : ChunkRow}
    (rows : db'.chunks.rows = db.chunks.rows ++ [row]) (id : GoString) :
    db'.chunksOf id = db.chunksOf id ++ if row.sessionID = id then [row] else [] := by
  rw [SessionTables.chunksOf, rows, filter_append, ← SessionTables.chunksOf]
  by_cases own : row.sessionID = id <;> simp [own]

/-- The batches of a session after a write: an empty one leaves no chunk. -/
def addBatch (batches : List (List (StoredEvent τ))) (es : List (StoredEvent τ)) :
    List (List (StoredEvent τ)) :=
  if es.isEmpty then batches else batches ++ [es]

@[simp] theorem flatten_addBatch : (addBatch batches es).flatten = batches.flatten ++ es := by
  unfold addBatch
  cases es <;> simp

/-- What `Create` and `AppendEvents` do to the chunks. -/
theorem chunksOf_addBatch (batches : List (List (StoredEvent τ)))
    (h : insertEvents times store id batches.flatten.length es db = .ok db')
    (held : ChunksOf times id 0 batches (db.chunksOf id)) :
    db'.sessions = db.sessions ∧ ChunksOf times id 0 (addBatch batches es) (db'.chunksOf id) ∧
      ∀ other, other ≠ id → db'.chunksOf other = db.chunksOf other := by
  unfold addBatch
  unfold insertEvents at h
  split_ifs at h with nothing
  · cases h
    rw [nothing]
    exact ⟨rfl, held, fun _ _ => rfl⟩
  · obtain ⟨payload, written, sessions, rows⟩ := insertChunk_eq_ok h
    have own := chunksOf_of_concat rows
    refine ⟨sessions, ?_, fun other differs => ?_⟩
    · rw [own id, if_pos rfl, if_neg (by simpa using nothing)]
      have next := held.concat written
      rw [Int.zero_add] at next
      exact next
    · rw [own other, if_neg (Ne.symm differs), append_nil]

variable {held : GoString → Option (List (List (StoredEvent τ)))}

/-- The tables hold the same sessions when one of them is replaced. -/
theorem holds_update (holds : ∀ id, db.Holds times id (held id))
    {next : List (List (StoredEvent τ))} (own : db'.Holds times id (some next))
    (others : ∀ other, other ≠ id →
      db'.session other = db.session other ∧ db'.chunksOf other = db.chunksOf other)
    (other : GoString) : db'.Holds times other (if other = id then some next else held other) := by
  by_cases same : other = id
  · rw [if_pos same, same]
    exact own
  · rw [if_neg same]
    have before := holds other
    obtain ⟨row, chunks⟩ := others other same
    unfold SessionTables.Holds at before ⊢
    rw [row, chunks]
    exact before

/-- `Create` makes a session that was not there. -/
theorem holds_of_create {header : η} (h : create times store id header es db = .ok db')
    (holds : ∀ id, db.Holds times id (held id)) :
    validateSessionID id = .ok () ∧ held id = none ∧ db.session id = none ∧
      (∀ k, db'.session k = if k = id then some ⟨id, es.length, header⟩ else db.session k) ∧
      ∀ other, db'.Holds times other
      (if other = id then some (addBatch [] es) else held other) := by
  simp only [create, bind_eq_ok, mapError_eq_ok] at h
  obtain ⟨⟨⟩, valid, h⟩ := h
  split_ifs at h
  cases inserted : db.sessions.insert ⟨id, es.length, header⟩ with
  | none => simp [inserted] at h
  | some sessions =>
    rw [inserted] at h
    have free : db.session id = none := lookup_eq_none_of_insert inserted
    have before := holds id
    have created : held id = none := by
      cases stored : held id with
      | none => rfl
      | some batches =>
        rw [stored] at before
        obtain ⟨-, row, found, -⟩ := before
        rw [free] at found
        cases found
    rw [created] at before
    obtain ⟨tables, chunks, others⟩ := chunksOf_addBatch [] h before.2
    have found : ∀ k, db'.session k = if k = id then some ⟨id, es.length, header⟩ else
        db.session k := by
      intro k
      rw [SessionTables.session, tables]
      exact lookup_of_insert inserted k
    have own : db'.Holds times id (some (addBatch [] es)) := by
      refine ⟨chunks, ⟨id, es.length, header⟩, ?_, ?_⟩
      · rw [found, if_pos rfl]
      · simp
    refine ⟨valid, created, free, found, holds_update holds own fun other differs => ?_⟩
    exact ⟨by rw [found, if_neg differs], others other differs⟩

/-- The move of the version of a session. -/
theorem updateSessionTip_eq_ok {target version : ℤ}
    (h : updateSessionTip target id version db = .ok db') :
    db'.chunks = db.chunks ∧ ∃ row, db.session id = some row ∧ row.version = version ∧
      ∀ k, db'.session k = if k = id then some { row with version := target }
        else db.session k := by
  unfold updateSessionTip at h
  cases ran : db.sessions.execute (sqlUpdateSessionTip target id version) with
  | none => simp [ran] at h
  | some answer =>
    obtain ⟨affected, sessions⟩ := answer
    rw [ran] at h
    dsimp only at h
    split_ifs at h with none
    cases h
    obtain ⟨row, found, selected, moved⟩ := selected_of_execute SessionRow.id id ran none
    exact ⟨rfl, row, found, (of_decide_eq_true selected).2, moved⟩

/-- `AppendEvents` adds its batch to a session with as many events as it expects. -/
theorem holds_of_appendEvents {expected : ℤ}
    (h : appendEvents times store id expected es db = .ok db')
    (holds : ∀ id, db.Holds times id (held id)) :
    validateSessionID id = .ok () ∧
    (∀ k, (db'.session k).map (·.header) = (db.session k).map (·.header)) ∧
    ∃ batches, held id = some batches ∧ expected = batches.flatten.length ∧
      ∀ other, db'.Holds times other
        (if other = id then some (addBatch batches es) else held other) := by
  simp only [appendEvents, bind_eq_ok, mapError_eq_ok] at h
  obtain ⟨⟨⟩, valid, -, -, h⟩ := h
  refine ⟨valid, ?_⟩
  cases found : db.session id with
  | none => simp [found] at h
  | some row =>
    rw [found] at h
    dsimp only at h
    split_ifs at h with current
    rw [not_not] at current
    rw [bind_eq_ok] at h
    obtain ⟨mid, inserted, moved⟩ := h
    have before := holds id
    cases stored : held id with
    | none =>
      rw [stored] at before
      rw [before.1] at found
      cases found
    | some batches =>
      rw [stored] at before
      obtain ⟨chunks, row', found', version⟩ := before
      obtain rfl : row = row' := some.inj (found.symm.trans found')
      have position : expected = batches.flatten.length := current.symm.trans version
      rw [position] at inserted
      obtain ⟨tables, chunks', others⟩ := chunksOf_addBatch batches inserted chunks
      obtain ⟨same, moving, there, -, rows⟩ := updateSessionTip_eq_ok moved
      have session : ∀ k, mid.session k = db.session k := fun k => by
        rw [SessionTables.session, tables, ← SessionTables.session]
      have chunk : ∀ k, db'.chunksOf k = mid.chunksOf k := fun k => by
        rw [SessionTables.chunksOf, same, ← SessionTables.chunksOf]
      have own : db'.Holds times id (some (addBatch batches es)) := by
        refine ⟨by rw [chunk]; exact chunks',
          { moving with version := expected + es.length }, by rw [rows, if_pos rfl], ?_⟩
        rw [flatten_addBatch, length_append, Int.natCast_add, position]
      refine ⟨fun k => ?_, batches, rfl, position,
        holds_update holds own fun other differs => ⟨?_, ?_⟩⟩
      · rw [rows]
        split_ifs with here
        · rw [here, ← session, there]
          rfl
        · rw [session]
      · rw [rows, if_neg differs, session]
      · rw [chunk, others other differs]

/-! ## Loading -/

theorem restoreSession_eq_ok {loaded : Loaded τ} :
    restoreSession id es = .ok loaded ↔
      loaded.events = es ∧ Session.restore id (es.map (·.event)) = .ok loaded.session := by
  obtain ⟨session, events⟩ := loaded
  unfold restoreSession
  cases Session.restore id (es.map (·.event)) with
  | error e => simp
  | ok restored =>
    rw [Except.ok.injEq, Except.ok.injEq, Loaded.mk.injEq, and_comm, eq_comm (a := es)]

theorem selectChunks_of_chunksOf (h : ChunksOf times id start batches (db.chunksOf id)) :
    db.selectChunks id = db.chunksOf id :=
  h.sorted.2.insertionSort_eq

/-- A session without a header that can be read is not loaded. -/
theorem named_of_load {first second : SessionTables η} {loaded : Loaded τ}
    (h : load times readHeader first second id = .ok loaded) :
    ∃ own, (first.session id).bind (readHeader ·.header) = some own := by
  simp only [load, bind_eq_ok] at h
  obtain ⟨_, _, ⟨version, own⟩, row, -⟩ := h
  unfold loadSessionRow at row
  cases found : first.session id with
  | none => simp [found] at row
  | some r =>
    cases named : readHeader r.header with
    | none => simp [found, named] at row
    | some own => exact ⟨own, named⟩

/-- `Load` puts together the batches its first query has seen, if it can read all that
its second query finds. -/
theorem load_of_holds {first second : SessionTables η} {more : List (StoredEvent τ)}
    {later : List (List (StoredEvent τ))} (valid : validateSessionID id = .ok ())
    (named : (first.session id).bind (readHeader ·.header) = some own)
    (held : first.Holds times id (some batches)) (heldLater : second.Holds times id (some later))
    (grown : later.flatten = batches.flatten ++ more) :
    load times readHeader first second id =
      if maxSessionEvents < batches.flatten.length then .error .version
      else if later.flatten.all (·.readable times) then
        restoreSession own (batches.flatten.map (·.reread))
      else .error (.line .decode) := by
  obtain ⟨-, row, found, version⟩ := held
  have chunks := heldLater.1
  have read := chunks.read
  rw [← selectChunks_of_chunksOf chunks] at read
  rw [found, bind_some] at named
  have queried : load times readHeader first second id =
      restoreRow times id batches.flatten.length own second := by
    simp only [load, valid, loadSessionRow, found, named, version]
    rfl
  rw [queried]
  unfold restoreRow
  -- from here on only the two logs matter
  generalize batches.flatten = log at *
  generalize later.flatten = logLater at *
  by_cases large : maxSessionEvents < log.length
  · rw [if_pos large, require_neg (by omega)]
    rfl
  · rw [if_neg large, require_pos (by omega), read]
    by_cases readable : logLater.all (·.readable times)
    · have committed : (logLater.map reread).take (log.length : ℤ).toNat = log.map reread := by
        rw [grown, map_append, Int.toNat_natCast]
        exact take_left' (by simp)
      rw [if_pos readable, if_pos readable]
      show (do
        require ((log.length : ℤ) ≤ ((logLater.map reread).take (log.length : ℤ).toNat).length)
          LoadError.missingEvents
        restoreSession own ((logLater.map reread).take (log.length : ℤ).toNat)) = _
      rw [committed, length_map, require_pos le_rfl]
      rfl
    · rw [if_neg readable, if_neg readable]
      rfl

end AutoAgent.Storage
