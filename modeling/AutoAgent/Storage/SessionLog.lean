import AutoAgent.Storage.SessionStore

/-!
# Runs of the session store

`Create` and `AppendEvents` calls of any number of writers, one transaction after the
other.  The run keeps the calls that succeeded, in the order of their commits; the log
of a session is the events of those calls.

**Refinement.**  In every state of every run the tables hold exactly the batches of the
calls that succeeded (`StoreRun.Sound`), so the chunks of a session are contiguous and
disjoint, and a `Load` whose two queries see the states `s` and `s'` returns the log of
`s`.

**What limits it.**  An append without events commits without moving the version, so any
number of them succeed with one expected version.  The store takes events that no
session accepts, and headers that cannot be read: a `Load` that then meets them fails.
-/

namespace AutoAgent.Storage

open List

variable {τ η : Type} (times : TimeFormat τ) (store : SQLSessionStore)

/-! ## Runs of the store -/

inductive StoreCall (τ η : Type) where
  | create (id : GoString) (header : η) (events : List (StoredEvent τ))
  | append (id : GoString) (expectedVersion : ℤ) (events : List (StoredEvent τ))

namespace StoreCall

def id : StoreCall τ η → GoString
  | .create id _ _ | .append id _ _ => id

def events : StoreCall τ η → List (StoredEvent τ)
  | .create _ _ events | .append _ _ events => events

def run (db : SessionTables η) : StoreCall τ η → Except SessionStoreError (SessionTables η)
  | .create id header events => Storage.create times store id header events db
  | .append id expectedVersion events => appendEvents times store id expectedVersion events db

end StoreCall

/-- The tables, and the calls that succeeded in the order of their commits. -/
structure StoreRun (τ η : Type) where
  db : SessionTables η
  history : List (StoreCall τ η)

namespace StoreRun

/-- The calls that succeeded on a session. -/
def calls (s : StoreRun τ η) (id : GoString) : List (StoreCall τ η) :=
  s.history.filter fun call => call.id == id

/-- The events of the calls that succeeded on a session. -/
def log (s : StoreRun τ η) (id : GoString) : List (StoredEvent τ) :=
  (s.calls id).flatMap (·.events)

/-- The batches of a session, if it was created. -/
def batches (s : StoreRun τ η) (id : GoString) : Option (List (List (StoredEvent τ))) :=
  if (s.calls id).isEmpty then none
  else some (((s.calls id).map (·.events)).filter fun es => !es.isEmpty)

/-- One transaction, which the database may fail. -/
def step (s : StoreRun τ η) (call : StoreCall τ η) (fails : Bool) : StoreRun τ η :=
  if fails then s
  else
    match call.run times store s.db with
    | .error _ => s
    | .ok db => ⟨db, s.history ++ [call]⟩

end StoreRun

/-- Calls one after the other, on a store without sessions. -/
def storeSystem : System (StoreRun τ η) (StoreCall τ η × Bool) where
  init s := s = ⟨⟨.empty, .empty⟩, []⟩
  step s l s' := s' = s.step times store l.1 l.2

variable {times store} {s s' : StoreRun τ η} {call : StoreCall τ η}

theorem StoreRun.step_cases (fails : Bool) : s.step times store call fails = s ∨
    ∃ db, call.run times store s.db = .ok db ∧
      s.step times store call fails = ⟨db, s.history ++ [call]⟩ := by
  unfold StoreRun.step
  cases fails with
  | true => exact .inl rfl
  | false =>
    cases ran : call.run times store s.db with
    | error e => exact .inl rfl
    | ok db => exact .inr ⟨db, rfl, rfl⟩

/-! ## Batches of successful calls -/

namespace StoreRun

/-- The run after one more successful call. -/
def commit (s : StoreRun τ η) (db : SessionTables η) (call : StoreCall τ η) : StoreRun τ η :=
  ⟨db, s.history ++ [call]⟩

variable {db : SessionTables η}

theorem calls_commit (id : GoString) : (s.commit db call).calls id =
    s.calls id ++ if call.id = id then [call] else [] := by
  rw [calls, commit, filter_append, ← calls]
  by_cases own : call.id = id
  · simp [own]
  · simp [own]

theorem log_commit (id : GoString) : (s.commit db call).log id =
    s.log id ++ if call.id = id then call.events else [] := by
  rw [log, calls_commit, flatMap_append, ← log]
  split_ifs <;> simp

theorem log_of_batches {id : GoString} {batches : List (List (StoredEvent τ))}
    (h : s.batches id = some batches) : batches.flatten = s.log id := by
  unfold StoreRun.batches at h
  split_ifs at h
  cases h
  rw [log]
  induction s.calls id with
  | nil => rfl
  | cons call calls ih =>
    rw [map_cons, filter_cons, flatMap_cons, ← ih]
    cases call.events <;> simp

/-- A successful call adds its batch to its session. -/
theorem batches_commit (id : GoString) : (s.commit db call).batches id =
    if id = call.id then some (addBatch ((s.batches call.id).getD []) call.events)
    else s.batches id := by
  unfold StoreRun.batches
  rw [calls_commit]
  by_cases own : id = call.id
  · subst own
    rw [if_pos rfl, if_pos rfl]
    have last : ([call].map (·.events)).filter (fun es => !es.isEmpty) =
        addBatch [] call.events := by
      unfold addBatch
      by_cases nothing : call.events.isEmpty
      · simp [nothing]
      · simp [nothing]
    have added : ∀ batches : List (List (StoredEvent τ)),
        batches ++ addBatch [] call.events = addBatch batches call.events := by
      intro batches
      unfold addBatch
      split_ifs <;> simp
    by_cases first : (s.calls call.id).isEmpty
    · rw [if_pos first, List.isEmpty_iff.mp first, nil_append, last]
      rfl
    · rw [if_neg first, map_append, filter_append, last, added]
      simp
  · rw [if_neg own, if_neg (Ne.symm own), append_nil]

end StoreRun

/-! ## What every state of a run satisfies -/

/-- Two appends with one expected version: the first one had no events. -/
def StoreCall.Apart (a b : StoreCall τ η) : Prop :=
  ∀ id version es es', a = .append id version es → b = .append id version es' → es = []

variable (times) in
/-- The tables hold the batches of the calls that succeeded. -/
structure StoreRun.Sound (s : StoreRun τ η) : Prop where
  holds : ∀ id, s.db.Holds times id (s.batches id)
  valid : ∀ call ∈ s.history, validateSessionID call.id = .ok ()
  headers : ∀ id header, (∃ es, .create id header es ∈ s.history) ↔
    (s.db.session id).map (·.header) = some header
  passed : ∀ {id : GoString} {version : ℤ} {es : List (StoredEvent τ)},
    .append id version es ∈ s.history → version + es.length ≤ (s.log id).length
  once : s.history.Pairwise StoreCall.Apart

/-- What a successful call finds and does. -/
theorem StoreRun.Sound.run (sound : s.Sound times) {db : SessionTables η}
    (ran : call.run times store s.db = .ok db) :
    validateSessionID call.id = .ok () ∧
    (∀ {id version es}, call = .append id version es → version = (s.log id).length) ∧
    (∀ id header, (∃ es, .create id header es ∈ s.history ++ [call]) ↔
      (db.session id).map (·.header) = some header) ∧
    ∀ id, db.Holds times id ((s.commit db call).batches id) := by
  have batched : ∀ batches, (s.batches call.id).getD [] = batches →
      (∀ id, db.Holds times id
        (if id = call.id then some (addBatch batches call.events) else s.batches id)) →
      ∀ id, db.Holds times id ((s.commit db call).batches id) := by
    intro batches before after id
    rw [StoreRun.batches_commit, before]
    exact after id
  cases call with
  | create id header es =>
    obtain ⟨valid, absent, free, found, after⟩ := holds_of_create ran sound.holds
    refine ⟨valid, nofun, fun k head => ?_, batched [] ?_ after⟩
    · simp only [mem_append, exists_or, sound.headers k head, found k]
      by_cases own : k = id
      · simp [own, free, eq_comm]
      · simp [own]
    · show (s.batches id).getD [] = []
      rw [absent]
      rfl
  | append id version es =>
    obtain ⟨valid, kept, batches, present, position, after⟩ :=
      holds_of_appendEvents ran sound.holds
    refine ⟨valid, ?_, fun k head => ?_, batched batches ?_ after⟩
    · rintro _ _ _ ⟨⟩
      rw [position, StoreRun.log_of_batches present]
    · rw [kept, ← sound.headers]
      simp
    · show (s.batches id).getD [] = batches
      rw [present]
      rfl

theorem StoreRun.Sound.commit (sound : s.Sound times) {db : SessionTables η}
    (ran : call.run times store s.db = .ok db) : (s.commit db call).Sound times := by
  obtain ⟨valid, expected, headers, holds⟩ := sound.run ran
  refine ⟨holds, ?_, headers, ?_, ?_⟩
  · intro c mem
    rcases mem_append.mp mem with old | new
    · exact sound.valid c old
    · rw [mem_singleton.mp new]
      exact valid
  · intro id version es mem
    rw [StoreRun.log_commit, length_append, Int.natCast_add]
    rcases mem_append.mp mem with old | new
    · have before := sound.passed old
      omega
    · have own := mem_singleton.mp new
      have position := expected own.symm
      rw [← own, if_pos (show (StoreCall.append id version es : StoreCall τ η).id = id from rfl),
        position]
      exact le_refl _
  · refine pairwise_append.mpr ⟨sound.once, pairwise_singleton _ _, ?_⟩
    intro a old b new id version es es' first second
    -- the version has passed what a batch with events expected
    rw [mem_singleton.mp new] at second
    have before := sound.passed (first ▸ old)
    have position := expected second
    refine eq_nil_of_length_eq_zero ?_
    omega

theorem store_invariant :
    (storeSystem times store : System (StoreRun τ η) _).Invariant fun s => s.Sound times where
  init := by
    rintro _ rfl
    exact ⟨fun _ => ⟨rfl, rfl⟩, nofun, fun _ _ => ⟨nofun, nofun⟩, nofun, .nil⟩
  step := by
    rintro s l _ sound rfl
    rcases StoreRun.step_cases l.2 with same | ⟨db, ran, next⟩
    · exact same ▸ sound
    · exact next ▸ sound.commit ran

/-- Later states have more successful calls. -/
theorem history_of_after (later : ((storeSystem times store).after s).Reachable s') :
    ∃ more, s'.history = s.history ++ more := by
  induction later with
  | init same => exact ⟨[], by rw [same, append_nil]⟩
  | @step mid _ l _ moved ih =>
    obtain ⟨more, grown⟩ := ih
    rcases StoreRun.step_cases (s := mid) l.2 with same | ⟨db, -, next⟩
    · exact ⟨more, by rw [moved, same, grown]⟩
    · exact ⟨more ++ [l.1], by rw [moved, next, ← append_assoc, ← grown]⟩

namespace StoreRun

variable {id : GoString}

theorem batches_eq_some : (∃ batches, s.batches id = some batches) ↔ s.calls id ≠ [] := by
  unfold StoreRun.batches
  cases s.calls id <;> simp

variable {readHeader : η → Option GoString}

/-- What a `Load` sees of a session that was created, at its two queries. -/
theorem load_of_calls (sound : s.Sound times) (sound' : s'.Sound times)
    {more : List (StoreCall τ η)} (grown : s'.history = s.history ++ more)
    {header : η} {initial : List (StoredEvent τ)} (created : .create id header initial ∈ s.history)
    {own : GoString} (named : readHeader header = some own) :
    load times readHeader s.db s'.db id =
      if maxSessionEvents < (s.log id).length then .error .version
      else if (s'.log id).all (·.readable times) then
        restoreSession own ((s.log id).map (·.reread))
      else .error (.line .decode) := by
  have calls : s'.calls id = s.calls id ++ more.filter fun call => call.id == id := by
    rw [StoreRun.calls, grown, filter_append, ← StoreRun.calls]
  have called : s.calls id ≠ [] :=
    ne_nil_of_mem (mem_filter.mpr ⟨created, beq_self_eq_true id⟩)
  have called' : s'.calls id ≠ [] := by
    rw [calls]
    exact append_ne_nil_of_left_ne_nil called _
  obtain ⟨batches, held⟩ := batches_eq_some.mpr called
  obtain ⟨later, held'⟩ := batches_eq_some.mpr called'
  have valid : validateSessionID id = .ok () := sound.valid _ created
  have written : (s.db.session id).bind (readHeader ·.header) = some own := by
    obtain ⟨row, found, rfl⟩ := map_eq_some_iff.mp ((sound.headers id header).mp ⟨_, created⟩)
    rw [found]
    exact named
  have log : later.flatten = batches.flatten ++
      (more.filter fun call => call.id == id).flatMap (·.events) := by
    rw [log_of_batches held, log_of_batches held', StoreRun.log, calls, flatMap_append,
      ← StoreRun.log]
  have loaded := load_of_holds valid written (held ▸ sound.holds id) (held' ▸ sound'.holds id) log
  rw [log_of_batches held, log_of_batches held'] at loaded
  exact loaded

/-- A session that is loaded was created with a header that can be read. -/
theorem created_of_load (sound : s.Sound times) {second : SessionTables η} {loaded : Loaded τ}
    (h : load times readHeader s.db second id = .ok loaded) :
    ∃ header initial own, .create id header initial ∈ s.history ∧ readHeader header = some own := by
  obtain ⟨own, named⟩ := named_of_load h
  obtain ⟨row, found, read⟩ := bind_eq_some_iff.mp named
  obtain ⟨initial, created⟩ := (sound.headers id row.header).mpr (by rw [found]; rfl)
  exact ⟨row.header, initial, own, created, read⟩

end StoreRun

/-! ## The laws of the store -/

variable (times) (readHeader : η → Option GoString) in
/-- What holds in a state `s` of a run, and of a `Load` whose first query sees `s` and
whose second query sees the later state `s'`. -/
structure StoreLaws (s s' : StoreRun τ η) : Prop where
  /-- of the appends with one expected version at most one with events succeeds, and
  then no other after it -/
  once : s.history.Pairwise StoreCall.Apart
  /-- the chunks of a session are its batches one after the other -/
  chunks : ∀ id, ChunksOf times id 0 ((s.batches id).getD []) (s.db.chunksOf id)
  /-- what is returned is the log, each event as its line reads, with the header that was
  created -/
  returned : ∀ id loaded, load times readHeader s.db s'.db id = .ok loaded →
    ∃ header initial own, .create id header initial ∈ s.history ∧ readHeader header = some own ∧
      loaded.events = (s.log id).map (·.reread) ∧
      Session.restore own (loaded.events.map (·.event)) = .ok loaded.session
  /-- the log itself is returned, if a session can hold its events and accepts them, and
  its header can be read -/
  faithful : ∀ id header initial, .create id header initial ∈ s.history →
    (∀ e ∈ s'.log id, e.Exact) → ∀ loaded, load times readHeader s.db s'.db id = .ok loaded ↔
      ∃ own, readHeader header = some own ∧ loaded.events = s.log id ∧
        Session.restore own ((s.log id).map (·.event)) = .ok loaded.session

/-- **The store keeps its logs.**  In every run of the store, at every state and for every
later state at which a `Load` may finish, the laws hold. -/
theorem store_laws (readHeader : η → Option GoString)
    (reach : (storeSystem times store).Reachable s)
    (later : ((storeSystem times store).after s).Reachable s') :
    StoreLaws times readHeader s s' := by
  have sound := store_invariant.holds reach
  have sound' := store_invariant.holds (reach.after later)
  obtain ⟨more, grown⟩ := history_of_after later
  refine ⟨sound.once, fun id => ?_, fun id loaded h => ?_,
    fun id header initial created exactly loaded => ?_⟩
  · have holds := sound.holds id
    cases held : s.batches id with
    | none =>
      rw [held] at holds
      exact holds.2
    | some batches =>
      rw [held] at holds
      exact holds.1
  · obtain ⟨header, initial, own, created, named⟩ := StoreRun.created_of_load sound h
    rw [StoreRun.load_of_calls sound sound' grown created named] at h
    split_ifs at h
    obtain ⟨events, restored⟩ := restoreSession_eq_ok.mp h
    rw [events]
    exact ⟨header, initial, own, created, named, rfl, restored⟩
  · have readable : (s'.log id).all (·.readable times) = true := by
      rw [all_eq_true]
      exact fun e mem => StoredEvent.readable_of_exact (exactly e mem)
    have reread : (s.log id).map (·.reread) = s.log id := by
      refine (map_congr_left fun e mem => ?_).trans (map_id _)
      refine StoredEvent.reread_of_exact (exactly e ?_)
      rw [StoreRun.log, StoreRun.calls, grown, filter_append, flatMap_append]
      exact mem_append_left _ mem
    cases named : readHeader header with
    | none =>
      -- the header `Load` finds is the one that was created
      refine ⟨fun h => ?_, nofun⟩
      obtain ⟨row, found, same⟩ :=
        map_eq_some_iff.mp ((sound.headers id header).mp ⟨initial, created⟩)
      obtain ⟨own, read⟩ := named_of_load h
      rw [found, bind_some, same, named] at read
      cases read
    | some own =>
      simp only [some.injEq, exists_eq_left']
      rw [StoreRun.load_of_calls sound sound' grown created named, if_pos readable, reread]
      split_ifs with large
      · -- a session refuses a log of this length, too
        refine ⟨nofun, fun h => ?_⟩
        have room := (Session.restore_eq_ok.mp h.2).1
        rw [length_map] at room
        omega
      · exact restoreSession_eq_ok

/-! ## Examples -/

/-- The state after calls that the database does not fail. -/
def StoreRun.ofCalls (times : TimeFormat τ) (store : SQLSessionStore)
    (calls : List (StoreCall τ η)) : StoreRun τ η :=
  calls.foldl (fun s call => s.step times store call false) ⟨⟨.empty, .empty⟩, []⟩

theorem reachable_ofCalls (calls : List (StoreCall τ η)) :
    (storeSystem times store).Reachable (.ofCalls times store calls) := by
  induction calls using List.reverseRecOn with
  | nil => exact .init rfl
  | append_singleton calls call ih =>
    rw [StoreRun.ofCalls, foldl_concat, ← StoreRun.ofCalls]
    exact .step (l := (call, false)) ih rfl

def exampleStore : SQLSessionStore := ⟨0, 0⟩

/-- A header that can be read, or not. -/
def headerID (readable : Bool) : Option GoString := if readable then some (go "s-1") else none

/-- A session to which one message is appended. -/
def exampleCalls : List (StoreCall GoString Bool) :=
  [.create (go "s-1") true [], .append (go "s-1") 0 [exampleEvent 0 .userMessage]]

theorem store_laws_two_appends :
    StoreLaws exampleTimes headerID (.ofCalls exampleTimes exampleStore exampleCalls)
      (StoreRun.ofCalls exampleTimes exampleStore exampleCalls |>.step exampleTimes exampleStore
        (.append (go "s-1") 1 [exampleEvent 1 .userMessage]) false) ∧
    (load exampleTimes headerID (StoreRun.ofCalls exampleTimes exampleStore exampleCalls).db
      (StoreRun.ofCalls exampleTimes exampleStore exampleCalls).db (go "s-1")).toOption.map
        (·.events.map (·.seq)) = some [0] :=
  ⟨store_laws _ (reachable_ofCalls exampleCalls) (.step (l := (_, false)) (.init rfl) rfl),
    by decide +kernel⟩

/-- Two appends without events succeed with one expected version, and so does one with
an event that no session accepts; the session cannot be loaded after it.  Nor can a
session whose header cannot be read. -/
theorem appends_share_version :
    let calls : List (StoreCall GoString Bool) :=
      [.create (go "s-1") true [], .append (go "s-1") 0 [], .append (go "s-1") 0 [],
        .append (go "s-1") 0 [exampleEvent 0 (.other (go "note"))], .create (go "s-2") false []]
    ∃ s, (storeSystem exampleTimes exampleStore).Reachable s ∧ s.history = calls ∧
      ∀ id ∈ [go "s-1", go "s-2"], ∀ loaded,
      load exampleTimes headerID s.db s.db id ≠ .ok loaded := by
  intro calls
  refine ⟨.ofCalls exampleTimes exampleStore calls, reachable_ofCalls calls, rfl, ?_⟩
  intro id mem loaded h
  have refused : ∀ id ∈ [go "s-1", go "s-2"],
      (load exampleTimes headerID (StoreRun.ofCalls exampleTimes exampleStore calls).db
        (StoreRun.ofCalls exampleTimes exampleStore calls).db id).isOk = false := by
    decide +kernel
  have answer := refused id mem
  rw [h] at answer
  cases answer

end AutoAgent.Storage
