import AutoAgent.Lib.Transaction
import AutoAgent.Storage.QueueInvariant

/-!
# Submissions with an idempotency key

`EnqueueRunOnce` creates a run together with a row of `run_submissions` that
remembers the hash of the key and the digest of the request.  A later call with
the key finds the row and answers with the run.

**The transaction statement by statement.**  `RunControl.enqueueRunOnce` is the
transaction as one function.
`enqueueRunOnceTx` is the same text with its statements and its commits written
out, on a database that may fail at any of them; `ends_enqueueRunOnce` says that
it commits what the function computes or nothing.  A call that inserts the
submission and then finds the control plane at its capacity, or the run id taken,
is one of those that commit nothing.

**What is remembered.**  `Submitted` keeps, beside the database, the runs that
were created under a key whose row is still there.
-/

namespace AutoAgent.Storage

open List Tx

/-! ## The transaction -/

/-- The end of a call that does not insert: the stored submission is read, its
digest compared and its run returned; `absent` is the error without one. -/
def answerStored (run : QueuedRun) (keyHash requestDigest : GoString) (absent : StoreError) :
    Tx Database StoreError (RunRecord × Bool) := do
  let stored ← query fun db =>
    db.submissions.find (·.hasKey run.tenantID run.subjectID run.sessionID keyHash)
  match stored with
  | none => fail absent
  | some row =>
    check (require (row.requestDigest = requestDigest) .submissionReused)
    let record ← query fun db => db.runControl.find (·.hasID row.runID)
    match record with
    | none => fail .runNotFound
    | some r =>
      commit
      return (scanRun r, false)

/-- `EnqueueRunOnce` on a database that may fail. -/
def enqueueRunOnceTx (config : StoreConfig) (run : QueuedRun)
    (idempotencyKey requestDigest : GoString) (clock : ℤ) :
    Tx Database StoreError (RunRecord × Bool) := do
  check (validateQueuedRun run)
  check (validateRunSubmission idempotencyKey requestDigest)
  let now := run.createdAt.getD clock
  let available := run.availableAt.getD now
  let keyHash := hashIdempotencyKey idempotencyKey
  let full ← query (submissionCapReached config)
  if full then answerStored run keyHash requestDigest .submissionCap
  else
    let row : SubmissionRow := ⟨run.tenantID, run.subjectID, run.sessionID, keyHash, requestDigest,
      run.runID, unixMilli now⟩
    -- sqlInsertRunSubmission, with whether a row was inserted
    let inserted ← statement fun db =>
      match db.submissions.insert row with
      | none => .ok (false, db)
      | some submissions => .ok (true, { db with submissions })
    if inserted then
      statement fun db => do
        ensureInFlightCapacity config db
        return ((), db)
      statement fun db => do
        let control ← insertOr db.runControl (newRunRow run.toRunRecord .queued (unixMilli now))
          (.conflict run.runID)
        return ((), { db with runControl := control })
      statement fun db => do
        let queue ← insertOr db.runQueue (newQueueRow run (unixMilli available))
          (.conflict run.runID)
        return ((), { db with runQueue := queue })
      commit
      let record : RunRecord :=
        { runID := run.runID, sessionID := run.sessionID, tenantID := run.tenantID
          subjectID := run.subjectID, status := RunState.queued.text, cancelRequested := false
          errorCode := .empty, createdAt := some now, updatedAt := some now
          completedAt := none }
      return (record, true)
    else answerStored run keyHash requestDigest .submissionRunID

variable {op : RunOp} {config : StoreConfig} {db db' : Database} {run : QueuedRun}
  {idempotencyKey requestDigest : GoString} {clock : ℤ}

theorem ends_answerStored {keyHash : GoString} (absent : StoreError) :
    (answerStored run keyHash requestDigest absent).Ends db' db
      (match db.submissions.find (·.hasKey run.tenantID run.subjectID run.sessionID keyHash) with
        | none => .error absent
        | some row => do return ((← replaySubmission db row requestDigest, false), db)) := by
  refine ends_query ?_
  cases db.submissions.find (·.hasKey run.tenantID run.subjectID run.sessionID keyHash) with
  | none => exact ends_fail absent
  | some row =>
    simp only [replaySubmission, bind_assoc]
    refine ends_check fun _ _ => ends_query ?_
    cases db.runControl.find (·.hasID row.runID) with
    | none => exact ends_fail _
    | some r => exact ends_commit _

/-- The transaction commits what the function computes, or nothing. -/
theorem ends_enqueueRunOnce :
    (enqueueRunOnceTx config run idempotencyKey requestDigest clock).Ends db db
      (enqueueRunOnce config run idempotencyKey requestDigest clock db) := by
  refine ends_check fun _ _ => ends_check fun _ _ => ends_query ?_
  split
  · exact ends_answerStored .submissionCap
  · dsimp only
    cases inserted : db.submissions.insert ⟨run.tenantID, run.subjectID, run.sessionID,
        hashIdempotencyKey idempotencyKey, requestDigest, run.runID,
        unixMilli (run.createdAt.getD clock)⟩ with
    | none =>
      refine ends_statement_ok (by rw [inserted]) ?_
      exact ends_answerStored .submissionRunID
    | some submissions =>
      refine ends_statement_ok (by rw [inserted]) ?_
      simp only [insertQueued, bind_assoc, pure_bind, if_true]
      refine ends_statement (by rfl) fun _ _ => ?_
      refine ends_statement (by rfl) fun control _ => ?_
      refine ends_statement (by rfl) fun queue _ => ?_
      exact ends_commit _

/-! ## Runs created under a key -/

/-- What a submission is identified by. -/
structure SubmissionKey where
  tenantID : GoString
  subjectID : GoString
  sessionID : GoString
  key : GoString
  deriving DecidableEq

/-- The key under which a run is submitted. -/
def QueuedRun.submissionKey (run : QueuedRun) (idempotencyKey : GoString) : SubmissionKey :=
  ⟨run.tenantID, run.subjectID, run.sessionID, idempotencyKey⟩

/-- The columns of the primary key of `run_submissions`. -/
def SubmissionRow.columns (row : SubmissionRow) : GoString × GoString × GoString × GoString :=
  (row.tenantID, row.subjectID, row.sessionID, row.keyHash)

/-- The values of those columns for a key. -/
def SubmissionKey.columns (k : SubmissionKey) : GoString × GoString × GoString × GoString :=
  (k.tenantID, k.subjectID, k.sessionID, hashIdempotencyKey k.key)

def SubmissionKey.stored (k : SubmissionKey) (db : Database) : Option SubmissionRow :=
  db.submissions.lookup SubmissionRow.columns k.columns

/-- A run that `EnqueueRunOnce` created. -/
structure Creation where
  key : SubmissionKey
  digest : GoString
  runID : GoString
  deriving DecidableEq

/-- The run a transaction creates under a key. -/
def RunOp.creation (config : StoreConfig) (db : Database) : RunOp → Option Creation
  | .enqueueOnce run key digest clock =>
    match enqueueRunOnce config run key digest clock db with
    | .ok ((record, true), _) => some ⟨run.submissionKey key, digest, record.runID⟩
    | _ => none
  | _ => none

/-- The database, and the runs created under a key whose row is retained. -/
structure Submitted extends db : Database where
  created : List Creation

/-- The control plane with the runs created under retained keys. -/
def submittedSystem (config : StoreConfig) : System Submitted RunOp where
  init s := s = ⟨.empty, []⟩
  step s op s' := op.apply config s.db = .ok s'.db ∧
    s'.created = (s.created ++ (op.creation config s.db).toList).filter fun c =>
      (c.key.stored s'.db).isSome

instance : Fact (Table.UniqueKey SubmissionRow.clash SubmissionRow.columns) where
  out a b same := by
    obtain ⟨tenant, subject, session, hash⟩ : a.tenantID = b.tenantID ∧ a.subjectID = b.subjectID ∧
        a.sessionID = b.sessionID ∧ a.keyHash = b.keyHash := by
      simpa [SubmissionRow.columns] using same
    simp [SubmissionRow.clash, SubmissionRow.hasKey, tenant, subject, session, hash]

theorem find_submission (k : SubmissionKey) (db : Database) :
    db.submissions.find (·.hasKey k.tenantID k.subjectID k.sessionID (hashIdempotencyKey k.key)) =
      k.stored db := by
  show db.submissions.find _ = db.submissions.find _
  congr 1
  funext row
  rw [eq_iff_iff]
  simp [SubmissionRow.hasKey, SubmissionRow.columns, SubmissionKey.columns]

/-- What a transaction can do to the submissions. -/
inductive SubmissionStep (db db' : Database) : Option Creation → Prop where
  | keep (same : db'.submissions = db.submissions) : SubmissionStep db db' none
  | create {c : Creation} {row : SubmissionRow} {r : RunRow}
      (inserted : db.submissions.insert row = some db'.submissions)
      (columns : row.columns = c.key.columns) (digest : row.requestDigest = c.digest)
      (runID : row.runID = c.runID) (run : db'.run row.runID = some r)
      (sessionID : r.sessionID = row.sessionID) (tenantID : r.tenantID = row.tenantID)
      (subjectID : r.subjectID = row.subjectID) : SubmissionStep db db' (some c)
  | prune {p : SubmissionRow → Bool} (deleted : db'.submissions = db.submissions.delete p) :
      SubmissionStep db db' none

theorem submissionStep_of_apply (h : op.apply config db = .ok db') :
    SubmissionStep db db' (op.creation config db) := by
  have frame := frame_of_apply h
  cases op with
  | enqueueOnce run key digest clock =>
    obtain ⟨answer, ran, rfl⟩ := map_eq_ok.mp h
    simp only [RunOp.creation, ran]
    rcases enqueueRunOnce_spec ran with
      ⟨_, _, _, _, rfl⟩ | ⟨submissions, record, db', inserted, queued, sameID, rfl⟩
    · exact .keep rfl
    · obtain ⟨-, created, _, sets⟩ := insertQueued_spec queued
      have found : db'.run run.runID = some (newRunRow run.toRunRecord .queued created) :=
        congrArg RunView.run ((sets.view run.runID).trans (if_pos rfl))
      refine .create (by rw [inserted, sets.only.submissions]) rfl rfl sameID.symm found rfl rfl rfl
  | pruneSubmissions olderThan =>
    cases h
    exact .prune rfl
  | _ => exact .keep (frame.submissions nofun)

/-! ## What holds in every state -/

variable {s s' : Submitted}

/-- The rows of `run_submissions` are those of the runs created under a key, one
run for each key. -/
structure Submitted.Sound (s : Submitted) : Prop where
  once : s.created.Pairwise fun a b => a.key ≠ b.key
  named : ∀ c ∈ s.created, ∃ row, c.key.stored s.db = some row ∧ row.runID = c.runID ∧
    row.requestDigest = c.digest
  runs : ∀ row ∈ s.submissions.rows, ∃ r, s.run row.runID = some r ∧
    r.sessionID = row.sessionID ∧ r.tenantID = row.tenantID ∧ r.subjectID = row.subjectID

variable {row : SubmissionRow}

/-- A submission that was there before a transaction keeps its run. -/
theorem run_of_submission (applied : op.apply config db = .ok db')
    (h : ∃ r, db.run row.runID = some r ∧ r.sessionID = row.sessionID ∧
      r.tenantID = row.tenantID ∧ r.subjectID = row.subjectID) :
    ∃ r, db'.run row.runID = some r ∧ r.sessionID = row.sessionID ∧
      r.tenantID = row.tenantID ∧ r.subjectID = row.subjectID := by
  obtain ⟨r, found, session, tenant, subject⟩ := h
  obtain ⟨r', found', same, _⟩ := run_of_turn (turn_of_apply applied row.runID) found
  exact ⟨r', found', same.sessionID.trans session, same.tenantID.trans tenant,
    same.subjectID.trans subject⟩

theorem sound_of_submission_step (sound : s.Sound) (step : (submittedSystem config).step s op s') :
    s'.Sound := by
  obtain ⟨applied, created⟩ := step
  have submission := submissionStep_of_apply applied
  generalize op.creation config s.db = creation at submission created
  have listed : s'.created.Sublist (s.created ++ creation.toList) := by
    rw [created]
    exact filter_sublist
  -- without a new run, a creation is remembered because its row is still there
  have shrinks : creation.toList = [] →
      (∀ row ∈ s'.submissions.rows, row ∈ s.submissions.rows) →
      s'.Sound := by
    intro none fewer
    rw [none, append_nil] at listed
    refine ⟨sound.once.sublist listed, fun c mem => ?_, fun row mem =>
      run_of_submission applied (sound.runs row (fewer row mem))⟩
    obtain ⟨row, stored, rest⟩ := sound.named c (listed.subset mem)
    rw [created, mem_filter] at mem
    obtain ⟨row', stored'⟩ := isSome_iff_exists.mp mem.2
    obtain ⟨inRows, columns⟩ := lookup_eq_some.mp stored'
    cases stored.symm.trans
      (lookup_eq_some.mpr ⟨fewer row' inRows, columns⟩)
    exact ⟨row, stored', rest⟩
  cases submission with
  | keep same => exact shrinks rfl fun row mem => same ▸ mem
  | prune deleted =>
    refine shrinks rfl fun row mem => ?_
    rw [deleted] at mem
    exact (mem_delete.mp mem).1
  | @create c row r inserted columns digest runID run sessionID tenantID subjectID =>
    have absent : c.key.stored s.db = none := by
      rw [SubmissionKey.stored, ← columns]
      exact lookup_eq_none_of_insert inserted
    have stored : ∀ k : SubmissionKey, k.stored s'.db =
        if k.columns = row.columns then some row else k.stored s.db := fun k =>
      lookup_of_insert inserted k.columns
    refine ⟨List.Pairwise.sublist listed ?_, fun c' mem => ?_, fun row' mem => ?_⟩
    · refine pairwise_append.mpr ⟨sound.once, pairwise_singleton _ _, ?_⟩
      intro a memA b memB same
      obtain rfl := mem_singleton.mp memB
      obtain ⟨_, present, _⟩ := sound.named a memA
      rw [same, absent] at present
      cases present
    · rcases mem_append.mp (listed.subset mem) with old | new
      · obtain ⟨row', present, rest⟩ := sound.named c' old
        refine ⟨row', ?_, rest⟩
        rw [stored, if_neg ?_, present]
        -- the inserted row has another key
        intro same
        rw [SubmissionKey.stored, same, columns] at present
        rw [SubmissionKey.stored, present] at absent
        cases absent
      · obtain rfl := mem_singleton.mp new
        exact ⟨row, by rw [stored, if_pos columns.symm], runID, digest⟩
    · rw [rows_of_insert inserted, mem_append, mem_singleton] at mem
      rcases mem with old | rfl
      · exact run_of_submission applied (sound.runs row' old)
      · exact ⟨r, run, sessionID, tenantID, subjectID⟩

theorem submitted_invariant (config : StoreConfig) :
    (submittedSystem config).Invariant Submitted.Sound where
  init := by
    rintro _ rfl
    exact ⟨.nil, nofun, nofun⟩
  step := sound_of_submission_step

/-- A call with a key whose row is there. -/
theorem enqueueRunOnce_of_stored (stored : (run.submissionKey idempotencyKey).stored db = some row)
    (valid : validateQueuedRun run = .ok ())
    (validKey : validateRunSubmission idempotencyKey requestDigest = .ok ()) :
    enqueueRunOnce config run idempotencyKey requestDigest clock db =
      do return ((← replaySubmission db row requestDigest, false), db) := by
  have found := (find_submission (run.submissionKey idempotencyKey) db).trans stored
  have clash : db.submissions.insert ⟨run.tenantID, run.subjectID, run.sessionID,
      hashIdempotencyKey idempotencyKey, requestDigest, run.runID,
      unixMilli (run.createdAt.getD clock)⟩ = none := by
    cases inserted : db.submissions.insert _ with
    | none => rfl
    | some submissions => cases stored.symm.trans (lookup_eq_none_of_insert inserted)
  simp only [QueuedRun.submissionKey] at found
  unfold enqueueRunOnce
  rw [valid, validKey]
  simp only [found, clash, ite_self]
  rfl

/-- What is promised of `EnqueueRunOnce` in a state of the control plane, for
every call and every failure of the database. -/
structure SubmissionLaws (config : StoreConfig) (s : Submitted) : Prop where
  /-- at most one run has been created under a key whose row is retained -/
  once : s.created.Pairwise fun a b => a.key ≠ b.key
  /-- a call that creates a run adds the rows of that run and nothing else -/
  created : ∀ {run : QueuedRun} {key digest : GoString} {clock : ℤ} {faults : List Bool}
    {record : RunRecord} {db' : Database},
    (enqueueRunOnceTx config run key digest clock).transact faults s.db =
      (.ok (record, true), db') →
    record.runID = run.runID ∧ ∃ r q row, r.runID = run.runID ∧ q.runID = run.runID ∧
      row.runID = run.runID ∧ row.columns = (run.submissionKey key).columns ∧
      db'.runControl.rows = s.runControl.rows ++ [r] ∧
      db'.runQueue.rows = s.runQueue.rows ++ [q] ∧
      db'.submissions.rows = s.submissions.rows ++ [row] ∧
      db'.approvals = s.approvals ∧ db'.links = s.links
  /-- a replay with the digest is answered with the run, whatever became of it -/
  replayed : ∀ c ∈ s.created, ∃ r ∈ s.runControl.rows, r.runID = c.runID ∧
    ∀ (run : QueuedRun) (clock : ℤ) (faults : List Bool), run.submissionKey c.key.key = c.key →
      validateQueuedRun run = .ok () → validateRunSubmission c.key.key c.digest = .ok () →
      (enqueueRunOnceTx config run c.key.key c.digest clock).transact faults s.db =
          (.ok (scanRun r, false), s.db) ∨
        true ∈ faults ∧ (enqueueRunOnceTx config run c.key.key c.digest clock).transact faults
          s.db = (.error none, s.db)
  /-- a replay with another digest is a conflict -/
  reused : ∀ c ∈ s.created, ∀ (run : QueuedRun) (digest : GoString) (clock : ℤ)
    (faults : List Bool), run.submissionKey c.key.key = c.key → digest ≠ c.digest →
      validateQueuedRun run = .ok () → validateRunSubmission c.key.key digest = .ok () →
      (enqueueRunOnceTx config run c.key.key digest clock).transact faults s.db =
          (.error (some .submissionReused), s.db) ∨
        true ∈ faults ∧ (enqueueRunOnceTx config run c.key.key digest clock).transact faults s.db =
          (.error none, s.db)
  /-- a call that fails, or that creates no run, changes nothing -/
  failed : ∀ {run : QueuedRun} {key digest : GoString} {clock : ℤ} {faults : List Bool}
    {answer : Except (Option StoreError) (RunRecord × Bool)} {db' : Database},
    (enqueueRunOnceTx config run key digest clock).transact faults s.db = (answer, db') →
    (∀ record, answer ≠ .ok (record, true)) → db' = s.db

/-- In every interleaving of transactions `EnqueueRunOnce` keeps its promises. -/
theorem submission_laws {config : StoreConfig} {s : Submitted}
    (reach : (submittedSystem config).Reachable s) : SubmissionLaws config s := by
  have sound := (submitted_invariant config).holds reach
  constructor
  case once => exact sound.once
  case created =>
    intro run key digest clock faults record db' committed
    rcases transact_cases ends_enqueueRunOnce committed with ⟨_, ⟨⟩, ran⟩ | ⟨none, _⟩
    · rcases enqueueRunOnce_spec ran with
        ⟨_, _, _, _, eq⟩ | ⟨submissions, _, _, inserted, queued, sameID, ⟨⟩⟩
      · simp at eq
      · obtain ⟨-, _, _, -, only⟩ := insertQueued_spec queued
        simp only [insertQueued, bind_eq_ok, pure_eq_ok, insertOr_eq_ok] at queued
        obtain ⟨_, _, control, insertedRun, queue, insertedRow, rfl⟩ := queued
        exact ⟨sameID, _, _, _, rfl, rfl, rfl, rfl, rows_of_insert insertedRun,
          rows_of_insert insertedRow, rows_of_insert inserted, only.approvals,
          only.links⟩
    · exact absurd rfl (none _)
  case replayed =>
    intro c mem
    obtain ⟨row, stored, sameRun, sameDigest⟩ := sound.named c mem
    have listed := lookup_eq_some.mp stored
    obtain ⟨r, found, _⟩ := sound.runs row listed.1
    obtain ⟨inRuns, runID⟩ := run_eq_some.mp found
    refine ⟨r, inRuns, runID.trans sameRun, fun run clock faults own valid validKey => ?_⟩
    have answered : enqueueRunOnce config run c.key.key c.digest clock s.db =
        .ok ((scanRun r, false), s.db) := by
      rw [enqueueRunOnce_of_stored (own ▸ stored) valid validKey]
      have found' : s.runControl.find (·.hasID row.runID) = some r := found
      simp only [replaySubmission, sameDigest, require, if_true, found']
      rfl
    exact transact_of_ends ends_enqueueRunOnce answered faults
  case reused =>
    intro c mem run digest clock faults own differs valid validKey
    obtain ⟨row, stored, _, sameDigest⟩ := sound.named c mem
    have refused : enqueueRunOnce config run c.key.key digest clock s.db =
        .error .submissionReused := by
      rw [enqueueRunOnce_of_stored (own ▸ stored) valid validKey]
      have differs' : ¬ c.digest = digest := fun same => differs same.symm
      simp only [replaySubmission, sameDigest, differs', require]
      rfl
    exact transact_of_ends ends_enqueueRunOnce refused faults
  case failed =>
    intro run key digest clock faults answer db' ended notCreated
    rcases transact_cases ends_enqueueRunOnce ended with ⟨a, rfl, ran⟩ | ⟨_, same⟩
    · rcases enqueueRunOnce_spec ran with ⟨_, _, _, _, eq⟩ | ⟨_, record, _, _, _, _, eq⟩
      · exact congrArg Prod.snd eq
      · exact absurd (congrArg (fun p => Except.ok p.1) eq) (notCreated record)
    · exact same

/-! ## A submission that is replayed -/

/-- A transaction that may be refused, with the run it creates. -/
def Submitted.tryStep (s : Submitted) (op : RunOp) : Option Submitted :=
  (tryApply s.db op).map fun db =>
    ⟨db, (s.created ++ (op.creation defaultConfig s.db).toList).filter fun c =>
      (c.key.stored db).isSome⟩

theorem step_of_trySubmission (h : s.tryStep op = some s') :
    (submittedSystem defaultConfig).step s op s' := by
  obtain ⟨db, applied, rfl⟩ := map_eq_some_iff.mp h
  exact ⟨apply_of_tryApply applied, rfl⟩

def exampleDigest (c : Char) : GoString := go (String.ofList (List.replicate 64 c))

/-- A run is submitted under a key and a worker claims it. -/
def submittedAndClaimed : List RunOp := [
  .enqueueOnce exampleRun (go "k") (exampleDigest 'a') (10 ^ 9),
  .claim (go "w") (10 ^ 9) [] (fun _ => 0) (2 * 10 ^ 9)]

def exampleCreation : Creation := ⟨⟨go "t", go "u", go "s1", go "k"⟩, exampleDigest 'a', go "r1"⟩

/-- The same request under another run id. -/
def exampleReplay : QueuedRun := { exampleRun with runID := go "r2" }

/-- The submission is made again while a worker holds the run: the answer is that
run, and another request under the key is a conflict. -/
theorem submission_laws_replayed :
    ∃ s r, (submittedSystem defaultConfig).Reachable s ∧ r ∈ s.runControl.rows ∧
      r.runID = go "r1" ∧ r.status = .running ∧
      (enqueueRunOnceTx defaultConfig exampleReplay (go "k") (exampleDigest 'a')
        (3 * 10 ^ 9)).transact [] s.db = (.ok (scanRun r, false), s.db) ∧
      (enqueueRunOnceTx defaultConfig exampleReplay (go "k") (exampleDigest 'b')
        (3 * 10 ^ 9)).transact [] s.db = (.error (some .submissionReused), s.db) := by
  obtain ⟨s, reach, created, running⟩ := System.exists_of_run (fun _ => step_of_trySubmission) rfl
    (fun s => s.created = [exampleCreation] ∧
      ∀ r ∈ s.runControl.rows, r.runID = go "r1" → r.status = .running)
    submittedAndClaimed (by decide +kernel)
  have laws := submission_laws reach
  have mem : exampleCreation ∈ s.created := by
    rw [created]
    exact mem_singleton.mpr rfl
  obtain ⟨r, inRuns, runID, replayed⟩ := laws.replayed _ mem
  refine ⟨s, r, reach, inRuns, runID, running r inRuns runID, ?_, ?_⟩
  · rcases replayed exampleReplay (3 * 10 ^ 9) [] rfl rfl rfl with answer | ⟨fault, _⟩
    · exact answer
    · cases fault
  · rcases laws.reused _ mem exampleReplay (exampleDigest 'b') (3 * 10 ^ 9) [] rfl (by decide) rfl
      rfl with answer | ⟨fault, _⟩
    · exact answer
    · cases fault

end AutoAgent.Storage
