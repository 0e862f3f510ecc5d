import AutoAgent.Storage.RunQueue

/-!
# What a transaction does

The properties of the queue tie the row of a run in `run_control` to its row in
`run_queue`, so this module follows the two together: `Database.view` is what the
control plane stores about one run, and `Turn` lists the ways in which one
transaction can change it.

**One run at a time.**  Every transaction but two changes the view of a single
run, which is `Database.SetsView`; recovery does so once for each expired claim,
and `FailStaleRuns` changes only runs without a queue row.

**The other tables.**  Beside the rows of runs and of the queue, a transaction writes at
most one of the tables of submissions, approvals and delegation links; `RunOp.writes`
says which.

`effect_of_apply` collects it all: whatever the transaction, every run makes one step and
the tables it does not write stay as they are.  The properties of single tables are read
off that (`evolves_of_apply`, `turn_of_apply`, `frame_of_apply`).
-/

namespace AutoAgent.Storage

open List QueueRow
open QueueRow (hasID)

/-! ## Views -/

/-- What is stored about one run. -/
structure RunView where
  run : Option RunRow
  queue : Option QueueRow

namespace Database

def run (db : Database) (id : GoString) : Option RunRow := db.runControl.lookup RunRow.runID id

def queue (db : Database) (id : GoString) : Option QueueRow := db.runQueue.lookup QueueRow.runID id

def view (db : Database) (id : GoString) : RunView := ⟨db.run id, db.queue id⟩

/-- The databases differ at most in what is stored about one run, which becomes
`v`. -/
def SetsView (db db' : Database) (runID : GoString) (v : RunView) : Prop :=
  ∀ id, db'.view id = if id = runID then v else db.view id

end Database

instance : Fact (Table.UniqueKey RunRow.clash RunRow.runID) where
  out a b same := by simp [RunRow.clash, same]

instance : Fact (Table.UniqueKey clash QueueRow.runID) where
  out a b same := by simp [clash, same]

variable {op : RunOp} {config : StoreConfig} {db db' : Database} {r : RunRow} {q : QueueRow}
  {id runID : GoString}

theorem Database.run_eq_some : db.run id = some r ↔ r ∈ db.runControl.rows ∧ r.runID = id :=
  lookup_eq_some

theorem Database.queue_eq_some : db.queue id = some q ↔ q ∈ db.runQueue.rows ∧ q.runID = id :=
  lookup_eq_some

theorem Database.run_of_mem (mem : r ∈ db.runControl.rows) : db.run r.runID = some r :=
  run_eq_some.mpr ⟨mem, rfl⟩

variable {p : QueueRow → Bool}

theorem Database.queue_exists (own : ∀ q, p q → q.runID = id) :
    db.runQueue.exists? p ↔ ∃ q, db.queue id = some q ∧ p q := by
  rw [exists?_iff]
  constructor
  · rintro ⟨q, mem, meets⟩
    exact ⟨q, queue_eq_some.mpr ⟨mem, own q meets⟩, meets⟩
  · rintro ⟨q, found, meets⟩
    exact ⟨q, (queue_eq_some.mp found).1, meets⟩

/-! ## Turns -/

/-- No worker holds the row. -/
def QueueRow.Idle (q : QueueRow) : Prop := q.workerID = .empty ∧ q.leaseExpiresAt = 0

def RunOp.submits : RunOp → Option GoString
  | .create record _ => some record.runID
  | .enqueue run _ => some run.runID
  | .enqueueOnce run .. => some run.runID
  | _ => none

/-- The ways in which one transaction changes what is stored about a run. -/
inductive Turn (op : RunOp) (id : GoString) : RunView → RunView → Prop where
  | keep (v : RunView) : Turn op id v v
  /-- the times of the run or its cancellation flag change -/
  | touch {r r' : RunRow} {q : Option QueueRow} (same : r.SameRun r')
      (status : r'.status = r.status) : Turn op id ⟨some r, q⟩ ⟨some r', q⟩
  /-- its worker extends the lease -/
  | renew {r r' : RunRow} {q : QueueRow} (lease : ℤ) (same : r.SameRun r')
      (before : r.status = .running) (after : r'.status = .running) :
      Turn op id ⟨some r, some q⟩ ⟨some r', some { q with leaseExpiresAt := lease }⟩
  /-- a synchronous run starts -/
  | create {r : RunRow} {q : Option QueueRow} (own : op.submits = some id)
      (after : r.status = .running) : Turn op id ⟨none, q⟩ ⟨some r, q⟩
  | enqueue {r : RunRow} {q : QueueRow} (own : op.submits = some id) (after : r.status = .queued)
      (idle : q.Idle) (first : q.generation = 0) : Turn op id ⟨none, none⟩ ⟨some r, some q⟩
  | claim {r r' : RunRow} {q q' : QueueRow} (same : r.SameRun r') (before : r.status = .queued)
      (after : r'.status = .running) (queue : q'.runID = q.runID)
      (next : q'.generation = q.generation + 1) :
      Turn op id ⟨some r, some q⟩ ⟨some r', some q'⟩
  /-- a synchronous run gets a queue row and waits for an approval -/
  | suspend {r r' : RunRow} {q : QueueRow} (same : r.SameRun r') (before : r.status = .running)
      (after : r'.status = .waitingApproval) (idle : q.Idle) (first : q.generation = 0) :
      Turn op id ⟨some r, none⟩ ⟨some r', some q⟩
  /-- its worker gives the run up or has lost it, or its approval is decided -/
  | release {r r' : RunRow} {q q' : QueueRow} (same : r.SameRun r') (own : op.submits = none)
      (before : r.status.active)
      (after : r'.status = .queued ∨ r'.status = .waitingApproval)
      (idle : q'.Idle) (generation : q'.generation = q.generation) :
      Turn op id ⟨some r, some q⟩ ⟨some r', some q'⟩
  | stop {r r' : RunRow} {q : Option QueueRow} (same : r.SameRun r')
      (before : r.status.inFlight) (after : r'.status.terminal) :
      Turn op id ⟨some r, q⟩ ⟨some r', none⟩

variable {r' : RunRow} {v v' w : RunView}

theorem Turn.sameRun {q q' : Option QueueRow} (turn : Turn op id ⟨some r, q⟩ ⟨some r', q'⟩) :
    r.SameRun r' := by
  cases turn with
  | keep => exact .refl r
  | touch same | renew _ same | claim same | suspend same | release same | stop same => exact same

/-- What happens to a run: its rows make a turn, and the one in `run_control` is inserted
or makes a move. -/
structure Step (op : RunOp) (id : GoString) (v v' : RunView) : Prop where
  turn : Turn op id v v'
  move : ∀ r' ∈ v'.run, (∃ r ∈ v.run, RunMove op r r') ∨ r'.Fresh

theorem Step.keep (v : RunView) : Step op id v v :=
  ⟨.keep v, fun r' mem => .inl ⟨r', mem, .keep rfl rfl⟩⟩

theorem Turn.move {q q' : Option QueueRow} (turn : Turn op id ⟨some r, q⟩ ⟨some r', q'⟩)
    (move : RunMove op r r') : Step op id ⟨some r, q⟩ ⟨some r', q'⟩ :=
  ⟨turn, fun _ mem => .inl ⟨r, rfl, Option.mem_some_iff.mp mem ▸ move⟩⟩

theorem Turn.fresh {q q' : Option QueueRow} (turn : Turn op id ⟨none, q⟩ ⟨some r', q'⟩)
    (fresh : r'.Fresh) : Step op id ⟨none, q⟩ ⟨some r', q'⟩ :=
  ⟨turn, fun _ mem => .inr (Option.mem_some_iff.mp mem ▸ fresh)⟩

/-! ## The other tables -/

/-- The two databases differ at most in the rows of runs and of the queue. -/
structure OnlyRuns (db db' : Database) : Prop where
  submissions : db'.submissions = db.submissions
  approvals : db'.approvals = db.approvals
  links : db'.links = db.links

theorem OnlyRuns.refl (db : Database) : OnlyRuns db db := ⟨rfl, rfl, rfl⟩

theorem OnlyRuns.trans {db₁ db₂ db₃ : Database} (h : OnlyRuns db₁ db₂) (h' : OnlyRuns db₂ db₃) :
    OnlyRuns db₁ db₃ :=
  ⟨h'.submissions.trans h.submissions, h'.approvals.trans h.approvals, h'.links.trans h.links⟩

/-- The tables beside those of the runs that a transaction may write. -/
inductive SideTable where
  | submissions | approvals | links | none
  deriving DecidableEq

/-- The side table of a transaction. -/
def RunOp.writes : RunOp → SideTable
  | .enqueueOnce .. | .pruneSubmissions .. => .submissions
  | .cancel .. | .request .. | .decide .. | .expire .. | .deny .. | .pruneApprovals .. => .approvals
  | .delegate .. => .links
  | _ => .none

/-- A transaction leaves the side tables alone that it does not write. -/
structure Frame (op : RunOp) (db db' : Database) : Prop where
  submissions : op.writes ≠ .submissions → db'.submissions = db.submissions
  approvals : op.writes ≠ .approvals → db'.approvals = db.approvals
  links : op.writes ≠ .links → db'.links = db.links

theorem OnlyRuns.frame (h : OnlyRuns db db') : Frame op db db' :=
  ⟨fun _ => h.submissions, fun _ => h.approvals, fun _ => h.links⟩

theorem Frame.of_approvals (own : op.writes = .approvals) (submissions : db'.submissions =
    db.submissions)
    (links : db'.links = db.links) : Frame op db db' :=
  ⟨fun _ => submissions, fun other => absurd own other, fun _ => links⟩

/-- What a transaction does: every run makes a step, and the tables that are not written
stay as they are. -/
structure Effect (op : RunOp) (db db' : Database) : Prop where
  step : ∀ id, Step op id (db.view id) (db'.view id)
  frame : Frame op db db'

/-- A transaction that leaves the runs alone. -/
theorem Frame.effect (frame : Frame op db db') (view : ∀ id, db'.view id = db.view id) :
    Effect op db db' := ⟨fun id => view id ▸ .keep _, frame⟩

theorem Effect.refl (db : Database) : Effect op db db :=
  (OnlyRuns.refl db).frame.effect fun _ => rfl

/-- A transaction that changes the view of one run makes that run do a step. -/
theorem Frame.of_setsView (frame : Frame op db db') (sets : db.SetsView db' runID v)
    (view : db.view runID = w) (step : Step op runID w v) : Effect op db db' := by
  refine ⟨fun id => ?_, frame⟩
  rw [sets id]
  split
  next same => rw [same, view]; exact step
  next => exact .keep _

/-- Only what is stored about one run changes. -/
structure Database.Sets (db db' : Database) (runID : GoString) (v : RunView) : Prop where
  view : db.SetsView db' runID v
  only : OnlyRuns db db'

theorem Database.Sets.effect (sets : db.Sets db' runID v) (view : db.view runID = w)
    (step : Step op runID w v) : Effect op db db' :=
  sets.only.frame.of_setsView sets.view view step

theorem Database.view_eq (run : db.run id = some r) (queue : db.queue id = some q) :
    db.view id = ⟨some r, some q⟩ := by
  rw [view, run, queue]

/-! ## Statements -/

variable {status : RunState} {generation now : ℤ} {errorCode workerID : GoString}

theorem QueueRow.heldBy_iff :
    q.heldBy runID workerID generation now ↔ q.runID = runID ∧ q.workerID = workerID ∧
      q.generation = generation ∧ now < q.leaseExpiresAt := decide_eq_true_iff

/-! ## What the transactions set -/

namespace Database

theorem setsView_of {r : Option RunRow} {q : Option QueueRow}
    (run : ∀ id, db'.run id = if id = runID then r else db.run id)
    (queue : ∀ id, db'.queue id = if id = runID then q else db.queue id) :
    db.SetsView db' runID ⟨r, q⟩ := by
  intro id
  rw [view, run, queue]
  split <;> rfl

/-- A table that is not written keeps its rows. -/
theorem queue_kept (same : db'.runQueue = db.runQueue) (id : GoString) :
    db'.queue id = if id = runID then db.queue runID else db.queue id := by
  split
  next eq => rw [queue, same, eq]; rfl
  next => rw [queue, same]; rfl

/-- Deleting the queue row of one run. -/
theorem queue_of_delete {p : QueueRow → Bool} (own : ∀ q, p q → q.runID = runID)
    (all : ∀ q, db.queue runID = some q → p q) (h : db'.runQueue = db.runQueue.delete p)
    (id : GoString) : db'.queue id = if id = runID then none else db.queue id := by
  rw [queue, h, Table.lookup_delete]
  split
  next eq =>
    rw [eq]
    exact Option.filter_eq_none_iff.mpr fun q found => by simp [all q found]
  next differs =>
    cases found : db.queue id with
    | none => rw [show db.runQueue.lookup QueueRow.runID id = none from found]; rfl
    | some q =>
      have other : p q ≠ true := fun meets => differs ((queue_eq_some.mp found).2 ▸ own q meets)
      rw [show db.runQueue.lookup QueueRow.runID id = some q from found]
      simp [other]

end Database

export Database (queue_eq_some queue_of_delete run_eq_some run_of_mem setsView_of view_eq)

variable {control : Update RunRow} {queue : Update QueueRow}

/-- Both rows of a run are written, and each statement selects its row. -/
theorem setsView_of_executes (db' : Database) {n m : ℕ} (runID : GoString)
    (hr : db.runControl.execute control = some (n, db'.runControl)) (someRun : n ≠ 0)
    (hq : db.runQueue.execute queue = some (m, db'.runQueue)) (someRow : m ≠ 0)
    (oneRun : control.At RunRow.runID runID := by exact {})
    (oneRow : queue.At QueueRow.runID runID := by exact {}) :
    ∃ r q, db.view runID = ⟨some r, some q⟩ ∧ control.selects r ∧ queue.selects q ∧
      db.SetsView db' runID ⟨some (control.set r), some (queue.set q)⟩ := by
  obtain ⟨r, run, selected, runs⟩ := selected_of_execute _ _ hr someRun oneRun
  obtain ⟨q, row, selected', rows⟩ := selected_of_execute _ _ hq someRow oneRow
  exact ⟨r, q, view_eq run row, selected, selected', setsView_of runs rows⟩

/-! ## Submissions -/

variable {clock : ℤ} {run : QueuedRun}

theorem insertQueued_spec (h : insertQueued config run clock db = .ok db') :
    db.view run.runID = ⟨none, none⟩ ∧ ∃ created available, db.Sets db' run.runID
      ⟨some (newRunRow run.toRunRecord .queued created), some (newQueueRow run available)⟩ := by
  simp only [insertQueued, bind_eq_ok, pure_eq_ok, insertOr_eq_ok] at h
  obtain ⟨_, _, control, inserted, queue, inserted', rfl⟩ := h
  have absent : db.run run.runID = none := lookup_eq_none_of_insert inserted
  have absent' : db.queue run.runID = none := lookup_eq_none_of_insert inserted'
  have sets : db.SetsView { db with runControl := control, runQueue := queue } run.runID
      ⟨some (newRunRow run.toRunRecord .queued _), some (newQueueRow run _)⟩ :=
    setsView_of (lookup_of_insert inserted)
      (lookup_of_insert inserted')
  exact ⟨by rw [Database.view, absent, absent'], _, _, sets, rfl, rfl, rfl⟩

theorem step_enqueue (own : op.submits = some run.runID) (created available : ℤ) :
    Step op run.runID ⟨none, none⟩
      ⟨some (newRunRow run.toRunRecord .queued created), some (newQueueRow run available)⟩ :=
  Turn.fresh (.enqueue own rfl ⟨rfl, rfl⟩ rfl) ⟨.inl rfl, rfl⟩

theorem effect_createRun {record : RunRecord} (own : op.submits = some record.runID)
    (h : createRun config record clock db = .ok db') : Effect op db db' := by
  unfold createRun at h
  rw [bind_eq_ok] at h
  obtain ⟨_, _, h⟩ := h
  split at h
  · split at h <;> cases h
  · simp only [bind_eq_ok, pure_eq_ok, insertOr_eq_ok] at h
    obtain ⟨control, inserted, rfl⟩ := h
    have absent : db.run record.runID = none := lookup_eq_none_of_insert inserted
    have sets : db.SetsView { db with runControl := control } record.runID
        ⟨some (newRunRow record .running _), db.queue record.runID⟩ :=
      setsView_of (lookup_of_insert inserted)
        (Database.queue_kept rfl)
    refine Database.Sets.effect ⟨sets, rfl, rfl, rfl⟩ (by rw [Database.view, absent]) ?_
    exact Turn.fresh (.create own rfl) ⟨.inr rfl, rfl⟩

variable {key digest : GoString}

/-- `EnqueueRunOnce` answers from a stored submission and changes nothing, or it
finds none and inserts its submission and its run. -/
theorem enqueueRunOnce_spec {answer : (RunRecord × Bool) × Database}
    (h : enqueueRunOnce config run key digest clock db = .ok answer) :
    (∃ stored record, db.submissions.find (·.hasKey run.tenantID run.subjectID run.sessionID
        (hashIdempotencyKey key)) = some stored ∧
      replaySubmission db stored digest = .ok record ∧ answer = ((record, false), db)) ∨
    ∃ submissions record db',
      db.submissions.insert ⟨run.tenantID, run.subjectID, run.sessionID, hashIdempotencyKey key,
        digest, run.runID, unixMilli (run.createdAt.getD clock)⟩ = some submissions ∧
      insertQueued config run clock { db with submissions } = .ok db' ∧
      record.runID = run.runID ∧ answer = ((record, true), db') := by
  simp only [enqueueRunOnce, bind_eq_ok] at h
  obtain ⟨_, _, _, _, h⟩ := h
  -- the key is found at once, or after the insert has met it
  split at h
  case' isFalse => split at h
  case h_2 submissions inserted =>
    simp only [bind_eq_ok, pure_eq_ok] at h
    obtain ⟨db', queued, rfl⟩ := h
    refine .inr ⟨submissions, _, db', inserted, queued, ?_, rfl⟩
    rfl
  all_goals
    split at h
    · cases h
    next stored found =>
      simp only [bind_eq_ok, pure_eq_ok] at h
      obtain ⟨record, replayed, rfl⟩ := h
      exact .inl ⟨stored, record, found, replayed, rfl⟩

theorem effect_enqueueRunOnce {answer : (RunRecord × Bool) × Database}
    (own : op.submits = some run.runID) (writes : op.writes = .submissions)
    (h : enqueueRunOnce config run key digest clock db = .ok answer) : Effect op db answer.2 := by
  rcases enqueueRunOnce_spec h with ⟨_, _, _, _, rfl⟩ | ⟨_, _, _, _, queued, _, rfl⟩
  · exact .refl db
  · obtain ⟨view, _, _, sets⟩ := insertQueued_spec queued
    have frame : Frame op db _ :=
      ⟨fun other => absurd writes other, fun _ => sets.only.approvals, fun _ => sets.only.links⟩
    exact frame.of_setsView sets.view view (step_enqueue own _ _)

/-! ## Claims -/

/-- A row that `sqlClaimCandidate` may return. -/
structure Claimable (db : Database) (now : ℤ) (r : RunRow) (q : QueueRow) : Prop where
  run : db.run r.runID = some r
  queue : db.queue r.runID = some q
  queued : r.status = .queued
  unflagged : r.cancelRequested = false
  due : q.availableAt ≤ now
  /-- no run of the session runs or waits for an approval -/
  alone : ∀ a ∈ db.runControl.rows, a.sessionID = r.sessionID → a.status.active = false

variable {locked : List GoString}

theorem claimable_of_mem (mem : (r, q) ∈ claimCandidates db locked now) :
    Claimable db now r q := by
  obtain ⟨joined, meets⟩ := mem_filter.mp mem
  obtain ⟨inControl, inQueue⟩ := pair_mem_product.mp joined
  simp only [not_eq_true', decide_eq_true_eq] at meets
  obtain ⟨same, queued, unflagged, due, _, alone⟩ := meets
  refine ⟨run_of_mem inControl, queue_eq_some.mpr ⟨inQueue, same⟩, queued,
    unflagged, due, fun a other session => ?_⟩
  by_contra active
  have found : db.runControl.exists?
      (fun a => a.sessionID = r.sessionID ∧ a.status.active) :=
    exists?_iff.mpr ⟨a, other, by simp [session, active]⟩
  rw [found] at alone
  cases alone

variable {tie : GoString → ℕ}

theorem claimCandidate_mem {row : RunRow × QueueRow}
    (h : claimCandidate db locked tie now = some row) :
    row ∈ claimCandidates db locked now := by
  -- the best row so far is one of the candidates
  refine List.foldlRecOn (claimCandidates db locked now) _ (motive := fun best => ∀ row,
    best = some row →
    row ∈ claimCandidates db locked now) (by simp) (fun best seen first mem row same => ?_) row h
  cases best with
  | none => exact some.inj same ▸ mem
  | some old =>
    simp only [Option.elim_some, some.injEq] at same
    split at same
    · exact same ▸ mem
    · exact seen row (congrArg some same)

/-- The rows of a run after a worker claimed it. -/
def claimedView (workerID : GoString) (leaseTTL now : ℤ) (r : RunRow) (q : QueueRow) : RunView :=
  ⟨some ((sqlClaimRunControl (unixMilli now) r.runID).set r),
    some ((sqlClaimRun workerID (unixMilli (now + leaseTTL)) r.runID).set q)⟩

/-- An attempt to claim changes nothing, or it claims a row it may claim. -/
theorem claimRun_spec {leaseTTL now : ℤ} {answer : ClaimOutcome × Database}
    (h : claimRun workerID leaseTTL locked tie now db = .ok answer) :
    (answer.2 = db ∧ ∀ run, answer.1 ≠ .claimed run) ∨
    ∃ r q run, Claimable db (unixMilli now) r q ∧ answer.1 = .claimed run ∧
      run.runID = r.runID ∧ run.sessionID = r.sessionID ∧ run.workerID = workerID ∧
      run.generation = q.generation + 1 ∧
      db.Sets answer.2 r.runID (claimedView workerID leaseTTL now r q) := by
  simp only [claimRun, bind_eq_ok] at h
  obtain ⟨_, _, _, _, h⟩ := h
  split at h
  · cases pure_eq_ok.mp h
    exact .inl ⟨rfl, fun _ => ClaimOutcome.noConfusion⟩
  next r q candidate =>
    have claimable := claimable_of_mem (claimCandidate_mem candidate)
    split at h
    · cases pure_eq_ok.mp h
      exact .inl ⟨rfl, fun _ => ClaimOutcome.noConfusion⟩
    · cases pure_eq_ok.mp h
      exact .inl ⟨rfl, fun _ => ClaimOutcome.noConfusion⟩
    next executed =>
      simp only [bind_eq_ok, pure_eq_ok, exec_eq_ok] at h
      obtain ⟨⟨m, queue⟩, executed', rfl⟩ := h
      obtain ⟨r', found, selected, runs⟩ := selected_of_execute RunRow.runID r.runID executed
        (Nat.succ_ne_zero _)
      obtain rfl : r = r' := some.inj (claimable.run.symm.trans found)
      have row : q.runID = r.runID := (queue_eq_some.mp claimable.queue).2
      have rows := lookup_of_execute_selects executed' claimable.queue (by simp [sqlClaimRun, row])
        { own := fun _ => of_decide_eq_true }
      exact .inr ⟨r, q, _, claimable, rfl, rfl, rfl, rfl, rfl, setsView_of runs rows, rfl, rfl, rfl⟩

theorem effect_claimRun {leaseTTL now : ℤ} {answer : ClaimOutcome × Database}
    (h : claimRun workerID leaseTTL locked tie now db = .ok answer) : Effect op db answer.2 := by
  rcases claimRun_spec h with ⟨same, _⟩ | ⟨r, q, _, claimable, _, _, _, _, _, sets⟩
  · rw [same]
    exact .refl db
  · refine sets.effect (view_eq claimable.run claimable.queue) ?_
    exact Turn.move (.claim ⟨rfl, rfl, rfl, rfl, rfl⟩ claimable.queued rfl rfl rfl)
      (.start claimable.queued claimable.unflagged rfl claimable.unflagged)

/-! ## Claims that are held -/

/-- `workerID` holds the run under `generation`, and its lease has not expired. -/
structure Held (db : Database) (runID workerID : GoString) (generation now : ℤ) (r : RunRow)
    (q : QueueRow) : Prop where
  view : db.view runID = ⟨some r, some q⟩
  running : r.status = .running
  held : q.heldBy runID workerID generation now

variable {answer : Bool × Database}

theorem renewRunClaim_spec {generation leaseTTL now : ℤ}
    (h : renewRunClaim runID workerID generation leaseTTL now db = .ok answer) :
    answer = (false, db) ∨ ∃ r q, Held db runID workerID generation (unixMilli now) r q ∧
      db.Sets answer.2 runID ⟨some { r with updatedAt := unixMilli now },
        some { q with leaseExpiresAt := unixMilli (now + leaseTTL) }⟩ := by
  simp only [renewRunClaim, bind_eq_ok, exec_eq_ok] at h
  obtain ⟨_, _, _, _, ⟨m, queue⟩, executed, h⟩ := h
  split at h
  · exact .inl (pure_eq_ok.mp h).symm
  next someRow =>
    simp only [bind_eq_ok, pure_eq_ok, exec_eq_ok] at h
    obtain ⟨⟨n, control⟩, executed', rfl⟩ := h
    obtain ⟨q, found, selected, rows⟩ := selected_of_execute QueueRow.runID runID executed someRow
      { own := fun _ selected => (heldBy_iff.mp (of_decide_eq_true selected).1).1 }
    simp only [sqlRenewRunClaim, exists?_iff, decide_eq_true_eq] at selected
    obtain ⟨held, r, mem, same, running⟩ := selected
    have row : q.runID = runID := (heldBy_iff.mp held).1
    have run : db.run runID = some r := run_eq_some.mpr ⟨mem, same.trans row⟩
    have runs := lookup_of_execute_selects executed' run
      (by simp [sqlHeartbeatRun, same, row, running])
    exact .inr ⟨r, q, ⟨view_eq run found, running, held⟩, setsView_of runs rows, rfl, rfl, rfl⟩

/-- A worker gives up the claim it holds, or nothing changes. -/
theorem releaseClaim_spec (held : ∀ q, queue.selects q = q.heldBy runID workerID generation now)
    (h : releaseClaim (sqlReleaseClaimedRunControl db status errorCode runID workerID generation
      now) queue db = .ok answer) (one : queue.At QueueRow.runID runID := by exact {}) :
    answer = (false, db) ∨ ∃ r q, Held db runID workerID generation now r q ∧ db.Sets answer.2 runID
        ⟨some { r with status, errorCode, updatedAt := now },
          some (queue.set q)⟩ := by
  simp only [releaseClaim, bind_eq_ok, exec_eq_ok] at h
  obtain ⟨⟨n, control⟩, executed, h⟩ := h
  split at h
  · exact .inl (pure_eq_ok.mp h).symm
  next someRun =>
    rw [bind_eq_ok] at h
    obtain ⟨⟨m, queue⟩, executed', h⟩ := h
    rw [exec_eq_ok] at executed'
    split at h
    · exact .inl (pure_eq_ok.mp h).symm
    next someRow =>
      obtain rfl := pure_eq_ok.mp h
      obtain ⟨r, q, view, selected, selected', sets⟩ :=
        setsView_of_executes { db with runControl := control, runQueue := queue } runID executed
          someRun executed' someRow {} one
      have running := (of_decide_eq_true selected).2.1
      exact .inr ⟨r, q, ⟨view, running, (held q).symm.trans selected'⟩, sets, rfl, rfl, rfl⟩

theorem active_of_running (running : r.status = .running) : r.status.active := by
  simp [running, RunState.active]

theorem effect_renewRunClaim {generation leaseTTL now : ℤ}
    (h : renewRunClaim runID workerID generation leaseTTL now db = .ok answer) :
    Effect op db answer.2 := by
  rcases renewRunClaim_spec h with rfl | ⟨r, q, held, sets⟩
  · exact .refl db
  · refine sets.effect held.view ?_
    exact Turn.move (.renew _ ⟨rfl, rfl, rfl, rfl, rfl⟩ held.running held.running) (.keep rfl rfl)

theorem effect_releaseClaim (held : ∀ q, queue.selects q = q.heldBy runID workerID generation now)
    (idle : ∀ q, (queue.set q).Idle ∧ (queue.set q).generation = q.generation)
    (own : op.submits = none ∧ op.releases = some runID)
    (waits : status = .queued ∨ status = .waitingApproval)
    (h : releaseClaim (sqlReleaseClaimedRunControl db status errorCode runID workerID generation
      now) queue db = .ok answer) (one : queue.At QueueRow.runID runID := by exact {}) :
    Effect op db answer.2 := by
  rcases releaseClaim_spec held h one with rfl | ⟨r, q, held, sets⟩
  · exact .refl db
  · have same : r.runID = runID := (run_eq_some.mp (congrArg RunView.run held.view)).2
    refine sets.effect held.view (Turn.move ?_ (.release (same ▸ own.2) held.running waits rfl))
    exact .release ⟨rfl, rfl, rfl, rfl, rfl⟩ own.1 (active_of_running held.running) waits (idle q).1
      (idle q).2

variable {workerID errorCode : GoString}

theorem effect_retryRunClaim {availableAt : Option ℤ}
    (own : op.submits = none ∧ op.releases = some runID)
    (h : retryRunClaim runID workerID generation availableAt errorCode now db = .ok answer) :
    Effect op db answer.2 := by
  simp only [retryRunClaim, bind_eq_ok] at h
  obtain ⟨_, _, h⟩ := h
  split at h
  · cases h
  · exact effect_releaseClaim (fun _ => rfl) (fun _ => ⟨⟨rfl, rfl⟩, rfl⟩) own (.inl rfl) h

theorem effect_pauseRunClaim (own : op.submits = none ∧ op.releases = some runID)
    (h : pauseRunClaim runID workerID generation now db = .ok answer) : Effect op db answer.2 := by
  simp only [pauseRunClaim, bind_eq_ok] at h
  obtain ⟨_, _, h⟩ := h
  exact effect_releaseClaim (fun _ => rfl) (fun _ => ⟨⟨rfl, rfl⟩, rfl⟩) own (.inr rfl) h

/-- A run ends together with its queue row, if it has one. -/
theorem setsView_of_end (db' : Database) {n : ℕ}
    (h : db.runControl.execute control = some (n, db'.runControl)) (someRun : 0 < n)
    (deleted : db'.runQueue = db.runQueue.delete (·.hasID runID))
    (one : control.At RunRow.runID runID := by exact {}) :
    ∃ r, db.view runID = ⟨some r, db.queue runID⟩ ∧ control.selects r ∧
      db.SetsView db' runID ⟨some (control.set r), none⟩ := by
  obtain ⟨r, run, selected, runs⟩ := selected_of_execute _ _ h (Nat.ne_of_gt someRun) one
  refine ⟨r, congrArg (RunView.mk · _) run, selected,
    setsView_of runs (queue_of_delete ?_ ?_ deleted)⟩
  · exact fun q meets => by simpa [hasID] using meets
  · exact fun q found => by simpa [hasID] using (queue_eq_some.mp found).2

theorem finishRunClaim_spec {status : RunStatus}
    (h : finishRunClaim runID workerID generation status errorCode now db = .ok answer) :
    answer = (false, db) ∨ ∃ r q, Held db runID workerID generation (unixMilli now) r q ∧ ∃ r',
      r.SameRun r' ∧ r'.status.terminal ∧ db.Sets answer.2 runID ⟨some r', none⟩ := by
  simp only [finishRunClaim, bind_eq_ok, exec_eq_ok] at h
  obtain ⟨_, _, state, valid, ⟨n, control⟩, executed, h⟩ := h
  split at h
  · exact .inl (pure_eq_ok.mp h).symm
  next someRun =>
    obtain rfl := pure_eq_ok.mp h
    obtain ⟨r, run, selected, runs⟩ := selected_of_execute RunRow.runID runID executed someRun
    obtain ⟨same, running, holds⟩ := of_decide_eq_true selected
    rw [Database.queue_exists (fun q held => (heldBy_iff.mp held).1), same] at holds
    obtain ⟨q, found, held⟩ := holds
    obtain ⟨rowID, worker, gen, _⟩ := heldBy_iff.mp held
    refine .inr ⟨r, q, ⟨view_eq run found, running, held⟩, _, ?_, ?_, setsView_of runs
      (queue_of_delete (fun q meets => ?_) (fun q' found' => ?_) rfl), rfl, rfl, rfl⟩
    · exact ⟨rfl, rfl, rfl, rfl, rfl⟩
    · exact terminal_of_validate valid
    · exact (of_decide_eq_true meets).1
    · -- the row that is deleted is the one that is held
      obtain rfl : q = q' := some.inj (found.symm.trans found')
      simp [rowID, worker, gen]

theorem effect_finishRunClaim {status : RunStatus}
    (h : finishRunClaim runID workerID generation status errorCode now db = .ok answer) :
    Effect op db answer.2 := by
  rcases finishRunClaim_spec h with rfl | ⟨r, q, held, r', same, ends, sets⟩
  · exact .refl db
  · have flying := inFlight_of_running held.running
    exact sets.effect held.view (Turn.move (.stop same flying ends) (.stop flying ends))

/-! ## Synchronous runs and cancellation -/

theorem effect_pauseRun {message traceParent traceState : GoString} {maxAttempts now : ℤ}
    (own : op.releases = some runID)
    (h : pauseRun runID message maxAttempts traceParent traceState now db = .ok answer) :
    Effect op db answer.2 := by
  simp only [pauseRun, bind_eq_ok, exec_eq_ok] at h
  obtain ⟨_, _, _, _, _, _, _, _, ⟨n, control⟩, executed, h⟩ := h
  split at h
  · cases pure_eq_ok.mp h
    exact .refl db
  next someRun =>
    simp only [bind_eq_ok, pure_eq_ok, insertOr_eq_ok] at h
    obtain ⟨queue, inserted, rfl⟩ := h
    obtain ⟨r, run, selected, runs⟩ := selected_of_execute RunRow.runID runID executed someRun
    have absent : db.queue runID = none := lookup_eq_none_of_insert inserted
    have sets : db.SetsView { db with runControl := control, runQueue := queue } runID
        ⟨some ((sqlPauseDirectRun (unixMilli now) runID).set r),
          some ⟨runID, message, unixMilli now, .empty, 0, 0, defaultAttempts maxAttempts, 0,
            traceParent, traceState⟩⟩ :=
      setsView_of runs (lookup_of_insert inserted)
    obtain ⟨same, running⟩ := of_decide_eq_true selected
    have view : db.view runID = ⟨some r, none⟩ := by
      rw [Database.view, absent, show db.run runID = some r from run]
    refine Database.Sets.effect ⟨sets, rfl, rfl, rfl⟩ view (Turn.move ?_ ?_)
    · exact .suspend ⟨rfl, rfl, rfl, rfl, rfl⟩ running rfl ⟨rfl, rfl⟩ rfl
    · exact .release (same ▸ own) running (.inr rfl) rfl

/-- A statement on the rows of runs makes each run that it selects do a step. -/
theorem effect_of_execute (db' : Database) {n : ℕ} (frame : Frame op db db')
    (keeps : ∀ r, (control.set r).runID = r.runID)
    (steps : ∀ r, db.run r.runID = some r → control.selects r →
      Step op r.runID ⟨some r, db.queue r.runID⟩ ⟨some (control.set r), db.queue r.runID⟩)
    (h : db.runControl.execute control = some (n, db'.runControl))
    (kept : db'.runQueue = db.runQueue) : Effect op db db' := by
  refine ⟨fun id => ?_, frame⟩
  have run : db'.run id = (db.run id).map control.apply := Table.lookup_of_execute keeps h id
  have queue : db'.queue id = db.queue id := by rw [Database.queue, kept]; rfl
  rw [Database.view, Database.view, run, queue]
  cases found : db.run id with
  | none => exact .keep _
  | some r =>
    obtain rfl : r.runID = id := (run_eq_some.mp found).2
    by_cases selected : control.selects r
    · rw [map_some, Update.apply_of_selects selected]
      exact steps r found selected
    · rw [map_some, Update.apply, if_neg selected]
      exact .keep _

theorem effect_heartbeatRun (h : heartbeatRun runID now db = .ok db') :
    Effect op db db' := by
  simp only [heartbeatRun, bind_eq_ok, pure_eq_ok, exec_eq_ok] at h
  obtain ⟨_, _, ⟨_, control⟩, executed, _, _, rfl⟩ := h
  exact effect_of_execute { db with runControl := control } (OnlyRuns.frame ⟨rfl, rfl, rfl⟩)
    (fun _ => rfl) (fun _ _ _ => Turn.move (.touch ⟨rfl, rfl, rfl, rfl, rfl⟩ rfl) (.keep rfl rfl))
    executed rfl

theorem effect_finishRun {status : RunStatus}
    (h : finishRun runID status errorCode now db = .ok db') : Effect op db db' := by
  simp only [finishRun, bind_eq_ok, pure_eq_ok, exec_eq_ok, require_eq_ok] at h
  obtain ⟨_, _, state, valid, ⟨n, control⟩, executed, _, someRun, rfl⟩ := h
  obtain ⟨r, view, selected, sets⟩ := setsView_of_end
    { db with runControl := control, runQueue := db.runQueue.delete (·.hasID runID) }
    executed someRun rfl
  have flying := inFlight_of_running (of_decide_eq_true selected).2
  have ends := terminal_of_validate valid
  exact Database.Sets.effect ⟨sets, rfl, rfl, rfl⟩ view
    (Turn.move (.stop ⟨rfl, rfl, rfl, rfl, rfl⟩ flying ends) (.stop flying ends))

theorem effect_failStaleRuns {olderThan : Option ℤ} {answer : ℕ × Database}
    (h : failStaleRuns olderThan now db = .ok answer) : Effect op db answer.2 := by
  unfold failStaleRuns at h
  split at h
  · cases h
  next olderThan =>
    simp only [bind_eq_ok, pure_eq_ok, exec_eq_ok] at h
    obtain ⟨⟨n, control⟩, executed, rfl⟩ := h
    refine effect_of_execute { db with runControl := control } (OnlyRuns.frame ⟨rfl, rfl, rfl⟩)
      (fun _ => rfl) (fun r found selected => ?_) executed rfl
    obtain ⟨running, _, unqueued⟩ := of_decide_eq_true selected
    -- only runs without a queue row are selected
    have absent : db.queue r.runID = none := by
      refine Table.lookup_eq_none.mpr fun q mem same => ?_
      have exists_row : db.runQueue.exists? (·.hasID r.runID) :=
        exists?_iff.mpr ⟨q, mem, by simp [hasID, same]⟩
      rw [exists_row] at unqueued
      cases unqueued
    have flying := inFlight_of_running running
    rw [absent]
    exact Turn.move (.stop ⟨rfl, rfl, rfl, rfl, rfl⟩ flying rfl) (.stop flying rfl)

theorem effect_requestRunCancel (own : op.writes = .approvals)
    (h : requestRunCancel runID clock db = .ok answer) : Effect op db answer.2 := by
  simp only [requestRunCancel, bind_eq_ok, exec_eq_ok] at h
  obtain ⟨_, _, ⟨n, control⟩, flagged, h⟩ := h
  split at h
  · cases pure_eq_ok.mp h
    refine effect_of_execute { db with runControl := control } (.of_approvals own rfl rfl)
      (fun _ => rfl) (fun r _ selected => ?_) flagged rfl
    have running := (of_decide_eq_true selected).2
    exact Turn.move (.touch ⟨rfl, rfl, rfl, rfl, rfl⟩ rfl) (.flag running running rfl)
  · rw [bind_eq_ok] at h
    obtain ⟨⟨m, control'⟩, cancelled, h⟩ := h
    rw [exec_eq_ok] at cancelled
    split at h
    next someRun =>
      simp only [bind_eq_ok, pure_eq_ok] at h
      obtain ⟨⟨_, approvals⟩, _, rfl⟩ := h
      obtain ⟨r, view, selected, sets⟩ := setsView_of_end
        { db with
          runControl := control', approvals
          runQueue := db.runQueue.delete (·.hasID runID) }
        cancelled someRun rfl
      have flying : r.status.inFlight := by
        rcases (of_decide_eq_true selected).2 with waits | waits <;>
          simp [waits, RunState.inFlight, RunState.active]
      refine Frame.of_setsView (.of_approvals own rfl rfl) sets view ?_
      exact Turn.move (.stop ⟨rfl, rfl, rfl, rfl, rfl⟩ flying rfl) (.stop flying rfl)
    next noRun =>
      obtain rfl := pure_eq_ok.mp h
      -- nothing was selected, so the statement left the table as it was
      obtain rfl : m = 0 := Nat.eq_zero_of_not_pos noRun
      cases Table.eq_of_execute_zero cancelled
      exact Frame.effect (.of_approvals own rfl rfl) fun _ => rfl

/-! ## Decisions -/

/-- What a decision that is made has done: the request was pending, and the run
it resumes was waiting and is queued. -/
structure Decided (db db' : Database) (id : GoString) (decision : ApprovalDecision)
    (actor : GoString) (now : ℤ) (record : ApprovalRow) (runID : GoString) (r : RunRow)
    (q : QueueRow) : Prop where
  found : db.approvals.find (·.id == id) = some record
  readable : scanApproval (some record) = .ok record
  pending : record.status = .pending
  target : delegatedApprovalResumeTarget db record = .ok (r.sessionID, runID)
  view : db.view runID = ⟨some r, some q⟩
  tenant : r.tenantID = record.tenantID
  subject : r.subjectID = record.subjectID
  waiting : r.status = .waitingApproval
  unflagged : r.cancelRequested = false
  approvals : ∃ n, db.approvals.execute (sqlDecideApproval decision now actor id) =
    some (n, db'.approvals)
  sets : db.SetsView db' runID
    ⟨some { r with status := .queued, errorCode := .empty, updatedAt := now },
      some { q with availableAt := now, workerID := .empty, leaseExpiresAt := 0 }⟩
  links : db'.links = db.links

theorem scanApproval_eq_ok {found : Option ApprovalRow} {record : ApprovalRow}
    (h : scanApproval found = .ok record) : found = some record := by
  cases found with
  | none => cases h
  | some a =>
    simp only [scanApproval, bind_eq_ok, pure_eq_ok] at h
    obtain ⟨_, _, _, _, rfl⟩ := h
    rfl

variable {decision : ApprovalDecision} {actor : GoString}

theorem decideAndResume_spec {answer : (Option ApprovalRow × Bool) × Database}
    (h : decideAndResume id decision actor clock db = .ok answer) :
    (answer.2 = db ∧ answer.1.2 = false) ∨ (answer.1.2 ∧ ∃ record runID r q,
      Decided db answer.2 id decision actor (unixMilli clock) record runID r q) ∧
    answer.2.submissions = db.submissions := by
  simp only [decideAndResume, bind_eq_ok] at h
  obtain ⟨record, scanned, h⟩ := h
  split at h
  · cases pure_eq_ok.mp h
    exact .inl ⟨rfl, rfl⟩
  next pending =>
    rw [bind_eq_ok] at h
    obtain ⟨⟨n, approvals⟩, decided, h⟩ := h
    split at h
    · cases pure_eq_ok.mp h
      exact .inl ⟨rfl, rfl⟩
    · simp only [bind_eq_ok, pure_eq_ok, exec_eq_ok, require_eq_ok] at h
      obtain ⟨⟨sessionID, runID⟩, target, ⟨m, control⟩, resumed, _, someRun, ⟨k, queue⟩, woken, _,
        someRow, rfl⟩ := h
      obtain ⟨r, q, view, selected, _, sets⟩ := setsView_of_executes
        { db with runControl := control, runQueue := queue, approvals } runID resumed
        (Nat.ne_of_gt someRun) woken (Nat.ne_of_gt someRow)
      simp only [sqlResumeApprovedRun, decide_eq_true_eq, not_eq_true'] at selected
      obtain ⟨_, session, tenant, subject, waiting, unflagged⟩ := selected
      have found := scanApproval_eq_ok scanned
      refine .inr ⟨⟨rfl, record, runID, r, q,
        { found, readable := found ▸ scanned, pending := not_not.mp pending
          target := session ▸ target, view, tenant, subject
          waiting, unflagged
          approvals := ⟨n, exec_eq_ok.mp decided⟩, sets, links := rfl }⟩, rfl⟩

theorem effect_decideAndResume {answer : (Option ApprovalRow × Bool) × Database}
    (own : op.submits = none ∧ op.writes = .approvals)
    (h : decideAndResume id decision actor clock db = .ok answer) : Effect op db answer.2 := by
  rcases decideAndResume_spec h with ⟨same, _⟩ | ⟨⟨_, _, _, r, q, decided⟩, submissions⟩
  · rw [same]
    exact .refl db
  · refine (Frame.of_approvals own.2 submissions decided.links).of_setsView decided.sets
      decided.view (Turn.move ?_ ?_)
    · refine .release ⟨rfl, rfl, rfl, rfl, rfl⟩ own.1 ?_ (.inl rfl) ⟨rfl, rfl⟩ rfl
      rw [decided.waiting]
      rfl
    · exact .resume decided.waiting decided.unflagged rfl decided.unflagged

/-! ## Recovery -/

/-- One expired claim changes only the run it is about. -/
theorem recoverClaim_spec {claim : RunRow × QueueRow}
    (view : db.view claim.1.runID = ⟨some claim.1, some claim.2⟩)
    (running : claim.1.status = .running) (own : op.submits = none)
    (h : recoverClaim now db claim = .ok db') :
    ∃ v, db.Sets db' claim.1.runID v ∧ Step op claim.1.runID (db.view claim.1.runID) v := by
  obtain ⟨r, q⟩ := claim
  dsimp only at view running
  have run : db.run r.runID = some r := congrArg RunView.run view
  have row : db.queue r.runID = some q := congrArg RunView.queue view
  -- the two ways in which the run ends differ only in what is written
  have finish : ∀ {status : RunState} {errorCode : GoString} {n : ℕ}
      {control : Table RunRow RunRow.clash}, status.terminal →
      db.runControl.execute (sqlFinishRun status errorCode now r.runID) = some (n, control) →
      ∃ v, db.Sets { db with
          runControl := control, runQueue := db.runQueue.delete (·.hasID r.runID) } r.runID v ∧
        Step op r.runID (db.view r.runID) v := by
    intro status errorCode n control ends executed
    have selected : (sqlFinishRun status errorCode now r.runID).selects r := by
      simp [sqlFinishRun, running]
    have counted : 0 < n := by
      rw [(rows_of_execute executed).1]
      exact countP_pos_iff.mpr ⟨r, (run_eq_some.mp run).1, selected⟩
    obtain ⟨r', view', _, sets⟩ := setsView_of_end
      { db with runControl := control, runQueue := db.runQueue.delete (·.hasID r.runID) }
      executed counted rfl
    obtain rfl : r = r' := some.inj (congrArg RunView.run (view.symm.trans view'))
    have flying := inFlight_of_running running
    refine ⟨_, ⟨sets, rfl, rfl, rfl⟩, ?_⟩
    rw [view]
    exact Turn.move (.stop ⟨rfl, rfl, rfl, rfl, rfl⟩ flying ends) (.stop flying ends)
  simp only [recoverClaim] at h
  split at h
  · simp only [bind_eq_ok, pure_eq_ok, exec_eq_ok] at h
    obtain ⟨_, executed, rfl⟩ := h
    exact finish rfl executed
  next unflagged =>
    split at h <;> simp only [bind_eq_ok, pure_eq_ok, exec_eq_ok] at h
    · obtain ⟨⟨_, control⟩, executed, ⟨_, requeued⟩, executed', ⟨_, cleared⟩, executed'', rfl⟩ := h
      have same : q.runID = r.runID := (queue_eq_some.mp row).2
      have runs := lookup_of_execute_selects executed run
        (by simp [sqlRequeueRunControl, running])
      have first := lookup_of_execute_selects executed' row (by simp [sqlRequeueRun, same])
        { own := fun _ => of_decide_eq_true }
      have second := lookup_of_execute_selects executed'' ((first r.runID).trans (if_pos rfl))
        (by simp [sqlClearRunClaim, sqlRequeueRun, same]) { own := fun _ => of_decide_eq_true }
      have rows : ∀ id, cleared.lookup QueueRow.runID id = if id = r.runID then
          some ((sqlClearRunClaim r.runID).set ((sqlRequeueRun now r.runID).set q)) else
          db.queue id := by
        intro id
        rw [second, first]
        split <;> rfl
      refine ⟨_, ⟨setsView_of runs rows, rfl, rfl, rfl⟩, ?_⟩
      rw [not_eq_true] at unflagged
      rw [view]
      exact Turn.move (.release ⟨rfl, rfl, rfl, rfl, rfl⟩ own (active_of_running running) (.inl rfl)
        ⟨rfl, rfl⟩ rfl) (.requeue running unflagged rfl unflagged)
    · obtain ⟨_, executed, rfl⟩ := h
      exact finish rfl executed

/-- A sequence of expired claims of different runs makes each of them do a step
and leaves the other runs alone. -/
theorem step_recoverClaims {claims : List (RunRow × QueueRow)}
    (distinct : (claims.map (·.1.runID)).Nodup)
    (listed : ∀ c ∈ claims, db.view c.1.runID = ⟨some c.1, some c.2⟩ ∧ c.1.status = .running)
    (own : op.submits = none) (h : claims.foldlM (recoverClaim now) db = .ok db') :
    OnlyRuns db db' ∧ ∀ id, (id ∉ claims.map (·.1.runID) → db'.view id = db.view id) ∧
      Step op id (db.view id) (db'.view id) := by
  induction claims generalizing db with
  | nil =>
    obtain rfl := pure_eq_ok.mp h
    exact ⟨.refl db, fun id => ⟨fun _ => rfl, .keep _⟩⟩
  | cons c cs ih =>
    rw [foldlM_cons, bind_eq_ok] at h
    obtain ⟨middle, first, rest⟩ := h
    rw [map_cons, nodup_cons] at distinct
    obtain ⟨view, running⟩ := listed c (mem_cons_self ..)
    obtain ⟨v, ⟨sets, only⟩, step⟩ := recoverClaim_spec view running own first
    have untouched : ∀ c' ∈ cs, middle.view c'.1.runID = db.view c'.1.runID := by
      intro c' mem
      rw [sets, if_neg]
      rintro same
      exact distinct.1 (same ▸ mem_map_of_mem mem)
    obtain ⟨only', others⟩ := ih distinct.2 (fun c' mem => by
      rw [untouched c' mem]
      exact listed c' (mem_cons_of_mem _ mem)) rest
    refine ⟨only.trans only', fun id => ?_⟩
    obtain ⟨outside, later⟩ := others id
    rw [sets id] at outside later
    by_cases same : id = c.1.runID
    · -- the first claim is about this run, the later ones are not
      subst same
      rw [if_pos rfl] at outside
      rw [outside distinct.1]
      exact ⟨fun absent => absurd (mem_cons_self ..) absent, step⟩
    · rw [if_neg same] at outside later
      exact ⟨fun absent => outside fun mem => absent (mem_cons_of_mem _ mem), later⟩

theorem nodup_expiredRunClaims (db : Database) (locked : List GoString) (now : ℤ) :
    ((expiredRunClaims db locked now).map (·.1.runID)).Nodup := by
  have controls : db.runControl.rows.Nodup :=
    (db.runControl.pairwise_key RunRow.runID).imp fun differ same => differ (congrArg _ same)
  have queues : db.runQueue.rows.Nodup :=
    (db.runQueue.pairwise_key QueueRow.runID).imp fun differ same => differ (congrArg _ same)
  refine List.Nodup.map_on ?_ ((controls.product queues).filter _)
  rintro ⟨r, q⟩ mem ⟨r', q'⟩ mem' (same : r.runID = r'.runID)
  obtain ⟨joined, meets⟩ := mem_filter.mp mem
  obtain ⟨joined', meets'⟩ := mem_filter.mp mem'
  obtain ⟨inControl, inQueue⟩ := pair_mem_product.mp joined
  obtain ⟨inControl', inQueue'⟩ := pair_mem_product.mp joined'
  obtain rfl := eq_of_key inControl inControl' same
  obtain rfl := eq_of_key inQueue inQueue'
    ((of_decide_eq_true meets).1.trans (of_decide_eq_true meets').1.symm)
  rfl

theorem effect_recoverExpiredRunClaims {now : Option ℤ} {answer : (ℕ × ℕ) × Database}
    (own : op.submits = none) (h : recoverExpiredRunClaims locked now db = .ok answer) :
    Effect op db answer.2 := by
  unfold recoverExpiredRunClaims at h
  split at h
  · cases h
  next now =>
    simp only [bind_eq_ok, pure_eq_ok] at h
    obtain ⟨_, run, rfl⟩ := h
    have listed : ∀ c ∈ expiredRunClaims db locked (unixMilli now),
        db.view c.1.runID = ⟨some c.1, some c.2⟩ ∧ c.1.status = .running := by
      rintro ⟨r, q⟩ mem
      obtain ⟨joined, meets⟩ := mem_filter.mp mem
      obtain ⟨inControl, inQueue⟩ := pair_mem_product.mp joined
      obtain ⟨same, running, _⟩ := of_decide_eq_true meets
      exact ⟨view_eq (run_of_mem inControl) (queue_eq_some.mpr ⟨inQueue, same⟩), running⟩
    obtain ⟨only, steps⟩ := step_recoverClaims (nodup_expiredRunClaims _ _ _) listed own run
    exact ⟨fun id => (steps id).2, only.frame⟩

/-! ## All transactions -/

theorem requestApproval_spec (config : StoreConfig) (request : ApprovalRequest) (pending : ℕ)
    (now : ℤ) (db : Database) :
    (requestApproval config request pending now db).2 = db ∨
    ∃ i row approvals, newApprovalRow config request now = .ok (i, row) ∧
      db.approvals.insert row = some approvals ∧
      (requestApproval config request pending now db).2 = { db with approvals } := by
  unfold requestApproval
  split
  · exact .inl rfl
  next i row created =>
    generalize (if 0 < config.maxPending then config.maxPending else 1024) = cap
    dsimp only
    split
    · split <;> exact .inl rfl
    · split
      · exact .inl rfl
      next approvals inserted => exact .inr ⟨i, row, approvals, created, inserted, rfl⟩

theorem putIfAbsent_spec {link : LinkRow} {answer : (LinkRow × Bool) × Database}
    (h : putIfAbsent link db = .ok answer) :
    answer.2 = db ∨ ∃ links, db.links.insert link = some links ∧
      answer.2 = { db with links } := by
  simp only [putIfAbsent, bind_eq_ok] at h
  obtain ⟨_, _, h⟩ := h
  split at h
  next links inserted =>
    cases pure_eq_ok.mp h
    exact .inr ⟨links, inserted, rfl⟩
  next =>
    split at h
    · cases pure_eq_ok.mp h
      exact .inl rfl
    · cases h

/-- A transaction whose answer is dropped. -/
theorem Effect.of_map {α : Type} {ran : Except StoreError (α × Database)}
    (h : (·.2) <$> ran = .ok db') (effect : ∀ {answer}, ran = .ok answer → Effect op db answer.2) :
    Effect op db db' := by
  obtain ⟨answer, ok, rfl⟩ := map_eq_ok.mp h
  exact effect ok

theorem effect_of_apply (h : op.apply config db = .ok db') : Effect op db db' := by
  cases op with
  | create => exact effect_createRun rfl h
  | enqueue =>
    simp only [RunOp.apply, enqueueRun, bind_eq_ok] at h
    obtain ⟨_, _, h⟩ := h
    obtain ⟨view, _, _, sets⟩ := insertQueued_spec h
    exact sets.effect view (step_enqueue rfl _ _)
  | heartbeat => exact effect_heartbeatRun h
  | finish => exact effect_finishRun h
  | request call pending now =>
    cases h
    rcases requestApproval_spec config call pending now db with same | ⟨_, _, _, _, _, same⟩ <;>
    · rw [same]
      exact Frame.effect (.of_approvals rfl rfl rfl) fun _ => rfl
  | pruneApprovals => cases h; exact Frame.effect (.of_approvals rfl rfl rfl) fun _ => rfl
  | pruneSubmissions =>
    cases h
    exact Frame.effect ⟨fun other => absurd rfl other, fun _ => rfl, fun _ => rfl⟩ fun _ => rfl
  | enqueueOnce => exact .of_map h (effect_enqueueRunOnce rfl rfl)
  | claim => exact .of_map h effect_claimRun
  | renew => exact .of_map h effect_renewRunClaim
  | retry => exact .of_map h (effect_retryRunClaim ⟨rfl, rfl⟩)
  | pauseClaim => exact .of_map h (effect_pauseRunClaim ⟨rfl, rfl⟩)
  | pause => exact .of_map h (effect_pauseRun rfl)
  | finishClaim => exact .of_map h effect_finishRunClaim
  | recover => exact .of_map h (effect_recoverExpiredRunClaims rfl)
  | cancel => exact .of_map h (effect_requestRunCancel rfl)
  | failStale => exact .of_map h effect_failStaleRuns
  | decide =>
    refine .of_map h fun {answer} ran => ?_
    simp only [decideApproval, bind_eq_ok] at ran
    obtain ⟨_, _, _, _, _, _, ran⟩ := ran
    exact effect_decideAndResume ⟨rfl, rfl⟩ ran
  | expire => exact .of_map h (effect_decideAndResume ⟨rfl, rfl⟩)
  | deny =>
    obtain ⟨_, ran, rfl⟩ := map_eq_ok.mp h
    simp only [denyApproval, bind_eq_ok, pure_eq_ok] at ran
    obtain ⟨_, _, _, _, rfl⟩ := ran
    exact Frame.effect (.of_approvals rfl rfl rfl) fun _ => rfl
  | delegate =>
    obtain ⟨_, ran, rfl⟩ := map_eq_ok.mp h
    rcases putIfAbsent_spec ran with same | ⟨_, _, same⟩ <;>
    · rw [same]
      exact Frame.effect ⟨fun _ => rfl, fun _ => rfl, fun other => absurd rfl other⟩ fun _ => rfl

/-- Every transaction makes what is stored about every run do one turn. -/
theorem turn_of_apply (h : op.apply config db = .ok db') (id : GoString) :
    Turn op id (db.view id) (db'.view id) := ((effect_of_apply h).step id).turn

/-- Every transaction writes at most one side table. -/
theorem frame_of_apply (h : op.apply config db = .ok db') : Frame op db db' :=
  (effect_of_apply h).frame

/-- Every transaction makes every run do one move. -/
theorem evolves_of_apply (h : op.apply config db = .ok db') :
    Evolves op db.runControl db'.runControl := by
  intro r' mem
  obtain ⟨turn, move⟩ := (effect_of_apply h).step r'.runID
  have after : (db'.view r'.runID).run = some r' := run_of_mem mem
  rcases move r' after with ⟨r, before, move⟩ | fresh
  · have same : r.SameRun r' := by
      generalize db.view r'.runID = v at turn before
      generalize db'.view r'.runID = v' at turn after
      cases v; cases v'
      cases before
      cases after
      exact turn.sameRun
    exact .inl ⟨r, (run_eq_some.mp before).1, same, move⟩
  · exact .inr fresh

end AutoAgent.Storage
