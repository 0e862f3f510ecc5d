import AutoAgent.Lib.Transaction
import AutoAgent.Storage.QueueInvariant

/-!
# The life of an approval

An approval is inserted as pending and leaves that state once.  Four writers can
make it leave: a decision and an expiry, which resume the run in the same
transaction; `RequestRunCancel`, which cancels a queued or waiting run together
with its pending approvals; and `CancelRunApprovals`, which the server calls after
a cancellation and which denies the pending approvals of a run in statements of
their own.

**A decision and its run.**  `decideAndResumeTx` is the transaction of a decision
statement by statement, on a database that may fail.  Its approval is updated
first and the run after it, so whether the two stay together depends on what is
committed when the second update is refused.

**What is remembered.**  `Settled` keeps, beside the database, the approvals that
left the pending state and whose row is still there.
-/

namespace AutoAgent.Storage

open List Tx

/-! ## The transaction of a decision -/

/-- `decideAndResume` on a database that may fail. -/
def decideAndResumeTx (id : GoString) (decision : ApprovalDecision) (actor : GoString)
    (clock : ℤ) : Tx Database StoreError (Option ApprovalRow × Bool) := do
  let now := unixMilli clock
  let found ← query fun db => db.approvals.find (·.id == id)
  let record ← check (scanApproval found)
  if record.status ≠ .pending then return (some record, false)
  else
    let affected ← statement fun db => do
      let result ← exec db.approvals (sqlDecideApproval decision now actor id)
      return (result.1, { db with approvals := result.2 })
    if affected = 0 then return (none, false)
    else
      let target ← statement fun db => do
        let target ← delegatedApprovalResumeTarget db record
        return (target, db)
      let resumed ← statement fun db => do
        let result ← exec db.runControl
          (sqlResumeApprovedRun now target.2 target.1 record.tenantID record.subjectID)
        return (result.1, { db with runControl := result.2 })
      check (require (0 < resumed) .notWaiting)
      let woken ← statement fun db => do
        let result ← exec db.runQueue
          (sqlWakeRunQueue db.runControl now target.2 target.1 record.tenantID record.subjectID)
        return (result.1, { db with runQueue := result.2 })
      check (require (0 < woken) .noContinuation)
      commit
      return (some { record with status := decision, decidedAt := now, decidedBy := actor }, true)

variable {op : RunOp} {config : StoreConfig} {db db' : Database} {id runID actor : GoString}
  {decision : ApprovalDecision} {clock : ℤ} {a a' : ApprovalRow}

/-- The transaction commits what the function computes, or nothing. -/
theorem ends_decideAndResume :
    (decideAndResumeTx id decision actor clock).Ends db db
      (decideAndResume id decision actor clock db) := by
  refine ends_query (ends_check fun record _ => ?_)
  dsimp only
  split
  · exact ends_return _
  · refine ends_statement (by rfl) fun decided _ => ?_
    dsimp only
    split
    · exact ends_return _
    · refine ends_statement (by rfl) fun target _ => ?_
      dsimp only
      refine ends_statement (by rfl) fun resumed _ => ?_
      dsimp only
      refine ends_check fun _ _ => ?_
      refine ends_statement (by rfl) fun woken _ => ?_
      dsimp only
      refine ends_check fun _ _ => ?_
      exact ends_commit _

/-! ## What a transaction does to an approval -/

instance : Fact (Table.UniqueKey ApprovalRow.clash ApprovalRow.id) where
  out a b same := by simp [ApprovalRow.clash, same]

def Database.approval (db : Database) (id : GoString) : Option ApprovalRow :=
  db.approvals.lookup ApprovalRow.id id

theorem Database.approval_eq_some : db.approval id = some a ↔ a ∈ db.approvals.rows ∧ a.id = id :=
  lookup_eq_some

export Database (approval_eq_some)

def RunOp.decides : RunOp → Option GoString
  | .decide id .. => some id
  | .expire id _ => some id
  | _ => none

/-- How an approval leaves the pending state in a transaction. -/
inductive Leaves (op : RunOp) (db db' : Database) (a : ApprovalRow) : Prop where
  /-- a decision or an expiry, which moves the run it resumes from waiting to
  queued -/
  | decided {runID : GoString} {r r' : RunRow} (own : op.decides = some a.id)
      (target : delegatedApprovalResumeTarget db a = .ok (r.sessionID, runID))
      (before : db.run runID = some r) (waiting : r.status = .waitingApproval)
      (after : db'.run runID = some r') (queued : r'.status = .queued)
  /-- the cancellation of its run, which ends with it -/
  | cancelled {clock : ℤ} {r r' : RunRow} (own : op = .cancel a.runID clock)
      (before : db.run a.runID = some r)
      (idle : r.status = .queued ∨ r.status = .waitingApproval)
      (after : db'.run a.runID = some r') (ended : r'.status = .cancelled)
  /-- `CancelRunApprovals`, which leaves every run as it is -/
  | denied {actor : GoString} {now : ℤ} (own : op = .deny a.id actor now)
      (control : db'.runControl = db.runControl) (queue : db'.runQueue = db.runQueue)

/-- What a transaction does to one approval. -/
inductive ApprovalStep (op : RunOp) (db db' : Database) (a : ApprovalRow) : Prop where
  | keep (kept : a ∈ db'.approvals.rows)
  | leave {a' : ApprovalRow} (mem : a' ∈ db'.approvals.rows) (same : a'.id = a.id)
      (before : a.status = .pending) (after : a'.status ≠ .pending) (how : Leaves op db db' a)
  | prune {olderThan : ℤ} (own : op = .pruneApprovals olderThan) (before : a.status ≠ .pending)
      (gone : db'.approval a.id = none)

/-- A statement that settles the pending approvals it selects. -/
theorem approvalStep_of_execute {u : Update ApprovalRow} {n : ℕ}
    (h : db.approvals.execute u = some (n, db'.approvals)) (mem : a ∈ db.approvals.rows)
    (keeps : (u.set a).id = a.id) (settles : (u.set a).status ≠ .pending)
    (how : u.selects a → a.status = .pending ∧ Leaves op db db' a) :
    ApprovalStep op db db' a := by
  have applied : u.apply a ∈ db'.approvals.rows := by
    rw [(rows_of_execute h).2]
    exact mem_map_of_mem mem
  by_cases selected : u.selects a
  · rw [Update.apply_of_selects selected] at applied
    exact .leave applied keeps (how selected).1 settles (how selected).2
  · rw [Update.apply, if_neg selected] at applied
    exact .keep applied

theorem approvalStep_of_decideAndResume {answer : (Option ApprovalRow × Bool) × Database}
    (own : op.decides = some id) (settles : decision ≠ .pending)
    (h : decideAndResume id decision actor clock db = .ok answer) (mem : a ∈ db.approvals.rows) :
    ApprovalStep op db answer.2 a := by
  rcases decideAndResume_spec h with ⟨same, _⟩ | ⟨⟨_, record, runID, r, q, decided⟩, -⟩
  · rw [same]
    exact .keep mem
  · obtain ⟨n, executed⟩ := decided.approvals
    refine approvalStep_of_execute executed mem rfl settles fun selected => ?_
    obtain ⟨sameID, pending⟩ := of_decide_eq_true selected
    -- the approval that was found is this one
    obtain rfl : record = a := by
      have found : db.approval a.id = some record := by
        rw [sameID]
        exact decided.found
      exact some.inj (found.symm.trans (approval_eq_some.mpr ⟨mem, rfl⟩))
    have after := congrArg RunView.run ((decided.sets runID).trans (if_pos rfl))
    exact ⟨pending, .decided (own.trans (congrArg some sameID.symm)) decided.target
      (congrArg RunView.run decided.view) decided.waiting after rfl⟩

theorem approvalStep_of_requestRunCancel {answer : Bool × Database}
    (h : requestRunCancel runID clock db = .ok answer) (mem : a ∈ db.approvals.rows) :
    ApprovalStep (.cancel runID clock) db answer.2 a := by
  simp only [requestRunCancel, bind_eq_ok, exec_eq_ok] at h
  obtain ⟨_, _, _, _, h⟩ := h
  split at h
  · cases pure_eq_ok.mp h
    exact .keep mem
  · rw [bind_eq_ok] at h
    obtain ⟨⟨n, control⟩, cancelled, h⟩ := h
    rw [exec_eq_ok] at cancelled
    split at h
    next someRun =>
      simp only [bind_eq_ok, pure_eq_ok, exec_eq_ok] at h
      obtain ⟨⟨m, approvals⟩, denied, rfl⟩ := h
      obtain ⟨r, found, selected, after⟩ := selected_of_execute RunRow.runID runID cancelled
        (Nat.ne_of_gt someRun)
      refine approvalStep_of_execute denied mem rfl (by rintro ⟨⟩) fun chosen => ?_
      obtain ⟨rfl, pending⟩ := of_decide_eq_true chosen
      have idle := (of_decide_eq_true selected).2
      exact ⟨pending, .cancelled rfl found idle ((after a.runID).trans (if_pos rfl)) rfl⟩
    · cases pure_eq_ok.mp h
      exact .keep mem

/-- Whatever the transaction, an approval is kept as it is, leaves the pending
state, or is pruned after it has left it. -/
theorem approvalStep_of_apply (h : op.apply config db = .ok db') (mem : a ∈ db.approvals.rows) :
    ApprovalStep op db db' a := by
  have frame := frame_of_apply h
  cases op with
  | cancel runID clock =>
    obtain ⟨_, ran, rfl⟩ := map_eq_ok.mp h
    exact approvalStep_of_requestRunCancel ran mem
  | request call pending now =>
    cases h
    rcases requestApproval_spec config call pending now db with
      same | ⟨_, row, approvals, _, inserted, same⟩
    · rw [same]
      exact .keep mem
    · rw [same]
      refine .keep ?_
      rw [rows_of_insert inserted]
      exact mem_append_left _ mem
  | decide id decision actor now =>
    obtain ⟨_, ran, rfl⟩ := map_eq_ok.mp h
    simp only [decideApproval, bind_eq_ok, require_eq_ok] at ran
    obtain ⟨_, _, _, allowed, _, _, ran⟩ := ran
    refine approvalStep_of_decideAndResume rfl ?_ ran mem
    rcases allowed with rfl | rfl <;> rintro ⟨⟩
  | expire id now =>
    obtain ⟨_, ran, rfl⟩ := map_eq_ok.mp h
    have expired : decideAndResume id .expired (go "system:expiry") now db = .ok _ := ran
    exact approvalStep_of_decideAndResume rfl (by rintro ⟨⟩) expired mem
  | deny id actor now =>
    obtain ⟨_, ran, rfl⟩ := map_eq_ok.mp h
    simp only [denyApproval, bind_eq_ok, pure_eq_ok, exec_eq_ok] at ran
    obtain ⟨_, _, ⟨n, approvals⟩, denied, rfl⟩ := ran
    refine approvalStep_of_execute denied mem rfl (by rintro ⟨⟩) fun selected => ?_
    obtain ⟨rfl, pending⟩ := of_decide_eq_true selected
    exact ⟨pending, .denied rfl rfl rfl⟩
  | pruneApprovals olderThan =>
    cases h
    by_cases pruned : a ∈ (pruneApprovals olderThan db).approvals.rows
    · exact .keep pruned
    · have found : db.approval a.id = some a := approval_eq_some.mpr ⟨mem, rfl⟩
      simp only [pruneApprovals, mem_delete, mem, true_and, not_eq_false, decide_eq_true_eq]
        at pruned
      refine .prune rfl pruned.1 ?_
      rw [Database.approval, pruneApprovals, Table.lookup_delete]
      rw [Database.approval] at found
      rw [found]
      simp [pruned]
  | _ =>
    refine .keep ?_
    rw [frame.approvals (by rintro ⟨⟩)]
    exact mem

/-! ## Approvals that have been settled -/

/-- The approvals that leave the pending state between two databases. -/
def leaving (db db' : Database) : List GoString :=
  (db.approvals.rows.filter fun a => a.status = .pending ∧
    (db'.approval a.id).any (·.status ≠ .pending)).map (·.id)

/-- The database, and the approvals that left the pending state and whose row is
retained. -/
structure Settled extends db : Database where
  left : List GoString

/-- The control plane with the approvals that have been settled. -/
def settledSystem (config : StoreConfig) : System Settled RunOp where
  init s := s = ⟨.empty, []⟩
  step s op s' := op.apply config s.db = .ok s'.db ∧
    s'.left = (s.left ++ leaving s.db s'.db).filter fun id => (s'.approval id).isSome

variable {s s' : Settled}

/-- No approval has left the pending state twice, and none of those that have is
pending. -/
structure Settled.Sound (s : Settled) : Prop where
  once : s.left.Nodup
  settled : ∀ id ∈ s.left, ∃ a, s.approval id = some a ∧ a.status ≠ .pending

theorem mem_leaving (mem : id ∈ leaving db db') :
    (∃ a, db.approval id = some a ∧ a.status = .pending) ∧
      ∃ a', db'.approval id = some a' ∧ a'.status ≠ .pending := by
  obtain ⟨a, kept, rfl⟩ := mem_map.mp mem
  obtain ⟨listed, meets⟩ := mem_filter.mp kept
  simp only [Option.any_eq_true, decide_eq_true_eq] at meets
  obtain ⟨pending, a', found, settled⟩ := meets
  exact ⟨⟨a, approval_eq_some.mpr ⟨listed, rfl⟩, pending⟩, a', found, settled⟩

theorem nodup_leaving : (leaving db db').Nodup :=
  pairwise_map.mpr ((db.approvals.pairwise_key ApprovalRow.id).filter _)

theorem sound_of_settled_step (sound : s.Sound) (step : (settledSystem config).step s op s') :
    s'.Sound := by
  obtain ⟨applied, left⟩ := step
  -- an approval that was settled cannot leave the pending state
  have apart : ∀ id ∈ s.left, id ∉ leaving s.db s'.db := by
    intro id old new
    obtain ⟨a, found, settled⟩ := sound.settled id old
    obtain ⟨⟨b, found', pending⟩, _⟩ := mem_leaving new
    obtain rfl := some.inj (found.symm.trans found')
    exact settled pending
  refine ⟨?_, fun id mem => ?_⟩
  · rw [left]
    refine List.Nodup.filter _ (nodup_append.mpr ⟨sound.once, nodup_leaving, ?_⟩)
    rintro id old _ new rfl
    exact apart id old new
  · rw [left] at mem
    obtain ⟨listed, retained⟩ := mem_filter.mp mem
    rcases mem_append.mp listed with old | new
    · obtain ⟨a, found, settled⟩ := sound.settled id old
      obtain ⟨inRows, rfl⟩ := approval_eq_some.mp found
      cases approvalStep_of_apply applied inRows with
      | keep kept => exact ⟨a, approval_eq_some.mpr ⟨kept, rfl⟩, settled⟩
      | leave _ _ pending => exact absurd pending settled
      | prune _ _ gone =>
        rw [gone] at retained
        cases retained
    · exact (mem_leaving new).2

theorem settled_invariant (config : StoreConfig) :
    (settledSystem config).Invariant Settled.Sound where
  init := by
    rintro _ rfl
    exact ⟨.nil, nofun⟩
  step := sound_of_settled_step

/-! ## What holds of decisions -/

/-- The run that a decision of the approval resumes moves from waiting to queued,
between the two databases. -/
def Resumes (db db' : Database) (id : GoString) : Prop :=
  ∃ a runID r r', db.approval id = some a ∧
    delegatedApprovalResumeTarget db a = .ok (r.sessionID, runID) ∧
    db.run runID = some r ∧ r.status = .waitingApproval ∧
    db'.run runID = some r' ∧ r'.status = .queued

theorem not_resumes_self : ¬ Resumes db db id := by
  rintro ⟨a, runID, r, r', _, _, before, waiting, after, queued⟩
  obtain rfl := some.inj (before.symm.trans after)
  rw [waiting] at queued
  cases queued

/-- A decision that is made has settled its approval and resumed its run. -/
theorem resumes_of_decided {record : ApprovalRow} {r : RunRow} {q : QueueRow} {now : ℤ}
    (decided : Decided db db' id decision actor now record runID r q) :
    Resumes db db' id ∧ db.approval id = some record ∧ record.status = .pending ∧ db'.approval id =
        some { record with status := decision, decidedAt := now, decidedBy := actor } := by
  have found : db.approval id = some record := decided.found
  have after : db'.run runID =
    some { r with status := .queued, errorCode := .empty, updatedAt := now } :=
    congrArg RunView.run ((decided.sets runID).trans (if_pos rfl))
  refine ⟨⟨record, runID, r, _, found, decided.target, congrArg RunView.run decided.view,
    decided.waiting, after, rfl⟩, found, decided.pending, ?_⟩
  obtain ⟨n, executed⟩ := decided.approvals
  have selected : (sqlDecideApproval decision now actor id).selects record := by
    simp [sqlDecideApproval, (approval_eq_some.mp found).2, decided.pending]
  exact (lookup_of_execute_selects executed found selected {} id).trans (if_pos rfl)

/-- What is promised of approvals in a state of the control plane. -/
structure ApprovalLaws (config : StoreConfig) (s : Settled) : Prop where
  /-- an approval leaves the pending state at most once while its row is retained -/
  once : s.left.Nodup
  /-- and is not changed after that, until it is pruned -/
  settled : ∀ {op : RunOp} {db' : Database}, op.apply config s.db = .ok db' →
    ∀ a ∈ s.approvals.rows, a.status ≠ .pending → a ∈ db'.approvals.rows ∨
      ∃ olderThan, op = .pruneApprovals olderThan ∧ db'.approval a.id = none
  /-- a pending approval that changes is decided with its run, cancelled with its
  run, or denied by `CancelRunApprovals` -/
  leaves : ∀ {op : RunOp} {db' : Database}, op.apply config s.db = .ok db' →
    ∀ a ∈ s.approvals.rows, a.status = .pending → a ∈ db'.approvals.rows ∨
      ∃ a' ∈ db'.approvals.rows, a'.id = a.id ∧ a'.status ≠ .pending ∧ Leaves op s.db db' a
  /-- a decision commits exactly when its run moves from waiting to queued -/
  commits : ∀ {id decision actor clock faults answer db'},
    (decideAndResumeTx id decision actor clock).transact faults s.db = (answer, db') →
    ((∃ record, answer = .ok (record, true)) ↔ Resumes s.db db' id)
  /-- and then its approval is decided -/
  decided : ∀ {id decision actor clock faults record db'},
    (decideAndResumeTx id decision actor clock).transact faults s.db = (.ok (record, true), db') →
    ∃ a, s.approval id = some a ∧ a.status = .pending ∧ db'.approval id =
      some { a with status := decision, decidedAt := unixMilli clock, decidedBy := actor }
  /-- a decision that does not commit changes nothing -/
  failed : ∀ {id decision actor clock faults answer db'},
    (decideAndResumeTx id decision actor clock).transact faults s.db = (answer, db') →
    (∀ record, answer ≠ .ok (record, true)) → db' = s.db

/-- A decision that is answered with its record has been made; any other has
changed nothing. -/
theorem transact_decision {faults : List Bool}
    {answer : Except (Option StoreError) (Option ApprovalRow × Bool)}
    (ended : (decideAndResumeTx id decision actor clock).transact faults db = (answer, db')) :
    (∃ record, answer = .ok (record, true) ∧ ∃ a runID r q,
      Decided db db' id decision actor (unixMilli clock) a runID r q) ∨
    (∀ record, answer ≠ .ok (record, true)) ∧ db' = db := by
  rcases transact_cases ends_decideAndResume ended with ⟨⟨record, made⟩, rfl, ran⟩ | ⟨none, same⟩
  · rcases decideAndResume_spec ran with ⟨same, unmade⟩ | ⟨⟨isMade, a, runID, r, q, decided⟩, -⟩
    · obtain rfl : made = false := unmade
      exact .inr ⟨nofun, same⟩
    · obtain rfl : made := isMade
      exact .inl ⟨record, rfl, a, runID, r, q, decided⟩
  · exact .inr ⟨fun _ => none _, same⟩

/-- In every interleaving of transactions the approvals keep their laws. -/
theorem approval_laws {config : StoreConfig} {s : Settled}
    (reach : (settledSystem config).Reachable s) : ApprovalLaws config s where
  once := ((settled_invariant config).holds reach).once
  settled := by
    intro op db' applied a mem settled
    cases approvalStep_of_apply applied mem with
    | keep kept => exact .inl kept
    | leave _ _ pending => exact absurd pending settled
    | prune own _ gone => exact .inr ⟨_, own, gone⟩
  leaves := by
    intro op db' applied a mem pending
    cases approvalStep_of_apply applied mem with
    | keep kept => exact .inl kept
    | leave inRows same _ after how => exact .inr ⟨_, inRows, same, after, how⟩
    | prune _ settled => exact absurd pending settled
  commits := by
    intro id decision actor clock faults answer db' ended
    rcases transact_decision ended with ⟨record, made, a, runID, r, q, decided⟩ | ⟨unmade, rfl⟩
    · exact ⟨fun _ => (resumes_of_decided decided).1, fun _ => ⟨record, made⟩⟩
    · exact ⟨fun ⟨record, made⟩ => absurd made (unmade record),
        fun resumes => absurd resumes not_resumes_self⟩
  decided := by
    intro id decision actor clock faults record db' ended
    rcases transact_decision ended with ⟨_, _, a, runID, r, q, decided⟩ | ⟨unmade, _⟩
    · exact ⟨a, (resumes_of_decided decided).2⟩
    · exact absurd rfl (unmade record)
  failed := by
    intro id decision actor clock faults answer db' ended unmade
    rcases transact_decision ended with ⟨record, made, _⟩ | ⟨_, same⟩
    · exact absurd made (unmade record)
    · exact same

/-! ## A decision, and an approval that is denied without its run -/

/-- A transaction that may be refused, with the approvals it settles. -/
def Settled.tryStep (s : Settled) (op : RunOp) : Option Settled :=
  (tryApply s.db op).map fun db =>
    ⟨db, (s.left ++ leaving s.db db).filter fun id => (db.approval id).isSome⟩

theorem step_of_trySettled (h : s.tryStep op = some s') :
    (settledSystem defaultConfig).step s op s' := by
  obtain ⟨db, applied, rfl⟩ := map_eq_some_iff.mp h
  exact ⟨apply_of_tryApply applied, rfl⟩

/-- A worker claims a run that then asks for an approval. -/
def claimedAndAsked : List RunOp := [
  .enqueue exampleRun (10 ^ 9),
  .claim (go "w") (10 ^ 9) [] (fun _ => 0) (2 * 10 ^ 9),
  .request exampleApproval 0 (2 * 10 ^ 9)]

/-- The run waits for the approval, which is approved. -/
theorem approval_laws_approved :
    ∃ s record db', (settledSystem defaultConfig).Reachable s ∧
      (decideAndResumeTx (requestID exampleApproval) .approved (go "admin")
        (3 * 10 ^ 9)).transact [] s.db = (.ok (record, true), db') ∧
      Resumes s.db db' (requestID exampleApproval) := by
  obtain ⟨s, reach, made⟩ := System.exists_of_run (fun _ => step_of_trySettled) rfl
    (fun s => ((decideAndResumeTx (requestID exampleApproval) .approved (go "admin")
      (3 * 10 ^ 9)).transact [] s.db).1.toOption.map (·.2) = some true)
    (claimedAndAsked ++ [.pauseClaim (go "r1") (go "w") 1 (2 * 10 ^ 9 + 10 ^ 6)])
    (by decide +kernel)
  cases ended : (decideAndResumeTx (requestID exampleApproval) .approved (go "admin")
    (3 * 10 ^ 9)).transact [] s.db with
  | mk answer db' =>
    rw [ended] at made
    cases answer with
    | error e => cases made
    | ok answer =>
      obtain ⟨record, isMade⟩ := answer
      obtain rfl : isMade = true := some.inj made
      exact ⟨s, record, db', reach, ended, ((approval_laws reach).commits ended).mp ⟨record, rfl⟩⟩

/-- The run is running, its cancellation is requested, and `CancelRunApprovals`
denies the approval: the run is running as before. -/
theorem approval_denied_without_its_run :
    ∃ s, (settledSystem defaultConfig).Reachable s ∧
      ∃ db', (RunOp.deny (requestID exampleApproval) (go "admin") (3 * 10 ^ 9)).apply
          defaultConfig s.db = .ok db' ∧
        (∃ a ∈ s.approvals.rows, a.runID = go "r1" ∧ a.status = .pending) ∧
        (∃ a ∈ db'.approvals.rows, a.runID = go "r1" ∧ a.status = .denied) ∧
        (∃ r ∈ s.runControl.rows, r.runID = go "r1" ∧ r.status = .running) ∧
        ∃ r ∈ db'.runControl.rows, r.runID = go "r1" ∧ r.status = .running := by
  obtain ⟨s, reach, denied⟩ := System.exists_of_run (fun _ => step_of_trySettled) rfl
    (fun s => (tryApply s.db (.deny (requestID exampleApproval) (go "admin") (3 * 10 ^ 9))).any
      (fun db' => (∃ a ∈ s.approvals.rows, a.runID = go "r1" ∧ a.status = .pending) ∧
        (∃ a ∈ db'.approvals.rows, a.runID = go "r1" ∧ a.status = .denied) ∧
        (∃ r ∈ s.runControl.rows, r.runID = go "r1" ∧ r.status = .running) ∧
        ∃ r ∈ db'.runControl.rows, r.runID = go "r1" ∧ r.status = .running) = true)
    (claimedAndAsked ++ [.cancel (go "r1") (2 * 10 ^ 9 + 10 ^ 6)]) (by decide +kernel)
  obtain ⟨db', applied, holds⟩ := (Option.any_eq_true _ _).mp denied
  exact ⟨s, reach, db', apply_of_tryApply applied, of_decide_eq_true holds⟩

end AutoAgent.Storage
