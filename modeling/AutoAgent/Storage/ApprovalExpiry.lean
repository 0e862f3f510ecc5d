import AutoAgent.Storage.ApprovalLife

/-!
# Expiry of approvals

`ExpireApprovals` lists the pending approvals that are due and expires them one
by one, in the order of their expiry.  Each one is a transaction that resumes the
run of the approval; the first that is refused ends the call.

**What can be refused.**  `Resumable` says what a decision needs of the run: it
waits for an approval, its cancellation has not been requested, and it is the run
of the approval or the parent run that delegated.  A run that waits has a queue
row, so nothing else can refuse the decision.  An expiry takes the run out of the
waiting state, so of two due approvals with one run only the first can be expired.

**The whole call.**  `expireLoop_clears_iff` follows the loop: it settles every
approval of its list exactly when each is resumable at the start and no two resume
the same run.
-/

namespace AutoAgent.Storage

open List

/-! ## The call -/

/-- The approval is pending and has expired. -/
def ApprovalRow.due (now : ℤ) (a : ApprovalRow) : Bool := a.status = .pending ∧ a.expiresAt ≤ now

/-- The order of `sqlExpiredApprovals`, with ties as the database breaks them. -/
abbrev expiresBefore (tie : GoString → ℕ) (a b : ApprovalRow) : Prop :=
  a.expiresAt < b.expiresAt ∨ a.expiresAt = b.expiresAt ∧ tie a.id ≤ tie b.id

def expiredApprovals (db : Database) (tie : GoString → ℕ) (now : ℤ) : List ApprovalRow :=
  (db.approvals.rows.filter (·.due now)).insertionSort (expiresBefore tie)

/-- The loop of `ExpireApprovals` over the ids it found, with the number of
approvals expired so far. -/
def expireLoop (now : ℤ) : List GoString → ℕ → Database → (ℕ × Option StoreError) × Database
  | [], expired, db => ((expired, none), db)
  | id :: ids, expired, db =>
    match expireApproval id now db with
    | .error e => ((expired, some e), db)
    | .ok ((_, changed), db) => expireLoop now ids (if changed then expired + 1 else expired) db

/-- `ExpireApprovals`, with the number of approvals expired and the error. -/
def expireApprovals (tie : GoString → ℕ) (now : Option ℤ) (db : Database) :
    (ℕ × Option StoreError) × Database :=
  match now with
  | none => ((0, some .timeZero), db)
  | some now => expireLoop now ((expiredApprovals db tie (unixMilli now)).map (·.id)) 0 db

/-! ## One approval -/

variable {db db' : Database} {id runID actor : GoString} {decision : ApprovalDecision}
  {now clock : ℤ} {a b : ApprovalRow}

/-- A decision of the approval resumes the run. -/
structure Resumable (db : Database) (a : ApprovalRow) (runID : GoString) : Prop where
  readable : scanApproval (some a) = .ok a
  run : ∃ r, delegatedApprovalResumeTarget db a = .ok (r.sessionID, runID) ∧
    db.run runID = some r ∧ r.tenantID = a.tenantID ∧ r.subjectID = a.subjectID ∧
    r.status = .waitingApproval ∧ r.cancelRequested = false

theorem Resumable.unique {runID' : GoString} (h : Resumable db a runID)
    (h' : Resumable db a runID') : runID = runID' := by
  obtain ⟨r, target, _⟩ := h.run
  obtain ⟨r', target', _⟩ := h'.run
  have same := Except.ok.inj (target.symm.trans target')
  exact congrArg Prod.snd same

theorem resumable_of_decided {r : RunRow} {q : QueueRow}
    (decided : Decided db db' id decision actor now a runID r q) : Resumable db a runID where
  readable := decided.readable
  run := ⟨r, decided.target, congrArg RunView.run decided.view, decided.tenant, decided.subject,
    decided.waiting, decided.unflagged⟩

/-- A statement that is executed changes the rows it selects. -/
theorem exec_of_selected {ρ : Type} {clash : ρ → ρ → Bool} {t : Table ρ clash}
    {u : Update ρ} {r : ρ} (mem : r ∈ t.rows) (selected : u.selects r)
    (executed : ∃ t', t.execute u = some (t.count u.selects, t')) :
    ∃ n t', exec t u = .ok (n, t') ∧ 0 < n := by
  obtain ⟨t', executed⟩ := executed
  exact ⟨_, t', exec_eq_ok.mpr executed, countP_pos_iff.mpr ⟨r, mem, selected⟩⟩

variable {sessionID tenantID subjectID : GoString}

/-- A run that is resumed is no longer active. -/
theorem sqlResumeApprovedRun_keeps (a b : RunRow) (free : a.clash b = false) :
    ((sqlResumeApprovedRun now runID sessionID tenantID subjectID).apply a).clash
      ((sqlResumeApprovedRun now runID sessionID tenantID subjectID).apply b) = false := by
  have idle : RunState.queued.active = false := rfl
  have other : a.runID ≠ b.runID := (not_or.mp (of_decide_eq_false free)).1
  unfold Update.apply
  split <;> split <;> first | exact free | simp [sqlResumeApprovedRun, RunRow.clash, idle, other]

/-- A run that may be resumed has a queue row, so its approval can be decided. -/
theorem decideAndResume_of_resumable (sound : ∀ id, (db.view id).Sound)
    (found : db.approval a.id = some a) (pending : a.status = .pending)
    (resumable : Resumable db a runID) :
    ∃ record db', decideAndResume a.id decision actor clock db = .ok ((record, true), db') := by
  obtain ⟨r, target, run, tenant, subject, waiting, unflagged⟩ := resumable.run
  obtain ⟨q, row, _⟩ := (sound runID).idle run (.inr waiting)
  obtain ⟨inRuns, sameRun⟩ := run_eq_some.mp run
  obtain ⟨inQueue, sameRow⟩ := queue_eq_some.mp row
  -- each of the three statements selects its row
  obtain ⟨n, approvals, decided, someApproval⟩ : ∃ n t', exec db.approvals
      (sqlDecideApproval decision (unixMilli clock) actor a.id) = .ok (n, t') ∧ 0 < n :=
    exec_of_selected (approval_eq_some.mp found).1 (by simp [sqlDecideApproval, pending])
      Table.execute_of_keeps
  obtain ⟨m, control, resumed, someRun⟩ : ∃ n t', exec db.runControl
      (sqlResumeApprovedRun (unixMilli clock) runID r.sessionID a.tenantID a.subjectID) =
        .ok (n, t') ∧ 0 < n :=
    exec_of_selected inRuns
      (by simp [sqlResumeApprovedRun, sameRun, tenant, subject, waiting, unflagged])
      (Table.execute_of_keeps sqlResumeApprovedRun_keeps)
  have queued : ({ r with status := .queued, errorCode := .empty, updatedAt := unixMilli clock } :
      RunRow) ∈ control.rows := by
    rw [(rows_of_execute (exec_eq_ok.mp resumed)).2]
    refine mem_map.mpr ⟨r, inRuns, Update.apply_of_selects ?_⟩
    simp [sqlResumeApprovedRun, sameRun, tenant, subject, waiting, unflagged]
  obtain ⟨k, queue, woken, someRow⟩ : ∃ n t', exec db.runQueue
      (sqlWakeRunQueue control (unixMilli clock) runID r.sessionID a.tenantID a.subjectID) =
        .ok (n, t') ∧ 0 < n := by
    refine exec_of_selected inQueue (decide_eq_true ⟨sameRow, exists?_iff.mpr ⟨_, queued, ?_⟩⟩)
      Table.execute_of_keeps
    simp [sameRun, sameRow, tenant, subject, unflagged]
  have found' : db.approvals.find (·.id == a.id) = some a := found
  refine ⟨some { a with status := decision, decidedAt := unixMilli clock, decidedBy := actor },
    { db with runControl := control, runQueue := queue, approvals }, ?_⟩
  unfold decideAndResume
  rw [found', resumable.readable]
  simp only [bind, Except.bind, pending, decided, target, resumed, woken, require, someRun, someRow,
    Nat.ne_of_gt someApproval, if_true, if_false, ne_eq, not_true_eq_false]
  rfl

/-- An approval that is pending is not passed over. -/
theorem made_of_pending {answer : (Option ApprovalRow × Bool) × Database}
    (found : db.approval a.id = some a) (pending : a.status = .pending)
    (h : decideAndResume a.id decision actor clock db = .ok answer) : answer.1.2 := by
  have found' : db.approvals.find (·.id == a.id) = some a := found
  simp only [decideAndResume, bind_eq_ok] at h
  obtain ⟨record, scanned, h⟩ := h
  rw [found'] at scanned
  obtain rfl : a = record := some.inj (scanApproval_eq_ok scanned)
  rw [if_neg (not_not.mpr pending), bind_eq_ok] at h
  obtain ⟨⟨n, approvals⟩, decided, h⟩ := h
  -- the statement selects the approval
  have selected : n ≠ 0 := by
    rw [(rows_of_execute (exec_eq_ok.mp decided)).1]
    refine Nat.ne_of_gt (countP_pos_iff.mpr ⟨a, (approval_eq_some.mp found).1, ?_⟩)
    simp [sqlDecideApproval, pending]
  rw [if_neg selected] at h
  simp only [bind_eq_ok, pure_eq_ok] at h
  obtain ⟨_, _, _, _, _, _, _, _, _, _, rfl⟩ := h
  rfl

/-- The expiry of a pending approval is refused, because its run cannot be
resumed, or made. -/
theorem expireApproval_cases (sound : ∀ id, (db.view id).Sound)
    (found : db.approval a.id = some a) (pending : a.status = .pending) :
    (∃ e, expireApproval a.id now db = .error e ∧ ∀ runID, ¬ Resumable db a runID) ∨
    ∃ record db' runID r q, expireApproval a.id now db = .ok ((record, true), db') ∧
      Decided db db' a.id .expired (go "system:expiry") (unixMilli now) a runID r q := by
  cases ran : expireApproval a.id now db with
  | error e =>
    refine .inl ⟨e, rfl, fun runID resumable => ?_⟩
    obtain ⟨_, _, made⟩ := decideAndResume_of_resumable sound found pending resumable
    cases ran.symm.trans made
  | ok answer =>
    obtain ⟨⟨record, made⟩, db'⟩ := answer
    obtain rfl : made := made_of_pending found pending ran
    rcases decideAndResume_spec ran with ⟨_, unmade⟩ | ⟨⟨_, record', runID, r, q, decided⟩, -⟩
    · cases unmade
    · obtain rfl : a = record' := some.inj (found.symm.trans decided.found)
      exact .inr ⟨record, db', runID, r, q, rfl, decided⟩

/-! ## What an expiry leaves for the next -/

section Decided

variable {r : RunRow} {q : QueueRow} (decided : Decided db db' id decision actor now a runID r q)
include decided

/-- Other approvals stay as they are. -/
theorem approval_of_decided {id' : GoString} (other : id' ≠ id) :
    db'.approval id' = db.approval id' := by
  obtain ⟨n, executed⟩ := decided.approvals
  exact (Table.lookup_of_execute_at {} executed id').trans (if_neg other)

theorem run_of_decided (id' : GoString) :
    db'.run id' = if id' = runID then
      some { r with status := .queued, errorCode := .empty, updatedAt := now } else db.run id' := by
  have view := congrArg RunView.run (decided.sets id')
  rw [apply_ite RunView.run] at view
  exact view

theorem views_of_decided (sound : ∀ id, (db.view id).Sound) (id' : GoString) :
    (db'.view id').Sound := by
  rw [decided.sets id']
  split
  · exact RunView.sound_of_idle (.inl rfl) ⟨rfl, rfl⟩
  · exact sound id'

/-- The run an approval resumes is found by columns that no decision writes. -/
theorem target_of_decided (b : ApprovalRow) :
    delegatedApprovalResumeTarget db' b = delegatedApprovalResumeTarget db b := by
  have run : db'.runControl.find (·.hasID b.runID) = _ := run_of_decided decided b.runID
  have before : db.runControl.find (·.hasID runID) = some r := congrArg RunView.run decided.view
  unfold delegatedApprovalResumeTarget
  rw [decided.links, run]
  by_cases same : b.runID = runID
  · rw [if_pos same, same, before]
  · rw [if_neg same]
    rfl

/-- What can be resumed afterwards is what could be before, without the run that
has been resumed. -/
theorem resumable_of_decided_iff (b : ApprovalRow) (runID' : GoString) :
    Resumable db' b runID' ↔ Resumable db b runID' ∧ runID' ≠ runID := by
  have run := run_of_decided decided runID'
  constructor
  · rintro ⟨readable, r', target, found, tenant, subject, waiting, unflagged⟩
    rw [run] at found
    split at found
    · cases found
      cases waiting
    next other =>
      exact ⟨⟨readable, r', (target_of_decided decided b).symm.trans target, found, tenant, subject,
        waiting, unflagged⟩, other⟩
  · rintro ⟨⟨readable, r', target, found, tenant, subject, waiting, unflagged⟩, other⟩
    rw [if_neg other] at run
    exact ⟨readable, r', (target_of_decided decided b).trans target, run.trans found,
      tenant, subject, waiting, unflagged⟩

end Decided

/-! ## The loop -/

/-- No run is resumed by both. -/
def Apart (db : Database) (a b : ApprovalRow) : Prop :=
  ∀ runID, Resumable db a runID → ¬ Resumable db b runID

variable {ids : List GoString} {n : ℕ}

theorem expireLoop_cons_of_error {e : StoreError} (h : expireApproval id now db = .error e) :
    expireLoop now (id :: ids) n db = ((n, some e), db) := by
  rw [expireLoop, h]

theorem expireLoop_cons_of_made {record : Option ApprovalRow}
    (h : expireApproval id now db = .ok ((record, true), db')) :
    expireLoop now (id :: ids) n db = expireLoop now ids (n + 1) db' := by
  rw [expireLoop, h]
  rfl

/-- The pending approvals of a list, each with its own id. -/
structure Listed (db : Database) (l : List ApprovalRow) : Prop where
  found : ∀ a ∈ l, db.approval a.id = some a
  pending : ∀ a ∈ l, a.status = .pending
  nodup : (l.map (·.id)).Nodup

variable {l : List ApprovalRow}

theorem Listed.of_cons (h : Listed db (a :: l)) : a.id ∉ l.map (·.id) := (nodup_cons.mp h.nodup).1

/-- What is left of the list after its first approval has been expired. -/
theorem Listed.tail {r : RunRow} {q : QueueRow} (h : Listed db (a :: l))
    (decided : Decided db db' a.id decision actor now a runID r q) : Listed db' l where
  found b mem := by
    have other : b.id ≠ a.id := fun same => h.of_cons (same ▸ mem_map_of_mem mem)
    rw [approval_of_decided decided other]
    exact h.found b (mem_cons_of_mem _ mem)
  pending b mem := h.pending b (mem_cons_of_mem _ mem)
  nodup := (nodup_cons.mp h.nodup).2

/-- The loop leaves the approvals that are not in its list, and settles those of
its list or leaves them. -/
theorem approval_of_expireLoop (now : ℤ) (sound : ∀ id, (db.view id).Sound) (listed : Listed db l)
    (n : ℕ) (id : GoString) :
    (expireLoop now (l.map (·.id)) n db).2.approval id = db.approval id ∨
      id ∈ l.map (·.id) ∧ ∃ b, (expireLoop now (l.map (·.id)) n db).2.approval id = some b ∧
        b.status ≠ .pending := by
  -- the induction is on the list; the database and the count change with it
  induction l generalizing db n with
  | nil => exact .inl rfl
  | cons a l ih =>
    rw [map_cons]
    rcases expireApproval_cases sound (listed.found a mem_cons_self)
      (listed.pending a mem_cons_self) with ⟨e, refused, _⟩ |
      ⟨record, db₁, runID, r, q, made, decided⟩
    · rw [expireLoop_cons_of_error refused]
      exact .inl rfl
    · rw [expireLoop_cons_of_made made]
      have rest := ih (views_of_decided decided sound) (listed.tail decided) (n + 1)
      by_cases own : id = a.id
      · -- its own approval is not in the rest of the list
        refine .inr ⟨own ▸ mem_cons_self, ?_⟩
        rcases rest with kept | ⟨later, _⟩
        · refine ⟨_, kept.trans (own ▸ (resumes_of_decided decided).2.2.2), ?_⟩
          nofun
        · exact absurd (own ▸ later) listed.of_cons
      · rcases rest with kept | ⟨later, settled⟩
        · exact .inl (kept.trans (approval_of_decided decided own))
        · exact .inr ⟨mem_cons_of_mem _ later, settled⟩

/-- The loop settles every approval of its list exactly when each of them can be
resumed at the start, and no two of them resume one run. -/
theorem expireLoop_clears_iff (now : ℤ) (sound : ∀ id, (db.view id).Sound) (listed : Listed db l)
    (n : ℕ) :
    (∀ a ∈ l, (expireLoop now (l.map (·.id)) n db).2.approval a.id ≠ some a) ↔
      (∀ a ∈ l, ∃ runID, Resumable db a runID) ∧ l.Pairwise (Apart db) := by
  induction l generalizing db n with
  | nil => simp
  | cons a l ih =>
    have found := listed.found a mem_cons_self
    have pending := listed.pending a mem_cons_self
    rw [map_cons]
    rcases expireApproval_cases sound found pending with
      ⟨e, refused, stuck⟩ | ⟨record, db₁, runID, r, q, made, decided⟩
    · -- the loop ends with the approval as it was
      rw [expireLoop_cons_of_error refused]
      constructor
      · intro cleared
        exact absurd found (cleared a mem_cons_self)
      · rintro ⟨all, _⟩
        obtain ⟨runID, resumable⟩ := all a mem_cons_self
        exact absurd resumable (stuck runID)
    · rw [expireLoop_cons_of_made made]
      have resumable := resumable_of_decided decided
      have after := fun b => resumable_of_decided_iff decided b
      have sound₁ := views_of_decided decided sound
      have listed₁ := listed.tail decided
      -- the approval itself is settled
      have settled : (expireLoop now (l.map (·.id)) (n + 1) db₁).2.approval a.id ≠ some a := by
        rcases approval_of_expireLoop now sound₁ listed₁ (n + 1) a.id with kept | ⟨later, _⟩
        · rw [kept, (resumes_of_decided decided).2.2.2]
          intro same
          have status := congrArg ApprovalRow.status (some.inj same)
          rw [pending] at status
          cases status
        · exact absurd later listed.of_cons
      have rest := ih sound₁ listed₁ (n + 1)
      rw [forall_mem_cons, forall_mem_cons, pairwise_cons]
      constructor
      · rintro ⟨_, cleared⟩
        obtain ⟨all, apart⟩ := rest.mp cleared
        refine ⟨⟨⟨runID, resumable⟩, fun b mem => ?_⟩, fun b mem runID' own other => ?_, ?_⟩
        · obtain ⟨runID', there⟩ := all b mem
          exact ⟨runID', ((after b runID').mp there).1⟩
        · obtain ⟨runID'', there⟩ := all b mem
          obtain ⟨before, differs⟩ := (after b runID'').mp there
          exact differs ((before.unique other).trans (own.unique resumable))
        · refine apart.imp_of_mem fun {b c} memB memC free runID' own other => ?_
          obtain ⟨idB, thereB⟩ := all b memB
          obtain ⟨beforeB, differs⟩ := (after b idB).mp thereB
          obtain rfl := beforeB.unique own
          exact free idB thereB ((after c idB).mpr ⟨other, differs⟩)
      · rintro ⟨⟨_, all⟩, first, apart⟩
        refine ⟨settled, rest.mpr ⟨fun b mem => ?_,
          apart.imp fun {b c} free runID' own other => ?_⟩⟩
        · obtain ⟨runID', there⟩ := all b mem
          refine ⟨runID', (after b runID').mpr ⟨there, ?_⟩⟩
          rintro rfl
          exact first b mem runID' resumable there
        · exact free runID' ((after b runID').mp own).1 ((after c runID').mp other).1

/-! ## The call, from a state of the control plane -/

variable {tie : GoString → ℕ}

theorem mem_expiredApprovals :
    a ∈ expiredApprovals db tie now ↔ a ∈ db.approvals.rows ∧ a.due now := by
  rw [expiredApprovals, mem_insertionSort, mem_filter]

theorem listed_expiredApprovals : Listed db (expiredApprovals db tie now) where
  found a mem := approval_eq_some.mpr ⟨(mem_expiredApprovals.mp mem).1, rfl⟩
  pending a mem := (of_decide_eq_true (mem_expiredApprovals.mp mem).2).1
  nodup := by
    have ids : ((db.approvals.rows.filter (·.due now)).map (·.id)).Nodup :=
      pairwise_map.mpr ((db.approvals.pairwise_key ApprovalRow.id).filter _)
    exact (((perm_insertionSort (expiresBefore tie) _).map (·.id)).nodup_iff).mpr ids

theorem views_invariant (config : StoreConfig) :
    (runQueueSystem config).Invariant fun db => ∀ id, (db.view id).Sound where
  init := by
    rintro _ rfl id
    exact RunView.sound_none
  step sound applied id := sound_of_turn (turn_of_apply applied id) (sound id)

/-- In every state of the control plane, `ExpireApprovals` leaves no due approval
pending exactly when the run of each due approval waits for a decision and can be
resumed, and no two due approvals resume one run. -/
theorem expiry_clears_iff {config : StoreConfig} {db : Database}
    (reach : (runQueueSystem config).Reachable db) (tie : GoString → ℕ) (now : ℤ) :
    (∀ a ∈ (expireApprovals tie (some now) db).2.approvals.rows, a.due (unixMilli now) = false) ↔
      (∀ a ∈ db.approvals.rows, a.due (unixMilli now) = true → ∃ runID, Resumable db a runID) ∧
      ∀ a ∈ db.approvals.rows, ∀ b ∈ db.approvals.rows, a.due (unixMilli now) = true →
        b.due (unixMilli now) = true → a ≠ b → Apart db a b := by
  have sound := (views_invariant config).holds reach
  have listed : Listed db (expiredApprovals db tie (unixMilli now)) := listed_expiredApprovals
  have clears := expireLoop_clears_iff now sound listed 0
  have loop : (expireApprovals tie (some now) db).2 =
    (expireLoop now ((expiredApprovals db tie (unixMilli now)).map (·.id)) 0 db).2 := rfl
  -- nothing is due afterwards when every approval of the list has been settled
  have settles : (∀ a ∈ (expireApprovals tie (some now) db).2.approvals.rows,
      a.due (unixMilli now) = false) ↔ ∀ a ∈ expiredApprovals db tie (unixMilli now),
        (expireApprovals tie (some now) db).2.approval a.id ≠ some a := by
    constructor
    · intro none a mem kept
      have due := (mem_expiredApprovals.mp mem).2
      rw [none a (approval_eq_some.mp kept).1] at due
      cases due
    · intro cleared a mem
      by_contra due
      rw [not_eq_false] at due
      have found := approval_eq_some.mpr ⟨mem, rfl⟩
      rcases approval_of_expireLoop now sound listed 0 a.id with kept | ⟨_, b, settled, ended⟩
      · have before : db.approval a.id = some a := kept.symm.trans found
        exact cleared a (mem_expiredApprovals.mpr ⟨(approval_eq_some.mp before).1, due⟩) found
      · obtain rfl := some.inj (found.symm.trans settled)
        exact ended (of_decide_eq_true due).1
  rw [settles, loop, clears]
  refine and_congr ?_ ?_
  · simp only [mem_expiredApprovals, and_imp]
  · have nodup : (expiredApprovals db tie (unixMilli now)).Nodup := listed.nodup.of_map
    have symmetric : Std.Symm (Apart db) := ⟨fun a b apart runID own other => apart runID other own⟩
    constructor
    · intro apart a memA b memB dueA dueB differ
      exact apart.forall (mem_expiredApprovals.mpr ⟨memA, dueA⟩)
        (mem_expiredApprovals.mpr ⟨memB, dueB⟩) differ
    · intro apart
      refine nodup.pairwise_of_forall_ne fun a memA b memB differ => ?_
      obtain ⟨inA, dueA⟩ := mem_expiredApprovals.mp memA
      obtain ⟨inB, dueB⟩ := mem_expiredApprovals.mp memB
      exact apart a inA b inB dueA dueB differ

/-! ## A run that ended before its approval -/

/-- The request of a second run, of another session. -/
def secondApproval : ApprovalRequest :=
  { exampleApproval with
    runID := go "r2", sessionID := go "s2"
    principal := ⟨go "u", go "t", ⟨[⟨.tenant, go "t"⟩, ⟨.session, go "s2"⟩], by decide⟩, [], []⟩ }

/-- A run asks for an approval and waits for it. -/
def secondWaits : List RunOp := [
  .enqueue { exampleRun with runID := go "r2", sessionID := go "s2" } (4 * 10 ^ 9),
  .claim (go "w") (10 ^ 9) [] (fun _ => 0) (5 * 10 ^ 9),
  .request secondApproval 0 (5 * 10 ^ 9),
  .pauseClaim (go "r2") (go "w") 1 (5 * 10 ^ 9 + 10 ^ 6)]

def twoDaysLater : ℤ := 2 * defaultApprovalTTL

/-- The approval of a run that waits for it can be expired. -/
theorem expiry_clears_waiting :
    ∃ db, (runQueueSystem defaultConfig).Reachable db ∧
      (∃ a ∈ db.approvals.rows, a.due (unixMilli twoDaysLater) = true) ∧
      ∀ a ∈ db.approvals.rows, a.due (unixMilli twoDaysLater) = true →
        ∃ runID, Resumable db a runID := by
  obtain ⟨db, reach, due, cleared⟩ := System.exists_of_run
    (M := runQueueSystem defaultConfig) (fun _ _ _ => apply_of_tryApply) rfl
    (fun db => (∃ a ∈ db.approvals.rows, a.due (unixMilli twoDaysLater) = true) ∧
      ∀ a ∈ (expireApprovals (fun _ => 0) (some twoDaysLater) db).2.approvals.rows,
        a.due (unixMilli twoDaysLater) = false)
    secondWaits (by decide +kernel)
  exact ⟨db, reach, due, ((expiry_clears_iff reach (fun _ => 0) twoDaysLater).mp cleared).1⟩

/-- A worker finishes a run that has asked for an approval without pausing it.
Its approval is the first to expire, and the approval of another run, which
waits, is left pending. -/
theorem expiry_stopped_by_ended_run :
    ∃ db, (runQueueSystem defaultConfig).Reachable db ∧
      ∃ a ∈ (expireApprovals (fun _ => 0) (some twoDaysLater) db).2.approvals.rows,
        a.due (unixMilli twoDaysLater) = true ∧
        ∃ r ∈ db.runControl.rows, r.runID = a.runID ∧ r.sessionID = a.sessionID ∧
          r.status = .waitingApproval ∧ r.cancelRequested = false :=
  System.exists_of_run (M := runQueueSystem defaultConfig) (fun _ _ _ => apply_of_tryApply) rfl _
    (claimedAndAsked ++ [.finishClaim (go "r1") (go "w") 1 .completed .empty
    (2 * 10 ^ 9 + 10 ^ 6)] ++
      secondWaits) (by decide +kernel)

end AutoAgent.Storage
