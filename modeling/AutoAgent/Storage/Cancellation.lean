import AutoAgent.Storage.RunTurn

/-!
# Accepted cancellations

`RequestRunCancel` flags a running run and leaves it to its worker; no other
transaction looks at the flag of a run whose worker gives it up.  So a flagged run
returns to the queue, or waits for an approval, exactly when its worker retries or
pauses it after the flag was set.
-/

namespace AutoAgent.Storage

variable {config : StoreConfig} {op : RunOp} {db : Database} {r r' : RunRow}

/-- A worker that gives up a running run finds its cancellation not requested.  A call that does
not hold the claim selects no row and leaves the database as it is; it may come at any time. -/
def RunOp.HonoursCancel (config : StoreConfig) (db : Database) (op : RunOp) : Prop :=
  op.apply config db ≠ .ok db → ∀ r ∈ db.runControl.rows, op.releases = some r.runID →
    r.status = .running → r.cancelRequested = false

/-- A flagged run is running or has ended. -/
def RunRow.CancelPending (r : RunRow) : Prop :=
  r.cancelRequested → r.status = .running ∨ r.status.terminal

theorem cancelPending_of_move (honours : op.HonoursCancel config db)
    (changes : op.apply config db ≠ .ok db) (mem : r ∈ db.runControl.rows)
    (pending : r.CancelPending) (move : RunMove op r r') : r'.CancelPending := by
  intro flagged
  cases move with
  | keep status flag =>
    rw [status]
    exact pending (flag ▸ flagged)
  | flag _ after _ => exact .inl after
  | start _ _ after _ => exact .inl after
  | release own before _ flag =>
    rw [flag, honours changes r mem own before] at flagged
    cases flagged
  | requeue _ _ _ flag | resume _ _ _ flag =>
    rw [flag] at flagged
    cases flagged
  | stop _ after => exact .inr after

theorem cancelPending_invariant (config : StoreConfig) :
    ((runQueueSystem config).restrict (RunOp.HonoursCancel config)).Invariant fun db =>
      ∀ r ∈ db.runControl.rows, r.CancelPending where
  init := by
    rintro _ rfl r mem
    cases mem
  step := by
    rintro db op db' pending ⟨honours, applied⟩ r' mem
    by_cases refused : op.apply config db = .ok db
    · obtain rfl := Except.ok.inj (refused.symm.trans applied)
      exact pending r' mem
    rcases evolves_of_apply applied r' mem with ⟨r, old, _, move⟩ | fresh
    · exact cancelPending_of_move honours refused old (pending r old) move
    · intro flagged
      rw [fresh.unflagged] at flagged
      cases flagged

/-- In every interleaving in which no worker that holds the claim retries or pauses a run whose
cancellation was requested, a run whose cancellation was requested is running or
has ended. -/
theorem cancel_never_lost {config : StoreConfig} {db : Database}
    (reach : ((runQueueSystem config).restrict (RunOp.HonoursCancel config)).Reachable db)
    {r : RunRow} (mem : r ∈ db.runControl.rows) (flagged : r.cancelRequested = true) :
    r.status = .running ∨ r.status.terminal = true :=
  (cancelPending_invariant config).holds reach r mem flagged

/-! ## A cancelled run -/

/-- The run is enqueued, claimed by a worker and then cancelled. -/
def claimThenCancel : List RunOp := [
  .enqueue exampleRun (10 ^ 9),
  .claim (go "w") (10 ^ 9) [] (fun _ => 0) (2 * 10 ^ 9),
  .cancel (go "r1") (2 * 10 ^ 9 + 10 ^ 6)]

/-- The run is then retried by a worker whose claim was not granted. -/
def refusedRetry : RunOp :=
  .retry (go "r1") (go "w2") 1 (some (3 * 10 ^ 9)) (go "late") (2 * 10 ^ 9 + 2 * 10 ^ 6)

/-- A run that is cancelled while its worker runs it, and another worker tries to give it up. -/
theorem cancel_never_lost_while_running :
    (∃ r ∈ (after (claimThenCancel ++ [refusedRetry])).runControl.rows,
      r.cancelRequested = true) ∧
      ∀ r ∈ (after (claimThenCancel ++ [refusedRetry])).runControl.rows,
        r.cancelRequested = true → r.status = .running ∨ r.status.terminal = true := by
  have run : claimThenCancel.foldlM tryApply Database.empty = some (after claimThenCancel) := rfl
  have unchanged : refusedRetry.apply defaultConfig (after claimThenCancel) =
      .ok (after (claimThenCancel ++ [refusedRetry])) := rfl
  have reach : ((runQueueSystem defaultConfig).restrict
      (RunOp.HonoursCancel defaultConfig)).Reachable
      (after claimThenCancel) := by
    refine System.reachable_of_run (fun op mem {db db'} accepted => ?_) rfl run
    refine ⟨fun _ r _ own => ?_, apply_of_tryApply accepted⟩
    simp only [claimThenCancel, List.mem_cons, List.not_mem_nil, or_false] at mem
    rcases mem with rfl | rfl | rfl <;> cases own
  have later := reach.step ⟨fun changes => absurd unchanged changes, unchanged⟩
  exact ⟨by decide, fun r mem flagged => cancel_never_lost later mem flagged⟩

/-- The worker that retries or pauses the run after it was cancelled puts it back
into the queue, or makes it wait for an approval, with the flag set. -/
theorem cancel_lost_by_retry_and_pause :
    (∃ db, (runQueueSystem defaultConfig).Reachable db ∧
      ∃ r ∈ db.runControl.rows, r.cancelRequested = true ∧ r.status = .queued) ∧
    (∃ db, (runQueueSystem defaultConfig).Reachable db ∧
      ∃ r ∈ db.runControl.rows, r.cancelRequested = true ∧ r.status = .waitingApproval) := by
  have reachable : ∀ ops : List RunOp, ops.foldlM tryApply Database.empty = some (after ops) →
      (runQueueSystem defaultConfig).Reachable (after ops) :=
    fun ops run => System.reachable_of_run (fun _ _ => apply_of_tryApply) rfl run
  constructor
  · exact ⟨_, reachable (claimThenCancel ++
      [.retry (go "r1") (go "w") 1 (some (3 * 10 ^ 9)) (go "session_load_failed")
        (2 * 10 ^ 9 + 2 * 10 ^ 6)]) rfl, by decide⟩
  · exact ⟨_, reachable (claimThenCancel ++
      [.pauseClaim (go "r1") (go "w") 1 (2 * 10 ^ 9 + 2 * 10 ^ 6)]) rfl, by decide⟩

end AutoAgent.Storage
