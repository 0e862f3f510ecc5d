import AutoAgent.Storage.QueueInvariant

/-!
# Runs of one session take turns

`sqlClaimCandidate` passes over a queued run while another run of its session
runs or waits for an approval.  A run that was started leaves those two statuses
without having ended when its worker retries it, when its lease expires, and when
its approval is decided: it goes back to the queue, where the runs of the session
are claimed in the order of their due times.

**Where turns are kept.**  They are kept as long as no run enters the queue
beside another run of its session of which one has been claimed, which is
`RunOp.KeepsTurn`.  Then a claimed run that is back in the queue is the only
queued run of its session, and the next claim of the session is a claim of that
run.
-/

namespace AutoAgent.Storage

def Tracked.Claimed (s : Tracked) (runID : GoString) : Prop := ∃ c ∈ s.claims, c.runID = runID

instance (s : Tracked) (runID : GoString) : Decidable (s.Claimed runID) :=
  inferInstanceAs (Decidable (∃ c ∈ s.claims, c.runID = runID))

/-- A run that a transaction with result `db'` puts into the queue finds there no
other run of its session, unless neither of the two has been claimed. -/
def Tracked.TurnKept (s : Tracked) (db' : Database) : Prop :=
  ∀ r' ∈ db'.runControl.rows, r'.status = .queued →
    (∀ r ∈ s.runControl.rows, r.runID = r'.runID → r.status ≠ .queued) →
    ∀ o ∈ s.runControl.rows, o.sessionID = r'.sessionID → o.status = .queued →
      ¬ s.Claimed o.runID ∧ ¬ s.Claimed r'.runID

instance (s : Tracked) (db' : Database) : Decidable (s.TurnKept db') :=
  inferInstanceAs (Decidable (∀ r' ∈ db'.runControl.rows, _))

/-- The transaction puts no run into the queue beside another one of its session
of which one has been claimed.  The due times of the two do not matter: a claim passes
over a row that another transaction has locked, whatever is due first. -/
def RunOp.KeepsTurn (config : StoreConfig) (s : Tracked) (op : RunOp) : Prop :=
  ∀ db', op.apply config s.db = .ok db' → s.TurnKept db'

variable {op : RunOp} {config : StoreConfig} {db db' : Database} {s s' : Tracked}
  {id : GoString} {v v' : RunView} {r r' : RunRow}

/-- How a run comes to be queued. -/
inductive Enters (op : RunOp) (id : GoString) (v : RunView) (r' : RunRow) : Prop where
  | stays {r : RunRow} (run : v.run = some r) (same : r.SameRun r') (queued : r.status = .queued)
  | submitted (run : v.run = none) (own : op.submits = some id)
  | returns {r : RunRow} (run : v.run = some r) (same : r.SameRun r')
      (active : r.status.active)
      (own : op.submits = none)

theorem enters_of_turn (turn : Turn op id v v') (run : v'.run = some r')
    (queued : r'.status = .queued) : Enters op id v r' := by
  cases turn with
  | keep => exact .stays run (.refl r') queued
  | touch same status =>
    cases run
    exact .stays rfl same (status ▸ queued)
  | enqueue own => exact .submitted rfl own
  | release same own before =>
    cases run
    exact .returns rfl same before own
  | renew _ _ _ after | create _ after | claim _ _ after | suspend _ _ after =>
    cases run
    rw [after] at queued
    cases queued
  | stop _ _ after =>
    cases run
    rw [queued] at after
    cases after

/-- A claimed run that is queued is the only queued run of its session. -/
def Tracked.OneTurn (s : Tracked) : Prop :=
  ∀ a ∈ s.runControl.rows, ∀ b ∈ s.runControl.rows, a.sessionID = b.sessionID →
    a.status = .queued → b.status = .queued → a.runID ≠ b.runID → ¬ s.Claimed a.runID

/-- A run that is queued after a transaction was not claimed by it. -/
theorem claimed_of_step (step : (trackedSystem config).step s op s')
    (mem : r' ∈ s'.runControl.rows) (queued : r'.status = .queued)
    (claimed : s'.Claimed r'.runID) : s.Claimed r'.runID := by
  obtain ⟨applied, claims⟩ := step
  obtain ⟨c, inClaims, same⟩ := claimed
  rw [claims, List.mem_append, Option.mem_toList] at inClaims
  rcases inClaims with old | new
  · exact ⟨c, old, same⟩
  · obtain ⟨_, r, q, _, runID, _, _, running, _, view, _, status, _⟩ := claimed_spec applied new
    rw [← runID, same] at view
    obtain rfl := some.inj ((run_of_mem mem).symm.trans (congrArg RunView.run view))
    rw [status] at queued
    cases queued

/-- Two runs of a session do not enter the queue in one transaction. -/
theorem eq_of_enters_both {a b : RunRow} (session : a.sessionID = b.sessionID)
    (ha : Enters op a.runID (db.view a.runID) a) (hb : Enters op b.runID (db.view b.runID) b)
    (newA : ∀ r ∈ db.runControl.rows, r.runID = a.runID → r.status ≠ .queued)
    (newB : ∀ r ∈ db.runControl.rows, r.runID = b.runID → r.status ≠ .queued) :
    a.runID = b.runID := by
  have listed : ∀ {id r}, (db.view id).run = some r → r ∈ db.runControl.rows ∧ r.runID = id :=
    fun run => run_eq_some.mp run
  cases ha with
  | stays run same queued => exact absurd queued (newA _ (listed run).1 (listed run).2)
  | submitted _ own =>
    cases hb with
    | stays run same queued => exact absurd queued (newB _ (listed run).1 (listed run).2)
    | submitted _ own' => exact some.inj (own.symm.trans own')
    | returns _ _ _ none => rw [none] at own; cases own
  | returns run same active none =>
    cases hb with
    | stays run same queued => exact absurd queued (newB _ (listed run).1 (listed run).2)
    | submitted _ own => rw [none] at own; cases own
    | returns run' same' active' =>
      -- the session had at most one active run
      have shared := same.sessionID.symm.trans (session.trans same'.sessionID)
      have one := Table.eq_of_clash RunRow.clash_comm (listed run).1 (listed run').1
        (by simp [RunRow.clash, shared, active, active'])
      rw [same.runID, same'.runID, one]

theorem oneTurn_of_step (one : s.OneTurn) (keeps : op.KeepsTurn config s)
    (step : (trackedSystem config).step s op s') : s'.OneTurn := by
  intro a memA b memB session queuedA queuedB differ claimed
  have turnKept := keeps s'.db step.1
  have before := claimed_of_step step memA queuedA claimed
  have entersA := enters_of_turn (turn_of_apply step.1 a.runID) (run_of_mem memA) queuedA
  have entersB := enters_of_turn (turn_of_apply step.1 b.runID) (run_of_mem memB) queuedB
  by_cases newA : ∀ r ∈ s.runControl.rows, r.runID = a.runID → r.status ≠ .queued
  · by_cases newB : ∀ r ∈ s.runControl.rows, r.runID = b.runID → r.status ≠ .queued
    · exact differ (eq_of_enters_both session entersA entersB newA newB)
    · -- the other run was queued already
      push Not at newB
      obtain ⟨o, listed, same, queued⟩ := newB
      have kept := sameRun_of_apply step.1 listed memB same
      exact (turnKept a memA queuedA newA o listed (kept.sessionID.symm.trans session.symm)
        queued).2 before
  · push Not at newA
    obtain ⟨o, listed, same, queued⟩ := newA
    have kept := sameRun_of_apply step.1 listed memA same
    rw [← same] at before
    by_cases newB : ∀ r ∈ s.runControl.rows, r.runID = b.runID → r.status ≠ .queued
    · exact (turnKept b memB queuedB newB o listed (kept.sessionID.symm.trans session) queued).1
        before
    · push Not at newB
      obtain ⟨o', listed', same', queued'⟩ := newB
      have kept' := sameRun_of_apply step.1 listed' memB same'
      exact one o listed o' listed' (kept.sessionID.symm.trans (session.trans kept'.sessionID))
        queued queued' (fun eq => differ (same.symm.trans (eq.trans same'))) before

theorem oneTurn_invariant (config : StoreConfig) :
    ((trackedSystem config).restrict (RunOp.KeepsTurn config)).Invariant Tracked.OneTurn where
  init := by
    rintro _ rfl a mem
    cases mem
  step one hs := oneTurn_of_step one hs.1 hs.2

/-- In every interleaving in which no run enters the queue beside another run of
its session of which one has been claimed, a run is claimed only when every other
run of its session that was claimed before has ended. -/
theorem session_runs_take_turns {config : StoreConfig} {s : Tracked}
    (reach : ((trackedSystem config).restrict (RunOp.KeepsTurn config)).Reachable s) {op : RunOp}
    {db' : Database} (applied : op.apply config s.db = .ok db') {run : QueuedRun}
    (claimed : op.claimed s.db = some run) {a : RunRow} (mem : a ∈ s.runControl.rows)
    (session : a.sessionID = run.sessionID) (other : a.runID ≠ run.runID)
    (before : s.Claimed a.runID) : a.status.terminal = true := by
  obtain ⟨_, r, _, claimable, runID, sessionID, _⟩ := claimed_spec applied claimed
  have inactive := claimable.alone a mem (session.trans sessionID)
  have notQueued : a.status ≠ .queued := fun queued =>
    (oneTurn_invariant config).holds reach a mem r (run_eq_some.mp claimable.run).1
      (session.trans sessionID) queued claimable.queued (runID ▸ other) before
  rw [RunState.terminal, RunState.inFlight, inactive, Bool.or_false, not_eq_true',
    beq_eq_false_iff_ne]
  exact notQueued

/-! ## Two runs of one session -/

/-- Two runs of one session are enqueued, and a worker claims the first. -/
def firstOfTwo : List RunOp := [
  .enqueue exampleRun (10 ^ 9),
  .enqueue { exampleRun with runID := go "r2" } (2 * 10 ^ 9),
  .claim (go "w") (10 ^ 9) [] (fun _ => 0) (3 * 10 ^ 9)]

/-- A worker that asks for a run. -/
def nextClaim : RunOp := .claim (go "w") (10 ^ 9) [] (fun _ => 0) (4 * 10 ^ 9)

/-- A transaction that is refused when it does not keep turns. -/
def Tracked.tryTurn (s : Tracked) (op : RunOp) : Option Tracked :=
  (s.tryStep op).filter fun s' => s.TurnKept s'.db

theorem step_of_tryTurn (h : s.tryTurn op = some s') :
    ((trackedSystem defaultConfig).restrict (RunOp.KeepsTurn defaultConfig)).step s op s' := by
  obtain ⟨tried, kept⟩ := Option.filter_eq_some_iff.mp h
  have step := step_of_tryStep tried
  refine ⟨fun db' applied => ?_, step⟩
  obtain rfl := Except.ok.inj (step.1.symm.trans applied)
  exact of_decide_eq_true kept

/-- The first run has been claimed and has ended when the second is claimed. -/
theorem session_runs_take_turns_first_ended :
    let s := Tracked.after (firstOfTwo ++
      [.finishClaim (go "r1") (go "w") 1 .completed .empty (3 * 10 ^ 9 + 10 ^ 6)])
    (nextClaim.claimed s.db).map (·.runID) = some (go "r2") ∧
      ∀ a ∈ s.runControl.rows, a.runID = go "r1" → a.status.terminal = true := by
  intro s
  have reach : ((trackedSystem defaultConfig).restrict (RunOp.KeepsTurn defaultConfig)).Reachable
    s := by
    have run : (firstOfTwo ++ [RunOp.finishClaim (go "r1") (go "w") 1 .completed .empty
        (3 * 10 ^ 9 + 10 ^ 6)]).foldlM Tracked.tryTurn ⟨.empty, []⟩ = some s := rfl
    exact System.reachable_of_run (fun _ _ => step_of_tryTurn) rfl run
  refine ⟨by decide, fun a mem own => ?_⟩
  obtain ⟨run, claimed⟩ : ∃ run, nextClaim.claimed s.db = some run :=
    isSome_iff_exists.mp (by decide)
  have second : run.runID = go "r2" ∧ run.sessionID = go "s1" := by
    have both : (nextClaim.claimed s.db).map (fun run => (run.runID, run.sessionID)) =
      some (go "r2", go "s1") := by decide
    simpa [claimed] using both
  obtain ⟨db', applied⟩ : ∃ db', nextClaim.apply defaultConfig s.db = .ok db' := ⟨_, rfl⟩
  have session : ∀ a ∈ s.runControl.rows, a.sessionID = go "s1" := by decide
  refine session_runs_take_turns reach applied claimed mem
    ((session a mem).trans second.2.symm) ?_ ?_
  · rw [own, second.1]
    decide
  · rw [own]
    decide

/-- A worker that retries the first run, or an approval that is decided, puts it
back into the queue behind the second run, which is then claimed while the first
one has not ended. -/
theorem turns_lost_by_retry_and_decision :
    (∃ s, (trackedSystem defaultConfig).Reachable s ∧
      (nextClaim.claimed s.db).map (·.runID) = some (go "r2") ∧ s.Claimed (go "r1") ∧
      ∃ a ∈ s.runControl.rows, a.runID = go "r1" ∧ a.sessionID = go "s1" ∧ a.status = .queued) ∧
    (∃ s, (trackedSystem defaultConfig).Reachable s ∧
      (nextClaim.claimed s.db).map (·.runID) = some (go "r2") ∧ s.Claimed (go "r1") ∧
      (∃ a ∈ s.approvals.rows, a.runID = go "r1" ∧ a.status = .approved) ∧
      ∃ a ∈ s.runControl.rows, a.runID = go "r1" ∧ a.sessionID = go "s1" ∧
        a.status = .queued) := by
  constructor
  · exact exists_reachable (firstOfTwo ++
      [.retry (go "r1") (go "w") 1 (some (5 * 10 ^ 9)) (go "session_load_failed")
        (3 * 10 ^ 9 + 10 ^ 6)]) (by decide)
  · exact exists_reachable (firstOfTwo ++ [.request exampleApproval 0 (3 * 10 ^ 9),
        .pauseClaim (go "r1") (go "w") 1 (3 * 10 ^ 9 + 10 ^ 6),
        .decide (requestID exampleApproval) .approved (go "admin") (3 * 10 ^ 9 + 2 * 10 ^ 6)])
      (by decide +kernel)

end AutoAgent.Storage
