import AutoAgent.Storage.RunTurn

/-!
# The invariant of the run queue

The run queue is two tables that a dozen transactions write under different
guards.  This module states what holds between them in every reachable state,
and what a worker that has lost its claim can still do, which is nothing.

**The history of claims.**  Whether a claim is stale depends on the claims made
since, so the system here carries the list of all claims beside the database.
The list is only an observation: no transaction reads it.

**How it is proved.**  `RunView.Sound` is the invariant of one run, and a turn
keeps it.  The generation of a queue row never decreases while the row exists,
and the row exists until the run has ended; so the claims of a run are numbered
in the order in which they were made.
-/

namespace AutoAgent.Storage

open List RunView

/-! ## The system with its claims -/

def RunOp.claimed (db : Database) : RunOp → Option QueuedRun
  | .claim workerID leaseTTL locked tie now =>
    match claimRun workerID leaseTTL locked tie now db with
    | .ok (.claimed run, _) => some run
    | _ => none
  | _ => none

/-- The database, and the claims made so far, the latest last. -/
structure Tracked extends db : Database where
  claims : List QueuedRun

/-- The control plane with its claims. -/
def trackedSystem (config : StoreConfig) : System Tracked RunOp where
  init s := s = ⟨.empty, []⟩
  step s op s' := op.apply config s.db = .ok s'.db ∧
    s'.claims = s.claims ++ (op.claimed s.db).toList

variable {op : RunOp} {config : StoreConfig} {db db' : Database} {s s' : Tracked}
  {id : GoString} {v v' : RunView}

variable {run : QueuedRun}

/-- A claim is one of a row that may be claimed. -/
theorem claimed_spec (h : op.apply config db = .ok db') (claimed : op.claimed db = some run) :
    ∃ now r q, Claimable db now r q ∧ run.runID = r.runID ∧ run.sessionID = r.sessionID ∧
      run.generation = q.generation + 1 ∧
      ∃ r' q', db'.view r.runID = ⟨some r', some q'⟩ ∧ r.SameRun r' ∧ r'.status = .running ∧
        q'.generation = q.generation + 1 ∧ q'.workerID = run.workerID := by
  cases op with
  | claim workerID leaseTTL locked tie now =>
    obtain ⟨answer, ran, rfl⟩ := map_eq_ok.mp h
    rw [RunOp.claimed, ran] at claimed
    rcases claimRun_spec ran with ⟨_, none_claimed⟩ | ⟨r, q, run', claimable, outcome, spec⟩
    · split at claimed
      next _ _ isClaim => exact absurd (congrArg Prod.fst (Except.ok.inj isClaim)) (none_claimed _)
      next => cases claimed
    · obtain ⟨outcome', db'⟩ := answer
      obtain rfl : outcome' = .claimed run' := outcome
      obtain rfl : run' = run := some.inj claimed
      obtain ⟨sameRun, sameSession, worker, generation, sets⟩ := spec
      refine ⟨_, r, q, claimable, sameRun, sameSession, generation, _, _,
        (sets.view r.runID).trans (if_pos rfl), ?_⟩
      exact ⟨⟨rfl, rfl, rfl, rfl, rfl⟩, rfl, rfl, worker.symm⟩
  | _ => cases claimed

/-! ## One run -/

/-- What holds between the rows of one run. -/
structure RunView.Sound (v : RunView) : Prop where
  /-- a queue row has a run -/
  owned : ∀ {q}, v.queue = some q → ∃ r, v.run = some r
  /-- a run that is queued or waits has a queue row that no worker holds -/
  idle : ∀ {r}, v.run = some r → r.status = .queued ∨ r.status = .waitingApproval →
    ∃ q, v.queue = some q ∧ q.Idle
  /-- a run that has ended has no queue row -/
  ended : ∀ {r}, v.run = some r → r.status.terminal → v.queue = none

variable {r : RunRow}

theorem RunView.sound_none : (⟨none, none⟩ : RunView).Sound where
  owned row := by cases row
  idle run := by cases run
  ended run := by cases run

theorem RunView.sound_of_running {q : Option QueueRow} (running : r.status = .running) :
    (⟨some r, q⟩ : RunView).Sound where
  owned _ := ⟨r, rfl⟩
  idle run waits := by
    cases run
    rw [running] at waits
    rcases waits with waits | waits <;> cases waits
  ended run ends := by
    cases run
    rw [running] at ends
    cases ends

variable {q : QueueRow}

theorem RunView.sound_of_idle (waits : r.status = .queued ∨ r.status = .waitingApproval)
    (idle : q.Idle) :
    (⟨some r, some q⟩ : RunView).Sound where
  owned _ := ⟨r, rfl⟩
  idle _ _ := ⟨q, rfl, idle⟩
  ended run ends := by
    cases run
    rcases waits with waits | waits <;>
    · rw [waits] at ends
      cases ends

/-- A turn keeps the invariant of its run. -/
theorem sound_of_turn (turn : Turn op id v v') (sound : v.Sound) : v'.Sound := by
  cases turn with
  | keep => exact sound
  | touch same status =>
    refine ⟨fun _ => ⟨_, rfl⟩, fun run waits => ?_, fun run ends => ?_⟩
    · cases run
      exact sound.idle rfl (status ▸ waits)
    · cases run
      exact sound.ended rfl (status ▸ ends)
  | renew _ _ _ after | create _ after | claim _ _ after => exact sound_of_running after
  | enqueue own after idle => exact sound_of_idle (.inl after) idle
  | suspend same before after idle => exact sound_of_idle (.inr after) idle
  | release same own before after idle => exact sound_of_idle after idle
  | stop same before after =>
    refine ⟨fun row => (Option.some_ne_none _ row.symm).elim, fun run waits => ?_, fun _ _ => rfl⟩
    cases run
    rcases waits with waits | waits <;>
    · rw [waits] at after
      cases after

/-- A run keeps its identity, and its status once it has ended. -/
theorem run_of_turn (turn : Turn op id v v') (run : v.run = some r) :
    ∃ r', v'.run = some r' ∧ r.SameRun r' ∧ (r.status.terminal → r'.status = r.status) := by
  -- a move other than these starts from a run that has not ended
  have live : ∀ {r r' : RunRow}, r.status.inFlight → r.status.terminal →
      r'.status = r.status := by
    intro r r' inFlight ends
    rw [RunState.terminal, inFlight] at ends
    cases ends
  cases turn with
  | keep => exact ⟨r, run, .refl r, fun _ => rfl⟩
  | touch same status =>
    cases run
    exact ⟨_, rfl, same, fun _ => status⟩
  | create | enqueue => cases run
  | renew _ same before | suspend same before =>
    cases run
    exact ⟨_, rfl, same, live (inFlight_of_running before)⟩
  | claim same before =>
    cases run
    exact ⟨_, rfl, same, live (by rw [before]; rfl)⟩
  | release same own before =>
    cases run
    exact ⟨_, rfl, same, live (by rw [RunState.inFlight, before, Bool.or_true])⟩
  | stop same before =>
    cases run
    exact ⟨_, rfl, same, live before⟩

/-- A run that is there before and after a transaction keeps its identity. -/
theorem sameRun_of_apply (h : op.apply config db = .ok db') {r r' : RunRow}
    (old : r ∈ db.runControl.rows) (new : r' ∈ db'.runControl.rows) (same : r.runID = r'.runID) :
    r.SameRun r' := by
  obtain ⟨kept, found, sameRun, _⟩ := run_of_turn (turn_of_apply h r.runID) (run_of_mem old)
  have row : db'.run r.runID = some r' := same ▸ run_of_mem new
  obtain rfl : kept = r' := some.inj (found.symm.trans row)
  exact sameRun

/-- A queue row stays until its run has ended, and its generation does not
decrease. -/
theorem generation_of_turn (turn : Turn op id v v') (row : v.queue = some q) :
    (∃ q', v'.queue = some q' ∧ q.generation ≤ q'.generation) ∨
      ∃ r', v'.run = some r' ∧ r'.status.terminal := by
  cases turn with
  | keep | touch | create => exact .inl ⟨q, row, le_rfl⟩
  | renew =>
    cases row
    exact .inl ⟨_, rfl, le_rfl⟩
  | enqueue | suspend => cases row
  | claim same before after queue next =>
    cases row
    exact .inl ⟨_, rfl, by rw [next]; exact Int.le_add_one le_rfl⟩
  | release same own before after idle generation =>
    cases row
    exact .inl ⟨_, rfl, generation.ge⟩
  | stop same before after => exact .inr ⟨_, rfl, after⟩

/-! ## Claims in order -/

/-- The run of a claim has ended, or its queue row has that generation or a later
one. -/
def Numbered (db : Database) (run : QueuedRun) : Prop :=
  ∃ r, db.run run.runID = some r ∧
    (r.status.terminal ∨ ∃ q, db.queue run.runID = some q ∧ run.generation ≤ q.generation)

theorem numbered_of_apply (h : op.apply config db = .ok db') (numbered : Numbered db run) :
    Numbered db' run := by
  obtain ⟨r, found, later⟩ := numbered
  have turn := turn_of_apply h run.runID
  obtain ⟨r', found', same, kept⟩ := run_of_turn turn found
  refine ⟨r', found', ?_⟩
  rcases later with ends | ⟨q, row, le⟩
  · exact .inl (by rw [kept ends]; exact ends)
  · rcases generation_of_turn turn row with ⟨q', row', le'⟩ | ⟨r'', found'', ends⟩
    · exact .inr ⟨q', row', le.trans le'⟩
    · obtain rfl : r' = r'' := some.inj (found'.symm.trans found'')
      exact .inl ends

/-- The claims of one run are numbered in the order in which they are made. -/
def ClaimsOrdered (claims : List QueuedRun) : Prop :=
  claims.Pairwise fun c c' => c.runID = c'.runID → c.generation < c'.generation

/-- What holds in every reachable state. -/
structure Tracked.Sound (s : Tracked) : Prop where
  views : ∀ id, (s.view id).Sound
  numbered : ∀ c ∈ s.claims, Numbered s.db c
  ordered : ClaimsOrdered s.claims

/-- A run that is claimed has a generation above those of its earlier claims. -/
theorem Tracked.Sound.generation_lt (sound : s.Sound) (h : op.apply config s.db = .ok db')
    (claimed : op.claimed s.db = some run) {c : QueuedRun} (mem : c ∈ s.claims)
    (same : c.runID = run.runID) : c.generation < run.generation := by
  obtain ⟨now, r, q, claimable, runID, _, generation, _⟩ := claimed_spec h claimed
  obtain ⟨r', found, later⟩ := sound.numbered c mem
  rw [same, runID, claimable.run] at found
  cases found
  rcases later with ends | ⟨q', row, le⟩
  · rw [claimable.queued] at ends
    cases ends
  · rw [same, runID, claimable.queue] at row
    cases row
    omega

theorem sound_invariant (config : StoreConfig) :
    (trackedSystem config).Invariant Tracked.Sound where
  init := by
    rintro _ rfl
    refine ⟨fun id => sound_none, fun c mem => ?_, .nil⟩
    cases mem
  step := by
    rintro s op s' sound ⟨applied, claims⟩
    refine ⟨fun id => sound_of_turn (turn_of_apply applied id) (sound.views id), ?_, ?_⟩
    · intro c mem
      rw [claims, mem_append, Option.mem_toList] at mem
      rcases mem with old | new
      · exact numbered_of_apply applied (sound.numbered c old)
      · obtain ⟨_, r, q, _, runID, _, generation, r', q', view, _, _, next, _⟩ :=
          claimed_spec applied new
        rw [← runID] at view
        exact ⟨r', congrArg RunView.run view,
          .inr ⟨q', congrArg RunView.queue view, by rw [generation, next]⟩⟩
    · rw [claims]
      refine pairwise_append.mpr ⟨sound.ordered, ?_, fun c mem run new same => ?_⟩
      · cases op.claimed s.db with
        | none => exact .nil
        | some run => exact pairwise_singleton _ _
      · exact sound.generation_lt applied (Option.mem_toList.mp new) mem same

/-! ## Stale claims -/

/-- What a worker shows when it acts on a claim. -/
structure Credential where
  runID : GoString
  workerID : GoString
  generation : ℤ
  now : ℤ

/-- The credential of `RenewRunClaim`, `RetryRunClaim`, `PauseRunClaim` and
`FinishRunClaim`. -/
def RunOp.credential : RunOp → Option Credential
  | .renew runID workerID generation _ now | .retry runID workerID generation _ _ now
  | .pauseClaim runID workerID generation now | .finishClaim runID workerID generation _ _ now =>
    some ⟨runID, workerID, generation, now⟩
  | _ => none

variable {c : Credential}

/-- A worker whose credential is not the one of the queue row, or whose lease has
expired, changes nothing. -/
theorem eq_of_not_held (shown : op.credential = some c) (h : op.apply config db = .ok db')
    (lost : ∀ q, db.queue c.runID = some q →
      q.heldBy c.runID c.workerID c.generation (unixMilli c.now) = false) : db' = db := by
  have refused : ∀ {answer : Bool × Database} {P : RunRow → QueueRow → Prop},
      (answer = (false, db) ∨ ∃ r q,
        Held db c.runID c.workerID c.generation (unixMilli c.now) r q ∧ P r q) → answer.2 = db := by
    rintro answer P (rfl | ⟨r, q, held, _⟩)
    · rfl
    · have free := lost q (congrArg RunView.queue held.view)
      rw [held.held] at free
      cases free
  cases op with
  | renew =>
    cases shown
    obtain ⟨_, ran, rfl⟩ := map_eq_ok.mp h
    exact refused (renewRunClaim_spec ran)
  | retry runID workerID generation availableAt errorCode now =>
    cases shown
    obtain ⟨_, ran, rfl⟩ := map_eq_ok.mp h
    simp only [retryRunClaim, bind_eq_ok] at ran
    obtain ⟨_, _, ran⟩ := ran
    split at ran
    · cases ran
    · exact refused (releaseClaim_spec (fun _ => rfl) ran)
  | pauseClaim =>
    cases shown
    obtain ⟨_, ran, rfl⟩ := map_eq_ok.mp h
    simp only [pauseRunClaim, bind_eq_ok] at ran
    obtain ⟨_, _, ran⟩ := ran
    exact refused (releaseClaim_spec (fun _ => rfl) ran)
  | finishClaim =>
    cases shown
    obtain ⟨_, ran, rfl⟩ := map_eq_ok.mp h
    exact refused (finishRunClaim_spec ran)
  | _ => cases shown

/-- The run was claimed under this credential and has been claimed again since. -/
def Tracked.Superseded (s : Tracked) (c : Credential) : Prop :=
  ∃ first later, [first, later].Sublist s.claims ∧ first.runID = c.runID ∧
    first.workerID = c.workerID ∧ first.generation = c.generation ∧ later.runID = c.runID

def LeaseExpired (db : Database) (c : Credential) : Prop :=
  ∀ q ∈ db.runQueue.rows, q.runID = c.runID → q.leaseExpiresAt ≤ unixMilli c.now

theorem Tracked.Sound.not_held_of_superseded (sound : s.Sound) (superseded : s.Superseded c)
    (row : s.queue c.runID = some q) :
    q.heldBy c.runID c.workerID c.generation (unixMilli c.now) = false := by
  obtain ⟨first, later, both, same, _, generation, same'⟩ := superseded
  have lt : first.generation < later.generation :=
    rel_of_pairwise_cons (sound.ordered.sublist both) (mem_singleton_self _)
      (same.trans same'.symm)
  obtain ⟨r, found, above⟩ := sound.numbered later (both.subset (by simp))
  rw [same'] at found above
  -- the run still has a queue row, so it has not ended
  have live : r.status.terminal ≠ true := by
    intro ends
    have gone := (sound.views c.runID).ended found ends
    rw [Database.view, row] at gone
    cases gone
  obtain ⟨q', row', le⟩ := above.resolve_left live
  obtain rfl : q = q' := some.inj (row.symm.trans row')
  rw [eq_false_iff, ne_eq, QueueRow.heldBy_iff]
  omega

theorem not_held_of_leaseExpired (expired : LeaseExpired db c) (row : db.queue c.runID = some q) :
    q.heldBy c.runID c.workerID c.generation (unixMilli c.now) = false := by
  obtain ⟨mem, same⟩ := queue_eq_some.mp row
  have past := expired q mem same
  rw [eq_false_iff, ne_eq, QueueRow.heldBy_iff]
  omega

/-! ## The invariant -/

/-- The laws of the run queue in a state with its claims, and of every
transaction from there. -/
structure QueueLaws (config : StoreConfig) (s : Tracked) : Prop where
  /-- no run leaves a terminal status -/
  absorbing : ∀ {op : RunOp} {db' : Database}, op.apply config s.db = .ok db' →
    ∀ r ∈ s.runControl.rows, r.status.terminal →
      ∃ r' ∈ db'.runControl.rows, r'.runID = r.runID ∧ r'.status = r.status
  /-- a run that is queued or waits has one queue row, which no worker holds -/
  idle : ∀ r ∈ s.runControl.rows, r.status = .queued ∨ r.status = .waitingApproval →
    s.runQueue.count (·.hasID r.runID) = 1 ∧ ∀ q ∈ s.runQueue.rows, q.runID = r.runID →
      q.workerID = .empty ∧ q.leaseExpiresAt = 0
  /-- a run that has ended has no queue row -/
  ended : ∀ r ∈ s.runControl.rows, r.status.terminal →
    s.runQueue.count (·.hasID r.runID) = 0
  /-- a claim increases the generation of the queue row -/
  increases : ∀ {op : RunOp} {db' : Database} {run : QueuedRun},
    op.apply config s.db = .ok db' → op.claimed s.db = some run →
    ∃ q ∈ s.runQueue.rows, ∃ q' ∈ db'.runQueue.rows, q.runID = run.runID ∧
      q'.runID = run.runID ∧ q.generation < q'.generation ∧ q'.generation = run.generation
  /-- so the claims of a run are numbered in the order in which they were made -/
  ordered : ClaimsOrdered s.claims
  /-- at most one run of a session runs or waits for an approval -/
  single : ∀ sessionID,
    s.runControl.count (fun r => r.sessionID == sessionID && r.status.active) ≤ 1
  /-- a worker whose claim is stale or whose lease has expired changes nothing -/
  fenced : ∀ {op : RunOp} {db' : Database} {c : Credential},
    op.apply config s.db = .ok db' → op.credential = some c → s.Superseded c ∨
    LeaseExpired s.db c → db' = s.db

/-- In every interleaving of transactions the run queue keeps its laws. -/
theorem run_queue_laws {config : StoreConfig} {s : Tracked}
    (reach : (trackedSystem config).Reachable s) : QueueLaws config s := by
  have sound := (sound_invariant config).holds reach
  -- the rows of a run, counted
  have counted : ∀ id, s.runQueue.count (·.hasID id) =
      if (s.queue id).isSome then 1 else 0 := fun id => Table.count_key
  constructor
  case absorbing =>
    intro op db' applied r mem ends
    obtain ⟨r', found, same, kept⟩ := run_of_turn (turn_of_apply applied r.runID) (run_of_mem mem)
    exact ⟨r', (run_eq_some.mp found).1, same.runID, kept ends⟩
  case idle =>
    intro r mem waits
    obtain ⟨q, row, idle⟩ := (sound.views r.runID).idle (run_of_mem mem) waits
    have found : s.queue r.runID = some q := row
    refine ⟨by rw [counted, found]; rfl, fun q' mem' same => ?_⟩
    obtain rfl := some.inj (found.symm.trans (queue_eq_some.mpr ⟨mem', same⟩))
    exact idle
  case ended =>
    intro r mem ends
    have gone : s.queue r.runID = none := (sound.views r.runID).ended (run_of_mem mem) ends
    rw [counted, gone]
    rfl
  case increases =>
    intro op db' run applied claimed
    obtain ⟨_, r, q, claimable, runID, _, generation, r', q', view, _, _, next, _⟩ :=
      claimed_spec applied claimed
    obtain ⟨mem, same⟩ := queue_eq_some.mp claimable.queue
    obtain ⟨mem', same'⟩ := queue_eq_some.mp (congrArg RunView.queue view)
    exact ⟨q, mem, q', mem', same.trans runID.symm, same'.trans runID.symm, by omega,
      next.trans generation.symm⟩
  case ordered => exact sound.ordered
  case single =>
    intro sessionID
    refine Table.count_le_one fun a b ha hb => ?_
    simp only [and_eq_true, beq_iff_eq] at ha hb
    simp [RunRow.clash, ha, hb]
  case fenced =>
    intro op db' c applied shown stale
    refine eq_of_not_held shown applied fun q row => ?_
    rcases stale with superseded | expired
    · exact sound.not_held_of_superseded superseded row
    · exact not_held_of_leaseExpired expired row

/-! ## A run that is claimed twice -/

/-- A transaction that may be refused, with the claim it makes. -/
def Tracked.tryStep (s : Tracked) (op : RunOp) : Option Tracked :=
  (tryApply s.db op).map fun db => ⟨db, s.claims ++ (op.claimed s.db).toList⟩

def Tracked.after (ops : List RunOp) : Tracked :=
  (ops.foldlM Tracked.tryStep ⟨.empty, []⟩).getD ⟨.empty, []⟩

theorem step_of_tryStep (h : s.tryStep op = some s') :
    (trackedSystem defaultConfig).step s op s' := by
  obtain ⟨db, applied, rfl⟩ := map_eq_some_iff.mp h
  exact ⟨apply_of_tryApply applied, rfl⟩

theorem reachable_after (ops : List RunOp)
    (accepted : (ops.foldlM Tracked.tryStep ⟨.empty, []⟩).isSome) :
    (trackedSystem defaultConfig).Reachable (Tracked.after ops) := by
  obtain ⟨s, run⟩ := isSome_iff_exists.mp accepted
  rw [Tracked.after, run]
  exact System.reachable_of_run (fun _ _ => step_of_tryStep) rfl run

/-- Some transactions lead to a state with a property that can be computed. -/
theorem exists_reachable {P : Tracked → Prop} [DecidablePred P] (ops : List RunOp)
    (meets : (ops.foldlM Tracked.tryStep ⟨.empty, []⟩).any (fun s => P s)) :
    ∃ s, (trackedSystem defaultConfig).Reachable s ∧ P s :=
  System.exists_of_run (fun _ => step_of_tryStep) rfl P ops meets

/-- A worker claims the run and is lost; another worker claims it again. -/
def reclaimed : List RunOp := [
  .enqueue exampleRun (10 ^ 9),
  .claim (go "w1") (10 ^ 9) [] (fun _ => 0) (2 * 10 ^ 9),
  .recover [] (some (4 * 10 ^ 9)),
  .claim (go "w2") (10 ^ 9) [] (fun _ => 0) (5 * 10 ^ 9)]

/-- The first worker of a run that was claimed twice can no longer finish it. -/
theorem run_queue_laws_reclaimed :
    (Tracked.after reclaimed).claims.map (·.generation) = [1, 2] ∧
      ∀ db', (RunOp.finishClaim (go "r1") (go "w1") 1 .completed .empty (5 * 10 ^ 9)).apply
        defaultConfig (Tracked.after reclaimed).db = .ok db' →
        db' = (Tracked.after reclaimed).db := by
  have claims : (Tracked.after reclaimed).claims.map
      (fun c => (c.runID, c.workerID, c.generation)) =
      [(go "r1", go "w1", 1), (go "r1", go "w2", 2)] := by decide
  have reach : (trackedSystem defaultConfig).Reachable (Tracked.after reclaimed) :=
    reachable_after _ (by decide)
  refine ⟨by decide, fun db' applied => ?_⟩
  refine (run_queue_laws reach).fenced applied rfl (.inl ?_)
  obtain ⟨first, rest, both, isFirst, more⟩ := map_eq_cons_iff.mp claims
  obtain ⟨later, tail, rfl, isLater, _⟩ := map_eq_cons_iff.mp more
  simp only [Prod.mk.injEq] at isFirst isLater
  refine ⟨first, later, ?_, isFirst.1, isFirst.2.1, isFirst.2.2, isLater.1⟩
  rw [both]
  exact ((nil_sublist tail).cons_cons later).cons_cons first

/-- **In every later state** a run is still there with the identity it was submitted with and
the outcome it ended with, and a worker whose claim was superseded changes nothing. -/
theorem runs_stay (reach : (trackedSystem config).Reachable s)
    (later : ((trackedSystem config).after s).Reachable s') :
    (∀ r ∈ s.runControl.rows, ∃ r' ∈ s'.runControl.rows, r.SameRun r' ∧
      (r.status.terminal = true → r'.status = r.status)) ∧
    ∀ {op : RunOp} {c : Credential} {db' : Database}, s.Superseded c → op.credential = some c →
      op.apply config s'.db = .ok db' → db' = s'.db := by
  have sound := (sound_invariant config).holds (reach.after later)
  suffices kept : _ ∧ s.claims.Sublist s'.claims by
    refine ⟨kept.1, fun stale shown applied => eq_of_not_held shown applied fun q row => ?_⟩
    obtain ⟨first, second, both, own⟩ := stale
    exact sound.not_held_of_superseded ⟨first, second, both.trans kept.2, own⟩ row
  clear sound
  induction later with
  | init h => exact h ▸ ⟨fun r mem => ⟨r, mem, .refl r, fun _ => rfl⟩, .refl _⟩
  | step _ h ih =>
    refine ⟨fun r mem => ?_, ih.2.trans (h.2 ▸ sublist_append_left ..)⟩
    obtain ⟨r', mem', same, kept⟩ := ih.1 r mem
    obtain ⟨r'', found, same', kept'⟩ := run_of_turn (turn_of_apply h.1 r'.runID) (run_of_mem mem')
    refine ⟨r'', (run_eq_some.mp found).1, ⟨same'.runID.trans same.runID,
      same'.sessionID.trans same.sessionID, same'.tenantID.trans same.tenantID,
      same'.subjectID.trans same.subjectID, same'.createdAt.trans same.createdAt⟩, fun ends => ?_⟩
    exact (kept' (by rwa [kept ends])).trans (kept ends)

theorem runs_stay_reclaimed : let s := Tracked.after reclaimed
    ∃ s' : Tracked, s'.runQueue.rows = [] ∧ ∀ r ∈ s.runControl.rows,
      ∃ r' ∈ s'.runControl.rows, r.SameRun r' ∧
        (r.status.terminal = true → r'.status = r.status) := by
  obtain ⟨s', later, done⟩ := System.exists_of_run (fun _ => step_of_tryStep)
    (M := (trackedSystem defaultConfig).after (.after reclaimed)) rfl (·.runQueue.rows = [])
    [.finishClaim (go "r1") (go "w2") 2 .completed .empty (5 * 10 ^ 9)] (by decide)
  exact ⟨s', done, (runs_stay (reachable_after _ (by decide)) later).1⟩

end AutoAgent.Storage
