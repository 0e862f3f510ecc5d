import AutoAgent.Graph.Interleaving

/-!
# What Run and Resume return

A call returns nil as its error for a completed run, and an error for every other one.
The context may end at any moment; every poll of it leads to `cancel`, which has an error
for each status but two.  A completed checkpoint needs none.  A checkpoint that waits for an
approval reaches `cancel` at the first poll of `drive`, and only there.

**Transcripts.**  `Call.Returns` is one call from its first operation to what it returns,
with everything it asked and was answered.  `tells_iff_not_overlooked` says of every transcript
whether the error tells how the run stands.
-/

namespace AutoAgent.Graph

variable {digest : Digest} {call : Call} {script : List (Sigma Ans)} {outcome : Outcome}

/-- One call: its program, and the rounds it goes on with. -/
inductive Call.Returns (digest : Digest) (call : Call) :
    Exec Step → List (Sigma Ans) → Outcome → Prop where
  | done {p : Exec Step} {script : List (Sigma Ans)} {outcome : Outcome}
      (path : p.Path answers script (.inl outcome)) : Returns digest call p script outcome
  | again {p : Exec Step} {c : Checkpoint} {script rest : List (Sigma Ans)} {outcome : Outcome}
      (path : p.Path answers script (.inr c))
      (later : Returns digest call (round digest call.executor c) rest outcome) :
      Returns digest call p (script ++ rest) outcome

/-- The error is nil for a completed checkpoint only, and a checkpoint that waits for an
approval comes with an error. -/
def Tells (outcome : Outcome) : Prop :=
  Reported outcome ∧
    ∀ c, outcome.1.checkpoint = some c → c.status = .waitingApproval → outcome.2 ≠ []

theorem tells_iff : Tells outcome ↔ Reported outcome := by
  refine ⟨And.left, fun reported => ⟨reported, fun c same waiting nil => ?_⟩⟩
  obtain ⟨c', same', completed⟩ := reported nil
  rw [same] at same'
  cases same'
  rw [waiting] at completed
  cases completed

/-! ## Rounds -/

variable {c : Checkpoint}

/-- The rounds of a checkpoint that does not wait for an approval. -/
theorem Call.Returns.reported
    (h : call.Returns digest (round digest call.executor c) script outcome)
    (known : c.status ≠ .waitingApproval) : Reported outcome := by
  generalize same : round digest call.executor c = p at h
  induction h generalizing c with
  | done path =>
    subst same
    have follows : Steps digest _ call _ _ := steps_round known
    obtain ⟨φ, reported⟩ := follows.of_path path
    exact reported
  | again path _ ih =>
    subst same
    have follows : Steps digest _ call _ _ := steps_round known
    obtain ⟨φ, -, ready⟩ := follows.of_path path
    exact ih (by rw [ready.1]; nofun) rfl

/-- The only round of a checkpoint that waits for an approval. -/
theorem Call.Returns.of_waiting
    (h : call.Returns digest (round digest call.executor c) script outcome)
    (waiting : c.status = .waitingApproval) :
    script = [⟨.test .ended, true⟩] ∧ outcome = (⟨some c, false⟩, []) ∨
      script ≠ [⟨.test .ended, true⟩] ∧
        outcome = (⟨some c, true⟩, [.approvalPending c.pendingApprovalID]) := by
  have other : c.status ≠ .ready ∧ c.status ≠ .executing := by simp [waiting]
  have silent : terminalError c = [] := by rw [terminalError, waiting]
  -- what the round returns, by the answer of the context
  have round : ∀ {script step}, (round digest call.executor c).Path answers script step →
      script = [⟨.test .ended, true⟩] ∧ step = .inl (⟨some c, false⟩, []) ∨
        script = [⟨.test .ended, false⟩] ∧
          step = .inl (⟨some c, true⟩, [.approvalPending c.pendingApprovalID]) := by
    intro script step path
    obtain ⟨ended, rest, rfl, -, path⟩ := path.exists_of_ask
    cases ended with
    | true =>
      rw [if_pos rfl, cancel, if_pos other, silent] at path
      cases path
      exact .inl ⟨rfl, rfl⟩
    | false =>
      rw [if_neg Bool.false_ne_true, waiting] at path
      cases path
      exact .inr ⟨rfl, rfl⟩
  cases h with
  | done path =>
    rcases round path with ⟨rfl, eq⟩ | ⟨rfl, eq⟩
    · exact .inl ⟨rfl, Sum.inl.inj eq⟩
    · exact .inr ⟨by simp, Sum.inl.inj eq⟩
  | again path _ =>
    rcases round path with ⟨-, eq⟩ | ⟨-, eq⟩
    · cases eq
    · cases eq

/-! ## Where a waiting checkpoint comes from -/

variable {request : StartRequest} {e : Executor}

theorem path_runFrom_inr {c next : Checkpoint}
    (path : (runFrom digest e request c).Path answers script (.inr next)) :
    next = c ∧ (c.status = .waitingApproval → frozen e c ∧ script = []) := by
  unfold runFrom at path
  by_cases same : frozen e c
  · split_ifs at path with executing stale ready
    · obtain ⟨_, -, other⟩ := path.exists_of_map
      cases other
    · cases path
    · obtain ⟨verified, rest, rfl, -, path⟩ := path.exists_of_ask
      cases verified with
      | true =>
        cases path
        exact ⟨rfl, fun waiting => by rw [ready] at waiting; cases waiting⟩
      | false =>
        cases path
    · cases path
      exact ⟨rfl, fun _ => ⟨same, rfl⟩⟩
  · rw [if_neg same] at path
    cases path

theorem path_createInitial_ok
    (path : (createInitial digest e request).Path answers script (.ok c)) :
    c.status = .ready := by
  unfold createInitial at path
  cases valid : validateState e.definition.state request.initialState with
  | error reason =>
    rw [valid] at path
    cases path
  | ok state =>
    rw [valid] at path
    obtain ⟨verified, rest, rfl, -, path⟩ := path.exists_of_ask
    cases verified with
    | false =>
      cases path
    | true =>
      obtain ⟨answer, rest, rfl, answered, path⟩ := path.exists_of_ask
      match answer with
      | .error e =>
        cases path
      | .ok (created, disposition) =>
        dsimp only at path
        split_ifs at path
        · cases path
          obtain ⟨state, -, rfl⟩ := eq_of_validateCheckpoint answered
          rfl
        · cases path

theorem path_run_waiting (waiting : c.status = .waitingApproval)
    (path : (run digest e request).Path answers script (.inr c)) :
    frozen e c ∧ script = [⟨.load request.key, .ok c⟩] := by
  obtain ⟨answer, rest, rfl, -, path⟩ := path.exists_of_ask
  match answer with
  | .ok loaded =>
    obtain ⟨rfl, spec⟩ := path_runFrom_inr path
    obtain ⟨same, rfl⟩ := spec waiting
    exact ⟨same, rfl⟩
  | .error err =>
    -- a checkpoint that was created is ready
    dsimp only at path
    split_ifs at path
    · obtain ⟨verified, _, rfl, -, path⟩ := path.exists_of_ask
      cases verified with
      | false =>
        cases path
      | true =>
        obtain ⟨_, created, _, rfl, creation, path⟩ := path.exists_of_bind
        match created with
        | .error err =>
          cases path
        | .ok first =>
          obtain ⟨rfl, -⟩ := path_runFrom_inr path
          rw [path_createInitial_ok creation] at waiting
          cases waiting
    · cases path

/-- **Only Run goes on with a checkpoint that waits for an approval**, and only with the
one it has just loaded. -/
theorem path_program_waiting (waiting : c.status = .waitingApproval)
    (path : (call.program digest).Path answers script (.inr c)) :
    ∃ request, call.request = .start request ∧ frozen call.executor c ∧
      script = [⟨.load request.key, .ok c⟩] := by
  unfold Call.program at path
  cases own : call.request with
  | start request =>
    rw [own] at path
    exact ⟨request, rfl, path_run_waiting waiting path⟩
  | resume request =>
    rw [own] at path
    have follows : Steps digest _ call _ _ := steps_resume own
    obtain ⟨φ, -, ready⟩ := follows.of_path path
    rw [ready] at waiting
    cases waiting

/-! ## Whole calls -/

/-- The call is a Run of a checkpoint that waits for an approval, and the context ends
after it was loaded. -/
def Overlooked (call : Call) (script : List (Sigma Ans)) : Prop :=
  ∃ request c, call.request = .start request ∧ frozen call.executor c ∧
    c.status = .waitingApproval ∧ script = [⟨.load request.key, .ok c⟩, ⟨.test .ended, true⟩]

/-- A Run that loads a waiting checkpoint goes on with it at once. -/
theorem eq_of_path_load {step : Step} {more rest : List (Sigma Ans)}
    (own : call.request = .start request) (same : frozen call.executor c)
    (waiting : c.status = .waitingApproval) (path : (call.program digest).Path answers script step)
    (split : script ++ more = ⟨.load request.key, .ok c⟩ :: rest) :
    script = [⟨.load request.key, .ok c⟩] ∧ step = .inr c := by
  unfold Call.program at path
  rw [own] at path
  obtain ⟨answer, later, rfl, -, path⟩ := path.exists_of_ask
  obtain ⟨rfl⟩ : answer = .ok c := by
    have heads := (List.cons.inj split).1
    exact eq_of_heq (Sigma.mk.inj heads).2
  have other : c.status ≠ .executing ∧ c.status ≠ .ready := by rw [waiting]; exact ⟨nofun, nofun⟩
  dsimp only at path
  rw [runFrom, if_pos same, if_neg other.1, if_neg (fun stale => stale.1 waiting),
    if_neg other.2] at path
  cases path
  exact ⟨rfl, rfl⟩

/-- **The error tells how the run stands**, except when the context of a Run ends between the
load of a checkpoint that waits for an approval and the first poll of `drive`. -/
theorem tells_iff_not_overlooked
    (h : call.Returns digest (call.program digest) script outcome) :
    Tells outcome ↔ ¬Overlooked call script := by
  rw [tells_iff]
  cases h with
  | done path =>
    obtain ⟨φ, reported⟩ := (program_follows call).of_path path
    refine iff_of_true reported ?_
    rintro ⟨request, c, own, same, waiting, rfl⟩
    obtain ⟨-, other⟩ := eq_of_path_load own same waiting path (List.append_nil _)
    cases other
  | @again _ c first rest _ path later =>
    by_cases waiting : c.status = .waitingApproval
    · obtain ⟨request, own, same, rfl⟩ := path_program_waiting waiting path
      rcases later.of_waiting waiting with ⟨rfl, rfl⟩ | ⟨unended, rfl⟩
      · refine iff_of_false (fun reported => ?_) fun other => other ?_
        · obtain ⟨_, ⟨⟩, completed⟩ := reported rfl
          rw [waiting] at completed
          cases completed
        · exact ⟨request, c, own, same, waiting, rfl⟩
      · refine iff_of_true reported_cons ?_
        rintro ⟨_, _, _, _, _, split⟩
        exact unended (List.cons.inj split).2
    · refine iff_of_true (later.reported waiting) ?_
      rintro ⟨request, c', own, same, waits, split⟩
      obtain ⟨-, eq⟩ := eq_of_path_load own same waits path split
      cases eq
      exact waiting waits

/-- The checkpoint of the graph of one node that waits for an approval. -/
def oneWaiting : Checkpoint :=
  { oneNodeExecutor.initial ⟨⟨oneKey, go "seg", 1⟩, ∅⟩ ∅ with
    status := .waitingApproval
    attempt := 1
    attemptID := go "a"
    steps := 1
    revision := 3
    pendingApprovalID := go "approval" }

/-- The context of a Run of it ends after the load. -/
def oneScript : List (Sigma Ans) := [⟨.load oneKey, .ok oneWaiting⟩, ⟨.test .ended, true⟩]

theorem returns_oneScript :
    oneCall.Returns zeroDigest (oneCall.program zeroDigest) oneScript
      (⟨some oneWaiting, false⟩, []) := by
  have same : frozen oneNodeExecutor oneWaiting := by decide +kernel
  have path : (oneCall.program zeroDigest).Path answers [⟨.load oneKey, .ok oneWaiting⟩]
      (.inr oneWaiting) := by
    refine .perform trivial ?_
    show Prog.Path answers (runFrom zeroDigest oneNodeExecutor _ oneWaiting) [] _
    exact .ret _
  exact .again path (.done (.perform trivial (.ret _)))

/-- A Run returns nil and a checkpoint that waits for an approval. -/
theorem not_tells_oneScript :
    oneCall.Returns zeroDigest (oneCall.program zeroDigest) oneScript
      (⟨some oneWaiting, false⟩, []) ∧
      ¬Tells (⟨some oneWaiting, false⟩, []) :=
  ⟨returns_oneScript, fun tells => tells.2 oneWaiting rfl rfl rfl⟩

theorem tells_iff_not_overlooked_oneScript :
    Tells (⟨some oneWaiting, false⟩, []) ↔ ¬Overlooked oneCall oneScript :=
  tells_iff_not_overlooked returns_oneScript

/-! ## The loop ends -/

/-- The last round, one for each step that is left, and one for an attempt that is resumed. -/
def roundsLeft (d : Definition) (c : Checkpoint) : ℕ :=
  (d.limits.maxSteps - c.steps).toNat + if c.attemptID = .empty then 1 else 2

theorem Onward.roundsLeft_eq {e : Executor} {next : Checkpoint} (h : Onward e c next) :
    roundsLeft e.definition c = roundsLeft e.definition next + 1 := by
  unfold roundsLeft
  obtain ⟨-, fresh, used | resumed⟩ := h
  · rw [if_pos fresh, if_pos used.1]
    omega
  · rw [if_pos fresh, if_neg resumed.1, resumed.2]

theorem follows_drive (digest : Digest) (call : Call) (c : Checkpoint) :
    (protocol digest).Follows (fun _ outcome => outcome.isSome) ⟨call, .holds c⟩
      (drive digest call.executor (roundsLeft call.definition c) c) := by
  generalize left : roundsLeft call.definition c = rounds
  induction rounds generalizing c with
  | zero =>
    unfold roundsLeft at left
    split_ifs at left
  | succ rounds ih =>
    refine .bind (round_follows.mono fun φ step h => ?_)
    cases step with
    | inl outcome => exact rfl
    | inr next =>
      obtain ⟨rfl, onward⟩ := h
      exact ih next (Nat.succ.inj (onward.roundsLeft_eq.symm.trans left))

/-- The call knows a checkpoint, or has ended. -/
def Stage.Loaded (stage : Stage) : Prop := stage ≠ .fresh ∧ stage ≠ .absent

theorem Stage.loaded_committed (stage : Stage) (c : Checkpoint) (d : CommitDisposition) :
    (stage.committed c d).Loaded := by
  have loaded : ∀ known, (committedStage known c d).Loaded := by
    intro known
    unfold committedStage
    split_ifs <;> exact ⟨nofun, nofun⟩
  cases stage with
  | holds known | found known | owns known | ran known => exact loaded known
  | fresh | absent | finished => exact ⟨nofun, nofun⟩

theorem Stage.Loaded.next {stage : Stage} {op : Op} (a : Ans op) (h : stage.Loaded)
    (allowed : allows digest ⟨call, stage⟩ op) : (nextStage stage op a).Loaded := by
  cases op with
  | load => exact absurd allowed.1 h.1
  | create => exact absurd allowed.1 h.2
  | compareAndSwap =>
    cases a with
    | error => exact ⟨nofun, nofun⟩
    | ok answer => exact stage.loaded_committed ..
  | execute => exact ⟨nofun, nofun⟩
  | reduce | evaluate | test => exact h

/-- **The loop of `drive` ends**, if the store answers every successful commit with the
checkpoint as `ValidateCheckpoint` returns it; everything else may be answered in any way.  The
executor goes on with the checkpoint it is answered and does not look at it. -/
theorem drive_returns (digest : Digest) (call : Call) (c : Checkpoint)
    (answer : List (Sigma Ans) → (op : Op) → Ans op)
    (commits : ∀ past key expected next t committed disposition,
      answer past (.compareAndSwap key expected next t) = .ok (committed, disposition) →
        validateCheckpoint next = .ok committed) :
    ∃ outcome, (drive digest call.executor (roundsLeft call.definition c) c).result
      answer [] = some outcome := by
  have answered : ∀ {φ : Phase} {op : Op} past, φ.stage.Loaded → allows digest φ op →
      answers op (answer past op) := by
    intro φ op past loaded allowed
    cases op with
    | load => exact absurd allowed.1 loaded.1
    | create => exact absurd allowed.1 loaded.2
    | compareAndSwap key expected next t =>
      have committed := commits past key expected next t
      generalize answer past (.compareAndSwap key expected next t) = a at committed
      cases a with
      | error => trivial
      | ok a => exact committed a.1 a.2 rfl
    | execute | reduce | evaluate | test => trivial
  obtain ⟨φ, returned⟩ := (follows_drive digest call c).result (I := fun φ => φ.stage.Loaded)
    ⟨nofun, nofun⟩ (fun a loaded allowed => loaded.next a allowed) answered []
  exact Option.isSome_iff_exists.mp returned

/-- An executor that tries its node twice. -/
def twiceExecutor : Executor :=
  { oneNodeExecutor with
    definition := { oneNode with nodes := [{ lastNode with retry := ⟨2, 0⟩ }] } }

/-- The store commits what it has validated, the node fails each time, and the context never
ends. -/
def failingNode (_ : List (Sigma Ans)) : (op : Op) → Ans op
  | .load _ | .create .. => .error .notFound
  | .compareAndSwap _ _ next _ => (validateCheckpoint next).map (·, .applied)
  | .execute .. => ⟨.error ⟨none, false, true, false⟩, false⟩
  | .reduce .. | .evaluate .. => none
  | .test q =>
    match q with
    | .ended | .endedInBackoff => false
    | _ => true

def twiceCall : Call := ⟨twiceExecutor, .start ⟨⟨oneKey, go "seg", 1⟩, ∅⟩⟩

def firstCheckpoint : Checkpoint := twiceExecutor.initial ⟨⟨oneKey, go "seg", 1⟩, ∅⟩ ∅

/-- The loop retries the node once and returns the failed checkpoint, within six rounds. -/
theorem drive_returns_failed :
    roundsLeft twiceExecutor.definition firstCheckpoint = 6 ∧
      (∃ outcome, (drive zeroDigest twiceExecutor 6 firstCheckpoint).result failingNode [] =
        some outcome) ∧
      ((drive zeroDigest twiceExecutor 6 firstCheckpoint).result failingNode []).bind
        (fun outcome => outcome.1.checkpoint.map fun c => (c.status, c.steps)) =
          some (.failed, 2) := by
  refine ⟨rfl, drive_returns zeroDigest twiceCall firstCheckpoint failingNode ?_, by decide +kernel⟩
  intro past key expected next t committed disposition answered
  obtain ⟨c, validated, same⟩ := map_eq_ok.mp answered
  cases same
  exact validated

end AutoAgent.Graph
