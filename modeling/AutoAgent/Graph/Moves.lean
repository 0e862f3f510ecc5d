import AutoAgent.Graph.Executor

/-!
# What an executor may commit

`Move` lists the commits of the executor: from which checkpoint to which, and under which
condition.

**The protocol.**  A call reads the checkpoint once.  From then on it knows a checkpoint
(`Stage`), and every commit is a move from the checkpoint it knows, expected at its
revision.  A call that has read an executing checkpoint (`found`) can only abandon it; a
call owns an executing checkpoint only after its own commit was applied (`owns`), and runs
the node at most once (`ran`), and not at all if the commit was made only to fail.
`program_follows` and `round_follows` say that `Run`, `Resume` and the rounds of `drive`
keep to this, if a store that commits answers with the checkpoint it has validated.
-/

namespace AutoAgent.Graph

open Protocol (follows_ask)

variable (digest : Digest)

/-! ## Moves -/

/-- A state that `ValidateState` or `ApplyStatePatch` has returned. -/
def Reduced (schema : StateSchema) (state : State) : Prop :=
  (∃ input, validateState schema input = .ok state) ∨
    ∃ input patch, applyStatePatch schema input patch = .ok state

/-- The commits of a call from a checkpoint, up to the revision. -/
inductive Move (call : Call) (c : Checkpoint) : Checkpoint → Prop where
  | enter {spec : NodeSpec} (ready : c.status = .ready)
      (node : findNode call.definition c.currentNodeID = some spec)
      (below : limitReached call.definition spec c = none) :
      Move call c (c.entered digest spec.id)
  | synthesize (ready : c.status = .ready) (fresh : c.attemptID = .empty ∨
      findNode call.definition c.currentNodeID = none) : Move call c (c.synthetic digest)
  | cancel (live : c.status = .ready ∨ c.status = .executing) : Move call c c.cancelled
  | fail (executing : c.status = .executing) (code : OutcomeCode) : Move call c (c.failedWith code)
  | suspend (executing : c.status = .executing) {approvalID : GoString}
      (valid : validBindingID approvalID) : Move call c (c.suspended approvalID)
  | retry {spec : NodeSpec} (executing : c.status = .executing)
      (node : findNode call.definition c.currentNodeID = some spec)
      (more : c.attempt < attempts spec) : Move call c c.retried
  | errorEdge {edge : EdgeSpec} (executing : c.status = .executing)
      (mem : edge ∈ call.definition.edges) (source : edge.source = c.currentNodeID) :
      Move call c (c.moveTo edge)
  | advance {edge : EdgeSpec} {state : State} (executing : c.status = .executing)
      (mem : edge ∈ call.definition.edges) (source : edge.source = c.currentNodeID)
      (reduced : Reduced call.definition.state state) :
      Move call c { c.moveTo edge with state }
  | complete {state : State} (executing : c.status = .executing)
      (reduced : Reduced call.definition.state state) : Move call c (c.completedWith state)
  | abandon {request : StartRequest} (executing : c.status = .executing)
      (own : call.request = .start request) (newer : c.hostGeneration < request.hostGeneration) :
      Move call c (c.abandoned request)
  | resume {request : ResumeRequest} (waiting : c.status = .waitingApproval)
      (own : call.request = .resume request) (newer : c.hostGeneration < request.hostGeneration)
      (valid : request.decision.validate = .ok ())
      (about : decisionMatches c request) : Move call c (c.resumed request)
  | deny {request : ResumeRequest} (waiting : c.status = .waitingApproval)
      (own : call.request = .resume request) (newer : c.hostGeneration < request.hostGeneration)
      (valid : request.decision.validate = .ok ())
      (about : decisionMatches c request) : Move call c (c.denied request)

/-- The first checkpoint a call may create. -/
def Initial (call : Call) (c : Checkpoint) : Prop :=
  ∃ request state, call.request = .start request ∧ request.key.validate = .ok () ∧
    validateState call.definition.state request.initialState = .ok state ∧
    c = call.initial request state

def Call.key (call : Call) : CheckpointKey :=
  match call.request with
  | .start request => request.key
  | .resume request => request.key

/-- A commit of the call from the checkpoint, expected at its revision. -/
def Tries (call : Call) (c : Checkpoint) (key : CheckpointKey) (expected : ℕ)
    (next : Checkpoint) : Prop :=
  key = c.key ∧ expected = c.revision ∧
    ∃ n, Move digest call c n ∧ next = { n with revision := c.revision + 1 }

/-! ## The protocol -/

/-- What a call knows. -/
inductive Stage where
  | fresh
  | absent
  | holds (c : Checkpoint)
  | found (c : Checkpoint)
  | owns (c : Checkpoint)
  | ran (c : Checkpoint)
  | finished

structure Phase where
  call : Call
  stage : Stage

/-- A commit to executing begins an attempt or goes on with an approved one; if not, it was
made only to fail. -/
def begins (known c : Checkpoint) : Bool :=
  decide (known.attemptID ≠ .empty) || decide (known.steps ≠ c.steps)

/-- What a call that knew a checkpoint knows after a commit. -/
def committedStage (known c : Checkpoint) (disposition : CommitDisposition) : Stage :=
  if c.status = .executing then
    if disposition = .applied then if begins known c then .owns c else .ran c else .finished
  else .holds c

/-- What a call knows after a commit, by what it knew. -/
def Stage.committed (stage : Stage) (c : Checkpoint) (disposition : CommitDisposition) : Stage :=
  match stage with
  | .holds known | .found known | .owns known | .ran known => committedStage known c disposition
  | .fresh | .absent | .finished => .finished

/-- The operations of a call, by what it knows. -/
def allows (φ : Phase) (op : Op) : Prop :=
  match op with
  | .load key => φ.stage = .fresh ∧ key = φ.call.key
  | .create c _ => φ.stage = .absent ∧ Initial φ.call c
  | .compareAndSwap key expected next _ =>
    match φ.stage with
    | .holds c => Tries digest φ.call c key expected next
    | .found c => Tries digest φ.call c key expected next ∧ next.status = .unknown
    | .owns c | .ran c => Tries digest φ.call c key expected next ∧ next.status ≠ .unknown
    | _ => False
  | .execute _ c => φ.stage = .owns c
  | .reduce .. | .evaluate .. | .test _ => True

/-- A commit is answered with the checkpoint that the store has validated, and only a
valid key is not found. -/
def answers : (op : Op) → Ans op → Prop
  | .load key, .error e => e = .notFound → key.validate = .ok ()
  | .create c _, .ok (committed, _) => validateCheckpoint c = .ok committed
  | .compareAndSwap _ _ next _, .ok (committed, _) => validateCheckpoint next = .ok committed
  | _, _ => True

/-- What a call knows after an answer. -/
def nextStage (stage : Stage) : (op : Op) → Ans op → Stage
  | .load _, .ok c => if c.status = .executing then .found c else .holds c
  | .load _, .error e => if e = .notFound then .absent else .finished
  | .create .., .ok (c, _) => .holds c
  | .create .., .error _ => .finished
  | .compareAndSwap .., .ok (c, disposition) => stage.committed c disposition
  | .compareAndSwap .., .error _ => .finished
  | .execute _ c, _ => .ran c
  | .reduce .., _ | .evaluate .., _ | .test _, _ => stage

/-- The protocol of an executor. -/
def protocol : Protocol Ans Phase where
  allows := allows digest
  answers := answers
  next φ op a := ⟨φ.call, nextStage φ.stage op a⟩

/-- An outcome without an error comes with a completed checkpoint. -/
def Reported (outcome : Outcome) : Prop :=
  outcome.2 = [] → ∃ c, outcome.1.checkpoint = some c ∧ c.status = .completed

/-- After a step, the call returns an outcome in `R`, or holds the checkpoint in `Q` that
it goes on with. -/
def Continues (R : Outcome → Prop) (Q : Checkpoint → Prop) (call : Call) (φ : Phase) : Step → Prop
  | .inl outcome => R outcome
  | .inr c => φ = ⟨call, .holds c⟩ ∧ Q c

variable {digest} {α : Type} {post : Phase → α → Prop} {call : Call} {c : Checkpoint}

/-- The program keeps to the protocol, and its outcome is reported. -/
abbrev Reports (digest : Digest) (φ : Phase) (p : Exec Outcome) : Prop :=
  (protocol digest).Follows (fun _ outcome => Reported outcome) φ p

/-- The step keeps to the protocol, and the call goes on with a checkpoint in `Q`. -/
abbrev Steps (digest : Digest) (Q : Checkpoint → Prop) (call : Call) (φ : Phase) (p : Exec Step) :
    Prop :=
  (protocol digest).Follows (Continues Reported Q call) φ p

/-- The step keeps to the protocol, and the call goes on with any checkpoint. -/
abbrev Begins (digest : Digest) (call : Call) (φ : Phase) (p : Exec Step) : Prop :=
  Steps digest (fun _ => True) call φ p

/-- The checkpoint is ready, as an executing one is left for a new attempt. -/
def Rests (executing c : Checkpoint) : Prop :=
  c.status = .ready ∧ c.attemptID = .empty ∧ c.steps = executing.steps

variable {φ : Phase}

theorem follows_test {q : Question} {f : Bool → Exec α}
    (yes : (protocol digest).Follows post φ (f true))
    (no : (protocol digest).Follows post φ (f false)) :
    (protocol digest).Follows post φ (test q >>= f) :=
  follows_ask trivial fun b _ => by cases b <;> assumption

/-- An outcome with an error is reported. -/
theorem reported_cons {result : Result} {e : ExecError} {errs : List ExecError} :
    Reported (result, e :: errs) := fun nil => by cases nil

theorem reported_failure {c : Checkpoint} {e : ExecError} : Reported (failure c e) := reported_cons

/-- A program whose result ends the call. -/
theorem steps_inl {Q : Checkpoint → Prop} {p : Exec Outcome} (h : Reports digest φ p) :
    (protocol digest).Follows (Continues Reported Q call) φ (Sum.inl <$> p) :=
  Protocol.Follows.map h

/-! ## Commits -/

/-- The checkpoint a stage commits from, and the moves it allows. -/
def Stage.commits (stage : Stage) (c next : Checkpoint) : Prop :=
  stage = .holds c ∨ stage = .found c ∧ next.status = .unknown ∨
    (stage = .owns c ∨ stage = .ran c) ∧ next.status ≠ .unknown

variable {approval : Option ApprovalEvidence} {outcome : OutcomeCode} {lease : LeaseRequest}

/-- **The specification of a commit**: a move from the known checkpoint, answered with
the committed checkpoint. -/
theorem follows_commitWithEvidence {stage : Stage} {next : Checkpoint}
    (move : Move digest call c next) (may : stage.commits c next) :
    (protocol digest).Follows (fun φ r => ∀ committed disposition,
      r = .ok (committed, disposition) →
        validateCheckpoint { next with revision := c.revision + 1 } = .ok committed ∧
          disposition.valid ∧ φ =
          ⟨call, committedStage c committed disposition⟩) ⟨call, stage⟩
      (commitWithEvidence digest c next outcome approval lease) := by
  have tries : Tries digest call c c.key c.revision { next with revision := c.revision + 1 } :=
    ⟨rfl, rfl, next, move, rfl⟩
  refine follows_test (follows_ask ?_ fun answer answered => ?_)
    fun _ _ other => by cases other
  · rcases may with rfl | ⟨rfl, unknown⟩ | ⟨rfl | rfl, known⟩
    · exact tries
    · exact ⟨tries, unknown⟩
    · exact ⟨tries, known⟩
    · exact ⟨tries, known⟩
  · match answer with
    | .error e => exact fun _ _ other => by cases other
    | .ok (committed, disposition) =>
      show (protocol digest).Follows _ _ (if disposition.valid then _ else _)
      split_ifs with valid
      · rintro _ _ ⟨⟩
        refine ⟨answered, valid, ?_⟩
        rcases may with rfl | ⟨rfl, -⟩ | ⟨rfl | rfl, -⟩ <;> rfl
      · exact fun _ _ other => by cases other

/-- A commit and what follows it. -/
theorem follows_commit {stage : Stage} {next : Checkpoint}
    {f : Except ExecError (Checkpoint × CommitDisposition) → Exec α}
    (move : Move digest call c next) (may : stage.commits c next)
    (rest : ∀ committed disposition,
      validateCheckpoint { next with revision := c.revision + 1 } = .ok committed →
      disposition.valid →
      (protocol digest).Follows post ⟨call, committedStage c committed disposition⟩
        (f (.ok (committed, disposition))))
    (failed : ∀ φ e, (protocol digest).Follows post φ (f (.error e)) := by
      exact fun _ _ => reported_failure) :
    (protocol digest).Follows post ⟨call, stage⟩
      (commitWithEvidence digest c next outcome approval lease >>= f) := by
  refine Protocol.Follows.bind ((follows_commitWithEvidence move may).mono fun φ r spec => ?_)
  match r with
  | .error e => exact failed φ e
  | .ok (committed, disposition) =>
    obtain ⟨validated, valid, rfl⟩ := spec committed disposition rfl
    exact rest committed disposition validated valid

/-- Validation changes nothing but the spelling of the state. -/
theorem eq_of_validateCheckpoint {committed next : Checkpoint}
    (h : validateCheckpoint next = .ok committed) :
    ∃ state, canonicalCheckpointState next.state = .ok state ∧
      committed = { next with state } := by
  simp only [validateCheckpoint, bind_eq_ok, mapError_eq_ok, pure_eq_ok] at h
  obtain ⟨-, -, state, canonical, rfl⟩ := h
  exact ⟨state, canonical, rfl⟩

variable {disposition : CommitDisposition} {next committed : Checkpoint} {revision : ℕ}
  (h : validateCheckpoint { next with revision } = .ok committed)

include h in
theorem committedStage_of_ne (other : next.status ≠ .executing) :
    committedStage c committed disposition = .holds committed := by
  obtain ⟨state, -, rfl⟩ := eq_of_validateCheckpoint h
  exact if_neg other

include h in
theorem committedStage_of_executing (executing : next.status = .executing)
    (valid : disposition.valid) (own : disposition ≠ .replayed) :
    committedStage c committed disposition =
      if begins c next then .owns committed else .ran committed := by
  obtain ⟨state, -, rfl⟩ := eq_of_validateCheckpoint h
  cases disposition with
  | unknown => cases valid
  | replayed => exact absurd rfl own
  | applied => rw [committedStage, if_pos executing, if_pos rfl]; rfl

/-! ## Failure and cancellation -/

/-- The call owns the executing checkpoint. -/
def Stage.Owned (stage : Stage) (c : Checkpoint) : Prop := stage = .owns c ∨ stage = .ran c

variable {stage : Stage}

theorem Stage.Owned.commits (owned : stage.Owned c) {next : Checkpoint}
    (known : next.status ≠ .unknown) : stage.commits c next :=
  .inr (.inr ⟨owned, known⟩)

theorem reports_failExecuting (owned : stage.Owned c) (executing : c.status = .executing)
    (code : OutcomeCode) : Reports digest ⟨call, stage⟩ (failExecuting digest c code) :=
  follows_commit (.fail executing code) (owned.commits nofun) fun _ _ _ _ => reported_failure

theorem reports_fail_of_executing (owned : stage.Owned c) (executing : c.status = .executing)
    (code : OutcomeCode) : Reports digest ⟨call, stage⟩ (fail digest c code) := by
  have other : c.status ≠ .ready := by rw [executing]; nofun
  rw [fail, if_neg other]
  exact reports_failExecuting owned executing code

theorem reports_fail_of_ready (ready : c.status = .ready) (fresh : c.attemptID = .empty ∨
    findNode call.definition c.currentNodeID = none) (code : OutcomeCode) :
    Reports digest ⟨call, .holds c⟩ (fail digest c code) := by
  rw [fail, if_pos ready]
  refine follows_commit (.synthesize ready fresh) (.inl rfl) ?_
  intro committed disposition validated valid
  dsimp only
  split_ifs with replayed
  · exact reported_failure
  · rw [committedStage_of_executing validated rfl valid replayed]
    obtain ⟨state, -, rfl⟩ := eq_of_validateCheckpoint validated
    refine reports_failExecuting ?_ rfl code
    split_ifs
    · exact .inl rfl
    · exact .inr rfl

theorem reported_terminalError (known : c.status ≠ .waitingApproval)
    (ended : c.status ≠ .ready ∧ c.status ≠ .executing) {suspended : Bool} :
    Reported (⟨some c, suspended⟩, terminalError c) := by
  intro nil
  refine ⟨c, rfl, ?_⟩
  cases status : c.status with
  | completed => rfl
  | ready => exact absurd status ended.1
  | executing => exact absurd status ended.2
  | waitingApproval => exact absurd status known
  | failed | cancelled | unknown => simp [terminalError, status] at nil

theorem reports_cancel (may : stage = .holds c ∨ stage.Owned c)
    (known : c.status ≠ .waitingApproval) :
    Reports digest ⟨call, stage⟩ (cancel digest c) := by
  unfold cancel
  split_ifs with ended
  · exact reported_terminalError known ended
  · have live : c.status = .ready ∨ c.status = .executing := by
      by_contra other
      exact ended (not_or.mp other)
    refine follows_commit (.cancel live) ?_ fun _ _ _ _ => reported_failure
    rcases may with rfl | owned
    · exact .inl rfl
    · exact owned.commits nofun

/-! ## Rounds -/

include h in
/-- A committed checkpoint that the call goes on with. -/
theorem steps_proceed {executing : Checkpoint} (ready : Rests executing next) :
    Steps digest (Rests executing) call ⟨call, committedStage c committed disposition⟩
      (proceed executing (.ok (committed, disposition))) := by
  have other : next.status ≠ .executing := by rw [ready.1]; nofun
  rw [committedStage_of_ne h other, proceed]
  obtain ⟨state, -, rfl⟩ := eq_of_validateCheckpoint h
  split_ifs
  · exact reported_failure
  · exact ⟨rfl, ready⟩

section

variable {e : Executor} {spec : NodeSpec} {executing : Checkpoint} (owned : stage.Owned executing)
  (status : executing.status = .executing) (own : call.executor = e)
  (node : findNode e.definition executing.currentNodeID = some spec)

theorem id_of_findNode {d : Definition} {id : GoString} (h : findNode d id = some spec) :
    spec.id = id := by
  simpa using List.find?_some h

theorem follows_reduce {φ : Phase} (state : State) (patch : StatePatch) :
    (protocol digest).Follows (fun φ' r => φ' = φ ∧
      ∀ next, r = some next → Reduced e.definition.state next) φ (reduce e state patch) := by
  unfold reduce
  split_ifs
  · exact ⟨rfl, fun next eq => .inr ⟨state, patch, toOption_eq_some.mp eq⟩⟩
  · refine follows_ask trivial fun answer _ => ?_
    match answer with
    | none => exact ⟨rfl, nofun⟩
    | some candidate => exact ⟨rfl, fun next eq => .inl ⟨candidate, toOption_eq_some.mp eq⟩⟩

/-- The selected edge is one of the edges looked at. -/
theorem follows_selectFrom {φ : Phase} {state : State} {edges all : List EdgeSpec}
    {selected fallback : Option EdgeSpec} (sub : edges ⊆ all) (first : ∀ x ∈ selected, x ∈ all)
    (last : ∀ x ∈ fallback, x ∈ all) :
    (protocol digest).Follows (fun φ' r => φ' = φ ∧ ∀ edge, r = .ok edge → edge ∈ all) φ
      (selectFrom e state edges selected fallback) := by
  induction edges generalizing selected fallback with
  | nil =>
    cases selected with
    | some x =>
      refine ⟨rfl, ?_⟩
      rintro edge ⟨⟩
      exact first _ rfl
    | none =>
      cases fallback with
      | some x =>
        refine ⟨rfl, ?_⟩
        rintro edge ⟨⟩
        exact last _ rfl
      | none => exact ⟨rfl, nofun⟩
  | cons edge edges ih =>
    have here : edge ∈ all := sub (List.mem_cons_self ..)
    have rest : edges ⊆ all := fun x mem => sub (List.mem_cons_of_mem _ mem)
    have this : ∀ x ∈ some edge, x ∈ all := by
      rintro x ⟨⟩
      exact here
    rw [selectFrom]
    split
    · exact ih rest first this
    split
    · refine follows_ask trivial fun answer _ => ?_
      match answer with
      | none => exact ⟨rfl, nofun⟩
      | some false => exact ih rest first last
      | some true =>
        split_ifs
        · exact ⟨rfl, nofun⟩
        · exact ih rest this last
    · exact ⟨rfl, nofun⟩

theorem follows_selectEdge {φ : Phase} (source : GoString) (state : State) :
    (protocol digest).Follows (fun φ' r => φ' = φ ∧
      ∀ edge, r = .ok edge → edge ∈ e.definition.edges ∧ edge.source = source) φ
      (selectEdge e source state) := by
  refine (follows_selectFrom (List.Subset.refl _) (by simp) (by simp)).mono fun φ' r spec => ?_
  refine ⟨spec.1, fun edge eq => ?_⟩
  have mem := List.mem_filter.mp (spec.2 edge eq)
  exact ⟨mem.1, (of_decide_eq_true mem.2).1⟩

include owned status own node

theorem steps_succeed (patch : StatePatch) :
    Steps digest (Rests executing) call ⟨call, stage⟩ (succeed digest e spec executing patch) := by
  subst own
  have cancelled : Steps digest (Rests executing) call ⟨call, stage⟩
      (Sum.inl <$> cancel digest executing) :=
    steps_inl (reports_cancel (.inr owned) (by rw [status]; nofun))
  refine Protocol.Follows.bind ((follows_reduce (φ := ⟨call, stage⟩) executing.state patch).mono ?_)
  rintro φ reduced ⟨rfl, valid⟩
  refine follows_test cancelled ?_
  match reduced with
  | none => exact steps_inl (reports_fail_of_executing owned status _)
  | some state =>
    have good := valid state rfl
    by_cases terminal : spec.terminal
    · simp only [terminal, if_true]
      refine follows_commit (.complete status good) (owned.commits nofun) ?_
      intro next _ validated _ _
      obtain ⟨_, -, rfl⟩ := eq_of_validateCheckpoint validated
      exact ⟨_, rfl, rfl⟩
    · simp only [terminal]
      refine Protocol.Follows.bind ((follows_selectEdge (φ := ⟨call, stage⟩) spec.id state).mono ?_)
      rintro φ selected ⟨rfl, edges⟩
      refine follows_test cancelled ?_
      match selected with
      | .error _ => exact steps_inl (reports_fail_of_executing owned status _)
      | .ok edge =>
        obtain ⟨mem, source⟩ := edges edge rfl
        rw [id_of_findNode node] at source
        exact follows_commit (.advance status mem source good) (owned.commits nofun)
          fun _ _ validated _ => steps_proceed validated ⟨rfl, rfl, rfl⟩

theorem steps_settleError (err : NodeError) :
    Steps digest (Rests executing) call ⟨call, stage⟩
      (settleError digest e spec executing err) := by
  subst own
  unfold settleError
  cases err.approvalID with
  | some approvalID =>
    dsimp only
    split_ifs with valid
    · refine follows_commit (.suspend status valid) (owned.commits nofun) fun _ _ _ _ => ?_
      exact Protocol.Follows.bind (follows_test reported_cons reported_cons)
    · exact steps_inl (reports_fail_of_executing owned status _)
  | none =>
    split_ifs with panicked again
    · exact reported_failure
    · refine follows_commit (.retry status node again.2) (owned.commits nofun)
        fun _ _ validated _ => ?_
      refine Protocol.Follows.bind
        ((steps_proceed validated ⟨rfl, rfl, rfl⟩).mono fun φ step known => ?_)
      match step with
      | .inl outcome => exact known
      | .inr next =>
        obtain ⟨rfl, ready⟩ := known
        unfold backOff
        split_ifs
        · refine follows_test ?_ ⟨rfl, ready⟩
          exact steps_inl (reports_cancel (.inl rfl) (by rw [ready.1]; nofun))
        · exact ⟨rfl, ready⟩
    · cases found : AutoAgent.Graph.errorEdge call.definition spec.id with
      | some edge =>
        have mem := List.mem_of_find?_eq_some found
        have kind := List.find?_some found
        simp only [decide_eq_true_eq] at kind
        have source := kind.1.trans (id_of_findNode node)
        exact follows_commit (.errorEdge status mem source) (owned.commits nofun)
          fun _ _ validated _ => steps_proceed validated ⟨rfl, rfl, rfl⟩
      | none => exact steps_inl (reports_fail_of_executing owned status _)

theorem steps_settle (answer : NodeAnswer) :
    Steps digest (Rests executing) call ⟨call, stage⟩ (settle digest e spec executing answer) := by
  refine follows_test ?_ (follows_test ?_ reported_failure)
  · exact steps_inl (reports_cancel (.inr owned) (by rw [status]; nofun))
  · rw [if_pos rfl]
    dsimp only
    split
    · exact steps_settleError owned status own node _
    · exact steps_succeed owned status own node _

end

section

variable {e : Executor} {spec : NodeSpec} {executing : Checkpoint}
  (status : executing.status = .executing) (own : call.executor = e)
  (node : findNode e.definition executing.currentNodeID = some spec)

include status own node

theorem steps_invoke :
    Steps digest (Rests executing) call ⟨call, .owns executing⟩
      (invoke digest e spec executing) := by
  refine follows_test ?_ (follows_test ?_ ?_)
  · exact follows_ask rfl fun answer _ => steps_settle (.inr rfl) status own node answer
  · exact steps_inl (reports_cancel (.inr (.inl rfl)) (by rw [status]; nofun))
  · exact steps_inl (reports_fail_of_executing (.inl rfl) status _)

theorem steps_perform :
    Steps digest (Rests executing) call ⟨call, .owns executing⟩
      (perform digest e spec executing) := by
  have failed : ∀ code, Steps digest (Rests executing) call ⟨call, .owns executing⟩
      (Sum.inl <$> fail digest executing code) :=
    fun code => steps_inl (reports_fail_of_executing (.inl rfl) status code)
  have invoked : Steps digest (Rests executing) call ⟨call, .owns executing⟩
      (invoke digest e spec executing) :=
    steps_invoke status own node
  unfold perform
  split_ifs
  · exact follows_test (follows_test invoked (failed _)) reported_failure
  · exact follows_test (failed _) reported_failure
  · exact follows_test invoked reported_failure
  · exact failed _

end

/-- A round that goes on has used a step, unless it went on with an approved attempt. -/
def Onward (e : Executor) (c next : Checkpoint) : Prop :=
  next.status = .ready ∧ next.attemptID = .empty ∧
    (c.attemptID = .empty ∧ c.steps < e.definition.limits.maxSteps ∧ next.steps = c.steps + 1 ∨
      c.attemptID ≠ .empty ∧ next.steps = c.steps)

theorem steps_roundReady (ready : c.status = .ready) :
    Steps digest (Onward call.executor c) call ⟨call, .holds c⟩
      (roundReady digest call.executor c) := by
  unfold roundReady
  cases found : findNode call.definition c.currentNodeID with
  | none => exact steps_inl (reports_fail_of_ready ready (.inr found) _)
  | some spec =>
    dsimp only
    cases limit : limitReached call.definition spec c with
    | some code =>
      -- only a new attempt is limited
      have fresh : c.attemptID = .empty := by
        by_contra other
        simp [limitReached, other] at limit
      exact steps_inl (reports_fail_of_ready ready (.inl fresh) _)
    | none =>
      refine follows_commit (.enter ready found limit) (.inl rfl) ?_
      intro committed disposition validated valid
      have entered : (c.entered digest spec.id).status = .executing ∧
          (c.entered digest spec.id).currentNodeID = c.currentNodeID := by
        unfold Checkpoint.entered
        split_ifs <;> exact ⟨rfl, rfl⟩
      have counted : c.attemptID = .empty ∧ (c.entered digest spec.id).steps = c.steps + 1 ∨
          c.attemptID ≠ .empty ∧ (c.entered digest spec.id).steps = c.steps := by
        unfold Checkpoint.entered
        split_ifs with fresh
        · exact .inl ⟨fresh, rfl⟩
        · exact .inr ⟨fresh, rfl⟩
      have own : begins c (c.entered digest spec.id) := by
        simp only [begins, or_eq_true, decide_eq_true_eq]
        rcases counted with ⟨-, steps⟩ | ⟨approved, -⟩
        · omega
        · exact .inl approved
      dsimp only
      split_ifs with replayed
      · exact reported_failure
      · rw [committedStage_of_executing validated entered.1 valid replayed, if_pos own]
        obtain ⟨state, -, eq⟩ := eq_of_validateCheckpoint validated
        have same : committed.status = .executing ∧ committed.currentNodeID = c.currentNodeID ∧
            committed.steps = (c.entered digest spec.id).steps := by
          rw [eq]
          exact ⟨entered.1, entered.2, rfl⟩
        refine (steps_perform same.1 rfl (by rw [same.2.1, found])).mono fun φ step h => ?_
        match step with
        | .inl outcome => exact h
        | .inr next =>
          obtain ⟨holds, status, attempt, steps⟩ := h
          refine ⟨holds, status, attempt, counted.imp ?_ ?_⟩
          · rintro ⟨fresh, step⟩
            refine ⟨fresh, ?_, (steps.trans same.2.2).trans step⟩
            by_contra reached
            simp [limitReached, fresh, Int.not_lt.mp reached] at limit
          · exact fun ⟨approved, step⟩ => ⟨approved, (steps.trans same.2.2).trans step⟩

/-- A round of a checkpoint that does not wait for an approval. -/
theorem steps_round (known : c.status ≠ .waitingApproval) :
    Steps digest (Onward call.executor c) call ⟨call, .holds c⟩ (round digest call.executor c) := by
  refine follows_test (steps_inl (reports_cancel (.inl rfl) known)) ?_
  cases status : c.status with
  | ready => exact steps_roundReady status
  | completed => exact fun _ => ⟨c, rfl, status⟩
  | executing => exact reported_failure
  | waitingApproval => exact absurd status known
  | failed | cancelled | unknown =>
    exact reported_terminalError known (by rw [status]; exact ⟨nofun, nofun⟩)

/-- **Rounds keep to the protocol.**  Only the outcome of a checkpoint that waits for an
approval may lack the error that says so. -/
theorem round_follows :
    (protocol digest).Follows (Continues (fun o => Reported o ∨ c.status = .waitingApproval)
      (Onward call.executor c) call) ⟨call, .holds c⟩ (round digest call.executor c) := by
  by_cases waiting : c.status = .waitingApproval
  · have other : c.status ≠ .ready ∧ c.status ≠ .executing := by rw [waiting]; exact ⟨nofun, nofun⟩
    refine follows_test ?_ ?_
    · rw [if_pos rfl, cancel, if_pos other]
      exact .inr waiting
    · rw [if_neg nofun, waiting]
      exact .inr rfl
  · refine (steps_round waiting).mono fun φ step h => ?_
    match step with
    | .inl outcome => exact .inl h
    | .inr next => exact h

/-! ## Run and Resume -/

section

variable {request : StartRequest} (own : call.request = .start request)

include own

theorem reports_recoverUnknown (executing : c.status = .executing)
    (may : stage = .holds c ∨ stage = .found c) :
    Reports digest ⟨call, stage⟩ (recoverUnknown digest c request) := by
  unfold recoverUnknown
  split_ifs with stale
  · exact reported_failure
  · have newer : c.hostGeneration < request.hostGeneration := by
      by_contra older
      exact stale (.inr (.inr (Nat.le_of_not_lt older)))
    refine follows_test (follows_commit (.abandon executing own newer) ?_ fun _ _ _ _ => ?_)
      reported_failure
    · exact may.imp_right fun found => .inl ⟨found, rfl⟩
    · exact Protocol.Follows.bind (follows_test reported_cons reported_cons)

theorem begins_runFrom (may : stage = .holds c ∨ stage = .found c ∧ c.status = .executing) :
    Begins digest call ⟨call, stage⟩ (runFrom digest call.executor request c) := by
  unfold runFrom
  split
  · by_cases executing : c.status = .executing
    · rw [if_pos executing]
      exact steps_inl (reports_recoverUnknown own executing (may.imp_right And.left))
    · obtain rfl := may.resolve_right fun found => executing found.2
      split_ifs
      · exact reported_failure
      · exact follows_test ⟨rfl, trivial⟩ reported_failure
      · exact ⟨rfl, trivial⟩
  · exact reported_failure

theorem follows_createInitial (known : request.key.validate = .ok ()) :
    (protocol digest).Follows (fun φ r => ∀ c, r = .ok c → φ = ⟨call, .holds c⟩) ⟨call, .absent⟩
      (createInitial digest call.executor request) := by
  unfold createInitial
  cases valid : validateState call.definition.state request.initialState with
  | error reason => exact fun _ eq => by cases eq
  | ok state =>
    refine follows_test (follows_ask ⟨rfl, request, state, own, known, valid, rfl⟩
      fun answer _ => ?_) fun _ eq => by cases eq
    match answer with
    | .error e => exact fun _ eq => by cases eq
    | .ok (created, disposition) =>
      dsimp only
      split_ifs
      · rintro _ ⟨⟩
        rfl
      · exact fun _ eq => by cases eq

theorem begins_run : Begins digest call ⟨call, .fresh⟩ (run digest call.executor request) := by
  have key : request.key = call.key := by rw [Call.key, own]
  refine follows_ask ⟨rfl, key⟩ fun answer answered => ?_
  match answer with
  | .ok c =>
    refine begins_runFrom own ?_
    show (if c.status = .executing then Stage.found c else Stage.holds c) = _ ∨
      (if c.status = .executing then Stage.found c else Stage.holds c) = _ ∧ _
    by_cases executing : c.status = .executing
    · exact .inr ⟨if_pos executing, executing⟩
    · exact .inl (if_neg executing)
  | .error err =>
    dsimp only
    by_cases absent : err = .notFound
    · subst absent
      refine follows_test (Protocol.Follows.bind ((follows_createInitial own (answered rfl)).mono
        fun φ created spec => ?_)) reported_cons
      match created with
      | .error e => exact reported_cons
      | .ok c =>
        obtain rfl := spec c rfl
        exact begins_runFrom own (.inl rfl)
    · rw [if_neg absent]
      exact reported_cons

end

variable {request : ResumeRequest}

theorem follows_authorizeApproval :
    (protocol digest).Follows (fun φ' r => φ' = φ ∧ (r = none →
      request.decision.validate = .ok () ∧ decisionMatches c request)) φ
      (authorizeApproval call.executor c request) := by
  unfold authorizeApproval
  cases valid : request.decision.validate with
  | error e => split_ifs <;> exact ⟨rfl, nofun⟩
  | ok u =>
    dsimp only
    split_ifs with available about
    · exact follows_test ⟨rfl, fun _ => ⟨rfl, about⟩⟩ ⟨rfl, nofun⟩
    · exact ⟨rfl, nofun⟩
    · exact ⟨rfl, nofun⟩

theorem steps_resolve (own : call.request = .resume request)
    (waiting : c.status = .waitingApproval) (newer : c.hostGeneration < request.hostGeneration)
    (valid : request.decision.validate = .ok ()) (about : decisionMatches c request) :
    Steps digest (fun c => c.status = .ready) call ⟨call, .holds c⟩
      (resolve digest call.executor c request) := by
  unfold resolve
  split_ifs
  case neg =>
    refine follows_commit (.deny waiting own newer valid about) (.inl rfl) fun _ _ _ _ => ?_
    exact Protocol.Follows.bind (follows_test reported_cons reported_cons)
  -- the two decisions that resume commit the same checkpoint
  all_goals
    refine follows_commit (.resume waiting own newer valid about) (.inl rfl)
      fun committed disposition validated _ => ?_
    obtain ⟨_, -, rfl⟩ := eq_of_validateCheckpoint validated
    exact ⟨rfl, rfl⟩

theorem steps_resume (own : call.request = .resume request) :
    Steps digest (fun c => c.status = .ready) call ⟨call, .fresh⟩
      (AutoAgent.Graph.resume digest call.executor request) := by
  have key : request.key = call.key := by rw [Call.key, own]
  refine follows_ask ⟨rfl, key⟩ fun answer _ => ?_
  match answer with
  | .error err => exact reported_cons
  | .ok c =>
    dsimp only
    split_ifs with same waiting stale
    · exact reported_failure
    · have holds : nextStage .fresh (.load request.key) (.ok c) = .holds c := by
        rw [nextStage, if_neg]
        rw [waiting]
        nofun
      have newer : c.hostGeneration < request.hostGeneration := by
        by_contra older
        exact stale (.inr (.inr (.inr (Nat.le_of_not_lt older))))
      refine Protocol.Follows.bind (follows_authorizeApproval.mono ?_)
      rintro φ refused ⟨rfl, authorized⟩
      match refused with
      | some err => exact reported_cons
      | none =>
        obtain ⟨valid, about⟩ := authorized rfl
        refine follows_test ?_ reported_cons
        show Steps digest (fun c => c.status = .ready) call
          ⟨call, nextStage .fresh (.load request.key) (.ok c)⟩ _
        rw [holds]
        exact steps_resolve own waiting newer valid about
    · exact reported_failure
    · exact reported_failure

/-- **Run and Resume keep to the protocol.** -/
theorem program_follows (call : Call) :
    Begins digest call ⟨call, .fresh⟩ (call.program digest) := by
  unfold Call.program
  cases own : call.request with
  | start request => exact begins_run own
  | resume request =>
    refine (steps_resume own).mono fun φ step h => ?_
    match step with
    | .inl outcome => exact h
    | .inr c => exact ⟨h.1, trivial⟩

end AutoAgent.Graph
