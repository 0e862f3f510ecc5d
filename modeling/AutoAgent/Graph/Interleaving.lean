import AutoAgent.Graph.Moves

/-!
# Concurrent calls on one checkpoint

Any number of `Run` and `Resume` calls share the checkpoint of one key.  They take turns
operation by operation, in any order; a call that gets no further turn has crashed.  The
answers of the context, the lease, the authorizers, the planner and the nodes are free,
and every call has an executor of its own.

**The audit.**  Beside the record of the store, the shared state keeps what happened, the
newest first: which call found an executing checkpoint, tried to commit, committed, ran a
node.  `Coherent` relates these facts to the record and to what each call knows.  It is kept
by every operation the protocol allows (`coherent_kept`), and `executions_audited` reads
the guarantees off it.

**Why nothing runs twice.**  Lease checks are not atomic with the swap, and a commit that
repeats another is answered as a replay.  What is left are revisions: a commit is applied
only to the checkpoint its call knows, so two commits never have one revision, and only the
call whose commit was applied owns the executing checkpoint.
-/

namespace AutoAgent.Graph

open List

open Function (update update_idem update_of_ne update_self)

variable (digest : Digest)

/-! ## The shared state -/

structure Commit where
  call : ℕ
  previous : Option Checkpoint
  next : Checkpoint
  transition : Transition

/-- The commit began an attempt, or went on with an approved one. -/
def Commit.Begun (m : Commit) : Prop := ∃ c, m.previous = some c ∧ begins c m.next

inductive Fact where
  | found (call : ℕ) (c : Checkpoint)
  | tried (call : ℕ) (next : Checkpoint)
  | committed (commit : Commit)
  | ran (call : ℕ) (c : Checkpoint)

def Fact.call : Fact → ℕ
  | .found call _ | .tried call _ | .ran call _ => call
  | .committed commit => commit.call

/-- The applied commits, the newest first. -/
def commits (facts : List Fact) : List Commit :=
  facts.filterMap fun
    | .committed commit => some commit
    | _ => none

/-- The record of the key, and what happened. -/
structure Shared where
  record : Option Record
  facts : List Fact

/-- What the environment answers. -/
inductive Choice where
  | store (env : StoreEnv)
  | answer (yes : Bool)
  | node (answer : NodeAnswer)
  | reduced (state : Option State)
  | matched (result : Option Bool)

/-- The shared state after a commit was tried, and its answer. -/
def Shared.settle (s : Shared) (call : ℕ) (next : Checkpoint) (t : Transition)
    (result : Except StoreError (Checkpoint × CommitDisposition × Record)) :
    Except StoreError (Checkpoint × CommitDisposition) × Shared :=
  let tried := .tried call next :: s.facts
  match result with
  | .error e => (.error e, { s with facts := tried })
  | .ok (c, disposition, r) =>
    (.ok (c, disposition),
      if disposition = .applied then
        { record := some r
          facts := .committed ⟨call, s.record.map Record.checkpoint, c, t⟩ :: tried }
      else { s with facts := tried })

/-- The operations on the shared state. -/
def handle (s : Shared) (call : ℕ) (op : Op) (choice : Choice) : Option (Ans op × Shared) :=
  match op, choice with
  | .load key, .store env =>
    let answer := load env s.record key
    some (answer, match answer with
      | .ok c => if c.status = .executing then { s with facts := .found call c :: s.facts } else s
      | .error _ => s)
  | .create c t, .store env => some (s.settle call c t (create digest env s.record c t))
  | .compareAndSwap key expected next t, .store env =>
    some (s.settle call next t (compareAndSwap digest env s.record key expected next t))
  | .execute _ c, .node answer => some (answer, { s with facts := .ran call c :: s.facts })
  | .reduce .., .reduced state => some (state, s)
  | .evaluate .., .matched result => some (result, s)
  | .test _, .answer yes => some (yes, s)
  | _, _ => none

/-- A step of a call, with the call. -/
def tag (call : Call) (step : Step) : Outcome ⊕ (Call × Checkpoint) :=
  step.map id fun c => (call, c)

/-- The calls that satisfy a condition, on one record. -/
def pool (served : Call → Prop) :
    Pool Ans Shared { call // served call } Choice (Outcome ⊕ (Call × Checkpoint)) where
  program request := tag request.1 <$> request.1.program digest
  again
    | .inl _ => none
    | .inr (call, c) => some (tag call <$> round digest call.executor c)
  handle := handle digest

/-- The system of calls, from a store without the key. -/
def system (served : Call → Prop) := (pool digest served).system ⟨none, []⟩

/-! ## Moves and statuses -/

section

variable {digest} {call : Call} {c n : Checkpoint}

theorem status_entered (id : GoString) : (c.entered digest id).status = .executing := by
  unfold Checkpoint.entered
  split_ifs <;> rfl

theorem hostGeneration_entered (id : GoString) :
    (c.entered digest id).hostGeneration = c.hostGeneration := by
  unfold Checkpoint.entered
  split_ifs <;> rfl

variable (move : Move digest call c n)

include move

/-- A move never goes to an older generation. -/
theorem Move.generation_le : c.hostGeneration ≤ n.hostGeneration := by
  cases move with
  | enter ready node below => rw [hostGeneration_entered]
  | abandon executing own newer => exact newer.le
  | resume waiting own newer valid about => exact newer.le
  | deny waiting own newer valid about => exact newer.le
  | _ => exact le_rfl

/-- A move starts from a checkpoint that is ready, executing or waiting. -/
theorem Move.not_terminal : c.status.terminal = false := by
  have live : c.status = .ready ∨ c.status = .executing ∨ c.status = .waitingApproval := by
    cases move <;> tauto
  rcases live with h | h | h <;> rw [h] <;> rfl

/-- Only a ready checkpoint becomes executing. -/
theorem Move.ready (h : n.status = .executing) : c.status = .ready := by
  cases move with
  | enter ready node below => exact ready
  | synthesize ready fresh => exact ready
  | _ => cases h

/-- Only an executing checkpoint becomes unknown, by a strictly newer generation. -/
theorem Move.newer (h : n.status = .unknown) :
    c.status = .executing ∧ c.hostGeneration < n.hostGeneration := by
  cases move with
  | enter ready node below =>
    rw [status_entered] at h
    cases h
  | abandon executing own newer => exact ⟨executing, newer⟩
  | _ => cases h

end

/-! ## The store -/

section

variable {digest} {env : StoreEnv} {record : Option Record} {c committed : Checkpoint}
  {t : Transition} {disposition : CommitDisposition} {r : Record}

/-- Only a valid key is not found. -/
theorem answers_load (env : StoreEnv) (record : Option Record) (key : CheckpointKey) :
    answers (.load key) (load env record key) := by
  cases found : load env record key with
  | ok c => trivial
  | error e =>
    rintro rfl
    cases valid : key.validate with
    | ok => rfl
    | error reason =>
      unfold load at found
      rw [valid] at found
      cases cancelled : env.cancelled <;> rw [cancelled] at found <;> cases found

/-- What `Create` commits: the first checkpoint, or what is there already. -/
theorem create_eq_ok (h : create digest env record c t = .ok (committed, disposition, r)) :
    validateCheckpoint c = .ok committed ∧
      (disposition = .applied ∧ record = none ∧ r = ⟨committed, [t]⟩ ∨
        disposition = .replayed ∧ ∃ old, record = some old ∧ old.checkpoint = committed) := by
  simp only [create, bind_eq_ok] at h
  obtain ⟨-, -, valid, validated, -, -, -, -, -, -, h⟩ := h
  cases record with
  | none =>
    simp only [bind_eq_ok, pure_eq_ok, Prod.mk.injEq] at h
    obtain ⟨-, -, -, -, rfl, rfl, rfl⟩ := h
    exact ⟨validated, .inl ⟨rfl, rfl, rfl⟩⟩
  | some old =>
    dsimp only at h
    split_ifs at h with same
    simp only [pure_eq_ok, Prod.mk.injEq] at h
    obtain ⟨rfl, rfl, -⟩ := h
    exact ⟨validated.trans (congrArg Except.ok same.1.symm), .inr ⟨rfl, old, rfl, rfl⟩⟩

/-- What `CompareAndSwap` commits: a successor of the expected revision, or what is there
already. -/
theorem compareAndSwap_eq_ok {key : CheckpointKey} {expected : ℕ} {next : Checkpoint}
    (h : compareAndSwap digest env record key expected next t = .ok (committed, disposition, r)) :
    validateCheckpoint next = .ok committed ∧ ∃ old, record = some old ∧
      (disposition = .applied ∧ old.checkpoint.revision = expected ∧
          r = ⟨committed, old.transitions ++ [t]⟩ ∨
        disposition = .replayed ∧ old.checkpoint = committed) := by
  simp only [compareAndSwap, bind_eq_ok] at h
  obtain ⟨-, -, -, -, valid, validated, -, -, -, -, -, -, h⟩ := h
  cases record with
  | none => cases h
  | some old =>
    dsimp only at h
    split_ifs at h with moved same
    · simp only [pure_eq_ok, Prod.mk.injEq] at h
      obtain ⟨rfl, rfl, -⟩ := h
      exact ⟨validated.trans (congrArg Except.ok same.2.1.symm), old, rfl, .inr ⟨rfl, rfl⟩⟩
    · simp only [swap, bind_eq_ok, pure_eq_ok, Prod.mk.injEq] at h
      obtain ⟨-, -, -, -, -, -, -, -, -, -, -, -, rfl, rfl, rfl⟩ := h
      exact ⟨validated, old, rfl, .inl ⟨rfl, not_not.mp moved, rfl⟩⟩

end

/-! ## Chains of commits -/

/-- A commit follows those before it. -/
def Linked (served : Call → Prop) (m : Commit) : List Commit → Prop
  | [] => m.previous = none ∧
      ∃ call n, served call ∧ Initial call n ∧ validateCheckpoint n = .ok m.next
  | last :: _ => m.previous = some last.next ∧
      (∃ call n, served call ∧ Move digest call last.next n ∧
        validateCheckpoint { n with revision := last.next.revision + 1 } = .ok m.next) ∧
      (last.next.status = .executing → m.next.status = .unknown ∨ m.call = last.call)

/-- Every commit follows those before it. -/
def Chain (served : Call → Prop) : List Commit → Prop
  | [] => True
  | m :: older => Linked digest served m older ∧ Chain served older

section

variable {digest} {served : Call → Prop} {m : Commit}

theorem Chain.revision {older : List Commit} (chain : Chain digest served (m :: older)) :
    m.next.revision = older.length + 1 := by
  induction older generalizing m with
  | nil =>
    obtain ⟨-, call, n, -, ⟨request, state, -, -, -, rfl⟩, validated⟩ := chain.1
    obtain ⟨canonical, -, eq⟩ := eq_of_validateCheckpoint validated
    rw [eq]
    rfl
  | cons last older ih =>
    obtain ⟨-, ⟨call, n, -, -, validated⟩, -⟩ := chain.1
    obtain ⟨canonical, -, eq⟩ := eq_of_validateCheckpoint validated
    rw [eq]
    show last.next.revision + 1 = _
    rw [ih chain.2, length_cons]

theorem Chain.revision_le {l : List Commit} (chain : Chain digest served l) (mem : m ∈ l) :
    m.next.revision ≤ l.length := by
  induction l with
  | nil => cases mem
  | cons a older ih =>
    rcases mem_cons.mp mem with rfl | later
    · exact chain.revision.le
    · exact (ih chain.2 later).trans (Nat.le_succ _)

/-- Two commits never have one revision. -/
theorem Chain.unique {m m' : Commit} {l : List Commit} (chain : Chain digest served l) (mem : m ∈ l)
    (mem' : m' ∈ l) (same : m.next.revision = m'.next.revision) : m = m' := by
  induction l with
  | nil => cases mem
  | cons a older ih =>
    have newest := chain.revision
    rcases mem_cons.mp mem with rfl | later <;> rcases mem_cons.mp mem' with rfl | later'
    · rfl
    · have below := chain.2.revision_le later'
      omega
    · have below := chain.2.revision_le later
      omega
    · exact ih chain.2 later later'

end

/-! ## The invariant -/

/-- What is true of a call that knows something. -/
def Known (facts : List Fact) (i : ℕ) : Stage → Prop
  | .fresh | .absent => ∀ f ∈ facts, f.call ≠ i
  | .holds c => (∃ m ∈ commits facts, m.next = c) ∧ c.status ≠ .executing
  | .found c => (∃ m ∈ commits facts, m.next = c) ∧ c.status = .executing ∧
      ∀ m ∈ commits facts, m.call ≠ i
  | .owns c => c.status = .executing ∧ (∃ m ∈ commits facts, (m.call = i ∧ m.next = c) ∧ m.Begun) ∧
      ∀ j c', .ran j c' ∈ facts → c'.revision ≠ c.revision
  | .ran c => c.status = .executing ∧ ∃ m ∈ commits facts, m.call = i ∧ m.next = c
  | .finished => True

/-- A call that found an executing checkpoint has it, has abandoned it, or is over. -/
def FinderStage (c : Checkpoint) (stage : Stage) : Prop :=
  stage = .found c ∨ (∃ c', stage = .holds c' ∧ c'.status = .unknown) ∨ stage = .finished

/-- The commit says that the outcome of a checkpoint is unknown, for a newer generation. -/
def Commit.GivesUp (m : Commit) (c : Checkpoint) : Prop :=
  m.previous = some c ∧ m.next.status = .unknown ∧ c.hostGeneration < m.next.hostGeneration

/-- What a call that found an executing checkpoint does: it runs nothing, and commits at
most that the outcome is unknown. -/
def Abandons (facts : List Fact) (i : ℕ) (c : Checkpoint) : Prop :=
  (∀ c', .ran i c' ∉ facts) ∧ ∀ m ∈ commits facts, m.call = i → m.GivesUp c

/-- A commit that was tried is the first one or a move from a committed checkpoint. -/
def Justified (served : Call → Prop) (facts : List Fact) (next : Checkpoint) : Prop :=
  ∃ call, served call ∧ (Initial call next ∨
    ∃ m ∈ commits facts, ∃ n, Move digest call m.next n ∧
      next = { n with revision := m.next.revision + 1 })

/-- The facts, the record and what the calls know fit together. -/
structure Coherent (served : Call → Prop) (s : Shared) (phases : ℕ → Option Phase) : Prop where
  admitted : ∀ {i φ}, phases i = some φ → served φ.call
  silent : ∀ {i}, phases i = none → ∀ f ∈ s.facts, f.call ≠ i
  known : ∀ {i φ}, phases i = some φ → Known s.facts i φ.stage
  chain : Chain digest served (commits s.facts)
  record : s.record = (commits s.facts).head?.map fun m =>
    ⟨m.next, ((commits s.facts).map Commit.transition).reverse⟩
  tried : ∀ {i next}, .tried i next ∈ s.facts → Justified digest served s.facts next
  runs : ∀ {i c older}, .ran i c :: older <:+ s.facts →
    (∃ m ∈ commits older, (m.call = i ∧ m.next = c) ∧ m.Begun) ∧
      ∀ j c', .ran j c' ∈ older → c'.revision ≠ c.revision
  ranExecuting : ∀ {i c}, .ran i c ∈ s.facts → c.status = .executing
  finders : ∀ {i c}, .found i c ∈ s.facts → Abandons s.facts i c ∧
    ∃ φ, phases i = some φ ∧ FinderStage c φ.stage

section

variable {digest} {served : Call → Prop} {s : Shared} {phases : ℕ → Option Phase} {i : ℕ}
  {call : Call} {stage : Stage}

@[simp] theorem commits_committed (m : Commit) (facts : List Fact) :
    commits (.committed m :: facts) = m :: commits facts := rfl

@[simp] theorem commits_found (i : ℕ) (c : Checkpoint) (facts : List Fact) :
    commits (.found i c :: facts) = commits facts := rfl

@[simp] theorem commits_tried (i : ℕ) (c : Checkpoint) (facts : List Fact) :
    commits (.tried i c :: facts) = commits facts := rfl

@[simp] theorem commits_ran (i : ℕ) (c : Checkpoint) (facts : List Fact) :
    commits (.ran i c :: facts) = commits facts := rfl

variable {facts : List Fact} {m : Commit}

theorem mem_commits :
    m ∈ commits facts ↔ .committed m ∈ facts := by
  simp only [commits, mem_filterMap]
  constructor
  · rintro ⟨f, mem, eq⟩
    cases f <;> simp_all
  · intro mem
    exact ⟨_, mem, rfl⟩

variable {f : Fact}

/-- A fact about another call takes nothing from what a call knows, unless its node is
run. -/
theorem Known.add (h : Known facts i stage) (other : f.call ≠ i)
    (apart : ∀ j c c', f = .ran j c' → stage = .owns c → c'.revision ≠ c.revision) :
    Known (f :: facts) i stage := by
  have older : ∀ {p : Commit → Prop}, (∃ m ∈ commits facts, p m) →
    ∃ m ∈ commits (f :: facts), p m := by
    rintro p ⟨m, mem, holds⟩
    exact ⟨m, mem_commits.mpr (mem_cons_of_mem _ (mem_commits.mp mem)), holds⟩
  cases stage with
  | fresh | absent =>
    intro g mem
    rcases mem_cons.mp mem with rfl | old
    · exact other
    · exact h g old
  | holds c => exact ⟨older h.1, h.2⟩
  | found c =>
    refine ⟨older h.1, h.2.1, fun m mem => ?_⟩
    rcases mem_cons.mp (mem_commits.mp mem) with rfl | old
    · exact other
    · exact h.2.2 m (mem_commits.mpr old)
  | owns c =>
    refine ⟨h.1, older h.2.1, fun j c' mem => ?_⟩
    rcases mem_cons.mp mem with rfl | old
    · exact apart j c c' rfl rfl
    · exact h.2.2 j c' old
  | ran c => exact ⟨h.1, older h.2⟩
  | finished => trivial

variable {stage' : Stage}

theorem phase_update {φ o : Option Phase} {j : ℕ} :
    update phases i φ j = o ↔ j = i ∧ φ = o ∨ j ≠ i ∧ phases j = o := by
  rcases eq_or_ne j i with rfl | other
  · simp
  · simp [other]

variable {next : Checkpoint}

theorem Justified.add (h : Justified digest served facts next) (f : Fact) :
    Justified digest served (f :: facts) next := by
  obtain ⟨call, ok, first | ⟨m, mem, move⟩⟩ := h
  · exact ⟨call, ok, .inl first⟩
  · exact ⟨call, ok, .inr ⟨m, mem_commits.mpr (mem_cons_of_mem _ (mem_commits.mp mem)), move⟩⟩

theorem Abandons.add {c : Checkpoint} (h : Abandons facts i c) (runs : ∀ c', f ≠ .ran i c')
    (commit : ∀ m, f = .committed m → m.call = i → m.GivesUp c) : Abandons (f :: facts) i c := by
  refine ⟨fun c' ran => ?_, fun m mem call => ?_⟩
  · rcases mem_cons.mp ran with new | old
    · exact runs c' new.symm
    · exact h.1 c' old
  · rcases mem_cons.mp (mem_commits.mp mem) with new | old
    · exact commit m new.symm call
    · exact h.2 m (mem_commits.mpr old) call

/-- What a call holds after a commit was answered. -/
theorem known_committedStage {known c : Checkpoint} {disposition : CommitDisposition}
    (there : ∃ m ∈ commits facts, m.next = c)
    (own : disposition = .applied → c.status = .executing →
      (∃ m ∈ commits facts, (m.call = i ∧ m.next = c) ∧ m.previous = some known) ∧
        ∀ j c', .ran j c' ∈ facts → c'.revision ≠ c.revision) :
    Known facts i (committedStage known c disposition) := by
  unfold committedStage
  split_ifs with executing applied begun
  · obtain ⟨⟨m, mem, ⟨mine, rfl⟩, previous⟩, once⟩ := own applied executing
    exact ⟨executing, ⟨m, mem, ⟨mine, rfl⟩, known, previous, begun⟩, once⟩
  · obtain ⟨⟨m, mem, mine, -⟩, -⟩ := own applied executing
    exact ⟨executing, m, mem, mine⟩
  · trivial
  · exact ⟨there, executing⟩

variable {key : CheckpointKey}

theorem load_eq_ok {env : StoreEnv} {record : Option Record} {c : Checkpoint}
    (h : load env record key = .ok c) : ∃ r, record = some r ∧ r.checkpoint = c := by
  simp only [load, bind_eq_ok] at h
  obtain ⟨-, -, -, -, h⟩ := h
  cases record with
  | none => cases h
  | some r => exact ⟨r, rfl, pure_eq_ok.mp h⟩

variable {expected : ℕ}

/-- A swap that the protocol allows is a move from a committed checkpoint.  An executing
one is the call's own, or it is abandoned; a call that found one executing abandons it. -/
theorem exists_move_of_allows {t : Transition} (known : Known facts i stage)
    (allowed : allows digest ⟨call, stage⟩ (.compareAndSwap key expected next t)) :
    ∃ c n, Move digest call c n ∧ next = { n with revision := c.revision + 1 } ∧
      expected = c.revision ∧ (∃ m ∈ commits facts, m.next = c) ∧
      (c.status = .executing → next.status = .unknown ∨
        ∃ m ∈ commits facts, m.call = i ∧ m.next = c) ∧
      (∀ c', FinderStage c' stage → c' = c ∧ next.status = .unknown) ∧
      stage.committed = committedStage c := by
  cases stage with
  | fresh | absent | finished => cases allowed
  | holds c =>
    obtain ⟨-, revision, n, move, eq⟩ := allowed
    refine ⟨c, n, move, eq, revision, known.1, fun executing => absurd executing known.2, ?_, rfl⟩
    rintro c' (other | ⟨c'', same, unknown⟩ | other)
    · cases other
    · cases same
      have live := move.not_terminal
      rw [unknown] at live
      cases live
    · cases other
  | found c =>
    obtain ⟨⟨-, revision, n, move, eq⟩, unknown⟩ := allowed
    refine ⟨c, n, move, eq, revision, known.1, fun _ => .inl unknown, ?_, rfl⟩
    rintro c' (same | ⟨c'', other, -⟩ | other)
    · cases same
      exact ⟨rfl, unknown⟩
    · cases other
    · cases other
  | owns c | ran c =>
    obtain ⟨⟨-, revision, n, move, eq⟩, -⟩ := allowed
    have own : ∃ m ∈ commits facts, m.call = i ∧ m.next = c := by
      first
      | exact known.2
      | exact known.2.1.imp fun m own => ⟨own.1, own.2.1⟩
    obtain ⟨m, mem, mine, there⟩ := own
    refine ⟨c, n, move, eq, revision, ⟨m, mem, there⟩, fun _ => .inr ⟨m, mem, mine, there⟩, ?_, rfl⟩
    rintro c' (other | ⟨c'', other, -⟩ | other) <;> cases other

variable {result : Except StoreError (Checkpoint × CommitDisposition × Record)}
  (h : Coherent digest served s phases)

include h

/-- A call starts, or goes on without a new fact. -/
theorem Coherent.move (ok : served call)
    (knows : Known s.facts i stage') (finder : ∀ c, .found i c ∈ s.facts → FinderStage c stage') :
    Coherent digest served s (update phases i (some ⟨call, stage'⟩)) where
  admitted := by
    intro j φ phase
    rcases phase_update.mp phase with ⟨rfl, ⟨⟩⟩ | ⟨-, phase⟩
    · exact ok
    · exact h.admitted phase
  silent := by
    intro j phase
    rcases phase_update.mp phase with ⟨-, ⟨⟩⟩ | ⟨-, phase⟩
    exact h.silent phase
  known := by
    intro j φ phase
    rcases phase_update.mp phase with ⟨rfl, ⟨⟩⟩ | ⟨-, phase⟩
    · exact knows
    · exact h.known phase
  chain := h.chain
  record := h.record
  tried := h.tried
  runs := h.runs
  ranExecuting := h.ranExecuting
  finders := by
    intro j c mem
    obtain ⟨own, φ, phase, finds⟩ := h.finders mem
    refine ⟨own, ?_⟩
    rcases eq_or_ne j i with rfl | other
    · exact ⟨_, update_self .., finder c mem⟩
    · exact ⟨φ, by rwa [update_of_ne other], finds⟩

/-- Two calls never own one revision. -/
theorem Coherent.owner_unique {j : ℕ} {φ φ' : Phase} {c c' : Checkpoint} (here : phases i = some φ)
    (there : phases j = some φ') (owns : φ.stage = .owns c) (owns' : φ'.stage = .owns c')
    (same : c.revision = c'.revision) : i = j := by
  have known := h.known here
  have known' := h.known there
  rw [owns] at known
  rw [owns'] at known'
  obtain ⟨-, ⟨m, mem, ⟨mine, next⟩, -⟩, -⟩ := known
  obtain ⟨-, ⟨m', mem', ⟨mine', next'⟩, -⟩, -⟩ := known'
  rw [← mine, ← mine', h.chain.unique mem mem' (by rw [next, next', same])]

/-- The calls that found an executing checkpoint, with a new fact. -/
theorem Coherent.finders_add (here : phases f.call = some ⟨call, stage⟩)
    (finds : ∀ c, f = .found f.call c → stage = .fresh ∧ stage' = .found c)
    (finder : ∀ c, .found f.call c ∈ s.facts → FinderStage c stage' ∧ (∀ c', f ≠ .ran f.call c') ∧
      ∀ m, f = .committed m → m.GivesUp c) {j : ℕ} {c : Checkpoint}
    (mem : .found j c ∈ f :: s.facts) : Abandons (f :: s.facts) j c ∧
      ∃ φ, update phases f.call (some ⟨call, stage'⟩) j = some φ ∧ FinderStage c φ.stage := by
  rcases mem_cons.mp mem with rfl | old
  · -- the first thing a call does
    obtain ⟨fresh, stays⟩ := finds c rfl
    have quiet := h.known here
    rw [fresh] at quiet
    have silent : Abandons s.facts j c :=
      ⟨fun c' ran => quiet _ ran rfl, fun m mem call => absurd call (quiet _ (mem_commits.mp mem))⟩
    exact ⟨silent.add (by simp) (by simp), _, update_self .., .inl stays⟩
  · obtain ⟨before, φ, phase, stays⟩ := h.finders old
    rcases eq_or_ne j f.call with rfl | other
    · obtain ⟨stays, noRun, commit⟩ := finder c old
      exact ⟨before.add noRun fun m eq _ => commit m eq, _, update_self .., stays⟩
    · refine ⟨before.add (fun c' eq => other (by rw [eq]; rfl)) fun m eq call => ?_, φ,
        by rwa [update_of_ne other], stays⟩
      exact absurd (by rw [eq]; exact call.symm) other

/-- A call goes on with a new fact of its own. -/
theorem Coherent.add (here : phases i = some ⟨call, stage⟩)
    (own : f.call = i) {record : Option Record} (knows : Known (f :: s.facts) i stage')
    (chain : Chain digest served (commits (f :: s.facts)))
    (recorded : record = (commits (f :: s.facts)).head?.map fun m =>
      ⟨m.next, ((commits (f :: s.facts)).map Commit.transition).reverse⟩)
    (tries : ∀ next, f = .tried i next → Justified digest served s.facts next)
    (runs : ∀ c, f = .ran i c → stage = .owns c)
    (finds : ∀ c, f = .found i c → stage = .fresh ∧ stage' = .found c)
    (finder : ∀ c, .found i c ∈ s.facts → FinderStage c stage' ∧ (∀ c', f ≠ .ran i c') ∧
      ∀ m, f = .committed m → m.GivesUp c) :
    Coherent digest served ⟨record, f :: s.facts⟩
      (update phases i (some ⟨call, stage'⟩)) where
  admitted := by
    intro j φ phase
    rcases phase_update.mp phase with ⟨rfl, ⟨⟩⟩ | ⟨-, phase⟩
    · exact show served call from h.admitted here
    · exact h.admitted phase
  silent := by
    intro j phase g mem
    rcases phase_update.mp phase with ⟨-, ⟨⟩⟩ | ⟨other, phase⟩
    rcases mem_cons.mp mem with rfl | old
    · rw [own]
      exact other.symm
    · exact h.silent phase g old
  known := by
    intro j φ phase
    subst own
    rcases phase_update.mp phase with ⟨rfl, ⟨⟩⟩ | ⟨other, phase⟩
    · exact knows
    · refine (h.known phase).add other.symm fun k c c' ran owns same => other ?_
      exact (h.owner_unique here phase (runs c' (by rw [ran]; rfl)) owns same).symm
  chain := chain
  record := recorded
  tried := by
    intro j next mem
    subst own
    rcases mem_cons.mp mem with rfl | old
    · exact (tries next rfl).add _
    · exact (h.tried old).add f
  runs := by
    intro j c older suffix
    subst own
    rcases suffix_cons_iff.mp suffix with new | old
    · obtain ⟨rfl, rfl⟩ := List.cons.inj new
      have owned := h.known here
      rw [runs c rfl] at owned
      exact ⟨owned.2.1, owned.2.2⟩
    · exact h.runs old
  ranExecuting := by
    intro j c mem
    subst own
    rcases mem_cons.mp mem with rfl | old
    · have owned := h.known here
      rw [runs c rfl] at owned
      exact owned.1
    · exact h.ranExecuting old
  finders := by
    subst own
    exact h.finders_add here finds finder

/-- The record is the newest commit. -/
theorem Coherent.exists_commit {r : Record} (recorded : s.record = some r) :
    ∃ m older, commits s.facts = m :: older ∧ r.checkpoint = m.next ∧
      r.transitions = ((commits s.facts).map Commit.transition).reverse := by
  have eq := h.record
  rw [recorded] at eq
  cases shape : commits s.facts with
  | nil => simp [shape] at eq
  | cons m older =>
    simp only [shape, head?_cons, map_some, some.injEq] at eq
    exact ⟨m, older, rfl, by rw [eq], by rw [eq]⟩

/-- A commit is tried; what the call knows is settled with the answer. -/
theorem Coherent.addTried
    (here : phases i = some ⟨call, stage⟩) (tries : Justified digest served s.facts next) :
    Coherent digest served ⟨s.record, .tried i next :: s.facts⟩
      (update phases i (some ⟨call, .finished⟩)) := by
  refine h.add here rfl trivial h.chain h.record ?_ (by simp) (by simp) ?_
  · intro other eq
    cases eq
    exact tries
  · intro c _
    exact ⟨.inr (.inr rfl), by simp, by simp⟩

/-- The checkpoint of a record, as a committed one. -/
theorem Coherent.mem_of_record {r : Record}
    (recorded : s.record = some r) : ∃ m ∈ commits s.facts, m.next = r.checkpoint := by
  obtain ⟨m, older, shape, eq, -⟩ := h.exists_commit recorded
  exact ⟨m, by rw [shape]; exact mem_cons_self .., eq.symm⟩

theorem Coherent.load (here : phases i = some ⟨call, .fresh⟩)
    (env : StoreEnv) (key : CheckpointKey) :
    Coherent digest served
      (match load env s.record key with
        | .ok c => if c.status = .executing then { s with facts := .found i c :: s.facts } else s
        | .error _ => s)
      (update phases i (some ⟨call, nextStage .fresh (.load key)
        (AutoAgent.Graph.load env s.record key)⟩)) := by
  have quiet : ∀ f ∈ s.facts, f.call ≠ i := h.known here
  have noFinder : ∀ {stage'} c, .found i c ∈ s.facts → FinderStage c stage' :=
    fun c mem => absurd rfl (quiet _ mem)
  cases read : AutoAgent.Graph.load env s.record key with
  | error e =>
    refine h.move (h.admitted here) ?_ noFinder
    by_cases absent : e = .notFound
    · simpa [nextStage, absent, Known] using quiet
    · simp [nextStage, absent, Known]
  | ok c =>
    obtain ⟨r, recorded, rfl⟩ := load_eq_ok read
    have there := h.mem_of_record recorded
    dsimp only [nextStage]
    split_ifs with executing
    · refine h.add here rfl ⟨there, executing, fun m mem => quiet _ (mem_commits.mp mem)⟩ h.chain
        h.record (by simp) (by simp) ?_ fun c mem => absurd rfl (quiet _ mem)
      intro c eq
      cases eq
      exact ⟨rfl, rfl⟩
    · exact h.move (h.admitted here) ⟨there, executing⟩ noFinder

theorem Coherent.execute {c : Checkpoint} (here : phases i = some ⟨call, .owns c⟩) :
    Coherent digest served { s with facts := .ran i c :: s.facts }
      (update phases i (some ⟨call, .ran c⟩)) := by
  have owned : Known s.facts i (.owns c) := h.known here
  obtain ⟨m, mem, mine, -⟩ := owned.2.1
  refine h.add here rfl ⟨owned.1, m, mem, mine⟩ h.chain h.record (by simp) ?_ (by simp) ?_
  · intro other eq
    cases eq
    rfl
  intro c' found
  obtain ⟨-, φ, phase, stays⟩ := h.finders found
  rw [here] at phase
  cases phase
  rcases stays with eq | ⟨_, eq, -⟩ | eq <;> cases eq

/-- What ran was committed before. -/
theorem Coherent.revision_of_ran {j : ℕ} {c : Checkpoint}
    (ran : .ran j c ∈ s.facts) : c.revision ≤ (commits s.facts).length := by
  obtain ⟨newer, older, split⟩ := append_of_mem ran
  obtain ⟨⟨m, mem, ⟨-, rfl⟩, -⟩, -⟩ := h.runs (split ▸ suffix_append newer _)
  refine h.chain.revision_le (mem_commits.mpr ?_)
  rw [split]
  exact mem_append_right _ (mem_cons_of_mem _ (mem_commits.mp mem))

/-- The facts after an applied commit. -/
theorem Coherent.addCommit (here : phases i = some ⟨call, .finished⟩) (own : m.call = i)
    (linked : Linked digest served m (commits s.facts)) {transitions : List Transition}
    (log : transitions = ((commits s.facts).map Commit.transition).reverse ++ [m.transition])
    (finder : ∀ c, .found i c ∈ s.facts → m.GivesUp c) (known : Checkpoint)
    (from' : m.next.status = .executing → m.previous = some known) :
    Coherent digest served ⟨some ⟨m.next, transitions⟩, .committed m :: s.facts⟩
      (update phases i (some ⟨call, committedStage known m.next .applied⟩)) := by
  have chain : Chain digest served (commits (.committed m :: s.facts)) := ⟨linked, h.chain⟩
  refine h.add here (show (Fact.committed m).call = i from own) ?_ chain ?_ (by simp) (by simp)
    (by simp) ?_
  · refine known_committedStage ⟨m, mem_cons_self .., rfl⟩ fun _ executing => ?_
    refine ⟨⟨m, mem_cons_self .., ⟨own, rfl⟩, from' executing⟩, fun j c ran => ?_⟩
    have old : .ran j c ∈ s.facts := by simpa using ran
    have below := h.revision_of_ran old
    have newest : m.next.revision = (commits s.facts).length + 1 := chain.revision
    omega
  · rw [log]
    simp
  · intro c found
    obtain ⟨previous, unknown, newer⟩ := finder c found
    refine ⟨.inr (.inl ⟨m.next, ?_, unknown⟩), by simp, ?_⟩
    · rw [committedStage, if_neg]
      rw [unknown]
      rintro ⟨⟩
    · intro m' same
      cases same
      exact ⟨previous, unknown, newer⟩

/-- What a call knows after a swap that was answered. -/
theorem Coherent.compareAndSwap (here : phases i = some ⟨call, stage⟩) {t : Transition}
    (allowed : allows digest ⟨call, stage⟩ (.compareAndSwap key expected next t)) {env : StoreEnv}
    (swapped : compareAndSwap digest env s.record key expected next t = result) :
    answers (.compareAndSwap key expected next t) (s.settle i next t result).1 ∧
      Coherent digest served (s.settle i next t result).2 (update phases i
        (some ⟨call, nextStage stage (.compareAndSwap key expected next t)
          (s.settle i next t result).1⟩)) := by
  obtain ⟨c, n, move, eq, revision, ⟨m, mem, there⟩, own, finder, stages⟩ :=
    exists_move_of_allows (h.known here) allowed
  have tried : Coherent digest served ⟨s.record, .tried i next :: s.facts⟩
      (update phases i (some ⟨call, .finished⟩)) :=
    h.addTried here ⟨call, h.admitted here,
      .inr ⟨m, mem, n, by rw [there]; exact move, by rw [there]; exact eq⟩⟩
  have phase := update_self i (some (⟨call, .finished⟩ : Phase)) phases
  cases result with
  | error e => exact ⟨trivial, tried⟩
  | ok answered =>
    obtain ⟨committed, disposition, r⟩ := answered
    obtain ⟨validated, old, recorded, answer⟩ := compareAndSwap_eq_ok swapped
    obtain ⟨state, -, spelled⟩ := eq_of_validateCheckpoint validated
    have status : committed.status = next.status := by rw [spelled]
    refine ⟨validated, ?_⟩
    show Coherent _ _ _ (update phases i (some ⟨call, stage.committed committed disposition⟩))
    rw [stages]
    obtain ⟨last, older, shape, head, log⟩ := h.exists_commit recorded
    have abandons : ∀ c', .found i c' ∈ .tried i next :: s.facts → c' = c ∧
      committed.status = .unknown := by
      intro c' found
      obtain ⟨-, φ, phase', stays⟩ := h.finders (by simpa using found)
      cases here.symm.trans phase'
      exact ⟨(finder c' stays).1, status.trans (finder c' stays).2⟩
    rcases answer with ⟨rfl, current, rfl⟩ | ⟨rfl, same⟩
    · -- the checkpoint of the record is the one the call knows
      have newest : last ∈ commits s.facts := by rw [shape]; exact mem_cons_self ..
      have one : m = last := h.chain.unique mem newest (by rw [there, ← head, current, revision])
      subst one
      have linked : Linked digest served ⟨i, s.record.map Record.checkpoint, committed, t⟩
          (commits (.tried i next :: s.facts)) := by
        rw [commits_tried, shape]
        refine ⟨?_, ⟨call, n, h.admitted here, ?_, ?_⟩, fun executing => ?_⟩
        · rw [recorded, ← head]
          rfl
        · rw [there]
          exact move
        · rw [there, ← eq]
          exact validated
        · rw [there] at executing
          rcases own executing with unknown | ⟨m', mem', mine, there'⟩
          · exact .inl (status.trans unknown)
          · right
            rw [← h.chain.unique mem' mem (by rw [there, there'])]
            exact mine.symm
      have longer : old.transitions ++ [t] =
          ((commits (.tried i next :: s.facts)).map Commit.transition).reverse ++ [t] := by
        rw [log]
        rfl
      have done := tried.addCommit phase rfl linked longer ?_ c fun _ => by
        show s.record.map Record.checkpoint = some c
        rw [recorded, ← there, ← head]
        rfl
      · rwa [update_idem] at done
      · intro c' found
        obtain ⟨rfl, unknown⟩ := abandons c' found
        have newer := (move.newer (by rw [← unknown, status, eq])).2
        refine ⟨by rw [recorded, ← there, ← head]; rfl, unknown, ?_⟩
        rw [spelled, eq]
        exact newer
    · have stays : Known (.tried i next :: s.facts) i (committedStage c committed .replayed) :=
        known_committedStage (by rw [← same]; exact h.mem_of_record recorded) (by rintro ⟨⟩)
      have moved := tried.move (h.admitted here) stays ?_
      · rwa [update_idem] at moved
      · intro c' found
        have unknown := (abandons c' found).2
        refine .inr (.inl ⟨committed, ?_, unknown⟩)
        rw [committedStage, if_neg]
        rw [unknown]
        rintro ⟨⟩

/-- What a call knows after the first commit was answered. -/
theorem Coherent.create (here : phases i = some ⟨call, .absent⟩) {c : Checkpoint} {t : Transition}
    (first : Initial call c) {env : StoreEnv} (created : create digest env s.record c t = result) :
    answers (.create c t) (s.settle i c t result).1 ∧
      Coherent digest served (s.settle i c t result).2 (update phases i
        (some ⟨call, nextStage .absent (.create c t) (s.settle i c t result).1⟩)) := by
  have quiet : ∀ f ∈ s.facts, f.call ≠ i := h.known here
  have noFinder : ∀ c', .found i c' ∈ Fact.tried i c :: s.facts → False := by
    intro c' found
    exact quiet (.found i c') (by simpa using found) rfl
  have tried : Coherent digest served ⟨s.record, .tried i c :: s.facts⟩
      (update phases i (some ⟨call, .finished⟩)) :=
    h.addTried here ⟨call, h.admitted here, .inl first⟩
  have phase := update_self i (some (⟨call, .finished⟩ : Phase)) phases
  cases result with
  | error e => exact ⟨trivial, tried⟩
  | ok answered =>
    obtain ⟨committed, disposition, r⟩ := answered
    obtain ⟨validated, answer⟩ := create_eq_ok created
    have ready : committed.status ≠ .executing := by
      obtain ⟨state, -, spelled⟩ := eq_of_validateCheckpoint validated
      obtain ⟨request, initial, -, -, -, rfl⟩ := first
      rw [spelled]
      rintro ⟨⟩
    refine ⟨validated, ?_⟩
    rcases answer with ⟨rfl, absent, rfl⟩ | ⟨rfl, old, recorded, same⟩
    · have nothing : commits s.facts = [] := by
        have eq := h.record
        rw [absent] at eq
        cases shape : commits s.facts with
        | nil => rfl
        | cons m older => simp [shape] at eq
      have linked : Linked digest served ⟨i, s.record.map Record.checkpoint, committed, t⟩
          (commits (.tried i c :: s.facts)) := by
        rw [commits_tried, nothing, absent]
        exact ⟨rfl, call, c, h.admitted here, first, validated⟩
      have log : [t] = ((commits (.tried i c :: s.facts)).map Commit.transition).reverse ++
        [t] := by
        rw [commits_tried, nothing]
        rfl
      have done := tried.addCommit phase rfl linked log (fun c' found => (noFinder c' found).elim)
        c fun executing => absurd executing ready
      rw [update_idem, committedStage, if_neg ready] at done
      exact done
    · have stays : Known (.tried i c :: s.facts) i (.holds committed) :=
        ⟨by rw [← same]; exact h.mem_of_record recorded, ready⟩
      have moved := tried.move (h.admitted here) stays fun c' found => (noFinder c' found).elim
      rwa [update_idem] at moved

end

/-! ## The rule for pools -/

section

variable {digest} {served : Call → Prop}

/-- Every operation the protocol allows keeps the invariant. -/
theorem coherent_kept : (pool digest served).Kept (protocol digest) (fun r => ⟨r.1, .fresh⟩)
    ⟨none, []⟩ (Coherent digest served) where
  init :=
    { admitted := by simp
      silent := by simp
      known := by simp
      chain := trivial
      record := rfl
      tried := by simp
      runs := by simp
      ranExecuting := by simp
      finders := by simp }
  start := by
    intro s phases i request h free
    have quiet := h.silent free
    exact h.move request.2 quiet fun c found => absurd rfl (quiet _ found)
  step := by
    rintro s phases i ⟨call, stage⟩ op choice a s' h here allowed handled
    cases op with
    | load key =>
      obtain ⟨rfl, -⟩ := allowed
      cases choice with
      | store env =>
        cases handled
        exact ⟨answers_load env s.record key, h.load here env key⟩
      | _ => cases handled
    | create c t =>
      obtain ⟨rfl, first⟩ := allowed
      cases choice with
      | store env =>
        obtain ⟨rfl, rfl⟩ := Prod.ext_iff.mp (some.inj handled)
        exact h.create here first rfl
      | _ => cases handled
    | compareAndSwap key expected next t =>
      cases choice with
      | store env =>
        obtain ⟨rfl, rfl⟩ := Prod.ext_iff.mp (some.inj handled)
        exact h.compareAndSwap here allowed rfl
      | _ => cases handled
    | execute spec c =>
      obtain rfl := allowed
      cases choice with
      | node answer =>
        cases handled
        exact ⟨trivial, h.execute here⟩
      | _ => cases handled
    | reduce | evaluate | test =>
      have stays : update phases i (some ⟨call, stage⟩) = phases :=
        Function.update_eq_self_iff.mpr here.symm
      cases choice
      all_goals cases handled
      exact ⟨trivial, stays.symm ▸ h⟩

/-- After a step of a call, it holds the checkpoint it goes on with. -/
def Tagged (φ : Phase) : Outcome ⊕ (Call × Checkpoint) → Prop
  | .inl _ => True
  | .inr (call, c) => φ = ⟨call, .holds c⟩

theorem tagged {R : Outcome → Prop} {Q : Checkpoint → Prop} {call : Call} {φ : Phase}
    {p : Exec Step} (h : (protocol digest).Follows (Continues R Q call) φ p) :
    (protocol digest).Follows Tagged φ (tag call <$> p) := by
  refine Protocol.Follows.map (h.mono fun φ step known => ?_)
  cases step with
  | inl outcome => trivial
  | inr c => exact known.1

/-- Every call keeps to the protocol. -/
theorem pool_obeys : (pool digest served).Obeys (protocol digest)
    (fun r => ⟨r.1, .fresh⟩) Tagged where
  program request := tagged (program_follows request.1)
  again := by
    intro φ result p known again
    match result with
    | .inl outcome => cases again
    | .inr (call, c) =>
      cases again
      obtain rfl := known
      exact tagged round_follows

/-- **The invariant holds in every reachable state.** -/
theorem coherent_of_reachable {w : Pool.World Ans Shared (Outcome ⊕ (Call × Checkpoint))}
    (reach : (system digest served).Reachable w) :
    ∃ phases, Coherent digest served w.shared phases := by
  obtain ⟨phases, holds, -⟩ := Pool.holds coherent_kept pool_obeys reach
  exact ⟨phases, holds⟩

end

/-! ## The guarantees -/

/-- What the facts of concurrent calls guarantee. -/
structure Audited (s : Shared) : Prop where
  /-- A node is run only after the own commit of the call, from ready to executing, was
  applied, and only once after it. -/
  executions : ∀ {i c older}, .ran i c :: older <:+ s.facts →
    (∃ m ∈ commits older, m.call = i ∧ m.next = c ∧ c.status = .executing ∧
      m.previous.map Checkpoint.status = some .ready) ∧
      ∀ j c', .ran j c' ∈ older → c'.revision ≠ c.revision
  /-- A call that found an executing checkpoint runs nothing, and commits at most that its
  outcome is unknown, for a strictly newer generation. -/
  found : ∀ {i c}, .found i c ∈ s.facts → (∀ c', .ran i c' ∉ s.facts) ∧
    ∀ m ∈ commits s.facts, m.call = i → m.previous = some c ∧ m.next.status = .unknown ∧
      c.hostGeneration < m.next.hostGeneration
  /-- An executing checkpoint is replaced by the call that made it executing, or its
  outcome becomes unknown for a strictly newer generation. -/
  executing : ∀ {m c}, m ∈ commits s.facts → m.previous = some c → c.status = .executing →
    (∃ m' ∈ commits s.facts, m'.next = c ∧ m'.call = m.call) ∨
      m.next.status = .unknown ∧ c.hostGeneration < m.next.hostGeneration
  /-- A terminal checkpoint is never replaced. -/
  terminal : ∀ {m c}, m ∈ commits s.facts → m.previous = some c → c.status.terminal = false
  /-- Generations do not decrease. -/
  generations : (commits s.facts).Pairwise fun later earlier =>
    earlier.next.hostGeneration ≤ later.next.hostGeneration
  /-- The record has the newest checkpoint and the log of all transitions. -/
  record : s.record = (commits s.facts).head?.map fun m =>
    ⟨m.next, ((commits s.facts).map Commit.transition).reverse⟩

section

variable {digest} {served : Call → Prop} {l : List Commit} {m : Commit}

section

variable (chain : Chain digest served l)

include chain

/-- Every commit of a chain follows some of the others. -/
theorem Chain.exists_linked (mem : m ∈ l) :
    ∃ older, (∀ last ∈ older, last ∈ l) ∧ Linked digest served m older := by
  induction l with
  | nil => cases mem
  | cons a older ih =>
    rcases mem_cons.mp mem with rfl | later
    · exact ⟨older, fun _ => mem_cons_of_mem _, chain.1⟩
    · obtain ⟨older', there, linked⟩ := ih chain.2 later
      exact ⟨older', fun last mem => mem_cons_of_mem _ (there last mem), linked⟩

/-- What a commit that replaces a checkpoint was made from. -/
theorem Chain.exists_move (mem : m ∈ l) {c : Checkpoint} (previous : m.previous = some c) :
    ∃ last ∈ l, last.next = c ∧ (∃ call n, Move digest call c n ∧
      m.next.status = n.status ∧ m.next.hostGeneration = n.hostGeneration) ∧
      (c.status = .executing → m.next.status = .unknown ∨ m.call = last.call) := by
  obtain ⟨older, there, linked⟩ := chain.exists_linked mem
  cases older with
  | nil => cases linked.1.symm.trans previous
  | cons last rest =>
    obtain ⟨same, ⟨call, n, -, move, validated⟩, own⟩ := linked
    obtain rfl : last.next = c := some.inj (same.symm.trans previous)
    obtain ⟨state, -, eq⟩ := eq_of_validateCheckpoint validated
    exact ⟨last, there last (by simp), rfl, ⟨call, n, move, by rw [eq], by rw [eq]⟩, own⟩

/-- The first commit is a ready checkpoint. -/
theorem Chain.ready_of_first (mem : m ∈ l) (previous : m.previous = none) :
    m.next.status = .ready := by
  obtain ⟨older, -, linked⟩ := chain.exists_linked mem
  cases older with
  | nil =>
    obtain ⟨-, call, n, -, ⟨request, initial, -, -, -, rfl⟩, validated⟩ := linked
    obtain ⟨state, -, eq⟩ := eq_of_validateCheckpoint validated
    rw [eq]
    rfl
  | cons last rest => cases linked.1.symm.trans previous

theorem Chain.generation_le :
    l.Pairwise fun later earlier => earlier.next.hostGeneration ≤ later.next.hostGeneration := by
  induction l with
  | nil => exact .nil
  | cons m older ih =>
    refine .cons (fun m' mem => ?_) (ih chain.2)
    cases older with
    | nil => cases mem
    | cons last rest =>
      obtain ⟨-, ⟨call, n, -, move, validated⟩, -⟩ := chain.1
      obtain ⟨state, -, eq⟩ := eq_of_validateCheckpoint validated
      have step : last.next.hostGeneration ≤ m.next.hostGeneration := by
        rw [eq]
        exact move.generation_le
      rcases mem_cons.mp mem with rfl | later
      · exact step
      · exact ((pairwise_cons.mp (ih chain.2)).1 m' later).trans step

end

theorem Coherent.audited {s : Shared} {phases : ℕ → Option Phase}
    (h : Coherent digest served s phases) : Audited s where
  executions := by
    intro i c older suffix
    obtain ⟨⟨m, mem, ⟨call, rfl⟩, -⟩, once⟩ := h.runs suffix
    have executing := h.ranExecuting (suffix.subset (mem_cons_self ..))
    have there : m ∈ commits s.facts :=
      mem_commits.mpr (suffix.subset (mem_cons_of_mem _ (mem_commits.mp mem)))
    refine ⟨⟨m, mem, call, rfl, executing, ?_⟩, once⟩
    -- a commit to executing is not the first one, and is made from ready
    cases previous : m.previous with
    | none =>
      rw [h.chain.ready_of_first there previous] at executing
      cases executing
    | some c =>
      obtain ⟨-, -, -, ⟨call, n, move, status, -⟩, -⟩ := h.chain.exists_move there previous
      rw [map_some, move.ready (status.symm.trans executing)]
  found mem := (h.finders mem).1
  executing := by
    intro m c mem previous executing
    obtain ⟨last, there, same, ⟨call, n, move, status, generation⟩, own⟩ :=
      h.chain.exists_move mem previous
    rcases own executing with unknown | mine
    · refine .inr ⟨unknown, ?_⟩
      rw [generation]
      exact (move.newer (status.symm.trans unknown)).2
    · exact .inl ⟨last, there, same, mine.symm⟩
  terminal := by
    intro m c mem previous
    obtain ⟨-, -, -, ⟨call, n, move, -⟩, -⟩ := h.chain.exists_move mem previous
    exact move.not_terminal
  generations := h.chain.generation_le
  record := h.record

end

/-- **At most one execution of every commit, whatever the interleaving.**  In every state
that any number of `Run` and `Resume` calls on one key can reach, the facts are audited. -/
theorem executions_audited {digest : Digest} {key : CheckpointKey}
    {w : Pool.World Ans Shared (Outcome ⊕ (Call × Checkpoint))}
    (reach : (system digest fun call => call.key = key).Reachable w) : Audited w.shared := by
  obtain ⟨phases, holds⟩ := coherent_of_reachable reach
  exact holds.audited

/-! ## A run -/

def zeroDigest : Digest where
  sum _ := ⟨List.replicate 64 (.rune '0')⟩
  hex _ := by decide

/-- A node that ends the graph. -/
def lastNode : NodeSpec where
  id := go "n"
  kind := go "k"
  kindVersion := go "1"
  config := []
  contextView := ⟨[], [.currentInput]⟩
  contextBudget := ⟨10, 0, 0, Finmap.singleton .currentInput 5⟩
  retry := ⟨1, 0⟩
  timeout := 1
  terminal := true
  usesSandbox := false
  approvalDeniedPolicy := .unset

def oneNode : Definition where
  id := go "g"
  version := go "1"
  revision := go "r"
  entryNode := go "n"
  nodes := [lastNode]
  edges := []
  state := ⟨reducerTopLevelJSONPatch, go "1", []⟩
  limits := ⟨5, 0⟩
  redaction := []

/-- An executor of the graph of one node. -/
def oneNodeExecutor : Executor where
  definition := oneNode
  bindings :=
    { compositionRevision := go "c"
      implementationRevision := ⟨List.replicate 64 (.rune '0')⟩
      node := fun _ _ => true
      predicate := fun _ _ => true
      reducer := reducerTopLevelJSONPatch
      composition_valid := by decide
      implementation_digest := by decide }
  sandbox := false
  approval := false

def oneKey : CheckpointKey := ⟨go "t", go "s", go "r"⟩

/-- The call that runs the graph of one node. -/
def oneCall : Call := ⟨oneNodeExecutor, .start ⟨⟨oneKey, go "seg", 1⟩, ∅⟩⟩

/-- A store without trouble. -/
def quietStore : Choice := .store ⟨false, false, false, false⟩

/-- What two calls do up to the commit with which they enter the node. -/
def enterNode : List Choice :=
  [quietStore, .answer true, .answer true, quietStore, .answer true, .answer false, .answer false,
    .answer true, quietStore]

/-- Two equal calls take turns.  Both find no checkpoint; the second is answered with the
checkpoint that the first has created and with the commit that the first has made, and only the
first runs the node. -/
def race : List (Pool.Label { call : Call // call.key = oneKey } Choice) :=
  [.start 0 ⟨oneCall, rfl⟩, .start 1 ⟨oneCall, rfl⟩] ++
    enterNode.flatMap (fun choice => [.go 0 choice, .go 1 choice]) ++
    [.answer true, .answer true, .node ⟨.ok .none, false⟩].map (.go 0)

/-- The call that has run a node. -/
def Fact.runner : Fact → Option ℕ
  | .ran call _ => some call
  | _ => none

/-- A state after a race for a node is reachable and audited. -/
theorem executions_audited_race :
    ∃ w, (system zeroDigest fun call => call.key = oneKey).Reachable w ∧
      w.shared.facts.filterMap Fact.runner = [0] ∧ Audited w.shared := by
  obtain ⟨w, reach, ran⟩ := System.exists_of_run
    (M := system zeroDigest fun call => call.key = oneKey) (fun _ {_ _} step => step) rfl
    (fun w => w.shared.facts.filterMap Fact.runner = [0]) race (by decide +kernel)
  exact ⟨w, reach, ran, executions_audited reach⟩

/-! ## Limits -/

section

variable {digest} {served : Call → Prop} {d : Definition} {c n : Checkpoint} {call : Call}

/-- Steps and visits are within the limits of a definition. -/
def Within (d : Definition) (c : Checkpoint) : Prop :=
  c.steps ≤ max 0 d.limits.maxSteps ∧
    (0 < d.limits.maxVisitsPerNode → ∀ id, c.visitsOf id ≤ d.limits.maxVisitsPerNode)

theorem Initial.within (h : Initial call c) : Within d c := by
  obtain ⟨request, state, -, -, -, rfl⟩ := h
  refine ⟨le_max_left .., fun limited id => ?_⟩
  simpa [Checkpoint.visitsOf, Executor.initial] using limited.le

theorem Move.within (move : Move digest call c n) (h : Within call.definition c) :
    Within call.definition n := by
  cases move with
  | @enter spec ready node below =>
    unfold Checkpoint.entered
    split_ifs with fresh
    · unfold limitReached at below
      split_ifs at below with many often
      refine ⟨le_max_of_le_right ?_, fun limited id => ?_⟩
      · exact not_le.mp fun full => many ⟨fresh, full⟩
      · by_cases own : id = spec.id
        · rw [own, Checkpoint.visitsOf, Finmap.lookup_insert]
          exact not_le.mp fun full => often ⟨fresh, limited, full⟩
        · rw [Checkpoint.visitsOf, Finmap.lookup_insert_of_ne _ own]
          exact h.2 limited id
    · exact h
  | _ => exact h

variable (own : ∀ {call}, served call → call.definition = d)

include own

theorem Chain.within {l : List Commit} (chain : Chain digest served l) :
    ∀ m ∈ l, Within d m.next := by
  induction l with
  | nil => exact forall_mem_nil _
  | cons m older ih =>
    refine forall_mem_cons.mpr ⟨?_, ih chain.2⟩
    cases older with
    | nil =>
      obtain ⟨-, call, n, -, initial, validated⟩ := chain.1
      obtain ⟨state, -, eq⟩ := eq_of_validateCheckpoint validated
      rw [eq]
      exact initial.within
    | cons last rest =>
      obtain ⟨-, ⟨call, n, ok, move, validated⟩, -⟩ := chain.1
      obtain ⟨state, -, eq⟩ := eq_of_validateCheckpoint validated
      have before := ih chain.2 last mem_cons_self
      rw [← own ok] at before ⊢
      rw [eq]
      exact move.within before

/-- **The stored checkpoint is within the limits, whatever the interleaving** of calls that run
one definition. -/
theorem stored_within_limits {w : Pool.World Ans Shared (Outcome ⊕ (Call × Checkpoint))}
    {r : Record} (reach : (system digest served).Reachable w)
    (stored : w.shared.record = some r) : Within d r.checkpoint := by
  obtain ⟨phases, holds⟩ := coherent_of_reachable reach
  obtain ⟨m, mem, eq⟩ := holds.mem_of_record stored
  rw [← eq]
  exact holds.chain.within own m mem

end

theorem stored_within_limits_oneNode : ∃ w r, (system zeroDigest (· = oneCall)).Reachable w ∧
    w.shared.record = some r ∧ r.checkpoint.steps = 1 ∧ Within oneNode r.checkpoint := by
  obtain ⟨w, reach, stored⟩ := System.exists_of_run (M := system zeroDigest (· = oneCall))
    (fun _ {_ _} step => step) rfl (fun w => w.shared.record.map (·.checkpoint.steps) = some 1)
    (.start 0 ⟨oneCall, rfl⟩ :: enterNode.map (.go 0)) (by decide +kernel)
  obtain ⟨r, eq, one⟩ := map_eq_some_iff.mp stored
  exact ⟨w, r, reach, eq, one, stored_within_limits (fun same => same ▸ rfl) reach eq⟩

end AutoAgent.Graph
