import Mathlib.Data.List.Infix
import AutoAgent.Lib.Transition

/-!
# Write-behind persistence of a live session

`WriteBehind` persists the events of a running session behind the producer: a timer
started by `MarkDirty` writes them in the background, `Checkpoint` and `Flush` write
them at once, `Abort` gives up on the rest.  All of them write through `flushOnce`,
which marks the writer as flushing, drops the lock for the store call and takes it
again to record the outcome.

**Interleavings.**  Every goroutine has a program counter, and one step runs one
section between taking and releasing the lock, one store call, or one wait.  Timers
may fire at any time after they were started; stopping a timer that has fired has no
effect on its callback.  The store appends only at the version it holds, may refuse
for any reason, and may report an error for a write that took effect.

**History.**  The last fields of the state record what a run has shown so far, for
the statements about runs; no step reads them.
-/

namespace AutoAgent.Storage

variable {ε η : Type}

/-- The calls of the writer's owner. -/
inductive WriterCall where
  | checkpoint
  | flush
  | abort
  deriving DecidableEq

/-- What a call returns: `nil`, a persistence error, or the error of its context. -/
inductive CallResult (η : Type) where
  | done
  | failed (e : η)
  | cancelled
  deriving DecidableEq

/-- What held when a call was made: the number of session events and the error
retained so far. -/
structure CallContext (η : Type) where
  version : ℕ
  err : Option η

/-- Who runs `flushOnce`. -/
inductive FlushOwner (η : Type) where
  | timer
  | call (c : WriterCall) (ctx : CallContext η)

/-- Where a goroutine is. -/
inductive WriterPC (ε η : Type) where
  | idle
  /-- A call before it takes the lock. -/
  | start (c : WriterCall) (ctx : CallContext η)
  /-- The head of the loop of `flush` or `Abort`. -/
  | loop (c : WriterCall) (ctx : CallContext η)
  /-- Waiting for the channel of the given generation to be closed. -/
  | wait (c : WriterCall) (ctx : CallContext η) (generation : ℕ)
  /-- A timer callback that was started. -/
  | fired (timer : ℕ)
  /-- Before the first section of `flushOnce`. -/
  | check (o : FlushOwner η)
  /-- Before the events are read from the session. -/
  | read (o : FlushOwner η) (saved : ℕ)
  /-- Before the store call. -/
  | write (o : FlushOwner η) (saved : ℕ) (batch : List ε)
  /-- Before the last section of `flushOnce`. -/
  | finish (o : FlushOwner η) (target : ℕ) (err : Option η)
  /-- The result is decided; `promised` events are durable if it is `nil`. -/
  | returned (c : WriterCall) (ctx : CallContext η) (result : CallResult η) (promised : ℕ)

/-- How a writer was constructed; `saves` for a store without incremental append. -/
structure WriterConfig where
  backgroundDisabled : Bool
  saves : Bool

/-- The session, the store and the writer between them. -/
structure WriterState (ε η : Type) where
  session : List ε
  durable : List ε
  savedVersion : ℕ
  dirty : Bool
  flushing : Bool
  closed : Bool
  timer : Option ℕ
  /-- Timers that run and have not fired. -/
  armed : List ℕ
  nextTimer : ℕ
  lastErr : Option η
  /-- The generation of the `changed` channel. -/
  changed : ℕ
  threads : ℕ → WriterPC ε η
  /-- The goroutine that set `flushing`. -/
  holder : Option ℕ
  /-- An `Abort` has returned `nil` or a `Flush` has returned. -/
  settled : Bool
  /-- A store call was made after that. -/
  late : Bool
  /-- A store call was made after a persistence error was retained. -/
  rewrote : Bool
  /-- A call made after the first error returned something else. -/
  wrong : Bool
  /-- The events promised durable by results `nil`. -/
  acked : ℕ

inductive WriterStep (ε η : Type) where
  | append (e : ε)
  | markDirty
  | call (i : ℕ) (c : WriterCall)
  | fire (timer i : ℕ)
  | go (i : ℕ)
  | cancel (i : ℕ)
  /-- The store refuses and reports the error. -/
  | refuse (i : ℕ) (e : η)
  /-- The write takes effect; an error may be reported all the same. -/
  | store (i : ℕ) (err : Option η)
  | ret (i : ℕ)

namespace WriterState

variable (cfg : WriterConfig) (s : WriterState ε η)

/-- `NewWriteBehind` for a session of which the store holds `durable`. -/
def new (session durable : List ε) : WriterState ε η where
  session := session
  durable := durable
  savedVersion := durable.length
  dirty := false
  flushing := false
  closed := false
  timer := none
  armed := []
  nextTimer := 0
  lastErr := none
  changed := 0
  threads := fun _ => .idle
  holder := none
  settled := false
  late := false
  rewrote := false
  wrong := false
  acked := 0

def setThread (i : ℕ) (pc : WriterPC ε η) : WriterState ε η :=
  { s with threads := Function.update s.threads i pc }

/-- `w.timer.Stop()` and `w.timer = nil`. -/
def stopTimer : WriterState ε η :=
  match s.timer with
  | none => s
  | some t => { s with timer := none, armed := s.armed.filter (· != t) }

/-- `scheduleLocked`. -/
def schedule : WriterState ε η :=
  if cfg.backgroundDisabled || s.closed || !s.dirty || s.flushing || s.timer.isSome ||
    s.lastErr.isSome then s
  else { s with
    timer := some s.nextTimer, armed := s.nextTimer :: s.armed, nextTimer := s.nextTimer + 1 }

def markDirty : WriterState ε η :=
  if s.closed then s else schedule cfg { s with dirty := true }

def errResult : Option η → CallResult η
  | none => .done
  | some e => .failed e

/-- One round of the loop of `flush`, or of `Abort`. -/
def iterate (i : ℕ) (c : WriterCall) (ctx : CallContext η) : WriterState ε η :=
  if c = .abort then
    if s.flushing then s.setThread i (.wait c ctx s.changed)
    else s.setThread i (.returned c ctx (errResult s.lastErr) 0)
  else match s.lastErr with
    | some e => s.setThread i (.returned c ctx (.failed e) 0)
    | none =>
      if !s.dirty then s.setThread i (.returned c ctx .done ctx.version)
      else if s.flushing then s.setThread i (.wait c ctx s.changed)
      else s.setThread i (.check (.call c ctx))

/-- The beginning of `flush`: pending events make the writer dirty, the timer is
stopped. -/
def enter : WriterState ε η :=
  stopTimer { s with dirty := s.dirty || decide (s.savedVersion < s.session.length) }

/-- The section a call starts with. -/
def begin (i : ℕ) (ctx : CallContext η) : WriterCall → WriterState ε η
  | .checkpoint =>
    if s.closed then s.setThread i (.returned .checkpoint ctx (errResult s.lastErr) 0)
    else s.enter.iterate i .checkpoint ctx
  | .flush => (enter { s with closed := true }).iterate i .flush ctx
  | .abort => (stopTimer { s with closed := true }).iterate i .abort ctx

/-- `flushOnce` returns to its caller. -/
def resume (i : ℕ) : FlushOwner η → WriterState ε η
  | .timer => s.setThread i .idle
  | .call c ctx => s.setThread i (.loop c ctx)

/-- What the last section of `flushOnce` records. -/
def record (target : ℕ) : Option η → WriterState ε η
  | some e => { s with
      flushing := false, holder := none, changed := s.changed + 1
      lastErr := s.lastErr.or (some e) }
  | none => schedule cfg (stopTimer { s with
      flushing := false, holder := none, changed := s.changed + 1
      savedVersion := target, dirty := decide (target < s.session.length) })

/-- The next section of a goroutine; `none` if it has to wait. -/
def go (i : ℕ) : Option (WriterState ε η) :=
  match s.threads i with
  | .start c ctx => some (s.begin i ctx c)
  | .loop c ctx => some (s.iterate i c ctx)
  | .wait c ctx generation =>
    if generation < s.changed then some (s.iterate i c ctx) else none
  | .fired t =>
    some (setThread (if s.timer = some t then { s with timer := none } else s) i (.check .timer))
  | .check o =>
    if !s.dirty || s.flushing then some (s.resume i o)
    else some (setThread { s with flushing := true, holder := some i } i (.read o s.savedVersion))
  | .read o saved =>
    some (s.setThread i (.write o saved (if cfg.saves then s.session else s.session.drop saved)))
  | .finish o target err => some ((s.record cfg target err).resume i o)
  | _ => none

def storeCall : WriterState ε η :=
  { s with late := s.late || s.settled, rewrote := s.rewrote || s.lastErr.isSome }

def settle [DecidableEq η] (c : WriterCall) (ctx : CallContext η) (result : CallResult η)
    (promised : ℕ) : WriterState ε η :=
  { s with
    settled := s.settled || decide (c = .flush) || (decide (c = .abort) && decide (result = .done))
    wrong := s.wrong || (ctx.err.any fun e => result ≠ .failed e)
    acked := if result = .done then max s.acked promised else s.acked }

def step [DecidableEq η] : WriterStep ε η → Option (WriterState ε η)
  | .append e => some { s with session := s.session ++ [e] }
  | .markDirty => some (s.markDirty cfg)
  | .call i c =>
    match s.threads i with
    | .idle => some (s.setThread i (.start c ⟨s.session.length, s.lastErr⟩))
    | _ => none
  | .fire t i =>
    match s.threads i with
    | .idle =>
      if t ∈ s.armed then
        some (setThread { s with armed := s.armed.filter (· != t) } i (.fired t))
      else none
    | _ => none
  | .go i => s.go cfg i
  | .cancel i =>
    match s.threads i with
    | .wait c ctx _ => some (s.setThread i (.returned c ctx .cancelled 0))
    | _ => none
  | .refuse i e =>
    match s.threads i with
    | .write o saved _ => some (s.storeCall.setThread i (.finish o saved (some e)))
    | _ => none
  | .store i err =>
    match s.threads i with
    | .write o saved batch =>
      if s.durable.length = saved then
        let durable := if cfg.saves then batch else s.durable ++ batch
        some (setThread { s.storeCall with durable } i (.finish o durable.length err))
      else none
    | _ => none
  | .ret i =>
    match s.threads i with
    | .returned c ctx result promised => some ((s.settle c ctx result promised).setThread i .idle)
    | _ => none

end WriterState

/-- The writer at work: the store starts with the first events of the session. -/
def writerSystem [DecidableEq η] (cfg : WriterConfig) :
    System (WriterState ε η) (WriterStep ε η) where
  init s := ∃ session durable, durable <+: session ∧ s = .new session durable
  step s l s' := s.step cfg l = some s'

/-! ## What every goroutine relies on -/

namespace WriterState

variable {cfg : WriterConfig} {s s' : WriterState ε η}

/-- A call in progress knows no more than the writer. -/
structure Knows (s : WriterState ε η) (ctx : CallContext η) : Prop where
  version : ctx.version ≤ s.session.length
  err : ∀ e, ctx.err = some e → s.lastErr = some e

/-- A call in its loop: `Flush` and `Abort` have closed the writer, and the events a
flush has to persist are durable or the writer is dirty. -/
structure Pending (s : WriterState ε η) (c : WriterCall) (ctx : CallContext η) : Prop where
  knows : s.Knows ctx
  closed : c ≠ .checkpoint → s.closed
  covered : c ≠ .abort → s.dirty ∨ ctx.version ≤ s.savedVersion

/-- The owner of a `flushOnce` in progress. -/
def OwnerOK (s : WriterState ε η) : FlushOwner η → Prop
  | .timer => True
  | .call c ctx => s.Pending c ctx

/-- What a goroutine has read is a piece of the session after the saved version. -/
def BatchOK (cfg : WriterConfig) (s : WriterState ε η) (saved : ℕ) (batch : List ε) : Prop :=
  if cfg.saves then batch <+: s.session ∧ saved ≤ batch.length else batch <+: s.session.drop saved

/-- What holds of a goroutine at each place. -/
def ThreadOK (cfg : WriterConfig) (s : WriterState ε η) (i : ℕ) : WriterPC ε η → Prop
  | .idle => True
  | .start _ ctx => s.Knows ctx
  | .loop c ctx => s.Pending c ctx
  | .wait c ctx _ => s.Pending c ctx
  | .fired t => t < s.nextTimer ∧ t ∉ s.armed
  | .check o => s.OwnerOK o
  | .read o saved => s.OwnerOK o ∧ s.holder = some i ∧ saved = s.savedVersion
  | .write o saved batch =>
    s.OwnerOK o ∧ s.holder = some i ∧ saved = s.savedVersion ∧ BatchOK cfg s saved batch
  | .finish o target err => s.OwnerOK o ∧ s.holder = some i ∧
      (err = none → s.savedVersion ≤ target ∧ target ≤ s.durable.length)
  | .returned c ctx result promised =>
    s.Knows ctx ∧ (c ≠ .checkpoint → s.closed) ∧ (result = .done → promised ≤ s.savedVersion)

/-- What holds of the writer and the store. -/
structure Core (s : WriterState ε η) : Prop where
  log : s.durable <+: s.session
  saved : s.savedVersion ≤ s.durable.length
  held : s.flushing = s.holder.isSome
  busy : s.flushing → s.dirty
  armed : ∀ t ∈ s.armed, s.timer = some t
  fresh : ∀ t ∈ s.armed, t < s.nextTimer
  shut : s.closed → s.timer = none
  acked : s.acked ≤ s.savedVersion

/-- What holds between any two steps. -/
structure Sound (cfg : WriterConfig) (s : WriterState ε η) : Prop extends Core s where
  threads : ∀ i, ThreadOK cfg s i (s.threads i)

/-- What a step does to the fields the goroutines rely on. -/
structure Stable (s s' : WriterState ε η) : Prop where
  session : s.session <+: s'.session
  closed : s.closed → s'.closed
  lastErr : ∀ e, s.lastErr = some e → s'.lastErr = some e
  saved : s.savedVersion ≤ s'.savedVersion
  dirty : s'.dirty ∨ s'.dirty = s.dirty ∨ s.session.length ≤ s'.savedVersion
  timers : s.nextTimer ≤ s'.nextTimer
  armed : ∀ t ∈ s'.armed, t ∈ s.armed ∨ s.nextTimer ≤ t

variable {ctx : CallContext η}

theorem Stable.knows (h : Stable s s') (k : s.Knows ctx) : s'.Knows ctx :=
  ⟨le_trans k.version h.session.length_le, fun e same => h.lastErr e (k.err e same)⟩

theorem Stable.pending (h : Stable s s') {c : WriterCall} (p : s.Pending c ctx) :
    s'.Pending c ctx where
  knows := h.knows p.knows
  closed other := h.closed (p.closed other)
  covered other := by
    rcases p.covered other with dirty | small
    · rcases h.dirty with dirty' | same | all
      · exact .inl dirty'
      · exact .inl (same.trans dirty)
      · exact .inr (le_trans p.knows.version all)
    · exact .inr (le_trans small h.saved)

theorem Stable.owner (h : Stable s s') {o : FlushOwner η} (k : s.OwnerOK o) : s'.OwnerOK o := by
  cases o with
  | timer => trivial
  | call c ctx => exact h.pending k

variable {pc : WriterPC ε η} {i : ℕ}

/-- A goroutine keeps its condition while another one that holds the flag, or that
leaves the flag alone, takes a step. -/
theorem Stable.thread (h : Stable s s')
    (frame : s.holder = some i → s'.holder = some i ∧ s'.savedVersion = s.savedVersion ∧
      s.durable.length ≤ s'.durable.length) (k : ThreadOK cfg s i pc) : ThreadOK cfg s' i pc := by
  cases pc with
  | idle => trivial
  | start c ctx => exact h.knows k
  | loop c ctx => exact h.pending k
  | wait c ctx generation => exact h.pending k
  | fired t =>
    obtain ⟨old, gone⟩ := k
    refine ⟨lt_of_lt_of_le old h.timers, fun mem => ?_⟩
    rcases h.armed t mem with was | new
    · exact gone was
    · omega
  | check o => exact h.owner k
  | read o saved =>
    obtain ⟨owner, held, rfl⟩ := k
    obtain ⟨held', same, -⟩ := frame held
    exact ⟨h.owner owner, held', same.symm⟩
  | write o saved batch =>
    obtain ⟨owner, held, rfl, piece⟩ := k
    obtain ⟨held', same, -⟩ := frame held
    refine ⟨h.owner owner, held', same.symm, ?_⟩
    unfold BatchOK at piece ⊢
    split
    · next saves =>
        rw [if_pos saves] at piece
        exact ⟨piece.1.trans h.session, piece.2⟩
    · next appends =>
        rw [if_neg appends] at piece
        exact piece.trans (h.session.drop _)
  | finish o target err =>
    obtain ⟨owner, held, bounds⟩ := k
    obtain ⟨held', same, longer⟩ := frame held
    refine ⟨h.owner owner, held', fun fine => ?_⟩
    obtain ⟨low, high⟩ := bounds fine
    exact ⟨same ▸ low, le_trans high longer⟩
  | returned c ctx result promised =>
    obtain ⟨knows, closed, kept⟩ := k
    exact ⟨h.knows knows, fun other => h.closed (closed other),
      fun fine => le_trans (kept fine) h.saved⟩

theorem Stable.refl (s : WriterState ε η) : Stable s s :=
  ⟨List.prefix_refl _, id, fun _ => id, le_refl _, .inr (.inl rfl), le_refl _, fun _ => .inl⟩

/-- What holds of the goroutines when one has moved. -/
theorem forall_setThread {P : ℕ → WriterPC ε η → Prop} (own : P i pc)
    (others : ∀ j, j ≠ i → P j (s.threads j)) (j : ℕ) : P j ((s.setThread i pc).threads j) :=
  (Function.forall_update_iff s.threads P).mpr ⟨own, others⟩ j

/-- A step moves one goroutine; the others have to find their conditions kept. -/
theorem sound_setThread (core : s.Core) (others : ∀ j, j ≠ i → ThreadOK cfg s j (s.threads j))
    (own : ThreadOK cfg s i pc) : (s.setThread i pc).Sound cfg where
  toCore := { core with }
  threads j := by
    have stable : Stable s (s.setThread i pc) := { Stable.refl s with }
    exact stable.thread (fun held => ⟨held, rfl, le_refl _⟩) (forall_setThread own others j)

end WriterState

end AutoAgent.Storage
