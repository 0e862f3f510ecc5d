import AutoAgent.Storage.WriteBehindRuns

/-!
# Closing a write-behind writer, and its first error

`flushOnce` looks at `dirty` and `flushing` only.  A timer callback that has fired, or
a call between its loop and `flushOnce`, therefore writes even when the writer has been
closed or has retained an error in the meantime.

**What goes wrong.**  `abort_then_write` and `error_then_write` are runs in which the
store is written after `Abort` has returned `nil`, and after a persistence error.

**What holds.**  Both laws hold in the runs in which no such goroutine is on its way at
the moment the writer is closed (`CloseCondition`) or the error is recorded
(`ErrorCondition`): from then on no timer is started and every loop ends.
-/

namespace AutoAgent.Storage

variable {ε η : Type}

namespace WriterState

variable {cfg : WriterConfig} {s s' : WriterState ε η} {i : ℕ} {c : WriterCall}
  {ctx : CallContext η}

/-- What a round of a loop leads to. -/
theorem iterate_cases (s : WriterState ε η) (i : ℕ) (c : WriterCall) (ctx : CallContext η) :
    (∃ generation, s.iterate i c ctx = s.setThread i (.wait c ctx generation) ∧
      s.flushing ∧ (c ≠ .abort → s.lastErr = none ∧ s.dirty)) ∨
    (∃ result promised, s.iterate i c ctx = s.setThread i (.returned c ctx result promised) ∧
      ∀ e, s.lastErr = some e → result = .failed e) ∨
    (s.iterate i c ctx = s.setThread i (.check (.call c ctx)) ∧ c ≠ .abort ∧ s.lastErr = none ∧
      s.dirty) := by
  unfold iterate
  split
  · next aborts =>
      split
      · next flushing => exact .inl ⟨_, rfl, flushing, fun other => absurd aborts other⟩
      · refine .inr (.inl ⟨_, _, rfl, fun e same => ?_⟩)
        rw [same]
        rfl
  · next flushes =>
      split
      · next e same =>
          refine .inr (.inl ⟨_, _, rfl, fun e' same' => ?_⟩)
          rw [some.inj (same.symm.trans same')]
      · next fine =>
          split
          · exact .inr (.inl ⟨_, _, rfl, fun e same => absurd (fine.symm.trans same) (by simp)⟩)
          · next clean =>
              have dirty : s.dirty := by simpa using clean
              split
              · next flushing => exact .inl ⟨_, rfl, flushing, fun _ => ⟨fine, dirty⟩⟩
              · exact .inr (.inr ⟨rfl, flushes, fine, dirty⟩)

/-- A goroutine on its way to a store call, in one, or about to record its outcome. -/
def Restless : WriterPC ε η → Prop
  | .fired _ | .check _ | .read .. | .write .. | .finish .. => True
  | _ => False

/-! ## The first error -/

/-- When the first persistence error is recorded, no timer runs and no other goroutine
is on its way to the store. -/
def ErrorCondition (s : WriterState ε η) : WriterStep ε η → Prop
  | .go i => ∀ o target e, s.threads i = .finish o target (some e) → s.lastErr = none →
      s.armed = [] ∧ ∀ j, j ≠ i → ¬ Restless (s.threads j)
  | _ => True

/-- A call made after the first error does not wait and returns that error. -/
def Honest : WriterPC ε η → Prop
  | .wait _ ctx _ => ctx.err = none
  | .returned _ ctx result _ => ∀ e, ctx.err = some e → result = .failed e
  | _ => True

/-- Once an error is retained, nothing is on its way to the store. -/
structure Quenched (s : WriterState ε η) : Prop where
  timers : s.lastErr.isSome → s.armed = []
  idle : s.lastErr.isSome → s.flushing = false
  quiet : s.lastErr.isSome → ∀ j, ¬ Restless (s.threads j)
  honest : ∀ j, Honest (s.threads j)
  rewrote : s.rewrote = false
  wrong : s.wrong = false

variable {pc : WriterPC ε η}

theorem Quenched.setThread (h : s.Quenched) (own : s.lastErr.isSome → ¬ Restless pc)
    (true_ : Honest pc := by trivial) : (s.setThread i pc).Quenched :=
  { h with
    quiet := fun err => forall_setThread (P := fun _ pc => ¬ Restless pc) (own err) fun j _ =>
      h.quiet err j
    honest := forall_setThread true_ fun j _ => h.honest j }

theorem Quenched.iterate (h : s.Quenched) (knows : s.Knows ctx) :
    (s.iterate i c ctx).Quenched := by
  rcases iterate_cases s i c ctx with
    ⟨generation, eq, flushing, -⟩ | ⟨result, promised, eq, same⟩ | ⟨eq, -, fine, -⟩
  · rw [eq]
    refine h.setThread (fun _ => id) ?_
    -- while a flush is in progress no error is retained
    show ctx.err = none
    rcases known : ctx.err with _ | e
    · rfl
    · have err : s.lastErr.isSome := by rw [knows.err e known]; rfl
      rw [h.idle err] at flushing
      cases flushing
  · rw [eq]
    exact h.setThread (fun _ => id) fun e known => same e (knows.err e known)
  · rw [eq]
    refine h.setThread fun err => ?_
    rw [fine] at err
    cases err

theorem Quenched.schedule (h : s.Quenched) : (s.schedule cfg).Quenched := by
  rcases schedule_cases cfg s with same | ⟨-, fine, -, started⟩
  · rwa [same]
  · rw [started]
    have never : ∀ {P : Prop}, s.lastErr.isSome → P := by
      intro P err
      rw [fine] at err
      cases err
    exact { h with timers := never }

theorem Quenched.resume (h : s.Quenched) {o : FlushOwner η} : (s.resume i o).Quenched := by
  cases o with
  | timer => exact h.setThread fun _ => id
  | call c ctx => exact h.setThread fun _ => id

variable {l : WriterStep ε η}

theorem Quenched.moves [DecidableEq η] (h : s.Quenched) (sound : s.Sound cfg)
    (cond : ErrorCondition s l) (moves : Moves cfg s l s') : s'.Quenched := by
  -- a goroutine on its way to the store moves only while no error is retained
  have never : ∀ {i pc} {P : Prop}, s.threads i = pc → Restless pc → s.lastErr.isSome → P :=
    fun at_ restless err => absurd (at_ ▸ restless) (h.quiet err _)
  cases moves with
  | append => exact { h with }
  | ignored => exact h
  | marked => exact Quenched.schedule { h with }
  | call => exact h.setThread fun _ => id
  | fire _ running =>
    have never : ∀ {P : Prop}, s.lastErr.isSome → P := by
      intro P err
      rw [h.timers err] at running
      cases running
    exact Quenched.setThread { h with timers := never } never
  | refused at_ =>
    refine h.setThread (fun _ => id) fun e known => ?_
    rw [(sound.own at_).err e known]
    rfl
  | begins at_ =>
    have knows := sound.own at_
    exact Quenched.iterate { h with timers := fun _ => rfl } ⟨knows.version, knows.err⟩
  | loops at_ =>
    rcases at_ with at_ | ⟨generation, at_⟩
    · exact h.iterate (sound.own at_).knows
    · exact h.iterate (sound.own at_).knows
  | timed at_ => exact Quenched.setThread { h with } (never at_ trivial)
  | resumes => exact h.resume
  | locks at_ =>
    exact Quenched.setThread { h with idle := never at_ trivial } (never at_ trivial)
  | reads at_ => exact h.setThread (never at_ trivial)
  | @fails i target o e at_ =>
    have fine : s.lastErr = none := Option.not_isSome_iff_eq_none.mp (never at_ trivial)
    obtain ⟨unarmed, alone⟩ := cond o target e at_ fine
    have recorded : ∀ {pc : WriterPC ε η}, ¬ Restless pc → Honest pc →
        ((s.record cfg target (some e)).setThread i pc).Quenched := fun calm true_ =>
      { h with
        timers := fun _ => unarmed
        idle := fun _ => rfl
        quiet := fun _ => forall_setThread (P := fun _ pc => ¬ Restless pc) calm alone
        honest := forall_setThread true_ fun j _ => h.honest j }
    cases o with
    | timer => exact recorded id trivial
    | call c ctx => exact recorded id trivial
  | @persists i target o at_ =>
    have written : (s.persisted target).Quenched :=
      { h with timers := fun _ => rfl, idle := fun _ => rfl, quiet := never at_ trivial }
    exact written.schedule.resume
  | @cancels i _ c ctx at_ =>
    have honest := h.honest i
    rw [at_] at honest
    refine h.setThread (fun _ => id) fun e known => ?_
    rw [show ctx.err = none from honest] at known
    cases known
  | refuses at_ | stores at_ =>
    have fine : s.lastErr.isSome = false := eq_false_iff.mpr (never at_ trivial)
    exact Quenched.setThread { h with rewrote := by simp [storeCall, h.rewrote, fine] }
      (never at_ trivial)
  | @returns i promised c ctx result at_ =>
    have honest := h.honest i
    rw [at_] at honest
    refine Quenched.setThread { h with wrong := ?_ } fun _ => id
    rcases known : ctx.err with _ | e
    · simp [settle, h.wrong, known]
    · simp [settle, h.wrong, known, honest e known]

/-! ## Closing -/

/-- A goroutine that makes no store call any more while the writer is closed and nobody
starts another flush. -/
def Settles (s : WriterState ε η) : WriterPC ε η → Prop
  | .loop c _ | .wait c _ _ => c = .abort ∨ s.lastErr.isSome
  | pc => ¬ Restless pc

/-- When an `Abort` returns `nil` or a `Flush` returns, the writer is clean or no other
goroutine is going to write; a `Flush` that takes the lock after that finds nothing to
persist. -/
def CloseCondition (s : WriterState ε η) : WriterStep ε η → Prop
  | .ret i => ∀ c ctx result promised, s.threads i = .returned c ctx result promised →
      c = .flush ∨ c = .abort ∧ result = .done →
      s.dirty = false ∨ ∀ j, j ≠ i → s.Settles (s.threads j)
  | .go i => ∀ ctx, s.threads i = .start .flush ctx → s.settled →
      s.dirty = false ∧ s.session.length ≤ s.savedVersion
  | _ => True

/-- After a call has settled the writer, it is closed and no store call follows. -/
structure Ended (s : WriterState ε η) : Prop where
  closed : s.settled → s.closed
  quiet : s.settled → s.dirty = false ∨ ∀ j, s.Settles (s.threads j)
  late : s.late = false

/-- One goroutine moves and nothing else changes. -/
theorem Ended.setThread (h : s.Ended)
    (own : s.settled → s.dirty → s.Settles (s.threads i) → s.Settles pc) :
    (s.setThread i pc).Ended :=
  { h with
    quiet := fun settled => by
      rcases dirty : s.dirty with _ | _
      · exact .inl dirty
      · have all := (h.quiet settled).resolve_left (by simp [dirty])
        exact .inr (forall_setThread (P := fun _ pc => s.Settles pc) (own settled dirty (all i))
          fun j _ => all j) }

theorem Ended.iterate (h : s.Ended) (own : s.settled → s.dirty → s.Settles (s.threads i) →
      c = .abort ∨ s.lastErr.isSome) : (s.iterate i c ctx).Ended := by
  rcases iterate_cases s i c ctx with
    ⟨generation, eq, -, -⟩ | ⟨result, promised, eq, -⟩ | ⟨eq, flushes, fine, -⟩
  · rw [eq]
    exact h.setThread own
  · rw [eq]
    exact h.setThread fun _ _ _ => id
  · rw [eq]
    refine h.setThread fun settled dirty was => ?_
    rcases own settled dirty was with aborts | err
    · exact absurd aborts flushes
    · rw [fine] at err
      cases err

/-- A dirty settled writer has no goroutine on its way to the store. -/
theorem Ended.unsettled (h : s.Ended) (dirty : s.dirty) (at_ : s.threads i = pc)
    (restless : ¬ s.Settles pc) : s.settled = false := by
  refine eq_false_iff.mpr fun settled => ?_
  have all := (h.quiet settled).resolve_left (by simp [dirty])
  exact restless (at_ ▸ all i)

theorem ended_of_not_settled (settled : s.settled = false) (late : s.late = false) : s.Ended :=
  ⟨fun h => absurd (settled.symm.trans h) (by simp),
    fun h => absurd (settled.symm.trans h) (by simp), late⟩

theorem unsettled_schedule (cfg : WriterConfig) (settled : s.settled = false)
    (late : s.late = false) :
    (s.schedule cfg).settled = false ∧ (s.schedule cfg).late = false := by
  unfold schedule
  split <;> exact ⟨settled, late⟩

theorem ended_resume (open_ : s.settled = false ∧ s.late = false) {o : FlushOwner η} :
    (s.resume i o).Ended := by
  cases o <;> exact ended_of_not_settled open_.1 open_.2

/-- A call of a settled writer finds nothing to persist, or is an `Abort`. -/
theorem Ended.begins (h : s.Ended) (still : s.settled → c = .abort ∨
    (s.opened c).dirty = false) : ((s.opened c).iterate i c ctx).Ended := by
  have base : (s.opened c).Ended :=
    { h with
      closed := fun settled => by simp [opened, h.closed settled]
      quiet := fun settled => by
        rcases still settled with aborts | clean
        · refine (h.quiet settled).imp_left fun clean => ?_
          simp [opened, clean, aborts]
        · exact .inl clean }
  refine base.iterate fun settled dirty _ => .inl ?_
  exact (still settled).resolve_right (by simp [dirty])

theorem Ended.moves [DecidableEq η] (h : s.Ended) (sound : s.Sound cfg) (cond : CloseCondition s l)
    (moves : Moves cfg s l s') : s'.Ended := by
  -- the goroutine that holds the flag would not be settled
  have held : ∀ {i pc}, s.threads i = pc → s.holder = some i → ¬ s.Settles pc →
      s.settled = false := fun at_ held =>
    h.unsettled (sound.busy (by rw [sound.held, held]; rfl)) at_
  cases moves with
  | append => exact { h with }
  | ignored => exact h
  | marked open_ =>
    have unsettled : s.settled = false := eq_false_iff.mpr fun settled => by
      cases open_.symm.trans (h.closed settled)
    have kept := unsettled_schedule (s := { s with dirty := true }) cfg unsettled h.late
    exact ended_of_not_settled kept.1 kept.2
  | call | refused | cancels => exact h.setThread fun _ _ _ => id
  | @fire t _ _ running =>
    -- a closed writer has no timer
    refine ended_of_not_settled (eq_false_iff.mpr fun settled => ?_) h.late
    have gone := sound.shut (h.closed settled)
    rw [sound.armed t running] at gone
    cases gone
  | @begins i c ctx at_ open_ =>
    refine h.begins fun settled => ?_
    cases c with
    | checkpoint => cases (open_ rfl).symm.trans (h.closed settled)
    | flush =>
      obtain ⟨clean, saved⟩ := cond ctx at_ settled
      exact .inr (by simp [opened, clean, saved])
    | abort => exact .inl rfl
  | loops at_ =>
    refine h.iterate fun _ _ was => ?_
    rcases at_ with at_ | ⟨generation, at_⟩ <;> rw [at_] at was <;> exact was
  | timed at_ =>
    refine Ended.setThread { h with } fun _ _ was => ?_
    rw [at_] at was
    exact absurd trivial was
  | @resumes i o at_ =>
    cases o with
    | timer => exact h.setThread fun _ _ _ => id
    | call c ctx =>
      refine h.setThread fun _ _ was => ?_
      rw [at_] at was
      exact absurd trivial was
  | locks at_ dirty =>
    exact ended_of_not_settled (h.unsettled dirty at_ fun was => was trivial) h.late
  | reads at_ =>
    exact ended_of_not_settled (held at_ (sound.own at_).2.1 fun was => was trivial) h.late
  | @fails i target o e at_ =>
    have open_ := held at_ (sound.own at_).2.1 fun was => was trivial
    exact ended_resume (s := s.record cfg target (some e)) ⟨open_, h.late⟩
  | @persists i target o at_ =>
    have open_ := held at_ (sound.own at_).2.1 fun was => was trivial
    exact ended_resume (unsettled_schedule (s := s.persisted target) cfg open_ h.late)
  | refuses at_ | stores at_ =>
    have open_ := held at_ (sound.own at_).2.1 fun was => was trivial
    refine ended_of_not_settled open_ ?_
    show (s.late || s.settled) = false
    rw [h.late, open_]
    rfl
  | @returns i promised c ctx result at_ =>
    obtain ⟨-, closes, -⟩ := sound.own at_
    have before : (s.settle c ctx result promised).settled →
        s.closed ∧ (s.dirty = false ∨ ∀ j, j ≠ i → s.Settles (s.threads j)) := by
      intro settled
      have now : s.settled ∨ (c = .flush ∨ c = .abort ∧ result = .done) := by
        simpa [settle, or_assoc] using settled
      rcases now with was | now
      · exact ⟨h.closed was, (h.quiet was).imp id fun all j _ => all j⟩
      · refine ⟨closes ?_, cond c ctx result promised at_ now⟩
        rintro rfl
        simp at now
    refine ⟨fun settled => (before settled).1, fun settled => ?_, h.late⟩
    exact (before settled).2.imp_right fun all =>
      forall_setThread (P := fun _ pc => s.Settles pc) id all

end WriterState

open WriterState

/-- A run in which `Abort` returns `nil` while the callback of a fired timer has not yet
reached `flushOnce`, which then writes. -/
def abortRun : List (WriterStep ℕ Unit) :=
  [.append 1, .markDirty, .fire 0 0, .call 1 .abort, .go 1, .ret 1, .go 0, .go 0, .go 0,
    .store 0 none]

/-- A writer with background batching over a store with incremental append. -/
def exampleConfig : WriterConfig := ⟨false, false⟩

theorem init_exampleConfig : (writerSystem exampleConfig).init (new [] [] : WriterState ℕ Unit) :=
  ⟨[], [], List.prefix_refl _, rfl⟩

/-- The store is written after `Abort` has returned `nil`. -/
theorem abort_then_write :
    ∃ s : WriterState ℕ Unit, (writerSystem exampleConfig).Reachable s ∧
      s.late = true ∧ s.durable = [1] :=
  System.exists_of_run (f := fun s l => s.step exampleConfig l) (fun _ {_ _} ok => ok)
    init_exampleConfig _ abortRun (by decide)

variable {s : WriterState ε η}

/-- What a new writer has and every step keeps that meets a condition. -/
theorem holds_of_moves [DecidableEq η] {cfg : WriterConfig}
    {cond : WriterState ε η → WriterStep ε η → Prop} {P : WriterState ε η → Prop}
    (start : ∀ session durable, P (new session durable))
    (keeps : ∀ {s l s'}, P s → s.Sound cfg → cond s l → Moves cfg s l s' → P s')
    (reach : ((writerSystem cfg).restrict cond).Reachable s) : P s := by
  have inv : ((writerSystem cfg).restrict cond).Invariant fun s => s.Sound cfg ∧ P s := by
    refine ⟨fun {s} init => ⟨(writer_sound cfg).init init, ?_⟩, fun h ok => ?_⟩
    · obtain ⟨session, durable, -, rfl⟩ := init
      exact start session durable
    · have moved := moves_of_step h.1.armed ok.2
      exact ⟨h.1.moves moved, keeps h.2 h.1 ok.1 moved⟩
  exact (inv.holds reach).2

/-- **A closed writer is quiet.**  In every run whose steps meet `CloseCondition`, no
store call is made after an `Abort` has returned `nil` or a `Flush` has returned. -/
theorem no_write_after_close [DecidableEq η] (cfg : WriterConfig)
    (reach : ((writerSystem cfg).restrict CloseCondition).Reachable s) : s.late = false :=
  (holds_of_moves (fun _ _ => ended_of_not_settled rfl rfl) Ended.moves reach).late

/-- A step of a writer that is not settled, with which no call returns while it is dirty. -/
def WriterState.tryClean (s : WriterState ℕ Unit) (l : WriterStep ℕ Unit) :
    Option (WriterState ℕ Unit) :=
  if s.settled then none
  else match l with
    | .ret _ => if s.dirty then none else s.step exampleConfig l
    | _ => s.step exampleConfig l

theorem closes_of_tryClean (l : WriterStep ℕ Unit) {s s' : WriterState ℕ Unit}
    (h : s.tryClean l = some s') :
    ((writerSystem exampleConfig).restrict CloseCondition).step s l s' := by
  obtain ⟨unsettled, h⟩ := Option.ite_none_left_eq_some.mp h
  cases l with
  | ret i =>
    obtain ⟨clean, h⟩ := Option.ite_none_left_eq_some.mp h
    exact ⟨fun _ _ _ _ _ _ => .inl (eq_false_of_ne_true clean), h⟩
  | go i => exact ⟨fun _ _ settled => absurd settled unsettled, h⟩
  | _ => exact ⟨trivial, h⟩

/-- A flush writes what is pending while the callback of a timer is under way, which then finds
nothing to write. -/
theorem no_write_after_close_flush :
    ∃ s : WriterState ℕ Unit, ((writerSystem exampleConfig).restrict CloseCondition).Reachable s ∧
      s.settled = true ∧ s.durable = [1] ∧ s.late = false := by
  obtain ⟨s, reach, settled, durable⟩ := System.exists_of_run closes_of_tryClean
    init_exampleConfig (fun s => s.settled = true ∧ s.durable = [1])
    [.append 1, .markDirty, .fire 0 1, .call 0 .flush, .go 0, .go 0, .go 0, .go 1, .store 0 none,
      .go 0, .go 1, .go 0, .ret 0] (by decide)
  exact ⟨s, reach, settled, durable, no_write_after_close exampleConfig reach⟩

/-- A run in which the write of a timer callback is refused while a second timer runs. -/
def errorRun : List (WriterStep ℕ Unit) :=
  [.append 1, .markDirty, .fire 0 0, .go 0, .markDirty, .go 0, .go 0, .refuse 0 (), .go 0,
    .fire 1 1, .go 1, .go 1, .go 1, .store 1 none]

/-- The store is written after a persistence error has been retained. -/
theorem error_then_write :
    ∃ s : WriterState ℕ Unit, (writerSystem exampleConfig).Reachable s ∧
      s.rewrote = true ∧ s.lastErr = some () ∧ s.durable = [1] :=
  System.exists_of_run (f := fun s l => s.step exampleConfig l) (fun _ {_ _} ok => ok)
    init_exampleConfig _ errorRun (by decide)

/-- **The durable log follows the session.**  In every run the store holds a prefix of
the session, at least up to the saved version, and at least the events appended before
any `Checkpoint` of an open writer or `Flush` that returned `nil`.  In every run whose
steps meet `ErrorCondition`, no store call follows the first persistence error and every
later call returns that error. -/
theorem durable_log_follows [DecidableEq η] (cfg : WriterConfig) :
    ((writerSystem cfg).Reachable s → s.durable <+: s.session ∧ s.savedVersion ≤ s.durable.length ∧
        s.acked ≤ s.durable.length) ∧
      (((writerSystem cfg).restrict ErrorCondition).Reachable s →
        s.rewrote = false ∧ s.wrong = false) := by
  constructor
  · intro reach
    have sound := (writer_sound cfg).holds reach
    exact ⟨sound.log, sound.saved, le_trans sound.acked sound.saved⟩
  · intro reach
    have never : ∀ {P : Prop}, (none : Option η).isSome = true → P := fun h => by cases h
    have quenched := holds_of_moves
      (fun _ _ => ⟨never, never, never, fun _ => trivial, rfl, rfl⟩) Quenched.moves reach
    exact ⟨quenched.rewrote, quenched.wrong⟩

theorem durable_log_follows_refused :
    ∃ s : WriterState ℕ Unit, ((writerSystem exampleConfig).restrict ErrorCondition).Reachable s ∧
      s.lastErr = some () ∧ s.durable <+: s.session ∧ s.rewrote = false := by
  have start : ((writerSystem exampleConfig).restrict ErrorCondition).Reachable
      (new [1] [] : WriterState ℕ Unit) := .init ⟨[1], [], List.nil_prefix, rfl⟩
  have reach : ∃ s : WriterState ℕ Unit,
      ((writerSystem exampleConfig).restrict ErrorCondition).Reachable s ∧ s.lastErr = some () := by
    refine ⟨_, .step (l := .go 0) (.step (l := .refuse 0 ()) (.step (l := .go 0) (.step (l := .go 0)
      (.step (l := .go 0) (.step (l := .call 0 .checkpoint) start ⟨trivial, rfl⟩) ⟨?_, rfl⟩)
      ⟨?_, rfl⟩) ⟨?_, rfl⟩) ⟨trivial, rfl⟩) ⟨?_, rfl⟩, rfl⟩
    · intro o target e at_
      cases at_
    · intro o target e at_
      cases at_
    · intro o target e at_
      cases at_
    · intro o target e _ _
      refine ⟨rfl, fun j other => ?_⟩
      simp [setThread, storeCall, begin, enter, stopTimer, iterate, new,
        Function.update_of_ne other, Restless]
  obtain ⟨s, reached, err⟩ := reach
  exact ⟨s, reached, err, ((durable_log_follows exampleConfig).1 reached.of_restrict).1,
    ((durable_log_follows exampleConfig).2 reached).1⟩

end AutoAgent.Storage
