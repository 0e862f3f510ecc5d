import AutoAgent.Storage.WriteBehind

/-!
# Runs of the write-behind writer

Every step keeps `WriterState.Sound`: the store holds a prefix of the session that
reaches at least to the saved version, only one goroutine is between the first and
the last section of `flushOnce`, and a call in its loop is either covered by the
saved version or finds the writer dirty.
-/

namespace AutoAgent.Storage

open List

variable {ε η : Type}

namespace WriterState

variable {cfg : WriterConfig} {s s' : WriterState ε η} {i : ℕ} {c : WriterCall}
  {ctx : CallContext η}

/-! ## Timers -/

/-- Stopping the timer leaves none running. -/
theorem stopTimer_eq (armed : ∀ t ∈ s.armed, s.timer = some t) :
    s.stopTimer = { s with timer := none, armed := [] } := by
  unfold stopTimer
  split
  · next none_ =>
      have empty : s.armed = [] := eq_nil_iff_forall_not_mem.mpr fun t mem => by
        simp [none_] at armed
        exact armed t mem
      obtain ⟨_, _, _, _, _, _, _, _, _, _, _, _, _, _, _, _, _, _⟩ := s
      simp only at none_ empty
      rw [none_, empty]
  · next t some_ =>
      have empty : s.armed.filter (· != t) = [] := by
        rw [filter_eq_nil_iff]
        intro t' mem
        have same := armed t' mem
        rw [some_] at same
        simp [some.inj same]
      rw [empty]

/-- A timer is started only for an open, dirty and idle writer without timer and
without error. -/
theorem schedule_cases (cfg : WriterConfig) (s : WriterState ε η) :
    s.schedule cfg = s ∨ (s.closed = false ∧ s.lastErr = none ∧ s.timer = none ∧ s.schedule cfg =
        { s with
          timer := some s.nextTimer, armed := s.nextTimer :: s.armed
          nextTimer := s.nextTimer + 1 }) := by
  unfold schedule
  split
  · exact .inl rfl
  · next free =>
      simp only [or_eq_true, not_or, not_eq_true, Option.isSome_eq_false_iff,
        Option.isNone_iff_eq_none] at free
      exact .inr ⟨free.1.1.1.1.2, free.2, free.1.2, rfl⟩

theorem Core.schedule (h : s.Core) : (s.schedule cfg).Core := by
  rcases schedule_cases cfg s with same | ⟨open_, -, none_, started⟩
  · rwa [same]
  · rw [started]
    refine ⟨h.log, h.saved, h.held, h.busy, fun t mem => ?_, fun t mem => ?_, fun shut => ?_,
      h.acked⟩
    · rcases mem_cons.mp mem with rfl | old
      · rfl
      · have was := h.armed t old
        rw [none_] at was
        cases was
    · rcases mem_cons.mp mem with rfl | old
      · exact Nat.lt_succ_self _
      · exact Nat.lt_succ_of_lt (h.fresh t old)
    · simp [open_] at shut

/-- Starting a timer changes nothing a goroutine relies on. -/
theorem Stable.schedule (h : Stable s s') : Stable s (s'.schedule cfg) := by
  rcases schedule_cases cfg s' with same | ⟨-, -, -, started⟩
  · rwa [same]
  · rw [started]
    refine ⟨h.session, h.closed, h.lastErr, h.saved, h.dirty, le_trans h.timers (Nat.le_succ _),
      fun t mem => ?_⟩
    rcases mem_cons.mp mem with rfl | old
    · exact .inr h.timers
    · exact h.armed t old

theorem threads_schedule (cfg : WriterConfig) (s : WriterState ε η) :
    (s.schedule cfg).threads = s.threads := by
  rcases schedule_cases cfg s with same | ⟨-, -, -, started⟩
  · rw [same]
  · rw [started]

theorem holder_schedule (cfg : WriterConfig) (s : WriterState ε η) :
    (s.schedule cfg).holder = s.holder ∧ (s.schedule cfg).savedVersion = s.savedVersion ∧
      (s.schedule cfg).durable = s.durable := by
  rcases schedule_cases cfg s with same | ⟨-, -, -, started⟩
  · rw [same]
    exact ⟨rfl, rfl, rfl⟩
  · rw [started]
    exact ⟨rfl, rfl, rfl⟩

/-! ## What a step does -/

/-- A call closes the writer if it is the last one, makes it dirty if events are pending, and
stops the timer. -/
def opened (s : WriterState ε η) (c : WriterCall) : WriterState ε η :=
  { s with
    closed := s.closed || decide (c ≠ .checkpoint)
    dirty := s.dirty || (decide (c ≠ .abort) && decide (s.savedVersion < s.session.length))
    timer := none
    armed := [] }

/-- The events up to a version have been persisted. -/
def persisted (s : WriterState ε η) (target : ℕ) : WriterState ε η :=
  { s with
    flushing := false, holder := none, changed := s.changed + 1, savedVersion := target
    dirty := decide (target < s.session.length), timer := none, armed := [] }

inductive Moves (cfg : WriterConfig) [DecidableEq η] (s : WriterState ε η) :
    WriterStep ε η → WriterState ε η → Prop where
  | append (e : ε) : Moves cfg s (.append e) { s with session := s.session ++ [e] }
  | ignored (closed : s.closed) : Moves cfg s .markDirty s
  | marked (open_ : s.closed = false) :
      Moves cfg s .markDirty (schedule cfg { s with dirty := true })
  | call {i : ℕ} {c : WriterCall} (at_ : s.threads i = .idle) :
      Moves cfg s (.call i c) (s.setThread i (.start c ⟨s.session.length, s.lastErr⟩))
  | fire {t i : ℕ} (at_ : s.threads i = .idle) (running : t ∈ s.armed) : Moves cfg s (.fire t i)
      (setThread { s with armed := s.armed.filter (· != t) } i (.fired t))
  /-- a `Checkpoint` of a closed writer -/
  | refused {i : ℕ} {ctx : CallContext η} (at_ : s.threads i = .start .checkpoint ctx)
      (closed : s.closed) : Moves cfg s (.go i)
      (s.setThread i (.returned .checkpoint ctx (errResult s.lastErr) 0))
  | begins {i : ℕ} {c : WriterCall} {ctx : CallContext η} (at_ : s.threads i = .start c ctx)
      (open_ : c = .checkpoint → s.closed = false) :
      Moves cfg s (.go i) ((s.opened c).iterate i c ctx)
  | loops {i : ℕ} {c : WriterCall} {ctx : CallContext η}
      (at_ : s.threads i = .loop c ctx ∨ ∃ generation, s.threads i = .wait c ctx generation) :
      Moves cfg s (.go i) (s.iterate i c ctx)
  | timed {i t : ℕ} {timer : Option ℕ} (at_ : s.threads i = .fired t)
      (same : timer = s.timer ∨ s.timer = some t ∧ timer = none) :
      Moves cfg s (.go i) (setThread { s with timer } i (.check .timer))
  | resumes {i : ℕ} {o : FlushOwner η} (at_ : s.threads i = .check o) :
      Moves cfg s (.go i) (s.resume i o)
  | locks {i : ℕ} {o : FlushOwner η} (at_ : s.threads i = .check o) (dirty : s.dirty)
      (idle : s.flushing = false) : Moves cfg s (.go i)
      (setThread { s with flushing := true, holder := some i } i (.read o s.savedVersion))
  | reads {i saved : ℕ} {o : FlushOwner η} (at_ : s.threads i = .read o saved) :
      Moves cfg s (.go i)
        (s.setThread i (.write o saved (if cfg.saves then s.session else s.session.drop saved)))
  | fails {i target : ℕ} {o : FlushOwner η} {e : η}
      (at_ : s.threads i = .finish o target (some e)) :
      Moves cfg s (.go i) ((s.record cfg target (some e)).resume i o)
  | persists {i target : ℕ} {o : FlushOwner η} (at_ : s.threads i = .finish o target none) :
      Moves cfg s (.go i) (((s.persisted target).schedule cfg).resume i o)
  | cancels {i generation : ℕ} {c : WriterCall} {ctx : CallContext η}
      (at_ : s.threads i = .wait c ctx generation) :
      Moves cfg s (.cancel i) (s.setThread i (.returned c ctx .cancelled 0))
  | refuses {i saved : ℕ} {o : FlushOwner η} {batch : List ε} {e : η}
      (at_ : s.threads i = .write o saved batch) :
      Moves cfg s (.refuse i e) (s.storeCall.setThread i (.finish o saved (some e)))
  | stores {i saved : ℕ} {o : FlushOwner η} {batch durable : List ε} {err : Option η}
      (at_ : s.threads i = .write o saved batch) (current : s.durable.length = saved)
      (new : durable = if cfg.saves then batch else s.durable ++ batch) :
      Moves cfg s (.store i err)
        (setThread { s.storeCall with durable } i (.finish o durable.length err))
  | returns {i promised : ℕ} {c : WriterCall} {ctx : CallContext η} {result : CallResult η}
      (at_ : s.threads i = .returned c ctx result promised) :
      Moves cfg s (.ret i) ((s.settle c ctx result promised).setThread i .idle)

theorem begin_eq (armed : ∀ t ∈ s.armed, s.timer = some t)
    (open_ : c = .checkpoint → s.closed = false) :
    s.begin i ctx c = (s.opened c).iterate i c ctx := by
  cases c with
  | checkpoint =>
    rw [begin, enter, stopTimer_eq (by exact armed), if_neg (by simp [open_ rfl])]
    simp [opened]
  | flush =>
    rw [begin, enter, stopTimer_eq (by exact armed)]
    simp [opened]
  | abort =>
    rw [begin, stopTimer_eq (by exact armed)]
    simp [opened]

theorem moves_of_go [DecidableEq η] (armed : ∀ t ∈ s.armed, s.timer = some t)
    (ok : s.go cfg i = some s') : Moves cfg s (.go i) s' := by
  unfold go at ok
  split at ok <;> try simp only [ite_none_right_eq_some, some.injEq, reduceCtorEq] at ok
  next c ctx at_ =>
    subst ok
    by_cases shut : c = .checkpoint ∧ s.closed
    · obtain ⟨rfl, closed⟩ := shut
      rw [begin, if_pos closed]
      exact .refused at_ closed
    · have open_ : c = .checkpoint → s.closed = false := fun same => by simpa [same] using shut
      rw [begin_eq armed open_]
      exact .begins at_ open_
  next at_ => exact ok ▸ .loops (.inl at_)
  next at_ => exact ok.2 ▸ .loops (.inr ⟨_, at_⟩)
  next t at_ =>
    subst ok
    split
    next own => exact .timed at_ (.inr ⟨own, rfl⟩)
    · exact .timed at_ (.inl rfl)
  next o at_ =>
    split at ok <;> cases ok
    · exact .resumes at_
    next free =>
      simp only [or_eq_true, not_eq_true', not_or, not_eq_false, not_eq_true] at free
      exact .locks at_ free.1 free.2
  next at_ => exact ok ▸ .reads at_
  next o target err at_ =>
    subst ok
    cases err with
    | some e => exact .fails at_
    | none =>
      rw [record, stopTimer_eq (by exact armed)]
      exact .persists at_

theorem moves_of_step [DecidableEq η] {l : WriterStep ε η}
    (armed : ∀ t ∈ s.armed, s.timer = some t) (ok : s.step cfg l = some s') : Moves cfg s l s' := by
  cases l with
  | append e =>
    cases ok
    exact .append e
  | markDirty =>
    cases ok
    unfold markDirty
    split
    next closed => exact .ignored closed
    next open_ => exact .marked (by simpa using open_)
  | go i => exact moves_of_go armed ok
  | _ =>
    simp only [step] at ok
    split at ok <;>
      simp only [ite_none_right_eq_some, some.injEq, reduceCtorEq] at ok
    next at_ =>
      first
        | exact ok ▸ .call at_
        | exact ok.2 ▸ .fire at_ ok.1
        | exact ok ▸ .cancels at_
        | exact ok ▸ .refuses at_
        | exact ok.2 ▸ .stores at_ ok.1 rfl
        | exact ok ▸ .returns at_

/-! ## The invariant -/

theorem Sound.own {pc : WriterPC ε η} (h : s.Sound cfg) (at_ : s.threads i = pc) :
    ThreadOK cfg s i pc := at_ ▸ h.threads i

/-- The goroutines other than the one that moves keep their conditions: nobody but the
goroutine that holds the flag relies on it. -/
theorem Sound.others (h : s.Sound cfg) (stable : Stable s s')
    (frame : s.holder = some i ∨ s.holder = none ∨ s'.holder = s.holder ∧
      s'.savedVersion = s.savedVersion ∧ s'.durable = s.durable := by
      exact .inr (.inr ⟨rfl, rfl, rfl⟩))
    (same : s'.threads = s.threads := by rfl) : ∀ j, j ≠ i → ThreadOK cfg s' j (s'.threads j) := by
  intro j other
  rw [same]
  refine stable.thread (fun held => ?_) (h.threads j)
  rcases frame with own | free | ⟨holder, saved, durable⟩
  · exact absurd (some.inj (held.symm.trans own)) other
  · cases held.symm.trans free
  · exact ⟨holder.trans held, saved, by rw [durable]⟩

/-- A round of a call's loop. -/
theorem sound_iterate (core : s.Core) (others : ∀ j, j ≠ i → ThreadOK cfg s j (s.threads j))
    (p : s.Pending c ctx) : (s.iterate i c ctx).Sound cfg := by
  unfold iterate
  split
  · split
    · exact sound_setThread core others p
    · exact sound_setThread core others ⟨p.knows, p.closed, fun _ => Nat.zero_le _⟩
  · next flushes =>
      split
      · exact sound_setThread core others ⟨p.knows, p.closed, fun _ => Nat.zero_le _⟩
      · split
        · next clean =>
            refine sound_setThread core others ⟨p.knows, p.closed, fun _ => ?_⟩
            refine (p.covered flushes).resolve_left ?_
            simpa using clean
        · split
          · exact sound_setThread core others p
          · exact sound_setThread core others p

/-- The first section of a call. -/
theorem Sound.begins (h : s.Sound cfg) (knows : s.Knows ctx) :
    ((s.opened c).iterate i c ctx).Sound cfg := by
  -- the events of the call are covered
  have pending : (s.opened c).Pending c ctx := by
    refine ⟨⟨knows.version, knows.err⟩, fun last => by simp [opened, last], fun flushes => ?_⟩
    by_cases more : s.savedVersion < s.session.length
    · exact .inl (by simp [opened, flushes, more])
    · exact .inr (le_trans knows.version (Nat.le_of_not_lt more))
  have dirty : s.dirty → (s.opened c).dirty := fun was => by simp [opened, was]
  have stable : Stable s (s.opened c) := by
    refine { Stable.refl s with
      closed := fun was => by simp [opened, was]
      dirty := ?_
      armed := nofun }
    cases was : s.dirty with
    | true => exact .inl (dirty was)
    | false =>
      cases now : (s.opened c).dirty with
      | true => exact .inl rfl
      | false => exact .inr (.inl rfl)
  exact sound_iterate { h.toCore with
    busy := fun flushing => dirty (h.busy flushing), armed := nofun, fresh := nofun, shut :=
      fun _ => rfl }
    (h.others stable) pending

variable {o : FlushOwner η}

/-- `flushOnce` returns to its owner. -/
theorem sound_resume (core : s.Core) (others : ∀ j, j ≠ i → ThreadOK cfg s j (s.threads j))
    (owner : s.OwnerOK o) : (s.resume i o).Sound cfg := by
  cases o with
  | timer => exact sound_setThread core others trivial
  | call c ctx => exact sound_setThread core others owner

/-- The last section of `flushOnce` after a failed write. -/
theorem Sound.fails (h : s.Sound cfg) {target : ℕ} {e : η}
    (at_ : s.threads i = .finish o target (some e)) :
    ((s.record cfg target (some e)).resume i o).Sound cfg := by
  obtain ⟨owner, held, -⟩ := h.own at_
  have stable : Stable s (s.record cfg target (some e)) := by
    refine { Stable.refl s with lastErr := fun e' same => ?_ }
    show s.lastErr.or (some e) = some e'
    rw [same]
    rfl
  have core : Core (s.record cfg target (some e)) :=
    { h.toCore with held := rfl, busy := nofun }
  exact sound_resume core (h.others stable (.inl held)) (stable.owner owner)

/-- The last section of `flushOnce` after a write. -/
theorem Sound.persists (h : s.Sound cfg) {target : ℕ} (at_ : s.threads i = .finish o target none) :
    (((s.persisted target).schedule cfg).resume i o).Sound cfg := by
  obtain ⟨owner, held, bounds⟩ := h.own at_
  obtain ⟨low, high⟩ := bounds rfl
  have stable : Stable s (s.persisted target) := by
    refine { Stable.refl s with saved := low, dirty := ?_, armed := nofun }
    by_cases more : target < s.session.length
    · exact .inl (by simp [persisted, more])
    · exact .inr (.inr (Nat.le_of_not_lt more))
  have core : Core (s.persisted target) := { h.toCore with
    saved := high, held := rfl, busy := nofun, armed := nofun, fresh := nofun, shut := fun _ => rfl
    acked := le_trans h.acked low }
  exact sound_resume core.schedule (h.others stable.schedule (.inl held) (threads_schedule ..))
    (stable.schedule.owner owner)

/-- The store call of the goroutine that holds the flag. -/
theorem Sound.stores (h : s.Sound cfg) {saved : ℕ} {batch durable : List ε} {err : Option η}
    (at_ : s.threads i = .write o saved batch) (current : s.durable.length = saved)
    (new : durable = if cfg.saves then batch else s.durable ++ batch) :
    (setThread { s.storeCall with durable } i
      (.finish o durable.length err)).Sound cfg := by
  obtain ⟨owner, held, rfl, piece⟩ := h.own at_
  have grows : durable <+: s.session ∧ s.durable.length ≤ durable.length := by
    unfold BatchOK at piece
    split at new
    · next saves =>
        rw [if_pos saves] at piece
        exact new ▸ ⟨piece.1, current ▸ piece.2⟩
    · next appends =>
        rw [if_neg appends] at piece
        obtain ⟨rest, split⟩ := piece
        rw [new, length_append]
        refine ⟨⟨rest, ?_⟩, Nat.le_add_right _ _⟩
        rw [append_assoc, split, ← current]
        conv_lhs => rw [prefix_iff_eq_take.mp h.log]
        rw [length_take, Nat.min_eq_left h.log.length_le, take_append_drop]
  have stable : Stable s { s.storeCall with durable } := { Stable.refl s with }
  have kept : s.savedVersion ≤ durable.length := le_trans h.saved grows.2
  exact sound_setThread { h.toCore with log := grows.1, saved := kept }
    (h.others stable (.inl held)) ⟨stable.owner owner, held, fun _ => ⟨kept, le_refl _⟩⟩

theorem Sound.moves [DecidableEq η] (h : s.Sound cfg) {l : WriterStep ε η}
    (moves : Moves cfg s l s') : s'.Sound cfg := by
  have alone : ∀ {i}, ∀ j, j ≠ i → ThreadOK cfg s j (s.threads j) := fun j _ => h.threads j
  cases moves with
  | append e =>
    have stable : Stable s { s with session := s.session ++ [e] } :=
      { Stable.refl s with session := prefix_append .. }
    exact ⟨{ h.toCore with log := h.log.trans (prefix_append ..) }, fun j =>
      stable.thread (fun held => ⟨held, rfl, le_refl _⟩) (h.threads j)⟩
  | ignored => exact h
  | marked =>
    have core : Core { s with dirty := true } := { h.toCore with busy := fun _ => rfl }
    have stable : Stable s { s with dirty := true } := { Stable.refl s with dirty := .inl rfl }
    refine ⟨core.schedule, fun j => ?_⟩
    rw [threads_schedule]
    obtain ⟨holder, saved, durable⟩ := holder_schedule cfg { s with dirty := true }
    exact stable.schedule.thread
      (fun held => ⟨holder.trans held, saved, (congrArg List.length durable).ge⟩) (h.threads j)
  | call => exact sound_setThread h.toCore alone ⟨le_refl _, fun _ => id⟩
  | @fire t _ _ running =>
    have fewer : ∀ t' ∈ s.armed.filter (· != t), t' ∈ s.armed := fun t' mem =>
      (mem_filter.mp mem).1
    have stable : Stable s { s with armed := s.armed.filter (· != t) } :=
      { Stable.refl s with armed := fun t' mem => .inl (fewer t' mem) }
    exact sound_setThread { h.toCore with
      armed := fun t' mem => h.armed t' (fewer t' mem)
      fresh := fun t' mem => h.fresh t' (fewer t' mem) }
      (h.others stable) ⟨h.fresh t running, by simp⟩
  | refused at_ =>
    exact sound_setThread h.toCore alone
      ⟨h.own at_, fun other => absurd rfl other, fun _ => Nat.zero_le _⟩
  | begins at_ => exact h.begins (h.own at_)
  | loops at_ =>
    rcases at_ with at_ | ⟨generation, at_⟩
    · exact sound_iterate h.toCore alone (h.own at_)
    · exact sound_iterate h.toCore alone (h.own at_)
  | timed at_ same =>
    rcases same with rfl | ⟨current, rfl⟩
    · exact sound_setThread h.toCore alone trivial
    · -- the timer of the callback no longer runs, so none does
      have core : Core { s with timer := none } := by
        refine { h.toCore with armed := fun t' mem => ?_, shut := fun _ => rfl }
        obtain rfl := some.inj (current.symm.trans (h.armed t' mem))
        exact absurd mem (h.own at_).2
      exact sound_setThread core (h.others { Stable.refl s with }) trivial
  | resumes at_ => exact sound_resume h.toCore alone (h.own at_)
  | @locks i o at_ dirty idle =>
    have nobody : s.holder = none := by simpa [idle] using h.held.symm
    have stable : Stable s { s with flushing := true, holder := some i } := { Stable.refl s with }
    exact sound_setThread { h.toCore with held := rfl, busy := fun _ => dirty }
      (h.others stable (.inr (.inl nobody))) ⟨stable.owner (h.own at_), rfl, rfl⟩
  | reads at_ =>
    obtain ⟨owner, held, rfl⟩ := h.own at_
    refine sound_setThread h.toCore alone ⟨owner, held, rfl, ?_⟩
    unfold BatchOK
    split
    · exact ⟨prefix_refl _, le_trans h.saved h.log.length_le⟩
    · exact prefix_refl _
  | fails at_ => exact h.fails at_
  | persists at_ => exact h.persists at_
  | cancels at_ =>
    exact sound_setThread h.toCore alone ⟨(h.own at_).knows, (h.own at_).closed, nofun⟩
  | refuses at_ =>
    obtain ⟨owner, held, -⟩ := h.own at_
    have stable : Stable s s.storeCall := { Stable.refl s with }
    exact sound_setThread { h.toCore with } (h.others stable (.inl held))
      ⟨stable.owner owner, held, nofun⟩
  | stores at_ current new => exact h.stores at_ current new
  | @returns i promised c ctx result at_ =>
    have stable : Stable s (s.settle c ctx result promised) := { Stable.refl s with }
    refine sound_setThread { h.toCore with acked := ?_ } (h.others stable) trivial
    show (if result = .done then max s.acked promised else s.acked) ≤ s.savedVersion
    split
    · next done => exact Nat.max_le.mpr ⟨h.acked, (h.own at_).2.2 done⟩
    · exact h.acked

theorem writer_sound [DecidableEq η] (cfg : WriterConfig) :
    (writerSystem cfg).Invariant (fun s : WriterState ε η => s.Sound cfg) where
  init := by
    rintro _ ⟨session, durable, log, rfl⟩
    exact ⟨⟨log, le_refl _, rfl, by simp [new], by simp [new], by simp [new], by simp [new],
      Nat.zero_le _⟩, fun _ => trivial⟩
  step h ok := h.moves (moves_of_step h.armed ok)

end WriterState

end AutoAgent.Storage
