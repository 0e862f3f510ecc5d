import AutoAgent.App.Liveness

/-!
# Runs of the liveness scheduler

Where a task is decides what the scheduler may do with it: in the heap, on its way to the
end of its callback (`ahead`), or on its way back to the loop (`behind`).  Most steps only
move tasks along that way; `Change` lists the others, and both results are read off it.

**The table.**  Each active task is the entry of its key, as long as no key is registered
again before the loop has completed the earlier task of that key.  `complete` deletes the
entry of the key whoever it belongs to.

**Stop functions.**  A stop function that returns leaves no callback behind, unless it is
called after `Close` for a task whose callback is running.  `closeWork` makes such a task
inactive, and `unregister` takes an inactive task for one that needs no wait.
-/

namespace AutoAgent.App

open List

open Function (update update_of_ne update_self)

/-- The worker is with the task and has not closed `done`. -/
def WorkerPC.ahead (id : ℕ) : WorkerPC → Bool
  | .busy _ .finishing => false
  | .busy id' _ => id' == id
  | _ => false

/-- The worker returns the task. -/
def WorkerPC.behind (id : ℕ) : WorkerPC → Bool
  | .busy id' .finishing => id' == id
  | _ => false

/-- The task the loop is about to send. -/
def LoopPC.sends (id : ℕ) : LoopPC → ℕ
  | .send id' _ => if id' = id then 1 else 0
  | _ => 0

namespace Scheduler

/-- How often the task is on its way to the end of its callback. -/
def ahead (s : Scheduler) (id : ℕ) : ℕ :=
  s.loop.sends id + s.work.count id + s.workers.countP (·.ahead id)

/-- How often the task is on its way back to the loop. -/
def behind (s : Scheduler) (id : ℕ) : ℕ := s.workers.countP (·.behind id) + s.finish.count id

/-- The task was dispatched and has not been completed. -/
def Pending (s : Scheduler) (id : ℕ) : Prop := 0 < s.ahead id + s.behind id

/-- The callback of the task is running, from the moment at which its worker has found that the
context has not ended. -/
def Calls (s : Scheduler) (id : ℕ) : Prop := WorkerPC.busy id .calling ∈ s.workers

instance (s : Scheduler) (id : ℕ) : Decidable (s.Calls id) :=
  inferInstanceAs (Decidable (_ ∈ s.workers))

variable {s s' : Scheduler} {l : LivenessStep} {id w : ℕ} {now : ℤ}

theorem Calls.ahead (calls : s.Calls id) : 0 < s.ahead id := by
  have found : 0 < s.workers.countP (·.ahead id) :=
    countP_pos_iff.mpr ⟨_, calls, by simp [WorkerPC.ahead]⟩
  unfold Scheduler.ahead
  omega

/-! ## What a step does -/

/-- Tasks only move along their way. -/
structure Flows (s s' : Scheduler) : Prop where
  task : ∀ id, (s'.tasks id).key = (s.tasks id).key ∧
    (s'.tasks id).active = (s.tasks id).active ∧ (s'.tasks id).running = (s.tasks id).running ∧
    (s'.tasks id).done = (s.tasks id).done ∧
    ((s.tasks id).cancelled → (s'.tasks id).cancelled)
  same : s'.registered = s.registered ∧ s'.table = s.table ∧ s'.heap = s.heap ∧
    s'.stops = s.stops ∧ s'.shut = s.shut
  closed : s.closed → s'.closed
  ahead : ∀ id, s'.ahead id ≤ s.ahead id
  pending : ∀ id, s'.ahead id + s'.behind id ≤ s.ahead id + s.behind id
  calls : ∀ id, s'.Calls id → s.Calls id ∨ 0 < s.ahead id ∧ (s.tasks id).cancelled = false
  closing : s'.loop = .closing → s.loop = .closing ∨ s'.closed

inductive Change (s : Scheduler) : LivenessStep → Scheduler → Prop where
  | flow {e t} (flows : Flows s t) : Change s e t
  | register {r n t} (ok : s.register r n = .ok t) : Change s (.register r n) t
  | stop {i} (known : i < s.registered) (ready : s.stops i = .ready)
      (active : (s.tasks i).active) :
      Change s (.stop i) { s with
        tasks := update s.tasks i { s.tasks i with active := false, cancelled := true }
        table := update s.table (s.tasks i).key none
        heap := s.heap.erase i
        stops := update s.stops i
          (if (s.tasks i).running ∧ (s.tasks i).done ≠ 0 then .waiting (s.tasks i).done
          else .returned) }
  | stopIdle {i} (known : i < s.registered) (ready : s.stops i = .ready)
      (active : (s.tasks i).active = false) :
      Change s (.stop i) { s with stops := update s.stops i .returned }
  | stopped {e i done} (waits : s.stops i = .waiting done) (shut : (i, done) ∈ s.shut) :
      Change s e { s with stops := update s.stops i .returned }
  /-- `dispatchDue` drops a task from the heap -/
  | pop {e i} (listed : i ∈ s.heap) : Change s e { s with heap := s.heap.erase i }
  | drop {e i} (listed : i ∈ s.heap) (active : (s.tasks i).active)
      (cancelled : (s.tasks i).cancelled) :
      Change s e { s with
        tasks := update s.tasks i { s.tasks i with active := false }
        table := update s.table (s.tasks i).key none
        heap := s.heap.erase i }
  | dispatch {e i n} (pc : s.loop = .dispatch n) (listed : i ∈ s.heap)
      (active : (s.tasks i).active) :
      Change s e { s with
        tasks := update s.tasks i
          { s.tasks i with running := true, done := (s.tasks i).done + 1 }
        heap := s.heap.erase i
        loop := .send i n }
  /-- a task is completed for the last time -/
  | finish {e i rest} {pc : LoopPC} (moves : ∀ j, pc.sends j = s.loop.sends j)
      (open_ : pc ≠ .closing) (finish : s.finish = i :: rest) :
      Change s e { s with
        tasks := update s.tasks i { s.tasks i with running := false, active := false }
        table := update s.table (s.tasks i).key none
        finish := rest, loop := pc }
  | again {e i rest next} {pc : LoopPC} (moves : ∀ j, pc.sends j = s.loop.sends j)
      (open_ : pc ≠ .closing) (finish : s.finish = i :: rest)
      (active : (s.tasks i).active) :
      Change s e { s with
        tasks := update s.tasks i { s.tasks i with running := false, next }
        heap := i :: s.heap
        finish := rest, loop := pc }
  | close {e i k} (here : s.workers[k]? = some (.busy i .closing)) :
      Change s e { s with
        shut := (i, (s.tasks i).done) :: s.shut
        workers := s.workers.set k (.busy i .finishing) }
  | closeWork {e} (pc : s.loop = .closing) : Change s e s.closeWork

/-- What a worker that goes on changes in a count of workers. -/
theorem countP_set {pcs : List WorkerPC} {old : WorkerPC} (here : pcs[w]? = some old)
    (new : WorkerPC) (p : WorkerPC → Bool) :
    (pcs.set w new).countP p + (p old).toNat = pcs.countP p + (p new).toNat := by
  obtain ⟨inside, rfl⟩ := List.getElem?_eq_some_iff.mp here
  have one : (p pcs[w]).toNat ≤ pcs.countP p := by
    cases meets : p pcs[w] with
    | false => exact Nat.zero_le _
    | true => exact countP_pos_iff.mpr ⟨_, getElem_mem inside, meets⟩
  rw [List.countP_set inside]
  cases meets : p pcs[w] <;> cases p new <;>
    simp only [meets, Bool.toNat_true, Bool.toNat_false, if_true, false_eq_true,
      if_false] at one ⊢ <;> omega

/-- A loop that goes on without touching a task. -/
theorem flows_loop {pc : LoopPC} (closing : pc = .closing → s.closed)
    (sends : ∀ id, pc.sends id = 0 := by intro id; rfl) : Flows s { s with loop := pc } where
  task _ := ⟨rfl, rfl, rfl, rfl, id⟩
  same := ⟨rfl, rfl, rfl, rfl, rfl⟩
  closed := id
  ahead id := by
    simp only [ahead, sends]
    omega
  pending id := by
    simp only [ahead, behind, sends]
    omega
  calls _ calls := .inl calls
  closing here := .inr (closing here)

/-- A worker that goes on, with what it takes from `work` and puts into `finish`. -/
theorem flows_worker {old new : WorkerPC} (here : s.workers[w]? = some old) {tasks : ℕ → Task}
    {work finish : List ℕ}
    (ahead : ∀ id, work.count id + (new.ahead id).toNat ≤ s.work.count id + (old.ahead id).toNat)
    (behind : ∀ id, work.count id + (new.ahead id).toNat + (new.behind id).toNat +
      finish.count id ≤ s.work.count id + (old.ahead id).toNat + (old.behind id).toNat +
        s.finish.count id)
    (calls : ∀ id, new = .busy id .calling → old.ahead id ∧ (s.tasks id).cancelled = false)
    (task : ∀ id, tasks id = s.tasks id ∨ tasks id =
      { s.tasks id with failed := true } := by simp) :
    Flows s { s with
      tasks, work, finish, workers := s.workers.set w new } where
  task id := by
    rcases task id with same | same <;> simp [same]
  same := ⟨rfl, rfl, rfl, rfl, rfl⟩
  closed := id
  ahead id := by
    have moved := countP_set here new (·.ahead id)
    have := ahead id
    simp only [Scheduler.ahead]
    omega
  pending id := by
    have moved := countP_set here new (·.ahead id)
    have moved' := countP_set here new (·.behind id)
    have := behind id
    simp only [Scheduler.ahead, Scheduler.behind]
    omega
  calls id calls' := by
    rcases mem_or_eq_of_mem_set calls' with before | same
    · exact .inl before
    · obtain ⟨held, live⟩ := calls id same.symm
      refine .inr ⟨?_, live⟩
      have found : 0 < s.workers.countP (·.ahead id) :=
        countP_pos_iff.mpr ⟨old, mem_of_getElem? here, held⟩
      simp only [Scheduler.ahead]
      omega
  closing := .inl

theorem change_of_workerStep {other : Bool} (h : s.workerStep w other = some s') :
    Change s l s' := by
  -- a worker that has nothing in hand, before or after
  have idle : ∀ {old new : WorkerPC}, s.workers[w]? = some old → (∀ id, new.ahead id = false) →
      (∀ id, new.behind id = false) → Change s l { s with workers := s.workers.set w new } := by
    intro old new here ahead behind
    refine .flow (flows_worker here (fun j => ?_) (fun j => ?_) ?_)
    · simp [ahead j]
    · simp [ahead j, behind j]
      omega
    · rintro j rfl
      simpa [WorkerPC.ahead] using ahead j
  unfold workerStep at h
  split at h <;> try simp only [some.injEq, reduceCtorEq] at h
  next here =>
    split at h
    next id rest work =>
      cases h
      refine .flow (flows_worker here (fun j => ?_) (fun j => ?_) (by simp)) <;>
      · rw [work, count_cons]
        simp only [WorkerPC.ahead, WorkerPC.behind]
        cases id == j <;> simp
    next =>
      simp only [ite_none_right_eq_some, some.injEq] at h
      obtain ⟨-, rfl⟩ := h
      exact idle here (fun _ => rfl) fun _ => rfl
  next id here =>
    subst h
    refine .flow (flows_worker here (fun j => ?_) (fun j => ?_) (fun j same => ?_))
    · split <;> simp [WorkerPC.ahead]
    · split <;> simp [WorkerPC.ahead, WorkerPC.behind]
    · split at same
      · cases same
      next live =>
        cases same
        exact ⟨by simp [WorkerPC.ahead], by simpa using live⟩
  next id here =>
    subst h
    refine .flow (flows_worker here (fun j => ?_) (fun j => ?_)
      (fun j same => ?_)) <;> cases other <;> simp_all [WorkerPC.ahead, WorkerPC.behind]
  next id here =>
    subst h
    refine .flow (flows_worker here (fun j => ?_) (fun j => ?_) (by simp) fun j => ?_)
    · simp [WorkerPC.ahead]
    · simp [WorkerPC.ahead, WorkerPC.behind]
    · by_cases same : j = id
      · exact .inr (by rw [same, update_self])
      · exact .inl (update_of_ne same _ _)
  next id here => exact h ▸ .close here
  next id here =>
    split at h <;> simp only [ite_none_right_eq_some, some.injEq] at h
    · obtain ⟨-, rfl⟩ := h
      exact idle here (fun _ => rfl) fun _ => rfl
    · obtain ⟨-, rfl⟩ := h
      refine .flow (flows_worker here (fun _ => by simp [WorkerPC.ahead]) (fun j => ?_) (by simp))
      simp only [WorkerPC.ahead, WorkerPC.behind, count_append, count_singleton]
      cases id == j <;> simp only [Bool.toNat_true, Bool.toNat_false, if_true, false_eq_true,
        if_false] <;> omega

theorem change_of_loopStep {e : LoopEvent} (h : s.loopStep e = some s') : Change s l s' := by
  unfold loopStep at h
  split at h <;> try simp only [ite_none_right_eq_some, some.injEq, reduceCtorEq] at h
  · exact .flow (h ▸ flows_loop nofun)
  · obtain ⟨closed, rfl⟩ := h
    exact .flow (flows_loop fun _ => closed)
  · exact .flow (h ▸ flows_loop nofun)
  next pc =>
    split at h
    next finish =>
      cases h
      unfold complete
      dsimp only
      split
      · exact .finish (fun _ => by rw [pc]; rfl) nofun finish
      next live =>
        simp only [not_or, not_eq_false] at live
        exact .again (fun _ => by rw [pc]; rfl) nofun finish live.2.1
    · cases h
  · exact .flow (h ▸ flows_loop nofun)
  next pc =>
    obtain ⟨⟨listed, -⟩, rfl⟩ := h
    unfold dispatchItem
    dsimp only
    split_ifs with late stale ended full
    · exact .flow (flows_loop nofun)
    · exact .drop listed ended.1 ended.2
    · exact .pop listed
    · exact .flow (flows_loop nofun)
    · simp only [not_or, not_eq_false] at stale
      exact .dispatch pc listed stale.1
  · obtain ⟨-, rfl⟩ := h
    exact .flow (flows_loop nofun)
  next i now pc =>
    obtain ⟨-, rfl⟩ := h
    -- the task goes from the loop to the end of the channel
    have moved : ∀ j, LoopPC.sends j (.dispatch now) + (s.work ++ [i]).count j =
        s.loop.sends j + s.work.count j := by
      intro j
      rw [pc, count_append, count_singleton]
      simp only [LoopPC.sends, beq_iff_eq]
      omega
    refine .flow ⟨fun _ => ⟨rfl, rfl, rfl, rfl, id⟩, ⟨rfl, rfl, rfl, rfl, rfl⟩, id, fun j => ?_,
      fun j => ?_, fun _ => .inl, nofun⟩ <;>
    · have := moved j
      simp only [Scheduler.ahead, Scheduler.behind]
      omega
  next pc => exact h ▸ .closeWork pc
  · obtain ⟨-, rfl⟩ := h
    exact .flow (flows_loop nofun)

theorem change_of_step (h : s.step l = some s') : Change s l s' := by
  cases l with
  | register r now =>
    simp only [step] at h
    cases registered : s.register r now with
    | error e => simp [registered, Except.toOption] at h
    | ok next =>
      obtain rfl : next = s' := by simpa [registered, Except.toOption] using h
      exact .register registered
  | stop id =>
    simp only [step, ite_none_right_eq_some, some.injEq] at h
    obtain ⟨⟨known, ready⟩, rfl⟩ := h
    unfold unregister
    dsimp only
    split
    next active => exact .stop known ready active
    next idle => exact .stopIdle known ready (by simpa using idle)
  | stopped id =>
    simp only [step] at h
    split at h
    next done waits =>
      simp only [ite_none_right_eq_some, some.injEq] at h
      obtain ⟨shut, rfl⟩ := h
      exact .stopped waits shut
    · cases h
  | cancel i =>
    simp only [step, ite_none_right_eq_some, some.injEq] at h
    obtain ⟨-, rfl⟩ := h
    refine .flow ⟨fun j => ?_, ⟨rfl, rfl, rfl, rfl, rfl⟩, id, fun _ => le_rfl, fun _ => le_rfl,
      fun _ => .inl, .inl⟩
    by_cases same : j = i
    · subst same
      simp
    · simp [update_of_ne same]
  | close =>
    cases h
    exact .flow ⟨fun _ => ⟨rfl, rfl, rfl, rfl, id⟩, ⟨rfl, rfl, rfl, rfl, rfl⟩, fun _ => rfl,
      fun _ => le_rfl, fun _ => le_rfl, fun _ => .inl, fun _ => .inr rfl⟩
  | loop e => exact change_of_loopStep h
  | worker w other => exact change_of_workerStep h

/-! ## The table -/

/-- Closing `done` is where a task turns back. -/
theorem turn_close {i : ℕ} (shut : List (ℕ × ℕ)) (here : s.workers[w]? = some (.busy i .closing))
    (id : ℕ) :
    let s' := { s with shut, workers := s.workers.set w (.busy i .finishing) }
    s'.ahead id + (i == id).toNat = s.ahead id ∧ s'.behind id = s.behind id + (i == id).toNat := by
  have moved : (s.workers.set w (.busy i .finishing)).countP (·.ahead id) + (i == id).toNat =
      s.workers.countP (·.ahead id) := countP_set here _ _
  have moved' : (s.workers.set w (.busy i .finishing)).countP (·.behind id) + 0 =
      s.workers.countP (·.behind id) + (i == id).toNat := countP_set here _ _
  simp only [ahead, behind]
  omega

/-- Each active task is the entry of its key, and a task that is to be completed either is
active or finds no entry of its key. -/
structure Listed (s : Scheduler) : Prop where
  entry : ∀ id, (s.tasks id).active → s.table (s.tasks id).key = some id
  pending : ∀ id, s.Pending id → (s.tasks id).active ∨ s.table (s.tasks id).key = none

theorem Flows.pending_of (flows : Flows s s') (pending : s'.Pending id) : s.Pending id :=
  lt_of_lt_of_le pending (flows.pending id)

theorem Listed.flow (h : s.Listed) (flows : Flows s s') : s'.Listed where
  entry id active := by
    obtain ⟨key, same, -⟩ := flows.task id
    rw [key, flows.same.2.1]
    exact h.entry id (same ▸ active)
  pending id pending := by
    obtain ⟨key, same, -⟩ := flows.task id
    rw [key, same, flows.same.2.1]
    exact h.pending id (flows.pending_of pending)

/-- A task that is active, or is to be completed, becomes inactive with its entry. -/
theorem Listed.drop (h : s.Listed) (own : (s.tasks id).active ∨ s.Pending id) {t : Task}
    (tasks : s'.tasks = update s.tasks id t)
    (table : s'.table = update s.table (s.tasks id).key none)
    (key : t.key = (s.tasks id).key) (active : t.active = false)
    (pending : ∀ j, s'.Pending j → s.Pending j) : s'.Listed := by
  have entry : s.table (s.tasks id).key = some id ∨ s.table (s.tasks id).key = none := by
    rcases own with active | pending
    · exact .inl (h.entry id active)
    · exact (h.pending id pending).imp_left (h.entry id)
  refine ⟨fun j live => ?_, fun j waits => ?_⟩ <;> by_cases same : j = id
  · rw [tasks, same, update_self, active] at live
    cases live
  · rw [tasks, update_of_ne same] at live ⊢
    have listed := h.entry j live
    have other : (s.tasks j).key ≠ (s.tasks id).key := by
      intro shared
      rw [shared] at listed
      rcases entry with own | none_
      · exact same (some.inj (listed.symm.trans own))
      · cases listed.symm.trans none_
    rw [table, update_of_ne other, listed]
  · rw [tasks, same, update_self, table, key, update_self]
    exact .inr rfl
  · rw [tasks, update_of_ne same, table]
    refine (h.pending j (pending j waits)).imp_right fun none_ => ?_
    by_cases shared : (s.tasks j).key = (s.tasks id).key
    · rw [shared, update_self]
    · rw [update_of_ne shared, none_]

/-- An active task stays active, whatever else changes. -/
theorem Listed.touch (h : s.Listed) (active : (s.tasks id).active) {t : Task}
    (tasks : s'.tasks = update s.tasks id t) (table : s'.table = s.table)
    (same : t.key = (s.tasks id).key ∧ t.active = (s.tasks id).active)
    (pending : ∀ j, j ≠ id → s'.Pending j → s.Pending j) : s'.Listed := by
  refine ⟨fun j live => ?_, fun j waits => ?_⟩ <;> rw [tasks] at * <;> rw [table] <;>
    by_cases own : j = id
  · rw [own, update_self, same.1]
    exact h.entry id active
  · rw [update_of_ne own] at live ⊢
    exact h.entry j live
  · rw [own, update_self, same.2]
    exact .inl active
  · rw [update_of_ne own]
    exact h.pending j (pending j own waits)

/-- A key is registered again only after the loop has completed the earlier tasks. -/
def AwaitsCompletion (s : Scheduler) (l : LivenessStep) : Prop :=
  ∀ r now, l = .register r now → ∀ id, s.Pending id → (s.tasks id).active = false →
    (s.tasks id).key ≠ r.key

theorem new_eq_ok {workers : ℤ} (h : new workers = .ok s) : ∃ n, s = {
    tasks := fun _ => ⟨.empty, 0, 0, false, false, false, false, 0⟩
    registered := 0, table := fun _ => none, heap := [], closed := false, capacity := n
    work := [], workClosed := false, finish := [], workers := List.replicate n .idle
    loop := .top false, stops := fun _ => .ready, shut := [] } := by
  unfold new at h
  generalize (if workers = 0 then (defaultWorkers : ℤ) else workers) = n at h
  dsimp only at h
  split at h
  · cases h
  · cases h
    exact ⟨_, rfl⟩

/-- `Register` adds the task to the table and to the heap. -/
theorem register_eq_ok {r : Registration} (h : s.register r now = .ok s') :
    s.table r.key = none ∧ s' = { s with
      tasks := update s.tasks s.registered
        ⟨r.key, r.interval, now + r.interval, true, false, false, false, 0⟩
      registered := s.registered + 1
      table := update s.table r.key (some s.registered)
      heap := s.registered :: s.heap } := by
  unfold register at h
  split_ifs at h with _ _ taken
  cases h
  exact ⟨by simpa using taken, rfl⟩

theorem Listed.register {r : Registration} (h : s.Listed)
    (awaits : ∀ id, s.Pending id → (s.tasks id).active = false → (s.tasks id).key ≠ r.key)
    (ok : s.register r now = .ok s') : s'.Listed := by
  obtain ⟨free, rfl⟩ := register_eq_ok ok
  refine ⟨fun id active => ?_, fun id pending => ?_⟩ <;> dsimp only at * <;>
    by_cases same : id = s.registered
  · rw [same, update_self, update_self]
  · rw [update_of_ne same] at active ⊢
    have listed := h.entry id active
    rw [update_of_ne, listed]
    intro shared
    rw [shared, free] at listed
    cases listed
  · rw [same, update_self]
    exact .inl rfl
  · rw [update_of_ne same]
    rcases Bool.eq_false_or_eq_true (s.tasks id).active with active | idle
    · exact .inl active
    · have none_ := (h.pending id pending).resolve_left (by simp [idle])
      rw [update_of_ne (awaits id pending idle), none_]
      exact .inr rfl

theorem Listed.change (h : s.Listed) (awaits : AwaitsCompletion s l) (change : Change s l s') :
    s'.Listed := by
  cases change with
  | flow flows => exact h.flow flows
  | register ok => exact h.register (awaits _ _ rfl) ok
  | stop _ _ active => exact h.drop (.inl active) rfl rfl rfl rfl fun _ => id
  | stopIdle | stopped | pop => exact ⟨h.entry, h.pending⟩
  | drop _ active => exact h.drop (.inl active) rfl rfl rfl rfl fun _ => id
  | @dispatch _ i now pc _ active =>
    refine h.touch active rfl rfl ⟨rfl, rfl⟩ fun j other waits => ?_
    simpa [Pending, ahead, behind, LoopPC.sends, pc, Ne.symm other] using waits
  | @finish _ i rest pc moves _ finish =>
    have pending : ∀ j, s.Pending j ↔ 0 < s.loop.sends j + s.work.count j +
        s.workers.countP (·.ahead j) + (s.workers.countP (·.behind j) + (i :: rest).count j) :=
      fun j => by rw [Pending, ahead, behind, finish]
    have own : s.Pending i := by
      rw [pending, count_cons_self]
      omega
    refine h.drop (.inr own) rfl rfl rfl rfl fun j waits => ?_
    simp only [Pending, ahead, behind, moves] at waits
    rw [pending, count_cons]
    omega
  | @again _ i rest next pc moves _ finish active =>
    refine h.touch active rfl rfl ⟨rfl, rfl⟩ fun j other waits => ?_
    simp only [Pending, ahead, behind, moves] at waits
    rw [Pending, ahead, behind, finish, count_cons]
    omega
  | @close _ i w here =>
    refine ⟨h.entry, fun id waits => h.pending id ?_⟩
    have turn := turn_close ((i, (s.tasks i).done) :: s.shut) here id
    simp only [Pending] at waits turn ⊢
    omega
  | closeWork =>
    refine ⟨fun id active => ?_, fun _ _ => .inr rfl⟩
    simp only [closeWork] at active
    split at active
    · cases active
    next unlisted => exact absurd (h.entry id active) unlisted

theorem listed_invariant : (livenessSystem.restrict AwaitsCompletion).Invariant Listed where
  init := by
    rintro s ⟨workers, made⟩
    obtain ⟨n, rfl⟩ := new_eq_ok made
    exact ⟨nofun, fun _ _ => .inr rfl⟩
  step h := fun ⟨awaits, step⟩ => h.change awaits (change_of_step step)

/-- In every interleaving in which no key is registered again before the loop has
completed the earlier tasks of that key, at most one task of a key is active, the table has
it, and `closeWork` cancels all active tasks. -/
theorem active_tasks_listed (reach : (livenessSystem.restrict AwaitsCompletion).Reachable s) :
    (∀ id id', (s.tasks id).active = true → (s.tasks id').active = true →
      (s.tasks id).key = (s.tasks id').key → id = id') ∧
    (∀ id, (s.tasks id).active = true → s.table (s.tasks id).key = some id) ∧
    ∀ s', s.step (.loop .closeWork) = some s' → ∀ id, (s.tasks id).active = true →
      (s'.tasks id).active = false ∧ (s'.tasks id).cancelled = true := by
  have listed := listed_invariant.holds reach
  refine ⟨fun id id' active active' same => ?_, listed.entry, fun s' closes id active => ?_⟩
  · have one := listed.entry id active
    rw [same, listed.entry id' active'] at one
    exact (some.inj one).symm
  · have closed : s' = s.closeWork := by
      simp only [step, loopStep] at closes
      split at closes <;> simp_all
    rw [closed, closeWork]
    simp [listed.entry id active]

def exampleRegistration : Registration := ⟨some false, go "run", 1, true⟩

/-- A task is registered and its callback starts. -/
def startCallback : List LivenessStep := [
  .register exampleRegistration 0, .loop .next, .loop (.timer 1), .loop (.item 0), .loop .send,
  .loop .empty, .worker 0 false, .worker 0 false]

/-- A step that is refused if it registers a task while another one is under way. -/
def tryQuiet (s : Scheduler) (l : LivenessStep) : Option Scheduler :=
  match l with
  | .register .. =>
    if s.loop = .top false ∧ s.work = [] ∧ s.finish = [] ∧ s.workers = [.idle] then s.step l
    else none
  | _ => s.step l

theorem awaits_of_tryQuiet (l : LivenessStep) {s s' : Scheduler} (h : s.tryQuiet l = some s') :
    (livenessSystem.restrict AwaitsCompletion).step s l s' := by
  cases l with
  | register r now =>
    obtain ⟨⟨loop, work, finish, workers⟩, ok⟩ := ite_none_right_eq_some.mp h
    refine ⟨fun _ _ _ id waits => ?_, ok⟩
    simp [Pending, ahead, behind, loop, work, finish, workers, LoopPC.sends, WorkerPC.ahead,
      WorkerPC.behind] at waits
  | _ => exact ⟨nofun, h⟩

/-- The callback of a task runs, the task is stopped and completed, and its key is registered
again. -/
theorem registered_again_listed : ∃ s, (livenessSystem.restrict AwaitsCompletion).Reachable s ∧
    (s.tasks 0).key = (s.tasks 1).key ∧ (s.tasks 1).active = true ∧
      s.table (s.tasks 1).key = some 1 := by
  obtain ⟨s, reach, same, active⟩ := System.exists_of_run awaits_of_tryQuiet ⟨1, rfl⟩
    (fun s => (s.tasks 0).key = (s.tasks 1).key ∧ (s.tasks 1).active = true)
    (startCallback ++ [.stop 0, .worker 0 false, .worker 0 false, .stopped 0, .worker 0 false,
      .loop .next, .loop (.finish 2), .register exampleRegistration 3]) (by decide)
  exact ⟨s, reach, same, active, (active_tasks_listed reach).2.1 1 active⟩

theorem system_step (l : LivenessStep) {s s' : Scheduler} (h : s.step l = some s') :
    livenessSystem.step s l s' := h

/-- Two tasks of one key are active, and after `Close` one of them still is. -/
theorem completion_deletes_later_task :
    (∃ s, livenessSystem.Reachable s ∧ (s.tasks 1).active = true ∧ (s.tasks 2).active = true ∧
      (s.tasks 1).key = (s.tasks 2).key ∧ s.table (s.tasks 1).key ≠ some 1) ∧
    ∃ s, livenessSystem.Reachable s ∧ s.loop = .ended ∧ (s.tasks 1).active = true ∧
      (s.tasks 1).cancelled = false := by
  -- the first task is stopped, its key registered again, and then it is completed
  let steps : List LivenessStep := startCallback ++ [
    .stop 0, .worker 0 false, .worker 0 false, .stopped 0, .register exampleRegistration 1,
    .worker 0 false, .loop .next, .loop (.finish 2), .register exampleRegistration 3]
  constructor
  · exact System.exists_of_run system_step ⟨1, rfl⟩ _ steps (by decide)
  · exact System.exists_of_run system_step ⟨1, rfl⟩ _ (steps ++ [.close,
      .loop .next, .loop .stop, .loop .closeWork, .worker 0 false, .loop .exit]) (by decide)

end Scheduler

/-! ## Stop functions -/

/-- A task, where it is, whether its callback runs, which of its `done` channels are closed
and whether it is yet to be registered. -/
structure View extends task : Task where
  stop : StopPC
  heap : ℕ
  ahead : ℕ
  behind : ℕ
  calls : Prop
  shut : ℕ → Prop
  closed : Bool
  new : Prop

/-- What holds of a task at any time. -/
@[grind cases]
structure View.Sound (v : View) : Prop where
  /-- a task is in one place -/
  once : v.heap + v.ahead + v.behind ≤ 1
  called : v.calls → 0 < v.ahead
  running : 0 < v.ahead + v.behind → v.running ∧ v.done ≠ 0
  unshut : 0 < v.ahead → ¬v.shut v.done
  past : ∀ done, v.shut done → done ≤ v.done
  /-- an inactive task is not called back again -/
  inactive : v.active = false → v.cancelled ∨ v.ahead + v.behind = 0
  stopped : v.stop ≠ .ready → v.active = false
  waits : ∀ done, v.stop = .waiting done → done = v.done
  quiet : v.stop = .returned → ¬v.calls
  /-- only its stop function and `Close` make a task inactive under its callback -/
  closes : v.calls → v.active = false → v.closed ∨ v.stop ≠ .ready
  fresh : v.new → v.heap + v.ahead + v.behind = 0 ∧ v.stop = .ready ∧ ∀ done, ¬v.shut done

namespace View.Sound

variable {v v' : View}

/-- A task that at most moves along its way. -/
theorem mono (h : v.Sound)
    (task : v'.active = v.active ∧ v'.running = v.running ∧
      v'.done = v.done ∧ (v.cancelled → v'.cancelled))
    (same : v'.stop = v.stop ∧ ∀ done, v'.shut done ↔ v.shut done)
    (places : v'.heap ≤ v.heap ∧ v'.ahead ≤ v.ahead ∧ v'.ahead + v'.behind ≤ v.ahead + v.behind)
    (starts : v'.calls → 0 < v'.ahead ∧ (v.calls ∨ v.cancelled = false))
    (grows : (v.closed → v'.closed) ∧ (v'.new → v.new)) : v'.Sound := by
  constructor <;> grind

section

variable (h : v.Sound) {t : Task} {heap ahead behind : ℕ} {new : Prop}
include h

/-- Whether a task is in the heap is not relied on. -/
theorem unlist (le : heap ≤ v.heap) : Sound { v with heap } := by
  constructor <;> grind

theorem unregister (le : heap ≤ v.heap) (known : ¬v.new) :
    Sound { v with
      active := false, cancelled := true
      stop := if v.running ∧ v.done ≠ 0 then .waiting v.done else .returned
      heap } := by
  constructor <;> grind

theorem closeWork (closing : v.closed) (le : heap ≤ v.heap) :
    Sound { v with active := false, cancelled := true, heap } := by
  constructor <;> grind

theorem register (unknown : v.new) (known : ¬new) (active : t.active) :
    Sound { v with task := t, heap := v.heap + 1, new } := by
  constructor <;> grind

/-- A stop function may return if its task is inactive and no callback runs. -/
theorem returned (inactive : v.active = false) (quiet : ¬v.calls) (known : ¬v.new) :
    Sound { v with stop := .returned } := by
  constructor <;> grind

theorem drop (listed : 0 < v.heap) (cancelled : v.cancelled) (le : heap ≤ v.heap) :
    Sound { v with active := false, heap } := by
  constructor <;> grind

theorem dispatch (active : v.active) (gone : v.heap = heap + 1) (sent : ahead = v.ahead + 1) :
    Sound { v with running := true, done := v.done + 1, heap, ahead } := by
  constructor <;> grind

theorem finish (waits : v.behind = behind + 1) :
    Sound { v with running := false, active := false, behind } := by
  constructor <;> grind

theorem again {next : ℤ} (waits : v.behind = behind + 1) (active : v.active) :
    Sound { v with running := false, next, heap := v.heap + 1, behind } := by
  constructor <;> grind

theorem close {calls : Prop} {shut : ℕ → Prop} (held : v.ahead = ahead + 1)
    (turned : behind = v.behind + 1) (shuts : ∀ done, shut done ↔ done = v.done ∨ v.shut done)
    (called : calls → 0 < ahead) : Sound { v with ahead, behind, calls, shut } := by
  constructor <;> grind

end

end View.Sound

namespace Scheduler

variable {s s' : Scheduler} {l : LivenessStep} {id w : ℕ} {now : ℤ}

/-- A task as its stop function and the workers see it. -/
def view (s : Scheduler) (id : ℕ) : View where
  task := s.tasks id
  stop := s.stops id
  heap := s.heap.count id
  ahead := s.ahead id
  behind := s.behind id
  calls := s.Calls id
  shut done := (id, done) ∈ s.shut
  closed := s.closed
  new := s.registered ≤ id

/-- What holds at any time. -/
structure Sound (s : Scheduler) : Prop where
  task : ∀ id, (s.view id).Sound
  closing : s.loop = .closing → s.closed

/-- No stop function is called after `Close` for a task whose callback is running, or is about to
run after the check of the context. -/
def StopsOutsideClose (s : Scheduler) (l : LivenessStep) : Prop :=
  ∀ id, l = .stop id → s.closed → ¬s.Calls id

/-- A step that is about one task. -/
theorem Sound.only (h : s.Sound) (i : ℕ) (own : (s'.view i).Sound)
    (closing : s'.loop = .closing → s'.closed) (others : ∀ id, id ≠ i → s'.view id = s.view id := by
      intro id other
      simp [view, ahead, behind, Calls, update_of_ne other, count_erase_of_ne other]) :
        s'.Sound := by
  refine ⟨fun id => ?_, closing⟩
  by_cases same : id = i
  · exact same ▸ own
  · rw [others id same]
    exact h.task id

theorem Sound.change (h : s.Sound) (outside : StopsOutsideClose s l) (change : Change s l s') :
    s'.Sound := by
  cases change with
  | flow flows =>
    obtain ⟨registered, -, heap, stops, shut⟩ := flows.same
    refine ⟨fun id => (h.task id).mono (flows.task id).2 ?_ ?_ (fun calls => ?_) ?_, fun pc => ?_⟩
    · simp [view, stops, shut]
    · exact ⟨by simp [view, heap], flows.ahead id, flows.pending id⟩
    · exact ⟨Calls.ahead calls, (flows.calls id calls).imp_right And.right⟩
    · exact ⟨flows.closed, by simp [view, registered]⟩
    · exact (flows.closing pc).elim (fun before => flows.closed (h.closing before)) fun shut => shut
  | register ok =>
    obtain ⟨-, rfl⟩ := register_eq_ok ok
    refine h.only s.registered ?_ h.closing fun id other => ?_
    · simp only [view, update_self, count_cons_self]
      exact (h.task s.registered).register le_rfl (Nat.not_succ_le_self _) rfl
    · have later : s.registered + 1 ≤ id ↔ s.registered ≤ id := by omega
      simp [view, ahead, behind, Calls, update_of_ne other, Ne.symm other, later]
  | @stop i known ready active =>
    refine h.only i ?_ h.closing
    simp only [view, update_self]
    exact (h.task i).unregister (erase_sublist.count_le i) (Nat.not_le.mpr known)
  | @stopIdle i known ready idle =>
    refine h.only i ?_ h.closing
    simp only [view, update_self]
    refine (h.task i).returned idle (fun calls => ?_) (Nat.not_le.mpr known)
    have shut := ((h.task i).closes calls idle).resolve_right (not_not.mpr ready)
    exact outside i rfl shut calls
  | @stopped _ i done waits shut =>
    have own := h.task i
    refine h.only i ?_ h.closing
    simp only [view, update_self]
    refine own.returned (own.stopped (by simp [view, waits])) (fun calls => ?_) fun new => ?_
    · exact own.unshut (Calls.ahead calls) (own.waits done waits ▸ shut)
    · exact (own.fresh new).2.2 done shut
  | pop => exact ⟨fun id => (h.task id).unlist (erase_sublist.count_le id), h.closing⟩
  | @drop _ i listed _ cancelled =>
    refine h.only i ?_ h.closing
    simp only [view, update_self]
    exact (h.task i).drop (count_pos_iff.mpr listed) cancelled (erase_sublist.count_le i)
  | @dispatch _ i now pc listed active =>
    refine h.only i ?_ nofun fun id other => ?_
    · have one := count_pos_iff.mpr listed
      simp only [view, update_self]
      refine (h.task i).dispatch active ?_ ?_
      · show s.heap.count i = _
        rw [count_erase_self]
        omega
      · simp only [view, ahead, pc, LoopPC.sends, if_true]
        omega
    · simp [view, ahead, behind, Calls, update_of_ne other, count_erase_of_ne other, pc,
        LoopPC.sends, Ne.symm other]
  | @finish _ i rest pc moves open_ finish | @again _ i rest next pc moves open_ finish active =>
    refine h.only i ?_ (fun here => absurd here open_) fun id other => ?_
    · have own := h.task i
      simp only [view, update_self, ahead, behind, moves, finish, count_cons_self] at own ⊢
      first | exact own.finish rfl | exact own.again rfl active
    · simp [view, ahead, behind, Calls, update_of_ne other, moves, finish, Ne.symm other]
  | @close _ i w here =>
    have turn := turn_close ((i, (s.tasks i).done) :: s.shut) here
    refine ⟨fun id => ?_, h.closing⟩
    have turn := turn id
    by_cases same : id = i
    · subst same
      rw [beq_self_eq_true, Bool.toNat_true] at turn
      exact (h.task id).close turn.1.symm turn.2 (by simp [view]) fun calls => Calls.ahead calls
    · rw [beq_false_of_ne (Ne.symm same), Bool.toNat_false] at turn
      refine (h.task id).mono ⟨rfl, rfl, rfl, fun cancelled => cancelled⟩ ⟨rfl, ?_⟩
        ⟨le_rfl, Nat.le_of_eq turn.1, Nat.le_of_eq (congrArg₂ (· + ·) turn.1 turn.2)⟩
        (fun calls => ?_)
        ⟨fun closed => closed, fun new => new⟩
      · simp [view, same]
      · exact ⟨Calls.ahead calls, .inl ((mem_or_eq_of_mem_set calls).resolve_right (by simp))⟩
  | closeWork pc =>
    refine ⟨fun id => ?_, nofun⟩
    have own := h.task id
    simp only [view, Scheduler.closeWork, ahead, behind, pc, LoopPC.sends, Calls] at own ⊢
    split
    · exact own.closeWork (h.closing pc) (Nat.zero_le _)
    · exact own.unlist (Nat.zero_le _)

theorem sound_invariant : (livenessSystem.restrict StopsOutsideClose).Invariant Sound where
  init := by
    rintro s ⟨workers, made⟩
    obtain ⟨n, rfl⟩ := new_eq_ok made
    refine ⟨fun id => ?_, nofun⟩
    constructor <;> simp [view, ahead, behind, Calls, LoopPC.sends, countP_replicate,
      WorkerPC.ahead, WorkerPC.behind]
  step h := fun ⟨outside, step⟩ => h.change outside (change_of_step step)

theorem returned_of_change (returned : s.stops id = .returned) (change : Change s l s') :
    s'.stops id = .returned := by
  cases change with
  | flow flows => rw [flows.same.2.2.2.1, returned]
  | register ok =>
    obtain ⟨-, rfl⟩ := register_eq_ok ok
    exact returned
  | @stop i _ ready | @stopIdle i _ ready =>
    have other : id ≠ i := by
      rintro rfl
      cases ready.symm.trans returned
    simpa [update_of_ne other] using returned
  | @stopped _ i =>
    by_cases same : id = i
    · simp [same]
    · simpa [update_of_ne same] using returned
  | _ => exact returned

/-- In every interleaving in which no stop function is called after `Close` for a task whose
callback is running, the callback does not run once its stop function has returned. -/
theorem no_callback_after_stop
    (reach : (livenessSystem.restrict StopsOutsideClose).Reachable s)
    (returned : s.stops id = .returned)
    (later : ((livenessSystem.restrict StopsOutsideClose).after s).Reachable s') :
    ¬s'.Calls id := by
  have still : s'.stops id = .returned := by
    induction later with
    | init h => rw [h, returned]
    | step _ h ih => exact returned_of_change ih (change_of_step h.2)
  exact ((sound_invariant.holds (reach.after later)).task id).quiet still

/-- A step of a scheduler that is not closed. -/
def tryOpen (s : Scheduler) (l : LivenessStep) : Option Scheduler :=
  if s.closed then none else s.step l

theorem outside_of_tryOpen (l : LivenessStep) {s s' : Scheduler} (h : s.tryOpen l = some s') :
    (livenessSystem.restrict StopsOutsideClose).step s l s' := by
  obtain ⟨isOpen, step⟩ := Option.ite_none_left_eq_some.mp h
  exact ⟨fun _ _ closed => absurd closed isOpen, step⟩

/-- A stop function that is called under a running callback returns when it has ended, and then
the task is completed. -/
theorem no_callback_after_stop_waited :
    ∃ s, (livenessSystem.restrict StopsOutsideClose).Reachable s ∧ s.stops 0 = .returned ∧
      ∃ s', ((livenessSystem.restrict StopsOutsideClose).after s).Reachable s' ∧
        (s'.tasks 0).running = false ∧ ¬s'.Calls 0 := by
  let rest : List LivenessStep := [.worker 0 false, .loop .next, .loop (.finish 2)]
  obtain ⟨s, reach, returned, more⟩ := System.exists_of_run outside_of_tryOpen ⟨1, rfl⟩
    (fun s => s.stops 0 = .returned ∧
      (rest.foldlM tryOpen s).any (fun s' => (s'.tasks 0).running = false) = true)
    (startCallback ++ [.stop 0, .worker 0 false, .worker 0 false, .stopped 0]) (by decide)
  obtain ⟨s', run, completed⟩ := (Option.any_eq_true _ _).mp more
  have later := System.reachable_of_run (M := (livenessSystem.restrict StopsOutsideClose).after s)
    (fun l _ => outside_of_tryOpen l) rfl run
  exact ⟨s, reach, returned, s', later, of_decide_eq_true completed,
    no_callback_after_stop reach returned later⟩

/-- A stop function that is called after `Close` returns while the callback is running. -/
theorem stop_returns_under_callback :
    ∃ s, livenessSystem.Reachable s ∧ s.stops 0 = .returned ∧ s.Calls 0 :=
  System.exists_of_run system_step ⟨1, rfl⟩ _
    (startCallback ++ [.close, .loop .next, .loop .stop, .loop .closeWork, .stop 0]) (by decide)

end Scheduler

end AutoAgent.App
