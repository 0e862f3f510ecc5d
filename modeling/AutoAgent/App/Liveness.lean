import Mathlib.Data.List.Count
import AutoAgent.Lib.GoString
import AutoAgent.Lib.Transition

/-!
# The liveness scheduler

`runliveness.Scheduler` calls back periodically for every active run.  One goroutine, the
loop, keeps the tasks in a heap by deadline and hands those that are due to a pool of
workers over the channel `work`; a worker calls back, closes the `done` channel of the
task and returns the task over `finish`, and the loop puts it back into the heap.

**Interleavings.**  A step is one section between taking and releasing the mutex, one
operation on a channel, or the start or the end of a callback.  Any number of goroutines
register tasks, call the stop functions and call `Close`; each stop function runs its
body once (`sync.Once`) and has returned when the body has.  The clock is an interface,
so every reading may be any time, and a timer may fire whenever it is armed.  A wake-up
only makes the loop look at the heap again, so it may come at any time.

**Channels.**  A task gets a new `done` channel each time it is dispatched; it is named by
the number of the dispatch, and `shut` has the channels that were closed.
-/

namespace AutoAgent.App

open Function (update)

/-- Why a scheduler or a registration is refused. -/
inductive LivenessError where
  | workers
  | registration
  | closed
  | duplicateKey
  deriving DecidableEq

structure Task where
  key : GoString
  interval : ℤ
  next : ℤ
  active : Bool
  running : Bool
  failed : Bool
  /-- The context of the task or its parent has ended. -/
  cancelled : Bool
  /-- The number of the channel, zero for `nil`. -/
  done : ℕ

def Task.less (a b : Task) : Bool :=
  if a.next = b.next then a.key.bytes < b.key.bytes else a.next < b.next

/-- Where a worker is with a task. -/
inductive WorkStage where
  /-- received from `work` -/
  | start
  /-- inside the callback -/
  | calling
  /-- the callback failed or panicked -/
  | failing
  /-- before `close(item.done)` -/
  | closing
  /-- before the task is returned -/
  | finishing
  deriving DecidableEq

inductive WorkerPC where
  | idle
  | busy (id : ℕ) (stage : WorkStage)
  | exited
  deriving DecidableEq

inductive LoopPC where
  /-- before `next` -/
  | top (saturated : Bool)
  /-- in one of the selects, by whether the heap had a task and by `saturated` -/
  | select (hasTask saturated : Bool)
  /-- in `dispatchDue` -/
  | dispatch (now : ℤ)
  /-- before `work <- item` -/
  | send (id : ℕ) (now : ℤ)
  /-- before `closeWork` -/
  | closing
  /-- in `workers.Wait` -/
  | waiting
  | ended
  deriving DecidableEq

inductive StopPC where
  | ready
  /-- waiting for the channel of that number -/
  | waiting (done : ℕ)
  | returned
  deriving DecidableEq

/-- `Scheduler`, with all tasks it ever had. -/
structure Scheduler where
  tasks : ℕ → Task
  registered : ℕ
  /-- The map `tasks`. -/
  table : GoString → Option ℕ
  heap : List ℕ
  closed : Bool
  /-- The capacity of `work` and of `finish`. -/
  capacity : ℕ
  work : List ℕ
  workClosed : Bool
  finish : List ℕ
  workers : List WorkerPC
  loop : LoopPC
  stops : ℕ → StopPC
  shut : List (ℕ × ℕ)

/-- The arguments of `Register`: the parent context, or `nil`, by whether it has ended. -/
structure Registration where
  parent : Option Bool
  key : GoString
  interval : ℤ
  hasCallback : Bool

inductive LoopEvent where
  | next
  | stop
  | wake
  | finish (now : ℤ)
  | timer (now : ℤ)
  /-- `dispatchDue` looks at the first task of the heap -/
  | item (id : ℕ)
  /-- `dispatchDue` finds the heap empty -/
  | empty
  | send
  | closeWork
  | exit

inductive LivenessStep where
  | register (r : Registration) (now : ℤ)
  | stop (id : ℕ)
  /-- the wait of a stop function ends -/
  | stopped (id : ℕ)
  /-- the parent context of a task ends -/
  | cancel (id : ℕ)
  | close
  | loop (e : LoopEvent)
  /-- a worker goes on; in the other case its callback fails, or it finds `stop` closed -/
  | worker (w : ℕ) (other : Bool)

def defaultWorkers : ℕ := 4

def maxWorkers : ℤ := 32

def maxKeyBytes : ℕ := 512

namespace Scheduler

def new (workers : ℤ) : Except LivenessError Scheduler :=
  let workers := if workers = 0 then (defaultWorkers : ℤ) else workers
  if workers < 1 ∨ maxWorkers < workers then .error .workers
  else .ok {
    tasks := fun _ => ⟨.empty, 0, 0, false, false, false, false, 0⟩
    registered := 0
    table := fun _ => none
    heap := []
    closed := false
    capacity := workers.toNat
    work := []
    workClosed := false
    finish := []
    workers := List.replicate workers.toNat .idle
    loop := .top false
    stops := fun _ => .ready
    shut := [] }

variable (s : Scheduler)

def register (r : Registration) (now : ℤ) : Except LivenessError Scheduler :=
  if r.parent ≠ some false ∨ r.key = .empty ∨ maxKeyBytes < r.key.len ∨ r.interval ≤ 0 ∨
      r.hasCallback = false then .error .registration
  else if s.closed then .error .closed
  else if (s.table r.key).isSome then .error .duplicateKey
  else .ok { s with
    tasks := update s.tasks s.registered
      ⟨r.key, r.interval, now + r.interval, true, false, false, false, 0⟩
    registered := s.registered + 1
    table := update s.table r.key (some s.registered)
    heap := s.registered :: s.heap }

/-- `unregister`, up to the wait.  A task that is not an entry of the table when `closeWork` runs
stays active with the index it has in the heap, which is gone then: `heap.Remove` panics in the
source, and nothing is erased here. -/
def unregister (id : ℕ) : Scheduler :=
  let t := s.tasks id
  if t.active then
    { s with
      tasks := update s.tasks id { t with active := false, cancelled := true }
      table := update s.table t.key none
      heap := s.heap.erase id
      stops := update s.stops id
        (if t.running ∧ t.done ≠ 0 then .waiting t.done else .returned) }
  else { s with stops := update s.stops id .returned }

/-- One round of the loop of `dispatchDue`, for the first task of the heap. -/
def dispatchItem (now : ℤ) (id : ℕ) : Scheduler :=
  let t := s.tasks id
  if now < t.next then { s with loop := .top false }
  else if t.active = false ∨ t.running ∨ t.cancelled then
    let s := { s with heap := s.heap.erase id }
    if t.active ∧ t.cancelled then
      { s with
        tasks := update s.tasks id { t with active := false }
        table := update s.table t.key none }
    else s
  else if s.work.length = s.capacity then { s with loop := .top true }
  else { s with
    tasks := update s.tasks id { t with running := true, done := t.done + 1 }
    heap := s.heap.erase id
    loop := .send id now }

def complete (now : ℤ) (id : ℕ) : Scheduler :=
  let t := { s.tasks id with running := false }
  if t.failed ∨ t.active = false ∨ t.cancelled ∨ s.closed then
    { s with
      tasks := update s.tasks id { t with active := false }
      table := update s.table t.key none }
  else { s with
    tasks := update s.tasks id { t with next := now + t.interval }
    heap := id :: s.heap }

def closeWork : Scheduler :=
  { s with
    tasks := fun id =>
      if s.table (s.tasks id).key = some id then
        { s.tasks id with active := false, cancelled := true }
      else s.tasks id
    table := fun _ => none
    heap := []
    workClosed := true
    loop := .waiting }

/-- A step of `loop`.  The select without a task keeps `saturated`; the one that waits for
room clears it. -/
def loopStep (e : LoopEvent) : Option Scheduler :=
  match s.loop, e with
  | .top saturated, .next => some { s with loop := .select (!s.heap.isEmpty) saturated }
  | .select _ _, .stop => if s.closed then some { s with loop := .closing } else none
  | .select hasTask saturated, .wake => some { s with loop := .top (saturated && !hasTask) }
  | .select hasTask saturated, .finish now => match s.finish with
    | id :: rest =>
      some (complete { s with finish := rest, loop := .top (saturated && !hasTask) } now id)
    | [] => none
  | .select true false, .timer now => some { s with loop := .dispatch now }
  | .dispatch now, .item id =>
    if id ∈ s.heap ∧ ∀ j ∈ s.heap, (s.tasks j).less (s.tasks id) = false then
      some (s.dispatchItem now id)
    else none
  | .dispatch _, .empty => if s.heap = [] then some { s with loop := .top false } else none
  | .send id now, .send =>
    if s.work.length < s.capacity then
      some { s with work := s.work ++ [id], loop := .dispatch now }
    else none
  | .closing, .closeWork => some s.closeWork
  | .waiting, .exit =>
    if ∀ pc ∈ s.workers, pc = .exited then some { s with loop := .ended } else none
  | _, _ => none

def workerStep (w : ℕ) (other : Bool) : Option Scheduler :=
  match s.workers[w]? with
  | some .idle => match s.work with
    | id :: rest => some { s with work := rest, workers := s.workers.set w (.busy id .start) }
    | [] => if s.workClosed then some { s with workers := s.workers.set w .exited } else none
  | some (.busy id .start) =>
    let stage := if (s.tasks id).cancelled then .closing else .calling
    some { s with workers := s.workers.set w (.busy id stage) }
  | some (.busy id .calling) =>
    some { s with workers := s.workers.set w (.busy id (if other then .failing else .closing)) }
  | some (.busy id .failing) =>
    some { s with
      tasks := update s.tasks id { s.tasks id with failed := true }
      workers := s.workers.set w (.busy id .closing) }
  | some (.busy id .closing) =>
    some { s with
      shut := (id, (s.tasks id).done) :: s.shut
      workers := s.workers.set w (.busy id .finishing) }
  | some (.busy id .finishing) =>
    if other then
      if s.closed then some { s with workers := s.workers.set w .idle } else none
    else if s.finish.length < s.capacity then
      some { s with finish := s.finish ++ [id], workers := s.workers.set w .idle }
    else none
  | some .exited | none => none

def step : LivenessStep → Option Scheduler
  | .register r now => (s.register r now).toOption
  | .stop id =>
    if id < s.registered ∧ s.stops id = .ready then some (s.unregister id) else none
  | .stopped id => match s.stops id with
    | .waiting done =>
      if (id, done) ∈ s.shut then some { s with stops := update s.stops id .returned }
      else none
    | _ => none
  | .cancel id =>
    if id < s.registered then
      some { s with tasks := update s.tasks id { s.tasks id with cancelled := true } }
    else none
  | .close => some { s with closed := true }
  | .loop e => s.loopStep e
  | .worker w other => s.workerStep w other

end Scheduler

/-- The scheduler with any number of workers `New` accepts. -/
def livenessSystem : System Scheduler LivenessStep where
  init s := ∃ workers, Scheduler.new workers = .ok s
  step s l s' := s.step l = some s'

end AutoAgent.App
