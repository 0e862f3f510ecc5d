import AutoAgent.Storage.RunControl

/-!
# Session leases

At most one instance works on a session at a time: it holds the row of the session
in `session_leases`, which expires unless it is renewed.

**Calls and statements.**  A call checks its arguments, reads the clock once, and
then executes one statement, or two: `AcquireSessionLease` first takes over an
expired row, and if there is none inserts a row, with the expiry it computed at the
start.  Calls of any number of instances are in flight at once, so time may pass
and other statements may be executed between the reading of the clock and each
statement.

**Leases.**  The statements that succeed say which leases have been given:
`LeaseState.grants` holds the last one given to each holder of each session, without
those that were released.  A holder has the lease until it expires.  What the table
is for is that a lease which has not expired is still in the table.

**Renewals.**  A lease that has expired is not to be renewed.  The statement compares
the expiry with the reading of the clock and not with the time at which it is
executed, so a renewal that read the clock before the expiry revives the lease after it
(`expired_lease_revived`).
-/

namespace AutoAgent.Storage

open List

/-! ## Rows and statements -/

/-- A row of `session_leases`. -/
structure LeaseRow where
  sessionID : GoString
  holder : GoString
  expiresAt : ℤ
  deriving DecidableEq

/-- The primary key of `session_leases`. -/
def LeaseRow.clash (a b : LeaseRow) : Bool := a.sessionID == b.sessionID

abbrev Leases := Table LeaseRow LeaseRow.clash

def sqlLeaseSteal (holder : GoString) (expiry : ℤ) (sessionID : GoString) (now : ℤ) :
    Update LeaseRow where
  selects l := l.sessionID = sessionID ∧ l.expiresAt ≤ now
  set l := { l with holder, expiresAt := expiry }

def sqlLeaseRenew (expiry : ℤ) (sessionID holder : GoString) (now : ℤ) : Update LeaseRow where
  selects l := l.sessionID = sessionID ∧ l.holder = holder ∧ now < l.expiresAt
  set l := { l with expiresAt := expiry }

/-- The rows of one holder of a session, which `sqlLeaseDelete` deletes. -/
def LeaseRow.heldBy (sessionID holder : GoString) (l : LeaseRow) : Bool :=
  l.sessionID = sessionID ∧ l.holder = holder

/-! ## Calls -/

inductive LeaseError where
  /-- the error of `ValidateSessionID` -/
  | sessionID (cause : StoreError)
  /-- `session lease holder is empty` -/
  | holderEmpty
  /-- `session lease holder contains NUL` -/
  | holderNUL
  /-- `session lease holder contains a control character` -/
  | holderControl
  /-- `session lease holder exceeds 128 runes` -/
  | holderTooLong
  /-- `session lease ttl must be positive` -/
  | ttl

def maxSQLTextFilterRunes : ℕ := 128

/-- `validateLeaseHolder`, with the checks of `validateSQLTextFilter`. -/
def validateLeaseHolder (holder : GoString) : Except LeaseError Unit := do
  require (!holder.isBlank) .holderEmpty
  require (!holder.anyRune (· == '\x00')) .holderNUL
  require (!holder.anyRune GoString.isUnicodeControl) .holderControl
  require (holder.runeCount ≤ maxSQLTextFilterRunes) .holderTooLong

/-- A call before its next statement, with the readings of the clock it made. -/
inductive LeaseCall where
  | steal (sessionID holder : GoString) (now expiry : ℤ)
  | insert (sessionID holder : GoString) (expiry : ℤ)
  | renew (sessionID holder : GoString) (now expiry : ℤ)
  | release (sessionID holder : GoString)
  | prune (now : ℤ)
  deriving DecidableEq

/-- The checks that the calls of a holder share. -/
def validateLeaseCall (sessionID holder : GoString) : Except LeaseError Unit := do
  (validateSessionID sessionID).mapError .sessionID
  validateLeaseHolder holder

/-- `AcquireSessionLease` until its first statement. -/
def acquireSessionLease (sessionID holder : GoString) (ttl clock : ℤ) :
    Except LeaseError LeaseCall := do
  validateLeaseCall sessionID holder
  require (0 < ttl) .ttl
  return .steal sessionID holder (unixMilli clock) (unixMilli (clock + ttl))

/-- `RenewSessionLease` until its statement. -/
def renewSessionLease (sessionID holder : GoString) (ttl clock : ℤ) :
    Except LeaseError LeaseCall := do
  validateLeaseCall sessionID holder
  require (0 < ttl) .ttl
  return .renew sessionID holder (unixMilli clock) (unixMilli (clock + ttl))

/-- `ReleaseSessionLease` until its statement. -/
def releaseSessionLease (sessionID holder : GoString) : Except LeaseError LeaseCall := do
  validateLeaseCall sessionID holder
  return .release sessionID holder

/-- What follows a statement. -/
inductive LeaseNext where
  /-- another statement of the call -/
  | again (call : LeaseCall)
  /-- the call returns whether its holder has the lease -/
  | answer (granted : Bool)
  /-- the call returns nothing, or an error -/
  | done
  deriving DecidableEq

def LeaseCall.execute (leases : Leases) : LeaseCall → Leases × LeaseNext
  | .steal sessionID holder now expiry =>
    match leases.execute (sqlLeaseSteal holder expiry sessionID now) with
    | none => (leases, .done)
    | some (0, _) => (leases, .again (.insert sessionID holder expiry))
    | some (_ + 1, leases) => (leases, .answer true)
  | .insert sessionID holder expiry =>
    match leases.insert ⟨sessionID, holder, expiry⟩ with
    | none => (leases, .answer false)
    | some leases => (leases, .answer true)
  | .renew sessionID holder now expiry =>
    match leases.execute (sqlLeaseRenew expiry sessionID holder now) with
    | none => (leases, .done)
    | some (affected, leases) => (leases, .answer (0 < affected))
  | .release sessionID holder => (leases.delete (·.heldBy sessionID holder), .done)
  | .prune now => (leases.delete fun l => l.expiresAt < now, .done)

/-! ## Instances -/

/-- The table, the clock, the calls in flight, and the leases that have been given
and not released. -/
structure LeaseState where
  leases : Leases
  clock : ℤ
  calls : List LeaseCall
  grants : List LeaseRow

/-- What an instance or the clock does next. -/
inductive LeaseLabel where
  | tick (clock : ℤ)
  | acquire (sessionID holder : GoString) (ttl : ℤ)
  | renew (sessionID holder : GoString) (ttl : ℤ)
  | release (sessionID holder : GoString)
  | prune
  /-- a call in flight executes its next statement -/
  | run (i : ℕ)
  /-- a call in flight fails, or its instance is lost -/
  | drop (i : ℕ)

namespace LeaseState

/-- A call that has passed its checks is in flight. -/
def start (s : LeaseState) (call : Except LeaseError LeaseCall) : Option LeaseState :=
  call.toOption.map fun call => { s with calls := s.calls ++ [call] }

/-- The leases given after a statement: a lease that is given replaces the one its
holder had, and a release ends it. -/
def given (grants : List LeaseRow) (call : LeaseCall) (next : LeaseNext) : List LeaseRow :=
  match call, next with
  | .steal sessionID holder _ expiry, .answer true
  | .insert sessionID holder expiry, .answer true
  | .renew sessionID holder _ expiry, .answer true =>
    grants.filter (fun g => !g.heldBy sessionID holder) ++ [⟨sessionID, holder, expiry⟩]
  | .release sessionID holder, _ => grants.filter (fun g => !g.heldBy sessionID holder)
  | _, _ => grants

/-- The state after the next statement of the call at a position. -/
def ran (s : LeaseState) (i : ℕ) (call : LeaseCall) : LeaseState :=
  let (leases, next) := call.execute s.leases
  { s with
    leases, grants := given s.grants call next
    calls := match next with
      | .again call => s.calls.set i call
      | _ => s.calls.eraseIdx i }

/-- One step; the clock does not go back. -/
def step (s : LeaseState) : LeaseLabel → Option LeaseState
  | .tick clock => if s.clock ≤ clock then some { s with clock } else none
  | .acquire sessionID holder ttl => s.start (acquireSessionLease sessionID holder ttl s.clock)
  | .renew sessionID holder ttl => s.start (renewSessionLease sessionID holder ttl s.clock)
  | .release sessionID holder => s.start (releaseSessionLease sessionID holder)
  | .prune => s.start (.ok (.prune (unixMilli s.clock)))
  | .run i => (s.calls[i]?).map (s.ran i)
  | .drop i => some { s with calls := s.calls.eraseIdx i }

end LeaseState

/-- The instances that share a database, which starts without leases. -/
def leaseSystem : System LeaseState LeaseLabel where
  init s := s.leases = .empty ∧ s.calls = [] ∧ s.grants = []
  step s l s' := s.step l = some s'

/-! ## What a statement does -/

variable {leases leases' : Leases} {sessionID holder : GoString} {now expiry : ℤ} {l : LeaseRow}
  {s s' : LeaseState}

instance : Fact (Table.UniqueKey LeaseRow.clash LeaseRow.sessionID) where
  out a b same := by simp [LeaseRow.clash, same]

theorem LeaseRow.heldBy_iff :
    l.heldBy sessionID holder ↔ l.sessionID = sessionID ∧ l.holder = holder :=
  decide_eq_true_iff

/-- The row becomes the row of its session. -/
def Puts (leases leases' : Leases) (l : LeaseRow) : Prop :=
  ∀ x, x ∈ leases'.rows ↔ x = l ∨ x ∈ leases.rows ∧ x.sessionID ≠ l.sessionID

theorem mem_iff_lookup : l ∈ leases.rows ↔
    leases.lookup LeaseRow.sessionID l.sessionID = some l := by
  rw [lookup_eq_some]
  exact ⟨fun mem => ⟨mem, rfl⟩, And.left⟩

theorem puts_of_lookup (h : ∀ k, leases'.lookup LeaseRow.sessionID k =
    if k = l.sessionID then some l else leases.lookup LeaseRow.sessionID k) : Puts leases
      leases' l := by
  intro x
  rw [mem_iff_lookup, mem_iff_lookup, h]
  split
  next same => simp [same, eq_comm]
  next other =>
    have differs : x ≠ l := fun eq => other (congrArg _ eq)
    simp [other, differs]

variable {n : ℕ}

theorem puts_of_execute {u : Update LeaseRow}
    (sets : ∀ x : LeaseRow, x.sessionID = l.sessionID → u.selects x → u.set x = l)
    (h : leases.execute u = some (n + 1, leases'))
    (one : u.At LeaseRow.sessionID l.sessionID := by exact {}) :
    Puts leases leases' l ∧ ∃ x ∈ leases.rows, x.sessionID = l.sessionID ∧ u.selects x := by
  obtain ⟨x, found, selected, rows⟩ := selected_of_execute _ _ h (Nat.succ_ne_zero n) one
  have own := one.own x selected
  rw [sets x own selected] at rows
  exact ⟨puts_of_lookup rows, x, (lookup_eq_some.mp found).1, own, selected⟩

theorem puts_of_insert (h : leases.insert l = some leases') :
    Puts leases leases' l ∧ ∀ x ∈ leases.rows, x.sessionID ≠ l.sessionID :=
  ⟨puts_of_lookup (lookup_of_insert h), Table.lookup_eq_none.mp (lookup_eq_none_of_insert h)⟩

/-! ## What holds in every state -/

/-- The reading of the clock a call acts on. -/
def LeaseCall.reading : LeaseCall → Option ℤ
  | .steal _ _ now _ | .renew _ _ now _ | .prune now => some now
  | .insert .. | .release .. => none

/-- Every row is a lease that was given, and a lease that has not expired is in the
table. -/
structure LeaseState.Backed (leases : Leases) (grants : List LeaseRow) (now : ℤ) : Prop where
  recorded : ∀ l ∈ leases.rows, l ∈ grants
  backed : ∀ g ∈ grants, now < g.expiresAt → g ∈ leases.rows

/-- What holds in every state: calls in flight have read the clock before, and
leases are backed by the table. -/
structure LeaseState.Sound (s : LeaseState) : Prop where
  read : ∀ call ∈ s.calls, ∀ now, call.reading = some now → now ≤ unixMilli s.clock
  leases : LeaseState.Backed s.leases s.grants (unixMilli s.clock)

variable {grants : List LeaseRow}

/-- A lease that is given takes the place of one that has expired or that its holder
had. -/
theorem backed_of_puts (backed : LeaseState.Backed leases grants now) (puts : Puts leases leases' l)
    (replaces : ∀ x ∈ leases.rows, x.sessionID = l.sessionID → x.expiresAt ≤ now ∨
    x.holder = l.holder) :
    LeaseState.Backed leases'
      (grants.filter (fun g => !g.heldBy l.sessionID l.holder) ++ [l]) now where
  recorded x mem := by
    rcases (puts x).mp mem with rfl | ⟨old, other⟩
    · exact mem_append_right _ (mem_singleton.mpr rfl)
    · refine mem_append_left _ (mem_filter.mpr ⟨backed.recorded x old, ?_⟩)
      rw [not_eq_true', ← not_eq_true, LeaseRow.heldBy_iff]
      exact fun held => other held.1
  backed g mem live := by
    rcases mem_append.mp mem with old | new
    · obtain ⟨given, notHeld⟩ := mem_filter.mp old
      have row := backed.backed g given live
      refine (puts g).mpr (.inr ⟨row, fun same => ?_⟩)
      rcases replaces g row same with expired | own
      · exact absurd live (not_lt.mpr expired)
      · rw [LeaseRow.heldBy_iff.mpr ⟨same, own⟩] at notHeld
        cases notHeld
    · exact (puts g).mpr (.inl (mem_singleton.mp new))

/-- The next statement of a call in flight. -/
theorem backed_of_execute {call : LeaseCall} (backed : LeaseState.Backed leases grants now)
    (read : ∀ t, call.reading = some t → t ≤ now) :
    LeaseState.Backed (call.execute leases).1
      (LeaseState.given grants call (call.execute leases).2) now := by
  cases call with
  | steal sessionID holder t expiry =>
    simp only [LeaseCall.execute]
    split
    · exact backed
    · exact backed
    next leases' ran =>
      obtain ⟨puts, x, mem, own, selected⟩ := puts_of_execute (l := ⟨sessionID, holder, expiry⟩)
        (by rintro x ⟨⟩ _; rfl) ran
      refine backed_of_puts backed puts fun y mem' same => .inl ?_
      obtain rfl := eq_of_key mem' mem (same.trans own.symm)
      exact (of_decide_eq_true selected).2.trans (read t rfl)
  | insert sessionID holder expiry =>
    simp only [LeaseCall.execute]
    split
    · exact backed
    next leases' inserted =>
      obtain ⟨puts, absent⟩ := puts_of_insert inserted
      exact backed_of_puts backed puts fun y mem same => absurd same (absent y mem)
  | renew sessionID holder t expiry =>
    simp only [LeaseCall.execute]
    split
    · exact backed
    next n leases' ran =>
      cases n with
      | zero =>
        have same := Table.rows_of_execute_zero ran
        exact ⟨fun x mem => backed.recorded x (same ▸ mem),
          fun g mem live => same ▸ backed.backed g mem live⟩
      | succ n =>
        obtain ⟨puts, x, mem, own, selected⟩ := puts_of_execute (l := ⟨sessionID, holder, expiry⟩)
          (fun x _ selected => by obtain ⟨rfl, rfl, _⟩ := of_decide_eq_true selected; rfl) ran
        refine backed_of_puts backed puts fun y mem' same => .inr ?_
        obtain rfl := eq_of_key mem' mem (same.trans own.symm)
        exact (of_decide_eq_true selected).2.1
  | release sessionID holder =>
    refine ⟨fun x mem => ?_, fun g mem live => ?_⟩
    · obtain ⟨row, kept⟩ := mem_delete.mp mem
      exact mem_filter.mpr ⟨backed.recorded x row, by rw [kept]; rfl⟩
    · obtain ⟨given, kept⟩ := mem_filter.mp mem
      exact mem_delete.mpr ⟨backed.backed g given live, by simpa using kept⟩
  | prune t =>
    refine ⟨fun x mem => ?_, fun g mem live => ?_⟩
    · exact backed.recorded x (mem_delete.mp mem).1
    · refine mem_delete.mpr ⟨backed.backed g mem live, ?_⟩
      have past := read t rfl
      simp only [decide_eq_false_iff_not, not_lt]
      exact (past.trans_lt live).le

/-- A call that starts has read the clock now. -/
theorem sound_of_start (sound : s.Sound) {call : Except LeaseError LeaseCall}
    (read : ∀ c, call = .ok c → ∀ now, c.reading = some now → now = unixMilli s.clock)
    (h : s.start call = some s') : s'.Sound := by
  obtain ⟨c, started, rfl⟩ := map_eq_some_iff.mp h
  refine ⟨fun c' mem now own => ?_, sound.leases⟩
  rcases mem_append.mp mem with old | new
  · exact sound.read c' old now own
  · obtain rfl := mem_singleton.mp new
    refine (read c' ?_ now own).le
    cases call with
    | error e => cases started
    | ok c => exact congrArg Except.ok (some.inj started)

/-- The only call that goes on is an acquisition before its second statement. -/
theorem reading_of_again {call next : LeaseCall} (h : (call.execute leases).2 = .again next) :
    next.reading = none := by
  cases call with
  | steal =>
    simp only [LeaseCall.execute] at h
    split at h
    · cases h
    · cases h
      rfl
    · cases h
  | insert | renew =>
    simp only [LeaseCall.execute] at h
    split at h <;> cases h
  | release | prune => cases h

theorem unixMilli_mono {a b : ℤ} (h : a ≤ b) : unixMilli a ≤ unixMilli b :=
  Int.ediv_le_ediv (by decide) h

theorem sound_of_lease_step {label : LeaseLabel} (sound : s.Sound) (h : s.step label = some s') :
    s'.Sound := by
  cases label with
  | tick clock =>
    simp only [LeaseState.step] at h
    split at h
    next later =>
      cases h
      have passed := unixMilli_mono later
      refine ⟨fun c mem now own => (sound.read c mem now own).trans passed,
        sound.leases.recorded, fun g mem live => sound.leases.backed g mem (passed.trans_lt live)⟩
    · cases h
  | acquire | renew =>
    refine sound_of_start sound (fun c started now own => ?_) h
    simp only [acquireSessionLease, renewSessionLease, bind_eq_ok, pure_eq_ok] at started
    obtain ⟨_, _, _, _, rfl⟩ := started
    exact (some.inj own).symm
  | release sessionID holder =>
    refine sound_of_start sound (fun c started now own => ?_) h
    simp only [releaseSessionLease, bind_eq_ok, pure_eq_ok] at started
    obtain ⟨_, _, rfl⟩ := started
    cases own
  | prune =>
    refine sound_of_start sound (fun c started now own => ?_) h
    obtain rfl := Except.ok.inj started
    exact (some.inj own).symm
  | run i =>
    obtain ⟨call, found, rfl⟩ := map_eq_some_iff.mp h
    have inFlight := mem_of_getElem? found
    refine ⟨fun c mem now own => ?_, backed_of_execute sound.leases (sound.read call inFlight)⟩
    have cases_of_mem : c ∈ s.calls ∨ (call.execute s.leases).2 = .again c := by
      simp only [LeaseState.ran] at mem
      split at mem
      next c' again =>
        rcases mem_or_eq_of_mem_set mem with old | rfl
        · exact .inl old
        · exact .inr again
      · exact .inl (mem_of_mem_eraseIdx mem)
    rcases cases_of_mem with old | new
    · exact sound.read c old now own
    · rw [reading_of_again new] at own
      cases own
  | drop i =>
    cases h
    exact ⟨fun c mem => sound.read c (mem_of_mem_eraseIdx mem), sound.leases⟩

theorem lease_invariant : leaseSystem.Invariant LeaseState.Sound where
  init := by
    rintro s ⟨leases, calls, grants⟩
    exact ⟨by rw [calls]; nofun, by rw [leases]; nofun, by rw [grants]; nofun⟩
  step := sound_of_lease_step

/-- What is promised of the session leases in a state. -/
structure LeaseLaws (s : LeaseState) : Prop where
  /-- at most one holder has a lease on a session that has not expired -/
  exclusive : ∀ g ∈ s.grants, ∀ g' ∈ s.grants, g.sessionID = g'.sessionID →
    unixMilli s.clock < g.expiresAt → unixMilli s.clock < g'.expiresAt → g = g'
  /-- a renewal executed after the lease has expired is refused and changes nothing,
  if and only if it did not read the clock before the expiry -/
  expired : ∀ sessionID holder now expiry, .renew sessionID holder now expiry ∈ s.calls →
    (∀ g ∈ s.grants, g.heldBy sessionID holder → g.expiresAt ≤ unixMilli s.clock) →
    (((LeaseCall.renew sessionID holder now expiry).execute s.leases).2 = .answer false ∧
        ((LeaseCall.renew sessionID holder now expiry).execute s.leases).1.rows = s.leases.rows ↔
      ∀ l ∈ s.leases.rows, l.heldBy sessionID holder → l.expiresAt ≤ now)
  /-- the row of another holder stays as it is when a lease is renewed -/
  renewed : ∀ sessionID holder now expiry, .renew sessionID holder now expiry ∈ s.calls →
    ∀ l ∈ s.leases.rows, l.holder ≠ holder →
      l ∈ ((LeaseCall.renew sessionID holder now expiry).execute s.leases).1.rows
  /-- and when one is released -/
  released : ∀ sessionID holder, .release sessionID holder ∈ s.calls →
    ∀ l ∈ s.leases.rows, l.holder ≠ holder →
      l ∈ ((LeaseCall.release sessionID holder).execute s.leases).1.rows

/-- A renewal is refused, and changes nothing, exactly when it selects no row. -/
theorem execute_renew_refused_iff :
    ((LeaseCall.renew sessionID holder now expiry).execute leases).2 = .answer false ∧
        ((LeaseCall.renew sessionID holder now expiry).execute leases).1.rows = leases.rows ↔
      ∀ l ∈ leases.rows, ¬(sqlLeaseRenew expiry sessionID holder now).selects l := by
  obtain ⟨leases', ran⟩ := Table.execute_of_keeps (t := leases)
    (u := sqlLeaseRenew expiry sessionID holder now)
  have answer : ((LeaseCall.renew sessionID holder now expiry).execute leases) = (leases',
      .answer (decide (0 < leases.count (sqlLeaseRenew expiry sessionID holder now).selects))) := by
    simp only [LeaseCall.execute, ran]
  have refused : leases.count (sqlLeaseRenew expiry sessionID holder now).selects = 0 ↔
      ∀ l ∈ leases.rows, ¬(sqlLeaseRenew expiry sessionID holder now).selects l :=
    countP_eq_zero
  rw [answer, ← refused]
  constructor
  · rintro ⟨same, -⟩
    simpa using same
  · intro none
    rw [none] at ran ⊢
    exact ⟨rfl, Table.rows_of_execute_zero ran⟩

/-- **The session leases.**  In every interleaving of calls, under one clock that does
not go back, at most one holder has a lease that has not expired, a former holder
changes nothing of its successor, and a lease that has expired is not renewed by a
call that read the clock at its expiry or later. -/
theorem lease_laws {s : LeaseState} (reach : leaseSystem.Reachable s) : LeaseLaws s where
  exclusive := by
    intro g mem g' mem' same live live'
    have sound := lease_invariant.holds reach
    exact eq_of_key (sound.leases.backed g mem live) (sound.leases.backed g' mem' live') same
  expired := by
    intro sessionID holder now expiry _ _
    rw [execute_renew_refused_iff]
    refine forall₂_congr fun l _ => ?_
    have selects : (sqlLeaseRenew expiry sessionID holder now).selects l = true ↔
        l.heldBy sessionID holder = true ∧ now < l.expiresAt := by
      simp [sqlLeaseRenew, LeaseRow.heldBy, and_assoc]
    rw [selects, not_and, not_lt]
  renewed := by
    intro sessionID holder now expiry _ l mem other
    simp only [LeaseCall.execute]
    split
    · exact mem
    next n leases ran =>
      rw [(rows_of_execute ran).2]
      refine mem_map.mpr ⟨l, mem, ?_⟩
      rw [Update.apply, if_neg fun selected => other (of_decide_eq_true selected).2.1]
  released := by
    intro sessionID holder _ l mem other
    refine mem_delete.mpr ⟨mem, ?_⟩
    rw [← not_eq_true, LeaseRow.heldBy_iff]
    exact fun held => other held.2

/-! ## A lease that expires -/

/-- An instance acquires a lease, which expires; another one takes it over, and the
first, which has not noticed, asks to renew it. -/
def takenOver : List LeaseLabel := [
  .tick (10 ^ 9), .acquire (go "s1") (go "h1") (10 ^ 9), .run 0, .run 0,
  .tick (3 * 10 ^ 9), .acquire (go "s1") (go "h2") (10 ^ 9), .run 0,
  .renew (go "s1") (go "h1") (10 ^ 9)]

/-- The renewal is refused and the lease of the second instance stays. -/
theorem lease_laws_taken_over :
    ∃ s, leaseSystem.Reachable s ∧ s.leases.rows = [⟨go "s1", go "h2", 4000⟩] ∧
      ((LeaseCall.renew (go "s1") (go "h1") 3000 4000).execute s.leases).2 = .answer false ∧
      ((LeaseCall.renew (go "s1") (go "h1") 3000 4000).execute s.leases).1.rows =
        [⟨go "s1", go "h2", 4000⟩] := by
  obtain ⟨s, reach, clock, rows, calls, grants⟩ := System.exists_of_run (M := leaseSystem)
    (fun _ _ _ step => step) (show leaseSystem.init ⟨.empty, 0, [], []⟩ from ⟨rfl, rfl, rfl⟩)
    (fun s => unixMilli s.clock = 3000 ∧ s.leases.rows = [⟨go "s1", go "h2", 4000⟩] ∧
      s.calls = [.renew (go "s1") (go "h1") 3000 4000] ∧
      s.grants = [⟨go "s1", go "h1", 2000⟩, ⟨go "s1", go "h2", 4000⟩]) takenOver (by decide)
  have inFlight : LeaseCall.renew (go "s1") (go "h1") 3000 4000 ∈ s.calls := by
    rw [calls]
    exact mem_singleton.mpr rfl
  have refused := ((lease_laws reach).expired _ _ _ _ inFlight (by
    rw [grants, clock]
    decide)).mpr (by
    rw [rows]
    decide)
  exact ⟨s, reach, rows, refused.1, refused.2.trans rows⟩

/-- An instance acquires a lease that expires at 2000 ms.  It asks to renew it at
1900 ms, and the statement is executed at 2500 ms. -/
def renewedLate : List LeaseLabel := [
  .tick (10 ^ 9), .acquire (go "s1") (go "h1") (10 ^ 9), .run 0, .run 0,
  .tick (1900 * 10 ^ 6), .renew (go "s1") (go "h1") (10 ^ 9), .tick (2500 * 10 ^ 6)]

/-- The only lease has expired, and the statement revives it. -/
theorem expired_lease_revived :
    ∃ s s', leaseSystem.Reachable s ∧ s.grants = [⟨go "s1", go "h1", 2000⟩] ∧
      unixMilli s.clock = 2500 ∧ s.step (.run 0) = some s' ∧ unixMilli s'.clock = 2500 ∧
      s'.leases.rows = [⟨go "s1", go "h1", 2900⟩] := by
  obtain ⟨s, reach, grants, clock, executed⟩ := System.exists_of_run (M := leaseSystem)
    (fun _ _ _ step => step) (show leaseSystem.init ⟨.empty, 0, [], []⟩ from ⟨rfl, rfl, rfl⟩)
    (fun s => s.grants = [⟨go "s1", go "h1", 2000⟩] ∧ unixMilli s.clock = 2500 ∧
      (s.step (.run 0)).map (fun s' => (unixMilli s'.clock, s'.leases.rows)) =
        some (2500, [⟨go "s1", go "h1", 2900⟩])) renewedLate (by decide)
  obtain ⟨s', step, after⟩ := map_eq_some_iff.mp executed
  obtain ⟨later, rows⟩ := Prod.mk.inj after
  exact ⟨s, s', reach, grants, clock, step, later, rows⟩

end AutoAgent.Storage
