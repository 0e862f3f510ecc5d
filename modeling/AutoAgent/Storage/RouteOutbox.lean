import AutoAgent.Storage.RouteReceipt

/-!
# The route-evidence outbox

Any number of reconcilers and dispatchers work on the two tables at once.  A step of
the system is one attempt of one of their calls, with whatever clock that call
reads and whatever statements the database fails.

**What an attempt can do.**  Every attempt commits what a plain computation gives,
or nothing (`RouteCall.ends_attempt`), and there are three kinds of effects: nothing
changes, a receipt and its outbox row are filed together, or one outbox row moves on
(`RouteTables.Changes`).  The facts about whole runs follow from this alone.

**Due rows.**  A claim takes the first due row.  The lease it writes puts that row
behind the clock of the claim, so the claims of one moment go through the due rows
one after the other and reach every one of them.
-/

namespace AutoAgent.Storage

open List OutboxRow Tx RouteCall

/-! ## What an attempt commits -/

/-- What an attempt to create a receipt commits. -/
def RouteTables.created (w : RouteTables) (receipt : RouteEvidenceReceipt) :
    Except RouteError ((RouteEvidenceReceipt × Bool) × RouteTables) :=
  match w.receipts.find (·.hasSource receipt.sessionID receipt.runID receipt.terminalEventSeq) with
  | some row => do
      require (routeEvidenceReceiptMatches row.scan receipt) .sourceConflict
      require (w.outbox.lookup OutboxRow.receiptID row.receiptID).isSome .missingOutbox
      return ((row.scan, false), w)
  | none => do
      let inserted ← insertReceipt receipt.row w
      let filed ← insertOutbox (.new receipt.receiptID (unixMilli receipt.createdAt)) inserted.2
      return ((receipt, true), filed.2)

/-- What an attempt to claim a receipt commits. -/
def RouteTables.claimed (w : RouteTables) (workerID : GoString) (leaseTTL clock : ℤ) :
    Except RouteError (Option RouteEvidenceOutboxClaim × RouteTables) :=
  match claimRouteEvidenceCandidate (unixMilli clock) w with
  | none => return (none, w)
  | some (receipt, o) => do
      let updated ← updateOutbox (sqlClaimRouteEvidenceOutbox workerID
        (unixMilli (clock + leaseTTL)) receipt.receiptID o.leaseGeneration (unixMilli clock)) w
      require (updated.1 = 1) .raced
      return (some ⟨receipt.scan, workerID, o.leaseGeneration + 1, clock + leaseTTL,
        o.attempts + 1⟩, updated.2)

def RouteCall.effect (w : RouteTables) : RouteCall → Except RouteError (RouteAnswer × RouteTables)
  | .create input clock => do
      let input ← validateRouteEvidenceReceiptInput input
      (w.created (receiptFromRouteEvidenceInput input clock)).map fun x =>
        (.receipt x.1.1 x.1.2, x.2)
  | .claim workerID leaseTTL clock => do
      (validateWorkerID workerID).mapError .store
      require (0 < leaseTTL) .ttl
      (w.claimed workerID leaseTTL clock).map fun x => (.claimed x.1, x.2)
  | .ack receiptID workerID leaseGeneration clock => do
      validateRouteEvidenceClaim receiptID workerID leaseGeneration
      let updated ← updateOutbox
        (sqlAckRouteEvidenceOutbox receiptID workerID leaseGeneration (unixMilli clock)) w
      return (.settled (decide (updated.1 = 1)), updated.2)
  | .retry receiptID workerID leaseGeneration availableAt errorClass clock => do
      validateRouteEvidenceClaim receiptID workerID leaseGeneration
      require availableAt.isSome .availability
      validateRouteEvidenceErrorClass errorClass
      let updated ← updateOutbox (sqlRetryRouteEvidenceOutbox
        (unixMilli (availableAt.getD 0)) errorClass receiptID workerID leaseGeneration
        (unixMilli clock)) w
      return (.settled (decide (updated.1 = 1)), updated.2)

variable {w w' : RouteTables} {receipt : RouteEvidenceReceipt} {o o' : OutboxRow}
  {workerID receiptID : GoString} {leaseTTL clock now generation : ℤ} {call : RouteCall}

theorem ends_createOrLoad :
    (createOrLoadRouteEvidenceReceipt receipt).Ends w w (w.created receipt) := by
  refine ends_query ?_
  unfold RouteTables.created
  cases w.receipts.find (·.hasSource receipt.sessionID receipt.runID receipt.terminalEventSeq) with
  | some row =>
    refine ends_check fun _ _ => ends_query ?_
    exact ends_check fun _ _ => ends_commit _
  | none =>
    refine ends_statement (bind_pure _).symm fun _ _ => ?_
    refine ends_statement (bind_pure _).symm fun _ _ => ?_
    exact ends_commit _

theorem ends_claim :
    (claimRouteEvidenceReceipt workerID leaseTTL clock).Ends w w
      (w.claimed workerID leaseTTL clock) := by
  refine ends_query ?_
  unfold RouteTables.claimed
  cases claimRouteEvidenceCandidate (unixMilli clock) w with
  | none => exact ends_return none
  | some found =>
    refine ends_statement (bind_pure _).symm fun _ _ => ?_
    exact ends_check fun _ _ => ends_commit _

/-- An attempt commits its effect, or nothing. -/
theorem RouteCall.ends_attempt : call.attempt.Ends w w (call.effect w) := by
  cases call with
  | create input clock => exact ends_check fun input _ => ends_map ends_createOrLoad _
  | claim workerID leaseTTL clock =>
    exact ends_check fun _ _ => ends_check fun _ _ => ends_map ends_claim _
  | ack receiptID workerID leaseGeneration clock =>
    refine ends_check fun _ _ => ends_statement (bind_pure _).symm fun _ _ => ?_
    exact ends_commit _
  | retry receiptID workerID leaseGeneration availableAt errorClass clock =>
    refine ends_check fun _ _ => ends_check fun _ _ => ends_check fun _ _ => ?_
    refine ends_statement (bind_pure _).symm fun _ _ => ?_
    exact ends_commit _

/-- On a database that fails nothing an attempt does what its effect says. -/
theorem RouteCall.run_of_effect {a : RouteAnswer} (h : call.effect w = .ok (a, w')) :
    call.run [] w = (.ok a, w') :=
  (transact_of_ends call.ends_attempt h []).resolve_right (by simp)

/-- An attempt that does not answer leaves what it found, and one that answers leaves its
effect. -/
theorem RouteCall.run_cases (faults : List Bool) :
    (call.run faults w).2 = w ∧ (∀ a, (call.run faults w).1 ≠ .ok a) ∨
      ∃ a, call.effect w = .ok (a, (call.run faults w).2) ∧ (call.run faults w).1 = .ok a := by
  have ended : call.run faults w = (_, _) := rfl
  rcases transact_cases call.ends_attempt ended with ⟨a, answer, done⟩ | ⟨none, same⟩
  · exact .inr ⟨a, done, answer⟩
  · exact .inl ⟨same, none⟩

/-! ## What an attempt can do -/

instance : Fact (Table.UniqueKey clash OutboxRow.receiptID) where
  out a b same := by simp [clash, same]

instance : Fact (Table.UniqueKey RouteEvidenceReceipt.clash RouteEvidenceReceipt.receiptID) where
  out a b same := by simp [RouteEvidenceReceipt.clash, same]

/-- How one outbox row may change. -/
structure OutboxRow.Moves (o o' : OutboxRow) : Prop where
  receiptID : o'.receiptID = o.receiptID
  generation : o.leaseGeneration ≤ o'.leaseGeneration
  delivered : o.state = .delivered → o' = o

/-- What an attempt can do to the tables. -/
inductive RouteTables.Changes (w w' : RouteTables) : Prop where
  /-- nothing -/
  | nothing : w' = w → w.Changes w'
  /-- a receipt and its outbox row are filed -/
  | filed {r : RouteEvidenceReceipt} {o : OutboxRow} : o.receiptID = r.receiptID →
      w.receipts.insert r = some w'.receipts → w.outbox.insert o = some w'.outbox → w.Changes w'
  /-- outbox rows move on -/
  | updated {u : Update OutboxRow} {n : ℕ} : (∀ o : OutboxRow, o.Moves (u.apply o)) →
      w.outbox.execute u = some (n, w'.outbox) → w'.receipts = w.receipts → w.Changes w'

variable {u : Update OutboxRow} {x : ℕ × RouteTables}

theorem changes_of_update (moves : ∀ o, u.selects o → o.Moves (u.set o))
    (h : updateOutbox u w = .ok x) :
    w.Changes x.2 := by
  unfold updateOutbox at h
  split at h
  next affected outbox ran =>
    cases h
    refine .updated (fun o => ?_) ran rfl
    by_cases selected : u.selects o
    · rw [Update.apply_of_selects selected]
      exact moves o selected
    · rw [Update.apply, if_neg selected]
      exact ⟨rfl, le_refl _, fun _ => rfl⟩
  next => cases h

theorem changes_of_insert {r : RouteEvidenceReceipt} {x y : Unit × RouteTables}
    (same : o.receiptID = r.receiptID) (inserted : insertReceipt r w = .ok x)
    (filed : insertOutbox o x.2 = .ok y) : w.Changes y.2 := by
  unfold insertReceipt at inserted
  rw [bind_eq_ok] at inserted
  obtain ⟨_, _, inserted⟩ := inserted
  split at inserted
  next receipts first =>
    cases inserted
    unfold insertOutbox at filed
    split at filed
    next outbox second =>
      cases filed
      exact .filed same first second
    next => cases filed
  next => cases inserted

theorem OutboxRow.moves_of_claim {expiry : ℤ}
    (h : (sqlClaimRouteEvidenceOutbox workerID expiry receiptID generation now).selects o) :
    o.Moves ((sqlClaimRouteEvidenceOutbox workerID expiry receiptID generation now).set o) where
  receiptID := rfl
  generation := by
    show o.leaseGeneration ≤ o.leaseGeneration + 1
    omega
  delivered done := by
    -- a delivered row is never due
    simp [sqlClaimRouteEvidenceOutbox, OutboxRow.due, done] at h

theorem OutboxRow.heldBy_iff :
    o.heldBy receiptID workerID generation now ↔ o.receiptID = receiptID ∧
      o.state = .leased ∧ o.leaseOwner = workerID ∧ o.leaseGeneration = generation ∧
      now < o.leaseExpiresAt := decide_eq_true_iff

/-- A statement that needs a live lease and keeps the generation moves its row on. -/
theorem OutboxRow.moves_of_held (h : o.heldBy receiptID workerID generation now)
    (key : o'.receiptID = o.receiptID) (same : o'.leaseGeneration = o.leaseGeneration) :
    o.Moves o' where
  receiptID := key
  generation := same.ge
  delivered done := by
    rw [(heldBy_iff.mp h).2.1] at done
    cases done

/-- An acknowledgement and a retry are one statement that needs the live lease and keeps its
generation. -/
theorem RouteCall.effect_settle {a : RouteAnswer}
    (settles : call = .ack receiptID workerID generation clock ∨ ∃ availableAt errorClass,
      call = .retry receiptID workerID generation availableAt errorClass clock)
    (effect : call.effect w = .ok (a, w')) :
    ∃ u x, u.selects = heldBy receiptID workerID generation (unixMilli clock) ∧
      (∀ o, (u.set o).receiptID = o.receiptID ∧ (u.set o).leaseGeneration = o.leaseGeneration) ∧
      updateOutbox u w = .ok x ∧ a = .settled (decide (x.1 = 1)) ∧ w' = x.2 := by
  rcases settles with rfl | ⟨availableAt, errorClass, rfl⟩ <;>
    simp only [RouteCall.effect, bind_eq_ok, pure_eq_ok, Prod.mk.injEq] at effect
  · obtain ⟨_, _, x, updated, rfl, rfl⟩ := effect
    exact ⟨_, x, rfl, fun _ => ⟨rfl, rfl⟩, updated, rfl, rfl⟩
  · obtain ⟨_, _, _, _, _, _, x, updated, rfl, rfl⟩ := effect
    exact ⟨_, x, rfl, fun _ => ⟨rfl, rfl⟩, updated, rfl, rfl⟩

/-- Every attempt changes the tables in one of the three ways. -/
theorem RouteCall.changes (call : RouteCall) (faults : List Bool) (w : RouteTables) :
    w.Changes (call.run faults w).2 := by
  rcases call.run_cases (w := w) faults with ⟨same, _⟩ | ⟨a, effect, _⟩
  · exact .nothing same
  generalize (call.run faults w).2 = w' at effect ⊢
  cases call with
  | create input clock =>
    obtain ⟨input, _, effect⟩ := bind_eq_ok.mp effect
    obtain ⟨x, made, eq⟩ := map_eq_ok.mp effect
    cases eq
    unfold RouteTables.created at made
    split at made
    · obtain ⟨_, _, made⟩ := bind_eq_ok.mp made
      obtain ⟨_, _, made⟩ := bind_eq_ok.mp made
      cases made
      exact .nothing rfl
    · obtain ⟨_, inserted, made⟩ := bind_eq_ok.mp made
      obtain ⟨_, filed, made⟩ := bind_eq_ok.mp made
      cases made
      exact changes_of_insert rfl inserted filed
  | claim workerID leaseTTL clock =>
    obtain ⟨_, _, effect⟩ := bind_eq_ok.mp effect
    obtain ⟨_, _, effect⟩ := bind_eq_ok.mp effect
    obtain ⟨x, made, eq⟩ := map_eq_ok.mp effect
    cases eq
    unfold RouteTables.claimed at made
    split at made
    · cases made
      exact .nothing rfl
    · obtain ⟨_, updated, made⟩ := bind_eq_ok.mp made
      obtain ⟨_, _, made⟩ := bind_eq_ok.mp made
      cases made
      exact changes_of_update (fun _ => moves_of_claim) updated
  | ack | retry =>
    obtain ⟨u, x, held, keeps, updated, _, rfl⟩ := effect_settle
      (by first | exact .inl rfl | exact .inr ⟨_, _, rfl⟩) effect
    refine changes_of_update (fun o selected => ?_) updated
    exact moves_of_held (held ▸ selected) (keeps o).1 (keeps o).2

/-! ## Runs -/

/-- One attempt of a call, with the statements that the database fails. -/
structure RouteAttempt where
  call : RouteCall
  faults : List Bool

/-- Reconcilers and dispatchers that share the two tables. -/
def outboxSystem : System RouteTables RouteAttempt where
  init w := w = ⟨.empty, .empty⟩
  step w l w' := w' = (l.call.run l.faults w).2

/-- Receipts and outbox rows come in pairs. -/
def RouteTables.Paired (w : RouteTables) : Prop :=
  w.outbox.rows.map OutboxRow.receiptID = w.receipts.rows.map RouteEvidenceReceipt.receiptID

/-- Nothing that was written is lost: receipts stay, and outbox rows only move on. -/
structure RouteTables.Follows (w w' : RouteTables) : Prop where
  receipts : ∀ r ∈ w.receipts.rows, r ∈ w'.receipts.rows
  outbox : ∀ o ∈ w.outbox.rows, ∃ o' ∈ w'.outbox.rows, o.Moves o'

theorem OutboxRow.Moves.trans {o₁ o₂ o₃ : OutboxRow} (h₁ : o₁.Moves o₂) (h₂ : o₂.Moves o₃) :
    o₁.Moves o₃ where
  receiptID := h₂.receiptID.trans h₁.receiptID
  generation := h₁.generation.trans h₂.generation
  delivered done := by
    have first := h₁.delivered done
    rw [h₂.delivered (first ▸ done), first]

theorem RouteTables.Follows.refl (w : RouteTables) : w.Follows w where
  receipts _ mem := mem
  outbox o mem := ⟨o, mem, rfl, le_refl _, fun _ => rfl⟩

theorem RouteTables.Follows.trans {w₁ w₂ w₃ : RouteTables} (h₁ : w₁.Follows w₂)
    (h₂ : w₂.Follows w₃) : w₁.Follows w₃ where
  receipts r mem := h₂.receipts r (h₁.receipts r mem)
  outbox o mem := by
    obtain ⟨o₂, mem₂, moves₂⟩ := h₁.outbox o mem
    obtain ⟨o₃, mem₃, moves₃⟩ := h₂.outbox o₂ mem₂
    exact ⟨o₃, mem₃, moves₂.trans moves₃⟩

theorem RouteTables.Changes.follows (h : w.Changes w') : w.Follows w' := by
  cases h with
  | nothing same => exact same ▸ .refl w
  | filed same first second =>
    refine ⟨fun r mem => ?_, fun o mem => ⟨o, ?_, rfl, le_refl _, fun _ => rfl⟩⟩
    · rw [rows_of_insert first]
      exact mem_append_left _ mem
    · rw [rows_of_insert second]
      exact mem_append_left _ mem
  | @updated u n moves ran same =>
    refine ⟨fun r mem => same ▸ mem, fun o mem => ⟨u.apply o, ?_, moves o⟩⟩
    rw [(rows_of_execute ran).2]
    exact mem_map_of_mem mem

theorem RouteTables.Changes.paired (h : w.Changes w') (paired : w.Paired) : w'.Paired := by
  unfold RouteTables.Paired at paired ⊢
  cases h with
  | nothing same => exact same ▸ paired
  | filed same first second =>
    rw [rows_of_insert first, rows_of_insert second, map_append, map_append,
      paired, map_singleton, map_singleton, same]
  | @updated u n moves ran same =>
    have keys : OutboxRow.receiptID ∘ u.apply = OutboxRow.receiptID :=
      funext fun o => (moves o).receiptID
    rw [(rows_of_execute ran).2, map_map, keys, paired, same]

/-- Receipts and outbox rows come in pairs in every state. -/
theorem paired_invariant : outboxSystem.Invariant RouteTables.Paired where
  init start := by
    cases start
    rfl
  step {w l w'} paired ran := by
    obtain rfl : w' = (l.call.run l.faults w).2 := ran
    exact (l.call.changes l.faults w).paired paired

/-- Later states follow earlier ones. -/
theorem follows_of_after (later : (outboxSystem.after w).Reachable w') : w.Follows w' := by
  have inv : (outboxSystem.after w).Invariant w.Follows :=
    { init := fun start => by
        cases start
        exact .refl w
      step := fun {w₁ l w₂} follows ran => by
        obtain rfl : w₂ = (l.call.run l.faults w₁).2 := ran
        exact follows.trans (l.call.changes l.faults w₁).follows }
  exact inv.holds later

/-! ## Leases that are over -/

/-- A statement that needs a live lease of a generation changes nothing once the row
has another generation or its lease has expired. -/
theorem updateOutbox_of_past (held : u.selects = heldBy receiptID workerID generation now)
    (past : ∀ o ∈ w.outbox.rows, o.receiptID = receiptID →
      o.leaseGeneration ≠ generation ∨ o.leaseExpiresAt ≤ now) (h : updateOutbox u w = .ok x) :
    x = (0, w) := by
  have none : w.outbox.count u.selects = 0 := by
    refine countP_eq_zero.mpr fun o mem selected => ?_
    rw [held, heldBy_iff] at selected
    obtain ⟨own, _, _, current, live⟩ := selected
    rcases past o mem own with stale | expired
    · exact stale current
    · omega
  unfold updateOutbox at h
  split at h
  next affected outbox ran =>
    cases h
    obtain ⟨rfl, rows⟩ := rows_of_execute ran
    rw [none] at ran ⊢
    rw [Table.eq_of_execute_zero ran]
  next => cases h

/-- An acknowledgement or a retry that comes too late changes nothing, and does not
report that it has. -/
theorem RouteCall.run_of_past
    (late : call = .ack receiptID workerID generation clock ∨ ∃ availableAt errorClass,
      call = .retry receiptID workerID generation availableAt errorClass clock)
    (past : ∀ o ∈ w.outbox.rows, o.receiptID = receiptID →
      o.leaseGeneration ≠ generation ∨ o.leaseExpiresAt ≤ unixMilli clock) (faults : List Bool) :
    (call.run faults w).2 = w ∧ (call.run faults w).1 ≠ .ok (.settled true) := by
  rcases call.run_cases (w := w) faults with ⟨same, none⟩ | ⟨a, effect, answer⟩
  · exact ⟨same, none _⟩
  · obtain ⟨u, x, held, _, updated, settled, left⟩ := effect_settle late effect
    rw [updateOutbox_of_past held past updated] at settled left
    rw [answer, settled]
    exact ⟨left, by simp⟩

/-! ## Due rows -/

/-- A row that is not delivered is due once its availability time, or its lease, has
passed. -/
theorem OutboxRow.due_of_passed (open_ : o.state ≠ .delivered)
    (available : o.state = .pending → o.availableAt ≤ now)
    (expired : o.state = .leased → o.leaseExpiresAt ≤ now) : o.due now := by
  cases state : o.state with
  | pending => simp [OutboxRow.due, state, available state]
  | leased => simp [OutboxRow.due, state, expired state]
  | delivered => exact absurd state open_

/-- The claim of a row selects that row alone. -/
theorem execute_claim (workerID : GoString) (expiry : ℤ) (mem : o ∈ w.outbox.rows)
    (due : o.due now) :
    ∃ outbox, w.outbox.execute (sqlClaimRouteEvidenceOutbox workerID expiry o.receiptID
      o.leaseGeneration now) = some (1, outbox) := by
  obtain ⟨outbox, ran⟩ := Table.execute_of_keeps (t := w.outbox)
    (u := sqlClaimRouteEvidenceOutbox workerID expiry o.receiptID o.leaseGeneration now)
  refine ⟨outbox, ran.trans (congrArg (fun n => some (n, outbox)) ?_)⟩
  refine Nat.le_antisymm (Table.count_le_one fun a b ha hb => beq_iff_eq.mpr ?_)
    (countP_pos_iff.mpr ⟨o, mem, decide_eq_true ⟨rfl, rfl, due⟩⟩)
  exact (of_decide_eq_true ha).1.trans (of_decide_eq_true hb).1.symm

theorem OutboxRow.before_asymm (a b : OutboxRow) (h : a.before b) : b.before a = false := by
  refine decide_eq_false ?_
  rcases of_decide_eq_true h with earlier | ⟨same, before⟩ <;> rintro (later | ⟨_, after⟩)
  · omega
  · omega
  · omega
  · rw [GoString.not_before_of_before before] at after
    cases after

theorem OutboxRow.not_before_trans (a b c : OutboxRow) (h₁ : a.before b = false)
    (h₂ : b.before c = false) : a.before c = false := by
  have first := of_decide_eq_false h₁
  have second := of_decide_eq_false h₂
  refine decide_eq_false ?_
  simp only [not_or, not_and, GoString.before, decide_eq_true_eq] at *
  refine ⟨by omega, fun same => ?_⟩
  -- all three come up at one time, so their ids decide
  exact List.le_trans (second.2 (by omega)) (first.2 (by omega))

/-- While a row is due, a claim takes a due row that comes no later in the order of
claims. -/
theorem claimed_of_due (workerID : GoString) (leaseTTL : ℤ) (paired : w.Paired)
    (mem : o ∈ w.outbox.rows) (due : o.due (unixMilli clock)) :
    ∃ first ∈ w.outbox.rows, first.due (unixMilli clock) ∧ o.before first = false ∧
      ∃ r ∈ w.receipts.rows, r.receiptID = first.receiptID ∧ ∃ outbox,
        w.outbox.execute (sqlClaimRouteEvidenceOutbox workerID (unixMilli (clock + leaseTTL))
          first.receiptID first.leaseGeneration (unixMilli clock)) = some (1, outbox) ∧
        w.claimed workerID leaseTTL clock =
          .ok (some ⟨r.scan, workerID, first.leaseGeneration + 1, clock + leaseTTL,
            first.attempts + 1⟩, { w with outbox }) := by
  have known : ∀ x ∈ w.outbox.rows, ∃ r ∈ w.receipts.rows,
      r.receiptID = x.receiptID ∧ w.receipts.lookup (·.receiptID) x.receiptID = some r := by
    intro x row
    obtain ⟨r, stored, key⟩ := mem_map.mp (paired ▸ mem_map_of_mem row)
    exact ⟨r, stored, key, lookup_eq_some.mpr ⟨stored, key⟩⟩
  have candidate : o ∈ w.outbox.rows.filter fun o =>
      o.due (unixMilli clock) ∧ (w.receipts.lookup (·.receiptID) o.receiptID).isSome := by
    obtain ⟨r, _, _, found⟩ := known o mem
    exact mem_filter.mpr ⟨mem, decide_eq_true ⟨due, found ▸ rfl⟩⟩
  -- the first of the candidates
  obtain ⟨first, among, least, before⟩ := Table.exists_firstBy before_asymm
    not_before_trans (ne_nil_of_mem candidate)
  obtain ⟨row, chosen⟩ := mem_filter.mp among
  have firstDue := (of_decide_eq_true chosen).1
  obtain ⟨r, stored, key, found⟩ := known first row
  obtain ⟨outbox, ran⟩ := execute_claim workerID (unixMilli (clock + leaseTTL)) row firstDue
  refine ⟨first, row, firstDue, before o candidate, r, stored, key, outbox, ran, ?_⟩
  have picked : claimRouteEvidenceCandidate (unixMilli clock) w = some (r, first) := by
    simp only [claimRouteEvidenceCandidate, least, bind_eq_bind, bind_some, found]
    rfl
  simp only [RouteTables.claimed, picked, updateOutbox, key, ran]
  rfl

/-- A claim with valid arguments does what it commits. -/
theorem RouteCall.run_claim {claim : Option RouteEvidenceOutboxClaim}
    (worker : validateWorkerID workerID = .ok ()) (ttl : 0 < leaseTTL)
    (claimed : w.claimed workerID leaseTTL clock = .ok (claim, w')) :
    (RouteCall.claim workerID leaseTTL clock).run [] w = (.ok (.claimed claim), w') := by
  refine run_of_effect ?_
  simp only [RouteCall.effect, worker, claimed, require, ttl, if_true]
  rfl

/-- A statement after which fewer rows are due. -/
theorem count_due_lt {n : ℕ} {outbox : Table OutboxRow clash}
    (ran : w.outbox.execute u = some (n, outbox)) (mem : o ∈ w.outbox.rows) (due : o.due now)
    (taken : (u.apply o).due now = false) (old : ∀ x, (u.apply x).due now → x.due now) :
    outbox.count (·.due now) < w.outbox.count (·.due now) := by
  have after : outbox.count (·.due now) =
      ((w.outbox.rows.filter (·.due now)).filter fun x => (u.apply x).due now).length := by
    have both : ∀ x : OutboxRow, ((u.apply x).due now && x.due now) = (u.apply x).due now := by
      intro x
      cases still : (u.apply x).due now with
      | true => rw [old x still]; rfl
      | false => rfl
    rw [Table.count, (rows_of_execute ran).2, countP_map, countP_eq_length_filter, filter_filter]
    simp only [both]
    rfl
  rw [after, Table.count, countP_eq_length_filter, length_filter_lt_length_iff_exists]
  exact ⟨o, mem_filter.mpr ⟨mem, due⟩, by simp [taken]⟩

/-- The tables after so many claims at one moment. -/
def RouteTables.afterClaims (workerID : GoString) (leaseTTL clock : ℤ) (n : ℕ) (w : RouteTables) :
    RouteTables :=
  (fun w => ((RouteCall.claim workerID leaseTTL clock).run [] w).2)^[n] w

/-- The claims of one moment, with leases that outlast it, reach every due row. -/
theorem claims_reach (worker : validateWorkerID workerID = .ok ()) (ttl : 0 < leaseTTL)
    (outlasts : unixMilli clock < unixMilli (clock + leaseTTL)) (paired : w.Paired)
    (mem : o ∈ w.outbox.rows) (due : o.due (unixMilli clock)) :
    ∃ n claim, ((RouteCall.claim workerID leaseTTL clock).run []
        (w.afterClaims workerID leaseTTL clock n)).1 = .ok (.claimed (some claim)) ∧
      claim.receipt.receiptID = o.receiptID ∧ claim.leaseGeneration = o.leaseGeneration + 1 := by
  -- each claim leaves one due row fewer
  induction due_rows : w.outbox.count (·.due (unixMilli clock)) using Nat.strong_induction_on
    generalizing w with
  | _ k ih =>
    obtain ⟨first, row, firstDue, _, r, _, key, outbox, ran, claimed⟩ :=
      claimed_of_due workerID leaseTTL paired mem due
    have effect := run_claim worker ttl claimed
    by_cases own : first = o
    · subst own
      exact ⟨0, _, congrArg Prod.fst effect, key, rfl⟩
    · generalize written : sqlClaimRouteEvidenceOutbox workerID (unixMilli (clock + leaseTTL))
        first.receiptID first.leaseGeneration (unixMilli clock) = u at ran
      have selects : ∀ x, u.selects x → x.receiptID = first.receiptID ∧
          x.due (unixMilli clock) ∧ (u.apply x).due (unixMilli clock) = false := by
        intro x selected
        rw [Update.apply_of_selects selected]
        subst written
        obtain ⟨own, _, due⟩ := of_decide_eq_true selected
        refine ⟨own, due, decide_eq_false ?_⟩
        rintro (⟨⟨⟩, _⟩ | ⟨_, expired⟩)
        exact not_le.mpr outlasts expired
      have chosen : u.selects first := written ▸ decide_eq_true ⟨rfl, rfl, firstDue⟩
      have fewer : outbox.count (·.due (unixMilli clock)) < k := by
        rw [← due_rows]
        refine count_due_lt ran row firstDue (selects first chosen).2.2 fun x still => ?_
        by_cases selected : u.selects x
        · exact (selects x selected).2.1
        · rwa [Update.apply, if_neg selected] at still
      have kept : o ∈ outbox.rows := by
        rw [(rows_of_execute ran).2, mem_map]
        refine ⟨o, mem, ?_⟩
        rw [Update.apply, if_neg fun selected => own ?_]
        exact eq_of_key row mem (selects o selected).1.symm
      have next : RouteTables.Paired { w with outbox } := by
        have changed := (RouteCall.claim workerID leaseTTL clock).changes [] w
        rw [effect] at changed
        exact changed.paired paired
      obtain ⟨n, claim, answer, reached⟩ := ih _ fewer next kept rfl
      refine ⟨n + 1, claim, ?_, reached⟩
      rw [RouteTables.afterClaims, Function.iterate_succ_apply, effect]
      exact answer

/-! ## The contract of the outbox -/

/-- Whatever reconcilers and dispatchers do, and whatever the database fails: every
receipt has exactly one outbox row; receipts and delivered rows stay as they are, and
the generation of a lease never falls; an acknowledgement or a retry without the lease
changes nothing and does not report success; and the claims of one moment come to every
row that is due then. -/
theorem outbox_contract {w : RouteTables} (reach : outboxSystem.Reachable w) :
    (∀ r ∈ w.receipts.rows, w.outbox.count (fun o => o.receiptID == r.receiptID) = 1) ∧
    (∀ w', (outboxSystem.after w).Reachable w' →
      (∀ r ∈ w.receipts.rows, r ∈ w'.receipts.rows) ∧
      ∀ o ∈ w.outbox.rows, ∃ o' ∈ w'.outbox.rows, o'.receiptID = o.receiptID ∧
        o.leaseGeneration ≤ o'.leaseGeneration ∧ (o.state = .delivered → o' = o)) ∧
    (∀ receiptID workerID generation clock, (∀ o ∈ w.outbox.rows, o.receiptID = receiptID →
        o.leaseGeneration ≠ generation ∨ o.leaseExpiresAt ≤ unixMilli clock) →
      ∀ faults, ∀ call : RouteCall,
        (call = .ack receiptID workerID generation clock ∨ ∃ availableAt errorClass,
          call = .retry receiptID workerID generation availableAt errorClass clock) →
        (call.run faults w).2 = w ∧ (call.run faults w).1 ≠ .ok (.settled true)) ∧
    ∀ o ∈ w.outbox.rows, o.state ≠ .delivered → ∀ clock,
      (o.state = .pending → o.availableAt ≤ unixMilli clock) →
      (o.state = .leased → o.leaseExpiresAt ≤ unixMilli clock) →
      ∀ workerID, validateWorkerID workerID = .ok () → ∀ leaseTTL, 0 < leaseTTL →
        (∃ claim, ((RouteCall.claim workerID leaseTTL clock).run [] w).1 =
            .ok (.claimed (some claim)) ∧
          ∃ first ∈ w.outbox.rows, first.receiptID = claim.receipt.receiptID ∧
            claim.leaseGeneration = first.leaseGeneration + 1 ∧ o.before first = false) ∧
        (unixMilli clock < unixMilli (clock + leaseTTL) →
          ∃ n claim, ((RouteCall.claim workerID leaseTTL clock).run []
              (w.afterClaims workerID leaseTTL clock n)).1 = .ok (.claimed (some claim)) ∧
            claim.receipt.receiptID = o.receiptID ∧
            claim.leaseGeneration = o.leaseGeneration + 1) := by
  have paired := paired_invariant.holds reach
  refine ⟨fun r mem => ?_, fun w' later => ?_,
    fun receiptID workerID generation clock past faults call late => ?_,
    fun o mem open_ clock available expired workerID worker leaseTTL ttl =>
    ⟨?_, fun outlasts => ?_⟩⟩
  · obtain ⟨o, row, key⟩ := mem_map.mp (Eq.symm paired ▸ mem_map_of_mem mem)
    rw [Table.count_key, lookup_eq_some.mpr ⟨row, key⟩]
    rfl
  · have follows := follows_of_after later
    refine ⟨follows.receipts, fun o mem => ?_⟩
    obtain ⟨o', mem', moves⟩ := follows.outbox o mem
    exact ⟨o', mem', moves.receiptID, moves.generation, moves.delivered⟩
  · exact run_of_past late past faults
  · obtain ⟨first, row, _, before, r, _, key, outbox, _, claimed⟩ := claimed_of_due
      workerID leaseTTL paired mem
      (due_of_passed open_ available expired)
    exact ⟨_, congrArg Prod.fst (run_claim worker ttl claimed), first, row, key.symm, rfl, before⟩
  · exact claims_reach worker ttl outlasts paired mem (due_of_passed open_ available expired)

/-- A receipt of a run whose route is not known. -/
def exampleReceiptInput : RouteEvidenceReceiptInput :=
  let payload := ((Codec.map .string).enc
    [(go "programmatic.route.identity.status", go "unavailable"), (go "run.id", go "r1"),
      (go "run.status", go "failed"), (go "session.id", go "s1")]).text
  { protocol := routeEvidenceReceiptProtocol, sessionID := go "s1", runID := go "r1"
    terminalEventSeq := 3, sourceSessionVersion := 4, terminalStatus := go "failed"
    payload, payloadSHA256 := Sha256.hex (Sha256.digest payload), createdAt := none }

/-- The tables after the receipt has been created. -/
def exampleTables : RouteTables :=
  ((RouteCall.create exampleReceiptInput (5 * 10 ^ 6)).run [] ⟨.empty, .empty⟩).2

theorem outbox_contract_created :
    exampleTables.receipts.rows.length = 1 ∧
    (∀ r ∈ exampleTables.receipts.rows,
      exampleTables.outbox.count (fun o => o.receiptID == r.receiptID) = 1) ∧
    ∃ o ∈ exampleTables.outbox.rows, ∃ n claim,
      ((RouteCall.claim (go "w") (10 ^ 9) (7 * 10 ^ 6)).run []
        (exampleTables.afterClaims (go "w") (10 ^ 9) (7 * 10 ^ 6) n)).1 =
          .ok (.claimed (some claim)) ∧
      claim.receipt.receiptID = o.receiptID := by
  have created : exampleTables.receipts.rows.length = 1 ∧ exampleTables.outbox.rows.any (fun o =>
      o.state = .pending ∧ o.availableAt ≤ unixMilli (7 * 10 ^ 6)) = true := by
    decide +kernel
  have contract := outbox_contract (w := exampleTables)
    (.step (l := ⟨.create exampleReceiptInput (5 * 10 ^ 6), []⟩) (.init rfl) rfl)
  refine ⟨created.1, contract.1, ?_⟩
  obtain ⟨o, mem, pending⟩ := any_eq_true.mp created.2
  obtain ⟨pending, available⟩ := of_decide_eq_true pending
  have due := contract.2.2.2 o mem (by rw [pending]; rintro ⟨⟩) (7 * 10 ^ 6) (fun _ => available)
    (fun leased => by rw [pending] at leased; cases leased) (go "w") rfl (10 ^ 9) (by decide)
  obtain ⟨n, claim, answer, own, _⟩ := due.2 (by decide)
  exact ⟨o, mem, n, claim, answer, own⟩

end AutoAgent.Storage
