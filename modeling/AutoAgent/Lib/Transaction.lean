import AutoAgent.Lib.Except

/-!
# Transactions that a database may fail

A transaction works on a copy of the committed state and publishes it with its
commit.  What other transactions see after it is `TxState.base`, so a path that
returns before the commit leaves nothing behind, and a path that returns after it
leaves what it has written, whatever it then reports.

**Failures.**  Every statement, and the commit, may fail for a reason of the
database; which ones do is a list of answers that the transaction consumes.  A
commit that is reported as failed has not taken effect.

**Reading a transaction.**  `Tx.Ends t b w r` says what a transaction can do that
is on the copy `w` when `b` is committed: it ends as the plain computation `r`
does, with the state of `r` published, or it fails and publishes nothing.
-/

namespace AutoAgent

/-- Where a transaction is: what is committed, its own copy, and which of the
next statements the database fails. -/
structure TxState (σ : Type) where
  base : σ
  work : σ
  faults : List Bool

/-- A transaction.  The error `none` is a failure of the database. -/
def Tx (σ ε α : Type) : Type := TxState σ → Except (Option ε) α × TxState σ

variable {σ ε α β : Type}

namespace Tx

/-- The transaction that returns a value and does nothing. -/
protected def pure (a : α) : Tx σ ε α := fun s => (.ok a, s)

/-- One transaction after the other; an error ends it. -/
protected def bind (t : Tx σ ε α) (next : α → Tx σ ε β) : Tx σ ε β := fun s =>
  match t s with
  | (.ok a, s) => next a s
  | (.error e, s) => (.error e, s)

instance : Monad (Tx σ ε) where
  pure := Tx.pure
  bind := Tx.bind

def fail (e : ε) : Tx σ ε α := fun s => (.error (some e), s)

/-- A check outside the database. -/
def check (answer : Except ε α) : Tx σ ε α := fun s => (answer.mapError some, s)

/-- A statement, which the database may fail. -/
def statement (run : σ → Except ε (α × σ)) : Tx σ ε α := fun s =>
  if s.faults.head? = some true then (.error none, { s with faults := s.faults.tail })
  else
    match run s.work with
    | .ok (a, work) => (.ok a, { s with work, faults := s.faults.tail })
    | .error e => (.error (some e), { s with faults := s.faults.tail })

/-- A statement that only reads. -/
def query (read : σ → α) : Tx σ ε α := statement fun w => .ok (read w, w)

/-- Publish the working copy. -/
def commit : Tx σ ε Unit := fun s =>
  if s.faults.head? = some true then (.error none, { s with faults := s.faults.tail })
  else (.ok (), { s with base := s.work, faults := s.faults.tail })

/-- What a transaction on a committed state reports, and what is committed after
it. -/
def transact (t : Tx σ ε α) (faults : List Bool) (db : σ) : Except (Option ε) α × σ :=
  let ended := t ⟨db, db, faults⟩
  (ended.1, ended.2.base)

variable {next : α → Tx σ ε β} {t : Tx σ ε α} {s s' : TxState σ}

theorem bind_of_ok {a : α} (h : t s = (.ok a, s')) : (t >>= next) s = next a s' := by
  show Tx.bind t next s = _
  rw [Tx.bind, h]

theorem bind_of_error {e : Option ε} (h : t s = (.error e, s')) :
    (t >>= next) s = (.error e, s') := by
  show Tx.bind t next s = _
  rw [Tx.bind, h]

/-! ## What a transaction can do -/

/-- On the working copy `w` of the committed state `b`, the transaction ends as `r`
does and publishes the state of `r`, or it fails and publishes nothing; it fails
for a reason of its own only if `r` does, and for one of the database only if there
is one. -/
def Ends (t : Tx σ ε α) (b w : σ) (r : Except ε (α × σ)) : Prop :=
  ∀ s : TxState σ, s.base = b → s.work = w →
    (∃ a w', r = .ok (a, w') ∧ (t s).1 = .ok a ∧ (t s).2.base = w') ∨
    (∃ e, r = .error e ∧ (t s).1 = .error (some e) ∧ (t s).2.base = b) ∨
    (true ∈ s.faults ∧ (t s).1 = .error none ∧ (t s).2.base = b)

variable {b w : σ}

theorem ends_fail (e : ε) : Ends (fail e : Tx σ ε α) b w (.error e) :=
  fun _ base _ => .inr (.inl ⟨e, rfl, rfl, base⟩)

/-- A transaction that returns without a commit is rolled back. -/
theorem ends_return (a : α) : Ends (pure a : Tx σ ε α) b w (.ok (a, b)) :=
  fun _ base _ => .inl ⟨a, b, rfl, rfl, base⟩

theorem ends_check {answer : Except ε α} {rest : α → Except ε (β × σ)}
    (h : ∀ a, answer = .ok a → Ends (next a) b w (rest a)) :
    Ends (check answer >>= next) b w (answer >>= rest) := by
  intro s base work
  cases answer with
  | error e => exact .inr (.inl ⟨e, rfl, rfl, base⟩)
  | ok a => exact h a rfl s base work

/-- A step that the database fails ends the transaction. -/
theorem ends_of_fault {s : TxState σ} (base : s.base = b) (fails : s.faults.head? = some true)
    (h : t s = (.error none, { s with faults := s.faults.tail })) :
    true ∈ s.faults ∧ ((t >>= next) s).1 = .error none ∧ ((t >>= next) s).2.base = b := by
  rw [bind_of_error h]
  exact ⟨List.mem_of_mem_head? (by rw [fails]; rfl), rfl, base⟩

variable {run : σ → Except ε (α × σ)}

/-- A statement whose effect is an effect of a computation `answer`. -/
theorem ends_statement {γ : Type} {answer : Except ε γ} {effect : γ → α × σ}
    (ran : run w = answer >>= fun c => pure (effect c)) {rest : γ → Except ε (β × σ)}
    (h : ∀ c, answer = .ok c → Ends (next (effect c).1) b (effect c).2 (rest c)) :
    Ends (statement run >>= next) b w (answer >>= rest) := by
  intro s base work
  by_cases fails : s.faults.head? = some true
  · exact .inr (.inr (ends_of_fault base fails (by rw [statement, if_pos fails])))
  · cases answer with
    | error e =>
      have ended : statement run s = (.error (some e), { s with faults := s.faults.tail }) := by
        rw [statement, if_neg fails, work, ran]
        rfl
      rw [bind_of_error ended]
      exact .inr (.inl ⟨e, rfl, rfl, base⟩)
    | ok c =>
      have ended : statement run s =
          (.ok (effect c).1, { s with work := (effect c).2, faults := s.faults.tail }) := by
        rw [statement, if_neg fails, work, ran]
        rfl
      rw [bind_of_ok ended]
      -- what is left of the transaction has fewer failures ahead of it
      rcases h c rfl { s with work := (effect c).2, faults := s.faults.tail } base rfl with
        done | refused | failed
      · exact .inl done
      · exact .inr (.inl refused)
      · exact .inr (.inr ⟨List.mem_of_mem_tail failed.1, failed.2⟩)

variable {r : Except ε (β × σ)}

/-- A statement that succeeds unless the database fails it. -/
theorem ends_statement_ok {answer : α × σ} (ran : run w = .ok answer)
    (h : Ends (next answer.1) b answer.2 r) : Ends (statement run >>= next) b w r := by
  have whole : run w = (.ok answer : Except ε (α × σ)) >>= fun c => pure c := ran
  have ends : Ends (statement run >>= next) b w ((.ok answer : Except ε (α × σ)) >>=
    fun _ => r) := by
    refine ends_statement whole fun c eq => ?_
    cases eq
    exact h
  exact ends

theorem ends_query {read : σ → α} (h : Ends (next (read w)) b w r) :
    Ends (query read >>= next) b w r :=
  ends_statement_ok rfl h

/-- A transaction that commits and then only returns. -/
theorem ends_commit (a : α) :
    Ends (commit >>= fun _ => pure a : Tx σ ε α) b w (.ok (a, w)) := by
  intro s base work
  by_cases fails : s.faults.head? = some true
  · exact .inr (.inr (ends_of_fault base fails (by rw [commit, if_pos fails])))
  · have ended : (commit : Tx σ ε Unit) s =
        (.ok (), { s with base := s.work, faults := s.faults.tail }) := by
      rw [commit, if_neg fails]
    rw [bind_of_ok ended]
    exact .inl ⟨a, w, rfl, rfl, work⟩

/-- A transaction whose answer is then only rewritten. -/
theorem ends_map {r : Except ε (α × σ)} (h : Ends t b w r) (f : α → β) :
    Ends (t >>= fun a => pure (f a)) b w (r.map fun x => (f x.1, x.2)) := by
  intro s base work
  rcases h s base work with ⟨a, w', rfl, answer, ends⟩ | ⟨e, rfl, answer, ends⟩ |
    ⟨fault, answer, ends⟩
  · exact .inl ⟨f a, w', rfl, by rw [bind_of_ok (Prod.ext answer rfl)]; exact ⟨rfl, ends⟩⟩
  · exact .inr (.inl ⟨e, rfl, by rw [bind_of_error (Prod.ext answer rfl)]; exact ⟨rfl, ends⟩⟩)
  · exact .inr (.inr ⟨fault, by rw [bind_of_error (Prod.ext answer rfl)]; exact ⟨rfl, ends⟩⟩)

/-- What a transaction reports and leaves if the database fails nothing. -/
def outcome (db : σ) : Except ε (α × σ) → Except (Option ε) α × σ
  | .ok (a, db') => (.ok a, db')
  | .error e => (.error (some e), db)

variable {r r' : Except ε (α × σ)} {db db' : σ}

theorem transact_of_ends (h : Ends t db db r) (ran : r = r') (faults : List Bool) :
    transact t faults db = outcome db r' ∨
      true ∈ faults ∧ transact t faults db = (.error none, db) := by
  subst ran
  rcases h ⟨db, db, faults⟩ rfl rfl with
    ⟨a, db', rfl, ok, base⟩ | ⟨e, rfl, err, base⟩ | ⟨fault, err, base⟩
  · exact .inl (Prod.ext ok base)
  · exact .inl (Prod.ext err base)
  · exact .inr ⟨fault, Prod.ext err base⟩

/-- A transaction that answers has left what it computes, and any other has left nothing. -/
theorem transact_cases (h : Ends t db db r) {faults : List Bool} {answer : Except (Option ε) α}
    (ended : transact t faults db = (answer, db')) :
    (∃ a, answer = .ok a ∧ r = .ok (a, db')) ∨ (∀ a, answer ≠ .ok a) ∧ db' = db := by
  rcases transact_of_ends h rfl faults with done | ⟨_, done⟩
  · cases r with
    | ok x =>
      cases done.symm.trans ended
      exact .inl ⟨x.1, rfl, rfl⟩
    | error e =>
      cases done.symm.trans ended
      exact .inr ⟨nofun, rfl⟩
  · cases done.symm.trans ended
    exact .inr ⟨nofun, rfl⟩

end Tx

end AutoAgent
