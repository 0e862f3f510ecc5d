import AutoAgent.Lib.Transition

/-!
# Programs that share a state

A program performs operations one after the other and goes on with the answers
(`Prog`).  What it does with its answers is code; what the operations do is up to
the state that several programs share.  `Pool` runs any number of programs, one
operation at a time, in any order.

**Protocols.**  A protocol says which operations a program may perform, as a function
of what it has been answered so far: its phase.  `Follows` says that a program keeps
to the protocol, whatever the answers are, and has rules for the constructs of
programs.  `Pool.holds` is the rule for pools: if every program keeps to the protocol,
a property of the shared state and of the phases that every allowed operation keeps
holds at any time.
-/

namespace AutoAgent

/-- A program with operations `Op`, answered in `Ans op`. -/
inductive Prog {Op : Type} (Ans : Op → Type) (α : Type) where
  | ret (a : α)
  | perform (op : Op) (next : Ans op → Prog Ans α)

variable {Op : Type} {Ans : Op → Type} {α β Φ : Type}

namespace Prog

/-- Performs one operation and returns its answer. -/
def ask (op : Op) : Prog Ans (Ans op) := .perform op .ret

def andThen : Prog Ans α → (α → Prog Ans β) → Prog Ans β
  | .ret a, f => f a
  | .perform op next, f => .perform op fun a => (next a).andThen f

instance : Monad (Prog Ans) where
  pure := .ret
  bind := andThen

end Prog

/-! ## Protocols -/

/-- Which operations a program may perform in a phase, what they may be answered, and
the phase after an answer. -/
structure Protocol (Ans : Op → Type) (Φ : Type) where
  allows : Φ → Op → Prop
  answers : (op : Op) → Ans op → Prop
  next : Φ → (op : Op) → Ans op → Φ

namespace Protocol

variable (P : Protocol Ans Φ) {post : Φ → α → Prop} {φ : Φ}

/-- The program keeps to the protocol from a phase on, and ends in `post`. -/
def Follows (post : Φ → α → Prop) : Φ → Prog Ans α → Prop
  | φ, .ret a => post φ a
  | φ, .perform op next =>
    P.allows φ op ∧ ∀ a, P.answers op a → Follows post (P.next φ op a) (next a)

variable {P} {p : Prog Ans α}

theorem Follows.bind {f : α → Prog Ans β} {post : Φ → β → Prop}
    (h : P.Follows (fun φ a => P.Follows post φ (f a)) φ p) : P.Follows post φ (p >>= f) := by
  induction p generalizing φ with
  | ret a => exact h
  | perform op next ih => exact ⟨h.1, fun a answered => ih a (h.2 a answered)⟩

theorem Follows.mono {post' : Φ → α → Prop} (weaker : ∀ φ a, post φ a → post' φ a)
    (h : P.Follows post φ p) : P.Follows post' φ p := by
  induction p generalizing φ with
  | ret a => exact weaker φ a h
  | perform op next ih => exact ⟨h.1, fun a answered => ih a (h.2 a answered)⟩

theorem Follows.map {f : α → β} {post : Φ → β → Prop}
    (h : P.Follows (fun φ a => post φ (f a)) φ p) :
    P.Follows post φ (f <$> p) :=
  Follows.bind h

/-- An operation and what follows it. -/
theorem follows_ask {op : Op} {f : Ans op → Prog Ans β} {post : Φ → β → Prop}
    (allowed : P.allows φ op)
    (rest : ∀ a, P.answers op a → P.Follows post (P.next φ op a) (f a)) :
    P.Follows post φ (Prog.ask op >>= f) :=
  ⟨allowed, rest⟩

end Protocol

/-! ## Transcripts -/

/-- One run of a program: the operations with their answers, and the result. -/
inductive Prog.Path (answers : (op : Op) → Ans op → Prop) :
    Prog Ans α → List (Sigma Ans) → α → Prop where
  | ret (a : α) : Path answers (.ret a) [] a
  | perform {op : Op} {next : Ans op → Prog Ans α} {a : Ans op} {rest : List (Sigma Ans)} {r : α}
      (answered : answers op a) (path : Path answers (next a) rest r) :
      Path answers (.perform op next) (⟨op, a⟩ :: rest) r

namespace Prog.Path

variable {answers : (op : Op) → Ans op → Prop} {script : List (Sigma Ans)}

theorem exists_of_ask {op : Op} {f : Ans op → Prog Ans β} {r : β}
    (h : Path answers (Prog.ask op >>= f) script r) :
    ∃ a rest, script = ⟨op, a⟩ :: rest ∧ answers op a ∧ Path answers (f a) rest r := by
  cases h with
  | perform answered path => exact ⟨_, _, rfl, answered, path⟩

theorem exists_of_bind {p : Prog Ans α} {f : α → Prog Ans β} {r : β}
    (h : Path answers (p >>= f) script r) :
    ∃ first a rest, script = first ++ rest ∧ Path answers p first a ∧
    Path answers (f a) rest r := by
  induction p generalizing script with
  | ret a => exact ⟨[], a, script, rfl, .ret a, h⟩
  | perform op next ih =>
    obtain ⟨b, rest, rfl, answered, path⟩ := exists_of_ask h
    obtain ⟨first, a, last, rfl, one, two⟩ := ih b path
    exact ⟨_, a, last, rfl, .perform answered one, two⟩

theorem exists_of_map {p : Prog Ans α} {f : α → β} {r : β} (h : Path answers (f <$> p) script r) :
    ∃ a, Path answers p script a ∧ r = f a := by
  obtain ⟨first, a, rest, rfl, path, last⟩ := exists_of_bind h
  cases last
  exact ⟨a, by rwa [List.append_nil], rfl⟩

end Prog.Path

/-- Every run of a program that keeps to the protocol ends in `post`. -/
theorem Protocol.Follows.of_path {P : Protocol Ans Φ} {post : Φ → α → Prop} {φ : Φ}
    {p : Prog Ans α} {script : List (Sigma Ans)} {r : α} (h : P.Follows post φ p)
    (path : p.Path P.answers script r) : ∃ φ', post φ' r := by
  induction path generalizing φ with
  | ret a => exact ⟨φ, h⟩
  | perform answered _ ih => exact ih (h.2 _ answered)

/-! ## Answering -/

/-- The result of a program whose operations `answer` answers, by what was answered before. -/
def Prog.result (answer : List (Sigma Ans) → (op : Op) → Ans op) :
    List (Sigma Ans) → Prog Ans α → α
  | _, .ret a => a
  | past, .perform op next =>
    (next (answer past op)).result answer (past ++ [⟨op, answer past op⟩])

/-- A program that keeps to the protocol ends in `post`, if its operations are answered as the
protocol says, in the phases in `I` that it comes to. -/
theorem Protocol.Follows.result {P : Protocol Ans Φ} {post : Φ → α → Prop} {φ : Φ} {p : Prog Ans α}
    {answer : List (Sigma Ans) → (op : Op) → Ans op} {I : Φ → Prop} (h : P.Follows post φ p)
    (start : I φ) (keeps : ∀ {φ op} a, I φ → P.allows φ op → I (P.next φ op a))
    (answered : ∀ {φ op} past, I φ → P.allows φ op → P.answers op (answer past op))
    (past : List (Sigma Ans)) : ∃ φ', post φ' (p.result answer past) := by
  induction p generalizing φ past with
  | ret a => exact ⟨φ, h⟩
  | perform op next ih =>
    exact ih _ (h.2 _ (answered past start h.1)) (keeps _ start h.1) _

/-! ## Pools -/

/-- Programs for the requests `R` that share the state `σ`.  A result may ask for
another program in place of the one that ended; `ε` are the choices of the
environment in answering an operation. -/
structure Pool (Ans : Op → Type) (σ R ε α : Type) where
  program : R → Prog Ans α
  again : α → Option (Prog Ans α)
  handle : σ → ℕ → (op : Op) → ε → Option (Ans op × σ)

namespace Pool

variable {σ R ε : Type}

/-- The shared state, and what is left of every program that was started. -/
structure World (Ans : Op → Type) (σ α : Type) where
  shared : σ
  procs : ℕ → Option (Prog Ans α)

inductive Label (R ε : Type) where
  /-- Program number `i` is started. -/
  | start (i : ℕ) (request : R)
  /-- Program number `i` performs its next operation, or goes on after a result. -/
  | go (i : ℕ) (choice : ε)

def run (M : Pool Ans σ R ε α) (w : World Ans σ α) : Label R ε → Option (World Ans σ α)
  | .start i request =>
    match w.procs i with
    | some _ => none
    | none => some { w with procs := Function.update w.procs i (some (M.program request)) }
  | .go i choice =>
    match w.procs i with
    | none => none
    | some (.ret a) =>
      (M.again a).map fun p => { w with procs := Function.update w.procs i (some p) }
    | some (.perform op next) =>
      (M.handle w.shared i op choice).map fun (a, shared) =>
        { shared, procs := Function.update w.procs i (some (next a)) }

/-- The pool as a transition system, from the shared state `s₀` and no program. -/
def system (M : Pool Ans σ R ε α) (s₀ : σ) : System (World Ans σ α) (Label R ε) where
  init w := w = ⟨s₀, fun _ => none⟩
  step w l w' := M.run w l = some w'

variable {M : Pool Ans σ R ε α}

theorem run_cases {w w' : World Ans σ α} {l : Label R ε} (h : M.run w l = some w') :
    (∃ i request, w.procs i = none ∧
      w' = { w with procs := Function.update w.procs i (some (M.program request)) }) ∨
    (∃ i a p, w.procs i = some (.ret a) ∧ M.again a = some p ∧
      w' = { w with procs := Function.update w.procs i (some p) }) ∨
    ∃ i op next choice a shared, w.procs i = some (.perform op next) ∧
      M.handle w.shared i op choice = some (a, shared) ∧
      w' = { shared, procs := Function.update w.procs i (some (next a)) } := by
  cases l with
  | start i request =>
    simp only [run] at h
    split at h
    · cases h
    next free => exact .inl ⟨i, request, free, (some.inj h).symm⟩
  | go i choice =>
    simp only [run] at h
    split at h
    · cases h
    next a here =>
      obtain ⟨p, again, rfl⟩ := map_eq_some_iff.mp h
      exact .inr (.inl ⟨i, a, p, here, again, rfl⟩)
    next op next here =>
      obtain ⟨⟨a, shared⟩, handled, rfl⟩ := map_eq_some_iff.mp h
      exact .inr (.inr ⟨i, op, next, choice, a, shared, here, handled, rfl⟩)

/-- A property of the shared state and the phases that starting a program and every
allowed operation keep. -/
structure Kept (M : Pool Ans σ R ε α) (P : Protocol Ans Φ) (first : R → Φ) (s₀ : σ)
    (J : σ → (ℕ → Option Φ) → Prop) : Prop where
  init : J s₀ fun _ => none
  start : ∀ {s phases i} (request : R), J s phases → phases i = none →
    J s (Function.update phases i (some (first request)))
  step : ∀ {s phases i φ op choice a s'}, J s phases → phases i = some φ → P.allows φ op →
    M.handle s i op choice = some (a, s') →
    P.answers op a ∧ J s' (Function.update phases i (some (P.next φ op a)))

/-- Every program that is started keeps to the protocol, and so does every program
that goes on after a result. -/
structure Obeys (M : Pool Ans σ R ε α) (P : Protocol Ans Φ) (first : R → Φ)
    (post : Φ → α → Prop) : Prop where
  program : ∀ request, P.Follows post (first request) (M.program request)
  again : ∀ {φ a p}, post φ a → M.again a = some p → P.Follows post φ p

variable {r : α → β → Prop} {x : Option α}

theorem exists_of_rel {b : β} (h : Option.Rel r x (some b)) :
    ∃ a, x = some a ∧ r a b := by
  cases h with
  | some h => exact ⟨_, rfl, h⟩

theorem eq_none_of_rel (h : Option.Rel r x (none : Option β)) :
    x = none := by
  cases h
  rfl

/-- **The rule for pools.**  At any time there are phases of the programs such that the
property holds. -/
theorem holds {P : Protocol Ans Φ} {first : R → Φ} {s₀ : σ} {J : σ → (ℕ → Option Φ) → Prop}
    {post : Φ → α → Prop} (kept : M.Kept P first s₀ J) (obeys : M.Obeys P first post)
    {w : World Ans σ α} (reach : (M.system s₀).Reachable w) :
    ∃ phases : ℕ → Option Φ, J w.shared phases ∧
      ∀ i, Option.Rel (P.Follows post) (phases i) (w.procs i) := by
  induction reach with
  | init h =>
    obtain rfl := h
    exact ⟨fun _ => none, kept.init, fun _ => .none⟩
  | @step w w' l _ h ih =>
    obtain ⟨phases, holds, follow⟩ := ih
    -- only program `i` changes, with the phase that goes with it
    have update : ∀ {i φ p}, P.Follows post φ p → ∀ j, Option.Rel (P.Follows post)
        (Function.update phases i (some φ) j) (Function.update w.procs i (some p) j) := by
      intro i φ p own j
      rcases eq_or_ne j i with rfl | other
      · simpa using Option.Rel.some own
      · simpa [other] using follow j
    rcases run_cases h with ⟨i, request, free, rfl⟩ | ⟨i, a, p, here, again, rfl⟩ |
      ⟨i, op, next, choice, a, shared, here, handled, rfl⟩
    · have none := eq_none_of_rel (free ▸ follow i)
      exact ⟨_, kept.start request holds none, update (obeys.program request)⟩
    · obtain ⟨φ, phase, ended⟩ := exists_of_rel (here ▸ follow i)
      refine ⟨phases, holds, fun j => ?_⟩
      have := update (i := i) (obeys.again ended again) j
      rwa [Function.update_eq_self_iff.mpr phase.symm] at this
    · obtain ⟨φ, phase, allowed, rest⟩ := exists_of_rel (here ▸ follow i)
      obtain ⟨answered, later⟩ := kept.step holds phase allowed handled
      exact ⟨_, later, update (rest a answered)⟩

end Pool

end AutoAgent
