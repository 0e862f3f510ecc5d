import AutoAgent.Lib.Except

/-!
# Labelled transition systems

States, labelled steps and the states a run can reach, with the induction rule
every safety proof of the development uses: what holds initially and is kept by
each step holds in every reachable state.

`restrict` keeps the steps that meet a condition on the state before the step
and its label.  A property that holds only in the runs whose every step meets
the condition is a property of the reachable states of the restricted system.
-/

namespace AutoAgent

/-- A transition system with states `σ` and step labels `ℓ`. -/
structure System (σ ℓ : Type) where
  /-- The states a run starts in. -/
  init : σ → Prop
  /-- One step. -/
  step : σ → ℓ → σ → Prop

namespace System

variable {σ ℓ : Type} {M : System σ ℓ} {P Q : σ → Prop} {s : σ}

inductive Reachable (M : System σ ℓ) : σ → Prop where
  | init {s : σ} : M.init s → M.Reachable s
  | step {s s' : σ} {l : ℓ} : M.Reachable s → M.step s l s' → M.Reachable s'

/-- The system whose steps all meet the condition `C`. -/
def restrict (M : System σ ℓ) (C : σ → ℓ → Prop) : System σ ℓ where
  init := M.init
  step s l s' := C s l ∧ M.step s l s'

/-- `P` holds initially and every step keeps it. -/
structure Invariant (M : System σ ℓ) (P : σ → Prop) : Prop where
  init : ∀ {s}, M.init s → P s
  step : ∀ {s l s'}, P s → M.step s l s' → P s'

/-- An invariant holds in every reachable state. -/
theorem Invariant.holds (inv : M.Invariant P) (reach : M.Reachable s) : P s := by
  induction reach with
  | init h => exact inv.init h
  | step _ h ih => exact inv.step ih h

/-- A run of the restricted system is a run of the system. -/
theorem Reachable.of_restrict {C : σ → ℓ → Prop} (reach : (M.restrict C).Reachable s) :
    M.Reachable s := by
  induction reach with
  | init h => exact .init h
  | step _ h ih => exact .step ih h.2

/-- The runs that go on from a state. -/
def after (M : System σ ℓ) (s : σ) : System σ ℓ where
  init s' := s' = s
  step := M.step

/-- What a run reaches from a reachable state is reachable. -/
theorem Reachable.after {s' : σ} (reach : M.Reachable s) (later : (M.after s).Reachable s') :
    M.Reachable s' := by
  induction later with
  | init h => exact h ▸ reach
  | step _ h ih => exact .step ih h

variable {f : σ → ℓ → Option σ}

/-- The state a sequence of steps leads to is reachable. -/
theorem reachable_of_run {ls : List ℓ} (sound : ∀ l ∈ ls, ∀ {s s'}, f s l = some s' → M.step s l s')
    {s₀ s' : σ} (init : M.init s₀) (run : ls.foldlM f s₀ = some s') : M.Reachable s' := by
  have start : M.Reachable s₀ := .init init
  clear init
  induction ls generalizing s₀ with
  | nil =>
    obtain rfl : s₀ = s' := by simpa using run
    exact start
  | cons l ls ih =>
    rw [List.foldlM_cons, bind_eq_bind, bind_eq_some_iff] at run
    obtain ⟨next, first, rest⟩ := run
    exact ih (fun l mem => sound l (List.mem_cons_of_mem _ mem)) rest
      (.step start (sound l (List.mem_cons_self ..) first))

/-- A sequence of steps leads to a state with a property that can be computed. -/
theorem exists_of_run (sound : ∀ l {s s'}, f s l = some s' → M.step s l s') {s₀ : σ}
    (init : M.init s₀) (P : σ → Prop) [DecidablePred P] (ls : List ℓ)
    (meets : (ls.foldlM f s₀).any (fun s => P s)) : ∃ s, M.Reachable s ∧ P s := by
  obtain ⟨s, run, holds⟩ := (Option.any_eq_true _ _).mp meets
  exact ⟨s, reachable_of_run (fun l _ => sound l) init run, of_decide_eq_true holds⟩

end System

end AutoAgent
