import Mathlib.Algebra.BigOperators.Group.List.Basic
import Mathlib.Algebra.Ring.Nat

/-!
# Computations that may fail

Checks, and inversion lemmas for `Except`: a successful sequence of steps is a
sequence of successful steps.
-/

namespace AutoAgent

export Bool (and_eq_true and_eq_true_iff eq_false_iff eq_iff_iff false_eq_true not_eq_false
  not_eq_true not_eq_true' or_eq_false_iff or_eq_true)
export Function (comp_apply comp_def)
export Option (bind_eq_bind bind_eq_some_iff bind_some getD_some isSome_iff_exists
  ite_none_right_eq_some map_eq_some_iff map_some some.inj some.injEq)

open List

variable {ε ε' α β : Type} {x : Except ε α} {b : β}

theorem bind_eq_ok {f : α → Except ε β} :
    (x >>= f) = .ok b ↔ ∃ a, x = .ok a ∧ f a = .ok b := by
  cases x <;> simp [bind, Except.bind]

theorem pure_eq_ok {a b : α} : (pure a : Except ε α) = .ok b ↔ a = b := by
  simp [pure, Except.pure]

/-- A check that fails with the given error. -/
def require (condition : Prop) [Decidable condition] (e : ε) : Except ε Unit :=
  if condition then .ok () else .error e

section

variable {condition : Prop} [Decidable condition] {e : ε}

theorem require_pos (h : condition) : require condition e = .ok () := if_pos h

theorem require_neg (h : ¬condition) : require condition e = .error e := if_neg h

theorem require_eq_ok {u : Unit} : require condition e = .ok u ↔ condition := by
  by_cases h : condition <;> simp [require, h]

end

theorem map_eq_ok {f : α → β} :
    f <$> x = .ok b ↔ ∃ a, x = .ok a ∧ f a = b := by
  cases x <;> simp [Functor.map, Except.map]

variable {a : α}

theorem mapError_eq_ok {f : ε → ε'} :
    x.mapError f = .ok a ↔ x = .ok a := by
  cases x <;> simp [Except.mapError]

theorem toOption_eq_some : x.toOption = some a ↔ x = .ok a := by
  cases x <;> simp [Except.toOption]

theorem exists_of_isOk (h : x.isOk) : ∃ a, x = .ok a := by
  cases x with
  | ok a => exact ⟨a, rfl⟩
  | error e => cases h

variable {xs : List α}

/-- A loop that collects results succeeds exactly when every element does. -/
theorem mapM_eq_ok {f : α → Except ε β} {ys : List β} :
    xs.mapM f = .ok ys ↔ List.Forall₂ (fun x y => f x = .ok y) xs ys := by
  induction xs generalizing ys with
  | nil =>
    rw [mapM_nil, pure_eq_ok, forall₂_nil_left_iff]
    exact eq_comm
  | cons x xs ih =>
    simp only [mapM_cons, bind_eq_ok, pure_eq_ok, forall₂_cons_left_iff, ih]
    constructor
    · rintro ⟨y, hy, ys', rest, rfl⟩
      exact ⟨y, ys', hy, rest, rfl⟩
    · rintro ⟨y, ys', hy, rest, rfl⟩
      exact ⟨y, hy, ys', rest, rfl⟩

/-- What every step of a loop keeps, the loop keeps. -/
theorem foldlM_keeps {f : β → α → Except ε β} {I : β → Prop}
    (step : ∀ x ∈ xs, ∀ {s s'}, I s → f s x = .ok s' → I s') {s s' : β} (start : I s)
    (run : xs.foldlM f s = .ok s') : I s' := by
  induction xs generalizing s with
  | nil =>
    rw [foldlM_nil, pure_eq_ok] at run
    exact run ▸ start
  | cons x xs ih =>
    rw [foldlM_cons, bind_eq_ok] at run
    obtain ⟨next, first, rest⟩ := run
    exact ih (fun y mem => step y (mem_cons_of_mem _ mem))
      (step x (mem_cons_self ..) start first) rest

variable {f : List α → α → Except ε (List α)} {Q : α → Prop} {R : α → α → Prop}

/-- A loop that collects elements, each accepted for itself and beside those before it. -/
theorem foldlM_collect
    (step : ∀ acc x out, f acc x = .ok out ↔ Q x ∧ (∀ y ∈ acc, R y x) ∧ acc ++ [x] = out)
    {acc xs out : List α} : xs.foldlM f acc = .ok out ↔
      ((∀ x ∈ xs, Q x) ∧ xs.Pairwise R ∧ ∀ y ∈ acc, ∀ x ∈ xs, R y x) ∧ out = acc ++ xs := by
  induction xs generalizing acc with
  | nil =>
    rw [foldlM_nil, pure_eq_ok]
    simpa using eq_comm
  | cons x xs ih =>
    rw [foldlM_cons, bind_eq_ok]
    simp only [step, ih, forall_mem_cons, pairwise_cons]
    constructor
    · rintro ⟨_, ⟨own, beside, rfl⟩, ⟨all, apart, rest⟩, rfl⟩
      refine ⟨⟨⟨own, all⟩, ⟨rest x (by simp), apart⟩, fun y mem => ?_⟩, by simp⟩
      exact ⟨beside y mem, rest y (by simp [mem])⟩
    · rintro ⟨⟨⟨own, all⟩, ⟨head, apart⟩, rest⟩, rfl⟩
      refine ⟨_, ⟨own, fun y mem => (rest y mem).1, rfl⟩, ⟨all, apart, fun y mem => ?_⟩, by simp⟩
      rcases mem_append.mp mem with old | last
      · exact (rest y old).2
      · rw [mem_singleton.mp last]
        exact head

/-- The loop from nothing. -/
theorem foldlM_collect_nil
    (step : ∀ acc x out, f acc x = .ok out ↔ Q x ∧ (∀ y ∈ acc, R y x) ∧ acc ++ [x] = out)
    {xs out : List α} :
    xs.foldlM f [] = .ok out ↔ ((∀ x ∈ xs, Q x) ∧ xs.Pairwise R) ∧ out = xs := by
  simp [foldlM_collect step]

theorem forM_eq_ok {f : α → Except ε PUnit} {u : PUnit} :
    xs.forM f = .ok u ↔ ∀ x ∈ xs, f x = .ok () := by
  induction xs with
  | nil => exact ⟨fun _ => by simp, fun _ => rfl⟩
  | cons x xs ih =>
    show (f x >>= fun _ => xs.forM f) = .ok u ↔ _
    simp only [bind_eq_ok, ih, forall_mem_cons]
    exact ⟨fun ⟨_, first, rest⟩ => ⟨first, rest⟩, fun ⟨first, rest⟩ => ⟨_, first, rest⟩⟩

/-- A loop that adds up amounts to a limit. -/
theorem foldlM_add {f : ℕ → α → Except ε ℕ} {amount : α → ℕ} {limit : ℕ}
    (step : ∀ n x out, n ≤ limit →
      (f n x = .ok out ↔ Q x ∧ n + amount x ≤ limit ∧ out = n + amount x)) {n out : ℕ}
    (start : n ≤ limit) : xs.foldlM f n = .ok out ↔
      (∀ x ∈ xs, Q x) ∧ n + (xs.map amount).sum ≤ limit ∧ out = n + (xs.map amount).sum := by
  induction xs generalizing n with
  | nil =>
    rw [foldlM_nil, pure_eq_ok]
    simpa [start] using eq_comm
  | cons x xs ih =>
    rw [foldlM_cons, bind_eq_ok]
    simp only [step _ _ _ start, forall_mem_cons, map_cons, sum_cons, ← add_assoc]
    constructor
    · rintro ⟨_, ⟨own, below, rfl⟩, rest⟩
      obtain ⟨all, bounded, rfl⟩ := (ih below).mp rest
      exact ⟨⟨own, all⟩, bounded, rfl⟩
    · rintro ⟨⟨own, all⟩, bounded, rfl⟩
      have below : n + amount x ≤ limit := Nat.le_trans (Nat.le_add_right _ _) bounded
      exact ⟨_, ⟨own, below, rfl⟩, (ih below).mpr ⟨all, bounded, rfl⟩⟩

end AutoAgent
