import Mathlib.Algebra.Order.Ring.Int
import Mathlib.Algebra.BigOperators.Group.List.Basic

/-!
# Machine integers that never overflow

An `int64` account is kept within a limit by comparing each amount with what is left
of the limit before it is added.  `Ledger a s limit` says that the account `a` holds
the exact sum `s` and that `s` is within the limit; spending an amount that passed
the comparison keeps it, as long as the exact sum is small enough for the machine.
-/

namespace AutoAgent

variable {a c : Int64}

/-- A sum that the machine can hold is exact. -/
theorem toInt_add_of_range (low : -2 ^ 63 ≤ a.toInt + c.toInt) (high : a.toInt + c.toInt < 2 ^ 63) :
    (a + c).toInt = a.toInt + c.toInt := by
  rw [Int64.toInt_add, Int.bmod_eq_of_le (by omega) (by omega)]

/-- The account holds the sum, which is not negative and within the limit. -/
structure Ledger (a : Int64) (sum : ℤ) (limit : Option Int64) : Prop where
  exact : a.toInt = sum
  nonneg : 0 ≤ sum
  within : ∀ n, limit = some n → sum ≤ n.toInt

variable {limit : Option Int64}

theorem Ledger.zero (nonneg : ∀ n, limit = some n → 0 ≤ n.toInt) :
    Ledger 0 0 limit :=
  ⟨rfl, le_refl 0, nonneg⟩

/-- Spend an amount that is not more than what is left. -/
theorem Ledger.spend {sum x : ℤ} (h : Ledger a sum limit) (amount : c.toInt = x) (nonneg : 0 ≤ x)
    (room : ∀ n, limit = some n → ¬n - a < c) (small : sum + x < 2 ^ 63) :
    Ledger (a + c) (sum + x) limit := by
  have exact := h.exact
  have pos := h.nonneg
  refine ⟨?_, by omega, fun n own => ?_⟩
  · rw [toInt_add_of_range (by omega) (by omega), exact, amount]
  · have left := room n own
    have bound := h.within n own
    have high := n.toInt_lt
    rw [Int64.lt_iff_toInt_lt, Int64.toInt_sub, Int.bmod_eq_of_le (by omega) (by omega)] at left
    omega

/-- A sum of amounts that are at most `bound`. -/
theorem sum_le_length_mul {α : Type} {f : α → ℤ} {bound : ℤ} {xs : List α}
    (each : ∀ x ∈ xs, 0 ≤ f x ∧ f x ≤ bound) :
    0 ≤ (xs.map f).sum ∧ (xs.map f).sum ≤ xs.length * bound := by
  induction xs with
  | nil => simp
  | cons x xs ih =>
    obtain ⟨first, rest⟩ := List.forall_mem_cons.mp each
    have tail := ih rest
    rw [List.map_cons, List.sum_cons, List.length_cons, Nat.cast_add, Nat.cast_one, add_mul,
      one_mul]
    omega

end AutoAgent
