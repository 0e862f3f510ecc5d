import Mathlib.Data.List.Basic

/-!
# Go's binary search

`sort.Search` as the loop of the standard library: it halves the interval
`[i, j)` until it is empty.
-/

namespace AutoAgent

/-- The loop of `sort.Search`; `fuel` bounds the number of halvings. -/
def searchLoop (f : ℕ → Bool) : ℕ → ℕ → ℕ → ℕ
  | 0, i, _ => i
  | fuel + 1, i, j =>
    if i < j then
      if f ((i + j) / 2) then searchLoop f fuel i ((i + j) / 2)
      else searchLoop f fuel ((i + j) / 2 + 1) j
    else i

def sortSearch (n : ℕ) (f : ℕ → Bool) : ℕ := searchLoop f n 0 n

variable {f : ℕ → Bool}

/-- The loop ends on the least index that satisfies a monotone predicate. -/
theorem searchLoop_spec (mono : ∀ a b, a ≤ b → f a → f b) :
    ∀ {fuel i j : ℕ}, i ≤ j → j ≤ i + fuel → (∀ k < i, f k = false) →
      (∀ k < searchLoop f fuel i j, f k = false) ∧ i ≤ searchLoop f fuel i j ∧
        searchLoop f fuel i j ≤ j ∧ (searchLoop f fuel i j < j → f (searchLoop f fuel i j)) := by
  intro fuel
  induction fuel with
  | zero =>
    intro i j le bound low
    obtain rfl : i = j := by omega
    simpa [searchLoop] using low
  | succ fuel ih =>
    intro i j le bound low
    by_cases empty : i < j
    · cases hit : f ((i + j) / 2) with
      | true =>
        obtain ⟨below, ge, upper, found⟩ := ih (i := i) (j := (i + j) / 2) (by omega) (by omega) low
        simp only [searchLoop, empty, if_true, hit]
        refine ⟨below, ge, by omega, fun _ => ?_⟩
        rcases Nat.lt_or_ge (searchLoop f fuel i ((i + j) / 2)) ((i + j) / 2) with lt | eq
        · exact found lt
        · exact mono _ _ eq hit
      | false =>
        have low' : ∀ k < (i + j) / 2 + 1, f k = false := by
          intro k hk
          by_contra hne
          have up := mono k ((i + j) / 2) (by omega) (by simpa using hne)
          simp [hit] at up
        obtain ⟨below, ge, upper, found⟩ :=
          ih (i := (i + j) / 2 + 1) (j := j) (by omega) (by omega) low'
        simp only [searchLoop, empty, if_true, hit, Bool.false_eq_true, if_false]
        exact ⟨below, by omega, upper, found⟩
    · obtain rfl : i = j := by omega
      simpa [searchLoop] using low

/-- `sort.Search` on a monotone predicate finds the least index that satisfies
it, or `n`. -/
theorem sortSearch_spec (mono : ∀ a b, a ≤ b → f a → f b) (n : ℕ) :
    (∀ k < sortSearch n f, f k = false) ∧ sortSearch n f ≤ n ∧
      (sortSearch n f < n → f (sortSearch n f)) := by
  have spec := @searchLoop_spec f mono n 0 n (by omega) (by omega) (by simp)
  exact ⟨spec.1, spec.2.2.1, spec.2.2.2⟩

end AutoAgent
