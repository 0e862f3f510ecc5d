import Mathlib.Data.List.Basic

/-!
# Windows that start at a marked position

A sequence of `n` positions, some of them marked.  A window of at most `m`
positions ends at the last position and starts at a mark: at the first mark that
leaves at most `m` positions, or else at the last mark, or else at `0`.
`windowStart` takes the marks that count, in order, so that two readings of the
rule, with and without the last position, can be compared.
-/

namespace AutoAgent

open List

/-- The marked positions below `k`, in order. -/
def marks (u : ℕ → Bool) (k : ℕ) : List ℕ := (List.range k).filter u

/-- The start of the window over `n` positions. -/
def windowStart (n m : ℕ) (marked : List ℕ) : ℕ :=
  ((marked.find? fun i => n ≤ i + m).or marked.getLast?).getD 0

variable {u : ℕ → Bool} {i k n m : ℕ} {early late : List ℕ}

theorem mem_marks : i ∈ marks u k ↔ i < k ∧ u i := by
  simp [marks]

theorem marks_succ : marks u (k + 1) = marks u k ++ if u k then [k] else [] := by
  simp [marks, range_succ, filter_cons]

/-- The window starts at a mark or at `0`. -/
theorem windowStart_mem (n m : ℕ) (marked : List ℕ) :
    windowStart n m marked = 0 ∨ windowStart n m marked ∈ marked := by
  unfold windowStart
  cases first : marked.find? fun i => decide (n ≤ i + m) with
  | some i => exact .inr (mem_of_find?_eq_some first)
  | none =>
    cases last : marked.getLast? with
    | some i => exact .inr (mem_of_getLast? last)
    | none => exact .inl rfl

theorem windowStart_lt (n m : ℕ) (u : ℕ → Bool) (positive : 0 < k) :
    windowStart n m (marks u k) < k := by
  rcases windowStart_mem n m (marks u k) with zero | mem
  · omega
  · exact (mem_marks.mp mem).1

/-- Marks before the window do not count where others follow. -/
theorem windowStart_append (outside : ∀ i ∈ early, i + m < n) (follow : late ≠ []) :
    windowStart n m (early ++ late) = windowStart n m late := by
  have none : (early.find? fun i => n ≤ i + m) = none :=
    find?_eq_none.mpr fun i mem => by simpa using outside i mem
  simp [windowStart, find?_append, none, getLast?_append, getLast?_eq_some_getLast follow]

/-- Counting the last position as a mark changes the start of the window exactly
when it is marked and the window has no other mark. -/
theorem windowStart_last_iff (hm : 0 < m) (hn : m < n) :
    windowStart n m (marks u n) = windowStart n m (marks u (n - 1)) ↔
      ¬(u (n - 1) ∧ ∀ j, n - m ≤ j → j < n - 1 → u j = false) := by
  obtain ⟨k, rfl⟩ : ∃ k, n = k + 1 := ⟨n - 1, by omega⟩
  rw [Nat.add_sub_cancel, marks_succ]
  cases mark : u k with
  | false => simp
  | true =>
    have below := windowStart_lt (k + 1) m u (by omega : 0 < k)
    simp only [if_true, true_and]
    cases first : (marks u k).find? fun i => decide (k + 1 ≤ i + m) with
    | some i =>
      have fits : k + 1 ≤ i + m := by simpa using find?_some first
      obtain ⟨high, marked⟩ := mem_marks.mp (mem_of_find?_eq_some first)
      have same : windowStart (k + 1) m (marks u k ++ [k]) = windowStart (k + 1) m (marks u k) := by
        simp only [windowStart, find?_append, first, Option.some_or]
      simp only [same, true_iff]
      intro unmarked
      simp [unmarked i (by omega) high] at marked
    | none =>
      have alone : windowStart (k + 1) m (marks u k ++ [k]) = k := by
        have fits : k + 1 ≤ k + m := by omega
        simp only [windowStart, find?_append, first, find?_cons, fits, decide_true]
        rfl
      have unmarked : ∀ j, k + 1 - m ≤ j → j < k → u j = false := by
        intro j low high
        by_contra marked
        have outside := find?_eq_none.mp first j (mem_marks.mpr ⟨high, by simpa using marked⟩)
        simp only [decide_eq_true_eq] at outside
        omega
      rw [alone]
      exact ⟨fun same => by omega, fun other => absurd unmarked other⟩

end AutoAgent
