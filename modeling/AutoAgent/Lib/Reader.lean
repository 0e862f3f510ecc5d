import AutoAgent.Lib.Except

/-!
# Readers

A reader takes a value off the front of an input and leaves the rest.  This module
has the combinators of a bracketed, separated listing, and what becomes of a result
when the input is continued.

**Continued inputs.**  A reader is `Steady` if a result that left something over is
the result on every longer input, and `Closed` if every result is.  A reader that
takes all symbols of one kind is steady and not closed: at the end of the input it
cannot know whether more of them follow.  A listing that ends with its bracket is
closed as soon as its elements are steady.  An input that a closed reader takes whole
therefore has no proper prefix that it accepts.
-/

namespace AutoAgent

open List

/-- A reader of values in `α` from symbols in `β`. -/
abbrev Reader (β α : Type) : Type := List β → Option (α × List β)

namespace Reader

variable {β α : Type}

/-- A result that left something over is the result on every longer input. -/
def Steady (r : Reader β α) : Prop :=
  ∀ ⦃p a rest⦄ (q : List β), r p = some (a, rest) → rest ≠ [] → r (p ++ q) = some (a, rest ++ q)

/-- A result is the result on every longer input. -/
def Closed (r : Reader β α) : Prop :=
  ∀ ⦃p a rest⦄ (q : List β), r p = some (a, rest) → r (p ++ q) = some (a, rest ++ q)

/-! ## Symbols of one kind -/

variable {l : List β}

theorem dropWhile_append_of_ne_nil {p : β → Bool} (q : List β) (h : l.dropWhile p ≠ []) :
    (l ++ q).dropWhile p = l.dropWhile p ++ q := by
  rw [dropWhile_append, if_neg]
  simpa using h

theorem takeWhile_append_of_ne_nil {p : β → Bool} (q : List β) (h : l.dropWhile p ≠ []) :
    (l ++ q).takeWhile p = l.takeWhile p := by
  rw [takeWhile_append, if_neg]
  intro whole
  have lengths := congrArg List.length (takeWhile_append_dropWhile (p := p) (l := l))
  rw [length_append, whole] at lengths
  exact h (eq_nil_of_length_eq_zero (by omega))

/-- The next symbol of another kind is the same when the input is continued. -/
theorem next_cases (space : β → Bool) (p q : List β) : p.dropWhile space = [] ∨
    ∃ b left, p.dropWhile space = b :: left ∧ (p ++ q).dropWhile space = b :: (left ++ q) := by
  cases shape : p.dropWhile space with
  | nil => exact .inl rfl
  | cons b left =>
    exact .inr ⟨b, left, rfl, by rw [dropWhile_append_of_ne_nil q (by simp [shape]), shape]; rfl⟩

/-- All symbols of one kind. -/
def span (p : β → Bool) : Reader β (List β) := fun bytes =>
  some (bytes.takeWhile p, bytes.dropWhile p)

theorem steady_span (p : β → Bool) : (span p).Steady := by
  intro l a rest q read more
  cases read
  rw [span, takeWhile_append_of_ne_nil q more, dropWhile_append_of_ne_nil q more]

/-- Exactly the symbols written are taken if another kind follows. -/
theorem span_append {p : β → Bool} {token rest : List β} (own : ∀ b ∈ token, p b)
    (ends : ∀ b ∈ rest.head?, p b = false) : span p (token ++ rest) = some (token, rest) := by
  rw [span, takeWhile_append_of_pos own, dropWhile_append_of_pos own]
  cases rest with
  | nil => simp
  | cons b rest => simp [ends b rfl]

/-! ## Listings -/

/-- Elements as they are written, a separator between each two. -/
def separated (sep : β) (write : α → List β) : List α → List β
  | [] => []
  | [a] => write a
  | a :: a' :: as => write a ++ sep :: separated sep write (a' :: as)

theorem length_separated (sep : β) (write : α → List β) (as : List α) :
    (separated sep write as).length = (as.map fun a => (write a).length).sum + (as.length - 1) := by
  induction as using separated.induct with
  | case1 => rfl
  | case2 a => simp [separated]
  | case3 a a' as ih =>
    rw [separated, length_append, length_cons, ih]
    simp only [map_cons, sum_cons, length_cons]
    omega

section Listing

variable [DecidableEq β] (space : β → Bool) (sep close : β) (elem : Reader β α)

/-- The elements of a listing up to its closing bracket; the number bounds them. -/
def elements : ℕ → Reader β (List α)
  | 0, _ => none
  | n + 1, bytes =>
    (elem bytes).bind fun (a, rest) =>
      match rest.dropWhile space with
      | [] => none
      | b :: rest =>
        if b = close then some ([a], rest)
        else if b = sep then (elements n rest).map fun (as, rest) => (a :: as, rest)
        else none

/-- A listing after its opening bracket. -/
def listing : Reader β (List α) := fun bytes =>
  match bytes.dropWhile space with
  | [] => none
  | b :: rest =>
    if b = close then some ([], rest)
    else elements space sep close elem (b :: rest).length (b :: rest)

variable {space sep close elem} {p rest : List β} {n : ℕ} {a : α}

/-- The last element of a listing. -/
theorem elements_last (read : elem p = some (a, close :: rest)) (visible : space close = false) :
    elements space sep close elem (n + 1) p = some ([a], rest) := by
  simp [elements, read, visible]

/-- An element that others follow. -/
theorem elements_next (read : elem p = some (a, sep :: rest)) (visible : space sep = false)
    (apart : sep ≠ close) :
    elements space sep close elem (n + 1) p =
      (elements space sep close elem n rest).map fun (as, rest) => (a :: as, rest) := by
  simp [elements, read, visible, apart]

/-- An element that cannot be read. -/
theorem elements_stuck {p : List β} (read : elem p = none) :
    elements space sep close elem n p = none := by
  cases n <;> simp [elements, read]

/-- A listing that is not empty. -/
theorem listing_cons {b : β} {t : List β} (visible : space b = false) (other : b ≠ close) :
    listing space sep close elem (b :: t) =
      elements space sep close elem (b :: t).length (b :: t) := by
  simp only [listing, dropWhile_cons, visible, false_eq_true, if_false, other]

variable {as : List α}

section Written

variable (rest : List β) {write : α → List β} {fits : α → Prop} [DecidablePred fits]
  (visible : space sep = false ∧ space close = false) (apart : sep ≠ close)
  (each : ∀ a ∈ as, ∀ b ∈ [sep, close], ∀ rest,
    elem (write a ++ b :: rest) = if fits a then some (a, b :: rest) else none)
include visible apart each

/-- Separated elements are read back if every one of them is. -/
theorem elements_separated (nonempty : as ≠ []) (enough : as.length ≤ n) :
    elements space sep close elem n (separated sep write as ++ close :: rest) =
      if ∀ a ∈ as, fits a then some (as, rest) else none := by
  induction as generalizing n with
  | nil => exact absurd rfl nonempty
  | cons a as ih =>
    obtain ⟨n, rfl⟩ : ∃ k, n = k + 1 := ⟨n - 1, by simp at enough; omega⟩
    have own := each a (by simp)
    rw [forall_mem_cons] at each
    cases as with
    | nil =>
      have read := own close (by simp) rest
      simp only [forall_mem_singleton]
      split_ifs at read ⊢
      · exact elements_last read visible.2
      · exact elements_stuck read
    | cons a' as =>
      have read := own sep (by simp) (separated sep write (a' :: as) ++ close :: rest)
      rw [separated, append_assoc, cons_append]
      simp only [forall_mem_cons (a := a)]
      split_ifs at read with fit
      · rw [elements_next read visible.1 apart, ih each.2 (cons_ne_nil _ _) (by simpa using enough)]
        simp only [fit, true_and]
        split_ifs <;> rfl
      · rw [elements_stuck read, if_neg fun both => fit both.1]

/-- A separated listing is read back if every element of it is. -/
theorem listing_separated (start : ∀ a ∈ as, ∃ b t, write a = b :: t ∧ space b =
    false ∧ b ≠ close) :
    listing space sep close elem (separated sep write as ++ close :: rest) =
      if ∀ a ∈ as, fits a then some (as, rest) else none := by
  cases as with
  | nil => simp [listing, separated, visible.2]
  | cons a as =>
    have enough : (a :: as).length ≤ (separated sep write (a :: as) ++ close :: rest).length := by
      simp only [length_append, length_separated, length_cons]
      omega
    have read := elements_separated rest visible apart each (cons_ne_nil _ _) enough
    obtain ⟨b, t, text, shown, other⟩ := start a (by simp)
    obtain ⟨t, whole⟩ : ∃ t, separated sep write (a :: as) ++ close :: rest = b :: t := by
      cases as <;> simp [separated, text]
    rw [whole] at read ⊢
    rw [listing_cons shown other, read]

end Written

/-- More elements may be allowed, and the input may be continued. -/
theorem elements_append (steady : elem.Steady) {n m : ℕ} (le : n ≤ m) (q : List β)
    (read : elements space sep close elem n p = some (as, rest)) :
    elements space sep close elem m (p ++ q) = some (as, rest ++ q) := by
  induction n generalizing m p rest as with
  | zero => simp [elements] at read
  | succ n ih =>
    obtain ⟨m, rfl⟩ : ∃ k, m = k + 1 := ⟨m - 1, by omega⟩
    rw [elements, bind_eq_some_iff] at read
    obtain ⟨⟨a, left⟩, first, read⟩ := read
    -- something follows the element, so it is read the same way
    have more : left ≠ [] := by
      rintro rfl
      cases read
    rw [elements, steady q first more]
    obtain nothing | ⟨b, left, shape, longer⟩ := next_cases space left q
    · simp [nothing] at read
    simp only [shape, longer, bind_some] at read ⊢
    split_ifs at read ⊢
    · cases read
      rfl
    · obtain ⟨⟨as, rest⟩, tail, eq⟩ := map_eq_some_iff.mp read
      cases eq
      rw [ih (by omega) tail]
      rfl

variable {P : α → Prop}

/-- What holds of every element read holds of all elements of a listing. -/
theorem forall_mem_elements (each : ∀ ⦃p a rest⦄, elem p = some (a, rest) → P a)
    (read : elements space sep close elem n p = some (as, rest)) : ∀ a ∈ as, P a := by
  induction n generalizing p rest as with
  | zero => simp [elements] at read
  | succ n ih =>
    rw [elements, bind_eq_some_iff] at read
    obtain ⟨⟨a, left⟩, first, read⟩ := read
    dsimp only at read
    split at read
    · cases read
    next b left _ =>
      split_ifs at read
      · cases read
        simpa using each first
      · obtain ⟨⟨as, rest⟩, tail, eq⟩ := map_eq_some_iff.mp read
        cases eq
        intro a' mem
        rcases mem_cons.mp mem with rfl | later
        · exact each first
        · exact ih tail a' later

theorem forall_mem_listing (each : ∀ ⦃p a rest⦄, elem p = some (a, rest) → P a)
    (read : listing space sep close elem p = some (as, rest)) :
    ∀ a ∈ as, P a := by
  unfold listing at read
  split at read
  · cases read
  · split_ifs at read
    · cases read
      simp
    · exact forall_mem_elements each read

/-- A listing of steady elements is closed. -/
theorem closed_listing (steady : elem.Steady) : (listing space sep close elem).Closed := by
  intro p as rest q read
  unfold listing at read ⊢
  obtain nothing | ⟨b, left, shape, longer⟩ := next_cases space p q
  · simp [nothing] at read
  simp only [shape, longer] at read ⊢
  split_ifs at read ⊢
  · cases read
    rfl
  · exact elements_append steady (by simp) q read

end Listing

end Reader

end AutoAgent
