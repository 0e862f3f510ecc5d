import Mathlib.Data.List.Pairwise

/-!
# Relational tables

A table is a list of rows of which no two clash.  The relation `clash` states
the table's primary key and its unique indexes together, so a table that breaks
one of them cannot be built, and an `INSERT` or `UPDATE` that would break one
fails.

An `UPDATE` is a pair of a `WHERE` condition and what it sets; it reports how
many rows it selected.  Its effect on the rows is stated once, as
`rows_of_execute`: the rows of the result are those of the table, changed if they
were selected.

**Keys.**  Most conditions name a row by a key.  `lookup` is the row with a key,
and the lemmas about it say what each statement does to that row and that it
leaves the rows of all other keys alone.
-/

namespace AutoAgent

open List

/-- A table with rows `ρ`; `clash a b` means that `a` and `b` may not both be
present. -/
structure Table (ρ : Type) (clash : ρ → ρ → Bool) where
  rows : List ρ
  unique : rows.Pairwise fun a b => clash a b = false

structure Update (ρ : Type) where
  /-- The `WHERE` condition. -/
  selects : ρ → Bool
  /-- The `SET` clause. -/
  set : ρ → ρ

/-- The statement is about the row with key `k`, which its condition names first, and keeps the
keys. -/
structure Update.At {ρ κ : Type} (u : Update ρ) (key : ρ → κ) (k : κ) : Prop where
  own : ∀ r, u.selects r → key r = k := by
    exact fun _ selected => (of_decide_eq_true selected).1
  keeps : ∀ r, key (u.set r) = key r := by exact fun _ => rfl

def Update.apply {ρ : Type} (u : Update ρ) (r : ρ) : ρ := if u.selects r then u.set r else r

theorem Update.apply_of_selects {ρ : Type} {u : Update ρ} {r : ρ} (selected : u.selects r) :
    u.apply r = u.set r := by
  rw [Update.apply, if_pos selected]

namespace Table

variable {ρ : Type} {clash : ρ → ρ → Bool}

def empty : Table ρ clash := ⟨[], .nil⟩

/-- `SELECT COUNT(*) … WHERE p`. -/
def count (t : Table ρ clash) (p : ρ → Bool) : ℕ := t.rows.countP p

/-- `SELECT … WHERE p` on a condition that at most one row meets. -/
def find (t : Table ρ clash) (p : ρ → Bool) : Option ρ := t.rows.find? p

/-- `EXISTS (SELECT 1 … WHERE p)`. -/
def exists? (t : Table ρ clash) (p : ρ → Bool) : Bool := t.rows.any p

/-- `INSERT`, which fails on a row that clashes with a present one. -/
def insert (t : Table ρ clash) (r : ρ) : Option (Table ρ clash) :=
  if h : ∀ a ∈ t.rows, clash a r = false then
    some ⟨t.rows ++ [r], pairwise_append.mpr ⟨t.unique, pairwise_singleton _ _, fun a mem _ last =>
        (mem_singleton.mp last) ▸ h a mem⟩⟩
  else none

/-- `UPDATE`, with the number of rows selected; it fails when two rows of the
result clash. -/
def execute (t : Table ρ clash) (u : Update ρ) : Option (ℕ × Table ρ clash) :=
  if h : (t.rows.map u.apply).Pairwise fun a b => clash a b = false then
    some (t.count u.selects, ⟨t.rows.map u.apply, h⟩)
  else none

/-- `DELETE … WHERE p`. -/
def delete (t : Table ρ clash) (p : ρ → Bool) : Table ρ clash :=
  ⟨t.rows.filter fun r => !p r, t.unique.filter _⟩

variable {t t' : Table ρ clash} {r : ρ} {u : Update ρ} {n : ℕ} {p : ρ → Bool}

@[simp] theorem mem_delete :
    r ∈ (t.delete p).rows ↔ r ∈ t.rows ∧ p r = false := by
  simp [delete]

theorem rows_of_insert (h : t.insert r = some t') : t'.rows = t.rows ++ [r] := by
  unfold insert at h
  split at h
  · exact congrArg rows (Option.some.inj h).symm
  · cases h

theorem rows_of_execute (h : t.execute u = some (n, t')) :
    n = t.count u.selects ∧ t'.rows = t.rows.map u.apply := by
  unfold execute at h
  split at h
  · cases h
    exact ⟨rfl, rfl⟩
  · cases h

/-- A statement that selects no row leaves the rows as they are. -/
theorem rows_of_execute_zero (h : t.execute u = some (0, t')) : t'.rows = t.rows := by
  obtain ⟨none, rows⟩ := rows_of_execute h
  rw [rows]
  refine (map_congr_left fun x mem => ?_).trans (map_id _)
  rw [Update.apply, if_neg (countP_eq_zero.mp none.symm x mem)]
  rfl

theorem eq_of_execute_zero (h : t.execute u = some (0, t')) : t' = t := by
  have rows := rows_of_execute_zero h
  cases t
  cases t'
  cases rows
  rfl

/-- A statement that makes no two rows clash is executed; most leave the columns of the
constraints as they are. -/
theorem execute_of_keeps
    (keeps : ∀ a b, clash a b = false → clash (u.apply a) (u.apply b) = false := by
      intro a b free
      unfold Update.apply
      split <;> split <;> exact free) :
    ∃ t' : Table ρ clash, t.execute u = some (t.count u.selects, t') := by
  have apart : (t.rows.map u.apply).Pairwise fun a b => clash a b = false :=
    pairwise_map.mpr (t.unique.imp fun {a b} free => keeps a b free)
  exact ⟨_, dif_pos apart⟩

/-- Two rows that clash are one row. -/
theorem eq_of_clash (symm : ∀ a b : ρ, clash a b = clash b a) {a b : ρ} (ha : a ∈ t.rows)
    (hb : b ∈ t.rows) (h : clash a b) : a = b := by
  by_contra ne
  have symmetric : Std.Symm fun a b : ρ => clash a b = false := ⟨fun a b h => (symm b a).trans h⟩
  have apart := t.unique.forall ha hb ne
  rw [h] at apart
  cases apart

/-- At most one row meets a condition whose rows clash. -/
theorem count_le_one (clashes : ∀ a b, p a → p b → clash a b) : t.count p ≤ 1 := by
  have apart := t.unique
  unfold count
  revert apart
  induction t.rows with
  | nil => exact fun _ => Nat.zero_le 1
  | cons r rs ih =>
    intro apart
    rw [pairwise_cons] at apart
    by_cases meets : p r
    · -- a row that meets the condition clashes with every other one that does
      have rest : rs.countP p = 0 := countP_eq_zero.mpr fun a mem other => by
        have free := apart.1 a mem
        rw [clashes r a meets other] at free
        cases free
      simp [meets, rest]
    · rw [countP_cons, if_neg meets]
      exact ih apart.2

/-! ## Rows found by a key -/

section Lookup

variable {κ : Type} {key : ρ → κ} {k : κ}

/-- `key` identifies a row: rows with the same key clash. -/
def UniqueKey (clash : ρ → ρ → Bool) (key : ρ → κ) : Prop :=
  ∀ a b, key a = key b → clash a b

def lookup [DecidableEq κ] (t : Table ρ clash) (key : ρ → κ) (k : κ) : Option ρ :=
  t.find fun r => key r == k

theorem lookup_eq_none [DecidableEq κ] : t.lookup key k = none ↔ ∀ r ∈ t.rows, key r ≠ k := by
  simp [lookup, find]

theorem lookup_of_execute [DecidableEq κ] (keeps : ∀ r, key (u.set r) = key r)
    (h : t.execute u = some (n, t')) (k : κ) :
    t'.lookup key k = (t.lookup key k).map u.apply := by
  have same : ∀ r, key (u.apply r) = key r := by
    intro r
    unfold Update.apply
    split
    · exact keeps r
    · rfl
  unfold lookup find
  rw [(rows_of_execute h).2, find?_map]
  simp only [Function.comp_def, same]

variable [unique : Fact (UniqueKey clash key)]

theorem pairwise_key (t : Table ρ clash) (key : ρ → κ) [unique : Fact (UniqueKey clash key)] :
    t.rows.Pairwise fun a b => key a ≠ key b := by
  refine t.unique.imp fun {a b} free same => ?_
  rw [unique.out a b same] at free
  cases free

theorem eq_of_key {a b : ρ} (ha : a ∈ t.rows) (hb : b ∈ t.rows) (same : key a = key b) : a = b := by
  by_contra ne
  have symmetric : Std.Symm fun a b : ρ => key a ≠ key b := ⟨fun _ _ h => h.symm⟩
  exact (t.pairwise_key key).forall ha hb ne same

variable [DecidableEq κ]

theorem lookup_eq_some :
    t.lookup key k = some r ↔ r ∈ t.rows ∧ key r = k := by
  constructor
  · intro found
    exact ⟨mem_of_find?_eq_some found, by simpa using find?_some found⟩
  · rintro ⟨mem, rfl⟩
    cases found : t.lookup key (key r) with
    | none =>
      have absent := find?_eq_none.mp found r mem
      simp at absent
    | some a =>
      have same : key a = key r := by simpa using find?_some found
      rw [eq_of_key (mem_of_find?_eq_some found) mem same]

/-- A key is met by one row or by none. -/
theorem count_key :
    t.count (fun r => key r == k) = if (t.lookup key k).isSome then 1 else 0 := by
  have few : t.count (fun r => key r == k) ≤ 1 := count_le_one fun a b ha hb =>
    unique.out a b ((beq_iff_eq.mp ha).trans (beq_iff_eq.mp hb).symm)
  have present : 0 < t.count (fun r => key r == k) ↔ (t.lookup key k).isSome := by
    simp [count, lookup, find]
  split
  next found => exact Nat.le_antisymm few (present.mpr found)
  next absent => exact Nat.eq_zero_of_not_pos fun positive => absent (present.mp positive)

theorem lookup_of_insert (h : t.insert r = some t') (k : κ) :
    t'.lookup key k = if k = key r then some r else t.lookup key k := by
  have rows := rows_of_insert h
  split
  next same =>
    exact lookup_eq_some.mpr ⟨by simp [rows], same.symm⟩
  next differs =>
    simp [lookup, find, rows, find?_append, Ne.symm differs]

/-- The key of an inserted row was free. -/
theorem lookup_eq_none_of_insert (h : t.insert r = some t') :
    t.lookup key (key r) = none := by
  unfold insert at h
  split at h
  next free =>
    refine lookup_eq_none.mpr fun a mem same => ?_
    have clashes := unique.out a r same
    rw [free a mem] at clashes
    cases clashes
  next => cases h

/-- A statement about one key leaves every other row alone. -/
theorem lookup_of_execute_at (one : u.At key k) (h : t.execute u = some (n, t')) (k' : κ) :
    t'.lookup key k' = if k' = k then (t.lookup key k).map u.apply else t.lookup key k' := by
  rw [lookup_of_execute one.keeps h]
  split
  next same => rw [same]
  next differs =>
    cases found : t.lookup key k' with
    | none => rfl
    | some r =>
      have unselected : u.selects r ≠ true := fun selected =>
        differs ((lookup_eq_some.mp found).2 ▸ one.own r selected)
      simp [Update.apply, unselected]

/-- A statement about one key that selects its row. -/
theorem lookup_of_execute_selects (h : t.execute u = some (n, t'))
    (found : t.lookup key k = some r) (selected : u.selects r)
    (one : u.At key k := by exact {}) (k' : κ) :
    t'.lookup key k' = if k' = k then some (u.set r) else t.lookup key k' := by
  rw [lookup_of_execute_at one h, found, Option.map_some, Update.apply_of_selects selected]

/-- A statement about one key that selects a row selects the row of that key. -/
theorem selected_of_execute (key : ρ → κ) [Fact (UniqueKey clash key)] (k : κ)
    (h : t.execute u = some (n, t')) (some_row : n ≠ 0) (one : u.At key k := by exact {}) :
    ∃ r, t.lookup key k = some r ∧ u.selects r ∧
      ∀ k', t'.lookup key k' = if k' = k then some (u.set r) else t.lookup key k' := by
  rw [(rows_of_execute h).1, count] at some_row
  obtain ⟨r, mem, selected⟩ := countP_pos_iff.mp (Nat.pos_of_ne_zero some_row)
  have found := lookup_eq_some.mpr ⟨mem, one.own r selected⟩
  exact ⟨r, found, selected, lookup_of_execute_selects h found selected one⟩

theorem lookup_delete (p : ρ → Bool) (k : κ) :
    (t.delete p).lookup key k = (t.lookup key k).filter fun r => !p r := by
  refine Option.ext fun r => ?_
  rw [lookup_eq_some, Option.filter_eq_some_iff, lookup_eq_some, mem_delete]
  rw [Bool.not_eq_true', and_right_comm]

end Lookup

/-! ## The first row of an order -/

/-- `SELECT … ORDER BY … LIMIT 1` over the rows that meet its condition. -/
def firstBy (before : ρ → ρ → Bool) : List ρ → Option ρ
  | [] => none
  | r :: rs =>
    match firstBy before rs with
    | none => some r
    | some best => if before best r then some best else some r

/-- Among some rows there is a first one, and none comes before it. -/
theorem exists_firstBy {before : ρ → ρ → Bool} (asymm : ∀ a b, before a b → before b a = false)
    (trans : ∀ a b c, before a b = false → before b c = false → before a c = false)
    {rs : List ρ} (some_row : rs ≠ []) :
    ∃ best ∈ rs, firstBy before rs = some best ∧ ∀ a ∈ rs, before a best = false := by
  have irrefl : ∀ a, before a a = false := by
    intro a
    cases own : before a a with
    | false => rfl
    | true => exact own ▸ asymm a a own
  induction rs with
  | nil => exact absurd rfl some_row
  | cons r rs ih =>
    cases rs with
    | nil => exact ⟨r, by simp, rfl, by simpa using irrefl r⟩
    | cons r' rs =>
      obtain ⟨best, mem, found, least⟩ := ih (cons_ne_nil _ _)
      cases earlier : before best r with
      | true =>
        refine ⟨best, mem_cons_of_mem _ mem, ?_, ?_⟩
        · rw [firstBy, found]
          exact if_pos earlier
        · exact forall_mem_cons.mpr ⟨asymm _ _ earlier, least⟩
      | false =>
        refine ⟨r, by simp, ?_, ?_⟩
        · rw [firstBy, found]
          exact if_neg (by rw [earlier]; nofun)
        · exact forall_mem_cons.mpr ⟨irrefl r, fun a mem => trans _ _ _ (least a mem) earlier⟩

theorem exists?_iff : t.exists? p ↔ ∃ r ∈ t.rows, p r := by
  simp [exists?]

end Table

export Table (eq_of_key exists?_iff lookup_eq_none_of_insert lookup_eq_some
  lookup_of_execute_selects
  lookup_of_insert mem_delete rows_of_execute rows_of_insert selected_of_execute)

end AutoAgent
