import Mathlib.Data.List.AList
import Mathlib.Data.List.Sort
import Mathlib.Algebra.Ring.Nat

/-!
# Registries of mounted values

A registry hands out a number with every value it stores and keeps the values
in slices, one slice for each key.  An unmount function remembers the key and
the number of its value and takes the value with that number out of the slice.

**What a registry keeps.**  `Shelves.Orderly` says that every slice is sorted by
number, that numbers stay below the counter and that a value lies under its own
key.  Pushing the next value, taking one out and exchanging one in place all
keep it, so sorting a slice by number, as the readers do, changes nothing.
-/

namespace AutoAgent

open List

variable {κ α : Type} [DecidableEq κ]

/-- A value with the number of its mount. -/
structure Stored (α : Type) where
  value : α
  order : ℕ
  deriving DecidableEq, Repr

namespace Stored

/-- `sort.SliceStable` by number. -/
def byOrder (slice : List (Stored α)) : List (Stored α) :=
  slice.insertionSort fun a b => a.order ≤ b.order

/-- The slice without the first value that carries the number. -/
def without (order : ℕ) (slice : List (Stored α)) : List (Stored α) :=
  slice.eraseP (·.order == order)

/-- The numbers of a slice grow from left to right. -/
def Sorted (slice : List (Stored α)) : Prop := slice.Pairwise fun a b => a.order < b.order

variable {slice : List (Stored α)}

theorem byOrder_of_sorted (h : Sorted slice) : byOrder slice = slice :=
  List.Pairwise.insertionSort_eq (h.imp fun lt => Nat.le_of_lt lt)

theorem sorted_without (order : ℕ) (h : Sorted slice) :
    Sorted (without order slice) :=
  h.sublist (eraseP_sublist ..)

variable {order : ℕ} {s : Stored α}

theorem mem_of_mem_without (h : s ∈ without order slice) : s ∈ slice := mem_of_mem_eraseP h

/-- Two values of a sorted slice with one number are one value. -/
theorem eq_of_order_eq (h : Sorted slice) {a b : Stored α} (ha : a ∈ slice) (hb : b ∈ slice)
    (same : a.order = b.order) : a = b := by
  have numbers : (slice.map Stored.order).Nodup :=
    pairwise_map.mpr (h.imp fun lt => Nat.ne_of_lt lt)
  exact inj_on_of_nodup_map numbers ha hb same

/-- Of a sorted slice exactly the value with the number is taken out. -/
theorem without_eq_filter (h : Sorted slice) (order : ℕ) :
    without order slice = slice.filter (·.order != order) := by
  induction slice with
  | nil => rfl
  | cons first rest ih =>
    obtain ⟨above, tail⟩ := pairwise_cons.mp h
    have rest' := ih tail
    rw [without] at rest' ⊢
    by_cases hit : first.order = order
    · have others : rest.filter (·.order != order) = rest := by
        refine filter_eq_self.mpr fun t mem => ?_
        have := above t mem
        simp only [bne_iff_ne]
        omega
      simp [hit, others]
    · simp [hit, rest']

theorem mem_without (h : Sorted slice) :
    s ∈ without order slice ↔ s ∈ slice ∧ s.order ≠ order := by
  simp [without_eq_filter h]

/-- The value with the number exchanged for another. -/
def swap (order : ℕ) (value : α) (s : Stored α) : Stored α :=
  if s.order = order then ⟨value, order⟩ else s

@[simp] theorem order_swap (order : ℕ) (value : α) (s : Stored α) :
    (swap order value s).order = s.order := by
  unfold swap
  split
  · next same => exact same.symm
  · rfl

/-- Writing at the position of a number exchanges the value with that number. -/
theorem set_eq_map_swap (h : Sorted slice) {i : ℕ} (found : slice[i]? = some s) (value : α) :
    slice.set i ⟨value, s.order⟩ = slice.map (swap s.order value) := by
  obtain ⟨below, rfl⟩ := List.getElem?_eq_some_iff.mp found
  refine ext_getElem (by simp) fun j hj _ => ?_
  rw [length_set] at hj
  rw [getElem_set, getElem_map, swap]
  by_cases same : i = j
  · subst same
    simp
  · -- the numbers at two positions differ
    have differ : slice[j].order ≠ slice[i].order := by
      intro equal
      rcases Nat.lt_or_gt_of_ne same with lt | gt
      · exact absurd (pairwise_iff_getElem.mp h i j below hj lt) (by omega)
      · exact absurd (pairwise_iff_getElem.mp h j i hj below gt) (by omega)
    rw [if_neg same, if_neg differ]

theorem sorted_map_swap (h : Sorted slice) (order : ℕ) (value : α) :
    Sorted (slice.map (swap order value)) := by
  refine pairwise_map.mpr (h.imp ?_)
  intro a b lt
  simpa using lt

variable {part : Stored α → Bool}

/-- Exchanging a value inside a part. -/
theorem filter_map_swap {value : α}
    (stays : ∀ s ∈ slice, s.order = order → part ⟨value, order⟩ = part s) :
    (slice.map (swap order value)).filter part = (slice.filter part).map (swap order value) := by
  rw [filter_map]
  congr 1
  refine filter_congr fun s mem => ?_
  show part (swap order value s) = part s
  unfold swap
  split
  · next same => exact stays s mem same
  · rfl

/-- A value with a fresh number goes to the end of a sorted slice. -/
theorem sorted_append (h : Sorted slice) (fresh : ∀ t ∈ slice, t.order < s.order) :
    Sorted (slice ++ [s]) := by
  refine pairwise_append.mpr ⟨h, pairwise_singleton .., ?_⟩
  intro t mem u last
  obtain rfl := mem_singleton.mp last
  exact fresh t mem

end Stored

/-- `map[string][]stored`: a slice for each key. -/
abbrev Shelves (κ α : Type) [DecidableEq κ] := AList fun _ : κ => List (Stored α)

namespace Shelves

/-- The slice under a key, empty when the key is absent. -/
def at_ (m : Shelves κ α) (key : κ) : List (Stored α) := (m.lookup key).getD []

/-- Stores a slice under a key. -/
def put (m : Shelves κ α) (key : κ) (slice : List (Stored α)) : Shelves κ α := m.insert key slice

/-- `scopedBindingCount`: the number of values in all slices. -/
def count (m : Shelves κ α) : ℕ := (m.entries.map fun e => e.2.length).sum

@[simp] theorem at_empty (key : κ) : at_ (∅ : Shelves κ α) key = [] := by
  simp [at_]

theorem at_put (m : Shelves κ α) (key k : κ) (slice : List (Stored α)) :
    (m.put key slice).at_ k = if k = key then slice else m.at_ k := by
  by_cases same : k = key
  · subst same
    simp [at_, put]
  · simp [at_, put, same, AList.lookup_insert_ne same]

/-- Slices are sorted, numbers are at most `bound`, and values lie under their
own key. -/
structure Orderly (keyOf : α → κ) (bound : ℕ) (m : Shelves κ α) : Prop where
  sorted : ∀ key, Stored.Sorted (m.at_ key)
  own : ∀ key, ∀ s ∈ m.at_ key, keyOf s.value = key
  numbered : ∀ key, ∀ s ∈ m.at_ key, s.order ≤ bound

variable {keyOf : α → κ} {bound : ℕ} {m : Shelves κ α}

theorem orderly_empty (keyOf : α → κ) : Orderly keyOf 0 (∅ : Shelves κ α) where
  sorted key := by simp [Stored.Sorted]
  own key s mem := by simp at mem
  numbered key s mem := by simp at mem

/-- Storing a slice that is in order under its key keeps the registry in order. -/
theorem Orderly.put (h : Orderly keyOf bound m) {bound' : ℕ} (grows : bound ≤ bound') {key : κ}
    {slice : List (Stored α)} (sorted : Stored.Sorted slice)
    (good : ∀ s ∈ slice, keyOf s.value = key ∧ s.order ≤ bound') :
    Orderly keyOf bound' (m.put key slice) where
  sorted k := by
    rw [at_put]
    split
    · exact sorted
    · exact h.sorted k
  own k s mem := by
    rw [at_put] at mem
    split at mem
    · next same => exact same ▸ (good s mem).1
    · exact h.own k s mem
  numbered k s mem := by
    rw [at_put] at mem
    split at mem
    · exact (good s mem).2
    · exact le_trans (h.numbered k s mem) grows

/-- The next value is pushed to the end of the slice of its key. -/
theorem Orderly.push (h : Orderly keyOf bound m) (value : α) :
    Orderly keyOf (bound + 1)
      (m.put (keyOf value) (m.at_ (keyOf value) ++ [⟨value, bound + 1⟩])) := by
  refine h.put (Nat.le_succ _) (Stored.sorted_append (h.sorted _) fun t mem =>
    Nat.lt_succ_of_le (h.numbered _ t mem)) ?_
  intro s mem
  rcases mem_append.mp mem with old | new
  · exact ⟨h.own _ s old, le_trans (h.numbered _ s old) (Nat.le_succ _)⟩
  · obtain rfl := mem_singleton.mp new
    exact ⟨rfl, le_refl _⟩

/-- A value is taken out of a slice. -/
theorem Orderly.remove (h : Orderly keyOf bound m) (key : κ) (order : ℕ) :
    Orderly keyOf bound (m.put key (Stored.without order (m.at_ key))) :=
  h.put (le_refl _) (Stored.sorted_without order (h.sorted key)) fun s mem =>
    ⟨h.own key s (Stored.mem_of_mem_without mem), h.numbered key s (Stored.mem_of_mem_without mem)⟩

end Shelves

end AutoAgent
