import Mathlib.Data.List.Nodup
import Mathlib.Data.List.Perm.Basic

/-!
# Gathering a list by a key

Elements that share a key are gathered into one part, at the place of the first of
them; an element without a key is a part of its own.  This is the loop that walks a
list with a set of positions already processed.

The parts are a partition of the positions (`gather_perm`), and a part with a key
holds every element with that key (`gather_whole`).
-/

namespace AutoAgent

open List

variable {α κ : Type} [DecidableEq κ]

/-- The elements of a list with a key, with their positions. -/
def withKey (key : α → Option κ) (xs : List (α × ℕ)) (k : κ) : List (α × ℕ) :=
  xs.filter fun x => key x.1 = some k

/-- The part an element opens. -/
def partOf (key : α → Option κ) (xs : List (α × ℕ)) (x : α × ℕ) : List (α × ℕ) :=
  match key x.1 with
  | none => [x]
  | some k => withKey key xs k

/-- The loop over the rest of the list, after the positions `processed`. -/
def gatherLoop (key : α → Option κ) (xs : List (α × ℕ)) :
    List (α × ℕ) → List ℕ → List (List (α × ℕ))
  | [], _ => []
  | x :: rest, processed =>
    if processed.contains x.2 then gatherLoop key xs rest processed
    else partOf key xs x :: gatherLoop key xs rest ((partOf key xs x).map Prod.snd ++ processed)

/-- The parts of a list, in the order of their first elements. -/
def gather (key : α → Option κ) (xs : List α) : List (List (α × ℕ)) :=
  gatherLoop key xs.zipIdx xs.zipIdx []

section Loop

variable {key : α → Option κ} {xs rest : List (α × ℕ)} {processed : List ℕ} {x y : α × ℕ}

theorem mem_partOf (mem : x ∈ xs) :
    y ∈ partOf key xs x ↔ y = x ∨ y ∈ xs ∧ key x.1 ≠ none ∧ key y.1 = key x.1 := by
  unfold partOf
  cases own : key x.1 with
  | none => simp
  | some k =>
    simp only [withKey, mem_filter, decide_eq_true_eq, ne_eq, reduceCtorEq,
      not_false_eq_true, true_and]
    constructor
    · exact .inr
    · rintro (rfl | part)
      · exact ⟨mem, own⟩
      · exact part

theorem partOf_subset (mem : x ∈ xs) : partOf key xs x ⊆ xs := by
  intro y own
  rcases (mem_partOf mem).mp own with rfl | ⟨inside, _⟩
  · exact mem
  · exact inside

/-- The elements of a part open the same part. -/
theorem partOf_eq (mem : x ∈ xs) (own : y ∈ partOf key xs x) :
    partOf key xs y = partOf key xs x := by
  rcases (mem_partOf mem).mp own with rfl | ⟨_, _, same⟩
  · rfl
  · unfold partOf at *
    rw [same]
    split at own
    · obtain rfl := mem_singleton.mp own
      rfl
    · rfl

theorem nodup_partOf (nodup : xs.Nodup) : (partOf key xs x).Nodup := by
  unfold partOf
  split
  · exact nodup_singleton x
  · exact nodup.filter _

/-- A set of positions that holds each part completely or not at all. -/
def Closed (key : α → Option κ) (xs : List (α × ℕ)) (processed : List ℕ) : Prop :=
  ∀ x ∈ xs, x.2 ∈ processed → ∀ y ∈ partOf key xs x, y.2 ∈ processed

variable (distinct : ∀ x ∈ xs, ∀ y ∈ xs, x.2 = y.2 → x = y)

include distinct in
theorem Closed.part (closed : Closed key xs processed) (mem : x ∈ xs) :
    Closed key xs ((partOf key xs x).map Prod.snd ++ processed) := by
  intro y inside seen z part
  rcases mem_append.mp seen with own | old
  · obtain ⟨y', first, same⟩ := mem_map.mp own
    obtain rfl := distinct y' (partOf_subset mem first) y inside same
    rw [partOf_eq mem first] at part
    exact mem_append_left _ (mem_map_of_mem part)
  · exact mem_append_right _ (closed y inside old z part)

include distinct in
/-- The loop comes to the elements that have not been processed, to each of them once. -/
theorem gatherLoop_perm (nodup : xs.Nodup) (sub : rest ⊆ xs) (closed : Closed key xs processed)
    (all : ∀ x ∈ xs, x.2 ∉ processed → x ∈ rest) :
    (gatherLoop key xs rest processed).flatten.Perm
      (xs.filter fun x => x.2 ∉ processed) := by
  induction rest generalizing processed with
  | nil =>
    have done : (xs.filter fun x => x.2 ∉ processed) = [] :=
      filter_eq_nil_iff.mpr fun x mem new => nomatch all x mem (of_decide_eq_true new)
    rw [done]
    exact .nil
  | cons x rest ih =>
    obtain ⟨first, sub⟩ := cons_subset.mp sub
    have own : x ∈ partOf key xs x := (mem_partOf first).mpr (.inl rfl)
    have later : ∀ y ∈ xs, y.2 ∉ processed → y ≠ x → y ∈ rest := fun y mem new other =>
      (mem_cons.mp (all y mem new)).resolve_left other
    unfold gatherLoop
    split
    next seen =>
      refine ih sub closed fun y mem new => later y mem new ?_
      rintro rfl
      exact new (by simpa using seen)
    next fresh =>
      have after := ih sub (closed.part distinct first) fun y mem new => by
        rw [mem_append, not_or] at new
        exact later y mem new.2 fun same => new.1 (mem_map_of_mem (same ▸ own))
      -- what is left are the elements of the part and the others
      refine .trans (.append ?_ (after.trans (.of_eq ?_))) (filter_append_perm
        (fun y => y.2 ∈ (partOf key xs x).map Prod.snd) _)
      · refine (perm_ext_iff_of_nodup (nodup_partOf nodup) ((nodup.filter _).filter _)).mpr
          fun y => ?_
        simp only [mem_filter, decide_eq_true_eq]
        constructor
        · intro part
          refine ⟨⟨partOf_subset first part, fun seen => fresh ?_⟩, mem_map_of_mem part⟩
          -- a processed element of the part would have brought `x` with it
          rw [contains_iff_mem]
          exact closed y (partOf_subset first part) seen x (partOf_eq first part ▸ own)
        · rintro ⟨⟨mem, _⟩, place⟩
          obtain ⟨z, part, same⟩ := mem_map.mp place
          exact distinct z (partOf_subset first part) y mem same ▸ part
      · rw [filter_filter]
        exact filter_congr fun y _ => by simp only [mem_append, not_or, Bool.decide_and, decide_not]

/-- Every part is the part of an element of the list. -/
theorem part_of_gatherLoop (sub : rest ⊆ xs) {part : List (α × ℕ)}
    (mem : part ∈ gatherLoop key xs rest processed) : ∃ x ∈ xs, part = partOf key xs x := by
  induction rest generalizing processed with
  | nil => cases mem
  | cons x rest ih =>
    obtain ⟨first, sub⟩ := cons_subset.mp sub
    unfold gatherLoop at mem
    split at mem
    · exact ih sub mem
    · rcases mem_cons.mp mem with rfl | later
      · exact ⟨x, first, rfl⟩
      · exact ih sub later

end Loop

variable {key : α → Option κ} {xs : List α} {part : List (α × ℕ)}

theorem distinct_zipIdx (xs : List α) : ∀ x ∈ xs.zipIdx, ∀ y ∈ xs.zipIdx, x.2 = y.2 → x = y := by
  rintro ⟨a, i⟩ ha ⟨b, j⟩ hb (rfl : i = j)
  rw [mem_zipIdx_iff_getElem?] at ha hb
  rw [ha] at hb
  cases hb
  rfl

theorem nodup_zipIdx (xs : List α) : xs.zipIdx.Nodup := by
  refine List.Nodup.of_map Prod.snd ?_
  rw [zipIdx_map_snd]
  exact nodup_range'

theorem gather_part (mem : part ∈ gather key xs) : ∃ x ∈ xs.zipIdx, part = partOf key xs.zipIdx x :=
  part_of_gatherLoop (List.Subset.refl _) mem

/-- The parts are a partition of the positions. -/
theorem gather_perm : (gather key xs).flatten.Perm xs.zipIdx := by
  have closed : Closed key xs.zipIdx [] := fun _ _ seen => by cases seen
  simpa [gather] using gatherLoop_perm (distinct_zipIdx xs) (nodup_zipIdx xs)
    (List.Subset.refl _) closed
    fun x mem _ => mem

/-- A part with a key holds every element with that key. -/
theorem gather_whole (mem : part ∈ gather key xs) {x y : α × ℕ} (own : x ∈ part)
    (keyed : key x.1 ≠ none) (inside : y ∈ xs.zipIdx) (same : key y.1 = key x.1) : y ∈ part := by
  obtain ⟨z, first, rfl⟩ := gather_part mem
  rw [← partOf_eq first own]
  exact (mem_partOf (partOf_subset first own)).mpr (.inr ⟨inside, keyed, same⟩)

end AutoAgent
