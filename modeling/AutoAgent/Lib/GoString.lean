import Mathlib.Data.List.AList
import Mathlib.Algebra.Ring.Int.Defs
import Mathlib.Algebra.Ring.Nat

/-!
# Go strings and Go maps

A Go string is a byte sequence that need not be UTF-8.  Everything that reads
one (`range`, `encoding/json`, the `unicode` predicates) sees it as a sequence
of decoded runes and stray bytes, so that is the representation here: a
`GoString` is the sequence of items a `range` loop yields.  A stray byte has
length one and is never equal to a rune.

A Go map with string keys is Mathlib's `AList`, whose keys are distinct by
construction.
-/

namespace AutoAgent

open List

/-- One item of a `range` loop over a string: a decoded rune, or a byte that is
not part of a valid encoding. -/
inductive GoRune where
  | rune (c : Char)
  | invalid (b : UInt8)
  deriving DecidableEq, Repr

namespace GoRune

/-- The number of bytes the item occupies. -/
def size : GoRune → ℕ
  | .rune c => c.utf8Size
  | .invalid _ => 1

/-- The item decoded to a rune. -/
def isRune : GoRune → Bool
  | .rune _ => true
  | .invalid _ => false

/-- A predicate on runes, false on a stray byte. -/
def satisfies (p : Char → Bool) : GoRune → Bool
  | .rune c => p c
  | .invalid _ => false

end GoRune

/-- A Go string as the sequence of items a `range` loop yields. -/
structure GoString where
  runes : List GoRune
  deriving DecidableEq, Repr

/-- A Go map with string keys. -/
abbrev GoMap (V : Type) := AList (fun _ : GoString => V)

/-- A string literal of the source. -/
def go (s : String) : GoString := ⟨s.toList.map .rune⟩

namespace GoString

def empty : GoString := ⟨[]⟩

instance : Append GoString where
  append s t := ⟨s.runes ++ t.runes⟩

/-- `len(s)`: the number of bytes. -/
def len (s : GoString) : ℕ := (s.runes.map GoRune.size).sum

/-- `utf8.ValidString`: every item decoded. -/
def valid (s : GoString) : Bool := s.runes.all GoRune.isRune

/-- `utf8.RuneCountInString`: a stray byte counts as one rune. -/
def runeCount (s : GoString) : ℕ := s.runes.length

/-- Every item is a rune in the class `p`; the shape of an anchored regular
expression over a character class. -/
def allRunes (p : Char → Bool) (s : GoString) : Bool :=
  s.runes.all (GoRune.satisfies p)

/-- Some item is a rune in the class `p`, as `strings.ContainsAny` and
`strings.Contains` of one character test it. -/
def anyRune (p : Char → Bool) (s : GoString) : Bool :=
  s.runes.any (GoRune.satisfies p)

def isSpace (c : Char) : Bool :=
  let n := c.toNat
  (0x09 ≤ n && n ≤ 0x0d) || n == 0x20 || n == 0x85 || n == 0xa0 || n == 0x1680 ||
    (0x2000 ≤ n && n ≤ 0x200a) || n == 0x2028 || n == 0x2029 || n == 0x202f ||
    n == 0x205f || n == 0x3000

/-- `strings.TrimSpace(s) == ""`: nothing but white space. -/
def isBlank (s : GoString) : Bool := s.allRunes isSpace

def trimSpace (s : GoString) : GoString :=
  ⟨((s.runes.dropWhile (GoRune.satisfies isSpace)).reverse.dropWhile
    (GoRune.satisfies isSpace)).reverse⟩

def bytes (s : GoString) : List UInt8 :=
  s.runes.flatMap fun
    | .rune c => String.utf8EncodeChar c
    | .invalid b => [b]

/-- The items of `s[:n]`.  A rune that the cut goes through leaves its first
bytes, none of which decodes. -/
def takeBytes : ℕ → List GoRune → List GoRune
  | _, [] => []
  | n, .invalid b :: rs => if n = 0 then [] else .invalid b :: takeBytes (n - 1) rs
  | n, .rune c :: rs =>
    if c.utf8Size ≤ n then .rune c :: takeBytes (n - c.utf8Size) rs
    else ((String.utf8EncodeChar c).take n).map .invalid

/-- `s[:n]`, for `n` at most the length. -/
def sliceTo (s : GoString) (n : ℕ) : GoString := ⟨takeBytes n s.runes⟩

/-- A control character, as `containsControl` reads it. -/
def isControl (c : Char) : Bool := c.toNat < 0x20 || c.toNat == 0x7f

/-- `unicode.IsControl`. -/
def isUnicodeControl (c : Char) : Bool :=
  isControl c || (0x80 ≤ c.toNat && c.toNat ≤ 0x9f)

/-- The format and private-use characters, `unicode.Cf` and `unicode.Co`; surrogates
are no characters here. -/
def isFormatOrPrivate (c : Char) : Bool :=
  [(0xad, 0xad), (0x600, 0x605), (0x61c, 0x61c), (0x6dd, 0x6dd), (0x70f, 0x70f), (0x890, 0x891),
    (0x8e2, 0x8e2), (0x180e, 0x180e), (0x200b, 0x200f), (0x202a, 0x202e), (0x2060, 0x2064),
    (0x2066, 0x206f), (0xfeff, 0xfeff), (0xfff9, 0xfffb), (0x110bd, 0x110bd), (0x110cd, 0x110cd),
    (0x13430, 0x1343f), (0x1bca0, 0x1bca3), (0x1d173, 0x1d17a), (0xe0001, 0xe0001),
    (0xe0020, 0xe007f), (0xe000, 0xf8ff), (0xf0000, 0xffffd), (0x100000, 0x10fffd)].any
      fun (lo, hi) => decide (lo ≤ c.toNat) && decide (c.toNat ≤ hi)

/-- The pieces of a rune sequence between occurrences of `sep`. -/
def splitRunes (sep : Char) : List GoRune → List (List GoRune)
  | [] => [[]]
  | r :: rs =>
    if r = .rune sep then [] :: splitRunes sep rs
    else
      match splitRunes sep rs with
      | [] => [[r]]
      | piece :: pieces => (r :: piece) :: pieces

/-- `strings.Split(s, sep)` for a one-character separator. -/
def splitOn (sep : Char) (s : GoString) : List GoString :=
  (splitRunes sep s.runes).map GoString.mk

@[simp] theorem runes_append (s t : GoString) : (s ++ t).runes = s.runes ++ t.runes :=
  rfl

/-- Every item takes at least one byte. -/
theorem length_runes_le (s : GoString) : s.runes.length ≤ s.len := by
  unfold len
  induction s.runes with
  | nil => simp
  | cons r rs ih =>
    have positive : 1 ≤ r.size := by
      cases r with
      | rune c => exact Char.utf8Size_pos c
      | invalid b => exact le_rfl
    simp only [length_cons, map_cons, sum_cons]
    omega

@[simp] theorem valid_append (s t : GoString) :
    (s ++ t).valid = (s.valid && t.valid) := by
  simp [valid]

variable {s : GoString}

/-- A string over a character class has no stray byte. -/
theorem valid_of_allRunes {p : Char → Bool} (h : s.allRunes p) : s.valid := by
  simp only [allRunes, all_eq_true] at h
  simp only [valid, all_eq_true]
  intro r mem
  cases r with
  | rune c => rfl
  | invalid b => exact absurd (h _ mem) (by simp [GoRune.satisfies])

/-- A source literal has no stray byte. -/
@[simp] theorem valid_go (s : String) : (go s).valid := by
  simp [valid, go, GoRune.isRune]

private theorem isRune_of_splitRunes (sep : Char) {rs : List GoRune}
    (h : ∀ piece ∈ splitRunes sep rs, ∀ r ∈ piece, r.isRune) :
    ∀ r ∈ rs, r.isRune := by
  induction rs with
  | nil => simp
  | cons r rs ih =>
    rw [splitRunes] at h
    split at h
    next isSep =>
      subst isSep
      have rest := ih fun piece mem => h piece (mem_cons_of_mem _ mem)
      simpa [GoRune.isRune] using rest
    next =>
      split at h
      next empty =>
        have rest := ih (by simp [empty])
        simpa using ⟨h [r] (by simp) r (by simp), rest⟩
      next piece pieces split =>
        have head : r.isRune := h (r :: piece) (by simp) r (by simp)
        have rest := ih (by
          rw [split]
          intro p mem x hx
          rcases mem_cons.mp mem with rfl | tail
          · exact h _ (mem_cons_self ..) x (mem_cons_of_mem _ hx)
          · exact h p (mem_cons_of_mem _ tail) x hx)
        simpa using ⟨head, rest⟩

/-- A string whose parts between separators have no stray byte has none. -/
theorem valid_of_splitOn (sep : Char) (h : ∀ part ∈ s.splitOn sep, part.valid) : s.valid := by
  simp only [valid, all_eq_true]
  refine isRune_of_splitRunes sep fun piece mem r hr => ?_
  have part := h ⟨piece⟩ (mem_map.mpr ⟨piece, mem, rfl⟩)
  simp only [valid, all_eq_true] at part
  exact part r hr

end GoString

end AutoAgent
