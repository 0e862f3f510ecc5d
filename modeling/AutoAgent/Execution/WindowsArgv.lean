import AutoAgent.Lib.GoString

/-!
# Windows command lines

`windowsEncodeArgv` writes an argument vector as the one string a Windows process is created
with, and the process splits it again by the rules of `CommandLineToArgvW`.  Those read the
program name their own way: a quoted one ends at the next quote and its backslashes stand for
themselves.  The encoder doubles the backslashes before its closing quote there too.
-/

namespace AutoAgent.WindowsArgv

open List

/-! ## The encoder -/

def maxArgs : ℕ := 128

def maxArgBytes : ℕ := 16 * 2 ^ 10

def slash : GoRune := .rune '\\'

def quote : GoRune := .rune '"'

/-- The character a `range` loop has for an item. -/
def character : GoRune → GoRune
  | .rune c => .rune c
  | .invalid _ => .rune '�'

/-- The loop of `windowsQuoteArgument` from a character on, and the closing quote. -/
def quoteLoop : List GoRune → ℕ → List GoRune
  | [], backslashes => replicate (backslashes * 2) slash ++ [quote]
  | r :: rest, backslashes =>
    if r = slash then quoteLoop rest (backslashes + 1)
    else if r = quote then replicate (backslashes * 2 + 1) slash ++ r :: quoteLoop rest 0
    else replicate backslashes slash ++ r :: quoteLoop rest 0

/-- The test of `windowsQuoteArgument` for an argument that is not written as it is. -/
def quoted (argument : GoString) : Bool :=
  argument = .empty || argument.anyRune (· ∈ [' ', '\t', '\n', '\x0b', '"'])

def windowsQuoteArgument (argument : GoString) : GoString :=
  if quoted argument then ⟨quote :: quoteLoop (argument.runes.map character) 0⟩ else argument

def validWindowsCommandArgument (argument : GoString) : Bool :=
  argument.len ≤ maxArgBytes && argument.valid && !argument.anyRune (· = '\x00')

/-- `strings.Join` with a blank. -/
def join : List GoString → List GoRune
  | [] => []
  | [s] => s.runes
  | s :: rest => s.runes ++ .rune ' ' :: join rest

/-- `windowsEncodeArgv`; `none` is `ErrInvalidSpec`. -/
def windowsEncodeArgv (argv : List GoString) : Option GoString :=
  if argv.length = 0 ∨ maxArgs < argv.length then none
  else if argv.all validWindowsCommandArgument then some ⟨join (argv.map windowsQuoteArgument)⟩
  else none

/-! ## The rules of `CommandLineToArgvW` -/

def isBlank (r : GoRune) : Bool := r = .rune ' ' || r = .rune '\t'

/-- The arguments after the program name, from a character on: whether it is between quotes, the
backslashes just before it, and the argument it may be part of, without them.  `2n` backslashes
and a quote are `n` backslashes and turn the quotes on or off, `2n + 1` and a quote are `n` and
the quote, and other backslashes are themselves. -/
def scan : List GoRune → Bool → ℕ → Option (List GoRune) → List (List GoRune)
  | [], _, slashes, current => (current.map (· ++ replicate slashes slash)).toList
  | r :: rest, inside, slashes, current =>
    if r = slash then scan rest inside (slashes + 1) (some (current.getD []))
    else if r = quote then
      let read := current.getD [] ++ replicate (slashes / 2) slash
      if slashes % 2 = 0 then scan rest (!inside) 0 (some read)
      else scan rest inside 0 (some (read ++ [r]))
    else if !inside && isBlank r then
      (current.map (· ++ replicate slashes slash)).toList ++ scan rest false 0 none
    else scan rest inside 0 (some (current.getD [] ++ replicate slashes slash ++ [r]))

/-- A program name up to the first character that is not in `p`, and the arguments after it. -/
def programName (p : GoRune → Bool) (line : List GoRune) : List (List GoRune) :=
  line.takeWhile p :: scan (line.dropWhile p).tail false 0 none

/-- A program name ends at the next quote if it starts with one, and else at a blank. -/
def commandLineToArgvW (line : List GoRune) : List (List GoRune) :=
  if line.head? = some quote then programName (· ≠ quote) line.tail
  else programName (!isBlank ·) line

/-! ## The round trip -/

variable {a t c : List GoRune} {n : ℕ}

theorem scan_slashes (k : ℕ) (inside : Bool) :
    scan (replicate k slash ++ t) inside n (some c) = scan t inside (n + k) (some c) := by
  induction k generalizing n with
  | zero => rfl
  | succ k ih =>
    rw [replicate_succ, cons_append, scan, if_pos rfl, Option.getD_some, ih, Nat.add_assoc,
      Nat.add_comm 1]

/-- A quoted argument is read back up to its closing quote. -/
theorem scan_quoteLoop : scan (quoteLoop a n ++ t) true 0 (some c) =
    scan t false 0 (some (c ++ replicate n slash ++ a)) := by
  induction a generalizing n c with
  | nil =>
    rw [quoteLoop, append_assoc, scan_slashes, Nat.zero_add, singleton_append, scan,
      if_neg (by decide), if_pos rfl, if_pos (by simp)]
    simp
  | cons r a ih =>
    rw [quoteLoop]
    split_ifs with isSlash isQuote
    · rw [ih, isSlash, replicate_succ', append_assoc, append_assoc, append_assoc, singleton_append]
    · rw [append_assoc, scan_slashes, cons_append, scan, if_neg isSlash, if_pos isQuote,
        if_neg (by omega), ih]
      simp [show (n * 2 + 1) / 2 = n by omega]
    · rw [append_assoc, scan_slashes, cons_append, scan, if_neg isSlash, if_neg isQuote,
        if_neg (by simp), ih]
      simp

/-- An argument that is written as it is, with the backslashes at its end still to come. -/
theorem scan_plain (plain : ∀ r ∈ a, r ≠ quote ∧ isBlank r = false) :
    ∃ k read, scan (a ++ t) false n (some c) = scan t false k (some read) ∧
      read ++ replicate k slash = c ++ replicate n slash ++ a := by
  induction a generalizing n c with
  | nil => exact ⟨n, c, rfl, by simp⟩
  | cons r a ih =>
    obtain ⟨⟨noQuote, noBlank⟩, plain⟩ := forall_mem_cons.mp plain
    rw [cons_append, scan, if_neg noQuote, noBlank, Bool.and_false, if_neg Bool.false_ne_true]
    split_ifs with isSlash
    · obtain ⟨k, read, eq, same⟩ := ih (n := n + 1) (c := c) plain
      refine ⟨k, read, eq, ?_⟩
      rw [same, isSlash, replicate_succ']
      simp
    · obtain ⟨k, read, eq, same⟩ := ih (n := 0) (c := c ++ replicate n slash ++ [r]) plain
      exact ⟨k, read, eq, by simp [same]⟩

theorem runes_character {s : GoString} (h : s.valid) : s.runes.map character = s.runes := by
  rw [GoString.valid, all_eq_true] at h
  refine (map_congr_left fun r mem => ?_).trans (map_id _)
  cases r with
  | rune c => rfl
  | invalid b => exact absurd (h _ mem) Bool.false_ne_true

theorem plain_of_not_quoted {s : GoString} (h : ¬quoted s) :
    ∀ r ∈ s.runes, r ≠ quote ∧ isBlank r = false := by
  intro r mem
  simp only [quoted, GoString.anyRune, Bool.or_eq_true, any_eq_true, not_or, not_exists,
    not_and] at h
  have other := h.2 r mem
  cases r with
  | rune c => simp_all [GoRune.satisfies, quote, isBlank]
  | invalid b => simp [quote, isBlank]

theorem scan_argument {s : GoString} (h : s.valid) :
    ∃ k read, scan ((windowsQuoteArgument s).runes ++ t) false 0 none =
      scan t false k (some read) ∧ read ++ replicate k slash = s.runes := by
  rw [windowsQuoteArgument]
  split_ifs with own
  · refine ⟨0, s.runes, ?_, by simp⟩
    rw [cons_append, scan, if_neg (by decide), if_pos rfl, if_pos rfl, Bool.not_false,
      scan_quoteLoop, runes_character h]
    rfl
  · obtain ⟨_ | ⟨r, a⟩⟩ := s
    · exact absurd rfl own
    · have plain := plain_of_not_quoted own
      obtain ⟨k, read, eq, same⟩ := scan_plain (t := t) (n := 0) (c := []) plain
      refine ⟨k, read, ?_, by simpa using same⟩
      obtain ⟨noQuote, noBlank⟩ := plain r (mem_cons_self ..)
      rw [← eq]
      simp [scan, noQuote, noBlank]

/-- The blanks and arguments after the first. -/
def following (argv : List GoString) : List GoRune :=
  argv.flatMap fun s => .rune ' ' :: (windowsQuoteArgument s).runes

theorem scan_following {argv : List GoString} (h : ∀ s ∈ argv, s.valid)
    (current : Option (List GoRune)) : scan (following argv) false n current =
      (current.map (· ++ replicate n slash)).toList ++ argv.map GoString.runes := by
  induction argv generalizing n current with
  | nil => simp [following, scan]
  | cons s argv ih =>
    obtain ⟨own, h⟩ := forall_mem_cons.mp h
    obtain ⟨k, read, eq, same⟩ := scan_argument (t := following argv) own
    change scan (.rune ' ' :: ((windowsQuoteArgument s).runes ++ following argv)) .. = _
    rw [scan, if_neg (by decide), if_neg (by decide), if_pos (by decide), eq, ih h, Option.map_some,
      same]
    rfl

/-- The program name between quotes: the backslashes at its end are there twice. -/
theorem quoteLoop_eq (noQuote : quote ∉ a) :
    ∃ k, quoteLoop a n = replicate n slash ++ a ++ replicate k slash ++ [quote] ∧
      (k = 0 ↔ (replicate n slash ++ a).getLast? ≠ some slash) := by
  induction a generalizing n with
  | nil =>
    refine ⟨n, ?_, ?_⟩
    · simp [quoteLoop, Nat.mul_two]
    · cases n <;> simp [getLast?_replicate]
  | cons r a ih =>
    rw [mem_cons, not_or] at noQuote
    rw [quoteLoop, if_neg (Ne.symm noQuote.1)]
    split_ifs with isSlash
    · obtain ⟨k, eq, last⟩ := ih (n := n + 1) noQuote.2
      have move : replicate (n + 1) slash ++ a = replicate n slash ++ r :: a := by
        simp [replicate_succ', isSlash]
      exact ⟨k, move ▸ eq, move ▸ last⟩
    · obtain ⟨k, eq, last⟩ := ih (n := 0) noQuote.2
      refine ⟨k, by simp [eq], last.trans ?_⟩
      cases own : a.getLast? <;> simp [getLast?_append, getLast?_cons, own, isSlash]

theorem join_eq (s : GoString) (argv : List GoString) :
    join ((s :: argv).map windowsQuoteArgument) =
      (windowsQuoteArgument s).runes ++ following argv := by
  induction argv generalizing s with
  | nil => simp [join, following]
  | cons t argv ih =>
    rw [map_cons, map_cons, join, ← map_cons, ih]
    · simp [following]
    · simp

theorem programName_append {p : GoRune → Bool} (own : ∀ r ∈ a, p r)
    (stop : ∀ r ∈ t.head?, p r = false) :
    programName p (a ++ t) = a :: scan t.tail false 0 none := by
  rw [programName, takeWhile_append_of_pos own, dropWhile_append_of_pos own]
  cases t with
  | nil => simp
  | cons r t => simp [stop r rfl]

theorem commandLineToArgvW_quoted (own : quote ∉ a) :
    commandLineToArgvW (quote :: (a ++ quote :: t)) = a :: scan t false 0 none := by
  rw [commandLineToArgvW, head?_cons, if_pos rfl, tail_cons, programName_append]
  · rfl
  · exact fun r mem => decide_eq_true (ne_of_mem_of_not_mem mem own)
  · simp

theorem commandLineToArgvW_plain (plain : ∀ r ∈ a, r ≠ quote ∧ isBlank r = false)
    (argv : List GoString) : commandLineToArgvW (a ++ following argv) =
      a :: scan (following argv) false 0 none := by
  rw [commandLineToArgvW, if_neg, programName_append]
  · cases argv <;> rfl
  · simpa using fun r mem => (plain r mem).2
  · cases argv <;> simp [following, isBlank]
  · cases a <;> cases argv <;> simp_all [following, quote]

/-- **The process has the vector if and only if the first element is not both quoted and a backslash
at its end.** -/
theorem commandLineToArgvW_iff {first : GoString} {others : List GoString} {line : GoString}
    (accepted : windowsEncodeArgv (first :: others) = some line)
    (noQuote : first.anyRune (· = '"') = false) :
    commandLineToArgvW line.runes = (first :: others).map GoString.runes ↔
      ¬(quoted first = true ∧ first.runes.getLast? = some slash) := by
  rw [windowsEncodeArgv, Option.ite_none_left_eq_some, Option.ite_none_right_eq_some,
    Option.some.injEq] at accepted
  obtain ⟨-, ok, rfl⟩ := accepted
  have valid : ∀ s ∈ first :: others, s.valid = true := by
    intro s mem
    have own := all_eq_true.mp ok s mem
    simp only [validWindowsCommandArgument, Bool.and_eq_true] at own
    exact own.1.2
  obtain ⟨own, valid⟩ := forall_mem_cons.mp valid
  have arguments : scan (following others) false 0 none = others.map GoString.runes :=
    scan_following valid none
  rw [join_eq, windowsQuoteArgument, map_cons, ← arguments]
  split_ifs with isQuoted
  · have noQuote : quote ∉ first.runes := fun mem => by
      simpa [quote, GoRune.satisfies] using any_eq_false.mp noQuote _ mem
    obtain ⟨k, eq, last⟩ := quoteLoop_eq (n := 0) noQuote
    rw [runes_character own, eq, cons_append, append_assoc, singleton_append,
      commandLineToArgvW_quoted (by simpa [slash, quote] using noQuote)]
    simpa [isQuoted] using last
  · rw [commandLineToArgvW_plain (plain_of_not_quoted isQuoted)]
    simp [isQuoted]

/-- A program and an argument with all the special characters. -/
theorem commandLineToArgvW_iff_back :
    ∃ line, windowsEncodeArgv [go "a b", go "c \\\"d\\"] = some line ∧
      commandLineToArgvW line.runes = [go "a b", go "c \\\"d\\"].map GoString.runes :=
  ⟨_, rfl, (commandLineToArgvW_iff rfl (by decide)).mpr (by decide)⟩

/-- A program name with a blank that ends in a backslash has two backslashes in the process. -/
theorem commandLineToArgvW_doubled :
    ∃ line, windowsEncodeArgv [go "a b\\"] = some line ∧
      commandLineToArgvW line.runes = [(go "a b\\\\").runes] :=
  ⟨_, rfl, by decide⟩

end AutoAgent.WindowsArgv
