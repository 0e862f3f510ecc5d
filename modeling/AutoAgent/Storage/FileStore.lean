import AutoAgent.Storage.SessionStore
import Mathlib.Data.List.DropRight

/-!
# The file session store

A session is a file: a header line, then one line for each event.  `AppendEvents` loads
the file, checks the version and writes the new lines at its end.  A crash may leave any
number of the new bytes in the file.

**The header.**  What the header line says is left open: `readHeader` is any function
from the line to the id of the session, which fails if the header cannot be decoded or
`NewSession` refuses it.

**Crashes.**  The reader takes every line for an event and has no way to tell a torn
line from corruption.  It accepts what a crash left exactly if the crash came between
two lines, or between a line and its newline (`crash_clean_iff`).  In the second case
the file no longer ends with a newline; the next append then writes its first line
behind the last one, and nothing of it can be read.
-/

namespace AutoAgent.Storage

open List Json StoredEvent

/-! ## Reading -/

/-- The lines of a file, as the scanner yields them: what follows the last newline is a
line only if there is something.  A carriage return at the end of a line, which the
scanner drops, is white space to the readers. -/
def scanLines (bytes : List UInt8) : List (List UInt8) :=
  let lines := bytes.splitOn 10
  if lines.getLast? = some [] then lines.dropLast else lines

/-- The buffer of the scanner. -/
def maxTokenBytes : ℕ := maxSessionEventDataBytes + 2 ^ 20

/-- White space, as far as it is ASCII. -/
def isASCIISpace (b : UInt8) : Bool := b == 32 || (9 ≤ b && b ≤ 13)

def trimSpace (line : List UInt8) : List UInt8 :=
  (line.dropWhile isASCIISpace).rdropWhile isASCIISpace

inductive FileError where
  /-- the errors it shares with the other stores -/
  | store (cause : SessionStoreError)
  /-- `ErrSessionNotFound` -/
  | notFound
  /-- `session … file is truncated` -/
  | truncated
  /-- `decode session … header: …` -/
  | header
  /-- `decode session … event: …`, and lines the scanner cannot hold -/
  | line (cause : LineError)
  /-- the error of `RestoreSession` -/
  | restore (cause : LoadError)
  /-- `session file exceeds maximum of … bytes` -/
  | fileTooLarge

variable {τ : Type} (times : TimeFormat τ) (readHeader : List UInt8 → Option GoString)

/-- One line of events; a blank one is skipped. -/
def readFileLine (line : List UInt8) : Except LineError (Option (StoredEvent τ)) :=
  if maxTokenBytes ≤ line.length then .error .tooLong
  else if trimSpace line = [] then .ok none
  else
    match decodeLine times (trimSpace line) with
    | none => .error .decode
    | some e => .ok (some e)

/-- The loop of `loadLocked` over the lines after the header. -/
def readFileLines (lines : List (List UInt8)) : Except LineError (List (StoredEvent τ)) :=
  (lines.mapM (readFileLine times)).map (·.filterMap id)

/-- `loadLocked` on the contents of the file. -/
def loadLocked (file : List UInt8) : Except FileError (Loaded τ) :=
  match scanLines file with
  | [] => .error .truncated
  | header :: lines =>
    if maxTokenBytes ≤ header.length then .error .truncated
    else
      match readHeader header with
      | none => .error .header
      | some id => do
          let events ← (readFileLines times lines).mapError .line
          (restoreSession id events).mapError .restore

/-! ## Writing -/

def maxFileSessionBytes : ℕ := 64 * 2 ^ 20

def validateSessionIDForFile (id : GoString) : Except StoreError Unit := do
  validateSessionID id
  require (!id.anyRune fun c => c == '/' || c == '\\') (.invalidSessionID id)

/-- The lines of all events, without a limit. -/
def eventLines : List (StoredEvent τ) → Except SessionStoreError (List UInt8)
  | [] => .ok []
  | e :: es =>
    match e.marshal times with
    | none => .error .marshal
    | some d => do
        let rest ← eventLines es
        return lineBytes d ++ rest

variable (fileCap : ℕ)

/-- The contents `Create` writes; `fileCap` is the limit of the store. -/
def createFile (id : GoString) (header : Doc) (events : List (StoredEvent τ)) :
    Except FileError (List UInt8) := do
  (validateSessionIDForFile id).mapError fun e => .store (.sessionID e)
  require header.wellFormed (.store .marshal)
  let lines ← (eventLines times events).mapError .store
  let file := lineBytes header ++ lines
  require (file.length ≤ fileCap) .fileTooLarge
  return file

/-- The bytes `AppendEvents` is about to write at the end of the file.  It writes the evidence of
the session before them; when that fails, no byte is written. -/
def appendBytes (id : GoString) (expectedVersion : ℤ) (events : List (StoredEvent τ))
    (file : List UInt8) : Except FileError (List UInt8) := do
  (validateAppendEvents expectedVersion events).mapError .store
  (validateSessionIDForFile id).mapError fun e => .store (.sessionID e)
  let loaded ← loadLocked times readHeader file
  require ((loaded.events.length : ℤ) = expectedVersion) (.store .conflict)
  let extra ← (chunkPayload times events).mapError .store
  require (file.length + extra.length ≤ fileCap) .fileTooLarge
  return extra

/-! ## Runs with crashes -/

/-- A step of a run: the session is created, or events are appended and so many of their
bytes reach the file. -/
inductive FileStep (τ : Type) where
  | create (id : GoString) (header : Doc) (events : List (StoredEvent τ))
  | append (id : GoString) (expectedVersion : ℤ) (events : List (StoredEvent τ)) (written : ℕ)

/-- What a step leaves of the file. -/
def FileStep.run (file : Option (List UInt8)) : FileStep τ → Option (List UInt8)
  | .create id header events =>
    match file, createFile times fileCap id header events with
    | none, .ok bytes => some bytes
    | _, _ => file
  | .append id expectedVersion events written =>
    match file with
    | none => none
    | some bytes =>
      match appendBytes times readHeader fileCap id expectedVersion events bytes with
      | .error _ => some bytes
      | .ok extra => some (bytes ++ extra.take written)

/-- The file of one session. -/
def fileSystem : System (Option (List UInt8)) (FileStep τ) where
  init file := file = none
  step file l file' := file' = l.run times readHeader fileCap file

/-! ## Lines of a file -/

theorem scanLines_nil : scanLines [] = [] := rfl

variable {lines : List (List UInt8)}

/-- Only the last line may be no line. -/
theorem scanLines_of_splitOn {bytes x : List UInt8}
    (shape : bytes.splitOn 10 = lines ++ x.splitOn 10) :
    scanLines bytes = lines ++ scanLines x := by
  have more : x.splitOn 10 ≠ [] := splitOnP_ne_nil _ _
  unfold scanLines
  dsimp only
  rw [shape, getLast?_append_of_ne_nil _ more, dropLast_append_of_ne_nil more]
  split_ifs <;> rfl

/-- A newline separates the lines before it from the lines after it. -/
theorem scanLines_newline (g x : List UInt8) :
    scanLines (g ++ 10 :: x) = g.splitOn 10 ++ scanLines x :=
  scanLines_of_splitOn (splitOn_append_cons_self g x)

/-- A text without a newline is one line. -/
theorem scanLines_line {line : List UInt8} (oneLine : 10 ∉ line) (nonempty : line ≠ []) :
    scanLines line = [line] := by
  rw [scanLines, splitOn_eq_singleton oneLine]
  simp [nonempty]

/-- What is written after a newline is lines of its own. -/
theorem scanLines_append_of_newline {f : List UInt8} (ended : f.getLast? = some 10)
    (x : List UInt8) : scanLines (f ++ x) = scanLines f ++ scanLines x := by
  obtain ⟨g, rfl⟩ : ∃ g, f = g ++ [10] := ⟨f.dropLast, (dropLast_append_getLast? 10 ended).symm⟩
  rw [append_assoc, singleton_append, scanLines_newline, scanLines_newline,
    scanLines_nil, append_nil]

/-- What is written behind a line that has no newline becomes a part of it. -/
theorem scanLines_append_of_line {line x : List UInt8} {b : UInt8} (oneLine : 10 ∉ line)
    (visible : b ≠ 10) :
    ∃ y lines, scanLines (line ++ b :: x) = (line ++ b :: y) :: lines := by
  by_cases whole : 10 ∈ x
  · obtain ⟨y, z, rfl, first⟩ := eq_append_cons_of_mem whole
    refine ⟨y, scanLines z, ?_⟩
    have oneLine' : 10 ∉ line ++ b :: y := by
      simp only [mem_append, mem_cons, not_or]
      exact ⟨oneLine, Ne.symm visible, first⟩
    have shape : line ++ b :: (y ++ 10 :: z) = (line ++ b :: y) ++ 10 :: z := by simp
    rw [shape, scanLines_newline, splitOn_eq_singleton oneLine']
    rfl
  · refine ⟨x, [], scanLines_line ?_ (by simp)⟩
    simp only [mem_append, mem_cons, not_or]
    exact ⟨oneLine, Ne.symm visible, whole⟩

variable {docs : List Doc}

theorem scanLines_batchBytes (h : ∀ d ∈ docs, d.wellFormed)
    (x : List UInt8) : scanLines (batchBytes docs ++ x) = docs.map Json.text ++ scanLines x :=
  scanLines_of_splitOn (splitOn_batchBytes h x)

/-! ## Where a write stops -/

/-- The first `k` bytes of the lines end with a line, which may lack its newline: it is
line number `j`. -/
def EndsLine (docs : List Doc) (k j : ℕ) : Prop :=
  j ≤ docs.length ∧
    (k = (batchBytes (docs.take j)).length ∨ k + 1 = (batchBytes (docs.take j)).length)

theorem batchBytes_append (docs docs' : List Doc) :
    batchBytes (docs ++ docs') = batchBytes docs ++ batchBytes docs' := by
  simp [batchBytes]

theorem batchBytes_singleton (d : Doc) : batchBytes [d] = d.text ++ [10] := by
  simp [batchBytes, lineBytes]

/-- The bytes of a write that stops at the end of a line. -/
theorem take_of_endsLine {k j : ℕ} (ends : EndsLine docs k j) :
    (batchBytes docs).take k = batchBytes (docs.take j) ∨
    ∃ front d, docs.take j = front ++ [d] ∧
      (batchBytes docs).take k = batchBytes front ++ d.text := by
  have whole : batchBytes docs = batchBytes (docs.take j) ++ batchBytes (docs.drop j) := by
    rw [← batchBytes_append, take_append_drop]
  obtain ⟨-, position | position⟩ := ends
  · left
    rw [whole, position, take_left]
  · -- the last line is complete but for its newline
    rcases eq_nil_or_concat (docs.take j) with nothing | ⟨front, d, shape⟩
    · rw [nothing] at position
      cases position
    · rw [concat_eq_append] at shape
      refine .inr ⟨front, d, shape, ?_⟩
      have bytes : batchBytes docs =
          (batchBytes front ++ d.text) ++ (10 :: batchBytes (docs.drop j)) := by
        rw [whole, shape, batchBytes_append, batchBytes_singleton]
        simp
      have cut : k = (batchBytes front ++ d.text).length := by
        rw [shape, batchBytes_append, batchBytes_singleton] at position
        simp only [length_append, length_singleton] at position ⊢
        omega
      rw [bytes, cut, take_left]

/-- The lines of a write that stops at the end of a line. -/
theorem scanLines_of_endsLine (h : ∀ d ∈ docs, d.wellFormed) {k j : ℕ} (ends : EndsLine docs k j) :
    scanLines ((batchBytes docs).take k) = (docs.take j).map Json.text := by
  have formed : ∀ d ∈ docs.take j, d.wellFormed :=
    fun d mem => h d (mem_of_mem_take mem)
  rcases take_of_endsLine ends with bytes | ⟨front, d, shape, bytes⟩
  · have lines := scanLines_batchBytes formed []
    rw [append_nil, scanLines_nil, append_nil] at lines
    rw [bytes, lines]
  · rw [shape] at formed ⊢
    have text := formed d (by simp)
    have nonempty : d.text ≠ [] := by
      obtain ⟨b, t, start, -⟩ := exists_cons_text text
      simp [start]
    rw [bytes, scanLines_batchBytes fun d mem => formed d (mem_append_left _ mem),
      scanLines_line (newline_notMem_text text) nonempty, map_append]
    rfl

/-- A write stops at the end of a line, or it leaves a torn one. -/
theorem endsLine_or_torn (h : ∀ d ∈ docs, d.wellFormed) {k : ℕ}
    (bound : k ≤ (batchBytes docs).length) :
    (∃ j, EndsLine docs k j) ∨ ∃ lines p q, ∃ d ∈ docs,
      scanLines ((batchBytes docs).take k) = lines ++ [p] ∧ d.text = p ++ q ∧ p ≠ [] ∧ q ≠ [] := by
  induction docs using List.reverseRecOn with
  | nil => exact .inl ⟨0, Nat.zero_le _, .inl (by simpa [batchBytes] using bound)⟩
  | append_singleton docs d ih =>
    have text := h d (by simp)
    have formed : ∀ d ∈ docs, d.wellFormed := fun d mem => h d (mem_append_left _ mem)
    have shape : batchBytes (docs ++ [d]) = batchBytes docs ++ (d.text ++ [10]) := by
      rw [batchBytes_append, batchBytes_singleton]
    by_cases before : k ≤ (batchBytes docs).length
    · rw [shape, take_append_of_le_length before]
      rcases ih formed before with ⟨j, among, position⟩ | ⟨lines, p, q, d', mem, parts⟩
      · refine .inl ⟨j, by rw [length_append]; omega, ?_⟩
        rwa [take_append_of_le_length among]
      · exact .inr ⟨lines, p, q, d', mem_append_left _ mem, parts⟩
    obtain ⟨i, rfl⟩ := Nat.exists_eq_add_of_lt (Nat.lt_of_not_le before)
    by_cases torn : i + 1 < d.text.length
    · have left : d.text.take (i + 1) ≠ [] := by
        rw [← length_pos_iff, length_take]
        omega
      refine .inr ⟨docs.map Json.text, _, _, d, by simp, ?_,
        (take_append_drop (i + 1) _).symm, left, by simpa using torn⟩
      rw [shape, add_assoc, take_length_add_append, take_append_of_le_length torn.le,
        scanLines_batchBytes formed, scanLines_line (fun mem => ?_) left]
      exact newline_notMem_text text (mem_of_mem_take mem)
    · -- the last line is complete, with or without its newline
      refine .inl ⟨docs.length + 1, by simp, ?_⟩
      rw [take_of_length_le (by simp)]
      rw [shape] at bound ⊢
      simp only [length_append, length_singleton] at bound ⊢
      omega

/-! ## Lines of events -/

variable {times readHeader} {e : StoredEvent τ} {d : Doc}

/-- Trimming an end stops at the last byte that is not white space. -/
theorem rdropWhile_kept {p : UInt8 → Bool} {b : UInt8} (kept : p b = false) (a y : List UInt8) :
    ∃ r s, (a ++ b :: y).rdropWhile p = a ++ b :: r ∧ y = r ++ s := by
  induction y using List.reverseRecOn with
  | nil => exact ⟨[], [], rdropWhile_concat_neg _ _ _ (by simp [kept]), rfl⟩
  | append_singleton y c ih =>
    have shape : a ++ b :: (y ++ [c]) = (a ++ b :: y) ++ [c] := by simp
    rw [shape, rdropWhile_concat]
    split_ifs
    · obtain ⟨r, s, trimmed, rfl⟩ := ih
      exact ⟨r, s ++ [c], trimmed, by simp⟩
    · exact ⟨y ++ [c], [], by simp, by simp⟩

/-- A line that starts with a brace loses no more than an end when it is trimmed, and
nothing before another brace. -/
theorem trimSpace_of_brace {a y : List UInt8} (start : (a ++ 123 :: y).head? = some 123) :
    ∃ r s, trimSpace (a ++ 123 :: y) = a ++ 123 :: r ∧ y = r ++ s := by
  have kept : (a ++ 123 :: y).dropWhile isASCIISpace = a ++ 123 :: y := by
    cases shape : a ++ 123 :: y with
    | nil => rfl
    | cons b t =>
      rw [shape, head?_cons, some.injEq] at start
      rw [dropWhile_cons, start, if_neg (by decide)]
  rw [trimSpace, kept]
  exact rdropWhile_kept (by decide) a y

theorem trimSpace_of_marshal (written : e.marshal times = some d) : trimSpace d.text = d.text := by
  obtain ⟨members, -, text⟩ := exists_brace_of_marshal written
  have kept : d.text.dropWhile isASCIISpace = d.text := by
    rw [text, dropWhile_cons, if_neg (by decide)]
  have last : d.text = (123 :: membersText members) ++ [125] := text
  rw [trimSpace, kept, last, rdropWhile_concat_neg _ _ _ (by decide)]

/-- The line of an event is read back unless it is nested too deeply. -/
theorem readFileLine_of_marshal (written : e.marshal times = some d)
    (fits : d.text.length < maxTokenBytes) :
    readFileLine times d.text =
      if e.readable times then .ok (some e.reread) else .error .decode := by
  obtain ⟨members, -, text⟩ := exists_brace_of_marshal written
  have nonempty : d.text ≠ [] := by simp [text]
  rw [readFileLine, if_neg (Nat.not_le.mpr fits), trimSpace_of_marshal written, if_neg nonempty,
    decodeLine, parse_of_marshal written]
  split_ifs
  · rw [bind_some, unmarshal_of_marshal written]
  · rfl

/-- A line that is not JSON, however it is trimmed, is refused. -/
theorem readFileLine_of_brace {a y : List UInt8} (start : (a ++ 123 :: y).head? = some 123)
    (refused : ∀ r s, y = r ++ s → parse (a ++ 123 :: r) = none)
    (read : Option (StoredEvent τ)) : readFileLine times (a ++ 123 :: y) ≠ .ok read := by
  obtain ⟨r, s, trimmed, parts⟩ := trimSpace_of_brace start
  rw [readFileLine, trimmed, decodeLine, refused r s parts]
  split_ifs with long blank
  · rintro ⟨⟩
  · simp at blank
  · rintro ⟨⟩

/-- A torn line is refused. -/
theorem readFileLine_of_torn (written : e.marshal times = some d) {p q : List UInt8}
    (torn : d.text = p ++ q) (left : p ≠ []) (missing : q ≠ []) (read : Option (StoredEvent τ)) :
    readFileLine times p ≠ .ok read := by
  have wellFormed := wellFormed_of_marshal written
  obtain ⟨members, rfl, text⟩ := exists_brace_of_marshal written
  obtain ⟨b, t, rfl⟩ := exists_cons_of_ne_nil left
  obtain rfl : b = 123 := by
    rw [text, cons_append, List.cons.injEq] at torn
    exact torn.1.symm
  refine readFileLine_of_brace (a := []) rfl (fun r s parts => ?_) read
  refine parse_of_cut wellFormed (q := s ++ q) ?_ (by simp [missing])
  rw [torn, parts]
  simp

/-- Two lines that were run together are refused. -/
theorem readFileLine_of_joined (written : e.marshal times = some d) (y : List UInt8)
    (read : Option (StoredEvent τ)) : readFileLine times (d.text ++ 123 :: y) ≠ .ok read := by
  have wellFormed := wellFormed_of_marshal written
  obtain ⟨members, -, text⟩ := exists_brace_of_marshal written
  refine readFileLine_of_brace (by simp [text]) (fun r _ _ => ?_) read
  exact parse_of_joined wellFormed (by decide) (by decide) r

/-! ## Loading -/

theorem readFileLines_append (a b : List (List UInt8)) {events : List (StoredEvent τ)} :
    readFileLines times (a ++ b) = .ok events ↔
      ∃ first second, readFileLines times a = .ok first ∧ readFileLines times b = .ok second ∧
        events = first ++ second := by
  have mapped : ∀ {lines} {events : List (StoredEvent τ)}, readFileLines times lines = .ok events ↔
      ∃ read, lines.mapM (readFileLine times) = .ok read ∧ read.filterMap id = events :=
    map_eq_ok
  simp only [mapped, mapM_append, bind_eq_ok, pure_eq_ok]
  constructor
  · rintro ⟨_, ⟨first, readFirst, second, readSecond, rfl⟩, rfl⟩
    exact ⟨_, _, ⟨first, readFirst, rfl⟩, ⟨second, readSecond, rfl⟩, filterMap_append ..⟩
  · rintro ⟨_, _, ⟨first, readFirst, rfl⟩, ⟨second, readSecond, rfl⟩, rfl⟩
    exact ⟨first ++ second, ⟨first, readFirst, second, readSecond, rfl⟩, filterMap_append ..⟩

/-- A line that is refused makes the file unreadable. -/
theorem readFileLines_of_refused {line : List UInt8}
    (mem : line ∈ lines) (refused : ∀ read, readFileLine times line ≠ .ok read)
    (events : List (StoredEvent τ)) : readFileLines times lines ≠ .ok events := by
  intro h
  obtain ⟨read, all, -⟩ := map_eq_ok.mp h
  obtain ⟨i, bound, rfl⟩ := getElem_of_mem mem
  have each := mapM_eq_ok.mp all
  have bound' : i < read.length := each.length_eq ▸ bound
  exact refused _ (each.get bound bound')

/-- The lines of events are read back. -/
theorem readFileLines_of_marshalled {es : List (StoredEvent τ)}
    (written : Marshalled times es docs) (fits : ∀ d ∈ docs, d.text.length < maxTokenBytes)
    {events : List (StoredEvent τ)} :
    readFileLines times (docs.map Json.text) = .ok events ↔
      es.all (·.readable times) ∧ events = es.map (·.reread) := by
  rw [readFileLines, written.mapM_eq fun d mem _ own => readFileLine_of_marshal own (fits d mem)]
  split_ifs with readable
  · simp [readable, Except.map, filterMap_map, eq_comm]
  · simp [readable, Except.map]

theorem loadLocked_eq_ok {f : List UInt8} {loaded : Loaded τ} :
    loadLocked times readHeader f = .ok loaded ↔
      ∃ header lines id, scanLines f = header :: lines ∧ header.length < maxTokenBytes ∧
        readHeader header = some id ∧ readFileLines times lines = .ok loaded.events ∧
          Session.restore id (loaded.events.map (·.event)) = .ok loaded.session := by
  unfold loadLocked
  cases scanned : scanLines f with
  | nil => simp
  | cons header lines =>
    dsimp only
    by_cases long : maxTokenBytes ≤ header.length
    · rw [if_pos long]
      refine ⟨nofun, ?_⟩
      rintro ⟨_, _, _, ⟨⟩, fits, -⟩
      omega
    · rw [if_neg long]
      cases read : readHeader header with
      | none =>
        refine ⟨nofun, ?_⟩
        rintro ⟨_, _, _, ⟨⟩, -, found, -⟩
        rw [read] at found
        cases found
      | some id =>
        simp only [bind_eq_ok, mapError_eq_ok, restoreSession_eq_ok]
        constructor
        · rintro ⟨events, lined, rfl, restored⟩
          exact ⟨header, lines, id, rfl, Nat.lt_of_not_le long, read, lined, restored⟩
        · rintro ⟨_, _, _, ⟨⟩, -, found, lined, restored⟩
          obtain rfl : id = _ := some.inj (read.symm.trans found)
          exact ⟨_, lined, rfl, restored⟩

/-- A file with a line of events that is refused cannot be loaded. -/
theorem loadLocked_of_refused {f header line : List UInt8}
    (scanned : scanLines f = header :: lines) (mem : line ∈ lines)
    (refused : ∀ read, readFileLine times line ≠ .ok read) (loaded : Loaded τ) :
    loadLocked times readHeader f ≠ .ok loaded := by
  intro h
  obtain ⟨_, _, _, shape, -, -, read, -⟩ := loadLocked_eq_ok.mp h
  rw [scanned] at shape
  cases shape
  exact readFileLines_of_refused mem refused _ read

/-- The lines before a newline. -/
theorem exists_header {g : List UInt8} (ended : g.getLast? = some 10) :
    ∃ header lines, scanLines g = header :: lines := by
  obtain ⟨g, rfl⟩ : ∃ front, g = front ++ [10] :=
    ⟨g.dropLast, (dropLast_append_getLast? 10 ended).symm⟩
  have lines : g.splitOn 10 ≠ [] := splitOnP_ne_nil _ _
  rw [scanLines_newline, scanLines_nil, append_nil]
  exact exists_cons_of_ne_nil lines

/-! ## Crashes -/

variable {es : List (StoredEvent τ)} {docs : List Doc} {f extra : List UInt8} {old : Loaded τ}
  {k : ℕ}

theorem appendBytes_eq_ok {fileCap : ℕ} {id : GoString} {expected : ℤ}
    (h : appendBytes times readHeader fileCap id expected es f = .ok extra) :
    (∃ loaded, loadLocked times readHeader f = .ok loaded) ∧
      ∃ docs, Marshalled times es docs ∧ extra = batchBytes docs ∧
        ∀ d ∈ docs, d.text.length < maxTokenBytes := by
  simp only [appendBytes, bind_eq_ok, mapError_eq_ok, pure_eq_ok] at h
  obtain ⟨-, -, -, -, loaded, loads, -, -, payload, written, -, -, rfl⟩ := h
  obtain ⟨docs, marshalled, bytes, bound⟩ := appendLines_eq_ok written
  subst bytes
  refine ⟨⟨loaded, loads⟩, docs, marshalled, rfl, fun d mem => ?_⟩
  have nonempty : es ≠ [] := by
    rintro rfl
    cases marshalled
    cases mem
  have limit : maxEventChunkBytes < maxTokenBytes := by decide
  exact lt_of_le_of_lt (length_le_batchBytes mem) (lt_of_le_of_lt (bound nonempty) limit)

/-- A write that starts a line behind an unfinished one leaves nothing to be loaded. -/
theorem loadLocked_of_joined {g x : List UInt8} {e : StoredEvent τ} {d : Doc}
    (ended : g.getLast? = some 10) (written : e.marshal times = some d) (loaded : Loaded τ) :
    loadLocked times readHeader (g ++ d.text ++ 123 :: x) ≠ .ok loaded := by
  obtain ⟨header, lines, front⟩ := exists_header ended
  obtain ⟨y, rest, back⟩ := scanLines_append_of_line (x := x) (b := 123)
    (newline_notMem_text (wellFormed_of_marshal written)) (by decide)
  have scanned : scanLines (g ++ d.text ++ 123 :: x) =
      header :: (lines ++ (d.text ++ 123 :: y) :: rest) := by
    rw [append_assoc, scanLines_append_of_newline ended, front, back]
    rfl
  exact loadLocked_of_refused scanned (mem_append_right _ (mem_cons_self ..))
    (readFileLine_of_joined written y) loaded

theorem Marshalled.take (h : Marshalled times es docs) (j : ℕ) :
    Marshalled times (es.take j) (docs.take j) :=
  forall₂_take j h

/-- A write stops at the end of a line, or it leaves nothing to be loaded. -/
theorem endsLine_or_refused (marshalled : Marshalled times es docs) (ended : f.getLast? = some 10)
    (bound : k ≤ (batchBytes docs).length) : (∃ j, EndsLine docs k j) ∨
      ∀ loaded, loadLocked times readHeader (f ++ (batchBytes docs).take k) ≠ .ok loaded := by
  refine (endsLine_or_torn marshalled.wellFormed bound).imp_right ?_
  rintro ⟨lines, p, q, d, mem, scanned, torn, left, missing⟩ loaded
  obtain ⟨header, front, shape⟩ := exists_header ended
  obtain ⟨e, written⟩ := marshalled.exists_of_mem mem
  have all : scanLines (f ++ (batchBytes docs).take k) = header :: (front ++ (lines ++ [p])) := by
    rw [scanLines_append_of_newline ended, shape, scanned]
    rfl
  exact loadLocked_of_refused all (by simp) (readFileLine_of_torn written torn left missing) loaded

variable (times readHeader) in
/-- What a run leaves of a file: it cannot be loaded, it ends with a newline, or its last
line has none. -/
def FileShape (f : List UInt8) : Prop :=
  (∀ loaded, loadLocked times readHeader f ≠ .ok loaded) ∨ f.getLast? = some 10 ∨
    ∃ g, ∃ e : StoredEvent τ, ∃ d, f = g ++ d.text ∧ g.getLast? = some 10 ∧ e.marshal times = some d

theorem getLast?_batchBytes {d : Doc} (f : List UInt8) (docs : List Doc) :
    (f ++ batchBytes (docs ++ [d])).getLast? = some 10 := by
  rw [batchBytes_append, batchBytes_singleton, ← append_assoc, ← append_assoc, getLast?_concat]

/-- A file that ends with a newline and gets complete lines ends with a newline. -/
theorem getLast?_append_batchBytes (ended : f.getLast? = some 10) (docs : List Doc) :
    (f ++ batchBytes docs).getLast? = some 10 := by
  rcases eq_nil_or_concat docs with rfl | ⟨front, d, rfl⟩
  · simpa [batchBytes] using ended
  · rw [concat_eq_append]
    exact getLast?_batchBytes f front

/-- A write starts with a brace. -/
theorem take_batchBytes (marshalled : Marshalled times es docs) (k : ℕ) :
    (batchBytes docs).take k = [] ∨ ∃ x, (batchBytes docs).take k = 123 :: x := by
  cases marshalled with
  | nil => exact .inl (by simp [batchBytes])
  | @cons e d es docs own _ =>
    obtain ⟨members, -, text⟩ := exists_brace_of_marshal own
    cases k with
    | zero => exact .inl rfl
    | succ k =>
      have start : batchBytes (d :: docs) =
          123 :: (membersText members ++ [125] ++ [10] ++ batchBytes docs) := by
        rw [batchBytes, flatMap_cons, lineBytes, text]
        rfl
      exact .inr ⟨_, by rw [start, take_succ_cons]⟩

/-- The shape of a file after a write that stops anywhere. -/
theorem fileShape_append (marshalled : Marshalled times es docs)
    (shape : FileShape times readHeader f) (loads : loadLocked times readHeader f = .ok old)
    (k : ℕ) : FileShape times readHeader (f ++ (batchBytes docs).take k) := by
  rcases shape with refused | ended | ⟨g, e, d, rfl, ended, written⟩
  · exact absurd loads (refused old)
  · obtain ⟨n, bound, same⟩ : ∃ n ≤ (batchBytes docs).length,
        (batchBytes docs).take k = (batchBytes docs).take n :=
      ⟨min k (batchBytes docs).length, Nat.min_le_right .., by simp⟩
    rw [same]
    rcases endsLine_or_refused marshalled ended bound with ⟨j, ends⟩ | refused
    · rcases take_of_endsLine ends with bytes | ⟨front, d, shape, bytes⟩
      · rw [bytes]
        exact .inr (.inl (getLast?_append_batchBytes ended _))
      · have mem : d ∈ docs := mem_of_mem_take (i := j) (by rw [shape]; simp)
        obtain ⟨e, written⟩ := marshalled.exists_of_mem mem
        refine .inr (.inr ⟨f ++ batchBytes front, e, d, ?_, ?_, written⟩)
        · rw [bytes, append_assoc]
        · exact getLast?_append_batchBytes ended front
    · exact .inl refused
  · rcases take_batchBytes marshalled k with nothing | ⟨x, start⟩
    · rw [nothing, append_nil]
      exact .inr (.inr ⟨g, e, d, rfl, ended, written⟩)
    · rw [start]
      exact .inl (loadLocked_of_joined ended written)

theorem eventLines_eq_ok {bytes : List UInt8} (h : eventLines times es = .ok bytes) :
    ∃ docs, Marshalled times es docs ∧ bytes = batchBytes docs := by
  induction es generalizing bytes with
  | nil =>
    cases h
    exact ⟨[], .nil, rfl⟩
  | cons e es ih =>
    rw [eventLines] at h
    cases written : e.marshal times with
    | none => simp [written] at h
    | some d =>
      simp only [written, bind_eq_ok, pure_eq_ok] at h
      obtain ⟨rest, tail, rfl⟩ := h
      obtain ⟨docs, marshalled, rfl⟩ := ih tail
      exact ⟨d :: docs, .cons written marshalled, rfl⟩

variable (times readHeader) in
theorem fileShape_invariant :
    (fileSystem times readHeader fileCap).Invariant
      fun file => ∀ f, file = some f → FileShape times readHeader f where
  init := by
    rintro _ rfl f ⟨⟩
  step := by
    rintro file l _ shape rfl f result
    cases l with
    | create id header events =>
      simp only [FileStep.run] at result
      split at result
      next bytes created =>
        cases result
        simp only [createFile, bind_eq_ok, mapError_eq_ok, pure_eq_ok] at created
        obtain ⟨-, -, -, -, lines, written, -, -, rfl⟩ := created
        obtain ⟨docs, -, rfl⟩ := eventLines_eq_ok written
        refine .inr (.inl (getLast?_append_batchBytes ?_ docs))
        rw [lineBytes, getLast?_concat]
      next => exact shape f result
    | append id expected events written =>
      simp only [FileStep.run] at result
      cases file with
      | none => cases result
      | some bytes =>
        dsimp only at result
        cases ran : appendBytes times readHeader fileCap id expected events bytes with
        | error e =>
          rw [ran] at result
          exact shape f result
        | ok extra =>
          rw [ran] at result
          cases result
          obtain ⟨⟨loaded, loads⟩, docs, marshalled, rfl, -⟩ := appendBytes_eq_ok ran
          exact fileShape_append marshalled (shape bytes rfl) loads written

/-! ## What a crash leaves -/

variable (readHeader) in
/-- The session of a file. -/
def fileID (f : List UInt8) : Option GoString := (scanLines f).head?.bind readHeader

variable (times readHeader) in
/-- The file can be loaded after the first `k` bytes of a write were added to it, and has
the events `old` had and some first ones of those that were written. -/
def Survives (f extra : List UInt8) (old : Loaded τ) (es : List (StoredEvent τ)) (k : ℕ) : Prop :=
  ∃ loaded j, loadLocked times readHeader (f ++ extra.take k) = .ok loaded ∧
    loaded.events = old.events ++ (es.take j).map (·.reread)

variable (times readHeader) in
/-- Nothing was written; or the file ended with a newline, the write stopped at the end of
a line, and the session accepts the events up to there. -/
def CrashClean (f : List UInt8) (old : Loaded τ) (es : List (StoredEvent τ)) (k : ℕ) : Prop :=
  k = 0 ∨ f.getLast? = some 10 ∧ ∃ j, EndsLine (es.filterMap (·.marshal times)) k j ∧
    (es.take j).all (·.readable times) ∧ ∃ id session, fileID readHeader f = some id ∧
      Session.restore id ((old.events ++ (es.take j).map (·.reread)).map (·.event)) = .ok session

theorem Marshalled.filterMap_eq (h : Marshalled times es docs) :
    es.filterMap (·.marshal times) = docs := by
  induction h with
  | nil => rfl
  | cons own _ ih => rw [filterMap_cons, own, ih]

/-- What is loaded after a write that stopped at the end of a line. -/
theorem loadLocked_of_endsLine (marshalled : Marshalled times es docs)
    (fits : ∀ d ∈ docs, d.text.length < maxTokenBytes) (ended : f.getLast? = some 10)
    (loads : loadLocked times readHeader f = .ok old) {j : ℕ} (ends : EndsLine docs k j)
    {loaded : Loaded τ} :
    loadLocked times readHeader (f ++ (batchBytes docs).take k) = .ok loaded ↔
      (es.take j).all (·.readable times) ∧
        loaded.events = old.events ++ (es.take j).map (·.reread) ∧
          ∃ id, fileID readHeader f = some id ∧
            Session.restore id (loaded.events.map (·.event)) = .ok loaded.session := by
  obtain ⟨header, lines, id, scanned, short, own, read, -⟩ := loadLocked_eq_ok.mp loads
  have identity : fileID readHeader f = some id := by
    rw [fileID, scanned]
    exact own
  have added : ∀ {events : List (StoredEvent τ)},
      readFileLines times ((docs.take j).map Json.text) = .ok events ↔
        (es.take j).all (·.readable times) ∧ events = (es.take j).map (·.reread) :=
    readFileLines_of_marshalled (marshalled.take j) fun d mem => fits d (mem_of_mem_take mem)
  have all : scanLines (f ++ (batchBytes docs).take k) =
      header :: (lines ++ (docs.take j).map Json.text) := by
    rw [scanLines_append_of_newline ended, scanned,
      scanLines_of_endsLine marshalled.wellFormed ends]
    rfl
  rw [loadLocked_eq_ok, all]
  constructor
  · rintro ⟨_, _, id', ⟨⟩, -, own', events, restored⟩
    obtain ⟨first, second, readFirst, readSecond, parts⟩ := (readFileLines_append _ _).mp events
    obtain rfl : old.events = first := Except.ok.inj (read.symm.trans readFirst)
    obtain ⟨readable, rfl⟩ := added.mp readSecond
    obtain rfl : id = id' := some.inj (own.symm.trans own')
    exact ⟨readable, parts, id, identity, restored⟩
  · rintro ⟨readable, parts, id', identity', restored⟩
    obtain rfl : id = id' := some.inj (identity.symm.trans identity')
    refine ⟨header, _, id, rfl, short, own, ?_, restored⟩
    exact (readFileLines_append _ _).mpr ⟨_, _, read, added.mpr ⟨readable, rfl⟩, parts⟩

/-- **What a crash leaves can be loaded exactly if the crash was clean.**  The file is one
that the store has written, over any number of appends and crashes. -/
theorem crash_clean_iff {fileCap : ℕ} {id : GoString} {expected : ℤ}
    (reach : (fileSystem times readHeader fileCap).Reachable (some f))
    (ran : appendBytes times readHeader fileCap id expected es f = .ok extra)
    (loads : loadLocked times readHeader f = .ok old) (bound : k ≤ extra.length) :
    Survives times readHeader f extra old es k ↔ CrashClean times readHeader f old es k := by
  obtain ⟨-, docs, marshalled, rfl, fits⟩ := appendBytes_eq_ok ran
  rw [CrashClean, marshalled.filterMap_eq]
  constructor
  · rintro ⟨loaded, i, after, -⟩
    by_cases nothing : k = 0
    · exact .inl nothing
    · refine .inr ?_
      rcases (fileShape_invariant times readHeader fileCap).holds reach f rfl with
        refused | ended | ⟨g, e, d, rfl, ended, written⟩
      · exact absurd loads (refused old)
      · rcases endsLine_or_refused marshalled ended bound with ⟨j, ends⟩ | refused
        · obtain ⟨readable, parts, own, identity, restored⟩ :=
            (loadLocked_of_endsLine marshalled fits ended loads ends).mp after
          rw [parts] at restored
          exact ⟨ended, j, ends, readable, own, loaded.session, identity, restored⟩
        · exact absurd after (refused loaded)
      · -- the first new line continues the last one
        rcases take_batchBytes marshalled k with empty | ⟨x, start⟩
        · rw [take_eq_nil_iff] at empty
          rcases empty with zero | empty
          · exact absurd zero nothing
          · rw [empty] at bound
            exact absurd (Nat.le_zero.mp bound) nothing
        · rw [start] at after
          exact absurd after (loadLocked_of_joined ended written loaded)
  · rintro (rfl | ⟨ended, j, ends, readable, own, session, identity, restored⟩)
    · refine ⟨old, 0, ?_, by simp⟩
      rw [take_zero, append_nil]
      exact loads
    · refine ⟨⟨session, old.events ++ (es.take j).map (·.reread)⟩, j, ?_, rfl⟩
      exact (loadLocked_of_endsLine marshalled fits ended loads ends).mpr
        ⟨readable, rfl, own, identity, restored⟩

/-- A file with a header and no events. -/
def exampleFile : List UInt8 := lineBytes (.obj [])

/-- Every header is that of one session. -/
def exampleHeader : List UInt8 → Option GoString := fun _ => some (go "s-1")

theorem reachable_exampleFile :
    (fileSystem exampleTimes exampleHeader maxFileSessionBytes).Reachable (some exampleFile) :=
  .step (l := .create (go "s-1") (.obj []) []) (.init rfl) rfl

/-- The bytes of a first event for the example file. -/
def exampleExtra : Except FileError (List UInt8) :=
  appendBytes exampleTimes exampleHeader maxFileSessionBytes (go "s-1") 0
    [exampleEvent 0 .userMessage] exampleFile

theorem crash_clean_iff_first_byte : ∃ extra old, exampleExtra = .ok extra ∧
    loadLocked exampleTimes exampleHeader exampleFile = .ok old ∧ 1 ≤ extra.length ∧
    (Survives exampleTimes exampleHeader exampleFile extra old [exampleEvent 0 .userMessage] 1 ↔
      CrashClean exampleTimes exampleHeader exampleFile old [exampleEvent 0 .userMessage] 1) := by
  have written : exampleExtra.toOption.any (fun extra => 1 ≤ extra.length) = true := by
    decide +kernel
  obtain ⟨extra, ran, long⟩ := (Option.any_eq_true _ _).mp written
  have loaded : (loadLocked exampleTimes exampleHeader exampleFile).toOption.isSome = true := by
    decide +kernel
  obtain ⟨old, loads⟩ := isSome_iff_exists.mp loaded
  have ran := toOption_eq_some.mp ran
  have loads := toOption_eq_some.mp loads
  have bound : 1 ≤ extra.length := of_decide_eq_true long
  exact ⟨extra, old, ran, loads, bound, crash_clean_iff reachable_exampleFile ran loads bound⟩

/-- One byte of the first event reaches the file, and the session is lost. -/
theorem crash_tears_line : ∃ extra, exampleExtra = .ok extra ∧
    (loadLocked exampleTimes exampleHeader exampleFile).isOk = true ∧
    (fileSystem exampleTimes exampleHeader maxFileSessionBytes).Reachable (some exampleFile) ∧
    ∀ loaded, loadLocked exampleTimes exampleHeader (exampleFile ++ extra.take 1) ≠ .ok loaded := by
  have written : exampleExtra.toOption.any (fun extra => extra.take 1 == [123]) = true := by
    decide +kernel
  obtain ⟨extra, ran, first⟩ := (Option.any_eq_true _ _).mp written
  refine ⟨extra, toOption_eq_some.mp ran, by decide +kernel, reachable_exampleFile, ?_⟩
  intro loaded h
  rw [beq_iff_eq.mp first] at h
  have refused : (loadLocked exampleTimes exampleHeader (exampleFile ++ [123])).isOk = false := by
    decide +kernel
  rw [h] at refused
  cases refused

end AutoAgent.Storage
