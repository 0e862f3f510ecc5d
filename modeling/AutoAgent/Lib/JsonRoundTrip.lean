import AutoAgent.Lib.JsonText

/-!
# Written documents

What the reader of `AutoAgent.Lib.JsonText` makes of the text of a document.  It is
read back, within the nesting depth (`parse_text`); a text that stops inside an object
is refused (`parse_of_cut`); and a text is one line (`newline_notMem_text`).
-/

namespace AutoAgent.Json

open List Reader

/-! ## Documents are read back -/

/-- A number literal that is not an integer literal. -/
def isFloatLiteral (literal : String) : Bool :=
  literal.toList.all (fun c => decide (c.toNat < 128) && scalarByte (UInt8.ofNat c.toNat)) &&
    match scalarDoc literal.toList with
    | some (.float _) => true
    | _ => false

mutual
/-- Every other number of the document is a number literal. -/
def wellFormed : Doc → Bool
  | .null | .bool _ | .int _ | .str _ => true
  | .float literal => isFloatLiteral literal
  | .arr items => wellFormedItems items
  | .obj members => wellFormedMembers members
def wellFormedItems : List Doc → Bool
  | [] => true
  | d :: ds => wellFormed d && wellFormedItems ds
def wellFormedMembers : List (JsonString × Doc) → Bool
  | [] => true
  | (_, d) :: ms => wellFormed d && wellFormedMembers ms
end

theorem wellFormedItems_iff {ds : List Doc} : wellFormedItems ds ↔ ∀ d ∈ ds, wellFormed d := by
  induction ds with
  | nil => simp [wellFormedItems]
  | cons d ds ih => simp [wellFormedItems, ih]

theorem wellFormedMembers_iff {ms : List (JsonString × Doc)} :
    wellFormedMembers ms ↔ ∀ m ∈ ms, wellFormed m.2 := by
  induction ms with
  | nil => simp [wellFormedMembers]
  | cons m ms ih => simp [wellFormedMembers, ih]

/-- A struct of well-formed fields is well formed. -/
theorem wellFormed_structDoc {fs : List FieldDoc}
    (h : ∀ f ∈ fs, ∀ d, f.doc = some d → wellFormed d) :
    wellFormed (structDoc fs) := by
  refine wellFormedMembers_iff.mpr fun m mem => ?_
  obtain ⟨f, there, written⟩ := mem_filterMap.mp mem
  obtain ⟨d, doc, rfl⟩ := map_eq_some_iff.mp written
  exact h f there d doc

/-- A scalar, the token it is written as and what the token means. -/
structure IsScalar (d : Doc) (chars : List Char) : Prop where
  text : text d = chars.map fun c => UInt8.ofNat c.toNat
  means : scalarDoc chars = some d
  own : ∀ c ∈ chars, c.toNat < 128 ∧ scalarByte (UInt8.ofNat c.toNat)
  nonempty : chars ≠ []
  flat : d.depth = 0

variable {chars : List Char}

/-- The bytes of a literal token are checked one by one. -/
theorem own_of_all
    (h : chars.all (fun c => decide (c.toNat < 128) && scalarByte (UInt8.ofNat c.toNat)) = true) :
    ∀ c ∈ chars, c.toNat < 128 ∧ scalarByte (UInt8.ofNat c.toNat) := by
  intro c mem
  simpa using all_eq_true.mp h c mem

theorem isScalar_null : IsScalar .null "null".toList where
  text := rfl
  means := rfl
  own := own_of_all (by decide)
  nonempty := by decide
  flat := rfl

theorem isScalar_bool (b : Bool) : IsScalar (.bool b) (if b then "true" else "false").toList where
  text := by cases b <;> rfl
  means := by cases b <;> rfl
  own := own_of_all (by cases b <;> decide)
  nonempty := by cases b <;> decide
  flat := rfl

theorem scalarByte_digit : ∀ k ≤ 57, 48 ≤ k → scalarByte (UInt8.ofNat k) := by decide

theorem isScalar_int (n : ℤ) : IsScalar (.int n) (integerText n) where
  text := intText_eq n
  means := scalarDoc_integerText n
  own := by
    intro c mem
    rcases isDigit_of_mem_integerText mem with rfl | digit
    · decide
    · have range := toNat_of_isDigit digit
      exact ⟨by omega, scalarByte_digit _ range.2 range.1⟩
  nonempty := by
    have digits : Nat.toDigits 10 n.natAbs ≠ [] := Nat.toDigits_ne_nil
    simp [integerText, digits]
  flat := rfl

variable {literal : String}

/-- The only float a token can mean is its own text. -/
theorem eq_of_scalarDoc_float (h : scalarDoc chars = some (.float literal)) :
    String.ofList chars = literal := by
  unfold scalarDoc at h
  split_ifs at h <;> cases h
  rfl

theorem isScalar_float (h : isFloatLiteral literal) : IsScalar (.float literal) literal.toList := by
  simp only [isFloatLiteral, and_eq_true, all_eq_true, decide_eq_true_eq] at h
  obtain ⟨own, means⟩ := h
  have read : scalarDoc literal.toList = some (.float literal) := by
    cases shape : scalarDoc literal.toList with
    | none => simp [shape] at means
    | some d =>
      cases d with
      | float own => rw [← eq_of_scalarDoc_float shape, String.ofList_toList]
      | _ => simp [shape] at means
  refine ⟨rfl, read, own, ?_, rfl⟩
  intro nothing
  have refused : scalarDoc [] = none := rfl
  rw [nothing, refused] at read
  cases read

variable {b : UInt8}

/-- What a scalar byte is not. -/
theorem ne_of_scalarByte (h : scalarByte b) :
    isSpace b = false ∧ b ≠ 123 ∧ b ≠ 91 ∧ b ≠ 34 ∧ b ≠ 93 := by
  have apart : ∀ k : UInt8, scalarByte k = false → b ≠ k := by
    rintro k other rfl
    rw [h] at other
    cases other
  refine ⟨?_, apart 123 (by decide), apart 91 (by decide), apart 34 (by decide),
    apart 93 (by decide)⟩
  simp [isSpace, apart 32 (by decide), apart 9 (by decide), apart 10 (by decide),
    apart 13 (by decide)]

variable {d : Doc}

theorem IsScalar.exists_cons (h : IsScalar d chars) :
    ∃ b t, AutoAgent.Json.text d = b :: t ∧ scalarByte b := by
  obtain ⟨c, rest, rfl⟩ := exists_cons_of_ne_nil h.nonempty
  exact ⟨_, _, h.text, (h.own c (mem_cons_self ..)).2⟩

/-- A scalar is read back at any depth. -/
theorem IsScalar.read (h : IsScalar d chars) {rest : List UInt8} (ends : Ends rest)
    (inner : Option (Reader UInt8 Doc)) :
    readValue inner (AutoAgent.Json.text d ++ rest) = some (d, rest) := by
  have own : ∀ b ∈ AutoAgent.Json.text d, scalarByte b := by
    rw [h.text]
    intro b mem
    obtain ⟨c, written, rfl⟩ := mem_map.mp mem
    exact (h.own c written).2
  have read : readScalar (AutoAgent.Json.text d ++ rest) = some (d, rest) := by
    refine readScalar_token own ends ?_ h.means
    rw [h.text]
    exact map_ascii fun c mem => (h.own c mem).1
  obtain ⟨b, t, text, scalar⟩ := h.exists_cons
  obtain ⟨space, brace, bracket, quote, -⟩ := ne_of_scalarByte scalar
  rw [text, cons_append] at read ⊢
  simp only [readValue, dropWhile_cons, space, false_eq_true, if_false, brace, bracket, quote, read]

theorem value_of_isScalar (h : IsScalar d chars) {rest : List UInt8} (ends : Ends rest) (n : ℕ) :
    value n (text d ++ rest) = if d.depth ≤ n then some (d, rest) else none := by
  rw [if_pos (by rw [h.flat]; exact Nat.zero_le n)]
  cases n with
  | zero => exact h.read ends none
  | succ n => exact h.read ends (some (value n))

theorem value_of_isString (s : JsonString) (rest : List UInt8) (inner : Option (Reader UInt8 Doc)) :
    readValue inner (stringText s ++ rest) = some (.str s, rest) := by
  have text : stringText s ++ rest = 34 :: (s.flatMap charText ++ 34 :: rest) := by
    simp [stringText, ascii]
  rw [text]
  simp [readValue, isSpace, readString_text]

/-- A text starts with a byte that is neither white space nor a closing bracket. -/
theorem exists_cons_text (h : wellFormed d) :
    ∃ b t, text d = b :: t ∧ isSpace b = false ∧ b ≠ 93 := by
  have scalar : ∀ {chars}, IsScalar d chars →
      ∃ b t, text d = b :: t ∧ isSpace b = false ∧ b ≠ 93 := by
    intro chars own
    obtain ⟨b, t, text, byte⟩ := own.exists_cons
    exact ⟨b, t, text, (ne_of_scalarByte byte).1, (ne_of_scalarByte byte).2.2.2.2⟩
  cases d with
  | null => exact scalar isScalar_null
  | bool b => exact scalar (isScalar_bool b)
  | int n => exact scalar (isScalar_int n)
  | float literal => exact scalar (isScalar_float h)
  | str s => exact ⟨34, _, rfl, by decide⟩
  | arr items => exact ⟨91, _, rfl, by decide⟩
  | obj members => exact ⟨123, _, rfl, by decide⟩

theorem ends_nil : Ends [] := by simp [Ends]

theorem ends_of_punctuation (h : scalarByte b = false) (rest : List UInt8) :
    Ends (b :: rest) := by
  intro c mem
  obtain rfl : b = c := by simpa using mem
  exact h

/-- A member is read back when its value is. -/
theorem readMember_text (inner : Reader UInt8 Doc) (k : JsonString) (t : List UInt8) :
    readMember inner (stringText k ++ (ascii ":" ++ t)) =
      (inner t).map fun (d, rest) => ((k, d), rest) := by
  have text : stringText k ++ (ascii ":" ++ t) =
      34 :: (k.flatMap charText ++ 34 :: (58 :: t)) := by
    simp [stringText, ascii]
  rw [text]
  simp [readMember, isSpace, readString_text]

/-- What was written is read back, within the nesting depth. -/
theorem value_text (h : wellFormed d) (n : ℕ) {rest : List UInt8} (ends : Ends rest) :
    value n (text d ++ rest) = if d.depth ≤ n then some (d, rest) else none := by
  induction d using Json.ind generalizing n rest with
  | null => exact value_of_isScalar isScalar_null ends n
  | bool b => exact value_of_isScalar (isScalar_bool b) ends n
  | int m => exact value_of_isScalar (isScalar_int m) ends n
  | float => exact value_of_isScalar (isScalar_float h) ends n
  | str s =>
    cases n with
    | zero => exact value_of_isString s rest none
    | succ n => exact value_of_isString s rest (some (value n))
  | arr items ih =>
    rw [wellFormed, wellFormedItems_iff] at h
    have text : text (.arr items) ++ rest = 91 :: (separated 44 text items ++ 93 :: rest) := by
      simp [AutoAgent.Json.text, itemsText_eq, ascii]
    rw [text]
    cases n with
    | zero => simp [value, readValue, isSpace, depth]
    | succ n =>
      have each : ∀ d ∈ items, ∀ b ∈ [(44 : UInt8), 93], ∀ rest,
          value n (AutoAgent.Json.text d ++ b :: rest) =
            if d.depth ≤ n then some (d, b :: rest) else none := fun d mem b mark rest =>
        ih d mem (h d mem) n (ends_of_punctuation (by rcases mem_pair.mp mark with rfl |
        rfl <;> decide) rest)
      have visible : isSpace 44 = false ∧ isSpace 93 = false := by decide
      have read := listing_separated rest visible (by decide) each fun d mem =>
        exists_cons_text (h d mem)
      simp only [value, readValue, dropWhile_cons, (by decide : isSpace 91 = false),
        false_eq_true, if_false, (by decide : (91 : UInt8) ≠ 123), if_true,
        bind_some, read, depth, Nat.succ_le_succ_iff, depthItems_le_iff]
      split_ifs <;> rfl
  | obj members ih =>
    rw [wellFormed, wellFormedMembers_iff] at h
    have text : text (.obj members) ++ rest =
        123 :: (separated 44 memberText members ++ 125 :: rest) := by
      simp [AutoAgent.Json.text, membersText_eq, ascii]
    rw [text]
    cases n with
    | zero => simp [value, readValue, isSpace, depth]
    | succ n =>
      have each : ∀ m ∈ members, ∀ b ∈ [(44 : UInt8), 125], ∀ rest,
          readMember (value n) (memberText m ++ b :: rest) =
            if m.2.depth ≤ n then some (m, b :: rest) else none := by
        intro m mem b mark rest
        rw [memberText, append_assoc, append_assoc, readMember_text,
          ih m mem (h m mem) n (ends_of_punctuation (by rcases mem_pair.mp mark with rfl | rfl <;>
          decide) rest)]
        split_ifs <;> rfl
      have visible : isSpace 44 = false ∧ isSpace 125 = false := by decide
      have read := listing_separated rest visible (by decide) each fun m mem =>
        ⟨34, _, rfl, by decide⟩
      simp only [value, readValue, dropWhile_cons, (by decide : isSpace 123 = false),
        false_eq_true, if_false, if_true, bind_some, read, depth,
        Nat.succ_le_succ_iff, depthMembers_le_iff]
      split_ifs <;> rfl

/-- A text is read back from bytes exactly within the nesting depth. -/
theorem parse_text (h : wellFormed d) :
    parse (text d) = if d.depth ≤ maxNestingDepth then some d else none := by
  have read := value_text h maxNestingDepth ends_nil
  rw [append_nil] at read
  rw [parse, read]
  split_ifs <;> rfl

/-- A text that something other than white space follows is refused. -/
theorem parse_of_joined (h : wellFormed d) (ends : scalarByte b = false)
    (visible : isSpace b = false) (rest : List UInt8) :
    parse (text d ++ b :: rest) = none := by
  rw [parse, value_text h maxNestingDepth (ends_of_punctuation ends rest)]
  split_ifs
  · simp [visible]
  · rfl

/-! ## Cut texts -/

theorem steady_readMember {inner : Reader UInt8 Doc} (steady : inner.Steady) :
    (readMember inner).Steady := by
  intro p m rest q read more
  unfold readMember at read ⊢
  obtain nothing | ⟨b, left, shape, longer⟩ := next_cases isSpace p q
  · simp [nothing] at read
  simp only [shape, longer] at read ⊢
  split_ifs at read ⊢
  obtain ⟨⟨name, left⟩, string, read⟩ := bind_eq_some_iff.mp read
  obtain nothing | ⟨c, left', colon, longer⟩ := next_cases isSpace left q
  · simp [nothing] at read
  simp only [closed_readString q string, bind_some, colon, longer] at read ⊢
  split_ifs at read ⊢
  obtain ⟨⟨d, left⟩, inside, eq⟩ := map_eq_some_iff.mp read
  cases eq
  rw [steady q inside more]
  rfl

variable {p rest : List UInt8}

/-- A value is read the same way when the input is continued, unless it is a scalar at
its end. -/
theorem readValue_append {inner : Option (Reader UInt8 Doc)} (steady : ∀ r ∈ inner, r.Steady)
    (q : List UInt8) (read : readValue inner p = some (d, rest))
    (more : rest ≠ [] ∨ p.head? = some 123) : readValue inner (p ++ q) = some (d, rest ++ q) := by
  unfold readValue at read ⊢
  obtain nothing | ⟨b, left, shape, longer⟩ := next_cases isSpace p q
  · simp [nothing] at read
  simp only [shape, longer] at read ⊢
  split_ifs at read ⊢ with brace
  · obtain ⟨r, own, read⟩ := bind_eq_some_iff.mp read
    obtain ⟨⟨ms, left⟩, inside, eq⟩ := map_eq_some_iff.mp read
    cases eq
    rw [own, bind_some, closed_listing (steady_readMember (steady r own)) q inside]
    rfl
  · obtain ⟨r, own, read⟩ := bind_eq_some_iff.mp read
    obtain ⟨⟨ds, left⟩, inside, eq⟩ := map_eq_some_iff.mp read
    cases eq
    rw [own, bind_some, closed_listing (steady r own) q inside]
    rfl
  · obtain ⟨⟨s, left⟩, inside, eq⟩ := map_eq_some_iff.mp read
    cases eq
    rw [closed_readString q inside]
    rfl
  · rcases more with more | starts
    · exact steady_readScalar q read more
    · -- an input that starts with a brace is not a scalar
      obtain ⟨p, rfl⟩ : ∃ t, p = 123 :: t := by cases p <;> simp_all
      rw [dropWhile_cons, if_neg (by decide), List.cons.injEq] at shape
      exact absurd shape.1.symm brace

theorem steady_value (n : ℕ) : (value n).Steady := by
  induction n with
  | zero =>
    intro p d rest q read more
    exact readValue_append (by simp) q read (.inl more)
  | succ n ih =>
    intro p d rest q read more
    refine readValue_append (fun r own => ?_) q read (.inl more)
    obtain rfl : value n = r := by simpa using own
    exact ih

/-- An object is read the same way when the input is continued. -/
theorem value_append_of_brace {n : ℕ} (q : List UInt8) (read : value n p = some (d, rest))
    (starts : p.head? = some 123) :
    value n (p ++ q) = some (d, rest ++ q) := by
  cases n with
  | zero => exact readValue_append (by simp) q read (.inr starts)
  | succ n =>
    refine readValue_append (fun r own => ?_) q read (.inr starts)
    obtain rfl : value n = r := by simpa using own
    exact steady_value n

/-- A text that stops inside an object is refused. -/
theorem parse_of_cut {members : List (JsonString × Doc)} (h : wellFormed (.obj members))
    {p q : List UInt8} (cut : text (.obj members) = p ++ q) (missing : q ≠ []) :
    parse p = none := by
  by_contra accepted
  obtain ⟨d, read⟩ := Option.ne_none_iff_exists'.mp accepted
  obtain ⟨⟨d', rest⟩, inside, -⟩ := bind_eq_some_iff.mp read
  have starts : p.head? = some 123 := by
    cases p with
    | nil => cases inside
    | cons b p =>
      have first : text (.obj members) = 123 :: (membersText members ++ ascii "\x7d") := by
        simp [text, ascii]
      rw [first, cons_append, List.cons.injEq] at cut
      rw [head?_cons, ← cut.1]
  -- the whole text would be read as something that leaves the missing part over
  have whole := value_append_of_brace q inside starts
  have own := value_text h maxNestingDepth ends_nil
  rw [append_nil, cut, whole] at own
  split_ifs at own
  rw [some.injEq, Prod.mk.injEq, append_eq_nil_iff] at own
  exact missing own.2.2

/-! ## Lines -/

theorem visible_charText (c : JsonChar) : ∀ b ∈ charText c, 32 ≤ b.toNat := by
  have escape : ∀ n, ∀ b ∈ unicodeEscape n, 32 ≤ b.toNat := by
    intro n b mem
    rcases mem_append.mp mem with mark | digit
    · have visible : ∀ b ∈ ascii "\\u", 32 ≤ b.toNat := by decide +kernel
      exact visible b mark
    · obtain ⟨d, among, rfl⟩ := mem_map.mp digit
      have small : d < 16 := by
        simp only [mem_cons, not_mem_nil, or_false] at among
        omega
      rw [toNat_ofNat_of_lt (by split_ifs <;> omega)]
      split_ifs <;> omega
  intro b mem
  rcases charText_cases c with ⟨-, text⟩ | ⟨e, r, text, known, -, -⟩ | ⟨r, -, -, text⟩ |
    ⟨r, -, visible, quote, backslash, text⟩ <;> rw [text] at mem
  · exact escape _ b mem
  · rcases mem_cons.mp mem with rfl | last
    · decide
    · rw [mem_singleton.mp last]
      unfold escapeRune at known
      split_ifs at known <;> subst_vars <;> decide
  · exact escape _ b mem
  · have plain := plain_utf8EncodeChar visible quote backslash b mem
    simp only [plainByte, and_eq_true, decide_eq_true_eq] at plain
    exact UInt8.le_iff_toNat_le.mp plain.1.1

theorem visible_of_scalarByte (h : scalarByte b) : 32 ≤ b.toNat := by
  have controls : ∀ k < 32, scalarByte (UInt8.ofNat k) = false := by decide
  by_contra control
  have other := controls b.toNat (by omega)
  rw [UInt8.ofNat_toNat, h] at other
  cases other

/-- The marks between the tokens of a text. -/
def marks : List UInt8 := [91, 93, 123, 125, 44, 58, 34]

/-- A property of bytes that goes from the tokens to the texts. -/
structure Spreads (P : List UInt8 → Prop) : Prop where
  nil : P []
  append : ∀ {p q}, P p → P q → P (p ++ q)
  mark : ∀ b ∈ marks, P [b]
  char : ∀ c, P (charText c)
  scalar : ∀ {d chars}, IsScalar d chars → P (text d)

namespace Spreads

variable {P : List UInt8 → Prop} (spreads : Spreads P)
include spreads

theorem of_stringText (s : JsonString) : P (stringText s) := by
  have quote : P [34] := spreads.mark 34 (by decide)
  have body : P (s.flatMap charText) := by
    induction s with
    | nil => exact spreads.nil
    | cons c s ih => exact spreads.append (spreads.char c) ih
  exact spreads.append (spreads.append quote body) quote

theorem of_separated {α : Type} {write : α → List UInt8} {as : List α}
    (each : ∀ a ∈ as, P (write a)) : P (separated 44 write as) := by
  induction as using separated.induct with
  | case1 => exact spreads.nil
  | case2 a => exact each a (by simp)
  | case3 a a' as ih =>
    have comma : P [44] := spreads.mark 44 (by decide)
    have rest := ih (forall_mem_cons.mp each).2
    exact spreads.append (each a (by simp)) (spreads.append comma rest)

/-- What holds of the tokens holds of the texts. -/
theorem of_text (h : wellFormed d) : P (text d) := by
  induction d using Json.ind with
  | null => exact spreads.scalar isScalar_null
  | bool b => exact spreads.scalar (isScalar_bool b)
  | int n => exact spreads.scalar (isScalar_int n)
  | float => exact spreads.scalar (isScalar_float h)
  | str s => exact spreads.of_stringText s
  | arr items ih =>
    rw [wellFormed, wellFormedItems_iff] at h
    have items := spreads.of_separated fun d mem => ih d mem (h d mem)
    rw [text, itemsText_eq]
    exact spreads.append (spreads.append (spreads.mark 91 (by decide)) items)
      (spreads.mark 93 (by decide))
  | obj members ih =>
    rw [wellFormed, wellFormedMembers_iff] at h
    have colon : P [58] := spreads.mark 58 (by decide)
    have member : ∀ m ∈ members, P (memberText m) := fun m mem =>
      spreads.append (spreads.append (spreads.of_stringText m.1) colon) (ih m mem (h m mem))
    have members := spreads.of_separated member
    rw [text, membersText_eq]
    exact spreads.append (spreads.append (spreads.mark 123 (by decide)) members)
      (spreads.mark 125 (by decide))

end Spreads

theorem spreads_visible : Spreads fun bytes => ∀ b ∈ bytes, 32 ≤ b.toNat where
  nil := by simp
  append hp hq := forall_mem_append.mpr ⟨hp, hq⟩
  mark := by simp [marks]
  char := visible_charText
  scalar h := by
    intro b mem
    rw [h.text] at mem
    obtain ⟨c, own, rfl⟩ := mem_map.mp mem
    exact visible_of_scalarByte (h.own c own).2

/-- A text is one line. -/
theorem newline_notMem_text (h : wellFormed d) : (10 : UInt8) ∉ text d :=
  fun mem => absurd (spreads_visible.of_text h 10 mem) (by decide)

end AutoAgent.Json
