import AutoAgent.Lib.Codec
import Mathlib.Data.List.TakeWhile

/-!
# Reading JSON text

`Json.text` is the compact text `json.Marshal` writes; here is the reader of
`json.Unmarshal`, from bytes to the document, with white space, escapes, surrogate
pairs, number literals and the limit on the nesting depth.

**Tokens.**  A string is scanned up to its closing quote first and unquoted then, and
a scalar is the longest run of bytes that can be in one, so that where a token ends
does not depend on what it means.  Strings are read back (`readString_text`) and so
are integer literals (`scalarDoc_integerText`); whole documents are the subject of
`AutoAgent.Lib.JsonRoundTrip`.
-/

namespace AutoAgent.Json

open List

/-! ## Strings -/

/-- Where the scanner is in a string: between characters, after a backslash, or with
hexadecimal digits to come after this one. -/
inductive StringScan where
  | body
  | escape
  | hex (more : ℕ)

def hexDigit (b : UInt8) : Option ℕ :=
  if 48 ≤ b ∧ b ≤ 57 then some (b.toNat - 48)
  else if 97 ≤ b ∧ b ≤ 102 then some (b.toNat - 87)
  else if 65 ≤ b ∧ b ≤ 70 then some (b.toNat - 55)
  else none

/-- The rune of an escape of two characters. -/
def escapeRune (b : UInt8) : Option Char :=
  if b = 34 then some '"'
  else if b = 92 then some '\\'
  else if b = 47 then some '/'
  else if b = 98 then some '\x08'
  else if b = 102 then some '\x0c'
  else if b = 110 then some '\n'
  else if b = 114 then some '\r'
  else if b = 116 then some '\t'
  else none

/-- The bytes of a string up to its closing quote. -/
def scanString : StringScan → Reader UInt8 (List UInt8)
  | _, [] => none
  | .body, b :: rest =>
    if b = 34 then some ([], rest)
    else if b = 92 then (scanString .escape rest).map fun (token, rest) => (b :: token, rest)
    else if b < 32 then none
    else (scanString .body rest).map fun (token, rest) => (b :: token, rest)
  | .escape, b :: rest =>
    if b = 117 then (scanString (.hex 3) rest).map fun (token, rest) => (b :: token, rest)
    else if (escapeRune b).isSome then
      (scanString .body rest).map fun (token, rest) => (b :: token, rest)
    else none
  | .hex more, b :: rest =>
    if (hexDigit b).isSome then
      let next := match more with
        | 0 => StringScan.body
        | more + 1 => .hex more
      (scanString next rest).map fun (token, rest) => (b :: token, rest)
    else none

/-- The code point of four hexadecimal digits. -/
def hexCode (digits : List UInt8) : ℕ :=
  digits.foldl (fun code b => 16 * code + (hexDigit b).getD 0) 0

/-- The character of an escape by code point; the escape of U+FFFD is kept apart. -/
def codeChar (code : ℕ) : JsonChar :=
  if code = 0xfffd ∨ (0xd800 ≤ code ∧ code < 0xe000) then .replacement else .lit (Char.ofNat code)

/-- The two halves of a surrogate pair, the second with its escape. -/
def surrogatePair (high : ℕ) (rest : List UInt8) : Option Char :=
  let low := hexCode ((rest.drop 2).take 4)
  if 0xd800 ≤ high ∧ high < 0xdc00 ∧ rest.take 2 = ascii "\\u" ∧ 0xdc00 ≤ low ∧ low < 0xe000 then
    some (Char.ofNat ((high - 0xd800) * 0x400 + (low - 0xdc00) + 0x10000))
  else none

/-- The characters of a scanned string; the number bounds them. -/
def unquoteBytes : ℕ → List UInt8 → JsonString
  | 0, _ | _, [] => []
  | n + 1, b :: rest =>
    if b = 92 then
      match rest with
      | [] => []
      | e :: rest =>
        if e = 117 then
          let code := hexCode (rest.take 4)
          match surrogatePair code (rest.drop 4) with
          | some c => .lit c :: unquoteBytes n (rest.drop 10)
          | none => codeChar code :: unquoteBytes n (rest.drop 4)
        else .lit ((escapeRune e).getD '?') :: unquoteBytes n rest
    else if b < 128 then .lit (Char.ofNat b.toNat) :: unquoteBytes n rest
    else
      match (b :: rest).toByteArray.utf8DecodeChar? 0 with
      | some c => .lit c :: unquoteBytes n ((b :: rest).drop c.utf8Size)
      | none => .replacement :: unquoteBytes n rest

/-- A string after its opening quote. -/
def readString : Reader UInt8 JsonString := fun bytes =>
  (scanString .body bytes).map fun (token, rest) => (unquoteBytes token.length token, rest)

/-! ## Scalars -/

/-- The bytes of a literal or a number. -/
def scalarByte (b : UInt8) : Bool :=
  let c := Char.ofNat b.toNat
  c.isAlphanum || c == '+' || c == '-' || c == '.'

/-- The digits of a number, of which there is at least one. -/
def skipDigits (text : List Char) : Option (List Char) :=
  if text.takeWhile Char.isDigit = [] then none else some (text.dropWhile Char.isDigit)

/-- The integer part: no zero before another digit. -/
def skipInteger : List Char → Option (List Char)
  | '0' :: text => some text
  | text => skipDigits text

def skipFraction : List Char → Option (List Char)
  | '.' :: text => skipDigits text
  | text => some text

def skipExponent : List Char → Option (List Char)
  | [] => some []
  | e :: text =>
    if e = 'e' ∨ e = 'E' then
      match text with
      | [] => none
      | sign :: digits =>
        if sign = '+' ∨ sign = '-' then skipDigits digits else skipDigits (sign :: digits)
    else some (e :: text)

/-- The grammar of number literals. -/
def isNumber (text : List Char) : Bool :=
  let unsigned := if text.head? = some '-' then text.tail else text
  (do skipExponent (← skipFraction (← skipInteger unsigned))) == some []

def integerValue (text : List Char) : ℤ :=
  if text.head? = some '-' then -(Nat.ofDigitChars 10 text.tail 0 : ℤ)
  else Nat.ofDigitChars 10 text 0

/-- The meaning of a scalar token.  The literal `-0` is not an integer: it keeps its
sign when it is written again. -/
def scalarDoc (text : List Char) : Option Doc :=
  if text = "null".toList then some .null
  else if text = "true".toList then some (.bool true)
  else if text = "false".toList then some (.bool false)
  else if isNumber text then
    if (text.all fun c => c.isDigit || c == '-') && text != ['-', '0'] then
      some (.int (integerValue text))
    else some (.float (String.ofList text))
  else none

def readScalar : Reader UInt8 Doc := fun bytes =>
  (Reader.span scalarByte bytes).bind fun (token, rest) =>
    (scalarDoc (token.map fun b => Char.ofNat b.toNat)).map fun d => (d, rest)

/-! ## Values -/

def isSpace (b : UInt8) : Bool := b == 32 || b == 9 || b == 10 || b == 13

def readMember (inner : Reader UInt8 Doc) : Reader UInt8 (JsonString × Doc) := fun bytes =>
  match bytes.dropWhile isSpace with
  | [] => none
  | b :: rest =>
    if b = 34 then
      (readString rest).bind fun (name, rest) =>
        match rest.dropWhile isSpace with
        | [] => none
        | c :: rest => if c = 58 then (inner rest).map fun (d, rest) => ((name, d), rest) else none
    else none

/-- A value; `inner` reads the values inside it, unless no nesting is left. -/
def readValue (inner : Option (Reader UInt8 Doc)) : Reader UInt8 Doc := fun bytes =>
  match bytes.dropWhile isSpace with
  | [] => none
  | b :: rest =>
    if b = 123 then
      inner.bind fun r => (Reader.listing isSpace 44 125 (readMember r) rest).map
        fun (ms, rest) => (.obj ms, rest)
    else if b = 91 then
      inner.bind fun r => (Reader.listing isSpace 44 93 r rest).map
        fun (ds, rest) => (.arr ds, rest)
    else if b = 34 then (readString rest).map fun (s, rest) => (.str s, rest)
    else readScalar (b :: rest)

/-- A value within a nesting depth. -/
def value : ℕ → Reader UInt8 Doc
  | 0 => readValue none
  | levels + 1 => readValue (some (value levels))

/-- The document of a whole text. -/
def parse (bytes : List UInt8) : Option Doc :=
  (value maxNestingDepth bytes).bind fun (d, rest) =>
    if rest.dropWhile isSpace = [] then some d else none

/-! ## Strings are read back -/

/-- The scanner goes from one state to another over the bytes. -/
def Scans (st : StringScan) (bytes : List UInt8) (st' : StringScan) : Prop :=
  ∀ t, scanString st (bytes ++ t) =
    (scanString st' t).map fun (token, rest) => (bytes ++ token, rest)

theorem Scans.append {st st' st'' : StringScan} {p q : List UInt8} (first : Scans st p st')
    (second : Scans st' q st'') : Scans st (p ++ q) st'' := by
  intro t
  rw [append_assoc, first, second, Option.map_map]
  simp [comp_def]

/-- A byte that stands for itself. -/
def plainByte (b : UInt8) : Bool := 32 ≤ b && b != 34 && b != 92

theorem scans_plain {bytes : List UInt8} (plain : ∀ b ∈ bytes, plainByte b) :
    Scans .body bytes .body := by
  induction bytes with
  | nil =>
    intro t
    simp
  | cons b bytes ih =>
    have own : Scans .body [b] .body := by
      intro t
      have h := plain b (mem_cons_self ..)
      simp only [plainByte, and_eq_true, decide_eq_true_eq, bne_iff_ne] at h
      have visible : ¬b < 32 := UInt8.not_lt.mpr h.1.1
      simp [scanString, h.1.2, h.2, visible]
    exact own.append (ih fun b mem => plain b (mem_cons_of_mem _ mem))

theorem hexDigit_mod (m : ℕ) :
    hexDigit (UInt8.ofNat (if m % 16 < 10 then 48 + m % 16 else 87 + m % 16)) = some (m % 16) := by
  have digit : ∀ d < 16, hexDigit (UInt8.ofNat (if d < 10 then 48 + d else 87 + d)) = some d := by
    decide
  exact digit _ (Nat.mod_lt _ (by decide))

theorem ascii_escape : ascii "\\u" = [92, 117] := rfl

theorem scans_unicodeEscape (n : ℕ) : Scans .body (unicodeEscape n) .body := by
  intro t
  simp only [unicodeEscape, ascii_escape, map_cons, map_nil, cons_append, nil_append,
    scanString, hexDigit_mod, Option.isSome_some, if_true, Option.map_map]
  rfl

variable {n : ℕ}

theorem toNat_ofNat_of_lt (h : n < 256) : (UInt8.ofNat n).toNat = n := UInt8.toNat_ofNat_of_lt' h

variable {c : Char}

theorem utf8EncodeChar_of_ascii (h : c.toNat < 128) :
    String.utf8EncodeChar c = [UInt8.ofNat c.toNat] := by
  have low : c.val.toNat ≤ 127 := Nat.le_of_lt_succ h
  simp only [String.utf8EncodeChar, low, if_true]
  rfl

variable {b : UInt8}

/-- Beyond ASCII all bytes of a character are. -/
theorem high_of_mem_utf8EncodeChar (h : 128 ≤ c.toNat) : ∀ b ∈ String.utf8EncodeChar c,
    128 ≤ b.toNat := by
  have high : ¬c.val.toNat ≤ 127 := Nat.not_le.mpr h
  have byte : ∀ k m x, 0 < m → 128 ≤ k → k + m ≤ 256 → 128 ≤ (UInt8.ofNat (x % m + k)).toNat := by
    intro k m x positive low bound
    have small := Nat.mod_lt x positive
    rw [toNat_ofNat_of_lt (by omega)]
    omega
  simp only [String.utf8EncodeChar, high, if_false]
  split_ifs <;> simp (disch := decide) only [forall_mem_cons, byte, true_and] <;> simp

theorem plainByte_of_high (h : 128 ≤ b.toNat) : plainByte b := by
  have apart : ∀ k : UInt8, k.toNat < 128 → b ≠ k := by
    rintro k low rfl
    omega
  simp only [plainByte, and_eq_true, decide_eq_true_eq, bne_iff_ne]
  refine ⟨⟨?_, apart 34 (by decide)⟩, apart 92 (by decide)⟩
  exact le_trans (by decide) h

theorem plainByte_of_ascii (low : c.toNat < 128) (visible : 32 ≤ c.toNat) (quote : c ≠ '"')
    (backslash : c ≠ '\\') : plainByte (UInt8.ofNat c.toNat) := by
  have apart : ∀ d : Char, d.toNat < 128 → c ≠ d → UInt8.ofNat c.toNat ≠ UInt8.ofNat d.toNat := by
    intro d small ne eq
    have codes := congrArg UInt8.toNat eq
    rw [toNat_ofNat_of_lt (by omega), toNat_ofNat_of_lt (by omega)] at codes
    exact ne (Char.toNat_inj.mp codes)
  simp only [plainByte, and_eq_true, decide_eq_true_eq, bne_iff_ne]
  refine ⟨⟨?_, apart '"' (by decide) quote⟩, apart '\\' (by decide) backslash⟩
  rw [UInt8.le_iff_toNat_le, toNat_ofNat_of_lt (by omega)]
  exact visible

/-- A character that is written as it is takes only bytes that stand for themselves. -/
theorem plain_utf8EncodeChar (visible : 32 ≤ c.toNat) (quote : c ≠ '"') (backslash : c ≠ '\\') :
    ∀ b ∈ String.utf8EncodeChar c, plainByte b := by
  intro b mem
  by_cases low : c.toNat < 128
  · rw [utf8EncodeChar_of_ascii low, mem_singleton] at mem
    rw [mem]
    exact plainByte_of_ascii low visible quote backslash
  · exact plainByte_of_high (high_of_mem_utf8EncodeChar (Nat.le_of_not_lt low) _ mem)

/-- A character is written by an escape of two characters, by its code point, or as
it is. -/
theorem charText_cases (c : JsonChar) :
    (c = .replacement ∧ charText c = unicodeEscape 0xfffd) ∨
    (∃ e r, charText c = [92, e] ∧ escapeRune e = some r ∧ e ≠ 117 ∧ c = .lit r) ∨
    (∃ r, c = .lit r ∧ r.toNat < 0xd800 ∧ charText c = unicodeEscape r.toNat) ∨
    ∃ r, c = .lit r ∧ 32 ≤ r.toNat ∧ r ≠ '"' ∧ r ≠ '\\' ∧ charText c = String.utf8EncodeChar r := by
  unfold charText
  split
  · exact .inl ⟨rfl, rfl⟩
  · exact .inr (.inl ⟨34, _, rfl, rfl, by decide, rfl⟩)
  · exact .inr (.inl ⟨92, _, rfl, rfl, by decide, rfl⟩)
  · exact .inr (.inl ⟨110, _, rfl, rfl, by decide, rfl⟩)
  · exact .inr (.inl ⟨114, _, rfl, rfl, by decide, rfl⟩)
  · exact .inr (.inl ⟨116, _, rfl, rfl, by decide, rfl⟩)
  · exact .inr (.inl ⟨98, _, rfl, rfl, by decide, rfl⟩)
  · exact .inr (.inl ⟨102, _, rfl, rfl, by decide, rfl⟩)
  next r quote backslash _ _ _ _ _ =>
    split
    next special =>
      refine .inr (.inr (.inl ⟨r, rfl, ?_, rfl⟩))
      rcases special with control | html | line | paragraph
      · omega
      · simp only [mem_cons, not_mem_nil, or_false] at html
        rcases html with rfl | rfl | rfl <;> decide
      · omega
      · omega
    next ordinary =>
      have visible : 32 ≤ r.toNat := by
        by_contra control
        exact ordinary (.inl (by omega))
      exact .inr (.inr (.inr ⟨r, rfl, visible, quote, backslash, rfl⟩))

theorem scans_charText (c : JsonChar) : Scans .body (charText c) .body := by
  rcases charText_cases c with ⟨-, text⟩ | ⟨e, r, text, escape, mark, -⟩ | ⟨r, -, -, text⟩ |
    ⟨r, -, visible, quote, backslash, text⟩
  · exact text ▸ scans_unicodeEscape _
  · intro t
    simp [text, scanString, escape, mark, comp_def]
  · exact text ▸ scans_unicodeEscape _
  · exact text ▸ scans_plain (plain_utf8EncodeChar visible quote backslash)

theorem scans_string (s : JsonString) : Scans .body (s.flatMap charText) .body := by
  induction s with
  | nil =>
    intro t
    simp
  | cons c s ih => exact (scans_charText c).append ih

/-- The escape by code point of a character outside the surrogates. -/
theorem unquoteBytes_unicodeEscape {code n : ℕ} (small : code < 0x10000)
    (plain : ¬(0xd800 ≤ code ∧ code < 0xe000)) (t : List UInt8) :
    unquoteBytes (n + 1) (unicodeEscape code ++ t) = codeChar code :: unquoteBytes n t := by
  have read : hexCode ([code / 4096 % 16, code / 256 % 16, code / 16 % 16, code % 16].map fun d =>
      UInt8.ofNat (if d < 10 then 48 + d else 87 + d)) = code := by
    simp only [hexCode, map_cons, map_nil, foldl_cons, foldl_nil, hexDigit_mod, getD_some]
    omega
  have single : ∀ rest, surrogatePair code rest = none := by
    intro rest
    rw [surrogatePair, if_neg]
    rintro ⟨high, low, -⟩
    exact plain ⟨high, by omega⟩
  simp only [map_cons, map_nil] at read
  simp only [unicodeEscape, ascii_escape, map_cons, map_nil, cons_append, nil_append,
    unquoteBytes, if_true, take_succ_cons, take_zero, drop_succ_cons,
    drop_zero, read, single]

theorem unquoteBytes_charText (c : JsonChar) (n : ℕ) (t : List UInt8) :
    unquoteBytes (n + 1) (charText c ++ t) = c :: unquoteBytes n t := by
  rcases charText_cases c with ⟨rfl, text⟩ | ⟨e, r, text, escape, mark, rfl⟩ |
    ⟨r, rfl, low, text⟩ | ⟨r, rfl, visible, quote, backslash, text⟩
  · rfl
  · simp [text, unquoteBytes, escape, mark]
  · rw [text, unquoteBytes_unicodeEscape (by omega) (by omega), codeChar, if_neg (by omega),
      Char.ofNat_toNat]
  · rw [text]
    have bytes := plain_utf8EncodeChar visible quote backslash
    by_cases ascii : r.toNat < 128
    · rw [utf8EncodeChar_of_ascii ascii] at bytes ⊢
      have own := bytes _ (mem_singleton_self _)
      simp only [plainByte, and_eq_true, bne_iff_ne] at own
      have low : UInt8.ofNat r.toNat < 128 := by
        rw [UInt8.lt_iff_toNat_lt, toNat_ofNat_of_lt (by omega)]
        exact ascii
      simp only [cons_append, nil_append, unquoteBytes, own.2, low, if_false, if_true]
      rw [toNat_ofNat_of_lt (by omega), Char.ofNat_toNat]
    · have size := String.length_utf8EncodeChar r
      have decoded : (String.utf8EncodeChar r ++ t).toByteArray.utf8DecodeChar? 0 = some r := by
        rw [toByteArray_append]
        exact ByteArray.utf8DecodeChar?_utf8EncodeChar_append
      have dropped : (String.utf8EncodeChar r ++ t).drop r.utf8Size = t := by
        rw [← size, drop_left]
      cases shape : String.utf8EncodeChar r with
      | nil =>
        have positive := Char.utf8Size_pos r
        rw [shape] at size
        simp at size
        omega
      | cons b rest =>
        have mem : b ∈ String.utf8EncodeChar r := shape ▸ mem_cons_self ..
        have high := high_of_mem_utf8EncodeChar (Nat.le_of_not_lt ascii) _ mem
        have own := bytes b mem
        simp only [plainByte, and_eq_true, bne_iff_ne] at own
        have notLow : ¬b < 128 := by
          exact Nat.not_lt.mpr high
        rw [shape, cons_append] at decoded dropped
        simp only [cons_append, unquoteBytes, own.2, notLow, if_false, decoded, dropped]

theorem length_le_flatMap_charText (s : JsonString) : s.length ≤ (s.flatMap charText).length := by
  induction s with
  | nil => simp
  | cons c s ih =>
    have positive : 0 < (charText c).length := by
      rcases charText_cases c with ⟨-, text⟩ | ⟨e, r, text, -⟩ | ⟨r, -, -, text⟩ |
        ⟨r, -, -, -, -, text⟩
      · rw [text]
        simp [unicodeEscape]
      · simp [text]
      · rw [text]
        simp [unicodeEscape]
      · rw [text, String.length_utf8EncodeChar]
        exact Char.utf8Size_pos r
    rw [flatMap_cons, length_append, length_cons]
    omega

theorem unquoteBytes_flatMap {s : JsonString} (enough : s.length ≤ n) :
    unquoteBytes n (s.flatMap charText) = s := by
  induction s generalizing n with
  | nil => cases n <;> rfl
  | cons c s ih =>
    obtain ⟨n, rfl⟩ : ∃ k, n = k + 1 := ⟨n - 1, by simp at enough; omega⟩
    rw [flatMap_cons, unquoteBytes_charText, ih (by simpa using enough)]

theorem readString_text (s : JsonString) (rest : List UInt8) :
    readString (s.flatMap charText ++ 34 :: rest) = some (s, rest) := by
  rw [readString, scans_string s]
  simp only [scanString, if_true, map_some, append_nil]
  rw [unquoteBytes_flatMap (length_le_flatMap_charText s)]

/-- A reader that puts back a byte is as closed as the one it uses. -/
theorem closed_scanString_cons {st : StringScan} {p q token rest : List UInt8}
    (ih : ∀ ⦃token rest⦄, scanString st p = some (token, rest) →
      scanString st (p ++ q) = some (token, rest ++ q))
    (read : (scanString st p).map (fun (token, rest) => (b :: token, rest)) = some (token, rest)) :
    (scanString st (p ++ q)).map (fun (token, rest) => (b :: token, rest)) =
      some (token, rest ++ q) := by
  obtain ⟨⟨inner, left⟩, tail, eq⟩ := map_eq_some_iff.mp read
  cases eq
  rw [ih tail]
  rfl

theorem closed_scanString (st : StringScan) : (scanString st).Closed := by
  intro p token rest q read
  induction p generalizing st token rest with
  | nil => simp [scanString] at read
  | cons b p ih =>
    rw [cons_append]
    cases st <;> simp only [scanString] at read ⊢ <;> split_ifs at read ⊢
    · -- the quote ends the string, and every other byte belongs to it
      cases read
      rfl
    all_goals exact closed_scanString_cons (ih _) read

theorem closed_readString : readString.Closed := by
  intro p s rest q read
  obtain ⟨⟨token, left⟩, scanned, eq⟩ := map_eq_some_iff.mp read
  cases eq
  rw [readString, closed_scanString .body q scanned]
  rfl

/-! ## Scalars are read back -/

/-- No literal or number goes on here. -/
def Ends (rest : List UInt8) : Prop := ∀ b ∈ rest.head?, scalarByte b = false

variable {text : List Char}

/-- A token of scalar bytes is read for what it means. -/
theorem readScalar_token {token rest : List UInt8} {d : Doc}
    (own : ∀ b ∈ token, scalarByte b) (ends : Ends rest)
    (chars : (token.map fun b => Char.ofNat b.toNat) = text) (means : scalarDoc text = some d) :
    readScalar (token ++ rest) = some (d, rest) := by
  rw [readScalar, Reader.span_append own ends]
  simp only [bind_some, chars, means, map_some]

theorem steady_readScalar : readScalar.Steady := by
  intro p d rest q read more
  obtain ⟨⟨token, left⟩, spanned, read⟩ := bind_eq_some_iff.mp read
  obtain ⟨d', means, eq⟩ := map_eq_some_iff.mp read
  cases eq
  rw [readScalar, Reader.steady_span _ q spanned more]
  simp only [bind_some, means, map_some]

/-- ASCII text is read for its characters. -/
theorem map_ascii (low : ∀ c ∈ text, c.toNat < 128) :
    ((text.map fun c => UInt8.ofNat c.toNat).map fun b => Char.ofNat b.toNat) = text := by
  rw [map_map]
  refine (map_congr_left fun c mem => ?_).trans (map_id _)
  have small := low c mem
  simp only [comp_apply, id_eq]
  rw [toNat_ofNat_of_lt (by omega), Char.ofNat_toNat]

/-- The characters of an integer literal. -/
def integerText (n : ℤ) : List Char :=
  (if n < 0 then ['-'] else []) ++ Nat.toDigits 10 n.natAbs

theorem intText_eq (n : ℤ) : intText n = (integerText n).map fun c => UInt8.ofNat c.toNat := by
  rw [intText, integerText, map_append]
  split_ifs <;> rfl

theorem isDigit_of_mem_integerText {n : ℤ} (mem : c ∈ integerText n) : c = '-' ∨ c.isDigit := by
  rcases mem_append.mp mem with sign | digit
  · split_ifs at sign <;> simp_all
  · exact .inr (Nat.isDigit_of_mem_toDigits (by decide) (by decide) digit)

theorem toNat_of_isDigit (h : c.isDigit) : 48 ≤ c.toNat ∧ c.toNat ≤ 57 := by
  simp only [Char.isDigit, and_eq_true, decide_eq_true_eq] at h
  exact ⟨h.1, h.2⟩

/-- Only zero is written with a leading zero. -/
theorem tail_of_toDigits_eq_zero {m : ℕ} (h : Nat.toDigits 10 m = '0' :: text) :
    m = 0 ∧ text = [] := by
  induction m using Nat.strongRecOn generalizing text with
  | ind m ih =>
    by_cases small : m < 10
    · rw [Nat.toDigits_of_lt_base small, List.cons.injEq] at h
      have digits : ∀ k < 10, k.digitChar = '0' → k = 0 := by decide
      exact ⟨digits m small h.1, h.2.symm⟩
    · rw [Nat.toDigits_of_base_le (by decide) (Nat.le_of_not_lt small)] at h
      cases shape : Nat.toDigits 10 (m / 10) with
      | nil => exact absurd shape Nat.toDigits_ne_nil
      | cons c text' =>
        rw [shape, cons_append, List.cons.injEq] at h
        have zero := (ih (m / 10) (by omega) (h.1 ▸ shape)).1
        omega

theorem skipInteger_toDigits (m : ℕ) : skipInteger (Nat.toDigits 10 m) = some [] := by
  have digits : ∀ c ∈ Nat.toDigits 10 m, c.isDigit :=
    fun c mem => Nat.isDigit_of_mem_toDigits (by decide) (by decide) mem
  unfold skipInteger
  split
  next text shape => rw [(tail_of_toDigits_eq_zero shape).2]
  next =>
    have all : (Nat.toDigits 10 m).takeWhile Char.isDigit = Nat.toDigits 10 m :=
      takeWhile_eq_self_iff.mpr digits
    rw [skipDigits, all, if_neg Nat.toDigits_ne_nil, dropWhile_eq_nil_iff.mpr digits]

/-- The sign of an integer literal is told apart from its digits. -/
theorem unsigned_integerText (n : ℤ) :
    (integerText n).head? = some '-' ∧ n < 0 ∧ (integerText n).tail = Nat.toDigits 10 n.natAbs ∨
    (integerText n).head? ≠ some '-' ∧ 0 ≤ n ∧ integerText n = Nat.toDigits 10 n.natAbs := by
  unfold integerText
  by_cases negative : n < 0
  · exact .inl ⟨by simp [negative], negative, by simp [negative]⟩
  · refine .inr ⟨?_, by omega, by simp [negative]⟩
    rw [if_neg negative, nil_append]
    intro sign
    have digit := Nat.isDigit_of_mem_toDigits (by decide) (by decide) (mem_of_mem_head? sign)
    exact absurd digit (by decide)

theorem isNumber_integerText (n : ℤ) : isNumber (integerText n) := by
  rcases unsigned_integerText n with ⟨sign, -, digits⟩ | ⟨sign, -, digits⟩
  · simp [isNumber, sign, digits, skipInteger_toDigits, skipFraction, skipExponent]
  · rw [isNumber, if_neg sign, digits]
    simp [skipInteger_toDigits, skipFraction, skipExponent]

theorem integerValue_integerText (n : ℤ) : integerValue (integerText n) = n := by
  rcases unsigned_integerText n with ⟨sign, negative, digits⟩ | ⟨sign, positive, digits⟩
  · rw [integerValue, if_pos sign, digits, Nat.ofDigitChars_toDigits (by decide) (by decide)]
    omega
  · rw [integerValue, if_neg sign, digits, Nat.ofDigitChars_toDigits (by decide) (by decide)]
    omega

/-- Zero is written without a sign. -/
theorem integerText_ne_minus_zero (n : ℤ) : integerText n ≠ ['-', '0'] := by
  intro same
  rcases unsigned_integerText n with ⟨-, negative, digits⟩ | ⟨sign, -, -⟩
  · have zero := (tail_of_toDigits_eq_zero (digits.symm.trans (congrArg List.tail same))).1
    omega
  · exact sign (congrArg List.head? same)

theorem scalarDoc_integerText (n : ℤ) : scalarDoc (integerText n) = some (.int n) := by
  have word : ∀ text : List Char, (∃ c ∈ text, c ≠ '-' ∧ c.isDigit = false) →
      integerText n ≠ text := by
    rintro text ⟨c, mem, sign, digit⟩ rfl
    rcases isDigit_of_mem_integerText mem with rfl | isDigit
    · exact sign rfl
    · rw [digit] at isDigit
      cases isDigit
  have digits : (((integerText n).all fun c => c.isDigit || c == '-') &&
      integerText n != ['-', '0']) := by
    rw [and_eq_true, bne_iff_ne, all_eq_true]
    refine ⟨?_, integerText_ne_minus_zero n⟩
    intro c mem
    rcases isDigit_of_mem_integerText mem with rfl | digit
    · rfl
    · rw [digit, Bool.true_or]
  rw [scalarDoc, if_neg (word _ ⟨'n', by decide⟩), if_neg (word _ ⟨'t', by decide⟩),
    if_neg (word _ ⟨'f', by decide⟩), if_pos (isNumber_integerText n), if_pos digits,
    integerValue_integerText]

end AutoAgent.Json
