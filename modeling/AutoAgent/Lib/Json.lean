import AutoAgent.Lib.GoString
import AutoAgent.Lib.Reader

/-!
# JSON documents

`Json σ` is the tree of a JSON text with strings of type `σ`.  Two instances
matter.  `GoAny` is the value Go holds in an `any` variable, with Go strings at
the leaves; `Doc` is the text itself, with `JsonString`s at the leaves.

The two differ in one point: `json.Marshal` writes a stray byte of a string as the
escape of U+FFFD, and reading that escape back gives the rune U+FFFD and not the
byte.  A `JsonString` therefore keeps the escape apart from the character, encoding
is total, and decoding inverts it exactly on the strings without stray bytes.

**Numbers** keep their literals.  A decoder with `UseNumber` reads every one of them
(`decodeAny`); `json.Unmarshal` reads a number into a `float64`, which is named here
by the literal it comes from, and fails beyond the range of that type
(`Json.inRange`).

A Go map is listed in the order in which `json.Marshal` prints it, that is
strictly increasing by key, and decoding an object inserts its members into such
a list one by one.
-/

namespace AutoAgent

open List Reader

/-- A JSON tree with strings in `σ`.  Integer literals are numbers; every other
number literal is kept as its text. -/
inductive Json (σ : Type) where
  | null
  | bool (b : Bool)
  | int (n : ℤ)
  | float (text : String)
  | str (s : σ)
  | arr (items : List (Json σ))
  | obj (members : List (σ × Json σ))

/-- A character of a JSON string: written literally, or the escape by which
`json.Marshal` replaces a stray byte. -/
inductive JsonChar where
  | lit (c : Char)
  | replacement
  deriving DecidableEq, Repr

abbrev JsonString := List JsonChar

abbrev Doc := Json JsonString

/-- A Go value of type `any` as `json.Unmarshal` builds it. -/
abbrev GoAny := Json GoString

/-! ## Strings -/

namespace GoString

/-- A string as `json.Marshal` writes it. -/
def quote (s : GoString) : JsonString :=
  s.runes.map fun
    | .rune c => .lit c
    | .invalid _ => .replacement

/-- A JSON string as `json.Unmarshal` reads it. -/
def unquote (text : JsonString) : GoString :=
  ⟨text.map fun
    | .lit c => .rune c
    | .replacement => .rune '�'⟩

/-- Reading back what was written recovers a string without stray bytes. -/
theorem unquote_quote {s : GoString} (h : s.valid) : unquote s.quote = s := by
  obtain ⟨runes⟩ := s
  simp only [valid, all_eq_true] at h
  simp only [unquote, quote, map_map, GoString.mk.injEq]
  conv_rhs => rw [← map_id runes]
  refine map_congr_left fun r mem => ?_
  cases r with
  | rune c => rfl
  | invalid b => exact absurd (h _ mem) (by simp [GoRune.isRune])

/-- What is read has no stray bytes. -/
theorem valid_unquote (text : JsonString) : (unquote text).valid := by
  simp only [valid, unquote, all_map, all_eq_true, comp_apply]
  intro c _
  cases c <;> rfl

/-- The sort key of a map key: its code points. -/
def codes (s : GoString) : List ℕ :=
  s.runes.map fun
    | .rune c => c.toNat
    | .invalid b => b.toNat

/-- The order in which `json.Marshal` prints the keys of a map. -/
def before (s t : GoString) : Bool := decide (s.codes < t.codes)

theorem not_before_self (s : GoString) : s.before s = false := by
  simp [before]

variable {s t : GoString}

theorem not_before_of_before (h : s.before t) : t.before s = false := by
  simp only [before, decide_eq_true_eq, decide_eq_false_iff_not] at *
  exact List.lt_asymm h

/-- Strings without stray bytes are told apart by their code points. -/
theorem eq_of_codes_eq (hs : s.valid) (ht : t.valid) (same : s.codes = t.codes) : s = t := by
  obtain ⟨rs⟩ := s
  obtain ⟨ts⟩ := t
  simp only [codes, valid, all_eq_true] at same hs ht
  congr 1
  induction rs generalizing ts with
  | nil => cases ts <;> simp_all
  | cons r rs ih =>
    cases ts with
    | nil => simp at same
    | cons r' ts =>
      simp only [map_cons, List.cons.injEq] at same
      have tails := ih ts same.2 (fun r mem => hs r (mem_cons_of_mem _ mem))
        fun r mem => ht r (mem_cons_of_mem _ mem)
      have first := hs r (by simp)
      have first' := ht r' (by simp)
      cases r with
      | invalid b => cases first
      | rune c =>
        cases r' with
        | invalid b => cases first'
        | rune c' => rw [Char.toNat_inj.mp same.1, tails]

theorem before_trans {s t u : GoString} (h : s.before t) (h' : t.before u) : s.before u := by
  simp only [before, decide_eq_true_eq] at *
  exact List.lt_trans h h'

/-- Two strings without stray bytes are equal or in one of the two orders. -/
theorem before_of_not_before (hs : s.valid) (ht : t.valid) (ne : s ≠ t)
    (h : s.before t = false) : t.before s := by
  simp only [before, decide_eq_true_eq, decide_eq_false_iff_not] at *
  by_contra h'
  exact ne (eq_of_codes_eq hs ht (List.le_antisymm h' h))

end GoString

/-! ## Printed maps -/

section Members

variable {β : Type}

/-- Setting a key of a Go map, listed in printing order. -/
def insertMember : List (GoString × β) → GoString → β → List (GoString × β)
  | [], k, v => [(k, v)]
  | (k', v') :: ms, k, v =>
    if k = k' then (k, v) :: ms
    else if k.before k' then (k, v) :: (k', v') :: ms
    else (k', v') :: insertMember ms k v

/-- The listing of a Go map: keys strictly increase. -/
def sortedKeys : List (GoString × β) → Bool
  | [] => true
  | m :: ms => ms.all (fun m' => m.1.before m'.1) && sortedKeys ms

variable {ms : List (GoString × β)} {k : GoString}

/-- A key above all others goes to the end. -/
theorem insertMember_of_before (h : ∀ m ∈ ms, m.1.before k) (v : β) :
    insertMember ms k v = ms ++ [(k, v)] := by
  induction ms with
  | nil => rfl
  | cons m ms ih =>
    obtain ⟨k', v'⟩ := m
    have lower : k'.before k := h (k', v') (by simp)
    have differs : k ≠ k' := by
      rintro rfl
      simp [GoString.not_before_self] at lower
    rw [insertMember, if_neg differs, GoString.not_before_of_before lower]
    simp [ih fun m mem => h m (mem_cons_of_mem _ mem)]

/-- Inserting the members of a listing one by one rebuilds it. -/
theorem foldl_insertMember {ms pre : List (GoString × β)} (sorted : sortedKeys (pre ++ ms)) :
    ms.foldl (fun acc m => insertMember acc m.1 m.2) pre = pre ++ ms := by
  induction ms generalizing pre with
  | nil => simp
  | cons m ms ih =>
    have lower : ∀ m' ∈ pre, m'.1.before m.1 := by
      induction pre with
      | nil => simp
      | cons p pre ihp =>
        simp only [cons_append, sortedKeys, and_eq_true, all_eq_true] at sorted
        intro m' mem
        rcases mem_cons.mp mem with rfl | tail
        · exact sorted.1 m (by simp)
        · exact ihp sorted.2 m' tail
    rw [foldl_cons, insertMember_of_before lower, ih (by simpa using sorted)]
    simp

variable {v : β}

theorem mem_insertMember {m : GoString × β} (mem : m ∈ insertMember ms k v) :
    m = (k, v) ∨ m ∈ ms := by
  induction ms with
  | nil => simpa [insertMember] using mem
  | cons p ms ih =>
    rw [insertMember] at mem
    split_ifs at mem
    · exact (mem_cons.mp mem).imp_right (mem_cons_of_mem _)
    · exact mem_cons.mp mem
    · rcases mem_cons.mp mem with rfl | tail
      · exact .inr (mem_cons_self ..)
      · exact (ih tail).imp_right (mem_cons_of_mem _)

/-- Setting a key keeps the listing in order. -/
theorem sortedKeys_insertMember (valid : k.valid) (keys : ∀ m ∈ ms, m.1.valid)
    (sorted : sortedKeys ms) :
    sortedKeys (insertMember ms k v) := by
  induction ms with
  | nil => rfl
  | cons p ms ih =>
    obtain ⟨k', v'⟩ := p
    simp only [sortedKeys, and_eq_true, all_eq_true] at sorted
    rw [insertMember]
    split_ifs with same lower
    · subst same
      simpa [sortedKeys] using sorted
    · simp only [sortedKeys, and_eq_true, all_eq_true, forall_mem_cons]
      exact ⟨⟨lower, fun m mem => GoString.before_trans lower (sorted.1 m mem)⟩, sorted⟩
    · have upper := GoString.before_of_not_before valid (keys (k', v') (by simp)) same
        (eq_false_iff.mpr lower)
      simp only [sortedKeys, and_eq_true, all_eq_true]
      refine ⟨fun m mem => ?_, ih (fun m mem => keys m (mem_cons_of_mem _ mem)) sorted.2⟩
      rcases mem_insertMember mem with rfl | old
      · exact upper
      · exact sorted.1 m old

end Members

/-! ## Encoding and decoding of untyped values -/

namespace Json

variable {σ : Type}

mutual
/-- Nesting depth, as the decoder counts it. -/
def depth : Json σ → ℕ
  | .null | .bool _ | .int _ | .float _ | .str _ => 0
  | .arr items => depthItems items + 1
  | .obj members => depthMembers members + 1
/-- The greatest depth of the elements of an array. -/
def depthItems : List (Json σ) → ℕ
  | [] => 0
  | d :: ds => max d.depth (depthItems ds)
/-- The greatest depth of the members of an object. -/
def depthMembers : List (σ × Json σ) → ℕ
  | [] => 0
  | (_, d) :: ms => max d.depth (depthMembers ms)
end

/-- Induction on trees, with the hypothesis for every element and every member. -/
@[elab_as_elim]
theorem ind {motive : Json σ → Prop} (null : motive .null) (bool : ∀ b, motive (.bool b))
    (int : ∀ n, motive (.int n)) (float : ∀ text, motive (.float text)) (str : ∀ s, motive (.str s))
    (arr : ∀ items, (∀ d ∈ items, motive d) → motive (.arr items))
    (obj : ∀ members, (∀ m ∈ members, motive m.2) → motive (.obj members)) (d : Json σ) :
    motive d := by
  match d with
  | .null => exact null
  | .bool b => exact bool b
  | .int n => exact int n
  | .float text => exact float text
  | .str s => exact str s
  | .arr items => exact arr items fun d _ => ind null bool int float str arr obj d
  | .obj members => exact obj members fun m _ => ind null bool int float str arr obj m.2
termination_by sizeOf d
decreasing_by
  · simp_wf
    have := sizeOf_lt_of_mem ‹_ ∈ items›
    omega
  · have := sizeOf_lt_of_mem ‹m ∈ members›
    obtain ⟨key, v⟩ := m
    simp_all
    omega

theorem depthItems_le_iff {ds : List (Json σ)} {n : ℕ} :
    depthItems ds ≤ n ↔ ∀ d ∈ ds, d.depth ≤ n := by
  induction ds with
  | nil => simp [depthItems]
  | cons d ds ih => rw [depthItems, Nat.max_le, ih, forall_mem_cons]

theorem depthMembers_le_iff {ms : List (σ × Json σ)} {n : ℕ} :
    depthMembers ms ≤ n ↔ ∀ m ∈ ms, m.2.depth ≤ n := by
  induction ms with
  | nil => simp [depthMembers]
  | cons m ms ih => rw [depthMembers, Nat.max_le, ih, forall_mem_cons]

/-! ## The range of `float64` -/

/-- The least magnitude that is rounded beyond the greatest `float64`. -/
def float64Bound : ℕ := 2 ^ 1024 - 2 ^ 970

/-- The digits of an exponent as `strconv` reads them: none counts once they reach
ten thousand. -/
def exponentDigits (digits : List Char) : ℤ :=
  digits.foldl (fun e c => if e < 10000 then 10 * e + (c.toNat - 48) else e) 0

def exponentValue : List Char → ℤ
  | '-' :: digits => -exponentDigits digits
  | '+' :: digits => exponentDigits digits
  | digits => exponentDigits digits

/-- `strconv.ParseFloat` reads the literal without a range error. -/
def floatInRange (literal : String) : Bool :=
  let mantissa := literal.toList.takeWhile fun c => c != 'e' && c != 'E'
  let fraction := (mantissa.dropWhile (· != '.')).tail
  let exponent := exponentValue (literal.toList.drop (mantissa.length + 1)) - fraction.length
  let digits := Nat.ofDigitChars 10 (mantissa.filter Char.isDigit) 0
  decide (digits * 10 ^ exponent.toNat < float64Bound * 10 ^ (-exponent).toNat)

mutual
/-- Every number of the tree is within the range of `float64`. -/
def inRange : Json σ → Bool
  | .null | .bool _ | .str _ => true
  | .int n => decide (n.natAbs < float64Bound)
  | .float literal => floatInRange literal
  | .arr items => inRangeItems items
  | .obj members => inRangeMembers members
def inRangeItems : List (Json σ) → Bool
  | [] => true
  | d :: ds => d.inRange && inRangeItems ds
def inRangeMembers : List (σ × Json σ) → Bool
  | [] => true
  | (_, d) :: ms => d.inRange && inRangeMembers ms
end

theorem inRangeItems_iff {ds : List (Json σ)} : inRangeItems ds ↔ ∀ d ∈ ds, d.inRange := by
  induction ds with
  | nil => simp [inRangeItems]
  | cons d ds ih => simp [inRangeItems, ih]

theorem inRangeMembers_iff {ms : List (σ × Json σ)} :
    inRangeMembers ms ↔ ∀ m ∈ ms, m.2.inRange := by
  induction ms with
  | nil => simp [inRangeMembers]
  | cons m ms ih => simp [inRangeMembers, ih]

example : floatInRange "1.7976931348623157e308" ∧ ¬floatInRange "1e309" ∧
    ¬floatInRange "-17976931348623159e+292" ∧ floatInRange "1e-99999" := by decide +kernel

/-! ## Texts -/

def ascii (text : String) : List UInt8 := text.toList.map fun c => UInt8.ofNat c.toNat

/-- The escape by code point, four lower-case hexadecimal digits. -/
def unicodeEscape (n : ℕ) : List UInt8 :=
  ascii "\\u" ++ [n / 4096 % 16, n / 256 % 16, n / 16 % 16, n % 16].map fun d =>
    UInt8.ofNat (if d < 10 then 48 + d else 87 + d)

/-- A character of a string as `json.Marshal` writes it, HTML characters
escaped. -/
def charText : JsonChar → List UInt8
  | .replacement => ascii "\\ufffd"
  | .lit '"' => ascii "\\\""
  | .lit '\\' => ascii "\\\\"
  | .lit '\n' => ascii "\\n"
  | .lit '\r' => ascii "\\r"
  | .lit '\t' => ascii "\\t"
  | .lit '\x08' => ascii "\\b"
  | .lit '\x0c' => ascii "\\f"
  | .lit c =>
    if c.toNat < 0x20 ∨ c ∈ ['<', '>', '&'] ∨ c.toNat = 0x2028 ∨ c.toNat = 0x2029
    then unicodeEscape c.toNat
    else String.utf8EncodeChar c

def stringText (s : JsonString) : List UInt8 := ascii "\"" ++ s.flatMap charText ++ ascii "\""

def intText (n : ℤ) : List UInt8 :=
  (if n < 0 then ascii "-" else []) ++ (Nat.toDigits 10 n.natAbs).map fun c => UInt8.ofNat c.toNat

mutual
/-- The compact text `json.Marshal` writes. -/
def text : Doc → List UInt8
  | .null => ascii "null"
  | .bool b => if b then ascii "true" else ascii "false"
  | .int n => intText n
  | .float literal => ascii literal
  | .str s => stringText s
  | .arr items => ascii "[" ++ itemsText items ++ ascii "]"
  | .obj members => ascii "\x7b" ++ membersText members ++ ascii "\x7d"
/-- The elements of an array, separated by commas. -/
def itemsText : List Doc → List UInt8
  | [] => []
  | [d] => text d
  | d :: ds => text d ++ ascii "," ++ itemsText ds
/-- The members of an object, separated by commas. -/
def membersText : List (JsonString × Doc) → List UInt8
  | [] => []
  | [(k, d)] => stringText k ++ ascii ":" ++ text d
  | (k, d) :: ms => stringText k ++ ascii ":" ++ text d ++ ascii "," ++ membersText ms
end

/-- The number of bytes of the compact text. -/
def size (d : Doc) : ℕ := (text d).length

/-- A character takes at most six bytes. -/
theorem length_charText_le (c : JsonChar) : (charText c).length ≤ 6 := by
  unfold charText
  split
  case h_9 c _ _ _ _ _ _ _ =>
    split
    · simp [unicodeEscape, ascii]
    · rw [String.length_utf8EncodeChar]
      exact le_trans (Char.utf8Size_le_four c) (by decide)
  all_goals decide

/-- A string takes at most six bytes a character, and the quotes. -/
theorem length_stringText_le (s : JsonString) : (stringText s).length ≤ 6 * s.length + 2 := by
  have body : (s.flatMap charText).length ≤ 6 * s.length := by
    induction s with
    | nil => simp
    | cons c cs ih =>
      have := length_charText_le c
      simp only [flatMap_cons, length_append, length_cons]
      omega
  simp only [stringText, length_append, ascii, length_map]
  have mark : "\"".toList.length = 1 := by decide
  omega

theorem size_str_le (s : JsonString) : (str s : Doc).size ≤ 6 * s.length + 2 := by
  simpa [size, text] using length_stringText_le s

theorem itemsText_eq (ds : List Doc) : itemsText ds = separated 44 text ds := by
  induction ds using separated.induct with
  | case1 | case2 => rfl
  | case3 d d' ds ih => simp [itemsText, separated, ih, ascii]

def memberText (m : JsonString × Doc) : List UInt8 := stringText m.1 ++ ascii ":" ++ text m.2

theorem membersText_eq (ms : List (JsonString × Doc)) :
    membersText ms = separated 44 memberText ms := by
  induction ms using separated.induct with
  | case1 | case2 => rfl
  | case3 m m' ms ih => simp [membersText, separated, memberText, ih, ascii]

theorem length_memberText (m : JsonString × Doc) :
    (memberText m).length = (stringText m.1).length + 1 + m.2.size := by
  have colon : (ascii ":").length = 1 := by decide
  rw [memberText, length_append, length_append, colon, size]

theorem size_arr (ds : List Doc) :
    (arr ds : Doc).size = 2 + (ds.map size).sum + (ds.length - 1) := by
  have marks : (ascii "[").length = 1 ∧ (ascii "]").length = 1 := by decide
  have items : (itemsText ds).length = (ds.map size).sum + (ds.length - 1) :=
    itemsText_eq ds ▸ length_separated 44 text ds
  change (text (arr ds)).length = _
  simp only [text, length_append, items, marks.1, marks.2]
  omega

theorem size_obj (ms : List (JsonString × Doc)) : (obj ms : Doc).size =
    2 + (ms.map fun m => (stringText m.1).length + 1 + m.2.size).sum + (ms.length - 1) := by
  have marks : (ascii "\x7b").length = 1 ∧ (ascii "\x7d").length = 1 := by decide
  change (text (obj ms)).length = _
  simp only [text, length_append, membersText_eq, length_separated, length_memberText,
    marks.1, marks.2]
  omega

/-- An object takes the bytes of its members and of their punctuation. -/
theorem size_obj_le (ms : List (JsonString × Doc)) :
    (obj ms : Doc).size ≤ 2 + (ms.map fun m => 6 * m.1.length + 4 + m.2.size).sum := by
  have each : (ms.map fun m => (stringText m.1).length + 1 + m.2.size).sum + ms.length ≤
      (ms.map fun m => 6 * m.1.length + 4 + m.2.size).sum := by
    induction ms with
    | nil => exact le_rfl
    | cons m ms ih =>
      have key := length_stringText_le m.1
      simp only [map_cons, sum_cons, length_cons]
      omega
  rw [size_obj]
  omega

end Json

mutual
def encodeAny : GoAny → Doc
  | .null => .null
  | .bool b => .bool b
  | .int n => .int n
  | .float text => .float text
  | .str s => .str s.quote
  | .arr items => .arr (encodeItems items)
  | .obj members => .obj (encodeMembers members)
def encodeItems : List GoAny → List Doc
  | [] => []
  | v :: vs => encodeAny v :: encodeItems vs
def encodeMembers : List (GoString × GoAny) → List (JsonString × Doc)
  | [] => []
  | (k, v) :: ms => (k.quote, encodeAny v) :: encodeMembers ms
end

mutual
/-- Decoding into an untyped variable with every number literal kept, as a decoder
with `UseNumber` does. -/
def decodeAny : Doc → GoAny
  | .null => .null
  | .bool b => .bool b
  | .int n => .int n
  | .float text => .float text
  | .str s => .str (GoString.unquote s)
  | .arr items => .arr (decodeItems items)
  | .obj members => .obj (decodeMembers members [])
def decodeItems : List Doc → List GoAny
  | [] => []
  | d :: ds => decodeAny d :: decodeItems ds
/-- The members of an object, set one by one in the map read so far. -/
def decodeMembers : List (JsonString × Doc) → List (GoString × GoAny) → List (GoString × GoAny)
  | [], acc => acc
  | (k, d) :: ms, acc => decodeMembers ms (insertMember acc (GoString.unquote k) (decodeAny d))
end

mutual
/-- An untyped value whose strings have no stray byte and whose maps are listed
in printing order: the values that survive a trip through JSON. -/
def faithfulAny : GoAny → Bool
  | .null | .bool _ | .int _ | .float _ => true
  | .str s => s.valid
  | .arr items => faithfulItems items
  | .obj members => sortedKeys members && faithfulMembers members
def faithfulItems : List GoAny → Bool
  | [] => true
  | v :: vs => faithfulAny v && faithfulItems vs
/-- Every key and every value is faithful. -/
def faithfulMembers : List (GoString × GoAny) → Bool
  | [] => true
  | (k, v) :: ms => k.valid && faithfulAny v && faithfulMembers ms
end

section

variable {ms : List (GoString × GoAny)}

theorem faithfulItems_iff {vs : List GoAny} : faithfulItems vs ↔ ∀ v ∈ vs, faithfulAny v := by
  induction vs with
  | nil => simp [faithfulItems]
  | cons v vs ih => simp [faithfulItems, ih]

theorem faithfulMembers_iff : faithfulMembers ms ↔ ∀ m ∈ ms, m.1.valid ∧ faithfulAny m.2 := by
  induction ms with
  | nil => simp [faithfulMembers]
  | cons m ms ih => simp [faithfulMembers, ih]

theorem encodeItems_eq_map (vs : List GoAny) : encodeItems vs = vs.map encodeAny := by
  induction vs with
  | nil => rfl
  | cons v vs ih => simp [encodeItems, ih]

theorem decodeItems_eq_map (ds : List Doc) : decodeItems ds = ds.map decodeAny := by
  induction ds with
  | nil => rfl
  | cons d ds ih => simp [decodeItems, ih]

theorem encodeMembers_eq_map (ms : List (GoString × GoAny)) :
    encodeMembers ms = ms.map fun m => (m.1.quote, encodeAny m.2) := by
  induction ms with
  | nil => rfl
  | cons m ms ih => simp [encodeMembers, ih]

theorem decodeMembers_eq_foldl (ms : List (JsonString × Doc)) (acc : List (GoString × GoAny)) :
    decodeMembers ms acc =
      ms.foldl (fun acc m => insertMember acc (GoString.unquote m.1) (decodeAny m.2)) acc := by
  induction ms generalizing acc with
  | nil => rfl
  | cons m ms ih => exact ih _

theorem decodeAny_encodeAny {v : GoAny} (h : faithfulAny v) : decodeAny (encodeAny v) = v := by
  induction v using Json.ind with
  | null | bool | int | float => rfl
  | str s => rw [encodeAny, decodeAny, GoString.unquote_quote h]
  | arr items ih =>
    rw [faithfulAny, faithfulItems_iff] at h
    rw [encodeAny, decodeAny, encodeItems_eq_map, decodeItems_eq_map, map_map]
    have same := map_congr_left fun d mem => ih d mem (h d mem)
    exact congrArg Json.arr (same.trans (map_id _))
  | obj members ih =>
    rw [faithfulAny, and_eq_true, faithfulMembers_iff] at h
    obtain ⟨sorted, faithful⟩ := h
    rw [encodeAny, decodeAny, encodeMembers_eq_map, decodeMembers_eq_foldl, foldl_map]
    have rebuilt := @foldl_insertMember _ members [] sorted
    refine congrArg Json.obj (Eq.trans ?_ rebuilt)
    refine foldl_ext _ _ _ fun acc m mem => ?_
    rw [GoString.unquote_quote (faithful m mem).1, ih m mem (faithful m mem).2]

/-- Writing keeps every number. -/
theorem inRange_encodeAny (v : GoAny) : (encodeAny v).inRange = v.inRange := by
  rw [Bool.eq_iff_iff]
  induction v using Json.ind with
  | null | bool | int | float | str => rfl
  | arr items ih =>
    rw [encodeAny, encodeItems_eq_map, Json.inRange, Json.inRange, Json.inRangeItems_iff,
      Json.inRangeItems_iff, forall_mem_map]
    exact forall₂_congr ih
  | obj members ih =>
    rw [encodeAny, encodeMembers_eq_map, Json.inRange, Json.inRange, Json.inRangeMembers_iff,
      Json.inRangeMembers_iff, forall_mem_map]
    exact forall₂_congr ih

/-! ## Copies -/

/-- What is read from an object is among its members. -/
theorem mem_decodeMembers {ms : List (JsonString × Doc)} {acc : List (GoString × GoAny)}
    {m : GoString × GoAny} (mem : m ∈ decodeMembers ms acc) :
    m ∈ acc ∨ ∃ e ∈ ms, m = (GoString.unquote e.1, decodeAny e.2) := by
  induction ms generalizing acc with
  | nil => exact .inl mem
  | cons e ms ih =>
    rcases ih mem with old | ⟨e', there, eq⟩
    · rcases mem_insertMember old with rfl | old
      · exact .inr ⟨e, by simp, rfl⟩
      · exact .inl old
    · exact .inr ⟨e', mem_cons_of_mem _ there, eq⟩

theorem sortedKeys_decodeMembers {ms : List (JsonString × Doc)} {acc : List (GoString × GoAny)}
    (sorted : sortedKeys acc) (valid : ∀ m ∈ acc, m.1.valid) :
    sortedKeys (decodeMembers ms acc) := by
  induction ms generalizing acc with
  | nil => exact sorted
  | cons e ms ih =>
    refine ih (sortedKeys_insertMember (GoString.valid_unquote e.1) valid sorted) fun m mem => ?_
    rcases mem_insertMember mem with rfl | old
    · exact GoString.valid_unquote e.1
    · exact valid m old

/-- What is read from JSON survives another trip. -/
theorem faithfulAny_decodeAny (d : Doc) : faithfulAny (decodeAny d) := by
  induction d using Json.ind with
  | null | bool | int | float => rfl
  | str s => exact GoString.valid_unquote s
  | arr items ih =>
    rw [decodeAny, faithfulAny, faithfulItems_iff, decodeItems_eq_map, forall_mem_map]
    exact ih
  | obj members ih =>
    rw [decodeAny, faithfulAny, sortedKeys_decodeMembers rfl (by simp), Bool.true_and,
      faithfulMembers_iff]
    intro m mem
    obtain old | ⟨e, there, rfl⟩ := mem_decodeMembers mem
    · cases old
    · exact ⟨GoString.valid_unquote e.1, ih e there⟩

/-- Reading invents no number. -/
theorem inRange_decodeAny {d : Doc} (h : d.inRange) : (decodeAny d).inRange := by
  induction d using Json.ind with
  | null | bool | int | float | str => exact h
  | arr items ih =>
    rw [Json.inRange, Json.inRangeItems_iff] at h
    rw [decodeAny, decodeItems_eq_map, Json.inRange, Json.inRangeItems_iff, forall_mem_map]
    exact fun d mem => ih d mem (h d mem)
  | obj members ih =>
    rw [Json.inRange, Json.inRangeMembers_iff] at h
    rw [decodeAny, Json.inRange, Json.inRangeMembers_iff]
    intro m mem
    obtain old | ⟨e, there, rfl⟩ := mem_decodeMembers mem
    · cases old
    · exact ih e there (h e there)

/-- What is read from JSON nests no deeper than the text. -/
theorem depth_encodeAny_decodeAny_le (d : Doc) : (encodeAny (decodeAny d)).depth ≤ d.depth := by
  induction d using Json.ind with
  | null | bool | int | float | str => exact le_rfl
  | arr items ih =>
    rw [decodeAny, encodeAny, encodeItems_eq_map, decodeItems_eq_map]
    refine Nat.succ_le_succ (Json.depthItems_le_iff.mpr ?_)
    simp only [forall_mem_map]
    exact fun d mem => le_trans (ih d mem) (Json.depthItems_le_iff.mp le_rfl d mem)
  | obj members ih =>
    rw [decodeAny, encodeAny, encodeMembers_eq_map]
    refine Nat.succ_le_succ (Json.depthMembers_le_iff.mpr (forall_mem_map.mpr fun m mem => ?_))
    obtain old | ⟨e, there, rfl⟩ := mem_decodeMembers mem
    · cases old
    · exact le_trans (ih e there) (Json.depthMembers_le_iff.mp le_rfl e there)

end

end AutoAgent
