import AutoAgent.Lib.JsonRoundTrip

/-!
# Canonical texts

A text that is decoded and encoded again is in canonical form: compact, its members in
order and each of them once, its strings escaped the one way the encoder escapes them.
Decoding keeps the literal of a number, so the canonical form keeps it too.

**One trip is enough.**  What is read from a text is well formed and nests no deeper
than the reader allows (`wellFormed_of_value`, `depth_of_value`), and stays so after a
trip through an untyped value.  The canonical text is therefore read back to what it was
written from (`value_canonical`), it is valid UTF-8 (`validUTF8_text`), and it is its own
canonical form.
-/

namespace AutoAgent.Json

open List

/-! ## What is read -/

variable {n : ℕ}

/-- A document as the reader may return it within a nesting depth. -/
def Readable (n : ℕ) (d : Doc) : Prop := wellFormed d ∧ d.depth ≤ n

theorem toNat_charOfNat (b : UInt8) : (Char.ofNat b.toNat).toNat = b.toNat := by
  have small := b.toNat_lt
  have valid : b.toNat.isValidChar := .inl (by omega)
  rw [Char.ofNat, dif_pos valid]
  rfl

/-- The characters of a token are those a number may have. -/
theorem own_of_scalarByte {b : UInt8} (h : scalarByte b) :
    b.toNat < 128 ∧ scalarByte (UInt8.ofNat (Char.ofNat b.toNat).toNat) := by
  have high : ∀ k : Fin 128, scalarByte (UInt8.ofNat (k.val + 128)) = false := by
    decide +kernel
  have byte : UInt8.ofNat b.toNat = b := UInt8.ofNat_toNat
  refine ⟨?_, by rwa [toNat_charOfNat, byte]⟩
  by_contra above
  have small := b.toNat_lt
  have other := high ⟨b.toNat - 128, by omega⟩
  rw [show b.toNat - 128 + 128 = b.toNat by omega, byte, h] at other
  cases other

variable {bytes rest : List UInt8} {d : Doc}

theorem readable_of_scalar (n : ℕ) (read : readScalar bytes = some (d, rest)) : Readable n d := by
  rw [readScalar, Reader.span, bind_some, map_eq_some_iff] at read
  obtain ⟨scalar, means, eq⟩ := read
  obtain ⟨rfl, -⟩ := Prod.mk.inj eq
  have own : ∀ c ∈ (bytes.takeWhile scalarByte).map fun b => Char.ofNat b.toNat,
      c.toNat < 128 ∧ scalarByte (UInt8.ofNat c.toNat) := by
    intro c mem
    obtain ⟨b, taken, rfl⟩ := mem_map.mp mem
    have kind := own_of_scalarByte (mem_takeWhile_imp taken)
    exact ⟨by rw [toNat_charOfNat]; exact kind.1, kind.2⟩
  -- only a float literal has something to check
  cases scalar with
  | float literal =>
    obtain rfl := eq_of_scalarDoc_float means
    refine ⟨?_, Nat.zero_le n⟩
    simp only [wellFormed, isFloatLiteral, String.toList_ofList, means, Bool.and_true,
      all_eq_true, and_eq_true, decide_eq_true_eq]
    exact own
  | null | bool | int | str => exact ⟨rfl, Nat.zero_le n⟩
  | arr | obj =>
    unfold scalarDoc at means
    split_ifs at means <;> cases means

theorem readable_of_member {inner : Reader UInt8 Doc}
    (each : ∀ ⦃p d rest⦄, inner p = some (d, rest) → Readable n d) {m : JsonString × Doc}
    (read : readMember inner bytes = some (m, rest)) : Readable n m.2 := by
  unfold readMember at read
  split at read
  · cases read
  · split_ifs at read
    obtain ⟨⟨name, left⟩, -, read⟩ := bind_eq_some_iff.mp read
    dsimp only at read
    split at read
    · cases read
    · split_ifs at read
      obtain ⟨⟨d, left⟩, value, eq⟩ := map_eq_some_iff.mp read
      cases eq
      exact each value

/-- **What is read is well formed** and nests no deeper than the reader allows. -/
theorem readable_of_value (read : value n bytes = some (d, rest)) : Readable n d := by
  -- a value inside a bracket is read with one level less
  have level : ∀ {inner : Option (Reader UInt8 Doc)} {n : ℕ} {bytes rest : List UInt8} {d : Doc},
      (∀ r ∈ inner, ∃ k, n = k + 1 ∧ ∀ ⦃p d rest⦄, r p = some (d, rest) → Readable k d) →
      readValue inner bytes = some (d, rest) → Readable n d := by
    intro inner n bytes rest d below read
    unfold readValue at read
    split at read
    · cases read
    · split_ifs at read
      · obtain ⟨r, here, read⟩ := bind_eq_some_iff.mp read
        obtain ⟨k, rfl, each⟩ := below r here
        obtain ⟨⟨ms, left⟩, listing, eq⟩ := map_eq_some_iff.mp read
        cases eq
        have all := Reader.forall_mem_listing (P := fun m : JsonString × Doc => Readable k m.2)
          (fun _ _ _ => readable_of_member each) listing
        refine ⟨wellFormedMembers_iff.mpr fun m mem => (all m mem).1, ?_⟩
        exact Nat.succ_le_succ (depthMembers_le_iff.mpr fun m mem => (all m mem).2)
      · obtain ⟨r, here, read⟩ := bind_eq_some_iff.mp read
        obtain ⟨k, rfl, each⟩ := below r here
        obtain ⟨⟨ds, left⟩, listing, eq⟩ := map_eq_some_iff.mp read
        cases eq
        have all := Reader.forall_mem_listing each listing
        refine ⟨wellFormedItems_iff.mpr fun d mem => (all d mem).1, ?_⟩
        exact Nat.succ_le_succ (depthItems_le_iff.mpr fun d mem => (all d mem).2)
      · obtain ⟨⟨s, left⟩, -, eq⟩ := map_eq_some_iff.mp read
        cases eq
        exact ⟨rfl, Nat.zero_le n⟩
      · exact readable_of_scalar n read
  induction n generalizing bytes rest d with
  | zero => exact level (by simp) read
  | succ n ih =>
    refine level (fun r here => ⟨n, rfl, ?_⟩) read
    cases Option.mem_some_iff.mp here
    exact fun _ _ _ => ih

/-! ## After a trip through an untyped value -/

/-- A trip through an untyped value keeps a document well formed. -/
theorem wellFormed_encodeAny_decodeAny (d : Doc) (h : wellFormed d) :
    wellFormed (encodeAny (decodeAny d)) := by
  induction d using Json.ind with
  | null | bool | int | str => rfl
  | float => exact h
  | arr items ih =>
    rw [wellFormed, wellFormedItems_iff] at h
    rw [decodeAny, encodeAny, wellFormed, wellFormedItems_iff, encodeItems_eq_map,
      decodeItems_eq_map]
    simp only [forall_mem_map]
    exact fun d mem => ih d mem (h d mem)
  | obj members ih =>
    rw [wellFormed, wellFormedMembers_iff] at h
    rw [decodeAny, encodeAny, wellFormed, wellFormedMembers_iff, encodeMembers_eq_map,
      forall_mem_map]
    intro m mem
    obtain old | ⟨e, there, rfl⟩ := mem_decodeMembers mem
    · cases old
    · exact ih e there (h e there)

/-- The document of the canonical form. -/
def canonical (d : Doc) : Doc := encodeAny (decodeAny d)

/-- The canonical form decodes to the same value. -/
theorem decodeAny_canonical (d : Doc) : decodeAny (canonical d) = decodeAny d :=
  decodeAny_encodeAny (faithfulAny_decodeAny d)

/-- The canonical form is its own canonical form. -/
theorem canonical_canonical (d : Doc) : canonical (canonical d) = canonical d := by
  rw [canonical, decodeAny_canonical, canonical]

theorem Readable.canonical (h : Readable n d) : Readable n (canonical d) :=
  ⟨wellFormed_encodeAny_decodeAny d h.1, (depth_encodeAny_decodeAny_le d).trans h.2⟩

/-- The text of a document that may be read is read back. -/
theorem value_text_of_readable (h : Readable n d) :
    value n (text d) = some (d, []) := by
  have read := value_text h.1 n ends_nil
  rwa [append_nil, if_pos h.2] at read

/-! ## Texts are valid UTF-8 -/

/-- `utf8.Valid`. -/
def validUTF8 (bytes : List UInt8) : Bool := bytes.toByteArray.validateUTF8

/-- Bytes that encode characters. -/
def Encoded (bytes : List UInt8) : Prop :=
  ∃ cs : List Char, bytes = cs.flatMap String.utf8EncodeChar

theorem Encoded.valid {bytes : List UInt8} (h : Encoded bytes) : validUTF8 bytes := by
  obtain ⟨cs, rfl⟩ := h
  exact ByteArray.validateUTF8_eq_true_iff.mpr (.intro cs rfl)

theorem Encoded.append {p q : List UInt8} (hp : Encoded p) (hq : Encoded q) : Encoded (p ++ q) := by
  obtain ⟨cs, rfl⟩ := hp
  obtain ⟨ds, rfl⟩ := hq
  exact ⟨cs ++ ds, by simp⟩

theorem encoded_ascii {cs : List Char} (low : ∀ c ∈ cs, c.toNat < 128) :
    Encoded (cs.map fun c => UInt8.ofNat c.toNat) := by
  refine ⟨cs, ?_⟩
  induction cs with
  | nil => rfl
  | cons c cs ih =>
    rw [map_cons, flatMap_cons, utf8EncodeChar_of_ascii (low c (by simp)),
      ih fun c mem => low c (mem_cons_of_mem _ mem), singleton_append]

theorem encoded_literal {text : String} (low : text.toList.all fun c => c.toNat < 128) :
    Encoded (ascii text) :=
  encoded_ascii fun c mem => by simpa using all_eq_true.mp low c mem

theorem encoded_unicodeEscape (n : ℕ) : Encoded (unicodeEscape n) := by
  have digit : ∀ d < 16, Encoded [UInt8.ofNat (if d < 10 then 48 + d else 87 + d)] := by
    intro d small
    have char : ∀ d < 16, ((Char.ofNat (if d < 10 then 48 + d else 87 + d)).toNat =
        if d < 10 then 48 + d else 87 + d) ∧ (if d < 10 then 48 + d else 87 + d) < 128 := by decide
    refine ⟨[Char.ofNat (if d < 10 then 48 + d else 87 + d)], ?_⟩
    obtain ⟨code, low⟩ := char d small
    rw [flatMap_singleton, utf8EncodeChar_of_ascii (by rwa [code]), code]
  have mark : Encoded (ascii "\\u") := encoded_literal (by decide)
  have all := ((mark.append (digit (n / 4096 % 16) (Nat.mod_lt _ (by decide)))).append
    (digit (n / 256 % 16) (Nat.mod_lt _ (by decide)))).append
    ((digit (n / 16 % 16) (Nat.mod_lt _ (by decide))).append
      (digit (n % 16) (Nat.mod_lt _ (by decide))))
  simpa [unicodeEscape] using all

theorem encoded_charText (c : JsonChar) : Encoded (charText c) := by
  unfold charText
  split
  case h_9 c _ _ _ _ _ _ _ =>
    split_ifs
    · exact encoded_unicodeEscape _
    · exact ⟨[c], by simp⟩
  all_goals exact encoded_literal (by decide)

theorem spreads_encoded : Spreads Encoded where
  nil := ⟨[], rfl⟩
  append := Encoded.append
  mark b mem := by
    have single : ∀ b ∈ marks, [b] = [Char.ofNat b.toNat].flatMap String.utf8EncodeChar := by
      decide +kernel
    exact ⟨_, single b mem⟩
  char := encoded_charText
  scalar h := by
    rw [h.text]
    exact encoded_ascii fun c mem => (h.own c mem).1

/-- The text of a well-formed document encodes characters. -/
theorem encoded_text {d : Doc} (h : wellFormed d) : Encoded (text d) :=
  spreads_encoded.of_text h

/-! ## Sizes -/

/-- A quoted string is longer than the string by the quotes at least. -/
theorem length_le_stringText (s : JsonString) : s.length + 2 ≤ (stringText s).length := by
  have marks : (ascii "\"").length = 1 := by decide
  have body := length_le_flatMap_charText s
  simp only [stringText, length_append, marks]
  omega

/-- Every character takes as many bytes as its encoding at least. -/
theorem utf8Size_le_charText (c : Char) : c.utf8Size ≤ (charText (.lit c)).length := by
  have escape : ∀ n, (unicodeEscape n).length = 6 := fun n => by simp [unicodeEscape, ascii]
  unfold charText
  split
  case h_9 c _ _ _ _ _ _ _ eq =>
    cases eq
    split_ifs
    · rw [escape]
      exact (Char.utf8Size_le_four _).trans (by decide)
    · rw [String.length_utf8EncodeChar]
  case h_1 eq => cases eq
  all_goals
    rename_i eq
    cases eq
    decide

/-- The string is no longer than it is written. -/
theorem len_le_stringText (s : GoString) : s.len + 2 ≤ (stringText s.quote).length := by
  have marks : (ascii "\"").length = 1 := by decide
  have body : s.len ≤ (s.quote.flatMap charText).length := by
    unfold GoString.len GoString.quote
    induction s.runes with
    | nil => simp
    | cons r rs ih =>
      simp only [map_cons, sum_cons, flatMap_cons, length_append]
      refine Nat.add_le_add ?_ ih
      cases r with
      | rune c => exact utf8Size_le_charText c
      | invalid b => exact show 1 ≤ (charText .replacement).length by decide
  simp only [stringText, length_append, marks]
  omega

end AutoAgent.Json
