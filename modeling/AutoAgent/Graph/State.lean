import AutoAgent.Graph.Definition
import AutoAgent.Lib.JsonCanon

/-!
# Graph states and patches

A state is a map from field names to raw JSON values.  `ValidateState` accepts one under
a schema, `ApplyStatePatch` sets and deletes fields of one, and both return every value
in canonical form.

**Two measures.**  Before anything is decoded a state is measured roughly: two bytes, and
for every field its name, its value and four bytes.  After canonicalization its JSON
encoding is measured.  The encoding of `n > 0` fields with plain names is one byte
shorter than the rough measure, for it has `n - 1` commas.  A patch may therefore produce
a state of exactly the greatest size, which passes the second measure, and which the
first one refuses when the state is read again (`applyStatePatch_accepted_iff`).

The order in which a Go map is iterated is not fixed; an error of such a loop leaves open
which field it names.
-/

namespace AutoAgent.Graph

open Finmap

open Json

/-- `json.RawMessage`. -/
abbrev RawJSON := List UInt8

abbrev State := Finmap fun _ : GoString => RawJSON

structure StatePatch where
  set : State
  delete : List GoString

/-! ## Decoding -/

/-- `len(bytes.TrimSpace(raw)) == 0`; the number bounds the characters. -/
def blank : ℕ → RawJSON → Bool
  | _, [] => true
  | 0, _ :: _ => false
  | n + 1, b :: rest =>
    match (b :: rest).toByteArray.utf8DecodeChar? 0 with
    | some c => GoString.isSpace c && blank n ((b :: rest).drop c.utf8Size)
    | none => false

/-- `Decode` with `UseNumber`, and nothing but white space after the value. -/
def decodeOne (raw : RawJSON) : Option Doc :=
  (Json.value maxNestingDepth raw).bind fun (d, rest) =>
    if blank rest.length rest then some d else none

/-- The decoded value has the type of the field. -/
def StateValueType.accepts : StateValueType → Doc → Bool
  | .string, .str _ => true
  | .number, .int _ | .number, .float _ => true
  | .boolean, .bool _ => true
  | .object, .obj _ => true
  | .array, .arr _ => true
  | _, _ => false

def canonicalizeStateValue (field : StateField) (raw : RawJSON) : Except Message RawJSON := do
  require ((raw.length : ℤ) ≤ field.maxBytes) ⟨"state field %q exceeds %d bytes", [field.name]⟩
  require (validUTF8 raw) ⟨"state field %q is not valid UTF-8", [field.name]⟩
  match decodeOne raw with
  | none => .error ⟨"state field %q is not one JSON value", [field.name]⟩
  | some d => do
      require (field.type.accepts d)
        ⟨"state field %q does not have type %q", [field.name, field.type.text]⟩
      let canonical := Json.text (Json.canonical d)
      require ((canonical.length : ℤ) ≤ field.maxBytes)
        ⟨"state field %q exceeds %d bytes after canonicalization", [field.name]⟩
      return canonical

/-! ## Measures and loops over maps -/

/-- Every value of a map, where all of them are accepted. -/
def mapValues (f : GoString → RawJSON → Except Message RawJSON) (state : State) : Option State :=
  if ∀ e ∈ state.entries, (f e.1 e.2).isOk then
    some ⟨state.entries.map fun e => ⟨e.1, (f e.1 e.2).toOption.getD []⟩, by
      rw [← Multiset.nodup_keys, Multiset.keys, Multiset.map_map]
      exact Multiset.nodup_keys.mpr state.nodupKeys⟩
  else none

/-- The rough size: `addBoundedBytes` refuses an amount exactly when the sum passes the
limit. -/
def roughSize (state : State) : ℕ :=
  2 + (state.entries.map fun e => e.1.len + e.2.length + 4).sum

/-- The length of `json.Marshal(state)`; values in canonical form are copied. -/
def encodedSize (state : State) : ℕ :=
  2 + (state.entries.map fun e => (stringText e.1.quote).length + 1 + e.2.length).sum +
    (state.keys.card - 1)

/-! ## Schemas -/

/-- One round of `indexStateFields`. -/
def indexStateField (fields : List StateField) (field : StateField) :
    Except Message (List StateField) := do
  validateIdentifier field.name maxNodeIDBytes "state field"
  require (∀ other ∈ fields, other.name ≠ field.name) ⟨"state field %q is duplicate", [field.name]⟩
  require field.type.known ⟨"state field %q has invalid type %q", [field.name, field.type.text]⟩
  require (0 < field.maxBytes ∧ field.maxBytes ≤ maxStateFieldBytes)
    ⟨"state field %q max_bytes is out of bounds", [field.name]⟩
  return fields ++ [field]

/-- `indexStateFields`: the fields, no two of them with one name. -/
def indexStateFields (schema : StateSchema) : Except Message (List StateField) := do
  require (schema.fields.length ≤ maxStateFields)
    ⟨"state field count exceeds %d", [bound maxStateFields]⟩
  schema.fields.foldlM indexStateField []

/-- `fields[key]`. -/
def fieldOf (fields : List StateField) (key : GoString) : Option StateField :=
  fields.find? fun field => field.name = key

/-- The value is not longer than its field allows. -/
def fits (fields : List StateField) (key : GoString) (value : RawJSON) : Bool :=
  (fieldOf fields key).all fun field => (value.length : ℤ) ≤ field.maxBytes

/-! ## Validation -/

def preflightState (fields : List StateField) (state : State) : Except Message Unit := do
  require (state.keys.card ≤ fields.length ∧ state.keys.card ≤ maxStateFields)
    ⟨"state field count exceeds schema bounds", []⟩
  require (∀ e ∈ state.entries, (fieldOf fields e.1).isSome) ⟨"state has undeclared field %q", []⟩
  require (∀ e ∈ state.entries, fits fields e.1 e.2) ⟨"state field %q exceeds %d bytes", []⟩
  require (roughSize state ≤ maxStateBytes)
    ⟨"state rough size exceeds %d bytes", [bound maxStateBytes]⟩

def validateCanonicalState (fields : List StateField) (state : State) : Except Message Unit := do
  require (∀ field ∈ fields, field.required → field.name ∈ state)
    ⟨"state is missing required field %q", []⟩
  require (encodedSize state ≤ maxStateBytes) ⟨"state exceeds %d bytes", [bound maxStateBytes]⟩

/-- The canonical form of a value of a declared field. -/
def canonicalizeField (fields : List StateField) (key : GoString) (value : RawJSON) :
    Except Message RawJSON :=
  match fieldOf fields key with
  | none => .error ⟨"state has undeclared field %q", [key]⟩
  | some field => canonicalizeStateValue field value

def canonicalizeAndValidateState (fields : List StateField) (state : State) :
    Except Message State := do
  require (∀ e ∈ state.entries, (fieldOf fields e.1).isSome) ⟨"state has undeclared field %q", []⟩
  require (∀ e ∈ state.entries, fits fields e.1 e.2) ⟨"state field %q exceeds %d bytes", []⟩
  match mapValues (canonicalizeField fields) state with
  | none => .error ⟨"state field %q: %w", []⟩
  | some out => do
      validateCanonicalState fields out
      return out

def validateState (schema : StateSchema) (input : State) : Except Message State := do
  let fields ← indexStateFields schema
  preflightState fields input
  canonicalizeAndValidateState fields input

def preflightPatch (fields : List StateField) (patch : StatePatch) : Except Message Unit := do
  require (patch.set.keys.card ≤ maxStateFields ∧ patch.delete.length ≤ maxStateFields)
    ⟨"state patch field count exceeds %d", [bound maxStateFields]⟩
  require (∀ e ∈ patch.set.entries, (fieldOf fields e.1).isSome)
    ⟨"state patch sets undeclared field %q", []⟩
  require (∀ e ∈ patch.set.entries, fits fields e.1 e.2)
    ⟨"state patch field %q exceeds %d bytes", []⟩
  require (roughSize patch.set ≤ maxStateBytes)
    ⟨"state patch rough size exceeds %d bytes", [bound maxStateBytes]⟩
  let _ ← patch.delete.foldlM (fun (deletes : List GoString) key => do
    match fieldOf fields key with
    | none => .error ⟨"state patch deletes undeclared field %q", [key]⟩
    | some field => do
        require (!field.required) ⟨"state patch deletes required field %q", [key]⟩
        require (key ∉ deletes) ⟨"state patch deletes field %q twice", [key]⟩
        require (key ∉ patch.set) ⟨"state patch both sets and deletes field %q", [key]⟩
        return key :: deletes) []
  return ()

def applyStatePatch (schema : StateSchema) (input : State) (patch : StatePatch) :
    Except Message State := do
  require (schema.reducer = reducerTopLevelJSONPatch ∧ schema.reducerVersion = go "1")
    ⟨"built-in state patch requires reducer %q version %q", [reducerTopLevelJSONPatch, go "1"]⟩
  let fields ← indexStateFields schema
  preflightPatch fields patch
  preflightState fields input
  let out ← canonicalizeAndValidateState fields input
  match mapValues (canonicalizeField fields) patch.set with
  | none => .error ⟨"state patch field %q: %w", []⟩
  | some set => do
      let out := patch.delete.foldl (fun out key => out.erase key) (set ∪ out)
      validateCanonicalState fields out
      return out

/-! ## Values in canonical form -/

variable {field : StateField} {d : Doc}

/-- A value in canonical form is decoded and accepted again. -/
theorem canonicalizeStateValue_text (readable : Json.Readable maxNestingDepth d)
    (canonical : Json.canonical d = d) (type : field.type.accepts d)
    (fits : ((Json.text d).length : ℤ) ≤ field.maxBytes) :
    canonicalizeStateValue field (Json.text d) = .ok (Json.text d) := by
  have decoded : decodeOne (Json.text d) = some d := by
    rw [decodeOne, value_text_of_readable readable]
    rfl
  simp only [canonicalizeStateValue, bind_eq_ok, require_eq_ok, decoded,
    canonical, pure_eq_ok]
  exact ⟨(), fits, (), (encoded_text readable.1).valid, (), type, (), fits, trivial⟩

theorem accepts_canonical {type : StateValueType} (h : type.accepts d) :
    type.accepts (Json.canonical d) := by
  cases d <;> cases type <;> first | rfl | cases h

theorem readable_of_decodeOne {raw : RawJSON} (h : decodeOne raw = some d) :
    Json.Readable maxNestingDepth d := by
  obtain ⟨⟨d', rest⟩, read, ends⟩ := bind_eq_some_iff.mp h
  dsimp only at ends
  split_ifs at ends
  cases ends
  exact readable_of_value read

/-- **Canonicalization is settled after one pass.** -/
theorem canonicalizeStateValue_idem {raw canonical : RawJSON}
    (h : canonicalizeStateValue field raw = .ok canonical) :
    canonicalizeStateValue field canonical = .ok canonical := by
  simp only [canonicalizeStateValue, bind_eq_ok, require_eq_ok] at h
  obtain ⟨-, -, -, -, h⟩ := h
  cases decoded : decodeOne raw with
  | none => simp [decoded] at h
  | some d =>
    simp only [decoded, bind_eq_ok, require_eq_ok, pure_eq_ok] at h
    obtain ⟨-, type, -, fits, rfl⟩ := h
    exact canonicalizeStateValue_text (readable_of_decodeOne decoded).canonical
      (canonical_canonical d) (accepts_canonical type) fits

/-! ## Maps of values -/

variable {key : GoString} {value : RawJSON}

theorem mem_entries {state : State} :
    ⟨key, value⟩ ∈ state.entries ↔ state.lookup key = some value :=
  mem_lookup_iff.symm

variable {f : GoString → RawJSON → Except Message RawJSON}

theorem lookup_mapValues {state out : State} (h : mapValues f state = some out)
    (there : out.lookup key = some value) :
    ∃ raw, state.lookup key = some raw ∧ f key raw = .ok value := by
  unfold mapValues at h
  split_ifs at h with accepted
  cases h
  obtain ⟨⟨key', raw⟩, mem, eq⟩ := Multiset.mem_map.mp (mem_entries.mpr there)
  obtain ⟨rfl, same⟩ := Sigma.mk.inj eq
  refine ⟨raw, mem_entries.mp mem, ?_⟩
  have ok := accepted _ mem
  cases result : f key' raw with
  | error e => simp [result, Except.isOk, Except.toBool] at ok
  | ok value' =>
    have value := eq_of_heq same
    simp only [result, Except.toOption, getD_some] at value
    rw [value]

/-- Values that a loop leaves alone. -/
theorem mapValues_self {state : State}
    (h : ∀ ⦃key value⦄, state.lookup key = some value → f key value = .ok value) :
    mapValues f state = some state := by
  have each : ∀ e ∈ state.entries, f e.1 e.2 = .ok e.2 := fun e mem => h (mem_entries.mp mem)
  unfold mapValues
  rw [if_pos fun e mem => by simp [each e mem, Except.isOk, Except.toBool]]
  congr 1
  apply ext
  refine (Multiset.map_congr rfl fun e mem => ?_).trans (Multiset.map_id _)
  simp [each e mem, Except.toOption]

/-! ## Settled states -/

/-- Every value belongs to a declared field and is in canonical form. -/
def Settled (fields : List StateField) (state : State) : Prop :=
  ∀ ⦃key value⦄, state.lookup key = some value → canonicalizeField fields key value = .ok value

variable {fields : List StateField}

theorem canonicalizeField_eq_ok {value out : RawJSON}
    (h : canonicalizeField fields key value = .ok out) :
    ∃ field, fieldOf fields key = some field ∧ canonicalizeStateValue field value = .ok out := by
  unfold canonicalizeField at h
  split at h
  · cases h
  next field declared => exact ⟨field, declared, h⟩

theorem settled_mapValues {state out : State}
    (h : mapValues (canonicalizeField fields) state = some out) : Settled fields out := by
  intro key value there
  obtain ⟨raw, -, result⟩ := lookup_mapValues h there
  obtain ⟨field, declared, canonical⟩ := canonicalizeField_eq_ok result
  rw [canonicalizeField, declared]
  exact canonicalizeStateValue_idem canonical

theorem Settled.union {set out : State} (hset : Settled fields set)
    (hout : Settled fields out) : Settled fields (set ∪ out) := by
  intro key value there
  rcases mem_lookup_union.mp there with new | ⟨-, old⟩
  · exact hset new
  · exact hout old

theorem Settled.erase {state : State} (h : Settled fields state)
    (keys : List GoString) :
    Settled fields (keys.foldl (fun out key => out.erase key) state) := by
  induction keys generalizing state with
  | nil => exact h
  | cons gone keys ih =>
    refine ih fun key value there => ?_
    by_cases same : key = gone
    · rw [same, lookup_erase] at there
      cases there
    · rw [lookup_erase_ne same] at there
      exact h there

section

variable {fields : List StateField} {state : State} (settled : Settled fields state)

include settled

theorem Settled.declared : ∀ e ∈ state.entries, (fieldOf fields e.1).isSome := by
  intro e mem
  obtain ⟨field, declared, -⟩ := canonicalizeField_eq_ok (settled (mem_entries.mp mem))
  rw [declared]
  rfl

theorem Settled.fits : ∀ e ∈ state.entries, fits fields e.1 e.2 := by
  intro e mem
  obtain ⟨field, declared, canonical⟩ := canonicalizeField_eq_ok (settled (mem_entries.mp mem))
  simp only [canonicalizeStateValue, bind_eq_ok, require_eq_ok] at canonical
  obtain ⟨-, short, -⟩ := canonical
  simpa [AutoAgent.Graph.fits, declared] using short

/-- There are no more values than fields. -/
theorem Settled.card_le : state.keys.card ≤ fields.length := by
  have names : state.keys ⊆ (fields.map StateField.name).toFinset := by
    intro key mem
    obtain ⟨value, there⟩ := mem_iff.mp (mem_keys.mp mem)
    obtain ⟨field, declared, -⟩ := canonicalizeField_eq_ok (settled there)
    have found := List.mem_of_find?_eq_some declared
    have name : field.name = key := by simpa using List.find?_some declared
    exact List.mem_toFinset.mpr (List.mem_map.mpr ⟨field, found, name⟩)
  calc state.keys.card ≤ (fields.map StateField.name).toFinset.card := Finset.card_le_card names
    _ ≤ (fields.map StateField.name).length := List.toFinset_card_le _
    _ = fields.length := List.length_map ..

/-- Of a settled state, only the rough measure is left to check. -/
theorem Settled.preflightState_eq_ok (bounded : fields.length ≤ maxStateFields) :
    preflightState fields state = .ok () ↔ roughSize state ≤ maxStateBytes := by
  have few := settled.card_le
  simp only [preflightState, bind_eq_ok, require_eq_ok]
  constructor
  · rintro ⟨-, -, -, -, -, -, rough⟩
    exact rough
  · intro rough
    exact ⟨(), ⟨few, few.trans bounded⟩, (), settled.declared, (), settled.fits, rough⟩

theorem Settled.canonicalizeAndValidateState_eq_ok
    (valid : validateCanonicalState fields state = .ok ()) :
    canonicalizeAndValidateState fields state = .ok state := by
  simp only [canonicalizeAndValidateState, bind_eq_ok, require_eq_ok,
    mapValues_self settled, pure_eq_ok]
  exact ⟨(), settled.declared, (), settled.fits, (), valid, trivial⟩

end

/-! ## Patched states are accepted again -/

/-- What is checked of the fields of a schema. -/
structure ValidFields (fields : List StateField) : Prop where
  count : fields.length ≤ maxStateFields
  each : ∀ f ∈ fields, validName f.name maxNodeIDBytes ∧ f.type.known ∧
    0 < f.maxBytes ∧ f.maxBytes ≤ maxStateFieldBytes
  distinct : fields.Pairwise fun a b => a.name ≠ b.name

variable {schema : StateSchema}

theorem indexStateFields_iff {out : List StateField} :
    indexStateFields schema = .ok out ↔ ValidFields schema.fields ∧ out = schema.fields := by
  have loop : schema.fields.foldlM indexStateField [] = .ok out ↔
      ((∀ f ∈ schema.fields, validName f.name maxNodeIDBytes ∧ f.type.known ∧
        0 < f.maxBytes ∧ f.maxBytes ≤ maxStateFieldBytes) ∧
        schema.fields.Pairwise fun a b => a.name ≠ b.name) ∧ out = schema.fields := by
    refine foldlM_collect_nil fun seen field out => ?_
    simp only [indexStateField, bind_eq_ok, validateIdentifier_eq_ok, require_eq_ok, pure_eq_ok,
      exists_const]
    constructor
    · rintro ⟨name, apart, known, bounds, rfl⟩
      exact ⟨⟨name, known, bounds⟩, apart, rfl⟩
    · rintro ⟨⟨name, known, bounds⟩, apart, rfl⟩
      exact ⟨name, apart, known, bounds, rfl⟩
  simp only [indexStateFields, bind_eq_ok, require_eq_ok, exists_const, loop]
  constructor
  · rintro ⟨count, ⟨each, distinct⟩, rfl⟩
    exact ⟨⟨count, each, distinct⟩, rfl⟩
  · rintro ⟨⟨count, each, distinct⟩, rfl⟩
    exact ⟨count, ⟨each, distinct⟩, rfl⟩

/-- What `indexStateFields` returns keeps the bound on the number of fields. -/
theorem length_of_indexStateFields
    (h : indexStateFields schema = .ok fields) : fields.length ≤ maxStateFields := by
  obtain ⟨valid, rfl⟩ := indexStateFields_iff.mp h
  exact valid.count

variable {input out : State}

/-- What is canonicalized is settled, complete and within the encoded size. -/
theorem settled_of_canonicalize
    (h : canonicalizeAndValidateState fields input = .ok out) :
    Settled fields out ∧ validateCanonicalState fields out = .ok () := by
  simp only [canonicalizeAndValidateState, bind_eq_ok, require_eq_ok, exists_const] at h
  obtain ⟨-, -, h⟩ := h
  cases values : mapValues (canonicalizeField fields) input with
  | none => simp [values] at h
  | some state =>
    simp only [values, bind_eq_ok, pure_eq_ok] at h
    obtain ⟨⟨⟩, valid, rfl⟩ := h
    exact ⟨settled_mapValues values, valid⟩

variable {patch : StatePatch}

/-- What a patch returns is settled, complete and within the encoded size. -/
theorem settled_of_applyStatePatch
    (h : applyStatePatch schema input patch = .ok out) :
    ∃ fields, indexStateFields schema = .ok fields ∧ Settled fields out ∧
      validateCanonicalState fields out = .ok () ∧
      (schema.reducer = reducerTopLevelJSONPatch ∧ schema.reducerVersion = go "1") := by
  simp only [applyStatePatch, bind_eq_ok, require_eq_ok] at h
  obtain ⟨-, builtin, fields, index, -, -, -, -, old, canonical, h⟩ := h
  cases values : mapValues (canonicalizeField fields) patch.set with
  | none => simp [values] at h
  | some set =>
    simp only [values, bind_eq_ok, pure_eq_ok] at h
    obtain ⟨⟨⟩, valid, rfl⟩ := h
    exact ⟨fields, index, ((settled_mapValues values).union
      (settled_of_canonicalize canonical).1).erase _,
      valid, builtin⟩

def StatePatch.none : StatePatch := ⟨∅, []⟩

theorem preflightPatch_none (fields : List StateField) :
    preflightPatch fields .none = .ok () := by
  have entries : StatePatch.none.set.entries = 0 := rfl
  have keys : StatePatch.none.set.keys = ∅ := rfl
  simp only [preflightPatch, bind_eq_ok, require_eq_ok,
    roughSize, entries, keys, pure_eq_ok]
  exact ⟨(), ⟨by decide, by decide⟩, (), by simp, (), by simp, (), by decide, [], rfl, trivial⟩

/-- An empty patch validates a state. -/
theorem applyStatePatch_none : applyStatePatch schema input .none = .ok out ↔
    (schema.reducer = reducerTopLevelJSONPatch ∧ schema.reducerVersion = go "1") ∧
      validateState schema input = .ok out := by
  simp only [applyStatePatch, validateState, bind_eq_ok, require_eq_ok,
    exists_const]
  refine and_congr_right fun _ => exists_congr fun fields => and_congr_right fun _ => ?_
  have nothing : mapValues (canonicalizeField fields) StatePatch.none.set = some ∅ :=
    mapValues_self (by simp [StatePatch.none])
  have deletes : StatePatch.none.delete = [] := rfl
  simp only [preflightPatch_none, nothing, deletes, empty_union, List.foldl_nil, bind_eq_ok,
    pure_eq_ok, exists_const, true_and]
  refine exists_congr fun _ => and_congr_right fun _ => ⟨?_, fun canonical => ?_⟩
  · rintro ⟨_, canonical, -, -, rfl⟩
    exact canonical
  · exact ⟨out, canonical, (), (settled_of_canonicalize canonical).2, rfl⟩

/-- What a patch returns is accepted again if its rough size is within the limit. -/
theorem validateState_patched_iff
    (h : applyStatePatch schema input patch = .ok out) :
    validateState schema out = .ok out ↔ roughSize out ≤ maxStateBytes := by
  obtain ⟨fields, index, settled, valid, -⟩ := settled_of_applyStatePatch h
  rw [← settled.preflightState_eq_ok (length_of_indexStateFields index)]
  simp only [validateState, bind_eq_ok, index, Except.ok.injEq, exists_eq_left', Unique.exists_iff,
    PUnit.default_eq_unit, settled.canonicalizeAndValidateState_eq_ok valid, and_true]

/-- **When a patched state is accepted again.**  The state a patch returns is accepted
unchanged by `ValidateState`, and by an empty patch, exactly when its rough size is
within the limit that its encoded size has already been held to. -/
theorem applyStatePatch_accepted_iff {schema : StateSchema}
    (h : applyStatePatch schema input patch = .ok out) :
    (validateState schema out = .ok out ↔ roughSize out ≤ maxStateBytes) ∧
    (applyStatePatch schema out .none = .ok out ↔ roughSize out ≤ maxStateBytes) := by
  obtain ⟨_, _, _, _, builtin⟩ := settled_of_applyStatePatch h
  rw [applyStatePatch_none, validateState_patched_iff h]
  exact ⟨.rfl, and_iff_right builtin⟩

/-! ## A state of the greatest size -/

/-- The string of `n` angle brackets. -/
def angles (n : ℕ) : RawJSON := 34 :: (List.replicate n 60 ++ [34])

/-- What it is read to. -/
def brackets (n : ℕ) : Doc := .str (List.replicate n (.lit '<'))

theorem value_angles (n : ℕ) : Json.value maxNestingDepth (angles n) = some (brackets n, []) := by
  have plain : ∀ b ∈ List.replicate n (60 : UInt8), plainByte b := by
    intro b mem
    rw [List.eq_of_mem_replicate mem]
    decide
  have unquoted : unquoteBytes n (List.replicate n 60) = List.replicate n (.lit '<') := by
    clear plain
    induction n with
    | zero => rfl
    | succ n ih =>
      rw [List.replicate_succ, List.replicate_succ, ← ih]
      rfl
  have read : readString (List.replicate n 60 ++ [34]) =
    some (List.replicate n (.lit '<'), []) := by
    rw [readString, scans_plain plain]
    simp [scanString, unquoted]
  have value : ∀ inner, readValue inner (angles n) = some (brackets n, []) := by
    intro inner
    simp [angles, brackets, readValue, isSpace, read]
  exact value _

theorem validUTF8_angles (n : ℕ) : validUTF8 (angles n) := by
  refine Json.Encoded.valid ⟨'"' :: (List.replicate n '<' ++ ['"']), ?_⟩
  have bracket : String.utf8EncodeChar '<' = [60] := by decide
  have quote : String.utf8EncodeChar '"' = [34] := by decide
  simp [angles, List.flatMap_replicate, bracket, quote]

theorem canonical_brackets (n : ℕ) : Json.canonical (brackets n) = brackets n := by
  have plain : GoString.quote (GoString.unquote (List.replicate n (.lit '<'))) =
      List.replicate n (.lit '<') := by
    simp [GoString.quote, GoString.unquote]
  simp [brackets, Json.canonical, decodeAny, encodeAny, plain]

/-- The encoder writes a bracket as six bytes. -/
theorem length_brackets (n : ℕ) : (Json.text (brackets n)).length = 6 * n + 2 := by
  have bracket : (charText (.lit '<')).length = 6 := by decide
  simp [brackets, Json.text, stringText, ascii, List.length_flatMap, bracket, -nsmul_eq_mul]
  omega

theorem length_angles (n : ℕ) : (angles n).length = n + 2 := by
  simp [angles]

theorem canonicalizeStateValue_angles {n : ℕ} (type : field.type = .string)
    (fits : (6 * n + 2 : ℤ) ≤ field.maxBytes) :
    canonicalizeStateValue field (angles n) = .ok (Json.text (brackets n)) := by
  have decoded : decodeOne (angles n) = some (brackets n) := by
    rw [decodeOne, value_angles]
    rfl
  simp only [canonicalizeStateValue, bind_eq_ok, require_eq_ok, decoded,
    canonical_brackets, pure_eq_ok, validUTF8_angles, exists_const, length_angles,
    length_brackets, type]
  exact ⟨by omega, trivial, rfl, by push_cast; omega, trivial⟩

def stringSchema (names : List GoString) : StateSchema :=
  ⟨reducerTopLevelJSONPatch, go "1", names.map fun name => ⟨name, .string, false, false, 65536⟩⟩

/-- A state that has the same value in some fields. -/
def filled (names : List GoString) (distinct : names.Nodup) (value : RawJSON) : State :=
  ⟨↑(names.map fun name => (⟨name, value⟩ : Sigma fun _ : GoString => RawJSON)), by
    rw [Multiset.coe_nodupKeys, List.NodupKeys, List.keys, List.map_map]
    simpa [comp_def] using distinct⟩

theorem fieldOf_stringSchema {names : List GoString} (mem : key ∈ names) :
    fieldOf (stringSchema names).fields key = some ⟨key, .string, false, false, 65536⟩ := by
  unfold fieldOf stringSchema
  induction names with
  | nil => cases mem
  | cons name names ih =>
    by_cases same : name = key
    · subst same
      simp
    · have later := ih ((List.mem_cons.mp mem).resolve_left (Ne.symm same))
      simpa [List.find?_cons, same] using later

section

variable {names : List GoString} {distinct : names.Nodup} {out : RawJSON}

theorem card_filled : (filled names distinct value).keys.card = names.length := by
  simp [Finmap.keys, filled, Multiset.keys]

theorem roughSize_filled : roughSize (filled names distinct value) =
    2 + (names.map fun name => name.len + value.length + 4).sum := by
  simp [roughSize, filled, comp_def]

theorem encodedSize_filled : encodedSize (filled names distinct value) =
    2 + (names.map fun name => (stringText name.quote).length + 1 + value.length).sum +
      (names.length - 1) := by
  rw [encodedSize, card_filled]
  simp [filled, comp_def]

/-- A state of strings is validated if its sizes allow it. -/
theorem validateState_filled
    (index : indexStateFields (stringSchema names) = .ok (stringSchema names).fields)
    (canonical : ∀ name, canonicalizeStateValue ⟨name, .string, false, false,
      65536⟩ value = .ok out)
    (rough : roughSize (filled names distinct value) ≤ maxStateBytes)
    (encoded : encodedSize (filled names distinct out) ≤ maxStateBytes) :
    validateState (stringSchema names) (filled names distinct value) =
      .ok (filled names distinct out) := by
  have few := length_of_indexStateFields index
  have all : ∀ {p : (_ : GoString) × RawJSON → Prop}, (∀ name ∈ names, p ⟨name, value⟩) →
      ∀ e ∈ (filled names distinct value).entries, p e := by
    simp [filled]
  have each := all (p := fun e => canonicalizeField (stringSchema names).fields e.1 e.2 = .ok out)
    fun name mem => by
      simp only [canonicalizeField, fieldOf_stringSchema mem, canonical]
  have values : mapValues (canonicalizeField (stringSchema names).fields)
      (filled names distinct value) = some (filled names distinct out) := by
    rw [mapValues, if_pos fun e mem => by rw [each e mem]; rfl, some.injEq]
    apply ext
    calc _ = (filled names distinct value).entries.map fun e => ⟨e.1, out⟩ :=
          Multiset.map_congr rfl fun e mem => by rw [each e mem]; rfl
      _ = _ := by simp [filled, comp_def]
  have short := canonical .empty
  simp only [canonicalizeStateValue, bind_eq_ok, require_eq_ok, exists_const] at short
  have declared := all (p := fun e => (fieldOf (stringSchema names).fields e.1).isSome)
    fun name mem => by rw [fieldOf_stringSchema mem]; rfl
  have fit := all (p := fun e => fits (stringSchema names).fields e.1 e.2)
    fun name mem => by rw [fits, fieldOf_stringSchema mem]; exact decide_eq_true short.1
  have length : (stringSchema names).fields.length = names.length := List.length_map ..
  simp only [validateState, preflightState, canonicalizeAndValidateState, validateCanonicalState,
    bind_eq_ok, index, Except.ok.injEq, exists_eq_left', require_eq_ok, exists_const, values,
    pure_eq_ok, card_filled, length] at few ⊢
  exact ⟨⟨⟨le_rfl, few⟩, declared, fit, rough⟩, declared, fit,
    ⟨by simp [stringSchema], encoded⟩, trivial⟩

end

/-- A state of one field, and the state after a patch has set another one: its brackets are
written in canonical form. -/
theorem applyStatePatch_accepted_iff_set :
    let schema := stringSchema [go "f", go "g"]
    let out := (Finmap.singleton (go "f") (angles 0)).insert (go "g") (Json.text (brackets 2))
    applyStatePatch schema (Finmap.singleton (go "f") (angles 0))
      ⟨Finmap.singleton (go "g") (angles 2), []⟩ = .ok out ∧
      validateState schema out = .ok out := by
  intro schema out
  have patched : applyStatePatch schema (Finmap.singleton (go "f") (angles 0))
      ⟨Finmap.singleton (go "g") (angles 2), []⟩ = .ok out := by decide +kernel
  exact ⟨patched, (applyStatePatch_accepted_iff patched).1.mpr (by decide +kernel)⟩

/-- **A patched state that cannot be read again.**  Eight strings of 10921 brackets, which an
empty patch returns in canonical form: the encoding has exactly 524288 bytes. -/
theorem applyStatePatch_not_accepted :
    ∃ (schema : StateSchema) (input : State) (patch : StatePatch) (out : State),
      applyStatePatch schema input patch = .ok out ∧ validateState schema out ≠ .ok out ∧
        applyStatePatch schema out .none ≠ .ok out := by
  let names := [go "fld", go "fld1", go "fld2", go "fld3", go "fld4", go "fld5",
    go "fld6", go "fld7"]
  have distinct : names.Nodup := by decide
  have short : (6 * (10921 : ℕ) + 2 : ℤ) ≤ 65536 := by decide
  have valid : validateState (stringSchema names) (filled names distinct (angles 10921)) =
      .ok (filled names distinct (Json.text (brackets 10921))) := by
    refine validateState_filled rfl (fun _ => canonicalizeStateValue_angles rfl short) ?_ ?_
    · rw [roughSize_filled, length_angles]
      decide
    · rw [encodedSize_filled, length_brackets]
      decide
  have patched := applyStatePatch_none.mpr ⟨⟨rfl, rfl⟩, valid⟩
  have refused := (validateState_patched_iff patched).not.mpr (by
    -- the rough size is 524289
    rw [roughSize_filled, length_brackets]
    decide)
  exact ⟨_, _, _, _, patched, refused, fun again => refused (applyStatePatch_none.mp again).2⟩

end AutoAgent.Graph
