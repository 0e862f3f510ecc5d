import AutoAgent.Lib.Json

/-!
# JSON codecs of Go types

A `Codec α` describes how `encoding/json` treats the Go type modelled by `α`:
the document `json.Marshal` writes, what `json.Unmarshal` does to a variable
that already holds a value, whether `omitempty` drops the value, and the
Boolean `ok` that says which values survive the round trip.  The round trip
itself is a field, so a codec for a struct is built together with its proof from
the codecs of the fields.

**Decoding into a variable.**  `json.Unmarshal` reads a document *into* an
existing value: `null` leaves a scalar alone and clears a pointer, slice or map,
unknown members are skipped, a repeated member is read twice into the same
field, and member names match without regard to case.  `member` is that rule
for one field.
-/

namespace AutoAgent

open List GoString

/-- The JSON behaviour of a Go type. -/
structure Codec (α : Type) where
  /-- The zero value. -/
  zero : α
  /-- `json.Marshal`. -/
  enc : α → Doc
  /-- `json.Unmarshal` into a variable that holds the first argument. -/
  dec : α → Doc → Option α
  /-- The value `omitempty` drops; it drops no struct. -/
  isEmpty : α → Bool := fun _ => false
  /-- The values that survive the round trip. -/
  ok : α → Bool
  /-- Reading back what was written. -/
  dec_enc : ∀ {v : α}, ok v → dec zero (enc v) = some v
  /-- What `omitempty` drops is the zero value. -/
  eq_zero : ∀ {v : α}, isEmpty v → v = zero := by
    intro v h
    simp at h

namespace Codec

variable {α β : Type}

/-! ## Scalars -/

def string : Codec GoString where
  zero := .empty
  enc s := .str s.quote
  dec
    | cur, .null => some cur
    | _, .str s => some (unquote s)
    | _, _ => none
  isEmpty s := s.runes.isEmpty
  ok s := s.valid
  dec_enc h := by simp [unquote_quote h]
  eq_zero {v} h := by
    obtain ⟨runes⟩ := v
    simpa [GoString.empty] using h

/-- A named string type with a parsed form: `parse` inverts `text`. -/
def named (text : α → GoString) (parse : GoString → α) (inverse : ∀ v, parse (text v) = v) :
    Codec α where
  zero := parse .empty
  enc v := .str (text v).quote
  dec
    | cur, .null => some cur
    | _, .str s => some (parse (unquote s))
    | _, _ => none
  isEmpty v := (text v).runes.isEmpty
  ok v := (text v).valid
  dec_enc {v} h := by simp [unquote_quote h, inverse v]
  eq_zero {v} h := by
    have empty : text v = .empty := by
      cases hv : text v
      simpa [GoString.empty, hv] using h
    rw [← inverse v, empty]

def bool : Codec Bool where
  zero := false
  enc b := .bool b
  dec
    | cur, .null => some cur
    | _, .bool b => some b
    | _, _ => none
  isEmpty b := !b
  ok _ := true
  dec_enc _ := rfl
  eq_zero h := by simpa using h

/-- The Go types `int64` and, on a 64-bit platform, `int`. -/
def int64 : Codec Int64 where
  zero := 0
  enc n := .int n.toInt
  dec
    | cur, .null => some cur
    | _, .int n => if (Int64.ofInt n).toInt = n then some (Int64.ofInt n) else none
    | _, _ => none
  isEmpty n := n == 0
  ok _ := true
  dec_enc _ := by simp
  eq_zero h := by simpa using h

/-! ## Pointers, slices and maps -/

/-- A pointer to a type whose documents are never `null`. -/
def ptr (c : Codec α) (notNull : ∀ v, c.enc v ≠ .null) : Codec (Option α) where
  zero := none
  enc
    | none => .null
    | some v => c.enc v
  dec
    | _, .null => some none
    | cur, d => (c.dec (cur.getD c.zero) d).map some
  isEmpty v := v.isNone
  ok v := v.all c.ok
  dec_enc {v} h := by
    cases v with
    | none => rfl
    | some v =>
      have back : c.dec c.zero (c.enc v) = some v := c.dec_enc (by simpa using h)
      cases hd : c.enc v with
      | null => exact absurd hd (notNull v)
      | _ => simpa [hd] using back
  eq_zero h := by simpa using h

/-- The elements of a slice, read into the elements the variable already has. -/
def decItems (c : Codec α) : List α → List Doc → Option (List α)
  | _, [] => some []
  | cur, d :: ds => do
      let v ← c.dec (cur.head?.getD c.zero) d
      let vs ← decItems c cur.tail ds
      return v :: vs

theorem decItems_enc (c : Codec α) {vs : List α} (h : vs.all c.ok) :
    c.decItems [] (vs.map c.enc) = some vs := by
  induction vs with
  | nil => rfl
  | cons v vs ih =>
    simp only [all_cons, and_eq_true] at h
    simp [decItems, c.dec_enc h.1, ih h.2]

/-- A slice.  The nil slice and the empty one are not told apart. -/
def slice (c : Codec α) : Codec (List α) where
  zero := []
  enc
    | [] => .null
    | v :: vs => .arr ((v :: vs).map c.enc)
  dec
    | _, .null => some []
    | cur, .arr items => c.decItems cur items
    | _, _ => none
  isEmpty vs := vs.isEmpty
  ok vs := vs.all c.ok
  dec_enc {vs} h := by
    cases vs with
    | nil => rfl
    | cons v vs => exact c.decItems_enc h
  eq_zero h := by simpa using h

/-- An element is less deep than its slice. -/
theorem depth_lt_slice (c : Codec α) {vs : List α} {v : α} (mem : v ∈ vs) :
    (c.enc v).depth < (c.slice.enc vs).depth := by
  cases vs with
  | nil => simp at mem
  | cons w ws => exact Nat.lt_succ_of_le (Json.depthItems_le_iff.mp le_rfl _ (mem_map_of_mem mem))

/-- The members of a map, each read into a fresh element. -/
def decEntries (c : Codec α) : List (GoString × α) → List (JsonString × Doc) →
    Option (List (GoString × α))
  | cur, [] => some cur
  | cur, (k, d) :: ms => do
      let v ← c.dec c.zero d
      decEntries c (insertMember cur (unquote k) v) ms

theorem decEntries_enc (c : Codec α) {vs : List (GoString × α)}
    (h : vs.all (fun m => m.1.valid && c.ok m.2)) (cur : List (GoString × α)) :
    c.decEntries cur (vs.map fun m => (m.1.quote, c.enc m.2)) =
      some (vs.foldl (fun acc m => insertMember acc m.1 m.2) cur) := by
  induction vs generalizing cur with
  | nil => rfl
  | cons m vs ih =>
    simp only [all_cons, and_eq_true] at h
    simp [decEntries, c.dec_enc h.1.2, unquote_quote h.1.1, ih h.2]

/-- A map with string keys.  The nil map and the empty one are not told apart. -/
def map (c : Codec α) : Codec (List (GoString × α)) where
  zero := []
  enc
    | [] => .null
    | m :: ms => .obj ((m :: ms).map fun m => (m.1.quote, c.enc m.2))
  dec
    | _, .null => some []
    | cur, .obj members => c.decEntries cur members
    | _, _ => none
  isEmpty ms := ms.isEmpty
  ok ms := sortedKeys ms && ms.all fun m => m.1.valid && c.ok m.2
  dec_enc {ms} h := by
    cases ms with
    | nil => rfl
    | cons m ms =>
      simp only [and_eq_true] at h
      have rebuilt : (m :: ms).foldl (fun acc m => insertMember acc m.1 m.2) [] = m :: ms :=
        foldl_insertMember h.1
      exact (c.decEntries_enc (by simpa using h.2) []).trans (congrArg some rebuilt)
  eq_zero h := by simpa using h

/-- An untyped value, the Go type `any`.  A number outside the range of `float64`
is an error. -/
def any : Codec GoAny where
  zero := .null
  enc := encodeAny
  dec _ d := if d.inRange then some (decodeAny d) else none
  isEmpty
    | .null => true
    | _ => false
  ok v := faithfulAny v && v.inRange
  dec_enc {v} h := by
    rw [and_eq_true] at h
    rw [inRange_encodeAny, if_pos h.2, decodeAny_encodeAny h.1]
  eq_zero {v} h := by cases v <;> simp_all

end Codec

/-! ## Structs -/

/-- The fold of a character under which member names are compared: the case of
the ASCII letters and the two other runes that fold to one. -/
def foldChar (c : Char) : Char :=
  if 'A' ≤ c ∧ c ≤ 'Z' then Char.ofNat (c.toNat + 32)
  else if c.toNat = 0x17f then 's'
  else if c.toNat = 0x212a then 'k'
  else c

/-- The member name `name` of a document sets the field `field`. -/
def nameMatches (field : List Char) (name : JsonString) : Bool :=
  name.map (fun
    | .lit c => foldChar c
    | .replacement => '�') == field.map foldChar

/-- Reads every member for `field` into the variable `cur`, in order. -/
def member {α : Type} (c : Codec α) (field : String) (cur : α)
    (ms : List (JsonString × Doc)) : Option α :=
  (ms.filter fun m => nameMatches field.toList m.1).foldlM (fun cur m => c.dec cur m.2) cur

/-- A field as `json.Marshal` writes it: its name and, unless it is omitted, its
document. -/
structure FieldDoc where
  name : String
  doc : Option Doc

namespace Codec

variable {α : Type}

/-- A field without `omitempty`. -/
def field (c : Codec α) (name : String) (v : α) : FieldDoc := ⟨name, some (c.enc v)⟩

/-- A field with `omitempty`. -/
def omitEmpty (c : Codec α) (name : String) (v : α) : FieldDoc :=
  ⟨name, if c.isEmpty v then none else some (c.enc v)⟩

end Codec

/-- The members a struct is written with. -/
def fieldMembers (fs : List FieldDoc) : List (JsonString × Doc) :=
  fs.filterMap fun f => f.doc.map fun d => (f.name.toList.map JsonChar.lit, d)

def structDoc (fs : List FieldDoc) : Doc := .obj (fieldMembers fs)

/-- `json.Unmarshal` into a struct: `null` is skipped and only an object is
read. -/
def intoStruct {α : Type} (cur : α) (d : Doc)
    (read : List (JsonString × Doc) → Option α) : Option α :=
  match d with
  | .null => some cur
  | .obj ms => read ms
  | _ => none

@[simp] theorem intoStruct_structDoc {α : Type} (cur : α) (fs : List FieldDoc)
    (read : List (JsonString × Doc) → Option α) :
    intoStruct cur (structDoc fs) read = read (fieldMembers fs) := rfl

variable {fs : List FieldDoc}

/-- A struct is one level deeper than its deepest field. -/
theorem depth_structDoc_le {n : ℕ} (h : ∀ f ∈ fs, ∀ d ∈ f.doc, d.depth ≤ n) :
    (structDoc fs).depth ≤ n + 1 := by
  refine Nat.succ_le_succ (Json.depthMembers_le_iff.mpr fun m mem => ?_)
  obtain ⟨f, there, written⟩ := mem_filterMap.mp mem
  obtain ⟨d, doc, rfl⟩ := map_eq_some_iff.mp written
  exact h f there d doc

/-- The bytes a written field takes at most. -/
def FieldDoc.cost (f : FieldDoc) : ℕ :=
  6 * f.name.toList.length + 4 + (f.doc.map Json.size).getD 0

/-- A struct takes the bytes of its written fields. -/
theorem size_structDoc_le (fs : List FieldDoc) :
    (structDoc fs).size ≤ 2 + (fs.map FieldDoc.cost).sum := by
  refine le_trans (Json.size_obj_le _) (Nat.add_le_add_left ?_ 2)
  induction fs with
  | nil => simp [fieldMembers]
  | cons f fs ih =>
    simp only [fieldMembers] at ih
    cases written : f.doc with
    | none =>
      simp only [fieldMembers, filterMap_cons, written, Option.map_none, map_cons, sum_cons]
      omega
    | some d =>
      simp only [fieldMembers, filterMap_cons, written, map_some, map_cons,
        sum_cons, length_map, FieldDoc.cost, getD_some]
      omega

theorem structDoc_ne_null (fs : List FieldDoc) : structDoc fs ≠ .null := by
  simp [structDoc]

/-- The fields a member name addresses, of those written. -/
def fieldsNamed (name : String) (fs : List FieldDoc) : List FieldDoc :=
  fs.filter fun f => nameMatches name.toList (f.name.toList.map JsonChar.lit)

theorem filter_fieldMembers (name : String) (fs : List FieldDoc) :
    (fieldMembers fs).filter (fun m => nameMatches name.toList m.1) =
      fieldMembers (fieldsNamed name fs) := by
  induction fs with
  | nil => rfl
  | cons f fs ih =>
    simp only [fieldMembers, fieldsNamed] at ih ⊢
    by_cases hit : nameMatches name.toList (f.name.toList.map JsonChar.lit)
    · cases written : f.doc <;> simp [hit, written, ih]
    · cases written : f.doc <;> simp [hit, written, ih]

/-- Reads one written field; an omitted one leaves the variable alone. -/
def readField {α : Type} (c : Codec α) (cur : α) (f : FieldDoc) : Option α :=
  match f.doc with
  | none => some cur
  | some d => c.dec cur d

section

variable {α : Type} (c : Codec α) {v : α} (name : String)

@[simp] theorem Codec.field_name : (c.field name v).name = name := rfl

attribute [simp] fieldsNamed

/-- Reading a field of a written struct reads the fields of that name. -/
@[simp] theorem member_fieldMembers (cur : α) (fs : List FieldDoc) :
    member c name cur (fieldMembers fs) = (fieldsNamed name fs).foldlM (readField c) cur := by
  rw [member, filter_fieldMembers]
  induction fieldsNamed name fs generalizing cur with
  | nil => rfl
  | cons f fs ih =>
    cases written : f.doc with
    | none => simpa [fieldMembers, readField, written] using ih cur
    | some d =>
      simp only [fieldMembers, filterMap_cons, written, map_some, foldlM_cons, readField]
      exact bind_congr fun cur => ih cur

end

/-- A field of the Go struct modelled by `α`, with its JSON tag. -/
structure Field (α : Type) where
  type : Type
  codec : Codec type
  name : String
  omitsEmpty : Bool
  get : α → type

namespace Codec

variable {α β : Type}

/-- A field without `omitempty`. -/
def tag (c : Codec β) (name : String) (get : α → β) : Field α := ⟨β, c, name, false, get⟩

/-- A field with `omitempty`. -/
def opt (c : Codec β) (name : String) (get : α → β) : Field α := ⟨β, c, name, true, get⟩

end Codec

namespace Field

variable {α : Type}

/-- The field as `json.Marshal` writes it. -/
def doc (f : Field α) (a : α) : FieldDoc :=
  if f.omitsEmpty then f.codec.omitEmpty f.name (f.get a) else f.codec.field f.name (f.get a)

/-- The name under which members are compared with the field. -/
def folded (f : Field α) : List Char := f.name.toList.map foldChar

/-- The type of a constructor with these fields. -/
def Maker : List (Field α) → Type
  | [] => α
  | f :: fs => f.type → Maker fs

/-- The struct with the given values in its fields. -/
def build : (fs : List (Field α)) → Maker fs → ((f : Field α) → f.type) → α
  | [], a, _ => a
  | f :: fs, make, value => build fs (make (value f)) value

/-- Reads the fields one after another. -/
def read : (fs : List (Field α)) → Maker fs → α → List (JsonString × Doc) → Option α
  | [], a, _, _ => some a
  | f :: fs, make, cur, ms => do
    let v ← member f.codec f.name (f.get cur) ms
    read fs (make v) cur ms

variable {a z : α} {β : Type} (c : Codec β) (name : String) (get : α → β)

@[simp] theorem doc_tag : (c.tag name get).doc a = c.field name (get a) := rfl

@[simp] theorem doc_opt : (c.opt name get).doc a = c.omitEmpty name (get a) := rfl

theorem doc_name (f : Field α) : (f.doc a).name = f.name := by
  unfold doc
  split <;> rfl

/-- A field is read back into its zero value. -/
theorem readField_doc {f : Field α} (ok : f.codec.ok (f.get a)) :
    readField f.codec f.codec.zero (f.doc a) = some (f.get a) := by
  have back := f.codec.dec_enc ok
  unfold doc
  split
  · by_cases empty : f.codec.isEmpty (f.get a)
    · simp [readField, Codec.omitEmpty, empty, (f.codec.eq_zero empty).symm]
    · simp [readField, Codec.omitEmpty, empty, back]
  · exact back

theorem nameMatches_folded {f g : Field α} :
    nameMatches f.name.toList ((g.doc a).name.toList.map JsonChar.lit) ↔
      g.folded = f.folded := by
  simp [nameMatches, doc_name, folded, comp_def]

/-- The fields are read back one after another; `old` are those before. -/
theorem read_docs {fs : List (Field α)} (make : Maker fs) (old : List (Field α))
    (apart : ((old ++ fs).map folded).Nodup) (zeros : ∀ f ∈ fs, f.get z = f.codec.zero)
    (ok : ∀ f ∈ fs, f.codec.ok (f.get a)) :
    read fs make z (fieldMembers ((old ++ fs).map (·.doc a))) = some (build fs make (·.get a)) := by
  induction fs generalizing old with
  | nil => rfl
  | cons f fs ih =>
    have others : ∀ g ∈ old ++ fs,
        ¬nameMatches f.name.toList ((g.doc a).name.toList.map JsonChar.lit) := by
      intro g mem same
      rw [map_append, map_cons, nodup_middle, nodup_cons, ← map_append] at apart
      exact apart.1 (nameMatches_folded.mp same ▸ mem_map_of_mem mem)
    have hit : fieldsNamed f.name ((old ++ f :: fs).map (·.doc a)) = [f.doc a] := by
      have own := nameMatches_folded (a := a).mpr (rfl : f.folded = f.folded)
      have before := filter_eq_nil_iff.mpr fun g mem => others g (mem_append_left fs mem)
      have after := filter_eq_nil_iff.mpr fun g mem => others g (mem_append_right old mem)
      simp [filter_map, comp_def, own, before, after]
    rw [read, member_fieldMembers, hit, zeros f mem_cons_self]
    simp only [foldlM_cons, foldlM_nil, readField_doc (ok f mem_cons_self)]
    rw [append_cons] at apart ⊢
    exact ih _ _ apart (fun g mem => zeros g (mem_cons_of_mem _ mem))
      fun g mem => ok g (mem_cons_of_mem _ mem)

end Field

/-- A struct with these fields, built by `make`: its fields have different names, even when
their case is folded. -/
def Codec.struct {α : Type} (fs : List (Field α)) (make : Field.Maker fs)
    (zeros : fs.Forall fun f => f.get (Field.build fs make (·.codec.zero)) = f.codec.zero := by
      (repeat' apply And.intro) <;> rfl)
    (eta : ∀ a, Field.build fs make (·.get a) = a := by intro; rfl)
    (apart : (fs.map Field.folded).Nodup := by decide +kernel) : Codec α where
  zero := Field.build fs make (·.codec.zero)
  enc a := structDoc (fs.map (·.doc a))
  dec cur d := intoStruct cur d (Field.read fs make cur)
  ok a := fs.all fun f => f.codec.ok (f.get a)
  dec_enc {v} h := by
    rw [intoStruct_structDoc]
    exact (Field.read_docs make [] apart (forall_iff_forall_mem.mp zeros)
      (all_eq_true.mp h)).trans (congrArg some (eta v))

section

variable {α : Type} {fs : List (Field α)} {make : Field.Maker fs}
  {zeros : fs.Forall fun f => f.get (Field.build fs make (·.codec.zero)) = f.codec.zero}
  {eta : ∀ a, Field.build fs make (·.get a) = a} {apart : (fs.map Field.folded).Nodup} {a : α}

/-- The fields survive the round trip, one by one. -/
theorem Codec.ok_struct_iff : (struct fs make zeros eta apart).ok a ↔
    fs.Forall fun f => f.codec.ok (f.get a) :=
  all_eq_true.trans forall_iff_forall_mem.symm

/-- A struct is one level deeper than its deepest field. -/
theorem Codec.depth_struct_le {n : ℕ}
    (h : fs.Forall fun f => (f.codec.enc (f.get a)).depth ≤ n) :
    ((struct fs make zeros eta apart).enc a).depth ≤ n + 1 := by
  refine depth_structDoc_le fun d mem doc written => ?_
  obtain ⟨f, there, rfl⟩ := mem_map.mp mem
  obtain rfl : f.codec.enc (f.get a) = doc := by
    unfold Field.doc at written
    split at written
    · simp_all [omitEmpty]
    · exact some.inj written
  exact forall_iff_forall_mem.mp h f there

/-- A field that is written is less deep than its struct. -/
theorem Codec.depth_lt_struct {f : Field α} (mem : f ∈ fs)
    (written : f.codec.isEmpty (f.get a) = false) :
    (f.codec.enc (f.get a)).depth < ((struct fs make zeros eta apart).enc a).depth := by
  have doc : (f.doc a).doc = some (f.codec.enc (f.get a)) := by
    unfold Field.doc
    split <;> simp [Codec.field, Codec.omitEmpty, written]
  have member : ((f.doc a).name.toList.map JsonChar.lit, f.codec.enc (f.get a)) ∈
      fieldMembers (fs.map (·.doc a)) :=
    mem_filterMap.mpr ⟨_, mem_map_of_mem mem, by simp [doc]⟩
  exact Nat.lt_succ_of_le (Json.depthMembers_le_iff.mp le_rfl _ member)

end

/-! ## Properties every decoded value has -/

namespace Codec

variable {α : Type}

/-- Decoding into a variable with the property `P` gives a value with it. -/
def Keeps (c : Codec α) (P : α → Prop) : Prop :=
  ∀ (cur : α) (d : Doc) (v : α), P cur → c.dec cur d = some v → P v

theorem keeps_string : Codec.string.Keeps fun s => s.valid := by
  intro cur d v valid read
  cases d <;> simp only [string, some.injEq, reduceCtorEq] at read
  · exact read ▸ valid
  · exact read ▸ valid_unquote _

variable {P : α → Prop}

theorem Keeps.member {c : Codec α} (keeps : c.Keeps P) {name : String} {cur v : α}
    {ms : List (JsonString × Doc)} (h : P cur) (read : member c name cur ms = some v) : P v := by
  unfold AutoAgent.member at read
  generalize ms.filter (fun m => nameMatches name.toList m.1) = hits at read
  induction hits generalizing cur with
  | nil =>
    obtain rfl : cur = v := by simpa using read
    exact h
  | cons m hits ih =>
    simp only [foldlM_cons, bind_eq_bind, bind_eq_some_iff] at read
    obtain ⟨next, first, rest⟩ := read
    exact ih (keeps _ _ _ h first) rest

theorem Keeps.ptr {c : Codec α} (keeps : c.Keeps P) (zero : P c.zero)
    (notNull : ∀ v, c.enc v ≠ .null) : (c.ptr notNull).Keeps fun v => ∀ a ∈ v, P a := by
  intro cur d v h read a mem
  have own : P (cur.getD c.zero) := by
    cases cur with
    | none => exact zero
    | some a => exact h a rfl
  cases d
  case null =>
    obtain rfl : none = v := by simpa [Codec.ptr] using read
    simp at mem
  all_goals
    obtain ⟨a', decoded, rfl⟩ := map_eq_some_iff.mp read
    obtain rfl : a' = a := by simpa using mem
    exact keeps _ _ _ own decoded

theorem Keeps.slice {c : Codec α} (keeps : c.Keeps P) (zero : P c.zero) :
    c.slice.Keeps fun vs => ∀ a ∈ vs, P a := by
  have items : ∀ (ds : List Doc) (cur vs : List α), (∀ a ∈ cur, P a) →
      c.decItems cur ds = some vs → ∀ a ∈ vs, P a := by
    intro ds
    induction ds with
    | nil =>
      intro cur vs _ read
      obtain rfl : [] = vs := by simpa [decItems] using read
      simp
    | cons d ds ih =>
      intro cur vs h read
      simp only [decItems, bind_eq_bind, bind_eq_some_iff, Option.pure_def, some.injEq] at read
      obtain ⟨v, first, rest, tail, rfl⟩ := read
      have head : P (cur.head?.getD c.zero) := by
        cases cur with
        | nil => exact zero
        | cons a cur => exact h a (by simp)
      refine forall_mem_cons.mpr ⟨keeps _ _ _ head first, ?_⟩
      exact ih _ _ (fun a mem => h a (mem_of_mem_tail mem)) tail
  intro cur d vs h read
  cases d <;> simp only [Codec.slice, some.injEq, reduceCtorEq] at read
  · exact read ▸ by simp
  · exact items _ _ _ h read

end Codec

/-! ## Stored documents -/

/-- The nesting depth beyond which the decoder gives up. -/
def maxNestingDepth : ℕ := 10000

/-- A `json.RawMessage`: its size in bytes and the document a decoder reads from
it, if there is one.  No data at all has size zero. -/
structure RawMessage where
  size : ℕ
  doc : Option Doc

namespace RawMessage

def empty : RawMessage := ⟨0, none⟩

/-- The result of `json.Marshal`. -/
def ofDoc (d : Doc) : RawMessage :=
  ⟨d.size, if d.depth ≤ maxNestingDepth then some d else none⟩

/-- `json.Unmarshal` into a fresh variable. -/
def decode {α : Type} (raw : RawMessage) (c : Codec α) : Option α := raw.doc.bind (c.dec c.zero)

/-- A value within the nesting depth that survives its codec survives storage. -/
theorem decode_ofDoc {α : Type} {c : Codec α} {v : α} (ok : c.ok v)
    (shallow : (c.enc v).depth ≤ maxNestingDepth) : (ofDoc (c.enc v)).decode c = some v := by
  simp [decode, ofDoc, shallow, c.dec_enc ok]

end RawMessage

/-- The repository's copy of a `map[string]any`: a trip through JSON, `nil` when
it fails. -/
def cloneMap (m : List (GoString × GoAny)) : List (GoString × GoAny) :=
  let d := (Codec.map .any).enc m
  ((RawMessage.ofDoc d).decode (.map .any)).getD []

/-- A map that survives JSON is copied as it is. -/
theorem cloneMap_of_ok {m : List (GoString × GoAny)} (ok : (Codec.map .any).ok m)
    (shallow : ((Codec.map .any).enc m).depth ≤ maxNestingDepth) : cloneMap m = m := by
  simp [cloneMap, RawMessage.decode_ofDoc ok shallow]

theorem decEntries_any (ms : List (JsonString × Doc)) (cur : List (GoString × GoAny)) :
    Codec.any.decEntries cur ms =
      if Json.inRangeMembers ms then some (decodeMembers ms cur) else none := by
  induction ms generalizing cur with
  | nil => rfl
  | cons m ms ih =>
    obtain ⟨k, d⟩ := m
    have read : Codec.any.dec Codec.any.zero d = if d.inRange then some (decodeAny d) else none :=
      rfl
    rw [Codec.decEntries, read, Json.inRangeMembers]
    by_cases range : d.inRange
    · rw [if_pos range, range, Bool.true_and]
      exact ih _
    · simp [range]

theorem depth_encodeMap_decodeMembers_le (ms : List (JsonString × Doc)) :
    ((Codec.map .any).enc (decodeMembers ms [])).depth ≤ (Json.obj ms : Doc).depth := by
  have below := depth_encodeAny_decodeAny_le (.obj ms)
  rw [decodeAny, encodeAny, encodeMembers_eq_map] at below
  cases read : decodeMembers ms [] with
  | nil => exact Nat.zero_le _
  | cons p ps => rw [read] at below; exact below

/-- What a copy holds survives JSON. -/
theorem ok_decodeMembers {ms : List (JsonString × Doc)} (range : Json.inRangeMembers ms) :
    (Codec.map .any).ok (decodeMembers ms []) := by
  have read := faithfulAny_decodeAny (.obj ms)
  have numbers := inRange_decodeAny (d := .obj ms) range
  rw [decodeAny, faithfulAny, and_eq_true, faithfulMembers_iff] at read
  rw [decodeAny, Json.inRange, Json.inRangeMembers_iff] at numbers
  simp only [Codec.map, Codec.any, and_eq_true, all_eq_true]
  exact ⟨read.1, fun m mem => ⟨(read.2 m mem).1, (read.2 m mem).2, numbers m mem⟩⟩

theorem cloneMap_cloneMap (m : List (GoString × GoAny)) : cloneMap (cloneMap m) = cloneMap m := by
  cases m with
  | nil => rfl
  | cons p ms =>
    have copy : cloneMap (p :: ms) =
        ((RawMessage.ofDoc (.obj (encodeMembers (p :: ms)))).decode (.map .any)).getD [] := by
      rw [encodeMembers_eq_map]
      rfl
    rw [RawMessage.ofDoc] at copy
    split at copy
    · have read : cloneMap (p :: ms) =
        (Codec.any.decEntries [] (encodeMembers (p :: ms))).getD [] :=
        copy
      rw [decEntries_any] at read
      split at read
      · rw [read]
        refine cloneMap_of_ok (ok_decodeMembers ‹_›) (le_trans ?_ ‹_›)
        exact depth_encodeMap_decodeMembers_le _
      · rw [read]
        rfl
    · rw [copy]
      rfl

end AutoAgent
