import AutoAgent.Lib.Codec

/-!
# The shared vocabulary of the runtime

Identifiers, scopes, times, tool calls and capability manifests, each with the
JSON codec of its Go type.  Only the fields that some modelled function reads,
writes or serialises are present.

**Scopes.**  A `ScopePath` is built by `NewScopePath` only, or it is the zero
value; the structure carries that as a field.  The zero value is written as
`null`, and `UnmarshalJSON` refuses `null`, so the codec of a scope does not
accept the zero value.

**Times.**  A `Timestamp` is the RFC 3339 text of an instant, which is how a
`time.Time` crosses every boundary modelled here.
-/

namespace AutoAgent

/-! ## Identifiers -/

/-- The class `[A-Za-z0-9]`. -/
def isAlphaNum (c : Char) : Bool :=
  ('A' ≤ c && c ≤ 'Z') || ('a' ≤ c && c ≤ 'z') || ('0' ≤ c && c ≤ '9')

/-- The class `[A-Za-z0-9._:-]`. -/
def isIDChar (c : Char) : Bool :=
  isAlphaNum c || c == '.' || c == '_' || c == ':' || c == '-'

/-- The pattern of run, session and namespaced identifiers: a letter or digit
and at most 127 further identifier characters. -/
def runIDPattern (s : GoString) : Bool :=
  match s.runes with
  | [] => false
  | r :: rest => r.satisfies isAlphaNum && rest.all (GoRune.satisfies isIDChar) &&
      decide (rest.length ≤ 127)

/-- `ValidateNamespacedID`: an identifier with a dot. -/
def validNamespacedID (s : GoString) : Bool := runIDPattern s && s.anyRune (· == '.')

/-- The class `[a-f0-9]`. -/
def isLowerHex (c : Char) : Bool := ('a' ≤ c && c ≤ 'f') || ('0' ≤ c && c ≤ '9')

/-- The class `[A-Fa-f0-9]` that `hex.DecodeString` accepts. -/
def isHex (c : Char) : Bool := isLowerHex c || ('A' ≤ c && c ≤ 'F')

/-- The pattern of approval identifiers: `apr_` and 32 to 64 lower-case hex
digits. -/
def approvalIDPattern (s : GoString) : Bool :=
  s.runes.take 4 == (go "apr_").runes && (s.runes.drop 4).all (GoRune.satisfies isLowerHex) &&
    decide (32 ≤ (s.runes.drop 4).length) && decide ((s.runes.drop 4).length ≤ 64)

/-- An accepted identifier has no stray byte. -/
theorem valid_of_runIDPattern {s : GoString} (h : runIDPattern s) : s.valid := by
  obtain ⟨runes⟩ := s
  cases runes with
  | nil => rfl
  | cons r rest =>
    simp only [runIDPattern, and_eq_true] at h
    have tail : (⟨rest⟩ : GoString).valid := GoString.valid_of_allRunes h.1.2
    cases r with
    | rune c => simpa [GoString.valid, GoRune.isRune] using tail
    | invalid b => simp [GoRune.satisfies] at h

/-! ## Scopes -/

inductive ScopeKind where
  | global | deployment | product | tenant | workspace | user | session | run
  deriving DecidableEq, Repr

namespace ScopeKind

def text : ScopeKind → GoString
  | .global => go "global"
  | .deployment => go "deployment"
  | .product => go "product"
  | .tenant => go "tenant"
  | .workspace => go "workspace"
  | .user => go "user"
  | .session => go "session"
  | .run => go "run"

/-- `scopeRanks`. -/
def rank : ScopeKind → ℕ
  | .global => 0
  | .deployment => 10
  | .product => 20
  | .tenant => 30
  | .workspace => 40
  | .user => 50
  | .session => 60
  | .run => 70

/-- The known level with the given constant. -/
def parse (s : GoString) : Option ScopeKind :=
  [global, deployment, product, tenant, workspace, user, session, run].find? (·.text = s)

theorem parse_text (k : ScopeKind) : parse k.text = some k := by cases k <;> decide

theorem valid_text (k : ScopeKind) : k.text.valid := by cases k <;> decide

end ScopeKind

structure ScopeRef where
  kind : ScopeKind
  id : GoString
  deriving DecidableEq, Repr

/-- An identifier `NewScopePath` accepts for a level. -/
def ScopeRef.acceptable (ref : ScopeRef) : Bool :=
  !ref.id.isBlank && !ref.id.anyRune (fun c => c == '/' || c == '\x00')

/-- The checks of the loop of `NewScopePath`, `previous` the rank before. -/
def acceptableSegments : Option ℕ → List ScopeRef → Bool
  | _, [] => true
  | previous, ref :: refs =>
    ref.acceptable && previous.all (· < ref.kind.rank) &&
      acceptableSegments (some ref.kind.rank) refs

/-- A root-to-leaf ownership path: the zero value, or segments that
`NewScopePath` accepted. -/
structure ScopePath where
  segments : List ScopeRef
  accepted : acceptableSegments none segments
  deriving DecidableEq, Repr

namespace ScopePath

def empty : ScopePath := ⟨[], rfl⟩

/-- `NewScopePath`. -/
def new (segments : List ScopeRef) : Option ScopePath :=
  if segments.isEmpty then none
  else if h : acceptableSegments none segments = true then some ⟨segments, h⟩
  else none

/-- `IsAncestorOf`: a prefix, equality included. -/
def isAncestorOf (p q : ScopePath) : Bool := p.segments.isPrefixOf q.segments

/-- JSON of a segment, its level as text. -/
def refCodec : Codec (GoString × GoString) :=
  .struct [Codec.string.tag "kind" Prod.fst, Codec.string.tag "id" Prod.snd] Prod.mk

def refDoc (ref : ScopeRef) : Doc := refCodec.enc (ref.kind.text, ref.id)

/-- Reads one segment; an unknown level is refused. -/
def decRef (d : Doc) : Option ScopeRef := do
  let (kind, id) ← refCodec.dec refCodec.zero d
  let kind ← ScopeKind.parse kind
  return ⟨kind, id⟩

theorem decRef_refDoc {ref : ScopeRef} (h : ref.id.valid) : decRef (refDoc ref) = some ref := by
  have read := refCodec.dec_enc (v := (ref.kind.text, ref.id))
    (List.all_eq_true.mpr (by simpa [Codec.tag, Codec.string] using ⟨ref.kind.valid_text, h⟩))
  simp [decRef, refDoc, read, ScopeKind.parse_text]

/-- `MarshalJSON` and `UnmarshalJSON` of a scope path.  The zero value is
written as `null` and `null` is refused, so only non-empty paths survive. -/
def codec : Codec ScopePath where
  zero := .empty
  enc p := match p.segments with
    | [] => .null
    | refs => .arr (refs.map refDoc)
  dec
    | _, .arr items => do new (← items.mapM decRef)
    | _, _ => none
  ok p := !p.segments.isEmpty && p.segments.all (·.id.valid)
  dec_enc {p} h := by
    obtain ⟨segments, accepted⟩ := p
    simp only [and_eq_true, not_eq_true', List.all_eq_true] at h
    have read : (segments.map refDoc).mapM decRef = some segments := by
      clear accepted
      replace h := h.2
      induction segments with
      | nil => rfl
      | cons ref refs ih =>
        have rest := ih fun r mem => h r (List.mem_cons_of_mem _ mem)
        simp [decRef_refDoc (h ref (by simp)), rest]
    cases segments with
    | nil => simp at h
    | cons ref refs =>
      change ((ref :: refs).map refDoc).mapM decRef >>= new = _
      rw [read]
      simp [new, accepted]

end ScopePath

/-! ## Times -/

def twoDigits (a b : Char) : ℕ := (a.toNat - 48) * 10 + (b.toNat - 48)

def daysIn (year month : ℕ) : ℕ :=
  if month = 2 then
    if year % 4 = 0 ∧ (year % 100 ≠ 0 ∨ year % 400 = 0) then 29 else 28
  else if month ∈ [4, 6, 9, 11] then 30 else 31

/-- The fields of an RFC 3339 text: date, minutes since midnight, seconds,
fraction digits and zone offset in minutes. -/
structure TimeFields where
  year : ℕ
  month : ℕ
  day : ℕ
  minute : ℕ
  second : ℕ
  fraction : List Char
  offset : ℤ

/-- The zone of an RFC 3339 text: `Z` or a signed offset. -/
def parseZone : List Char → Option ℤ
  | ['Z'] => some 0
  | [sign, a, b, ':', c, d] =>
    if [a, b, c, d].all Char.isDigit ∧ (sign = '+' ∨ sign = '-') ∧ twoDigits a b ≤ 23 ∧
        twoDigits c d ≤ 59
    then some ((if sign = '-' then -1 else 1) * ((twoDigits a b * 60 + twoDigits c d : ℕ) : ℤ))
    else none
  | _ => none

/-- The strict RFC 3339 reader of `time.Time`. -/
def parseRFC3339 : List Char → Option TimeFields
  | y1 :: y2 :: y3 :: y4 :: '-' :: m1 :: m2 :: '-' :: d1 :: d2 :: 'T' ::
      h1 :: h2 :: ':' :: n1 :: n2 :: ':' :: s1 :: s2 :: rest =>
      let year := twoDigits y1 y2 * 100 + twoDigits y3 y4
      let (fraction, zone) := match rest with
        | '.' :: tail => (tail.takeWhile Char.isDigit, tail.dropWhile Char.isDigit)
        | _ => (['0'], rest)
      if [y1, y2, y3, y4, m1, m2, d1, d2, h1, h2, n1, n2, s1, s2].all Char.isDigit ∧
          1 ≤ twoDigits m1 m2 ∧ twoDigits m1 m2 ≤ 12 ∧ 1 ≤ twoDigits d1 d2 ∧
          twoDigits d1 d2 ≤ daysIn year (twoDigits m1 m2) ∧ twoDigits h1 h2 ≤ 23 ∧
          twoDigits n1 n2 ≤ 59 ∧ twoDigits s1 s2 ≤ 59 ∧ fraction ≠ []
      then (parseZone zone).map fun offset =>
        { year, month := twoDigits m1 m2, day := twoDigits d1 d2,
          minute := twoDigits h1 h2 * 60 + twoDigits n1 n2, second := twoDigits s1 s2,
          fraction, offset }
      else none
  | _ => none

/-- A `time.Time` by its RFC 3339 text. -/
structure Timestamp where
  chars : List Char
  readable : (parseRFC3339 chars).isSome
  deriving DecidableEq

namespace Timestamp

def zero : Timestamp := ⟨"0001-01-01T00:00:00Z".toList, by decide⟩

/-- `IsZero`: the instant is the first of year one, UTC, in whatever zone it is
written. -/
def isZero (t : Timestamp) : Bool :=
  match parseRFC3339 t.chars with
  | none => false
  | some f =>
    f.second = 0 ∧ (f.fraction.take 9).all (· = '0') ∧
      (f.year = 1 ∧ f.month = 1 ∧ f.day = 1 ∧ f.minute = f.offset ∨
        f.year = 0 ∧ f.month = 12 ∧ f.day = 31 ∧ f.minute - f.offset = 1440)

/-- The JSON form of a time: `null` is skipped, a string must be RFC 3339. -/
def codec : Codec Timestamp where
  zero := .zero
  enc t := .str (t.chars.map .lit)
  dec
    | cur, .null => some cur
    | _, .str s =>
      let chars := s.map fun
        | .lit c => c
        | .replacement => '�'
      if h : (parseRFC3339 chars).isSome = true then some ⟨chars, h⟩ else none
    | _, _ => none
  ok _ := true
  dec_enc {t} _ := by
    obtain ⟨chars, readable⟩ := t
    simp [comp_def, readable]

end Timestamp

end AutoAgent
