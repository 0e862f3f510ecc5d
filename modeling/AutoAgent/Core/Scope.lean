import AutoAgent.Core.ToolInvocation
import AutoAgent.Lib.Mounts

/-!
# Scope-owned registries

Capabilities and policies are contributed by scopes: a registry keeps the
contributions of a scope in a slice under the scope's string, and a reader walks
the prefixes of its target from the root and takes each slice in mount order.

**Keys.**  The string of a path joins `kind:id` segments with slashes.
Identifiers hold no slash and kinds no colon, so the string determines the path
(`string_injective`) and the slice under the string of a prefix holds exactly the
contributions of that prefix.

**Runs.**  A registry is used through `Mount` and the unmount functions it
returned, in any order.  `ScopedRegistry.run` is the registry after a sequence of
such calls, and `run_orderly` is what every such sequence keeps.
-/

namespace AutoAgent

open List

/-! ## Paths -/

variable {previous : Option ℕ} {refs : List ScopeRef}

/-- The rest of an accepted list of segments is accepted after fewer segments. -/
theorem acceptableSegments_take (n : ℕ) (h : acceptableSegments previous refs) :
    acceptableSegments previous (refs.take n) := by
  induction refs generalizing previous n with
  | nil => simpa using h
  | cons ref refs ih =>
    cases n with
    | zero => rfl
    | succ n =>
      simp only [acceptableSegments, take_succ_cons, and_eq_true] at h ⊢
      exact ⟨h.1, ih n h.2⟩

theorem acceptable_of_mem (h : acceptableSegments previous refs) {ref : ScopeRef}
    (mem : ref ∈ refs) :
    ref.acceptable := by
  induction refs generalizing previous with
  | nil => simp at mem
  | cons first refs ih =>
    simp only [acceptableSegments, and_eq_true] at h
    rcases mem_cons.mp mem with rfl | later
    · exact h.1.1
    · exact ih h.2 later

namespace ScopePath

def depth (p : ScopePath) : ℕ := p.segments.length

/-- The path through the first `n` segments. -/
def take (p : ScopePath) (n : ℕ) : ScopePath :=
  ⟨p.segments.take n, acceptableSegments_take n p.accepted⟩

/-- `Prefixes`: every path from the root segment through the full path. -/
def prefixes (p : ScopePath) : List ScopePath := (List.range p.depth).map fun i => p.take (i + 1)

def equal (p q : ScopePath) : Bool := p.isAncestorOf q && p.depth == q.depth

variable {p q : ScopePath}

theorem ext (h : p.segments = q.segments) : p = q := by
  obtain ⟨_, _⟩ := q
  cases h
  rfl

theorem isAncestorOf_iff : p.isAncestorOf q ↔ p.segments <+: q.segments :=
  isPrefixOf_iff_prefix

theorem isAncestorOf_refl (p : ScopePath) : p.isAncestorOf p :=
  isAncestorOf_iff.mpr (prefix_refl _)

theorem isAncestorOf_trans {p q r : ScopePath} (first : p.isAncestorOf q)
    (second : q.isAncestorOf r) : p.isAncestorOf r :=
  isAncestorOf_iff.mpr ((isAncestorOf_iff.mp first).trans (isAncestorOf_iff.mp second))

theorem equal_iff : p.equal q ↔ p = q := by
  rw [equal, and_eq_true, isAncestorOf_iff, beq_iff_eq, depth, depth]
  constructor
  · rintro ⟨start, len⟩
    exact ext (start.eq_of_length len)
  · rintro rfl
    exact ⟨prefix_refl _, rfl⟩

/-- The prefixes of a path are its non-empty ancestors. -/
theorem mem_prefixes : q ∈ p.prefixes ↔ q.isAncestorOf p ∧ q.depth ≠ 0 := by
  rw [prefixes, mem_map, isAncestorOf_iff]
  constructor
  · rintro ⟨i, below, rfl⟩
    rw [mem_range, depth] at below
    refine ⟨ take_prefix _ _, ?_⟩
    simp only [depth, take, length_take]
    omega
  · rintro ⟨start, positive⟩
    have len := start.length_le
    rw [depth] at positive
    refine ⟨q.depth - 1, by rw [mem_range, depth, depth]; omega, ext ?_⟩
    show p.segments.take (q.depth - 1 + 1) = q.segments
    rw [depth, Nat.sub_add_cancel (by omega)]
    exact (prefix_iff_eq_take.mp start).symm

/-- The walk to a descendant goes through the walk to the ancestor first. -/
theorem prefixes_of_isAncestorOf (h : p.isAncestorOf q) :
    ∃ rest, q.prefixes = p.prefixes ++ rest ∧ ∀ r ∈ rest, p.depth < r.depth := by
  have start := isAncestorOf_iff.mp h
  obtain ⟨more, len⟩ : ∃ more, q.depth = p.depth + more :=
    ⟨q.depth - p.depth, (Nat.add_sub_cancel' start.length_le).symm⟩
  refine ⟨(List.range more).map fun i => q.take (p.depth + i + 1), ?_, ?_⟩
  · rw [prefixes, prefixes, len, range_add, map_append, map_map]
    congr 1
    refine map_congr_left fun i below => ext ?_
    rw [mem_range, depth] at below
    show q.segments.take (i + 1) = p.segments.take (i + 1)
    rw [prefix_iff_eq_take.mp start, take_take, Nat.min_eq_left (by omega)]
  · intro r mem
    obtain ⟨i, below, rfl⟩ := mem_map.mp mem
    rw [mem_range] at below
    show p.depth < (q.segments.take (p.depth + i + 1)).length
    rw [length_take]
    have := len
    rw [depth] at this
    omega

/-! ### The string of a path -/

/-- `kind:id`. -/
def segmentText (ref : ScopeRef) : List GoRune := ref.kind.text.runes ++ .rune ':' :: ref.id.runes

/-- `strings.Join` of the segments with slashes. -/
def joined : List ScopeRef → List GoRune
  | [] => []
  | [ref] => segmentText ref
  | ref :: refs => segmentText ref ++ .rune '/' :: joined refs

def string (p : ScopePath) : GoString := ⟨joined p.segments⟩

/-- Text up to the first delimiter is determined. -/
theorem append_delimiter_inj {d : GoRune} {a b x y : List GoRune} (ha : d ∉ a) (hb : d ∉ b)
    (h : a ++ d :: x = b ++ d :: y) : a = b ∧ x = y := by
  induction a generalizing b with
  | nil =>
    cases b with
    | nil => simpa using h
    | cons c b =>
      simp only [nil_append, cons_append, List.cons.injEq] at h
      exact absurd (h.1 ▸ mem_cons_self ..) hb
  | cons c a ih =>
    cases b with
    | nil =>
      simp only [nil_append, cons_append, List.cons.injEq] at h
      exact absurd (h.1 ▸ mem_cons_self ..) ha
    | cons c' b =>
      simp only [cons_append, List.cons.injEq] at h
      obtain ⟨rfl, rest⟩ := h
      obtain ⟨rfl, same⟩ := ih (fun mem => ha (mem_cons_of_mem _ mem))
        (fun mem => hb (mem_cons_of_mem _ mem)) rest
      exact ⟨rfl, same⟩

theorem delimiter_notMem_kind (k : ScopeKind) :
    ∀ c ∈ [':', '/', '\x00'], GoRune.rune c ∉ k.text.runes := by
  rw [forall_mem_cons, forall_mem_cons, forall_mem_singleton]
  cases k <;> decide

/-- The text of a segment has neither a slash nor a NUL. -/
theorem notMem_segmentText {ref : ScopeRef} (h : ref.acceptable) {c : Char}
    (delimiter : c ∈ ['/', '\x00']) : GoRune.rune c ∉ segmentText ref := by
  simp only [ScopeRef.acceptable, and_eq_true, not_eq_true'] at h
  intro mem
  rcases mem_append.mp mem with inKind | later
  · exact delimiter_notMem_kind ref.kind c (mem_cons_of_mem _ delimiter) inKind
  · rcases mem_cons.mp later with colon | inID
    · obtain rfl := GoRune.rune.inj colon
      exact absurd delimiter (by decide)
    · have any : ref.id.anyRune (fun c => c == '/' || c == '\x00') := by
        rw [GoString.anyRune, any_eq_true]
        exact ⟨_, inID, by simpa [GoRune.satisfies] using delimiter⟩
      rw [any] at h
      exact absurd h.2 (by simp)

theorem segmentText_injective {a b : ScopeRef} (h : segmentText a = segmentText b) : a = b := by
  obtain ⟨kind, id⟩ := append_delimiter_inj (delimiter_notMem_kind a.kind ':' (by simp))
    (delimiter_notMem_kind b.kind ':' (by simp)) h
  have kinds : a.kind = b.kind := by
    have texts : a.kind.text = b.kind.text := by
      rw [← show (⟨a.kind.text.runes⟩ : GoString) = a.kind.text from rfl, kind]
    have := ScopeKind.parse_text a.kind
    rw [texts, ScopeKind.parse_text] at this
    exact (some.inj this).symm
  obtain ⟨_, ⟨_⟩⟩ := a
  simp only at kinds id
  rw [kinds, id]

theorem joined_injective {p q : List ScopeRef} (hp : ∀ ref ∈ p, ref.acceptable)
    (hq : ∀ ref ∈ q, ref.acceptable) (h : joined p = joined q) : p = q := by
  have nonempty : ∀ ref refs, joined (ref :: refs) ≠ [] := by
    intro ref refs
    cases refs <;> simp [joined, segmentText]
  induction p generalizing q with
  | nil =>
    cases q with
    | nil => rfl
    | cons b q => exact absurd h.symm (nonempty b q)
  | cons a p ih =>
    cases q with
    | nil => exact absurd h (nonempty a p)
    | cons b q =>
      have slash : '/' ∈ ['/', '\x00'] := by simp
      have ha := notMem_segmentText (hp a (mem_cons_self ..)) slash
      have hb := notMem_segmentText (hq b (mem_cons_self ..)) slash
      -- a last segment holds no slash, so both paths end here or both go on
      cases p with
      | nil =>
        cases q with
        | nil => rw [segmentText_injective h]
        | cons c q =>
          have longer : segmentText a = joined (b :: c :: q) := h
          exact absurd (by simp [longer, joined]) ha
      | cons c p =>
        cases q with
        | nil =>
          have longer : segmentText b = joined (a :: c :: p) := h.symm
          exact absurd (by simp [longer, joined]) hb
        | cons d q =>
          obtain ⟨first, rest⟩ := append_delimiter_inj ha hb h
          rw [segmentText_injective first, ih (fun r mem => hp r (mem_cons_of_mem _ mem))
              (fun r mem => hq r (mem_cons_of_mem _ mem)) rest]

/-- The string determines the path. -/
theorem string_injective (h : p.string = q.string) : p = q :=
  ext (joined_injective (fun _ => acceptable_of_mem p.accepted)
    (fun _ => acceptable_of_mem q.accepted) (congrArg GoString.runes h))

end ScopePath

/-! ## Permissions -/

/-- `PermissionSet`: `map[Permission]bool`, where an absent permission reads as
`false`. -/
abbrev PermissionSet := GoString → Bool

namespace PermissionSet

/-- `NewPermissionSet`. -/
def new (grants : List GoString) : PermissionSet := fun permission => permission ∈ grants

/-- `Allows`: every required permission is present. -/
def allows (s : PermissionSet) (required : List GoString) : Bool := required.all s

def intersect (s other : PermissionSet) : PermissionSet := fun permission =>
  s permission && other permission

def delete (s : PermissionSet) (permission : GoString) : PermissionSet :=
  Function.update s permission false

end PermissionSet

/-- The grants of a caller as a permission set. -/
def Principal.permissions (principal : Principal) : PermissionSet := fun permission =>
  principal.grants.any fun grant => decide (grant.1 = permission) && grant.2

/-! ## Registries -/

def hardMaxSteps : ℤ := 128
def hardMaxToolCalls : ℤ := 1024
def maxRegistryBindings : ℤ := 4096

def registryCap (max : ℤ) : ℤ := if 0 < max then max else maxRegistryBindings

inductive RegistryError where
  | emptyScope
  | notNamespaced (id : GoString)
  | emptyVersion
  | unknownMode
  | emptyKind
  | perTurnBudget
  | maxOutputBytes
  | timeout
  | repeatedPermission (permission : GoString)
  | repeatedCredential (ref : GoString)
  | inputSchema
  | outputSchema
  | toolSchema
  | sandboxMode (mode : GoString)
  | manifestBytes
  | noProvider
  | notToolProvider
  | maxSteps
  | maxToolCalls
  | full (cap : ℤ)
  | notOwner (scope target : ScopePath)
  | alreadyProvided (id : GoString)
  | replacesMissing (id : GoString)
  | protectedBy (id : GoString) (scope : ScopePath)
  | snapshotBytes
  deriving DecidableEq

def validateNamespacedID (id : GoString) : Except RegistryError Unit :=
  require (validNamespacedID id) (.notNamespaced id)

/-- The state of a registry whose contributions are kept by scope. -/
structure ScopedRegistry (α : Type) where
  layers : Shelves GoString α
  next : ℕ
  maxBindings : ℤ

/-- A kind of contribution: the scope it names and what `Mount` checks and
stores of it. -/
structure Contribution (α : Type) where
  scopeOf : α → ScopePath
  accept : α → Except RegistryError α
  keeps : ∀ {a b}, accept a = .ok b → scopeOf b = scopeOf a

/-- The calls on a registry: `Mount`, and an unmount function with the scope and
the number it remembers. -/
inductive MountCall (α : Type) where
  | mount (value : α)
  | unmount (scope : ScopePath) (order : ℕ)

namespace ScopedRegistry

variable {α : Type} (C : Contribution α)

def new (maxBindings : ℤ) : ScopedRegistry α := ⟨∅, 0, maxBindings⟩

def mount (r : ScopedRegistry α) (value : α) : Except RegistryError (ScopedRegistry α) := do
  let value ← C.accept value
  require ((r.layers.count : ℤ) < registryCap r.maxBindings) (.full (registryCap r.maxBindings))
  let key := (C.scopeOf value).string
  return { r with
    layers := r.layers.put key (r.layers.at_ key ++ [⟨value, r.next + 1⟩])
    next := r.next + 1 }

/-- What an unmount function does the first time it is called. -/
def unmount (r : ScopedRegistry α) (scope : ScopePath) (order : ℕ) : ScopedRegistry α :=
  { r with layers := r.layers.put scope.string (Stored.without order (r.layers.at_ scope.string)) }

/-- One call; a refused value leaves the registry as it was. -/
def call (r : ScopedRegistry α) : MountCall α → ScopedRegistry α
  | .mount value => (r.mount C value).toOption.getD r
  | .unmount scope order => r.unmount scope order

/-- The registry after a sequence of calls. -/
def run (maxBindings : ℤ) (calls : List (MountCall α)) : ScopedRegistry α :=
  calls.foldl (call C) (new maxBindings)

/-- The slice of a prefix in mount order, as every reader takes it. -/
def slice (r : ScopedRegistry α) (scope : ScopePath) : List α :=
  (Stored.byOrder (r.layers.at_ scope.string)).map Stored.value

/-- The contributions a reader of the target walks over, root first. -/
def walk (r : ScopedRegistry α) (target : ScopePath) : List α := target.prefixes.flatMap r.slice

/-- A value the registry holds, under any key. -/
def Mounted (r : ScopedRegistry α) (a : α) : Prop := ∃ key, ∃ s ∈ r.layers.at_ key, s.value = a

/-- The registry is in order and holds accepted values only. -/
structure Orderly (r : ScopedRegistry α) : Prop where
  layers : Shelves.Orderly (fun a => (C.scopeOf a).string) r.next r.layers
  accepted : ∀ key, ∀ s ∈ r.layers.at_ key, ∃ a, C.accept a = .ok s.value

variable {C}

theorem mount_eq_ok {r r' : ScopedRegistry α} {value : α} (h : r.mount C value = .ok r') :
    ∃ stored, C.accept value = .ok stored ∧ r' =
      { r with
        layers := r.layers.put (C.scopeOf stored).string
          (r.layers.at_ (C.scopeOf stored).string ++ [⟨stored, r.next + 1⟩])
        next := r.next + 1 } := by
  simp only [mount, bind_eq_ok, pure_eq_ok] at h
  obtain ⟨stored, accepted, _, _, rfl⟩ := h
  exact ⟨stored, accepted, rfl⟩

variable {r : ScopedRegistry α}

/-- One call keeps the registry in order. -/
theorem Orderly.call (h : Orderly C r) (c : MountCall α) :
    Orderly C (r.call C c) := by
  cases c with
  | mount value =>
    rcases result : r.mount C value with e | r'
    · simpa [ScopedRegistry.call, result, Except.toOption] using h
    · obtain ⟨stored, accepted, rfl⟩ := mount_eq_ok result
      rw [ScopedRegistry.call, result]
      refine ⟨h.layers.push stored, fun key s mem => ?_⟩
      simp only [Except.toOption, getD_some, Shelves.at_put] at mem
      split at mem
      · rcases mem_append.mp mem with old | new
        · exact h.accepted _ s old
        · obtain rfl := mem_singleton.mp new
          exact ⟨value, accepted⟩
      · exact h.accepted key s mem
  | unmount scope order =>
    refine ⟨h.layers.remove scope.string order, fun key s mem => ?_⟩
    rw [ScopedRegistry.call, unmount, Shelves.at_put] at mem
    split at mem
    · exact h.accepted _ s (Stored.mem_of_mem_without mem)
    · exact h.accepted key s mem

/-- Every sequence of calls keeps the registry in order. -/
theorem run_orderly (maxBindings : ℤ) (calls : List (MountCall α)) :
    Orderly C (run C maxBindings calls) := by
  have start : Orderly C (new maxBindings : ScopedRegistry α) :=
    ⟨Shelves.orderly_empty _, fun key s mem => by simp [new] at mem⟩
  rw [run]
  generalize new maxBindings = r at start
  induction calls generalizing r with
  | nil => exact start
  | cons c calls ih => exact ih (r.call C c) (start.call c)

variable {a : α} {scope : ScopePath}

theorem Orderly.mem_slice (h : Orderly C r) :
    a ∈ r.slice scope ↔ ∃ s ∈ r.layers.at_ scope.string, s.value = a := by
  rw [slice, Stored.byOrder_of_sorted (h.layers.sorted _), mem_map]

/-- The slice of a scope holds contributions of that scope only. -/
theorem Orderly.scope_of_mem (h : Orderly C r) (mem : a ∈ r.slice scope) : C.scopeOf a = scope := by
  obtain ⟨s, stored, rfl⟩ := h.mem_slice.mp mem
  exact ScopePath.string_injective (h.layers.own _ s stored)

/-- What is walked over was accepted by `Mount`. -/
theorem Orderly.accepted_of_mounted (h : Orderly C r) (mounted : r.Mounted a) :
    ∃ value, C.accept value = .ok a := by
  obtain ⟨key, s, stored, rfl⟩ := mounted
  exact h.accepted key s stored

variable {target : ScopePath}

/-- A reader of the target walks over the contributions of its prefixes, and over
no others. -/
theorem Orderly.mem_walk (h : Orderly C r) :
    a ∈ r.walk target ↔ r.Mounted a ∧ C.scopeOf a ∈ target.prefixes := by
  rw [walk, mem_flatMap]
  constructor
  · rintro ⟨scope, among, mem⟩
    obtain ⟨s, stored, same⟩ := h.mem_slice.mp mem
    exact ⟨⟨_, s, stored, same⟩, h.scope_of_mem mem ▸ among⟩
  · rintro ⟨⟨key, s, stored, rfl⟩, among⟩
    refine ⟨_, among, h.mem_slice.mpr ⟨s, ?_, rfl⟩⟩
    rw [h.layers.own key s stored]
    exact stored

/-- The walk to a descendant starts with the walk to the ancestor; what follows
belongs to scopes below the ancestor. -/
theorem walk_of_isAncestorOf (h : Orderly C r) {p q : ScopePath} (below : p.isAncestorOf q) :
    ∃ rest, r.walk q = r.walk p ++ rest ∧ ∀ a ∈ rest, p.depth < (C.scopeOf a).depth := by
  obtain ⟨more, split, deeper⟩ := ScopePath.prefixes_of_isAncestorOf below
  refine ⟨more.flatMap r.slice, by rw [walk, split, flatMap_append]; rfl, ?_⟩
  intro a mem
  obtain ⟨scope, among, inSlice⟩ := mem_flatMap.mp mem
  rw [h.scope_of_mem inSlice]
  exact deeper scope among

/-- Only the slices of the prefixes are read. -/
theorem walk_congr {r r' : ScopedRegistry α}
    (same : ∀ p ∈ target.prefixes, r.slice p = r'.slice p) :
    r.walk target = r'.walk target := by
  rw [walk, walk, flatMap_congr same]

end ScopedRegistry

def exampleGlobal : ScopePath := ⟨[⟨.global, go "root"⟩], by decide⟩

/-- A tenant below it. -/
def exampleTenant : ScopePath := ⟨[⟨.global, go "root"⟩, ⟨.tenant, go "acme"⟩], by decide⟩

/-- A caller at the root who may read and write. -/
def examplePrincipal : Principal :=
  ⟨go "ada", go "acme", exampleGlobal, [(go "data.read", true), (go "data.write", true)], []⟩

end AutoAgent
