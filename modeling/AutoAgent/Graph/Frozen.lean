import AutoAgent.Core.Scope
import AutoAgent.Graph.Interleaving
import AutoAgent.Graph.ValidatorSpec
import Mathlib.Algebra.Order.BigOperators.Group.List
import Mathlib.Algebra.Order.Ring.Nat

/-!
# Frozen definitions

A frozen definition is to be one value for all definitions that say the same: whatever the
order of their parts and the formatting of their configs, they are frozen under one revision.
The sorts of `canonicalizeDefinition` see to the order, for their keys tell all parts of a
valid definition apart (`canonicalize_eq`).

**Frozen again.**  The canonical form is its own canonical form, so a frozen definition that
is accepted again is frozen to itself.  Every check is closed under canonicalization but one:
the encoder escapes some characters of a config, and the canonical text may be longer than a
config may be.  Such a definition is frozen once and refused the next time
(`validatedDefinition_frozen_iff`).
-/

namespace AutoAgent.Graph

open List Json EdgeSpec ApprovalDeniedPolicy
open GoString (len eq_of_codes_eq)
open Json (parse stringText size_obj size_arr)

/-! ## Sorting -/

section

variable {α : Type} {key : α → GoString} {xs ys : List α}

instance : Std.Total fun a b : α => (key b).before (key a) = false where
  total a b := by
    by_cases h : (key a).before (key b)
    · exact .inl (GoString.not_before_of_before h)
    · exact .inr (eq_false_iff.mpr h)

instance : IsTrans α fun a b => (key b).before (key a) = false where
  trans a b c h h' := by
    simp only [GoString.before, decide_eq_false_iff_not] at *
    exact List.le_trans h h'

theorem sortBy_perm (key : α → GoString) (xs : List α) : (sortBy key xs).Perm xs :=
  perm_insertionSort _ xs

/-- Keys that tell the elements apart fix the sorted list. -/
theorem sortBy_eq (h : xs.Perm ys)
    (apart : ∀ a ∈ xs, ∀ b ∈ xs, (key a).codes = (key b).codes → a = b) :
    sortBy key xs = sortBy key ys := by
  refine List.Perm.eq_of_pairwise (fun a b ha hb le ge => ?_) (pairwise_insertionSort _ xs)
    (pairwise_insertionSort _ ys) (((sortBy_perm key xs).trans h).trans (sortBy_perm key ys).symm)
  refine apart a ((sortBy_perm key xs).mem_iff.mp ha) b
    (h.mem_iff.mpr ((sortBy_perm key ys).mem_iff.mp hb)) ?_
  simp only [GoString.before, decide_eq_false_iff_not] at le ge
  exact List.le_antisymm le ge

end

variable {name : GoString}

/-- A valid text without the separator of the sort key. -/
abbrev Apart (text : GoString) : Prop := text.valid ∧ GoRune.rune '\x00' ∉ text.runes

theorem apart_of_validName {n : ℕ} (h : validName name n) : Apart name := by
  obtain ⟨-, -, valid, -, plain⟩ := of_decide_eq_true h
  simp only [not_eq_true', GoString.anyRune, any_eq_false] at plain
  exact ⟨valid, fun mem => plain _ mem (by decide)⟩

theorem eq_of_codes {a b : GoString} {n m : ℕ} (ha : validName a n) (hb : validName b m)
    (same : a.codes = b.codes) : a = b :=
  eq_of_codes_eq (apart_of_validName ha).1 (apart_of_validName hb).1 same

section

variable {reg : Registries} {nodes : List NodeSpec}

theorem EdgeSpec.texts_apart {e : EdgeSpec} (ok : validateEdge reg nodes e = .ok ()) :
    Apart e.source ∧ Apart e.kind.text ∧ Apart e.predicate ∧ Apart e.predicateVersion ∧
      Apart e.target ∧ e.kind ∈ [EdgeKind.default, .conditional, .error] := by
  simp only [validateEdge, bind_eq_ok, validateIdentifier_eq_ok, require_eq_ok, exists_const] at ok
  obtain ⟨source, target, -, -, rest⟩ := ok
  have source := apart_of_validName source
  have target := apart_of_validName target
  cases kind : e.kind with
  | default | error =>
    simp only [kind, require_eq_ok] at rest
    rw [rest.1, rest.2]
    exact ⟨source, by decide, by decide, by decide, target, by decide⟩
  | conditional =>
    simp only [kind, bind_eq_ok, validateIdentifier_eq_ok, exists_const] at rest
    exact ⟨source, by decide, apart_of_validName rest.1, apart_of_validName rest.2.1, target,
      by decide⟩
  | other text => simp [kind] at rest

theorem EdgeSpec.sortKey_inj {a b : EdgeSpec} (ha : validateEdge reg nodes a = .ok ())
    (hb : validateEdge reg nodes b = .ok ()) (same : a.sortKey.codes = b.sortKey.codes) :
    a = b := by
  obtain ⟨source, kind, predicate, version, target, known⟩ := texts_apart ha
  obtain ⟨source', kind', predicate', version', target', known'⟩ := texts_apart hb
  have key : ∀ e : EdgeSpec, e.sortKey.runes = e.source.runes ++ .rune '\x00' ::
      (e.kind.text.runes ++ .rune '\x00' :: (e.predicate.runes ++ .rune '\x00' ::
        (e.predicateVersion.runes ++ .rune '\x00' :: e.target.runes))) := by
    simp [sortKey, go]
  have runes := congrArg GoString.runes (eq_of_codes_eq (s := a.sortKey) (t := b.sortKey)
    (by simp [sortKey, *]) (by simp [sortKey, *]) same)
  rw [key, key] at runes
  obtain ⟨sources, runes⟩ := ScopePath.append_delimiter_inj source.2 source'.2 runes
  obtain ⟨kinds, runes⟩ := ScopePath.append_delimiter_inj kind.2 kind'.2 runes
  obtain ⟨predicates, runes⟩ := ScopePath.append_delimiter_inj predicate.2 predicate'.2 runes
  obtain ⟨versions, targets⟩ := ScopePath.append_delimiter_inj version.2 version'.2 runes
  have distinct : ([EdgeKind.default, .conditional, .error].map (·.text.runes)).Nodup := by decide
  have same := inj_on_of_nodup_map distinct known known' kinds
  obtain ⟨⟨s⟩, ⟨t⟩, k, ⟨p⟩, ⟨v⟩⟩ := a
  obtain ⟨⟨s'⟩, ⟨t'⟩, k', ⟨p'⟩, ⟨v'⟩⟩ := b
  simp only at sources predicates versions targets same
  rw [sources, predicates, versions, targets, same]

end

/-! ## Configs -/

theorem canonicalJSON_eq_ok {raw canonical : RawJSON} : canonicalJSON raw = .ok canonical ↔
    (raw ≠ [] ∧ validUTF8 raw) ∧
      ∃ d, parse raw = some d ∧ canonical = Json.text (Json.canonical d) := by
  simp only [canonicalJSON, bind_eq_ok, require_eq_ok, exists_const, and_eq_true,
    not_eq_true', isEmpty_eq_false_iff]
  refine and_congr_right fun _ => ?_
  cases parse raw with
  | none => simp
  | some d =>
    simp only [pure_eq_ok, some.injEq, exists_eq_left']
    exact eq_comm

variable {raw : RawJSON}

theorem readable_of_parse {d : Doc} (h : parse raw = some d) :
    Json.Readable maxNestingDepth d := by
  obtain ⟨⟨_, rest⟩, read, eq⟩ := bind_eq_some_iff.mp h
  dsimp only at eq
  split_ifs at eq
  cases eq
  exact readable_of_value read

/-- The canonical text is read back to what it was written from. -/
theorem parse_canonical {d : Doc} (h : parse raw = some d) :
    parse (Json.text (Json.canonical d)) = some (Json.canonical d) := by
  have readable := (readable_of_parse h).canonical
  rw [parse_text readable.1, if_pos readable.2]

theorem canonicalJSON_canonical {raw canonical : RawJSON} (h : canonicalJSON raw = .ok canonical) :
    canonicalJSON canonical = .ok canonical := by
  obtain ⟨-, d, read, rfl⟩ := canonicalJSON_eq_ok.mp h
  have formed := (readable_of_parse read).canonical.1
  obtain ⟨b, rest, starts, -⟩ := exists_cons_text formed
  refine canonicalJSON_eq_ok.mpr ⟨⟨by rw [starts]; simp, (encoded_text formed).valid⟩,
    Json.canonical d, parse_canonical read, by rw [canonical_canonical]⟩

/-- A valid config has a canonical form. -/
theorem canonicalConfig_cases (h : ValidConfig raw) :
    raw = [] ∧ canonicalConfig raw = [] ∨
      raw ≠ [] ∧ canonicalJSON raw = .ok (canonicalConfig raw) := by
  by_cases empty : raw = []
  · exact .inl ⟨empty, if_pos empty⟩
  · obtain ⟨canonical, ok⟩ := h.2 empty
    refine .inr ⟨empty, ?_⟩
    rw [canonicalConfig, if_neg empty, ok]
    rfl

theorem canonicalConfig_canonicalConfig (h : ValidConfig raw) :
    canonicalConfig (canonicalConfig raw) = canonicalConfig raw := by
  rcases canonicalConfig_cases h with ⟨rfl, empty⟩ | ⟨-, ok⟩
  · rfl
  · have again := canonicalJSON_canonical ok
    rw [canonicalConfig, if_neg (canonicalJSON_eq_ok.mp again).1.1, again]
    rfl

/-- The canonical form of a valid config is valid up to its length. -/
theorem validConfig_canonicalConfig (h : ValidConfig raw) :
    ValidConfig (canonicalConfig raw) ↔ (canonicalConfig raw).length ≤ maxNodeConfigBytes := by
  refine ⟨And.left, fun short => ⟨short, fun some => ?_⟩⟩
  rcases canonicalConfig_cases h with ⟨-, empty⟩ | ⟨-, ok⟩
  · exact absurd empty some
  · exact ⟨_, canonicalJSON_canonical ok⟩

/-! ## Canonical forms -/

theorem valid_of_explicit {field : GoString} (h : Explicit field) : field.valid := by
  have named := h.1
  simp only [validateContextName, bind_eq_ok, require_eq_ok, exists_const] at named
  exact named.2.2.1

theorem LayerKind.mem_sortedLayers {l : LayerKind} (known : l.known) : l ∈ sortedLayers := by
  cases l with
  | other text => cases known
  | _ => decide

theorem LayerKind.text_inj {a b : LayerKind} (ha : a.known) (hb : b.known)
    (same : a.text.codes = b.text.codes) : a = b := by
  have distinct : (sortedLayers.map fun l => l.text.codes).Nodup := by decide
  exact inj_on_of_nodup_map distinct (mem_sortedLayers ha) (mem_sortedLayers hb) same

theorem NodeSpec.alike_canonical (n : NodeSpec) : n.Alike n.canonical where
  id := rfl
  kind := rfl
  kindVersion := rfl
  stateFields := (sortBy_perm _ _).symm
  layers := (sortBy_perm _ _).symm
  budget := rfl
  retry := rfl
  timeout := rfl
  terminal := rfl
  usesSandbox := rfl
  policy := by
    show _ = (normal (normal n.approvalDeniedPolicy))
    cases n.approvalDeniedPolicy <;> rfl

theorem NodeSpec.Alike.canonical_eq {reg : Registries} {fields : List StateField} {n n' : NodeSpec}
    (h : n.Alike n') (valid : AutoAgent.Graph.validateNode reg fields n = .ok ())
    (config : canonicalConfig n.config = canonicalConfig n'.config) :
    n.canonical = n'.canonical := by
  obtain ⟨-, -, context, -⟩ := validateNode_eq_ok.mp valid
  simp only [validateContext, bind_eq_ok, mapError_eq_ok, Unique.exists_iff,
    PUnit.default_eq_unit] at context
  obtain ⟨-, -, ⟨explicit, -⟩, ⟨known, -⟩, -⟩ := validateContextView_eq_ok.mp context.1
  have names := sortBy_eq h.stateFields fun a ha b hb same =>
    eq_of_codes_eq (valid_of_explicit (explicit a ha)) (valid_of_explicit (explicit b hb)) same
  have layers := sortBy_eq h.layers fun a ha b hb same => LayerKind.text_inj
    (known a ha).1 (known b hb).1 same
  have policy := h.policy
  unfold normal at policy
  simp only [NodeSpec.canonical, names, layers, policy, config, h.id, h.kind,
    h.kindVersion, h.budget,
    h.retry, h.timeout, h.terminal, h.usesSandbox]

theorem alike_canonicalize (d : Definition) : Alike d (canonicalizeDefinition d) where
  id := rfl
  version := rfl
  entryNode := rfl
  nodes := by
    refine ⟨d.nodes.map NodeSpec.canonical, ?_, (sortBy_perm _ _).symm⟩
    rw [forall₂_map_right_iff]
    exact forall₂_same.mpr fun n _ => n.alike_canonical
  edges := (sortBy_perm _ _).symm
  reducer := rfl
  reducerVersion := rfl
  fields := (sortBy_perm _ _).symm
  limits := rfl
  redaction := (sortBy_perm _ _).symm

/-- **One canonical form** for all definitions that differ in their arrangement and in the
formatting of their configs. -/
theorem canonicalize_eq {reg : Registries} {d d' : Definition} (valid : Valid reg d)
    (h : Alike d d')
    (nodes : ∃ middle, List.Forall₂ (fun n n' => n.Alike n' ∧
      canonicalConfig n.config = canonicalConfig n'.config) d.nodes middle ∧ middle.Perm d'.nodes) :
    canonicalizeDefinition d = { canonicalizeDefinition d' with revision := d.revision } := by
  obtain ⟨middle, each, perm⟩ := nodes
  have same : d.nodes.map NodeSpec.canonical = middle.map NodeSpec.canonical := by
    have own := valid.nodes
    clear perm h
    generalize d.nodes = nodes at each own
    induction each with
    | nil => rfl
    | @cons n n' _ _ alike _ ih =>
      rw [map_cons, map_cons, alike.1.canonical_eq (own n (by simp)) alike.2,
        ih fun n mem => own n (mem_cons_of_mem _ mem)]
  have sortedNodes : sortBy NodeSpec.id (d.nodes.map NodeSpec.canonical) =
      sortBy NodeSpec.id (d'.nodes.map NodeSpec.canonical) := by
    refine sortBy_eq (same ▸ perm.map _) fun a ha b hb codes => ?_
    obtain ⟨n, mem, rfl⟩ := mem_map.mp ha
    obtain ⟨m, mem', rfl⟩ := mem_map.mp hb
    have names := (validateNode_eq_ok.mp (valid.nodes n mem)).1.1
    have names' := (validateNode_eq_ok.mp (valid.nodes m mem')).1.1
    rw [inj_on_of_nodup_map valid.distinct mem mem' (eq_of_codes names names' codes)]
  have sortedEdges : sortBy sortKey d.edges = sortBy sortKey d'.edges :=
    sortBy_eq h.edges fun a ha b hb codes =>
      sortKey_inj (valid.edges a ha) (valid.edges b hb) codes
  have sortedFields : sortBy StateField.name d.state.fields =
    sortBy StateField.name d'.state.fields := by
    refine sortBy_eq h.fields fun a ha b hb codes => ?_
    have same := eq_of_codes (valid.fields.each a ha).1 (valid.fields.each b hb).1 codes
    have distinct : (d.state.fields.map StateField.name).Nodup :=
      pairwise_map.mpr valid.fields.distinct
    exact inj_on_of_nodup_map distinct ha hb same
  have sortedRedaction : sortBy (fun name => name) d.redaction =
      sortBy (fun name => name) d'.redaction :=
    sortBy_eq h.redaction fun a ha b hb codes =>
      eq_of_codes (valid.redaction.each a ha).1 (valid.redaction.each b hb).1 codes
  simp only [canonicalizeDefinition, sortedNodes, sortedEdges, sortedFields, sortedRedaction, h.id,
    h.version, h.entryNode, h.reducer, h.reducerVersion, h.limits]

/-! ## Rough sizes -/

def Definition.rough (d : Definition) : ℕ :=
  [d.id.len, d.version.len, d.revision.len, d.entryNode.len, d.state.reducer.len,
    d.state.reducerVersion.len].sum + (d.nodes.map fun n => n.amounts.sum).sum +
    (d.edges.flatMap EdgeSpec.amounts).sum + (d.state.fields.flatMap StateField.amounts).sum +
    (d.redaction.map len).sum

/-- The counts of a node keep their bounds. -/
def NodeSpec.Bounded (n : NodeSpec) : Prop :=
  n.config.length ≤ maxNodeConfigBytes ∧ (n.contextView.stateFields.length ≤ maxContextStateFields ∧
      n.contextView.layers.length ≤ maxContextViewLayers) ∧
    n.contextBudget.layerBudgets.keys.card ≤ maxContextViewLayers

theorem addBytes_loop {n out : ℕ} (start : n ≤ maxDefinitionBytes) {xs : List ℕ} :
    xs.foldlM addBytes n = .ok out ↔ n + xs.sum ≤ maxDefinitionBytes ∧ out = n + xs.sum := by
  have step : ∀ n x out, n ≤ maxDefinitionBytes → (addBytes n x = .ok out ↔
      True ∧ n + id x ≤ maxDefinitionBytes ∧ out = n + id x) := by
    intro n x out _
    simp only [addBytes, bind_eq_ok, require_eq_ok, pure_eq_ok, exists_const,
      true_and, id]
    exact and_congr_right fun _ => eq_comm
  rw [foldlM_add step start]
  simp

theorem preflightNodes_loop {n out : ℕ} (start : n ≤ maxDefinitionBytes) {xs : List NodeSpec} :
    xs.foldlM preflightNode n = .ok out ↔ (∀ x ∈ xs, x.Bounded) ∧
      n + (xs.map fun x => x.amounts.sum).sum ≤ maxDefinitionBytes ∧
      out = n + (xs.map fun x => x.amounts.sum).sum := by
  refine foldlM_add (fun n x out below => ?_) start
  simp only [preflightNode, NodeSpec.Bounded, bind_eq_ok, require_eq_ok,
    exists_const, addBytes_loop below, and_assoc]

theorem preflightDefinition_eq_ok {d : Definition} {u : Unit} : preflightDefinition d = .ok u ↔
    ((0 < d.nodes.length ∧ d.nodes.length ≤ maxNodes) ∧ d.edges.length ≤ maxEdges ∧
      d.state.fields.length ≤ maxStateFields ∧ d.redaction.length ≤ maxStateFields) ∧
      (∀ n ∈ d.nodes, n.Bounded) ∧ d.rough ≤ maxDefinitionBytes := by
  simp only [preflightDefinition, bind_eq_ok, require_eq_ok,
    exists_const, addBytes_loop (Nat.zero_le _), Nat.zero_add]
  constructor
  · rintro ⟨count, edges, ⟨fields, redaction⟩, _, ⟨below, rfl⟩, _, nodes, _, rest, _,
      rest', _, last, -⟩
    obtain ⟨bounded, below, rfl⟩ := (preflightNodes_loop below).mp nodes
    obtain ⟨below, rfl⟩ := (addBytes_loop below).mp rest
    obtain ⟨below, rfl⟩ := (addBytes_loop below).mp rest'
    exact ⟨⟨count, edges, fields, redaction⟩, bounded, ((addBytes_loop below).mp last).1⟩
  · rintro ⟨⟨count, edges, fields, redaction⟩, bounded, small⟩
    unfold Definition.rough at small
    refine ⟨count, edges, ⟨fields, redaction⟩, _, ⟨by omega, rfl⟩, _,
      (preflightNodes_loop (by omega)).mpr ⟨bounded, by omega, rfl⟩, _,
      (addBytes_loop (by omega)).mpr ⟨by omega, rfl⟩, _,
      (addBytes_loop (by omega)).mpr ⟨by omega, rfl⟩, _,
      (addBytes_loop (by omega)).mpr ⟨by omega, rfl⟩, rfl⟩

/-- What a field takes at least if it is written: its name, the punctuation and its document. -/
def leastSize : FieldDoc → ℕ
  | ⟨_, none⟩ => 0
  | ⟨name, some d⟩ => name.toList.length + 4 + d.size

theorem leastSize_some (name : String) (d : Doc) :
    leastSize ⟨name, some d⟩ = name.toList.length + 4 + d.size := rfl

/-- What the fields of a struct take at least. -/
def leastSizes : List FieldDoc → ℕ
  | [] => 1
  | f :: fs => leastSize f + leastSizes fs

/-- A member takes its name, its document and two marks. -/
theorem le_size_obj (ms : List (JsonString × Doc)) :
    (ms.map fun m => (stringText m.1).length + 2 + m.2.size).sum + 1 ≤ (obj ms : Doc).size := by
  have marks : (ms.map fun m => (stringText m.1).length + 2 + m.2.size).sum =
      (ms.map fun m => (stringText m.1).length + 1 + m.2.size).sum + ms.length := by
    induction ms with
    | nil => rfl
    | cons m ms ih =>
      simp only [map_cons, sum_cons, length_cons, ih]
      omega
  rw [size_obj]
  omega

theorem leastSizes_le (fs : List FieldDoc) : leastSizes fs ≤ (structDoc fs).size := by
  refine Nat.le_trans ?_ (le_size_obj _)
  induction fs with
  | nil => simp [leastSizes]
  | cons f fs ih =>
    unfold fieldMembers at ih ⊢
    obtain ⟨name, _ | d⟩ := f
    · simpa [leastSizes, leastSize] using ih
    · have text := length_le_stringText (name.toList.map JsonChar.lit)
      rw [length_map] at text
      simp only [map_cons, sum_cons, leastSizes, leastSize, map_some, filterMap_cons]
      omega

/-- Parts that are covered one by one are covered together. -/
theorem sum_le_size_arr {α : Type} {amount : α → ℕ} {doc : α → Doc} {xs : List α}
    (each : ∀ x ∈ xs, amount x ≤ (doc x).size + 1) :
    (xs.map amount).sum + 1 ≤ (arr (xs.map doc)).size := by
  have sums := sum_le_sum each
  rw [sum_map_add, map_const', sum_replicate, Nat.nsmul_eq_mul, Nat.mul_one] at sums
  rw [size_arr, map_map, length_map]
  simp only [comp_def]
  omega

theorem sum_le_size_sliceDoc {α : Type} {amount : α → ℕ} {doc : α → Doc} {xs : List α}
    (each : ∀ x ∈ xs, amount x ≤ (doc x).size + 1) :
    (xs.map amount).sum + 1 ≤ (sliceDoc (xs.map doc)).size := by
  cases xs with
  | nil => exact show 1 ≤ (null : Doc).size by decide
  | cons => exact sum_le_size_arr each

theorem le_size_strDoc (s : GoString) : s.len + 2 ≤ (strDoc s).size := len_le_stringText s

theorem le_size_int (n : ℤ) : 1 ≤ (int n : Doc).size := by
  have digits : Nat.toDigits 10 n.natAbs ≠ [] := Nat.toDigits_ne_nil
  have positive := length_pos_iff.mpr digits
  show 1 ≤ (intText n).length
  simp only [intText, length_append, length_map]
  omega

theorem len_le_size (text : GoString) : text.len ≤ (strDoc text).size + 1 := by
  have := le_size_strDoc text
  omega

/-- A list that is left out when it is empty. -/
theorem sum_le_leastSize {α : Type} {amount : α → ℕ} {doc : α → Doc} {xs : List α} (name : String)
    (each : ∀ x ∈ xs, amount x ≤ (doc x).size + 1) :
    (xs.map amount).sum ≤ leastSize (omitWhen xs.isEmpty name (.arr (xs.map doc))) := by
  have all := sum_le_size_arr each
  cases xs with
  | nil => exact Nat.zero_le _
  | cons x xs =>
    show _ ≤ name.toList.length + 4 + _
    omega

/-- A text that is left out when it is empty. -/
theorem le_leastSize_text (name : String) (s : GoString) :
    s.len ≤ leastSize (omitWhen (decide (s = .empty)) name (strDoc s)) := by
  by_cases empty : s = .empty
  · simp [empty, len, GoString.empty]
  · have own := le_size_strDoc s
    simp only [omitWhen, empty, decide_false, false_eq_true, if_false, leastSize]
    omega

theorem ContextView.le_size (view : ContextView) :
    (view.stateFields.map len).sum + (view.layers.map (·.text.len)).sum + 1 ≤ view.doc.size := by
  have fields := sum_le_leastSize "state_fields" fun name (_ : name ∈ view.stateFields) =>
    len_le_size name
  have layers := sum_le_leastSize "layers" fun layer (_ : layer ∈ view.layers) =>
    len_le_size layer.text
  have size : leastSizes _ ≤ view.doc.size := leastSizes_le _
  simp only [leastSizes] at size
  omega

/-- The budgets of known layers, in the order they are written. -/
theorem entries_eq {budgets : Finmap fun _ : LayerKind => ℤ}
    (known : ∀ e ∈ budgets.entries, e.1.known) : budgets.entries =
      ↑(sortedLayers.filterMap fun l => (budgets.lookup l).map (Sigma.mk (β := fun _ => ℤ) l)) := by
  refine (Multiset.Nodup.ext budgets.nodupKeys.nodup ?_).mpr fun e => ?_
  · refine Multiset.coe_nodup.mpr (List.Nodup.filterMap ?_ (by decide : sortedLayers.Nodup))
    intro a b e ha hb
    obtain ⟨v, -, rfl⟩ := map_eq_some_iff.mp ha
    obtain ⟨w, -, eq⟩ := map_eq_some_iff.mp hb
    cases eq
    rfl
  · simp only [Multiset.mem_coe, mem_filterMap, map_eq_some_iff]
    constructor
    · intro mem
      exact ⟨e.1, LayerKind.mem_sortedLayers (known e mem), e.2, Finmap.mem_lookup_iff.mpr mem, rfl⟩
    · rintro ⟨l, -, v, found, rfl⟩
      exact Finmap.mem_lookup_iff.mp found

/-- The budgets of layers, as they are written, nearly cover the rough size of their entries. -/
theorem sum_le_budgets (budgets : LayerKind → Option ℤ) (ls : List LayerKind) :
    ((ls.filterMap fun l => (budgets l).map (Sigma.mk (β := fun _ => ℤ) l)).map
      fun e => e.1.text.len + 24).sum + 1 ≤
      (obj (ls.filterMap fun l => (budgets l).map fun tokens => (l.text.quote,
      (int tokens : Doc)))).size +
        19 * (ls.filterMap fun l => (budgets l).map (Sigma.mk (β := fun _ => ℤ) l)).length := by
  refine Nat.le_trans ?_ (Nat.add_le_add_right (le_size_obj _) _)
  induction ls with
  | nil => simp
  | cons l ls ih =>
    cases own : budgets l with
    | none => simpa [own] using ih
    | some tokens =>
      have text := len_le_stringText l.text
      have number := le_size_int tokens
      simp only [filterMap_cons, own, map_some, map_cons, sum_cons, length_cons] at ih ⊢
      omega

theorem ContextBudget.le_size {budget : ContextBudget}
    (known : ∀ e ∈ budget.layerBudgets.entries, e.1.known)
    (few : budget.layerBudgets.keys.card ≤ maxContextViewLayers) :
    (budget.layerBudgets.entries.map fun e => e.1.text.len + 24).sum ≤ budget.doc.size + 53 := by
  have count : budget.layerBudgets.entries.card ≤ 7 := by
    simpa [Finmap.keys, Multiset.keys, maxContextViewLayers] using few
  have members := sum_le_budgets budget.layerBudgets.lookup sortedLayers
  rw [entries_eq known] at count ⊢
  simp only [Multiset.map_coe, Multiset.sum_coe, Multiset.coe_card] at count ⊢
  have size : leastSizes _ ≤ budget.doc.size := leastSizes_le _
  simp only [leastSizes, leastSize_some, String.reduceToList, length_cons, length_nil] at size
  have total := le_size_int budget.totalTokens
  have reserve := le_size_int budget.outputReserve
  have stable := le_size_int budget.stablePrefixTokens
  omega

/-- The rough size of a node is covered by its encoding. -/
theorem NodeSpec.le_size {n : NodeSpec}
    (known : ∀ e ∈ n.contextBudget.layerBudgets.entries, e.1.known)
    (few : n.contextBudget.layerBudgets.keys.card ≤ maxContextViewLayers)
    (config : n.config ≠ [] → ∃ d, parse n.config = some d ∧ Json.text d = n.config) :
    n.amounts.sum ≤ n.doc.size + 1 := by
  have budget := ContextBudget.le_size known few
  have view := n.contextView.le_size
  have id := le_size_strDoc n.id
  have kind := le_size_strDoc n.kind
  have version := le_size_strDoc n.kindVersion
  have raw : n.config.length ≤ leastSize (omitWhen n.config.isEmpty "config"
      ((parse n.config).getD .null)) := by
    by_cases empty : n.config = []
    · simp [empty]
    · obtain ⟨d, read, text⟩ := config empty
      have size : d.size = n.config.length := by rw [← text]; rfl
      simp only [omitWhen, isEmpty_eq_false_iff.mpr empty, read, getD_some, size, leastSize,
        false_eq_true, if_false]
      omega
  have size : leastSizes _ ≤ n.doc.size := leastSizes_le _
  simp only [leastSizes, leastSize_some, String.reduceToList, length_cons, length_nil] at size
  simp only [NodeSpec.amounts, sum_append, sum_cons, sum_nil]
  omega

theorem EdgeSpec.le_size (e : EdgeSpec) : e.amounts.sum ≤ e.doc.size + 1 := by
  have source := le_size_strDoc e.source
  have target := le_size_strDoc e.target
  have kind := le_size_strDoc e.kind.text
  have predicate := le_leastSize_text "predicate" e.predicate
  have version := le_leastSize_text "predicate_version" e.predicateVersion
  have size : leastSizes _ ≤ e.doc.size := leastSizes_le _
  simp only [leastSizes, leastSize_some, String.reduceToList, length_cons, length_nil] at size
  simp only [EdgeSpec.amounts, sum_cons, sum_nil]
  omega

theorem StateField.le_size (f : StateField) : f.amounts.sum ≤ f.doc.size + 1 := by
  have name := le_size_strDoc f.name
  have type := le_size_strDoc f.type.text
  have size : leastSizes _ ≤ f.doc.size := leastSizes_le _
  simp only [leastSizes, leastSize_some, String.reduceToList, length_cons, length_nil] at size
  simp only [StateField.amounts, sum_cons, sum_nil]
  omega

/-- **The encoding covers the rough size**, with a revision as long as a digest. -/
theorem Definition.rough_le_size {d : Definition} (revision : d.revision.len ≤ 64)
    (nodes : ∀ n ∈ d.nodes, n.amounts.sum ≤ n.doc.size + 1) : d.rough ≤ d.doc.size := by
  have nodeSizes : (d.nodes.map fun n => n.amounts.sum).sum + 1 ≤
      (sliceDoc (d.nodes.map NodeSpec.doc)).size := sum_le_size_sliceDoc nodes
  have edgeSizes : (d.edges.map fun e => e.amounts.sum).sum + 1 ≤
      (sliceDoc (d.edges.map EdgeSpec.doc)).size := sum_le_size_sliceDoc fun e _ => e.le_size
  have fieldSizes : (d.state.fields.map fun f => f.amounts.sum).sum + 1 ≤
      (sliceDoc (d.state.fields.map StateField.doc)).size :=
      sum_le_size_sliceDoc fun f _ => f.le_size
  have names := sum_le_leastSize "state_fields" fun name (_ : name ∈ d.redaction) =>
    len_le_size name
  have id := le_size_strDoc d.id
  have version := le_size_strDoc d.version
  have entry := le_size_strDoc d.entryNode
  have reducer := le_size_strDoc d.state.reducer
  have reducerVersion := le_size_strDoc d.state.reducerVersion
  have state := leastSizes_le [⟨"reducer", some (strDoc d.state.reducer)⟩,
    ⟨"reducer_version", some (strDoc d.state.reducerVersion)⟩,
    ⟨"fields", some (sliceDoc (d.state.fields.map StateField.doc))⟩]
  have redaction := leastSizes_le [omitWhen d.redaction.isEmpty "state_fields"
    (.arr (d.redaction.map strDoc))]
  have size : leastSizes _ ≤ d.doc.size := leastSizes_le _
  simp only [leastSizes, leastSize_some, String.reduceToList, length_cons, length_nil]
    at state redaction size
  simp only [Definition.rough, sum_cons, sum_nil, List.flatMap, sum_flatten, map_map, comp_def]
  omega

/-! ## Freezing -/

section

variable {digest : Digest} {reg : Registries} {d d' : Definition} {f f' : ValidatedDefinition}

theorem freeze_eq_ok : freeze digest d = .ok f ↔ d.doc.size ≤ maxDefinitionBytes ∧
    (d.revision = .empty ∨ d.revision = digest.sum (textString (Json.text d.doc))) ∧
    f = ⟨{ d with revision := digest.sum (textString (Json.text d.doc)) },
      digest.sum (textString (Json.text d.doc))⟩ := by
  simp only [freeze, definitionRevision, bind_eq_ok, mapError_eq_ok, require_eq_ok, pure_eq_ok,
    exists_const]
  constructor
  · rintro ⟨_, ⟨small, rfl⟩, supplied, rfl⟩
    exact ⟨small, supplied, rfl⟩
  · rintro ⟨small, supplied, rfl⟩
    exact ⟨_, ⟨small, rfl⟩, supplied, rfl⟩

theorem validatedDefinition_eq_ok : validatedDefinition digest reg d = .ok f ↔
    preflightDefinition d = .ok () ∧ Valid reg d ∧
    freeze digest (canonicalizeDefinition d) = .ok f := by
  simp only [validatedDefinition, mapError_eq_ok, bind_eq_ok, Unique.exists_iff,
    PUnit.default_eq_unit, validateDefinition_eq_ok]

/-- The texts of two configs say the same: both are absent, or they are read to one value. -/
def SameJSON (raw raw' : RawJSON) : Prop :=
  raw = raw' ∨ ∃ d d', parse raw = some d ∧ parse raw' = some d' ∧ decodeAny d = decodeAny d'

theorem canonicalConfig_eq {raw raw' : RawJSON} (h : ValidConfig raw) (h' : ValidConfig raw')
    (same : SameJSON raw raw') : canonicalConfig raw = canonicalConfig raw' := by
  rcases same with rfl | ⟨d, d', read, read', eq⟩
  · rfl
  · have text : ∀ {raw d}, ValidConfig raw → parse raw = some d →
        canonicalConfig raw = Json.text (Json.canonical d) := by
      intro raw d h read
      rcases canonicalConfig_cases h with ⟨rfl, -⟩ | ⟨-, ok⟩
      · cases read
      · obtain ⟨-, d', read', eq⟩ := canonicalJSON_eq_ok.mp ok
        rw [eq, some.inj (read.symm.trans read')]
    rw [text h read, text h' read', Json.canonical, eq, ← Json.canonical]

/-- Two nodes that differ in the order of their context views and in the texts of their
configs, so far as `same` allows it. -/
structure NodeSpec.Rearranged (same : RawJSON → RawJSON → Prop) (n n' : NodeSpec) : Prop where
  stateFields : n.contextView.stateFields.Perm n'.contextView.stateFields
  layers : n.contextView.layers.Perm n'.contextView.layers
  config : same n.config n'.config
  rest : n' = { n with contextView := n'.contextView, config := n'.config }

/-- Two definitions that differ in the order of their parts and, so far as `same` allows it, in
the texts of their configs. -/
structure Rearranged (same : RawJSON → RawJSON → Prop) (d d' : Definition) : Prop where
  nodes : ∃ middle, List.Forall₂ (NodeSpec.Rearranged same) d.nodes middle ∧ middle.Perm d'.nodes
  edges : d.edges.Perm d'.edges
  fields : d.state.fields.Perm d'.state.fields
  redaction : d.redaction.Perm d'.redaction
  rest : d' = { d with
    nodes := d'.nodes
    edges := d'.edges
    state := { d.state with fields := d'.state.fields }
    redaction := d'.redaction }

variable {same : RawJSON → RawJSON → Prop} {n n' : NodeSpec}

theorem NodeSpec.Rearranged.alike (h : n.Rearranged same n') : n.Alike n' := by
  have rest := h.rest
  obtain ⟨id, kind, version, config, view, budget, retry, timeout, terminal, sandbox, policy⟩ := n'
  cases rest
  exact ⟨rfl, rfl, rfl, h.stateFields, h.layers, rfl, rfl, rfl, rfl, rfl, rfl⟩

theorem Rearranged.alike (h : Rearranged same d d') :
    Alike d d' := by
  obtain ⟨middle, each, perm⟩ := h.nodes
  have rest := h.rest
  obtain ⟨id, version, revision, entryNode, nodes, edges, ⟨reducer, reducerVersion, fields⟩, limits,
    redaction⟩ := d'
  cases rest
  exact ⟨rfl, rfl, rfl, ⟨middle, each.imp fun _ _ => NodeSpec.Rearranged.alike, perm⟩,
    h.edges, rfl, rfl,
    h.fields, rfl, h.redaction⟩

theorem Rearranged.revision_eq (h : Rearranged same d d') :
    d'.revision = d.revision := by
  rw [h.rest]

/-- Definitions of one arrangement have one canonical form if their configs have. -/
theorem Rearranged.canonicalize_eq (h : Rearranged same d d') (valid : Valid reg d)
    (configs : ∀ n ∈ d.nodes, ∀ n' ∈ d'.nodes, same n.config n'.config →
      canonicalConfig n.config = canonicalConfig n'.config) :
    canonicalizeDefinition d = canonicalizeDefinition d' := by
  obtain ⟨middle, each, perm⟩ := h.nodes
  have nodes : List.Forall₂ (fun n n' => n.Alike n' ∧
      canonicalConfig n.config = canonicalConfig n'.config) d.nodes middle := by
    refine forall₂_iff_zip.mpr ⟨each.length_eq, fun mem => ?_⟩
    have related := forall₂_zip each mem
    have members := of_mem_zip mem
    exact ⟨related.alike, configs _ members.1 _ (perm.mem_iff.mp members.2) related.config⟩
  rw [AutoAgent.Graph.canonicalize_eq valid h.alike ⟨middle, nodes, perm⟩]
  show _ = { canonicalizeDefinition d' with revision := d'.revision }
  rw [h.revision_eq]

theorem NodeSpec.Rearranged.amounts_eq (h : n.Rearranged Eq n') :
    n'.amounts.sum = n.amounts.sum ∧ (n.Bounded → n'.Bounded) := by
  have names := (h.stateFields.map len).sum_eq
  have layers := (h.layers.map fun l => l.text.len).sum_eq
  have counts := h.stateFields.length_eq
  have counts' := h.layers.length_eq
  have alike := h.alike
  simp only [NodeSpec.amounts, NodeSpec.Bounded, ← alike.id, ← alike.kind, ← alike.kindVersion,
    ← h.config, ← alike.budget, sum_append, ← names, ← layers, ← counts, ← counts']
  exact ⟨trivial, fun bounded => bounded⟩

theorem Rearranged.preflight (h : Rearranged Eq d d') (ok : preflightDefinition d = .ok ()) :
    preflightDefinition d' = .ok () := by
  obtain ⟨⟨count, edges, fields, redaction⟩, bounded, small⟩ := preflightDefinition_eq_ok.mp ok
  obtain ⟨middle, each, perm⟩ := h.nodes
  have amounts : (middle.map fun n => n.amounts.sum) = d.nodes.map fun n => n.amounts.sum := by
    clear perm
    generalize d.nodes = nodes at each
    induction each with
    | nil => rfl
    | cons related _ ih => rw [map_cons, map_cons, related.amounts_eq.1, ih]
  have nodes : (d'.nodes.map fun n => n.amounts.sum).sum =
      (d.nodes.map fun n => n.amounts.sum).sum :=
    (perm.map _).sum_eq.symm.trans (congrArg List.sum amounts)
  have length : d'.nodes.length = d.nodes.length := perm.length_eq.symm.trans each.length_eq.symm
  have alike := h.alike
  refine preflightDefinition_eq_ok.mpr ⟨⟨length ▸ count, h.edges.length_eq ▸ edges,
    h.fields.length_eq ▸ fields, h.redaction.length_eq ▸ redaction⟩, fun n' mem => ?_, ?_⟩
  · obtain ⟨i, at', rfl⟩ := mem_iff_getElem.mp (perm.mem_iff.mpr mem)
    have related := each.get (i := i) (each.length_eq ▸ at') at'
    exact related.amounts_eq.2 (bounded _ (getElem_mem _))
  · unfold Definition.rough at small ⊢
    rwa [nodes, ← (h.edges.flatMap_right _).sum_eq, ← (h.fields.flatMap_right _).sum_eq,
      ← (h.redaction.map _).sum_eq, ← alike.id, ← alike.version, h.revision_eq, ← alike.entryNode,
      ← alike.reducer, ← alike.reducerVersion]

/-- A canonical node of a valid definition keeps the rough size below the written one. -/
theorem NodeSpec.canonical_le_size {fields : List StateField} {n : NodeSpec}
    (valid : validateNode reg fields n = .ok ()) :
    n.canonical.amounts.sum ≤ n.canonical.doc.size + 1 := by
  obtain ⟨-, config, context, -⟩ := validateNode_eq_ok.mp valid
  simp only [validateContext, validateContextBudget, bind_eq_ok, mapError_eq_ok, require_eq_ok,
    Unique.exists_iff, PUnit.default_eq_unit] at context
  obtain ⟨-, ⟨-, -, -, -, few, known, -⟩, -⟩ := context
  refine NodeSpec.le_size known few fun some => ?_
  rcases canonicalConfig_cases config with ⟨-, empty⟩ | ⟨-, ok⟩
  · exact absurd empty some
  · obtain ⟨-, d, read, eq⟩ := canonicalJSON_eq_ok.mp ok
    refine ⟨Json.canonical d, ?_, eq.symm⟩
    show parse (canonicalConfig n.config) = _
    rw [eq, parse_canonical read]

theorem mem_nodes_canonicalize {n' : NodeSpec} :
    n' ∈ (canonicalizeDefinition d).nodes ↔ ∃ n ∈ d.nodes, n.canonical = n' :=
  (sortBy_perm _ _).mem_iff.trans mem_map

/-- A frozen definition that is accepted again holds no config beyond the bound. -/
theorem length_le_of_frozen (h : validatedDefinition digest reg d = .ok f)
    (again : validatedDefinition digest reg f.definition = .ok f') :
    ∀ n ∈ d.nodes, (canonicalConfig n.config).length ≤ maxNodeConfigBytes := by
  obtain ⟨-, -, rfl⟩ := freeze_eq_ok.mp (validatedDefinition_eq_ok.mp h).2.2
  intro n mem
  have node := (validatedDefinition_eq_ok.mp again).2.1.nodes _
    (mem_nodes_canonicalize.mpr ⟨n, mem, rfl⟩)
  exact (validateNode_eq_ok.mp node).2.1.1

/-- What is frozen is accepted again, and frozen to itself, where no config outgrows its bound. -/
theorem validatedDefinition_frozen_iff (h : validatedDefinition digest reg d = .ok f) :
    validatedDefinition digest reg f.definition = .ok f ↔
      ∀ n ∈ d.nodes, (canonicalConfig n.config).length ≤ maxNodeConfigBytes := by
  refine ⟨length_le_of_frozen h, fun short => ?_⟩
  obtain ⟨preflight, valid, frozen⟩ := validatedDefinition_eq_ok.mp h
  obtain ⟨small, -, rfl⟩ := freeze_eq_ok.mp frozen
  generalize name : digest.sum (textString (Json.text (canonicalizeDefinition d).doc)) =
    revision at *
  have hex : isDigest revision := name ▸ digest.hex _
  have alike : Alike d { canonicalizeDefinition d with revision } :=
    { alike_canonicalize d with }
  have configs : ∀ n ∈ d.nodes, ValidConfig n.config := fun n mem =>
    (validateNode_eq_ok.mp (valid.nodes n mem)).2.1
  have valid' : Valid reg { canonicalizeDefinition d with revision } := by
    refine alike.valid valid (.inr hex) fun n' mem => ?_
    obtain ⟨n, there, rfl⟩ := mem_nodes_canonicalize.mp mem
    exact (validConfig_canonicalConfig (configs n there)).mpr (short n there)
  have fixed : canonicalizeDefinition { canonicalizeDefinition d with revision } =
      { canonicalizeDefinition d with revision } := by
    have nodes : List.Forall₂ (fun n n' => n.Alike n' ∧
        canonicalConfig n.config = canonicalConfig n'.config) d.nodes
        (d.nodes.map NodeSpec.canonical) := by
      rw [forall₂_map_right_iff]
      exact forall₂_same.mpr fun n mem =>
        ⟨n.alike_canonical, (canonicalConfig_canonicalConfig (configs n mem)).symm⟩
    have eq := canonicalize_eq valid alike ⟨_, nodes, (sortBy_perm _ _).symm⟩
    exact (congrArg (fun c : Definition => { c with revision }) eq).symm
  refine validatedDefinition_eq_ok.mpr ⟨?_, valid', ?_⟩
  · obtain ⟨⟨count, edges, fields, redaction⟩, bounded, -⟩ := preflightDefinition_eq_ok.mp preflight
    refine preflightDefinition_eq_ok.mpr ⟨⟨?_, alike.edges.length_eq ▸ edges,
      alike.fields.length_eq ▸ fields, alike.redaction.length_eq ▸ redaction⟩, fun n' mem => ?_, ?_⟩
    · exact valid'.count
    · obtain ⟨n, there, rfl⟩ := mem_nodes_canonicalize.mp mem
      obtain ⟨-, ⟨names, layers⟩, budgets⟩ := bounded n there
      exact ⟨short n there, ⟨n.alike_canonical.stateFields.length_eq ▸ names,
        n.alike_canonical.layers.length_eq ▸ layers⟩, budgets⟩
    · refine Nat.le_trans (Definition.rough_le_size ?_ fun n' mem => ?_) small
      · exact Nat.le_of_eq (of_decide_eq_true hex).1
      · obtain ⟨n, there, rfl⟩ := mem_nodes_canonicalize.mp mem
        exact NodeSpec.canonical_le_size (valid.nodes n there)
  · rw [fixed]
    exact freeze_eq_ok.mpr ⟨small, .inr name.symm, by rw [← name]; rfl⟩

/-- **Freezing a definition.**  An accepted definition is frozen to the same value, under the
same revision, in whatever order its nodes, edges, state fields, layers and redactions stand,
and so is every accepted definition that differs from it in the formatting of its configs too.
The frozen definition is accepted again, and frozen to itself, exactly when the canonical form
of every config keeps the bound on configs. -/
theorem validatedDefinition_canonical (h : validatedDefinition digest reg d = .ok f) :
    (∀ d', Rearranged Eq d d' → validatedDefinition digest reg d' = .ok f) ∧
      (∀ d' f', Rearranged SameJSON d d' → validatedDefinition digest reg d' = .ok f' → f' = f) ∧
      (validatedDefinition digest reg f.definition = .ok f ↔
        ∀ n ∈ d.nodes, (canonicalConfig n.config).length ≤ maxNodeConfigBytes) := by
  obtain ⟨preflight, valid, frozen⟩ := validatedDefinition_eq_ok.mp h
  refine ⟨fun d' same => ?_, fun d' f' same ok => ?_, validatedDefinition_frozen_iff h⟩
  · have eq := same.canonicalize_eq valid fun n _ n' _ eq => by rw [eq]
    refine validatedDefinition_eq_ok.mpr ⟨same.preflight preflight, ?_, eq ▸ frozen⟩
    refine same.alike.valid valid (same.revision_eq ▸ valid.revision) fun n' mem => ?_
    obtain ⟨middle, each, perm⟩ := same.nodes
    obtain ⟨i, at', rfl⟩ := mem_iff_getElem.mp (perm.mem_iff.mpr mem)
    have related := each.get (i := i) (each.length_eq ▸ at') at'
    exact related.config ▸ (validateNode_eq_ok.mp (valid.nodes _ (getElem_mem _))).2.1
  · obtain ⟨-, valid', frozen'⟩ := validatedDefinition_eq_ok.mp ok
    have eq := same.canonicalize_eq valid fun n mem n' mem' => canonicalConfig_eq
      (validateNode_eq_ok.mp (valid.nodes n mem)).2.1
      (validateNode_eq_ok.mp (valid'.nodes n' mem')).2.1
    rw [← eq, frozen] at frozen'
    exact (Except.ok.inj frozen').symm

end

/-- Registries that know the kind and the reducer of the graphs below. -/
def oneRegistries : Registries where
  nodeKinds _ := some (go "1")
  reducers _ := some (go "1")
  predicates _ := none

/-- A graph of two nodes, an edge, a state field and a config. -/
def twoNodes : Definition :=
  { oneNode with
    revision := .empty
    entryNode := go "m"
    nodes := [lastNode, { lastNode with
      id := go "m"
      terminal := false
      config := "\x7b\"b\": 1, \"a\": 2\x7d".toList.map (·.toNat.toUInt8) }]
    edges := [⟨go "m", go "n", .default, .empty, .empty⟩]
    state := { oneNode.state with fields := [⟨go "x", .string, false, false, 10⟩] } }

/-- It is frozen in either order of its nodes to one definition, which is frozen to itself. -/
theorem validatedDefinition_canonical_twoNodes : ∃ f,
    validatedDefinition zeroDigest oneRegistries twoNodes = .ok f ∧
      validatedDefinition zeroDigest oneRegistries
        { twoNodes with nodes := twoNodes.nodes.reverse } = .ok f ∧
      validatedDefinition zeroDigest oneRegistries f.definition = .ok f := by
  obtain ⟨f, ok⟩ := exists_of_isOk (x := validatedDefinition zeroDigest oneRegistries twoNodes)
    (by decide +kernel)
  obtain ⟨orders, -, again⟩ := validatedDefinition_canonical ok
  have nodes : List.Forall₂ (NodeSpec.Rearranged Eq) twoNodes.nodes twoNodes.nodes :=
    forall₂_same.mpr fun _ _ => ⟨.refl _, .refl _, rfl, rfl⟩
  exact ⟨f, ok, orders _ ⟨⟨_, nodes, (reverse_perm _).symm⟩, .refl _, .refl _, .refl _, rfl⟩,
    again.mpr (by decide +kernel)⟩

/-! ## A config that outgrows its bound -/

/-- A graph of one node with a config. -/
def oneConfig (config : RawJSON) : Definition :=
  { oneNode with revision := .empty, nodes := [{ lastNode with config }] }

/-- The frozen graph without a config. -/
def oneFrozen : ValidatedDefinition :=
  ⟨{ oneConfig [] with revision := zeroDigest.sum .empty }, zeroDigest.sum .empty⟩

theorem validatedDefinition_oneConfig :
    validatedDefinition zeroDigest oneRegistries (oneConfig []) = .ok oneFrozen := by
  decide +kernel

theorem parse_angles (n : ℕ) : parse (angles n) = some (brackets n) := by
  rw [parse, value_angles]
  rfl

theorem canonicalJSON_angles (n : ℕ) : canonicalJSON (angles n) = .ok (Json.text (brackets n)) :=
  canonicalJSON_eq_ok.mpr ⟨⟨cons_ne_nil _ _, validUTF8_angles n⟩, brackets n, parse_angles n,
    by rw [canonical_brackets]⟩

theorem canonicalConfig_angles (n : ℕ) : canonicalConfig (angles n) = Json.text (brackets n) := by
  have some : angles n ≠ [] := cons_ne_nil _ _
  rw [canonicalConfig, if_neg some, canonicalJSON_angles]
  rfl

theorem size_oneConfig {c : RawJSON} (nonempty : c.isEmpty = false) : (oneConfig c).doc.size =
    (oneConfig []).doc.size + ((parse c).getD .null).size + 10 := by
  have name : (stringText ("config".toList.map JsonChar.lit)).length = 8 := by decide
  have node : (NodeSpec.doc { lastNode with config := c }).size =
      (NodeSpec.doc { lastNode with config := [] }).size + ((parse c).getD .null).size + 10 := by
    simp only [NodeSpec.doc, structDoc, fieldMembers, omitWhen, size_obj, nonempty,
      isEmpty_nil, filterMap_cons, map_some, Option.map_none, map_cons,
      sum_cons, length_cons, if_true, false_eq_true, if_false, name]
    omega
  -- only the document of the node differs
  obtain ⟨pre, post, doc, base⟩ : ∃ pre post, (oneConfig c).doc = structDoc (pre ++
        ⟨"nodes", some (.arr [NodeSpec.doc { lastNode with config := c }])⟩ :: post) ∧
      (oneConfig []).doc = structDoc (pre ++
        ⟨"nodes", some (.arr [NodeSpec.doc { lastNode with config := [] }])⟩ :: post) :=
    ⟨[_, _, _], [_, _, _, _], rfl, rfl⟩
  simp only [doc, base, structDoc, fieldMembers, size_obj, size_arr, filterMap_append,
    filterMap_cons, map_some, map_append, map_cons, sum_append,
    sum_cons, length_append, length_cons, node]
  omega

theorem canonicalize_oneConfig (c : RawJSON) :
    canonicalizeDefinition (oneConfig c) = oneConfig (canonicalConfig c) := rfl

theorem size_canonical_angles (n : ℕ) :
    (canonicalizeDefinition (oneConfig (angles n))).doc.size ≤ (oneConfig []).doc.size +
      (6 * n + 12) := by
  have read : parse (canonicalConfig (angles n)) = some (brackets n) := by
    rw [canonicalConfig_angles, ← canonical_brackets, parse_canonical (parse_angles n)]
  have nonempty : (canonicalConfig (angles n)).isEmpty = false := by
    rw [canonicalConfig_angles]
    rfl
  have size := size_oneConfig nonempty
  have string : (brackets n).size = 6 * n + 2 := length_brackets n
  rw [read, getD_some, string] at size
  rw [canonicalize_oneConfig]
  omega

theorem alike_oneConfig (c : RawJSON) : Alike (oneConfig []) (oneConfig c) := by
  refine ⟨rfl, rfl, rfl, ⟨(oneConfig c).nodes, .cons ?_ .nil, .refl _⟩, .refl _, rfl, rfl, .refl _,
    rfl, .refl _⟩
  exact ⟨rfl, rfl, rfl, .refl _, .refl _, rfl, rfl, rfl, rfl, rfl, rfl⟩

theorem rough_oneConfig (c : RawJSON) : (oneConfig c).rough = (oneConfig []).rough + c.length := by
  simp only [Definition.rough, oneConfig, map_cons, map_nil, sum_cons, sum_nil,
    NodeSpec.amounts, sum_append, length_nil]
  omega

/-- **A definition that is frozen but refused the next time.**  The encoder writes every angle
bracket as six characters, so that the canonical config is longer than a config may be. -/
theorem exists_frozen_refused : ∃ f,
    validatedDefinition zeroDigest oneRegistries (oneConfig (angles 3000)) = .ok f ∧
      ∃ e, validatedDefinition zeroDigest oneRegistries f.definition = .error e := by
  obtain ⟨preflight, base, -⟩ := validatedDefinition_eq_ok.mp validatedDefinition_oneConfig
  have length : (angles 3000).length = 3002 := length_angles 3000
  have config : ValidConfig (angles 3000) :=
    ⟨by rw [length]; decide, fun _ => ⟨_, canonicalJSON_angles 3000⟩⟩
  have valid : Valid oneRegistries (oneConfig (angles 3000)) := by
    refine (alike_oneConfig _).valid base (.inl rfl) fun n mem => ?_
    cases mem_singleton.mp mem
    exact config
  have accepted : preflightDefinition (oneConfig (angles 3000)) = .ok () := by
    obtain ⟨counts, bounded, -⟩ := preflightDefinition_eq_ok.mp preflight
    have rough : (oneConfig []).rough ≤ 1000 := by decide +kernel
    refine preflightDefinition_eq_ok.mpr ⟨counts, fun n mem => ?_, ?_⟩
    · cases mem_singleton.mp mem
      exact ⟨config.1, (bounded _ (mem_singleton_self _)).2⟩
    · rw [rough_oneConfig, length]
      exact Nat.le_trans (Nat.add_le_add_right rough _) (by decide)
  have small : (canonicalizeDefinition (oneConfig (angles 3000))).doc.size ≤
    maxDefinitionBytes := by
    have base : (oneConfig []).doc.size ≤ 1000 := by decide +kernel
    refine (size_canonical_angles 3000).trans ?_
    exact (Nat.add_le_add_right base _).trans (by decide)
  obtain ⟨f, frozen⟩ : ∃ f,
      validatedDefinition zeroDigest oneRegistries (oneConfig (angles 3000)) = .ok f :=
    ⟨_, validatedDefinition_eq_ok.mpr ⟨accepted, valid, freeze_eq_ok.mpr ⟨small, .inl rfl, rfl⟩⟩⟩
  refine ⟨f, frozen, ?_⟩
  cases again : validatedDefinition zeroDigest oneRegistries f.definition with
  | error e => exact ⟨e, rfl⟩
  | ok f' =>
    have short := length_le_of_frozen frozen again { lastNode with config := angles 3000 }
      (mem_singleton_self _)
    rw [canonicalConfig_angles, length_brackets] at short
    exact absurd short (by decide)

end AutoAgent.Graph
