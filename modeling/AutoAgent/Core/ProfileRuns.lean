import AutoAgent.Core.Profile

/-!
# Runs of the profile registry

Mounts, unmounts and replacements in any order.  A run keeps the unmount functions
that were returned and not yet called.

**The invariant.**  `ProfileRun.Sound` ties the two views of the registry together:
a slice is the part of the flat list with its key.  Taking out the layer with a
number, or exchanging it in place, commutes with taking that part, because all
layers with the number have one key.
-/

namespace AutoAgent

open List ScopePath ProfileRegistry.State
open Stored (eq_of_order_eq without without_eq_filter)
open ProfileRegistry (findMatch findFlat parentOf budget resolveLocked)

/-! ## Keys -/

theorem nul_notMem_string (p : ScopePath) : GoRune.rune '\x00' ∉ p.string.runes := by
  have all : ∀ refs : List ScopeRef, (∀ ref ∈ refs, ref.acceptable) →
      GoRune.rune '\x00' ∉ joined refs := by
    intro refs
    induction refs with
    | nil => simp [joined]
    | cons ref refs ih =>
      intro ok
      have own := notMem_segmentText (ok ref (mem_cons_self ..))
        (by simp : '\x00' ∈ ['/', '\x00'])
      have rest := ih fun r mem => ok r (mem_cons_of_mem _ mem)
      cases refs with
      | nil => exact own
      | cons next refs => simp [joined, own, rest]
  exact all p.segments fun ref => acceptable_of_mem p.accepted

/-- The key determines the scope and the profile. -/
theorem profileLayerKey_injective {p q : ScopePath} {a b : GoString}
    (h : profileLayerKey p a = profileLayerKey q b) : p = q ∧ a = b := by
  obtain ⟨scope, id⟩ := append_delimiter_inj (nul_notMem_string p) (nul_notMem_string q)
    (congrArg GoString.runes h)
  refine ⟨string_injective ?_, ?_⟩
  · show (⟨p.string.runes⟩ : GoString) = ⟨q.string.runes⟩
    rw [scope]
  · show (⟨a.runes⟩ : GoString) = ⟨b.runes⟩
    rw [id]

namespace ProfileRegistry

variable {r r' : ProfileRegistry} {layer : AgentProfileLayer}

/-- A mount succeeds on the layer and the room of the registry alone. -/
theorem mount_eq_ok : r.mount layer = .ok r' ↔
    (validateProfileLayer layer = .ok () ∧ (r.flat.length : ℤ) < registryCap r.maxBindings) ∧
    r' = { r with
      layers := r.layers.put layer.key (r.layers.at_ layer.key ++ [⟨layer, r.next + 1⟩])
      flat := r.flat ++ [⟨layer, r.next + 1⟩]
      next := r.next + 1 } := by
  simp only [mount, bind_eq_ok, pure_eq_ok, require_eq_ok, exists_const]
  constructor
  · rintro ⟨_, valid, room, rfl⟩
    exact ⟨⟨valid, room⟩, rfl⟩
  · rintro ⟨⟨valid, room⟩, rfl⟩
    exact ⟨_, valid, room, rfl⟩

end ProfileRegistry

/-! ## Runs -/

/-- The calls on a registry; an unmount function is named by what it remembers. -/
inductive ProfileCall where
  | mount (layer : AgentProfileLayer)
  | unmount (key : GoString) (order : ℕ)
  | replace (now : Timestamp) (old next : AgentProfileLayer)

/-- A registry with the unmount functions that were not yet called. -/
structure ProfileRun extends registry : ProfileRegistry where
  closures : List (GoString × ℕ)

namespace ProfileRun

/-- One call.  A call that fails and an unmount function that has acted change
nothing. -/
def call (s : ProfileRun) : ProfileCall → ProfileRun
  | .mount layer =>
    match s.mount layer with
    | .ok r => ⟨r, s.closures ++ [(layer.key, r.next)]⟩
    | .error _ => s
  | .unmount key order =>
    if (key, order) ∈ s.closures then
      ⟨s.unmount key order, s.closures.erase (key, order)⟩
    else s
  | .replace now old next =>
    match s.replaceExact now old next with
    | .ok r => { s with registry := r }
    | .error _ => s

/-- The registry after a sequence of calls. -/
def run (maxBindings : ℤ) (calls : List ProfileCall) : ProfileRun :=
  calls.foldl call ⟨.new maxBindings, []⟩

/-- The part of the flat list with a key. -/
def part (flat : List (Stored AgentProfileLayer)) (key : GoString) :
    List (Stored AgentProfileLayer) := flat.filter fun s => s.value.key = key

/-- The two views agree, numbers are unique and the open unmount functions are those
of the layers present. -/
structure Sound (s : ProfileRun) : Prop where
  index : ∀ key, s.layers.at_ key = part s.flat key
  sorted : Stored.Sorted s.flat
  numbered : ∀ e ∈ s.flat, e.order ≤ s.next
  rooted : ∀ e ∈ s.flat, e.value.scope.depth ≠ 0
  closures : s.closures = s.flat.map fun e => (e.value.key, e.order)

variable {s : ProfileRun} {r : ProfileRegistry} {layer old next : AgentProfileLayer}
  {now : Timestamp}

theorem depth_of_validate {u : Unit} (h : validateProfileLayer layer = .ok u) :
    layer.scope.depth ≠ 0 := by
  simp only [validateProfileLayer, bind_eq_ok, require_eq_ok] at h
  obtain ⟨_, nonempty, _⟩ := h
  simpa using nonempty

theorem Sound.mount (h : s.Sound) (ok : s.mount layer = .ok r) :
    Sound ⟨r, s.closures ++ [(layer.key, r.next)]⟩ := by
  obtain ⟨⟨valid, -⟩, rfl⟩ := ProfileRegistry.mount_eq_ok.mp ok
  have fresh : ∀ e ∈ s.flat, e.order < s.next + 1 := fun e mem =>
    Nat.lt_succ_of_le (h.numbered e mem)
  refine ⟨fun key => ?_, Stored.sorted_append h.sorted fresh, fun e mem => ?_, fun e mem => ?_,
    by simp [h.closures]⟩
  · rw [Shelves.at_put, part, filter_append]
    split
    · next same => simp [h.index, part, same]
    · next other => simp [h.index, part, Ne.symm other]
  · rcases mem_append.mp mem with old | new
    · exact Nat.le_of_lt (fresh e old)
    · obtain rfl := mem_singleton.mp new
      exact Nat.le_refl _
  · rcases mem_append.mp mem with old | new
    · exact h.rooted e old
    · exact (mem_singleton.mp new) ▸ depth_of_validate valid

variable {key : GoString} {order : ℕ}

/-- An open unmount function belongs to the one layer with its number. -/
theorem Sound.opened (h : s.Sound) (open_ : (key, order) ∈ s.closures) :
    ∃ e ∈ s.flat, e.order = order ∧ e.value.key = key ∧
      ∀ e' ∈ s.flat, e'.order = order → e' = e := by
  rw [h.closures, mem_map] at open_
  obtain ⟨e, mem, eq⟩ := open_
  obtain ⟨rfl, rfl⟩ := Prod.mk.inj eq
  exact ⟨e, mem, rfl, rfl, fun e' mem' same => eq_of_order_eq h.sorted mem' mem same⟩

/-- An unmount function that acts keeps the invariant. -/
theorem Sound.unmount (h : s.Sound) (open_ : (key, order) ∈ s.closures) :
    Sound ⟨s.unmount key order, s.closures.erase (key, order)⟩ := by
  obtain ⟨e, mem, rfl, rfl, only⟩ := h.opened open_
  have still : ∀ {e'}, e' ∈ without e.order s.flat → e' ∈ s.flat :=
    Stored.mem_of_mem_without
  refine ⟨fun k => ?_, Stored.sorted_without _ h.sorted, fun e' mem => h.numbered e' (still mem),
    fun e' mem => h.rooted e' (still mem), ?_⟩
  · show (s.layers.put e.value.key (without e.order
      (s.layers.at_ e.value.key))).at_ k = part (without e.order s.flat) k
    have sorted : Stored.Sorted (part s.flat e.value.key) :=
      h.sorted.sublist (filter_sublist ..)
    rw [Shelves.at_put, h.index, h.index, without_eq_filter sorted,
      without_eq_filter h.sorted, part, part, part, filter_filter, filter_filter]
    split
    · next same =>
        subst same
        exact filter_congr fun _ _ => Bool.and_comm ..
    · next other =>
        refine filter_congr fun e' mem' => ?_
        by_cases same : e'.order = e.order
        · simp [only e' mem' same, Ne.symm other]
        · simp [same]
  · -- the function has the number of its layer alone
    have distinct : s.closures.Nodup := by
      rw [h.closures]
      refine pairwise_map.mpr (h.sorted.imp fun lt same => ?_)
      exact Nat.ne_of_lt lt (Prod.mk.inj same).2
    show s.closures.erase _ = (without e.order s.flat).map _
    rw [distinct.erase_eq_filter, h.closures, filter_map, without_eq_filter h.sorted]
    congr 1
    refine filter_congr fun e' mem' => ?_
    by_cases same : e'.order = e.order
    · simp [only e' mem' same]
    · exact (bne_iff_ne.mpr fun eq => same (Prod.mk.inj eq).2).trans (bne_iff_ne.mpr same).symm

/-! ## Replacement -/

theorem mem_zipIdx_of_filter {α : Type} {l : List α} {q : α × ℕ → Bool} {a : α} {i : ℕ}
    (h : l.zipIdx.filter q = [(a, i)]) : l[i]? = some a ∧ q (a, i) = true := by
  have mem : (a, i) ∈ l.zipIdx.filter q := h ▸ mem_singleton.mpr rfl
  obtain ⟨among, holds⟩ := mem_filter.mp mem
  exact ⟨mem_zipIdx_iff_getElem?.mp among, holds⟩

theorem findMatch_eq_ok {slice : List (Stored AgentProfileLayer)} {i order : ℕ}
    (h : findMatch slice old = .ok (i, order)) : slice[i]? = some ⟨old, order⟩ := by
  unfold findMatch at h
  split at h
  · cases h
  · next e i' only =>
      cases h
      obtain ⟨found, same⟩ := mem_zipIdx_of_filter only
      rw [found]
      obtain ⟨value, n⟩ := e
      simpa using same
  · cases h

theorem findFlat_eq_ok {flat : List (Stored AgentProfileLayer)} {order j : ℕ}
    (h : findFlat flat order old = .ok j) : flat[j]? = some ⟨old, order⟩ := by
  unfold findFlat at h
  split at h
  · next e j' only =>
      split at h
      · next same =>
          cases h
          obtain ⟨found, number⟩ := mem_zipIdx_of_filter only
          rw [found]
          obtain ⟨value, n⟩ := e
          simp only at same number
          rw [same, beq_iff_eq.mp number]
      · cases h
  · cases h

/-- What a successful replacement does: the one layer equal to `old` is exchanged
under its number in both views. -/
structure Replaced (s : ProfileRun) (old next : AgentProfileLayer) (r : ProfileRegistry)
    (order : ℕ) : Prop where
  found : (⟨old, order⟩ : Stored AgentProfileLayer) ∈ s.flat
  flat : r.flat = s.flat.map (Stored.swap order next)
  layers : ∀ key, r.layers.at_ key = (s.layers.at_ key).map (Stored.swap order next)
  next_ : r.next = s.next
  sameKey : next.key = old.key
  rooted : next.scope.depth ≠ 0

theorem Sound.replaced (h : s.Sound) (ok : s.replaceExact now old next = .ok r) :
    ∃ order, Replaced s old next r order := by
  simp only [ProfileRegistry.replaceExact, bind_eq_ok, pure_eq_ok, mapError_eq_ok,
    require_eq_ok, and_eq_true, beq_iff_eq, equal_iff] at ok
  obtain ⟨_, _, _, valid, _, ⟨sameID, sameScope⟩, ⟨i, order⟩, inSlice, j, inFlat, _, _, rfl⟩ := ok
  have slot := findMatch_eq_ok inSlice
  have flatSlot := findFlat_eq_ok inFlat
  have key : next.key = old.key := by
    rw [AgentProfileLayer.key, AgentProfileLayer.key, sameID, sameScope]
  have sliceSorted : Stored.Sorted (s.layers.at_ old.key) := by
    rw [h.index]
    exact h.sorted.sublist (filter_sublist ..)
  refine ⟨order, mem_of_getElem? flatSlot, Stored.set_eq_map_swap h.sorted flatSlot next,
    fun k => ?_, rfl, key, depth_of_validate valid⟩
  show (s.layers.put old.key ((s.layers.at_ old.key).set i ⟨next, order⟩)).at_ k =
    (s.layers.at_ k).map (Stored.swap order next)
  rw [Shelves.at_put]
  split
  · next same => rw [same, Stored.set_eq_map_swap sliceSorted slot next]
  · -- no layer of another slice carries the number
    next other =>
      symm
      refine map_congr_left (g := id) (fun e mem => ?_) |>.trans (map_id _)
      rw [h.index, part, mem_filter, decide_eq_true_eq] at mem
      have differs : e.order ≠ order := by
        intro same
        have equal := eq_of_order_eq h.sorted mem.1 (mem_of_getElem? flatSlot) same
        rw [equal] at mem
        exact other mem.2.symm
      simp [Stored.swap, differs]

theorem Sound.replace (h : s.Sound) (ok : s.replaceExact now old next = .ok r) :
    Sound { s with registry := r } := by
  obtain ⟨order, rep⟩ := h.replaced ok
  have key : ∀ e ∈ s.flat, (Stored.swap order next e).value.key = e.value.key := by
    intro e mem
    unfold Stored.swap
    split
    · next same => rw [eq_of_order_eq h.sorted mem rep.found same, rep.sameKey]
    · rfl
  refine ⟨fun k => ?_, ?_, ?_, ?_, ?_⟩
  · show r.layers.at_ k = part r.flat k
    rw [rep.layers, h.index, rep.flat, part, part, Stored.filter_map_swap]
    intro e mem same
    rw [eq_of_order_eq h.sorted mem rep.found same, rep.sameKey]
  all_goals
    dsimp only
    rw [rep.flat]
  · exact Stored.sorted_map_swap h.sorted _ _
  · refine forall_mem_map.mpr fun e mem => ?_
    rw [rep.next_, Stored.order_swap]
    exact h.numbered e mem
  · refine forall_mem_map.mpr fun e mem => ?_
    unfold Stored.swap
    split
    · exact rep.rooted
    · exact h.rooted e mem
  · rw [h.closures, map_map]
    exact map_congr_left fun e mem => by simp [key e mem]

theorem Sound.call (h : s.Sound) (c : ProfileCall) : (s.call c).Sound := by
  cases c with
  | mount layer =>
    rcases ok : s.mount layer with e | r
    · simpa only [ProfileRun.call, ok] using h
    · simpa only [ProfileRun.call, ok] using h.mount ok
  | unmount key order =>
    by_cases open_ : (key, order) ∈ s.closures
    · simpa only [ProfileRun.call, if_pos open_] using h.unmount open_
    · simpa only [ProfileRun.call, if_neg open_] using h
  | replace now old next =>
    rcases ok : s.replaceExact now old next with e | r
    · simpa only [ProfileRun.call, ok] using h
    · simpa only [ProfileRun.call, ok] using h.replace ok

/-- Every sequence of calls leads to a sound registry. -/
theorem run_sound (maxBindings : ℤ) (calls : List ProfileCall) : (run maxBindings calls).Sound := by
  have start : Sound ⟨.new maxBindings, []⟩ := by
    refine ⟨fun key => ?_, ?_, ?_, ?_, ?_⟩ <;>
      simp [ProfileRegistry.new, part, Stored.Sorted]
  rw [run]
  generalize (⟨.new maxBindings, []⟩ : ProfileRun) = s at start
  induction calls generalizing s with
  | nil => exact start
  | cons c calls ih => exact ih (s.call c) (start.call c)

/-! ## Resolution terminates -/

variable {target : ScopePath}

/-- A profile with layers on the way to a target has a layer in the flat list. -/
theorem Sound.mem_of_layersFor (h : s.Sound) {id : GoString}
    (some_ : (s.layersFor target id).isEmpty = false) :
    id ∈ s.flat.map fun e => e.value.profileID := by
  rw [isEmpty_eq_false_iff_exists_mem] at some_
  obtain ⟨layer, mem⟩ := some_
  obtain ⟨p, -, inSlice⟩ := mem_flatMap.mp mem
  obtain ⟨e, among, rfl⟩ := mem_map.mp inSlice
  rw [Stored.byOrder, mem_insertionSort, h.index, part, mem_filter, decide_eq_true_eq] at among
  exact mem_map.mpr ⟨e, among.1, (profileLayerKey_injective among.2).2⟩

/-- The profile that the layers effective at the target make a profile extend. -/
def parent? (r : ProfileRegistry) (target : ScopePath) (id : GoString) : Option GoString :=
  (parentOf (r.layersFor target id)).toOption.filter (· ≠ .empty)

/-- The profile `n` extensions away. -/
def ancestor (r : ProfileRegistry) (target : ScopePath) : ℕ → GoString → Option GoString
  | 0, id => some id
  | n + 1, id => (parent? r target id).bind (ancestor r target n)

/-- The error is that of a cycle, below any number of profiles that extend another one. -/
def reportsCycle : ProfileError → Bool
  | .cycle _ => true
  | .parent _ e => reportsCycle e
  | _ => false

/-- The chain of a profile meets one that is being visited, or one of its own again. -/
def Revisits (r : ProfileRegistry) (target : ScopePath) (visiting : List GoString)
    (id : GoString) : Prop :=
  ∃ n x, ancestor r target n id = some x ∧ (x ∈ visiting ∨ ∃ m < n, ancestor r target m id = some x)

theorem revisits_iff {r : ProfileRegistry} {visiting : List GoString} {id : GoString} :
    Revisits r target visiting id ↔
      id ∈ visiting ∨ ∃ p, parent? r target id = some p ∧ Revisits r target (id :: visiting) p := by
  constructor
  · rintro ⟨n, x, at_, again⟩
    cases n with
    | zero =>
      cases at_
      exact .inl (again.resolve_right fun ⟨m, lt, _⟩ => Nat.not_lt_zero m lt)
    | succ n =>
      obtain ⟨p, extends_, at_⟩ := bind_eq_some_iff.mp at_
      refine .inr ⟨p, extends_, n, x, at_, ?_⟩
      rcases again with old | ⟨m, lt, before⟩
      · exact .inl (mem_cons_of_mem _ old)
      · cases m with
        | zero => exact .inl (some.inj before ▸ mem_cons_self ..)
        | succ m => exact .inr ⟨m,
            Nat.lt_of_succ_lt_succ lt, by simpa [ancestor, extends_] using before⟩
  · rintro (old | ⟨p, extends_, n, x, at_, again⟩)
    · exact ⟨0, id, rfl, .inl old⟩
    · have step : ∀ m, ancestor r target (m + 1) id = ancestor r target m p := fun m => by
        rw [ancestor, extends_, bind_some]
      refine ⟨n + 1, x, (step n).trans at_, ?_⟩
      rcases again with old | ⟨m, lt, before⟩
      · rcases mem_cons.mp old with rfl | old
        · exact .inr ⟨0, Nat.succ_pos n, rfl⟩
        · exact .inl old
      · exact .inr ⟨m + 1, Nat.succ_lt_succ lt, (step m).trans before⟩

/-- Whether a result reports a cycle. -/
def isCyclic {α : Type} : Except ProfileError α → Bool
  | .ok _ => false
  | .error e => reportsCycle e

section

variable {α β : Type}

theorem isCyclic_bind {x : Except ProfileError α} {f : α → Except ProfileError β}
    (later : ∀ a, isCyclic (f a) = false) : isCyclic (x >>= f) = isCyclic x := by
  cases x with
  | error e => rfl
  | ok a => exact later a

theorem isCyclic_foldlM {f : β → α → Except ProfileError β} (each : ∀ b a, isCyclic (f b a) = false)
    (xs : List α) (b : β) : isCyclic (xs.foldlM f b) = false := by
  induction xs generalizing b with
  | nil => rfl
  | cons a xs ih => rw [foldlM_cons, isCyclic_bind ih, each]

theorem isCyclic_require {c : Prop} [Decidable c] {e : ProfileError}
    (other : reportsCycle e = false) : isCyclic (require c e) = false := by
  unfold require
  split
  · rfl
  · exact other

end

theorem isCyclic_parentOf (layers : List AgentProfileLayer) :
    isCyclic (parentOf layers) = false := by
  refine isCyclic_foldlM (fun parent layer => ?_) _ _
  split_ifs <;> rfl

theorem isCyclic_budget {e : ProfileError} (other : reportsCycle e = false) (hard current : ℤ)
    (n : Option ℤ) : isCyclic (budget e hard current n) = false := by
  cases n with
  | none => rfl
  | some n => rw [budget, isCyclic_bind fun _ => rfl, isCyclic_require other]

/-- The layers of a profile report no cycle. -/
theorem isCyclic_applied (layers : List AgentProfileLayer) (start : ProfileRegistry.State) :
    isCyclic (layers.foldlM apply start) = false := by
  refine isCyclic_foldlM (fun state layer => ?_) _ _
  rw [apply, isCyclic_bind fun _ => ?_, isCyclic_budget rfl]
  rw [isCyclic_bind fun _ => rfl, isCyclic_budget rfl]

variable (target) in
/-- More fuel than layers changes nothing, as the profiles on the way are distinct and each
has a layer; and the chain is followed to its end unless it meets a profile again. -/
theorem Sound.resolveLocked_spec (h : s.Sound) (fuel : ℕ) {visiting : List GoString}
    (distinct : visiting.Nodup) (known : visiting ⊆ s.flat.map fun e => e.value.profileID)
    (enough : s.flat.length < fuel + visiting.length) (id : GoString) :
    s.resolveLocked target (fuel + 1) visiting id =
        s.resolveLocked target fuel visiting id ∧
      (isCyclic (s.resolveLocked target fuel visiting id) ↔
        Revisits s.registry target visiting id) := by
  induction fuel generalizing visiting id with
  | zero =>
    have short := (subperm_of_subset distinct known).length_le
    rw [length_map] at short
    omega
  | succ fuel ih =>
    rw [resolveLocked, resolveLocked, revisits_iff]
    by_cases seen : visiting.contains id
    · rw [if_pos seen, if_pos seen]
      exact ⟨rfl, iff_of_true rfl (.inl (by simpa using seen))⟩
    rw [if_neg seen, if_neg seen]
    replace seen : id ∉ visiting := by simpa using seen
    by_cases empty : (s.layersFor target id).isEmpty
    · rw [if_pos empty, if_pos empty]
      refine ⟨rfl, iff_of_false nofun ?_⟩
      rintro (old | ⟨p, extends_, -⟩)
      · exact seen old
      · rw [parent?, List.isEmpty_iff.mp empty] at extends_
        cases extends_
    rw [if_neg empty, if_neg empty]
    have longer : (id :: visiting).Nodup := nodup_cons.mpr ⟨seen, distinct⟩
    have deeper := ih longer
      (cons_subset.mpr ⟨h.mem_of_layersFor (by simpa using empty), known⟩)
      (by rw [length_cons]; omega)
    refine ⟨by simp only [deeper], ?_⟩
    have own := isCyclic_parentOf (s.layersFor target id)
    cases found : parentOf (s.layersFor target id) with
    | error e =>
      have none : parent? s.registry target id = none := by rw [parent?, found]; rfl
      rw [found] at own
      show reportsCycle e = true ↔ _
      simp [seen, none, show reportsCycle e = false from own]
    | ok p =>
      have later : ∀ start, isCyclic ((s.layersFor target id).foldlM
          apply start >>= fun state => do
            validateModelSelection state.model
            return { state with name := if state.name = GoString.empty then id else state.name }) =
          false := by
        intro start
        rw [isCyclic_bind fun state => ?_, isCyclic_applied]
        rw [isCyclic_bind fun _ => rfl, validateModelSelection, isCyclic_bind fun _ => ?_] <;>
          exact isCyclic_require rfl
      refine (iff_of_eq (congrArg (· = true) (isCyclic_bind later))).trans ?_
      by_cases last : p = .empty
      · have none : parent? s.registry target id = none := by rw [parent?, found, last]; rfl
        simp [seen, none, last, isCyclic]
      · have some_ : parent? s.registry target id = some p := by
          rw [parent?, found, Except.toOption, Option.filter_some, if_pos (by simpa using last)]
        have wrapped : ∀ x : Except ProfileError ProfileRegistry.State,
            isCyclic (x.mapError (.parent id)) = isCyclic x := by
          rintro (e | a) <;> rfl
        rw [if_neg last, wrapped, (deeper p).2]
        simp [seen, some_]

/-- The identifiers a target sees, each once. -/
def visible (target : ScopePath) (out : List GoString) (e : Stored AgentProfileLayer) :
    List GoString :=
  if e.value.scope.isAncestorOf target && !out.contains e.value.profileID
  then out ++ [e.value.profileID] else out

theorem foldl_visible (target : ScopePath) (flat : List (Stored AgentProfileLayer))
    {out : List GoString} (distinct : out.Nodup) :
    (flat.foldl (visible target) out).Nodup ∧
      ∀ id, id ∈ flat.foldl (visible target) out ↔ id ∈ out ∨
        ∃ e ∈ flat, e.value.scope.isAncestorOf target ∧ e.value.profileID = id := by
  induction flat generalizing out with
  | nil => simp [distinct]
  | cons e flat ih =>
    have step : (visible target out e).Nodup ∧ ∀ id, id ∈ visible target out e ↔ id ∈ out ∨
        e.value.scope.isAncestorOf target ∧ e.value.profileID = id := by
      unfold visible
      split
      · next new =>
          rw [and_eq_true, not_eq_true', contains_eq_mem, decide_eq_false_iff_not] at new
          refine ⟨nodup_append.mpr ⟨distinct, by simp, ?_⟩, fun id => ?_⟩
          · intro a mem b last same
            rw [mem_singleton.mp last] at same
            exact new.2 (same ▸ mem)
          · simp [new.1, eq_comm]
      · next old =>
          refine ⟨distinct, fun id => ⟨.inl, ?_⟩⟩
          rintro (mem | ⟨above, rfl⟩)
          · exact mem
          · simpa [above] using old
    obtain ⟨nodup, mem⟩ := ih step.1
    refine ⟨nodup, fun id => (mem id).trans ?_⟩
    rw [step.2, exists_mem_cons_iff, or_assoc]

/-! ## The laws of the registry -/

/-- What holds of a registry between any two calls. -/
structure Laws (s : ProfileRun) : Prop where
  /-- Each slice holds the layers of the flat list with its key, in their order. -/
  index : ∀ key, s.layers.at_ key = part s.flat key
  unique : (s.flat.map (·.order)).Nodup
  listed : ∀ target : ScopePath, target.depth ≠ 0 →
    ∃ ids, s.listProfiles target = .ok ids ∧ ids.Nodup ∧
      ∀ id, id ∈ ids ↔ ∃ p ∈ target.prefixes, s.layers.at_ (profileLayerKey p id) ≠ []
  /-- A replacement exchanges one layer under its number, whose unmount function is
  still open. -/
  replaced : ∀ now old next r, s.replaceExact now old next = .ok r →
    ∃ order, Replaced s old next r order ∧
      s.call (.replace now old next) = ⟨r, s.closures⟩ ∧ (next.key, order) ∈ s.closures
  failed : ∀ now old next e, s.replaceExact now old next = .error e →
    s.call (.replace now old next) = s
  /-- An open unmount function removes the layer that now carries its number. -/
  unmounted : ∀ key order, (key, order) ∈ s.closures →
    ∃ e ∈ s.flat, e.order = order ∧ e.value.key = key ∧
      (∀ e', e' ∈ (s.call (.unmount key order)).flat ↔ e' ∈ s.flat ∧ e' ≠ e) ∧
      ∀ k e', e' ∈ (s.call (.unmount key order)).layers.at_ k ↔
        e' ∈ s.layers.at_ k ∧ e' ≠ e

theorem Sound.laws (h : s.Sound) : s.Laws where
  index := h.index
  unique := by
    rw [nodup_iff_pairwise_ne, pairwise_map]
    exact h.sorted.imp fun lt => Nat.ne_of_lt lt
  listed target nonempty := by
    obtain ⟨nodup, mem⟩ := foldl_visible target s.flat nodup_nil
    refine ⟨(s.flat.foldl (visible target) []).insertionSort fun a b => b.before a = false,
      ?_, (perm_insertionSort _ _).nodup_iff.mpr nodup, fun id => ?_⟩
    · have deep : (target.depth != 0) := by simpa using nonempty
      rw [ProfileRegistry.listProfiles, require, if_pos deep]
      rfl
    · rw [mem_insertionSort, mem]
      constructor
      · rintro (none | ⟨e, among, above, rfl⟩)
        · simp at none
        · refine ⟨e.value.scope, mem_prefixes.mpr ⟨above, h.rooted e among⟩, ?_⟩
          rw [h.index]
          exact ne_nil_of_mem (mem_filter.mpr ⟨among, by simp [AgentProfileLayer.key]⟩)
      · rintro ⟨p, onTheWay, some_⟩
        rw [h.index] at some_
        obtain ⟨e, among⟩ := exists_mem_of_ne_nil _ some_
        rw [part, mem_filter, decide_eq_true_eq] at among
        obtain ⟨rfl, same⟩ := profileLayerKey_injective among.2
        exact .inr ⟨e, among.1, (mem_prefixes.mp onTheWay).1, same⟩
  replaced now old next r ok := by
    obtain ⟨order, rep⟩ := h.replaced ok
    refine ⟨order, rep, by simp only [ProfileRun.call, ok], ?_⟩
    rw [rep.sameKey, h.closures]
    exact mem_map_of_mem rep.found
  failed now old next e failed := by simp only [ProfileRun.call, failed]
  unmounted key order open_ := by
    obtain ⟨e, among, same, own, only⟩ := h.opened open_
    have call : s.call (.unmount key order) =
        ⟨s.unmount key order, s.closures.erase (key, order)⟩ := if_pos open_
    have flat : ∀ e', e' ∈ (s.call (.unmount key order)).flat ↔
        e' ∈ s.flat ∧ e' ≠ e := by
      intro e'
      rw [call]
      show e' ∈ without order s.flat ↔ _
      rw [Stored.mem_without h.sorted]
      exact and_congr_right fun mem => not_congr ⟨only e' mem, fun equal => equal ▸ same⟩
    refine ⟨e, among, same, own, flat, fun k e' => ?_⟩
    rw [(h.call (.unmount key order)).index, h.index, part, part, mem_filter, mem_filter, flat]
    exact and_right_comm

/-- **Two views, one registry.**  After any sequence of mounts, unmounts and
replacements, the slices and the flat list hold the same layers under unique
numbers, listing returns the profiles with a layer on the way to the target, a
replacement changes one layer and keeps its number or fails and changes nothing,
and every open unmount function removes the layer that carries its number. -/
theorem registry_views_agree (maxBindings : ℤ) (calls : List ProfileCall) :
    (run maxBindings calls).Laws :=
  (run_sound maxBindings calls).laws

end ProfileRun

end AutoAgent
