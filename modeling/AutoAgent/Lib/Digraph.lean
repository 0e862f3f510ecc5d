import Mathlib.Data.Finset.Card

/-!
# Searching a directed graph

A graph is given by the list of successors of each node.  Two searches are specified by
paths: a breadth-first search with a queue returns what can be reached (`mem_search`), and
a depth-first search with three colors finds out whether there is a cycle
(`findsCycle_iff`).  Both count their rounds down, and the number of nodes is enough.
-/

namespace AutoAgent.Digraph

open List

open Function (update update_of_ne update_self)

variable {α : Type} (succ : α → List α)

/-- There is an edge from `a` to `b`. -/
def Arc (a b : α) : Prop := b ∈ succ a

/-! ## Breadth first -/

section BreadthFirst

variable [DecidableEq α]

/-- Takes note of a node that was not seen before. -/
def note (s : List α × List α) (next : α) : List α × List α :=
  if next ∈ s.1 then s else (s.1 ++ [next], s.2 ++ [next])

/-- Works off the queue, for at most `n` nodes. -/
def search : ℕ → List α → List α → List α
  | 0, seen, _ => seen
  | _ + 1, seen, [] => seen
  | n + 1, seen, current :: queue =>
    let s := (succ current).foldl note (seen, queue)
    search n s.1 s.2

theorem foldl_note (xs seen queue : List α) :
    ∃ new, xs.foldl note (seen, queue) = (seen ++ new, queue ++ new) ∧ new ⊆ xs ∧
      xs ⊆ seen ++ new ∧ (seen.Nodup → (seen ++ new).Nodup) := by
  induction xs generalizing seen queue with
  | nil => exact ⟨[], by simp⟩
  | cons x xs ih =>
    rw [foldl_cons, note]
    split_ifs with old
    · obtain ⟨new, eq, sub, all, nodup⟩ := ih seen queue
      exact ⟨new, eq, fun y mem => mem_cons_of_mem _ (sub mem),
        cons_subset.mpr ⟨mem_append_left _ old, all⟩, nodup⟩
    · obtain ⟨new, eq, sub, all, nodup⟩ := ih (seen ++ [x]) (queue ++ [x])
      refine ⟨x :: new, by simpa using eq, cons_subset_cons x sub, ?_, fun distinct => ?_⟩
      · simpa using all
      · have further : (seen ++ [x]).Nodup := by
          rw [nodup_append]
          refine ⟨distinct, nodup_singleton x, fun a mem b here eq => ?_⟩
          rw [mem_singleton.mp here] at eq
          exact old (eq ▸ mem)
        simpa using nodup further

variable {succ} {all : List α}

/-- What the search returns is closed, contains what was seen, and is reached from it. -/
theorem search_spec (closed : ∀ x ∈ all, succ x ⊆ all) {n : ℕ} {seen queue : List α}
    (distinct : seen.Nodup) (known : seen ⊆ all) (queued : queue ⊆ seen)
    (done : ∀ x ∈ seen, x ∈ queue ∨ succ x ⊆ seen)
    (enough : all.length + queue.length ≤ n + seen.length) :
    seen ⊆ search succ n seen queue ∧
      (∀ x ∈ search succ n seen queue, succ x ⊆ search succ n seen queue) ∧
      ∀ y ∈ search succ n seen queue, ∃ x ∈ seen, Relation.ReflTransGen (Arc succ) x y := by
  induction n generalizing seen queue with
  | zero =>
    -- everything was seen, and the queue is empty
    have bound := (subperm_of_subset distinct known).length_le
    obtain rfl : queue = [] := length_eq_zero_iff.mp (by omega)
    exact ⟨fun _ mem => mem, fun x mem => (done x mem).resolve_left (by simp),
      fun y mem => ⟨y, mem, .refl⟩⟩
  | succ n ih =>
    cases queue with
    | nil =>
      exact ⟨fun _ mem => mem, fun x mem => (done x mem).resolve_left (by simp),
        fun y mem => ⟨y, mem, .refl⟩⟩
    | cons current queue =>
      obtain ⟨here, rest⟩ := cons_subset.mp queued
      obtain ⟨new, eq, sub, covered, nodup⟩ := foldl_note (succ current) seen queue
      rw [search, eq]
      have found : seen ++ new ⊆ all :=
        append_subset.mpr ⟨known, fun y mem => closed current (known here) (sub mem)⟩
      have later : ∀ x ∈ seen ++ new, x ∈ queue ++ new ∨ succ x ⊆ seen ++ new := by
        intro x mem
        rcases mem_append.mp mem with old | fresh
        · rcases done x old with waiting | finished
          · rcases mem_cons.mp waiting with rfl | later
            · exact .inr covered
            · exact .inl (mem_append_left _ later)
          · exact .inr fun y mem => mem_append_left _ (finished mem)
        · exact .inl (mem_append_right _ fresh)
      obtain ⟨keeps, shut, sound⟩ := ih (nodup distinct) found
        (append_subset.mpr ⟨fun y mem => mem_append_left _ (rest mem),
          fun y mem => mem_append_right _ mem⟩) later
        (by simp only [length_append, length_cons] at enough ⊢; omega)
      refine ⟨fun x mem => keeps (mem_append_left _ mem), shut, fun y mem => ?_⟩
      obtain ⟨x, seenx, path⟩ := sound y mem
      rcases mem_append.mp seenx with old | fresh
      · exact ⟨x, old, path⟩
      · exact ⟨current, here, .head (sub fresh) path⟩

/-- **The search returns what can be reached.** -/
theorem mem_search (closed : ∀ x ∈ all, succ x ⊆ all) {start : List α} (distinct : start.Nodup)
    (known : start ⊆ all) {n : ℕ} (enough : all.length ≤ n) {y : α} :
    y ∈ search succ n start start ↔ ∃ x ∈ start, Relation.ReflTransGen (Arc succ) x y := by
  obtain ⟨keeps, shut, sound⟩ := search_spec closed distinct known (List.Subset.refl _)
    (fun x mem => .inl mem) (Nat.add_le_add_right enough start.length)
  refine ⟨sound y, ?_⟩
  rintro ⟨x, mem, path⟩
  induction path with
  | refl => exact keeps mem
  | tail _ arc ih => exact shut _ ih arc

end BreadthFirst

/-! ## Depth first -/

/-- The color of a node: not visited, on the way, done. -/
inductive Color where
  | white
  | grey
  | black
  deriving DecidableEq

/-- One successor of a node that is being visited. -/
def look (visit : α → (α → Color) → Option (α → Color)) (color : α → Color) (next : α) :
    Option (α → Color) :=
  match color next with
  | .grey => none
  | .white => visit next color
  | .black => some color

variable {succ} {color color' : α → Color}

/-- What a visit leaves: the nodes on the way are the same, and what was done is done. -/
structure Extends (color color' : α → Color) : Prop where
  grey : ∀ x, color' x = .grey ↔ color x = .grey
  black : ∀ x, color x = .black → color' x = .black

theorem Extends.refl (color : α → Color) : Extends color color := ⟨fun _ => .rfl, fun _ h => h⟩

theorem Extends.trans {color'' : α → Color} (h : Extends color color')
    (h' : Extends color' color'') :
    Extends color color'' :=
  ⟨fun x => (h'.grey x).trans (h.grey x), fun x done => h'.black x (h.black x done)⟩

theorem Extends.white (h : Extends color color') {x : α} (fresh : color' x = .white) :
    color x = .white := by
  cases here : color x with
  | white => rfl
  | grey => rw [(h.grey x).mpr here] at fresh; cases fresh
  | black => rw [h.black x here] at fresh; cases fresh

/-- The nodes that are done are closed and on no cycle. -/
def Sorted (succ : α → List α) (color : α → Color) : Prop :=
  ∀ x, color x = .black → (∀ y ∈ succ x, color y = .black) ∧ ¬Relation.TransGen (Arc succ) x x

theorem Sorted.path (h : Sorted succ color) {x y : α} (done : color x = .black)
    (path : Relation.ReflTransGen (Arc succ) x y) : color y = .black := by
  induction path with
  | refl => exact done
  | tail _ arc ih => exact (h _ ih).1 _ arc

/-- A visit that ends extends the colors, the node is done, and it found no cycle. -/
def Visits (succ : α → List α) (visit : α → (α → Color) → Option (α → Color)) : Prop :=
  ∀ {id color color'}, color id = .white → visit id color = some color' →
    Extends color color' ∧ color' id = .black ∧ (Sorted succ color → Sorted succ color')

variable {xs : List α} {walk : α → (α → Color) → Option (α → Color)} {id : α}

theorem look_spec (each : Visits succ walk) (h : look walk color id = some color') :
    Extends color color' ∧ color' id = .black ∧ (Sorted succ color → Sorted succ color') := by
  unfold look at h
  cases seen : color id with
  | grey => rw [seen] at h; cases h
  | white => rw [seen] at h; exact each seen h
  | black =>
    rw [seen] at h
    cases h
    exact ⟨.refl color, seen, fun sorted => sorted⟩

/-- The successors of a node are all done once it has looked at them. -/
theorem foldlM_look_spec (each : Visits succ walk)
    (h : xs.foldlM (look walk) color = some color') :
    Extends color color' ∧ (∀ x ∈ xs, color' x = .black) ∧
    (Sorted succ color → Sorted succ color') := by
  induction xs generalizing color with
  | nil =>
    cases h
    exact ⟨.refl _, by simp, fun sorted => sorted⟩
  | cons x xs ih =>
    rw [foldlM_cons, Option.bind_eq_bind, Option.bind_eq_some_iff] at h
    obtain ⟨middle, first, rest⟩ := h
    obtain ⟨here, black, keeps⟩ := look_spec each first
    obtain ⟨further, done, later⟩ := ih rest
    exact ⟨here.trans further, forall_mem_cons.mpr ⟨further.black x black, done⟩,
      fun sorted => later (keeps sorted)⟩

variable (succ) [DecidableEq α]

/-- Visits a node and what follows it; none if there is a cycle. -/
def visit : ℕ → α → (α → Color) → Option (α → Color)
  | 0, _, _ => none
  | n + 1, id, color =>
    ((succ id).foldlM (look (visit n)) (update color id .grey)).map
      fun color => update color id .black

/-- Visits every node that was not visited yet. -/
def visitAll (n : ℕ) (nodes : List α) (color : α → Color) : Option (α → Color) :=
  nodes.foldlM (fun color id => if color id = .white then visit succ n id color else some color)
  color

/-- There is a cycle in what can be reached from the nodes. -/
def findsCycle (n : ℕ) (nodes : List α) : Bool := (visitAll succ n nodes fun _ => .white).isNone

variable {succ}

theorem visits (n : ℕ) : Visits succ (visit succ n) := by
  induction n with
  | zero => exact fun _ h => by cases h
  | succ n ih =>
    intro id color color' fresh h
    obtain ⟨middle, looked, rfl⟩ := Option.map_eq_some_iff.mp h
    obtain ⟨further, done, keeps⟩ := foldlM_look_spec ih looked
    refine ⟨⟨fun x => ?_, fun x done => ?_⟩, update_self .., fun sorted => ?_⟩
    · rcases eq_or_ne x id with rfl | other
      · simp [fresh]
      · have := further.grey x
        simpa [other] using this
    · rcases eq_or_ne x id with rfl | other
      · exact update_self ..
      · have := further.black x
        rw [update_of_ne other] at this ⊢
        exact this done
    · have start : Sorted succ (update color id .grey) := by
        intro x done
        have other : x ≠ id := by
          rintro rfl
          rw [update_self] at done
          cases done
        rw [update_of_ne other] at done
        refine ⟨fun y mem => ?_, (sorted x done).2⟩
        have next := (sorted x done).1 y mem
        have apart : y ≠ id := by
          rintro rfl
          rw [fresh] at next
          cases next
        rwa [update_of_ne apart]
      have between := keeps start
      have onTheWay : middle id = .grey := (further.grey id).mpr (update_self ..)
      have blacken : ∀ y, middle y = .black → update middle id .black y = .black := by
        intro y black
        rcases eq_or_ne y id with rfl | apart
        · exact update_self ..
        · rwa [update_of_ne apart]
      intro x black
      rcases eq_or_ne x id with rfl | other
      · refine ⟨fun y mem => blacken y (done y mem), fun cycle => ?_⟩
        -- a cycle through the node leaves it by a successor, and those are done
        obtain ⟨y, arc, path⟩ := Relation.TransGen.head'_iff.mp cycle
        rw [between.path (done y arc) path] at onTheWay
        cases onTheWay
      · rw [update_of_ne other] at black
        exact ⟨fun y mem => blacken y ((between x black).1 y mem), (between x black).2⟩

variable {n : ℕ} {all : List α}

def whites (all : List α) (color : α → Color) : Finset α := {x ∈ all.toFinset | color x = .white}

theorem Extends.whites_le (h : Extends color color') :
    (whites all color').card ≤ (whites all color).card := by
  refine Finset.card_le_card fun x mem => ?_
  rw [whites, Finset.mem_filter] at mem ⊢
  exact ⟨mem.1, h.white mem.2⟩

theorem whites_update_lt (known : id ∈ all) (fresh : color id = .white) :
    (whites all (update color id .grey)).card < (whites all color).card := by
  refine Finset.card_lt_card (Finset.ssubset_iff_of_subset (fun x mem => ?_) |>.mpr
    ⟨id, by simp [whites, known, fresh], by simp [whites]⟩)
  rw [whites, Finset.mem_filter] at mem ⊢
  rcases eq_or_ne x id with rfl | other
  · exact ⟨mem.1, fresh⟩
  · rw [update_of_ne other] at mem
    exact mem

/-- A node whose visit or the visit of whose successors is cut off lies on the way to a cycle:
every node on the way has a path to the next one. -/
theorem cycle_of_look (each : ∀ {id color}, id ∈ all → color id = .white →
      (whites all color).card ≤ n → (∀ g, color g = .grey → Relation.TransGen (Arc succ) g id) →
      visit succ n id color = none → ∃ x, Relation.TransGen (Arc succ) x x)
    (known : xs ⊆ all) (few : (whites all color).card ≤ n)
    (way : ∀ g, color g = .grey → ∀ x ∈ xs, Relation.TransGen (Arc succ) g x)
    (cut : xs.foldlM (look (visit succ n)) color = none) :
    ∃ x, Relation.TransGen (Arc succ) x x := by
  induction xs generalizing color with
  | nil => cases cut
  | cons x xs ih =>
    obtain ⟨here, rest⟩ := cons_subset.mp known
    rw [foldlM_cons, Option.bind_eq_bind, Option.bind_eq_none_iff] at cut
    cases first : look (visit succ n) color x with
    | some next =>
      obtain ⟨further, -⟩ := look_spec (visits n) first
      exact ih rest (further.whites_le.trans few)
        (fun g grey y mem => way g ((further.grey g).mp grey) y (mem_cons_of_mem x mem))
        (cut next first)
    | none =>
      unfold look at first
      cases seen : color x with
      | grey => exact ⟨x, way x seen x (by simp)⟩
      | black => rw [seen] at first; cases first
      | white =>
        rw [seen] at first
        exact each here seen few (fun g grey => way g grey x (by simp)) first

/-- A visit that is cut off has found a cycle. -/
theorem cycle_of_visit (closed : ∀ x ∈ all, succ x ⊆ all) (known : id ∈ all)
    (fresh : color id = .white) (enough : (whites all color).card ≤ n)
    (way : ∀ g, color g = .grey → Relation.TransGen (Arc succ) g id)
    (h : visit succ n id color = none) : ∃ x, Relation.TransGen (Arc succ) x x := by
  induction n generalizing id color with
  | zero =>
    have none : whites all color = ∅ := Finset.card_eq_zero.mp (Nat.le_zero.mp enough)
    have here : id ∈ whites all color := by simp [whites, known, fresh]
    rw [none] at here
    cases here
  | succ n ih =>
    have fewer := whites_update_lt known fresh
    refine cycle_of_look ih (closed id known) (by omega) (fun g grey x arc => ?_)
      (Option.map_eq_none_iff.mp h)
    rcases eq_or_ne g id with rfl | other
    · exact .single arc
    · exact (way g (by rwa [update_of_ne other] at grey)).tail arc

variable {nodes : List α}

/-- With no node on the way, the nodes are visited as the successors of a node are. -/
theorem visitAll_eq (idle : ∀ x, color x ≠ .grey) :
    visitAll succ n nodes color = nodes.foldlM (look (visit succ n)) color := by
  induction nodes generalizing color with
  | nil => rfl
  | cons id nodes ih =>
    have same : (if color id = .white then visit succ n id color else some color) =
        look (visit succ n) color id := by
      unfold look
      cases seen : color id with
      | grey => exact absurd seen (idle id)
      | white | black => rfl
    rw [visitAll, foldlM_cons, foldlM_cons, same]
    refine Option.bind_congr fun next first => ih fun x grey => ?_
    exact idle x (((look_spec (visits n) first).1.grey x).mp grey)

/-- **The search finds a cycle if there is one.** -/
theorem findsCycle_iff (closed : ∀ x ∈ nodes, succ x ⊆ nodes)
    (sources : ∀ x y, Arc succ x y → x ∈ nodes) (enough : nodes.length ≤ n) :
    findsCycle succ n nodes ↔ ∃ x, Relation.TransGen (Arc succ) x x := by
  have idle : ∀ x : α, (fun _ : α => Color.white) x ≠ .grey := by simp
  rw [findsCycle, Option.isNone_iff_eq_none, visitAll_eq idle]
  constructor
  · intro cut
    refine cycle_of_look (cycle_of_visit closed) (List.Subset.refl _) ?_
      (fun g grey => absurd grey (idle g)) cut
    exact (Finset.card_filter_le _ _).trans ((toFinset_card_le nodes).trans enough)
  · rintro ⟨x, cycle⟩
    rw [Option.eq_none_iff_forall_ne_some]
    intro color ended
    obtain ⟨-, done, keeps⟩ := foldlM_look_spec (visits n) ended
    obtain ⟨y, arc, -⟩ := Relation.TransGen.head'_iff.mp cycle
    exact (keeps (by simp [Sorted]) x (done x (sources x y arc))).2 cycle

end AutoAgent.Digraph
