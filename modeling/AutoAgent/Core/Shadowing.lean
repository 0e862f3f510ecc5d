import AutoAgent.Core.Derive
import Mathlib.Data.List.TakeWhile

/-!
# Which events a set of summaries shadows

The full recomputation of the messages merges the ranges of the summaries into
intervals, looks every event up by binary search and emits the summaries while it
walks the log.  An event is shadowed if and only if some range holds it
(`isShadowed_iff`).  The messages are those of the summaries and the events that are
not shadowed, sorted: a summary stands where its range starts (`Ranged.fullDerive_eq`).

What one more event does follows from the sorted list alone.  An event behind all
ranges adds its message at the end (`fullDerive_concat`), and a summary before which
nothing is left to project becomes the first message (`fullDerive_summary`).
-/

namespace AutoAgent

open List SummaryRange

/-! ## Merged intervals -/

/-- The merged intervals, the latest first: each is an interval, and each begins
behind the end of the next. -/
structure Separated (acc : List ShadowInterval) : Prop where
  proper : ∀ i ∈ acc, i.start ≤ i.stop
  apart : acc.Pairwise fun later earlier => earlier.stop < later.start

/-- Some interval holds the number. -/
def Covered (acc : List ShadowInterval) (n : ℤ) : Prop := ∃ i ∈ acc, i.start ≤ n ∧ n ≤ i.stop

/-- Some range holds the number. -/
def InRange (ranges : List SummaryRange) (n : ℤ) : Prop := ∃ r ∈ ranges, r.start ≤ n ∧ n ≤ r.stop

variable {acc : List ShadowInterval} {n : ℤ}

theorem covered_cons {i : ShadowInterval} :
    Covered (i :: acc) n ↔ (i.start ≤ n ∧ n ≤ i.stop) ∨ Covered acc n := by
  simp [Covered]

variable {r : SummaryRange} {ranges : List SummaryRange}

theorem inRange_cons :
    InRange (r :: ranges) n ↔ (r.start ≤ n ∧ n ≤ r.stop) ∨ InRange ranges n := by
  simp [InRange]

/-- One more range, that starts no earlier than the intervals. -/
theorem mergeRange_spec (sep : Separated acc) (proper : r.start ≤ r.stop)
    (behind : ∀ i ∈ acc, i.start ≤ r.start) :
    Separated (mergeRange acc r) ∧ (∀ i ∈ mergeRange acc r, i.start ≤ r.start) ∧
      ∀ n, Covered (mergeRange acc r) n ↔ Covered acc n ∨ r.start ≤ n ∧ n ≤ r.stop := by
  cases acc with
  | nil =>
    refine ⟨⟨by simpa [mergeRange] using proper, by simp [mergeRange]⟩, by simp [mergeRange], ?_⟩
    simp [mergeRange, Covered]
  | cons last rest =>
    obtain ⟨lastProper, restProper⟩ := forall_mem_cons.mp sep.proper
    obtain ⟨lastApart, restApart⟩ := pairwise_cons.mp sep.apart
    obtain ⟨lastBehind, restBehind⟩ := forall_mem_cons.mp behind
    rw [mergeRange]
    by_cases gap : last.stop < r.start ∧ ¬(last.stop ≠ 2 ^ 63 - 1 ∧ r.start = last.stop + 1)
    · rw [if_pos gap]
      refine ⟨⟨forall_mem_cons.mpr ⟨proper, sep.proper⟩, pairwise_cons.mpr
        ⟨forall_mem_cons.mpr ⟨gap.1, fun i mem => ?_⟩, sep.apart⟩⟩,
        forall_mem_cons.mpr ⟨le_refl _, behind⟩, fun n => ?_⟩
      · have := lastApart i mem
        show i.stop < r.start
        omega
      · rw [covered_cons]
        exact or_comm
    · rw [if_neg gap]
      by_cases longer : last.stop < r.stop
      · rw [if_pos longer]
        refine ⟨⟨forall_mem_cons.mpr ⟨?_, restProper⟩, pairwise_cons.mpr ⟨lastApart, restApart⟩⟩,
          forall_mem_cons.mpr ⟨lastBehind, restBehind⟩, fun n => ?_⟩
        · show last.start ≤ r.stop
          omega
        · rw [covered_cons, covered_cons]
          constructor
          · rintro (⟨low, high⟩ | old)
            · by_cases inside : n ≤ last.stop
              · exact .inl (.inl ⟨low, inside⟩)
              · exact .inr ⟨by omega, high⟩
            · exact .inl (.inr old)
          · rintro ((⟨low, high⟩ | old) | ⟨low, high⟩)
            · exact .inl ⟨low, high.trans longer.le⟩
            · exact .inr old
            · exact .inl ⟨lastBehind.trans low, high⟩
      · rw [if_neg longer]
        refine ⟨sep, behind, fun n => ⟨.inl, ?_⟩⟩
        rintro (old | ⟨low, high⟩)
        · exact old
        · exact covered_cons.mpr (.inl ⟨by omega, by omega⟩)

/-- Ranges in the order of their starts are merged into what they cover. -/
theorem shadowIntervals_spec
    (proper : ∀ r ∈ ranges, r.start ≤ r.stop)
    (sorted : ranges.Pairwise fun a b => a.start ≤ b.start) :
    Separated (shadowIntervals ranges).reverse ∧
      ∀ n, Covered (shadowIntervals ranges).reverse n ↔ InRange ranges n := by
  -- the intervals so far all start at or before the ranges to come
  have loop : ∀ (ranges : List SummaryRange) (acc : List ShadowInterval), Separated acc →
      (∀ r ∈ ranges, r.start ≤ r.stop) → ranges.Pairwise (fun a b => a.start ≤ b.start) →
      (∀ i ∈ acc, ∀ r ∈ ranges, i.start ≤ r.start) →
      Separated (ranges.foldl mergeRange acc) ∧
        ∀ n, Covered (ranges.foldl mergeRange acc) n ↔ Covered acc n ∨ InRange ranges n := by
    intro ranges
    induction ranges with
    | nil => exact fun acc sep _ _ _ => ⟨sep, fun n => by simp [InRange]⟩
    | cons r ranges ih =>
      intro acc sep proper sorted behind
      obtain ⟨first, proper⟩ := forall_mem_cons.mp proper
      obtain ⟨least, sorted⟩ := pairwise_cons.mp sorted
      obtain ⟨next, starts, covers⟩ :=
        mergeRange_spec sep first fun i mem => behind i mem r mem_cons_self
      obtain ⟨done, union⟩ := ih _ next proper sorted fun i mem r' later =>
        (starts i mem).trans (least r' later)
      refine ⟨done, fun n => ?_⟩
      rw [foldl_cons, union, covers, inRange_cons, or_assoc]
  obtain ⟨done, union⟩ := loop ranges [] ⟨by simp, .nil⟩ proper sorted (by simp)
  rw [shadowIntervals, reverse_reverse]
  refine ⟨done, fun n => (union n).trans ⟨fun h => h.resolve_left ?_, .inr⟩⟩
  rintro ⟨i, mem, _⟩
  cases mem

/-- The predicate the lookup of an interval searches with. -/
def reaches (intervals : List ShadowInterval) (n k : ℕ) : Bool :=
  (intervals[k]?.map fun i => decide ((n : ℤ) ≤ i.stop)).getD true

theorem reaches_iff {intervals : List ShadowInterval} {i : ShadowInterval} {n k : ℕ}
    (here : intervals[k]? = some i) : reaches intervals n k ↔ (n : ℤ) ≤ i.stop := by
  simp [reaches, here]

/-- The lookup finds the interval that holds a number. -/
theorem isShadowed_of_separated {intervals : List ShadowInterval}
    (sep : Separated intervals.reverse) (n : ℕ) :
    isShadowed intervals n ↔ Covered intervals.reverse n := by
  have proper : ∀ i ∈ intervals, i.start ≤ i.stop := fun i mem =>
    sep.proper i (mem_reverse.mpr mem)
  have apart : intervals.Pairwise fun earlier later => earlier.stop < later.start :=
    pairwise_reverse.mp sep.apart
  have order : ∀ {a b : ℕ} {i j : ShadowInterval}, a < b → intervals[a]? = some i →
      intervals[b]? = some j → i.stop < j.start := by
    intro a b i j lt hi hj
    obtain ⟨ha, rfl⟩ := List.getElem?_eq_some_iff.mp hi
    obtain ⟨hb, rfl⟩ := List.getElem?_eq_some_iff.mp hj
    exact pairwise_iff_getElem.mp apart a b ha hb lt
  have mono : ∀ a b, a ≤ b → reaches intervals n a → reaches intervals n b := by
    intro a b le hit
    rcases Nat.eq_or_lt_of_le le with rfl | lt
    · exact hit
    cases hj : intervals[b]? with
    | none => simp [reaches, hj]
    | some j =>
      cases hi : intervals[a]? with
      | none =>
        have := List.getElem?_eq_none_iff.mp hi
        have := (List.getElem?_eq_some_iff.mp hj).1
        omega
      | some i =>
        have := order lt hi hj
        have := proper j (mem_of_getElem? hj)
        have := (reaches_iff hi).mp hit
        exact (reaches_iff hj).mpr (by omega)
  obtain ⟨below, bound, found⟩ := sortSearch_spec mono intervals.length
  generalize place : sortSearch intervals.length (reaches intervals n) = k at below bound found
  have searched : sortSearch intervals.length (fun k =>
      (intervals[k]?.map fun i => decide ((n : ℤ) ≤ i.stop)).getD true) = k := place
  simp only [isShadowed, searched]
  constructor
  · intro hit
    cases here : intervals[k]? with
    | none => simp [here] at hit
    | some i =>
      have reached := found (List.getElem?_eq_some_iff.mp here).1
      simp only [here, decide_eq_true_eq] at hit
      exact ⟨i, mem_reverse.mpr (mem_of_getElem? here), hit, (reaches_iff here).mp reached⟩
  · rintro ⟨i, mem, low, high⟩
    obtain ⟨k', here⟩ := mem_iff_getElem?.mp (mem_reverse.mp mem)
    have same : k = k' := by
      rcases Nat.lt_trichotomy k k' with lt | eq | gt
      · -- an earlier interval that reaches the number ends before this one begins
        have inside : k < intervals.length := lt.trans (List.getElem?_eq_some_iff.mp here).1
        have at_ : intervals[k]? = some intervals[k] := getElem?_eq_getElem inside
        have := order lt at_ here
        have := (reaches_iff at_).mp (found inside)
        omega
      · exact eq
      · have missed := below k' gt
        rw [(reaches_iff here).mpr high] at missed
        cases missed
    rw [same, here]
    exact decide_eq_true low

/-- An event is shadowed if and only if some range holds it. -/
theorem isShadowed_iff (proper : ∀ r ∈ ranges, r.start ≤ r.stop)
    (sorted : ranges.Pairwise fun a b => a.start ≤ b.start) (n : ℕ) :
    isShadowed (shadowIntervals ranges) n ↔ InRange ranges n := by
  obtain ⟨sep, covers⟩ := shadowIntervals_spec proper sorted
  rw [isShadowed_of_separated sep, covers]

/-! ## The order of the messages -/

variable {e : SessionEvent} {m : ChatMessage}

/-- The message of an event has its number, and no provenance. -/
theorem source_of_projectEvent (h : projectEvent e = some m) :
    m.sourceSeq = e.seq ∧ m.provenance = none := by
  obtain ⟨d, h⟩ : ∃ d, projectData e.seq d = some m := by
    unfold projectEvent at h
    split at h
    · exact (bind_eq_some_iff.mp h).imp fun _ => And.right
    · exact (bind_eq_some_iff.mp h).imp fun _ => And.right
    · exact (bind_eq_some_iff.mp h).imp fun _ => And.right
    · cases h
  cases d <;> cases h <;> exact ⟨rfl, rfl⟩

/-- The event number lies in the range. -/
def SummaryRange.holds (r : SummaryRange) (n : ℕ) : Bool :=
  r.start ≤ n ∧ n ≤ r.stop

/-- What a message comes from. -/
inductive Item where
  | summary (r : SummaryRange)
  | event (e : SessionEvent)

namespace Item

def seq : Item → ℕ
  | summary r => r.seq
  | event e => e.seq

/-- A summary stands where its range starts, before the event of that number.
Summaries of one start stand in the order of their numbers. -/
def le : Item → Item → Bool
  | summary a, summary b => a.le b
  | summary a, event e => a.start ≤ e.seq
  | event e, summary a => e.seq < a.start
  | event e, event e' => e.seq ≤ e'.seq

/-- Its message, if the model is to see one. -/
def message : Item → Option ChatMessage
  | summary r => some (summaryMessage r)
  | event e => projectEvent e

/-- The message, unless its event is hidden. -/
def shown (hidden : ℕ → Bool) (x : Item) : Option ChatMessage :=
  if hidden x.seq then none else x.message

theorem shown_eq_some {hidden : ℕ → Bool} {x : Item} :
    x.shown hidden = some m ↔ hidden x.seq = false ∧ x.message = some m := by
  cases gone : hidden x.seq <;> simp [shown, gone]

theorem sourceSeq_of_message {x : Item} (h : x.message = some m) : m.sourceSeq = x.seq := by
  cases x with
  | summary r => exact some.inj h ▸ rfl
  | event e => exact (source_of_projectEvent h).1

/-- Hiding more events takes their messages out. -/
theorem shown_or (hidden more : ℕ → Bool) (x : Item) :
    x.shown (fun n => hidden n || more n) = (x.shown hidden).filter fun m => !more m.sourceSeq := by
  cases read : x.message with
  | none => simp [shown, read]
  | some m =>
    have seq := sourceSeq_of_message read
    cases gone : hidden x.seq <;> cases hides : more x.seq <;>
      simp [shown, read, gone, seq, hides, Option.filter]

instance : Std.Total fun a b : Item => a.le b = true where
  total a b := by
    cases a <;> cases b <;> simp only [le, SummaryRange.le, decide_eq_true_eq] <;> omega

theorem le_trans {a b c : Item} : a.le b → b.le c → a.le c := by
  cases a <;> cases b <;> cases c <;> simp only [le, SummaryRange.le, decide_eq_true_eq] <;> omega

instance : IsTrans Item fun a b => a.le b = true where
  trans _ _ _ := le_trans

end Item

instance : Std.Total fun a b : SummaryRange => a.le b = true where
  total a b := Std.Total.total (r := fun a b : Item => a.le b) (.summary a) (.summary b)

instance : IsTrans SummaryRange fun a b => a.le b = true where
  trans a b c := Item.le_trans (a := .summary a) (b := .summary b) (c := .summary c)

theorem SummaryRange.start_le {a b : SummaryRange} (h : a.le b) : a.start ≤ b.start := by
  have order := of_decide_eq_true h
  omega

theorem lt_of_mem_dropWhile {n : ℤ} (sorted : ranges.Pairwise fun a b => a.le b)
    (mem : r ∈ ranges.dropWhile fun a => a.start ≤ n) : n < r.start := by
  induction ranges with
  | nil => cases mem
  | cons a ranges ih =>
    obtain ⟨least, sorted⟩ := pairwise_cons.mp sorted
    by_cases early : a.start ≤ n
    · rw [dropWhile_cons_of_pos (by simpa using early)] at mem
      exact ih sorted mem
    · rw [dropWhile_cons_of_neg (by simpa using early)] at mem
      rcases mem_cons.mp mem with rfl | mem
      · omega
      · have := start_le (least r mem)
        omega

theorem emitSummaries_eq (hidden : ℕ → Bool) (ranges : List SummaryRange) :
    emitSummaries hidden ranges = (ranges.map .summary).filterMap (Item.shown hidden) := by
  induction ranges with
  | nil => rfl
  | cons r ranges ih =>
    unfold emitSummaries at ih ⊢
    cases gone : hidden r.seq <;> simp [Item.shown, Item.message, Item.seq, gone, ih]

/-- The loop over the log merges the summaries and the events. -/
theorem projectLog_items {es : List SessionEvent}
    (numbers : es.Pairwise fun a b => a.seq < b.seq) (sorted : ranges.Pairwise fun a b => a.le b) :
    ∃ items : List Item, items.Perm (ranges.map .summary ++ es.map .event) ∧
      items.Pairwise (fun a b => a.le b) ∧
      ∀ hidden, projectLog hidden es ranges = items.filterMap (Item.shown hidden) := by
  induction es generalizing ranges with
  | nil =>
    exact ⟨ranges.map .summary, by simp, pairwise_map.mpr sorted, fun hidden =>
      emitSummaries_eq hidden ranges⟩
  | cons e es ih =>
    obtain ⟨later, numbers⟩ := pairwise_cons.mp numbers
    simp only [projectLog]
    have early := fun a => mem_takeWhile_imp (x := a)
      (p := fun r : SummaryRange => r.start ≤ (e.seq : ℤ)) (l := ranges)
    have late := fun a => lt_of_mem_dropWhile (r := a) (n := e.seq) sorted
    have split := takeWhile_append_dropWhile
      (p := fun r : SummaryRange => r.start ≤ (e.seq : ℤ)) (l := ranges)
    generalize ranges.takeWhile _ = now, ranges.dropWhile _ = rest at *
    subst split
    obtain ⟨first, last, _⟩ := pairwise_append.mp sorted
    obtain ⟨items, perm, pairwise, eq⟩ := ih numbers last
    -- what follows the event stands behind it
    have behind : ∀ x ∈ items, (Item.event e).le x := by
      intro x mem
      rcases mem_append.mp (perm.mem_iff.mp mem) with summary | event
      · obtain ⟨a, left, rfl⟩ := mem_map.mp summary
        exact decide_eq_true (late a left)
      · obtain ⟨e', next, rfl⟩ := mem_map.mp event
        exact decide_eq_true (later e' next).le
    refine ⟨now.map Item.summary ++ .event e :: items, ?_, pairwise_append.mpr
      ⟨pairwise_map.mpr first, pairwise_cons.mpr ⟨behind, pairwise⟩, ?_⟩, fun hidden => ?_⟩
    · rw [map_append, append_assoc]
      exact .append_left _ ((perm.cons _).trans perm_middle.symm)
    · intro x mem
      obtain ⟨a, started, rfl⟩ := mem_map.mp mem
      have own : (Item.summary a).le (.event e) := early a started
      exact forall_mem_cons.mpr ⟨own, fun y rest => Item.le_trans own (behind y rest)⟩
    · rw [emitSummaries_eq, eq, filterMap_append, filterMap_cons, append_assoc]
      congr 1
      cases gone : hidden e.seq with
      | true => simp [Item.shown, Item.seq, gone]
      | false => cases shown : projectEvent e <;>
          simp [Item.shown, Item.message, Item.seq, gone, shown]

/-! ## The recomputation -/

/-- The range of an event, if it has one, comes from its payload. -/
theorem summaryRange_eq_ok (h : summaryRange e = .ok (some r)) :
    ∃ d, e.payload = some (.contextSummary d) ∧ r = ⟨d.start.toInt, d.stop.toInt, e.seq, d⟩ := by
  unfold summaryRange at h
  split at h
  · split at h
    next d read =>
      cases h
      exact ⟨d, read, rfl⟩
    next => simp at h
  · simp at h

variable {es : List SessionEvent} {ranges : List SummaryRange}

theorem mem_summaryRanges (h : summaryRanges es = .ok ranges) (mem : r ∈ ranges) :
    ∃ (i : ℕ) (e : SessionEvent) (d : ContextSummaryData), es[i]? = some e ∧
      e.payload = some (.contextSummary d) ∧ r = ⟨d.start.toInt, d.stop.toInt, e.seq, d⟩ := by
  simp only [summaryRanges, bind_eq_ok, pure_eq_ok] at h
  obtain ⟨found, read, rfl⟩ := h
  have each := mapM_eq_ok.mp read
  have inside : some r ∈ found := by simpa [List.reduceOption] using mem
  obtain ⟨i, bound, here⟩ := mem_iff_getElem.mp inside
  have lengths := each.length_eq
  have own := List.Forall₂.get each (i := i) (by omega) bound
  simp only [get_eq_getElem, here] at own
  obtain ⟨d, payload, rfl⟩ := summaryRange_eq_ok own
  exact ⟨i, es[i], d, getElem?_eq_getElem _, payload, rfl⟩

theorem summaryRanges_append (es es' : List SessionEvent) : summaryRanges (es ++ es') = do
    return (← summaryRanges es) ++ (← summaryRanges es') := by
  simp only [summaryRanges, mapM_append]
  cases es.mapM summaryRange <;> cases es'.mapM summaryRange <;>
    simp [bind, Except.bind, pure, Except.pure, List.reduceOption]

/-- A log whose events are numbered from zero, with the ranges of its summaries. -/
structure Ranged (es : List SessionEvent) (ranges : List SummaryRange) : Prop where
  numbered : ∀ (i : ℕ) (e : SessionEvent), es[i]? = some e → e.seq = i
  read : summaryRanges es = .ok ranges
  proper : ∀ r ∈ ranges, r.start ≤ r.stop

/-- What the messages of a log come from, in their order. -/
def items (es : List SessionEvent) (ranges : List SummaryRange) : List Item :=
  (ranges.map Item.summary ++ es.map Item.event).insertionSort fun a b => a.le b

/-- Some range holds the number. -/
def hidden (ranges : List SummaryRange) (n : ℕ) : Bool := ranges.any (·.holds n)

/-- What the recomputation is to give: the messages of the summaries and of the events that
no range holds, in their order. -/
def derivation (es : List SessionEvent) (ranges : List SummaryRange) : List ChatMessage :=
  (items es ranges).filterMap (Item.shown (hidden ranges))

theorem mem_items {x : Item} : x ∈ items es ranges ↔
    (∃ r ∈ ranges, .summary r = x) ∨ ∃ e ∈ es, .event e = x := by
  simp [items]

namespace Ranged

/-- A number belongs to one event at most. -/
theorem event_eq (h : Ranged es ranges) {a b : SessionEvent} (ha : a ∈ es) (hb : b ∈ es)
    (same : a.seq = b.seq) : a = b := by
  obtain ⟨i, here⟩ := mem_iff_getElem?.mp ha
  obtain ⟨j, here'⟩ := mem_iff_getElem?.mp hb
  obtain rfl : i = j := by rw [← h.numbered i a here, ← h.numbered j b here', same]
  exact some.inj (here.symm.trans here')

/-- A number belongs to one range at most. -/
theorem range_eq (h : Ranged es ranges) {a b : SummaryRange} (ha : a ∈ ranges) (hb : b ∈ ranges)
    (same : a.seq = b.seq) : a = b := by
  obtain ⟨i, e, c, here, payload, rfl⟩ := mem_summaryRanges h.read ha
  obtain ⟨j, e', c', here', payload', rfl⟩ := mem_summaryRanges h.read hb
  obtain rfl := h.event_eq (mem_of_getElem? here) (mem_of_getElem? here') same
  obtain rfl : c = c' := by simpa [payload] using payload'
  rfl

/-- The order of the messages is the only one. -/
theorem items_eq (h : Ranged es ranges) {l : List Item}
    (perm : l.Perm (ranges.map .summary ++ es.map .event))
    (sorted : l.Pairwise fun a b => a.le b) : items es ranges = l := by
  refine List.Perm.eq_of_pairwise (fun a b ha hb le ge => ?_) (pairwise_insertionSort _ _) sorted
    ((perm_insertionSort _ _).trans perm.symm)
  replace hb : b ∈ items es ranges := (mem_insertionSort _).mpr (perm.mem_iff.mp hb)
  rcases mem_items.mp ha with ⟨r, mem, rfl⟩ | ⟨e, mem, rfl⟩ <;>
    rcases mem_items.mp hb with ⟨r', mem', rfl⟩ | ⟨e', mem', rfl⟩ <;>
    simp only [Item.le, SummaryRange.le, decide_eq_true_eq] at le ge
  · rw [h.range_eq mem mem' (by omega)]
  · omega
  · omega
  · rw [h.event_eq mem mem' (by omega)]

/-- **The recomputation is the sorted list** of the summaries and the events, without what
some range holds. -/
theorem fullDerive_eq (h : Ranged es ranges) : fullDerive es = .ok (derivation es ranges) := by
  have numbers : es.Pairwise fun a b => a.seq < b.seq := by
    refine pairwise_iff_getElem.mpr fun i j hi hj lt => ?_
    rwa [h.numbered i _ (getElem?_eq_getElem hi), h.numbered j _ (getElem?_eq_getElem hj)]
  have order := pairwise_insertionSort (fun a b : SummaryRange => a.le b) ranges
  have same := perm_insertionSort (fun a b : SummaryRange => a.le b) ranges
  obtain ⟨l, perm, sorted, eq⟩ := projectLog_items numbers order
  rw [derivation, h.items_eq (perm.trans ((same.map _).append_right _)) sorted]
  simp only [fullDerive, h.read, eq, bind_eq_ok, pure_eq_ok, Except.ok.injEq, exists_eq_left']
  congr 2
  funext n
  rw [eq_iff_iff, isShadowed_iff (fun r mem => h.proper r (same.mem_iff.mp mem))
    (order.imp start_le)]
  simp [InRange, hidden, holds]

end Ranged

/-- Every summary of the log covers only events before itself. -/
def PastSummaries (es : List SessionEvent) : Prop :=
  ∀ (i : ℕ) (e : SessionEvent) (d : ContextSummaryData), es[i]? = some e →
    e.payload = some (.contextSummary d) → d.start.toInt ≤ d.stop.toInt ∧ d.stop.toInt ≤ i

theorem getElem?_concat {e e' : SessionEvent} {i : ℕ} (h : (es ++ [e])[i]? = some e') :
    es[i]? = some e' ∨ (i = es.length ∧ e' = e) := by
  rcases Nat.lt_trichotomy i es.length with lt | rfl | gt
  · exact .inl (by rwa [getElem?_append_left lt] at h)
  · exact .inr ⟨rfl, by simpa using h.symm⟩
  · have none : (es ++ [e])[i]? = none := getElem?_eq_none (by simp; omega)
    simp [none] at h

/-! ## One more event -/

section Concat

variable (numbered : ∀ (i : ℕ) (e' : SessionEvent), es[i]? = some e' → e'.seq = i)
  (past : PastSummaries es) {out : List ChatMessage} (h : fullDerive es = .ok out)

include numbered past h

theorem exists_ranged : ∃ ranges, Ranged es ranges ∧ (∀ r ∈ ranges, r.stop < es.length) ∧
    derivation es ranges = out := by
  have found := h
  simp only [fullDerive, bind_eq_ok] at found
  obtain ⟨ranges, read, _⟩ := found
  have bounds : ∀ r ∈ ranges, r.start ≤ r.stop ∧ r.stop < es.length := by
    intro r mem
    obtain ⟨i, e, d, here, payload, rfl⟩ := mem_summaryRanges read mem
    have inside := (List.getElem?_eq_some_iff.mp here).1
    obtain ⟨proper, ends⟩ := past i e d here payload
    exact ⟨proper, by show d.stop.toInt < _; omega⟩
  have ranged : Ranged es ranges := ⟨numbered, read, fun r mem => (bounds r mem).1⟩
  exact ⟨ranges, ranged, fun r mem => (bounds r mem).2,
    Except.ok.inj (ranged.fullDerive_eq.symm.trans h)⟩

/-- A message stands for events of the log. -/
theorem inLog_of_fullDerive (mem : m ∈ out) :
    m.sourceSeq < es.length ∧ ∀ p ∈ m.provenance, p.sourceEnd.toInt < es.length := by
  obtain ⟨ranges, ranged, ends, rfl⟩ := exists_ranged numbered past h
  obtain ⟨x, inside, shown⟩ := mem_filterMap.mp mem
  have shown := (Item.shown_eq_some.mp shown).2
  have place : ∀ {i : ℕ} {e : SessionEvent}, es[i]? = some e → e.seq < es.length := fun here =>
    (numbered _ _ here).symm ▸ (List.getElem?_eq_some_iff.mp here).1
  rw [Item.sourceSeq_of_message shown]
  rcases mem_items.mp inside with ⟨r, old, rfl⟩ | ⟨e, old, rfl⟩
  · have stop := ends r old
    obtain ⟨i, e, d, here, payload, rfl⟩ := mem_summaryRanges ranged.read old
    cases shown
    refine ⟨place here, ?_⟩
    rintro p ⟨⟩
    exact stop
  · obtain ⟨i, here⟩ := mem_iff_getElem?.mp old
    exact ⟨place here, by simp [(source_of_projectEvent shown).2]⟩

variable (place : e.seq = es.length)

include place

/-- One more event stands behind all ranges. -/
theorem exists_ranged_concat {added : List SummaryRange} (own : summaryRanges [e] = .ok added)
    (proper : ∀ r ∈ added, r.start ≤ r.stop) :
    ∃ ranges, Ranged es ranges ∧ Ranged (es ++ [e]) (ranges ++ added) ∧
      derivation es ranges = out ∧ hidden ranges e.seq = false ∧
      (items es ranges ++ [Item.event e]).Pairwise fun a b => a.le b := by
  obtain ⟨ranges, ranged, ends, eq⟩ := exists_ranged numbered past h
  refine ⟨ranges, ranged, ⟨fun i e' here => ?_, ?_, ?_⟩, eq, ?_, pairwise_append.mpr
    ⟨pairwise_insertionSort _ _, pairwise_singleton _ _, fun x mem y last => ?_⟩⟩
  · rcases getElem?_concat here with old | ⟨rfl, rfl⟩
    · exact numbered i e' old
    · exact place
  · rw [summaryRanges_append, ranged.read, own]
    rfl
  · exact forall_mem_append.mpr ⟨ranged.proper, proper⟩
  · simp only [hidden, any_eq_false, holds, decide_eq_true_eq]
    intro r mem inside
    have := ends r mem
    omega
  · rw [mem_singleton.mp last]
    rcases mem_items.mp mem with ⟨r, old, rfl⟩ | ⟨e', old, rfl⟩
    · have := ranged.proper r old
      have := ends r old
      exact decide_eq_true (by omega)
    · obtain ⟨i, here⟩ := mem_iff_getElem?.mp old
      have := (List.getElem?_eq_some_iff.mp here).1
      have := numbered i e' here
      exact decide_eq_true (by omega)

/-- An event that is not a summary adds its own message to the recomputation. -/
theorem fullDerive_concat (other : e.kind ≠ .contextSummary) :
    fullDerive (es ++ [e]) = .ok (out ++ (projectEvent e).toList) := by
  have own : summaryRanges [e] = .ok [] := by
    simp [summaryRanges, summaryRange, other, pure, Except.pure]
    rfl
  obtain ⟨ranges, _, ranged, rfl, clear, sorted⟩ :=
    exists_ranged_concat numbered past h place own (by simp)
  rw [append_nil] at ranged
  have order := ranged.items_eq (l := items es ranges ++ [.event e]) (by
    rw [map_append, ← append_assoc]
    exact (perm_insertionSort _ _).append_right _) sorted
  rw [ranged.fullDerive_eq, derivation, order, filterMap_append, ← derivation]
  cases visible : projectEvent e <;> simp [Item.shown, Item.seq, clear, Item.message, visible]

/-- **A new summary.**  If every message is either in the range of the new summary, or
behind it with its own range behind it, the recomputation puts the new summary
before the messages that are behind. -/
theorem fullDerive_summary {d : ContextSummaryData} (kind : e.kind = .contextSummary)
    (payload : e.payload = some (.contextSummary d))
    (range : r = ⟨d.start.toInt, d.stop.toInt, e.seq, d⟩) (proper : r.start ≤ r.stop)
    (ends : r.stop < es.length)
    (apart : ∀ m ∈ out, r.holds m.sourceSeq ∨ (r.stop < (m.sourceSeq : ℤ) ∧
      ∀ p ∈ m.provenance, p.kind = go "summary" → r.stop < p.sourceStart.toInt)) :
    fullDerive (es ++ [e]) =
      .ok (summaryMessage r :: out.filter fun m => !r.holds m.sourceSeq) := by
  have own : summaryRanges [e] = .ok [r] := by
    simp [summaryRanges, summaryRange, kind, payload, range, pure, Except.pure]
    rfl
  obtain ⟨ranges, old, ranged, rfl, clear, sorted⟩ :=
    exists_ranged_concat numbered past h place own (by simpa using proper)
  have order : items (es ++ [e]) (ranges ++ [r]) = (items es ranges ++ [Item.event e]).orderedInsert
      (fun a b => a.le b) (.summary r) := by
    refine ranged.items_eq ((perm_orderedInsert ..).trans ?_) (sorted.orderedInsert _ _)
    refine (((perm_insertionSort _ _).append_right _).cons _).trans ?_
    simp only [map_append, append_assoc]
    exact perm_middle.symm
  -- the new range hides the messages it holds
  have view : hidden (ranges ++ [r]) = fun n => hidden ranges n || r.holds n := by
    funext n
    simp [hidden]
  have filtered : (items es ranges ++ [Item.event e]).filterMap
      (Item.shown (hidden (ranges ++ [r]))) =
      (derivation es ranges).filter fun m => !r.holds m.sourceSeq := by
    rw [derivation, filter_filterMap, view, funext (Item.shown_or _ _), filterMap_append]
    simp [Item.shown, Item.message, projectEvent, kind]
  -- what stands before the new summary is in its range or has no message
  have silent : ∀ x ∈ items es ranges ++ [Item.event e], (Item.summary r).le x = false →
      x.shown (hidden (ranges ++ [r])) = none := by
    intro x mem before
    rw [view, Item.shown_or, Option.filter_eq_none_iff]
    intro m shown
    have read := (Item.shown_eq_some.mp shown).2
    have seq := Item.sourceSeq_of_message read
    rcases mem_append.mp mem with inside | last
    · rcases apart m (mem_filterMap.mpr ⟨x, inside, shown⟩) with held | ⟨behind, rangeBehind⟩
      · simpa using held
      exfalso
      rcases mem_items.mp inside with ⟨a, earlier, rfl⟩ | ⟨e', _, rfl⟩
      · obtain ⟨_, _, c, _, _, rfl⟩ := mem_summaryRanges old.read earlier
        cases read
        have : r.stop < c.start.toInt := rangeBehind _ rfl rfl
        simp only [Item.le, SummaryRange.le, decide_eq_false_iff_not] at before
        omega
      · simp only [Item.le, Item.seq, decide_eq_false_iff_not] at before seq
        omega
    · rw [mem_singleton.mp last] at read
      simp [Item.message, projectEvent, kind] at read
  have nothing := filterMap_eq_nil_iff.mpr fun x mem => silent x
    ((takeWhile_sublist fun x => decide ¬(Item.summary r).le x).subset mem)
    (by simpa using mem_takeWhile_imp mem)
  have fresh : (Item.summary r).shown (hidden (ranges ++ [r])) = some (summaryMessage r) := by
    have outside : r.holds e.seq = false := decide_eq_false (by omega)
    have seq : r.seq = e.seq := by rw [range]
    simp [Item.shown_eq_some, view, Item.seq, seq, clear, outside, Item.message]
  rw [← takeWhile_append_dropWhile (p := fun x => decide ¬(Item.summary r).le x)
    (l := items es ranges ++ [Item.event e]), filterMap_append, nothing, nil_append] at filtered
  rw [ranged.fullDerive_eq, derivation, order, orderedInsert_eq_take_drop, filterMap_append,
    filterMap_cons, fresh, nothing, ← filtered]
  rfl

end Concat

end AutoAgent
