import AutoAgent.Core.ProjectionCache
import AutoAgent.Core.Queries
import Mathlib.Order.Bounds.Basic

/-!
# Cutting a log for a backtest

A backtest replays the first events of a recorded session.  A cut behind an event that a
later summary shadows would bring the event back, so `AdjustBacktestCutoff` moves the cut
to the start of each summary it excludes, until no excluded summary starts before it.

The messages of the part that is kept are then the messages of the whole log that come
from it (`adjustBacktestCutoff_spec`): both are the sorted list of what no range holds
(`derivation`), and no excluded range reaches below the cut.
-/

namespace AutoAgent

open List Session

/-! ## Model -/

/-- The error of `AdjustBacktestCutoff`: `cutoff would strip the summarized context prefix;
no consistent truncation point exists`. -/
inductive BacktestError where
  | stripped
  deriving DecidableEq

/-- The body of the inner loop: the cutoff after one event. -/
def adjustStep (cutoff : ℤ) (e : SessionEvent) : ℤ :=
  if e.kind = .contextSummary ∧ ¬(e.seq : ℤ) < cutoff then
    match e.data.decode ContextSummaryData.codec with
    | none => cutoff
    | some data => if data.start.toInt < cutoff then data.start.toInt else cutoff
  else cutoff

def adjustPass (events : List SessionEvent) (cutoff : ℤ) : ℤ := events.foldl adjustStep cutoff

theorem adjustStep_cases (cutoff : ℤ) (e : SessionEvent) : adjustStep cutoff e = cutoff ∨
    ∃ data, e.kind = .contextSummary ∧ e.data.decode ContextSummaryData.codec = some data ∧
      cutoff ≤ (e.seq : ℤ) ∧ adjustStep cutoff e = data.start.toInt ∧
      data.start.toInt < cutoff := by
  unfold adjustStep
  split
  next excluded =>
    split
    · exact .inl rfl
    next data read =>
      split
      next early => exact .inr ⟨data, excluded.1, read, by omega, rfl, early⟩
      next => exact .inl rfl
  next => exact .inl rfl

/-- A pass moves the cutoff down, to a start, or leaves it. -/
theorem adjustPass_lt (events : List SessionEvent) (cutoff : ℤ) :
    adjustPass events cutoff = cutoff ∨
      (adjustPass events cutoff < cutoff ∧ -2 ^ 63 ≤ adjustPass events cutoff) := by
  induction events generalizing cutoff with
  | nil => exact .inl rfl
  | cons e events ih =>
    have rest := ih (adjustStep cutoff e)
    rw [adjustPass, foldl_cons, ← adjustPass]
    rcases adjustStep_cases cutoff e with same | ⟨data, _, _, _, moved, lower⟩
    · rwa [same] at rest ⊢
    · have := data.start.le_toInt
      rw [moved] at rest ⊢
      omega

/-- The outer loop: passes, until one leaves the cutoff as it is. -/
def adjustLoop (events : List SessionEvent) (cutoff : ℤ) : ℤ :=
  if adjustPass events cutoff = cutoff then cutoff
  else adjustLoop events (adjustPass events cutoff)
termination_by (cutoff + 2 ^ 63).toNat
decreasing_by
  have := adjustPass_lt events cutoff
  omega

def adjustBacktestCutoff (events : List SessionEvent) (cutoff : ℤ) : Except BacktestError ℤ :=
  if cutoff ≤ 0 ∨ (events.length : ℤ) < cutoff then .ok events.length
  else if adjustLoop events cutoff ≤ 0 then .error .stripped
  else .ok (adjustLoop events cutoff)

/-! ## The greatest cutoff -/

variable {events : List SessionEvent} {cutoff : ℤ}

/-- No summary that the cutoff excludes starts before it. -/
def SafeCutoff (events : List SessionEvent) (cutoff : ℤ) : Prop :=
  ∀ e ∈ events, e.kind = .contextSummary → cutoff ≤ (e.seq : ℤ) →
    ∀ data, e.data.decode ContextSummaryData.codec = some data → cutoff ≤ data.start.toInt

/-- A safe cutoff below the current one is below what a pass makes of it. -/
theorem SafeCutoff.le_adjustPass {c : ℤ} (safe : SafeCutoff events c) (below : c ≤ cutoff) :
    c ≤ adjustPass events cutoff := by
  refine List.foldlRecOn events adjustStep below fun cutoff below e mem => ?_
  rcases adjustStep_cases cutoff e with same | ⟨data, kind, read, excluded, moved, _⟩
  · rwa [same]
  · rw [moved]
    exact safe e mem kind (below.trans excluded) data read

/-- A cutoff that a pass leaves is safe. -/
theorem safeCutoff_of_adjustPass (fixed : adjustPass events cutoff = cutoff) :
    SafeCutoff events cutoff := by
  have le : ∀ (events : List SessionEvent) (c : ℤ), adjustPass events c ≤ c := fun events c => by
    rcases adjustPass_lt events c with same | ⟨lower, _⟩ <;> omega
  intro e mem kind excluded data read
  obtain ⟨before, after, rfl⟩ := append_of_mem mem
  by_contra early
  -- the pass reaches the event with the cutoff it started from
  have parts : adjustPass (before ++ e :: after) cutoff =
      adjustPass after (adjustStep (adjustPass before cutoff) e) := by
    simp [adjustPass]
  have reached := le before cutoff
  have last := le after (adjustStep (adjustPass before cutoff) e)
  have step : adjustStep (adjustPass before cutoff) e ≤ data.start.toInt := by
    rw [adjustStep, if_pos ⟨kind, by omega⟩, read]
    simp only
    split <;> omega
  omega

theorem adjustLoop_isGreatest (events : List SessionEvent) (cutoff : ℤ) :
    IsGreatest {c | c ≤ cutoff ∧ SafeCutoff events c} (adjustLoop events cutoff) := by
  induction cutoff using adjustLoop.induct events with
  | case1 cutoff fixed =>
    rw [adjustLoop, if_pos fixed]
    exact ⟨⟨le_refl _, safeCutoff_of_adjustPass fixed⟩, fun c safe => safe.1⟩
  | case2 cutoff moves ih =>
    rw [adjustLoop, if_neg moves]
    obtain ⟨⟨below, safe⟩, greatest⟩ := ih
    have lower := adjustPass_lt events cutoff
    exact ⟨⟨by omega, safe⟩, fun c safe => greatest ⟨safe.2.le_adjustPass safe.1, safe.2⟩⟩

/-! ## The messages before a cutoff -/

/-- If no excluded range reaches below the cut, the messages of the part that is kept are those
of the whole that come from it. -/
theorem Ranged.derivation_take {ranges : List SummaryRange} (h : Ranged events ranges) (c : ℕ)
    (safe : ∀ r ∈ ranges, c ≤ r.seq → (c : ℤ) ≤ r.start) :
    ∃ kept, Ranged (events.take c) kept ∧ derivation (events.take c) kept =
      (derivation events ranges).filter fun m => decide (m.sourceSeq < c) := by
  have read := h.read
  rw [← take_append_drop c events, summaryRanges_append] at read
  simp only [bind_eq_ok, pure_eq_ok] at read
  obtain ⟨kept, readKept, cut, readCut, rfl⟩ := read
  have numbered : ∀ (i : ℕ) (e : SessionEvent), (events.take c)[i]? = some e → e.seq = i := by
    intro i e here
    rw [getElem?_take] at here
    split at here
    · exact h.numbered i e here
    · cases here
  have takeLow : ∀ e ∈ events.take c, e.seq < c := by
    intro e mem
    obtain ⟨i, here⟩ := mem_iff_getElem?.mp mem
    have bound := (List.getElem?_eq_some_iff.mp here).1
    rw [length_take] at bound
    have := numbered i e here
    omega
  have dropHigh : ∀ e ∈ events.drop c, ¬e.seq < c := by
    intro e mem
    obtain ⟨i, here⟩ := mem_iff_getElem?.mp mem
    rw [getElem?_drop] at here
    have := h.numbered _ e here
    omega
  have keptLow : ∀ r ∈ kept, r.seq < c := by
    intro r mem
    obtain ⟨i, e, d, here, _, rfl⟩ := mem_summaryRanges readKept mem
    exact takeLow e (mem_of_getElem? here)
  have cutHigh : ∀ r ∈ cut, ¬r.seq < c := by
    intro r mem
    obtain ⟨i, e, d, here, _, rfl⟩ := mem_summaryRanges readCut mem
    exact dropHigh e (mem_of_getElem? here)
  have ranged : Ranged (events.take c) kept := ⟨numbered, readKept,
    fun r mem => h.proper r (mem_append_left _ mem)⟩
  refine ⟨kept, ranged, ?_⟩
  have first : ∀ {α : Type} {seq : α → ℕ} {a b : List α}, (∀ x ∈ a, seq x < c) →
      (∀ x ∈ b, ¬seq x < c) → (a ++ b).filter (fun x => seq x < c) = a := by
    intro α seq a b low high
    rw [filter_append, filter_eq_self.mpr (by simpa using low),
      filter_eq_nil_iff.mpr (by simpa using high), append_nil]
  have order : items (events.take c) kept =
      (items events (kept ++ cut)).filter fun x => decide (x.seq < c) := by
    refine ranged.items_eq (((perm_insertionSort _ _).filter _).trans ?_)
      ((pairwise_insertionSort _ _).sublist filter_sublist)
    rw [filter_append, filter_map, filter_map]
    refine .of_eq (congrArg₂ (· ++ ·) (congrArg _ ?_) (congrArg _ ?_))
    · exact first keptLow cutHigh
    · exact (congrArg _ (take_append_drop c events).symm).trans (first takeLow dropHigh)
  rw [derivation, derivation, order, filterMap_filter, filter_filterMap]
  refine filterMap_congr fun x _ => ?_
  cases read : x.message with
  | none => simp [Item.shown, read]
  | some m =>
    have seq := Item.sourceSeq_of_message read
    by_cases early : x.seq < c
    · have same : hidden (kept ++ cut) x.seq = hidden kept x.seq := by
        have none : hidden cut x.seq = false := by
          simp only [hidden, any_eq_false, SummaryRange.holds, decide_eq_true_eq]
          intro r mem inside
          have := safe r (mem_append_right _ mem) (Nat.le_of_not_lt (cutHigh r mem))
          omega
        rw [hidden, any_append, ← hidden, ← hidden, none, Bool.or_false]
      cases gone : hidden kept x.seq <;>
        simp [Item.shown, read, same, gone, seq, early, Option.filter]
    · cases gone : hidden (kept ++ cut) x.seq <;>
        simp [Item.shown, read, gone, seq, early, Option.filter]

/-! ## Loaded logs -/

theorem Session.Loadable.numbered {s : Session} (h : s.Loadable events) :
    ∀ (i : ℕ) (e : SessionEvent), events[i]? = some e → e.seq = s.events.length + i := by
  induction events generalizing s with
  | nil => simp
  | cons e events ih =>
    intro i e' here
    cases i with
    | zero =>
      cases here
      exact h.1.1
    | succ i =>
      rw [ih h.2 i e' here, commitEntry_events, length_append, length_singleton]
      omega

theorem exists_summaryRanges (h : ∀ e ∈ events, ∃ r, summaryRange e = .ok r) :
    ∃ ranges, summaryRanges events = .ok ranges := by
  induction events with
  | nil => exact ⟨[], rfl⟩
  | cons e events ih =>
    obtain ⟨⟨r, own⟩, rest⟩ := forall_mem_cons.mp h
    obtain ⟨ranges, read⟩ := ih rest
    have first : summaryRanges [e] = .ok r.toList := by
      cases r <;> simp [summaryRanges, own, bind, Except.bind, pure, Except.pure, List.reduceOption]
    rw [← singleton_append, summaryRanges_append, first, read]
    exact ⟨_, rfl⟩

theorem kind_of_summary {e : SessionEvent} {d : ContextSummaryData}
    (h : e.payload = some (.contextSummary d)) : e.kind = .contextSummary := by
  simpa [EventData.kinds] using kind_mem h

theorem exists_ranged_of_restore {id : GoString} {s : Session}
    (loads : restore id events = .ok s) : ∃ ranges, Ranged events ranges := by
  obtain ⟨_, loadable, _⟩ := restore_eq_ok.mp loads
  have checked := (events_commitEvents loadable).2
  have each : ∀ e ∈ events, ∃ r, summaryRange e = .ok r := fun e mem => by
    obtain ⟨d, read, -⟩ := (validateSessionEvent_spec (checked e mem)).2
    have payload : e.payload = some d := read
    have kinds := kind_mem payload
    unfold summaryRange
    split
    next summary =>
      rw [summary] at kinds
      cases d <;> simp [EventData.kinds] at kinds
      rw [payload]
      exact ⟨_, rfl⟩
    next => exact ⟨_, rfl⟩
  obtain ⟨ranges, read⟩ := exists_summaryRanges each
  refine ⟨ranges, fun i e here => ?_, read, fun r mem => ?_⟩
  · simpa [blank, Session.new] using loadable.numbered i e here
  · obtain ⟨i, e, d, here, payload, rfl⟩ := mem_summaryRanges read mem
    exact proper_of_valid ((acceptable_toEntry (checked e (mem_of_getElem? here))).payload_valid
      payload)

/-- **The full derivation.**  For every log that can be loaded, the messages are those of the
summaries and of the events that no range of a summary holds, each once: an event at its number,
a summary where its range starts and before the event of that number, summaries of one start in
the order of their own numbers. -/
theorem deriveMessages_eq_derivation {id : GoString} {s : Session}
    (loads : restore id events = .ok s) :
    ∃ ranges, summaryRanges events = .ok ranges ∧
      s.deriveMessages.1 = .ok (cloneChatMessages (derivation events ranges)) := by
  obtain ⟨ranges, ranged⟩ := exists_ranged_of_restore loads
  refine ⟨ranges, ranged.read, ?_⟩
  rw [deriveMessages_restored loads, ranged.fullDerive_eq]
  rfl

/-- The log of a question, its summary and a second question can be loaded. -/
theorem exists_restore_summarised :
    ∃ s, restore (go "s") (summarisedSession 0).events = .ok s :=
  exists_of_isOk (by decide)

/-- A question with its summary, and a second question. -/
theorem deriveMessages_eq_derivation_summarised :
    ∃ s ranges, restore (go "s") (summarisedSession 0).events = .ok s ∧
      summaryRanges (summarisedSession 0).events = .ok ranges ∧
      s.deriveMessages.1 = .ok (cloneChatMessages
      (derivation (summarisedSession 0).events ranges)) := by
  obtain ⟨s, loads⟩ := exists_restore_summarised
  obtain ⟨ranges, read, derived⟩ := deriveMessages_eq_derivation loads
  exact ⟨s, ranges, loads, read, derived⟩

theorem Ranged.safe_of_safeCutoff {ranges : List SummaryRange} (h : Ranged events ranges) {c : ℕ}
    (safe : SafeCutoff events c) : ∀ r ∈ ranges, c ≤ r.seq → (c : ℤ) ≤ r.start := by
  intro r mem excluded
  obtain ⟨i, e, d, here, payload, rfl⟩ := mem_summaryRanges h.read mem
  have kind := kind_of_summary payload
  have decoded : e.data.decode ContextSummaryData.codec = some d := by
    simpa [SessionEvent.payload, decodeEvent, kind] using payload
  exact safe e (mem_of_getElem? here) kind (by exact_mod_cast excluded) d decoded

/-- **The cutoff of a backtest.**  A request within the log is answered with the greatest cutoff
not above it for which no excluded summary starts before the cutoff, or refused if that is not
positive; any other request keeps the whole log.  The messages of the events before the answer
are the messages of the whole log that come from them. -/
theorem adjustBacktestCutoff_spec (events : List SessionEvent) (request : ℤ) :
    (request ≤ 0 ∨ (events.length : ℤ) < request →
      adjustBacktestCutoff events request = .ok events.length) ∧
    (0 < request → request ≤ events.length → ∃ c,
      IsGreatest {c | c ≤ request ∧ SafeCutoff events c} c ∧
      adjustBacktestCutoff events request = if c ≤ 0 then .error .stripped else .ok c) ∧
    ∀ c id s, restore id events = .ok s → adjustBacktestCutoff events request = .ok c →
      ∃ out, fullDerive events = .ok out ∧ fullDerive (events.take c.toNat) =
        .ok (out.filter fun m => (m.sourceSeq : ℤ) < c) := by
  refine ⟨fun outside => if_pos outside, fun positive within => ?_, fun c id s loads answer => ?_⟩
  · exact ⟨_, adjustLoop_isGreatest events request, if_neg (by omega)⟩
  · obtain ⟨ranges, ranged⟩ := exists_ranged_of_restore loads
    have safe : 0 ≤ c ∧ SafeCutoff events c := by
      unfold adjustBacktestCutoff at answer
      split at answer
      · cases answer
        refine ⟨by omega, fun e mem _ excluded => ?_⟩
        obtain ⟨i, here⟩ := mem_iff_getElem?.mp mem
        have := ranged.numbered i e here
        have := (List.getElem?_eq_some_iff.mp here).1
        omega
      · split at answer
        · cases answer
        next positive =>
          cases answer
          exact ⟨by omega, (adjustLoop_isGreatest events request).1.2⟩
    obtain ⟨c, rfl⟩ := Int.eq_ofNat_of_zero_le safe.1
    obtain ⟨kept, prefixRanged, same⟩ := ranged.derivation_take c (ranged.safe_of_safeCutoff safe.2)
    refine ⟨_, ranged.fullDerive_eq, ?_⟩
    simp only [Int.toNat_natCast, Int.ofNat_lt]
    rw [prefixRanged.fullDerive_eq, same]

/-- The log may be cut behind the summary. -/
theorem adjustBacktestCutoff_spec_behind_summary :
    (∃ c, IsGreatest {c | c ≤ 2 ∧ SafeCutoff (summarisedSession 0).events c} c ∧
      adjustBacktestCutoff (summarisedSession 0).events 2 =
        if c ≤ 0 then .error .stripped else .ok c) ∧
    ∃ out, fullDerive (summarisedSession 0).events = .ok out ∧
      fullDerive ((summarisedSession 0).events.take 3) =
        .ok (out.filter fun m => (m.sourceSeq : ℤ) < 3) := by
  obtain ⟨s, loads⟩ := exists_restore_summarised
  exact ⟨(adjustBacktestCutoff_spec _ 2).2.1 (by decide) (by decide),
    (adjustBacktestCutoff_spec _ 0).2.2 3 _ _ loads (if_pos (.inl (le_refl _)))⟩

/-- The request for no event is answered with the whole log. -/
theorem adjustBacktestCutoff_zero :
    (∃ s, restore (go "s") (summarisedSession 0).events = .ok s) ∧
      ∃ c, adjustBacktestCutoff (summarisedSession 0).events 0 = .ok c ∧
        ¬IsGreatest {c | c ≤ 0 ∧ SafeCutoff (summarisedSession 0).events c} c :=
  ⟨exists_restore_summarised, 3, if_pos (.inl (le_refl _)),
    fun greatest => absurd greatest.1.1 (by decide)⟩

end AutoAgent
