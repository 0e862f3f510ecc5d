import AutoAgent.Core.Compaction
import AutoAgent.Core.SessionInvariant
import AutoAgent.Lib.Window

/-!
# The fused projection against the plain one

`Compact` on the derived messages and the fused path both keep a suffix of the
messages and elide the same tool results in it.  The suffix starts at a user
message chosen by the same rule, the rule of `windowStart`, with one difference:
the plain path counts the newest message as a possible start and the fused path
does not, because its test `seen > 0` skips it.  The two paths therefore agree
except when the newest message is a user message and the window holds no other
(`LoneNewestUser`), in which case the plain path keeps that one message and the
fused path keeps at least two.
-/

namespace AutoAgent

open List
open RecentTurnsCompactor (compact)

/-- Message number `i` is a user message. -/
def isUserAt (ms : List ChatMessage) (i : ℕ) : Bool :=
  match ms[i]? with
  | some m => m.role == .user
  | none => false

theorem isUserAt_append_cons (pre : List ChatMessage) (m : ChatMessage) (rest : List ChatMessage) :
    isUserAt (pre ++ m :: rest) pre.length = (m.role == .user) := by
  simp [isUserAt]

theorem isUserAt_congr {ms ms' : List ChatMessage}
    (same : ms.map ChatMessage.role = ms'.map ChatMessage.role) : isUserAt ms = isUserAt ms' := by
  have roles : ∀ (ms : List ChatMessage) (i : ℕ),
      isUserAt ms i = (ms.map ChatMessage.role)[i]?.any (· == .user) := by
    intro ms i
    unfold isUserAt
    cases h : ms[i]? <;> simp [h]
  funext i
  rw [roles, roles, same]

/-! ## The plain path -/

namespace RecentTurnsCompactor

variable {max : ℤ} {ms : List ChatMessage}

/-- The loop of `windowTurns` computes the first mark of the window and the last
mark. -/
theorem boundaries_eq {m : ℕ} (hmax : max = m) (hn : m < ms.length) :
    ∀ (rest pre : List ChatMessage), ms = pre ++ rest → boundaries max ms.length pre.length rest
        (((marks (isUserAt ms) pre.length).find? fun i => ms.length ≤ i + m).getD 0,
          (marks (isUserAt ms) pre.length).getLast?.getD 0) =
        (((marks (isUserAt ms) ms.length).find? fun i => ms.length ≤ i + m).getD 0,
          (marks (isUserAt ms) ms.length).getLast?.getD 0) := by
  intro rest
  induction rest with
  | nil =>
    intro pre split
    have whole : pre = ms := by simpa using split.symm
    simp [boundaries, whole]
  | cons msg rest ih =>
    intro pre split
    have next := ih (pre ++ [msg]) (by simpa using split)
    have mark : isUserAt ms pre.length = (msg.role == .user) := by
      rw [split, isUserAt_append_cons]
    simp only [length_append, length_cons, length_nil, Nat.zero_add] at next
    rw [← next, boundaries, marks_succ, mark]
    by_cases user : msg.role = .user
    · have fits : (ms.length : ℤ) - pre.length ≤ max ↔ ms.length ≤ pre.length + m := by omega
      cases first : (marks (isUserAt ms) pre.length).find? fun i => decide (ms.length ≤ i + m) with
      | some l =>
        have low : ms.length ≤ l + m := by simpa using find?_some first
        have high := (mem_marks.mp (mem_of_find?_eq_some first)).1
        have inner : 0 < pre.length := by omega
        have nonzero : l ≠ 0 := by omega
        simp [user, inner, nonzero, find?_append, first]
      | none =>
        by_cases inner : 0 < pre.length
        · by_cases inside : ms.length ≤ pre.length + m <;>
            simp [user, inner, fits, inside, find?_append, first]
        · have zero : pre.length = 0 := by omega
          simp [user, zero, marks, hn]
    · simp [user]

/-- `windowTurns` keeps the window that may start at the newest message. -/
theorem windowTurns_eq_drop {c : RecentTurnsCompactor} {m : ℕ} (hmax : c.maxMessages = m)
    (hn : m < ms.length) :
    c.windowTurns ms = ms.drop (windowStart ms.length m (marks (isUserAt ms) ms.length)) := by
  have start := boundaries_eq hmax hn ms [] rfl
  simp only [length_nil, marks, range_zero, filter_nil, find?_nil,
    getLast?_nil, Option.getD_none] at start
  have long : ¬(ms.length : ℤ) ≤ c.maxMessages := by omega
  simp only [windowTurns, long, if_false, start, windowStart, marks]
  cases first : ((List.range ms.length).filter (isUserAt ms)).find?
      fun i => decide (ms.length ≤ i + m) with
  | none => simp
  | some l =>
    have low : ms.length ≤ l + m := by simpa using find?_some first
    have nonzero : l ≠ 0 := by omega
    simp [nonzero]

end RecentTurnsCompactor

/-! ## Elision -/

theorem lastUserIndex_concat (ms : List ChatMessage) (m : ChatMessage) :
    lastUserIndex (ms ++ [m]) = if m.role = .user then some ms.length else lastUserIndex ms := by
  simp [lastUserIndex, zipIdx_append]

theorem lastUserIndex_append (early late : List ChatMessage) : lastUserIndex (early ++ late) =
    ((lastUserIndex late).map (early.length + ·)).or (lastUserIndex early) := by
  induction late using List.reverseRecOn with
  | nil => simp [lastUserIndex]
  | append_singleton late m ih =>
    rw [← append_assoc, lastUserIndex_concat, lastUserIndex_concat, ih]
    split <;> simp

namespace RecentTurnsCompactor

variable {c : RecentTurnsCompactor} {ms : List ChatMessage}

@[simp] theorem elideMessage_role (m : ChatMessage) : (c.elideMessage m).role = m.role := by
  unfold elideMessage
  split <;> rfl

@[simp] theorem length_elideBefore (k : ℕ) : (c.elideBefore k ms).length = ms.length := by
  simp only [elideBefore, length_append, length_map, length_take, length_drop]
  omega

theorem isUserAt_elideBefore (k : ℕ) : isUserAt (c.elideBefore k ms) = isUserAt ms :=
  isUserAt_congr (by simp [elideBefore, comp_def])

theorem drop_elideBefore (early late : List ChatMessage) (k : ℕ) :
    (c.elideBefore (early.length + k) (early ++ late)).drop early.length =
      c.elideBefore k late := by
  simp [elideBefore, take_append, drop_append]

theorem pruneOldToolResults_eq (ms : List ChatMessage) :
    c.pruneOldToolResults ms = c.elideBefore ((lastUserIndex ms).getD 0) ms := by
  have zero : c.elideBefore 0 ms = ms := by simp [elideBefore]
  unfold pruneOldToolResults
  split
  next k h => rw [h]; rfl
  next h =>
    match last : lastUserIndex ms with
    | none => exact zero.symm
    | some 0 => exact zero.symm
    | some (k + 1) => exact absurd last (h k)

/-- Without a limit on tool results nothing is elided. -/
theorem pruneOldToolResults_of_off (off : c.maxToolResultChars ≤ 0) :
    c.pruneOldToolResults ms = ms := by
  have same : c.elideMessage = id := by
    funext m
    unfold elideMessage
    split <;> simp [elidedToolResult, off]
  simp [pruneOldToolResults_eq, elideBefore, same]

/-- Eliding commutes with dropping what lies before a user message. -/
theorem pruneOldToolResults_drop {k : ℕ} (h : k = 0 ∨ isUserAt ms k) :
    c.pruneOldToolResults (ms.drop k) = (c.pruneOldToolResults ms).drop k := by
  rcases h with rfl | user
  · simp
  · obtain ⟨m, here, role⟩ : ∃ m, ms[k]? = some m ∧ m.role = .user := by
      unfold isUserAt at user
      split at user
      next m here => exact ⟨m, here, by simpa using user⟩
      next => cases user
    -- the last user message is at `k` or after it
    obtain ⟨l, last⟩ : ∃ l, lastUserIndex (ms.drop k) = some l := by
      have starts : ms.drop k = [m] ++ ms.drop (k + 1) := drop_eq_getElem?_toList_append ▸ by
        rw [here]; rfl
      have own : lastUserIndex [m] = some 0 := by simp [lastUserIndex, role]
      rw [starts, lastUserIndex_append, own]
      exact isSome_iff_exists.mp (by simp)
    have size : (ms.take k).length = k :=
      length_take_of_le (Nat.le_of_lt (List.getElem?_eq_some_iff.mp here).1)
    have whole : lastUserIndex ms = some (k + l) := by
      rw [← take_append_drop k ms, lastUserIndex_append, last, size]
      rfl
    rw [pruneOldToolResults_eq, pruneOldToolResults_eq, last, whole]
    have dropped := drop_elideBefore (c := c) (ms.take k) (ms.drop k) l
    rw [size, take_append_drop] at dropped
    exact dropped.symm

end RecentTurnsCompactor

/-! ## The backward scan -/

/-- The model-visible events of a log. -/
def visible (es : List SessionEvent) : List SessionEvent := es.filter modelVisibleEvent

/-- Visible event number `i` is a user message. -/
def isUserEventAt (es : List SessionEvent) (i : ℕ) : Bool :=
  match (visible es)[i]? with
  | some e => e.kind == .userMessage
  | none => false

/-- The number of visible events before an event index. -/
def visibleBefore (es : List SessionEvent) (index : ℕ) : ℕ := (visible (es.take index)).length

/-- The scan variables after everything but `older` was scanned: the count, and the
newest and the oldest fitting of the `newer` user messages, the newest message
apart. -/
structure Scanned (es : List SessionEvent) (m : ℕ) (older : List SessionEvent)
    (scan : WindowScan) (newer : List ℕ) : Prop where
  seen : scan.seen + (visible older).length = (visible es).length
  users : marks (isUserEventAt es) ((visible es).length - 1) =
    marks (isUserEventAt es) (min (visible older).length ((visible es).length - 1)) ++
      newer.map (visibleBefore es)
  latest : scan.latestBoundary = newer.getLast?
  candidate : scan.candidate =
    newer.find? fun i => (visible es).length ≤ visibleBefore es i + m
  bound : ∀ i ∈ newer, i < es.length

/-- How the scan ends: it finds the start of the window that does not count the
newest message, or there is nothing to drop. -/
def ScanEnd (es : List SessionEvent) (m : ℕ) : ScanResult → Prop
  | .summary => False
  | .finished => (visible es).length ≤ m ∨ marks (isUserEventAt es) ((visible es).length - 1) = []
  | .exceeded scan => m < (visible es).length ∧
      ∃ first < es.length, scan.candidate.or scan.latestBoundary = some first ∧
        visibleBefore es first = windowStart (visible es).length m
          (marks (isUserEventAt es) ((visible es).length - 1))

variable {es : List SessionEvent} {m : ℕ}

/-- A scan that has counted more messages than the window holds has found its start. -/
theorem Scanned.exceeded {older : List SessionEvent} {scan : WindowScan} {newer : List ℕ}
    (h : Scanned es m older scan newer) (long : m < scan.seen) (found : newer ≠ []) :
    ScanEnd es m (.exceeded scan) := by
  have seen := h.seen
  have outside : ∀ i ∈ marks (isUserEventAt es)
      (min (visible older).length ((visible es).length - 1)), i + m < (visible es).length := by
    intro i mem
    have below := (mem_marks.mp mem).1
    omega
  have some : newer.map (visibleBefore es) ≠ [] := by simpa using found
  refine ⟨by omega, ?_⟩
  rw [h.users, windowStart_append outside some, windowStart, find?_map, getLast?_map,
    h.candidate, h.latest]
  simp only [comp_def]
  cases fits : newer.find? fun i => decide ((visible es).length ≤ visibleBefore es i + m) with
  | some first => exact ⟨first, h.bound first (mem_of_find?_eq_some fits), by simp, by simp⟩
  | none =>
    have last := getLast?_eq_some_getLast found
    exact ⟨_, h.bound _ (getLast_mem found), by simp [last], by simp [last]⟩

theorem visibleBefore_zero : visibleBefore es 0 = 0 := by
  simp [visibleBefore, visible]

theorem visibleBefore_append (pre suf : List SessionEvent) :
    visibleBefore (pre ++ suf) pre.length = (visible pre).length := by
  simp [visibleBefore]

variable {e : SessionEvent}

theorem isUserEventAt_append_cons (shown : modelVisibleEvent e) (pre suf : List SessionEvent) :
    isUserEventAt (pre ++ e :: suf) (visible pre).length = (e.kind == .userMessage) := by
  have split : visible (pre ++ e :: suf) = visible pre ++ e :: visible suf := by
    simp [visible, shown]
  simp [isUserEventAt, split]

section Step

variable {older suf : List SessionEvent} {scan : WindowScan} {newer : List ℕ}

/-- A hidden event leaves the scan as it is. -/
theorem Scanned.hidden (h : Scanned es m (e :: older) scan newer)
    (hidden : modelVisibleEvent e = false) : Scanned es m older scan newer := by
  have same : visible (e :: older) = visible older := by simp [visible, hidden]
  obtain ⟨seen, users, latest, candidate, bound⟩ := h
  rw [same] at seen users
  exact ⟨seen, users, latest, candidate, bound⟩

variable (place : es = older.reverse ++ e :: suf) (shown : modelVisibleEvent e)

include place in
theorem visibleBefore_older : visibleBefore es older.length = (visible older).length := by
  have count : (visible older.reverse).length = (visible older).length := by simp [visible]
  rw [place, ← count, ← visibleBefore_append older.reverse (e :: suf), length_reverse]

include shown in
theorem Scanned.seen_cons (h : Scanned es m (e :: older) scan newer) :
    scan.seen + 1 + (visible older).length = (visible es).length := by
  have seen := h.seen
  simp only [visible, filter_cons, shown, if_true, length_cons] at seen ⊢
  omega

include place shown

/-- A visible event adds its user message, unless it is the newest message. -/
theorem Scanned.users_cons (h : Scanned es m (e :: older) scan newer) :
    marks (isUserEventAt es) ((visible es).length - 1) =
      marks (isUserEventAt es) (min (visible older).length ((visible es).length - 1)) ++
        ((if e.kind = .userMessage ∧ 0 < scan.seen then [older.length] else []) ++ newer).map
          (visibleBefore es) := by
  have seen := h.seen_cons shown
  have step : (visible (e :: older)).length = (visible older).length + 1 := by
    simp [visible, shown]
  have mark : isUserEventAt es (visible older).length = (e.kind == .userMessage) := by
    have count : (visible older.reverse).length = (visible older).length := by simp [visible]
    rw [place, ← count, isUserEventAt_append_cons shown]
  rw [h.users, step, map_append, ← append_assoc]
  congr 1
  by_cases newest : scan.seen = 0
  · have same : min ((visible older).length + 1) ((visible es).length - 1) =
        min (visible older).length ((visible es).length - 1) := by omega
    simp [same, newest]
  · rw [Nat.min_eq_left (by omega), Nat.min_eq_left (by omega), marks_succ, mark]
    by_cases user : e.kind = .userMessage
    · simp [user, Nat.pos_of_ne_zero newest, visibleBefore_older place]
    · simp [user]

/-- A visible event that is no boundary is only counted. -/
theorem Scanned.counted (h : Scanned es m (e :: older) scan newer)
    (plain : ¬(e.kind = .userMessage ∧ 0 < scan.seen)) :
    Scanned es m older { scan with seen := scan.seen + 1 } newer := by
  have users := h.users_cons place shown
  rw [if_neg plain, nil_append] at users
  exact ⟨h.seen_cons shown, users, h.latest, h.candidate, h.bound⟩

/-- A boundary is the oldest fitting one exactly when it fits. -/
theorem Scanned.boundary (h : Scanned es m (e :: older) scan newer)
    (boundary : e.kind = .userMessage ∧ 0 < scan.seen) :
    Scanned es m older ⟨scan.seen + 1, scan.latestBoundary.or (some older.length),
      if scan.seen + 1 ≤ m then some older.length else scan.candidate⟩ (older.length :: newer) := by
  have users := h.users_cons place shown
  rw [if_pos boundary] at users
  have seen := h.seen_cons shown
  have here := visibleBefore_older place
  refine ⟨seen, users, ?_, ?_, forall_mem_cons.mpr ⟨by simp [place], h.bound⟩⟩
  · rw [h.latest, getLast?_cons]
    cases newer.getLast? <;> rfl
  · have same : scan.seen + 1 ≤ m ↔ (visible es).length ≤ visibleBefore es older.length + m := by
      omega
    by_cases fits : scan.seen + 1 ≤ m
    · simp [fits, same.mp fits]
    · simp [fits, mt same.mpr fits, h.candidate]

end Step

theorem scanWindow_spec {limit : ℤ} (hlimit : limit = m)
    (noSummary : ∀ e ∈ es, e.kind ≠ .contextSummary) :
    ∀ (older suf : List SessionEvent) (scan : WindowScan) (newer : List ℕ),
      es = older.reverse ++ suf → Scanned es m older scan newer → (m < scan.seen → newer = []) →
      ScanEnd es m (scanWindow limit older scan) := by
  subst hlimit
  intro older
  induction older with
  | nil =>
    intro suf scan newer split scanned running
    have seen : scan.seen = (visible es).length := scanned.seen
    simp only [scanWindow, ScanEnd]
    by_cases fits : (visible es).length ≤ m
    · exact .inl fits
    · have users := scanned.users
      rw [running (by omega)] at users
      exact .inr (by simpa [visible, marks] using users)
  | cons e older ih =>
    intro suf scan newer split scanned running
    have place : es = older.reverse ++ e :: suf := by simpa using split
    have known : e.kind ≠ .contextSummary := noSummary e (by simp [place])
    simp only [scanWindow, known, if_false]
    cases shown : modelVisibleEvent e with
    | false => exact ih (e :: suf) scan newer place (scanned.hidden shown) running
    | true =>
      simp only [not_true, if_false]
      by_cases boundary : e.kind = .userMessage ∧ 0 < scan.seen
      · have next := scanned.boundary place shown boundary
        simp only [boundary, and_self, decide_true, WindowScan.count, if_true, true_and]
        by_cases fits : scan.seen + 1 ≤ m
        · have counted : ¬(m : ℤ) < ((scan.seen + 1 : ℕ) : ℤ) := by omega
          have small : (scan.seen : ℤ) + 1 ≤ m := by omega
          rw [if_pos fits] at next
          simp only [small, not_true, if_false, counted, false_and]
          exact ih (e :: suf) _ _ place next fun long => absurd fits (by simpa using long)
        · have large : ¬(scan.seen : ℤ) + 1 ≤ m := by omega
          rw [if_neg fits] at next
          simp only [large, not_false_eq_true, if_true]
          exact next.exceeded (by simp only; omega) (by simp)
      · have next := scanned.counted place shown boundary
        simp only [boundary, decide_false, WindowScan.count, false_eq_true, if_false, false_and]
        by_cases exceeded : (m : ℤ) < ((scan.seen + 1 : ℕ) : ℤ) ∧ scan.latestBoundary.isSome
        · simp only [exceeded, and_self, if_true]
          refine next.exceeded (by simp only; omega) ?_
          rintro rfl
          simp [scanned.latest] at exceeded
        · simp only [exceeded, if_false]
          refine ih (e :: suf) _ _ place next fun long => ?_
          simp only at long
          have past : (m : ℤ) < (scan.seen : ℤ) + 1 := by omega
          simpa [scanned.latest, past] using exceeded

/-! ## The cache follows the log -/

/-- The role of the message of a visible event. -/
def roleOf : SessionEventType → ChatRole
  | .userMessage => .user
  | .assistantMessage => .assistant
  | _ => .tool

/-- The messages are those of the visible events, by role and source. -/
def Shape (ms : List ChatMessage) (es : List SessionEvent) : Prop :=
  ms.map (fun m => (m.role, m.sourceSeq)) = (visible es).map fun e => (roleOf e.kind, e.seq)

/-- Every model-visible event of the log can be decoded. -/
def Readable (es : List SessionEvent) : Prop :=
  ∀ e ∈ es, modelVisibleEvent e → e.payload.isSome

theorem projectEvent_eq_none (hidden : modelVisibleEvent e = false) :
    projectEvent e = none := by
  unfold projectEvent
  unfold modelVisibleEvent at hidden
  split <;> simp_all

theorem projectEvent_of_visible (shown : modelVisibleEvent e) (readable : e.payload.isSome) :
    ∃ m, projectEvent e = some m ∧ m.role = roleOf e.kind ∧ m.sourceSeq = e.seq := by
  obtain ⟨d, read⟩ := isSome_iff_exists.mp readable
  have fits := fits_of_decodeEvent read
  have kinds : e.kind = .userMessage ∨ e.kind = .assistantMessage ∨ e.kind = .toolResult := by
    simpa [modelVisibleEvent, or_assoc] using shown
  rcases kinds with kind | kind | kind <;> rw [kind] at fits <;>
    cases d <;> simp [EventData.fits] at fits <;>
    exact ⟨_, by simp [projectEvent, kind, read, projectData]; rfl, by rw [kind]; rfl, rfl⟩

variable {es : List SessionEvent}

/-- The full projection of a readable log has the shape of the log. -/
theorem shape_filterMap (readable : Readable es) :
    Shape (es.filterMap projectEvent) es := by
  induction es with
  | nil => rfl
  | cons e es ih =>
    have rest := ih fun e' mem => readable e' (mem_cons_of_mem _ mem)
    unfold Shape visible at rest ⊢
    cases shown : modelVisibleEvent e with
    | true =>
      obtain ⟨m, projected, role, seq⟩ := projectEvent_of_visible shown (readable e (by simp) shown)
      simp [projected, shown, role, seq, rest]
    | false => simp [projectEvent_eq_none shown, shown, rest]

/-- The projection cache agrees with the log. -/
structure CacheShape (s : Session) : Prop where
  summaries : s.summaryEvents = (s.events.filter (·.kind = .contextSummary)).length
  current : s.projValid → s.projCount = s.events.length ∧ s.projSummaries = s.summaryEvents
  shape : s.projValid → s.summaryEvents = 0 → Readable s.events → Shape s.projCache s.events

variable {data : Payload} {seq : ℕ}

/-- The message of a committed struct has the role and the source of its event. -/
theorem projectCommittedData_message {kind : SessionEventType} {m : ChatMessage}
    (h : projectCommittedData kind data seq = .message m) :
    (kind = .userMessage ∨ kind = .assistantMessage ∨ kind = .toolResult) ∧
      m.role = roleOf kind ∧ m.sourceSeq = seq := by
  unfold projectCommittedData at h
  split at h <;> cases h
  · exact ⟨.inl rfl, rfl, rfl⟩
  · exact ⟨.inr (.inl rfl), rfl, rfl⟩
  · exact ⟨.inr (.inr rfl), rfl, rfl⟩

/-- Only an event that is not visible leaves the cache as it is. -/
theorem modelVisibleEvent_of_invisible (h : projectCommittedData e.kind data seq = .invisible) :
    modelVisibleEvent e = false := by
  unfold projectCommittedData at h
  unfold modelVisibleEvent
  split at h <;> simp_all

variable {s : Session}

theorem cacheShape_commitEntry (p : PreparedEntry) (cache : CacheShape s) :
    CacheShape (s.commitEntry p) := by
  refine ⟨?_, fun valid => ?_, fun valid none readable => ?_⟩
  · rw [Session.commitEntry_summaryEvents, Session.commitEntry_events, cache.summaries]
    by_cases summary : p.kind = .contextSummary <;> simp [summary]
  · obtain ⟨other, live, count, _⟩ := Session.commitEntry_projection s p valid
    simp [other, count, (cache.current live).2]
  · obtain ⟨other, live, _, extended⟩ := Session.commitEntry_projection s p valid
    have none' : s.summaryEvents = 0 := by simpa [other] using none
    have before := cache.shape live none' fun e mem => readable e (by simp [mem])
    unfold Shape visible at before ⊢
    rcases extended with ⟨m, message, cached⟩ | ⟨hidden, cached⟩
    · obtain ⟨kinds, role, seq⟩ := projectCommittedData_message message
      have shown : modelVisibleEvent (s.nextEvent p) := by
        simpa [modelVisibleEvent, or_assoc] using kinds
      simp [cached, before, shown, role, seq]
    · have unseen : modelVisibleEvent (s.nextEvent p) = false :=
        modelVisibleEvent_of_invisible (e := s.nextEvent p) hidden
      simp [cached, before, unseen]

/-- Without summaries the full recomputation projects event by event. -/
theorem fullDerive_of_noSummary
    (noSummary : ∀ e ∈ es, e.kind ≠ .contextSummary) :
    fullDerive es = .ok (es.filterMap projectEvent) := by
  have ranges : summaryRanges es = .ok [] := by
    have read : es.mapM summaryRange = .ok (es.map fun _ => none) :=
      mapM_eq_ok.mpr (forall₂_map_right_iff.mpr (forall₂_same.mpr fun e mem => by
        simp [summaryRange, noSummary e mem]))
    simp [summaryRanges, read, List.reduceOption, bind, Except.bind, pure, Except.pure]
  have loop : ∀ es : List SessionEvent,
      projectLog (isShadowed []) es [] = es.filterMap projectEvent := by
    intro es
    induction es with
    | nil => rfl
    | cons e es ih =>
      have clear : isShadowed [] e.seq = false := by simp [isShadowed]
      cases projected : projectEvent e <;>
        simp [projectLog, emitSummaries, clear, ih, projected]
  simp [fullDerive, ranges, shadowIntervals, loop, bind, Except.bind, pure, Except.pure]

theorem noSummary_of_zero (cache : CacheShape s) (none : s.summaryEvents = 0) :
    ∀ e ∈ s.events, e.kind ≠ .contextSummary := by
  intro e mem summary
  have empty : s.events.filter (·.kind = .contextSummary) = [] :=
    length_eq_zero_iff.mp (cache.summaries.symm.trans none)
  have inside : e ∈ s.events.filter (·.kind = .contextSummary) :=
    mem_filter.mpr ⟨mem, by simpa using summary⟩
  simp [empty] at inside

theorem cacheShape_deriveMessages (cache : CacheShape s) :
    CacheShape s.deriveMessages.2 := by
  unfold Session.deriveMessages
  split
  · exact cache
  next stale =>
    split
    next delta =>
      -- a valid cache is never behind the log
      obtain ⟨live, _, _, behind⟩ := delta
      have := (cache.current live).1
      omega
    next =>
      split
      · exact cache
      next out derived =>
        refine ⟨cache.summaries, fun _ => ⟨rfl, rfl⟩, fun _ none readable => ?_⟩
        rw [fullDerive_of_noSummary (noSummary_of_zero cache none)] at derived
        cases derived
        exact shape_filterMap readable

theorem sessionSystem_cacheShape : sessionSystem.Invariant CacheShape := by
  refine sessionSystem_invariant (fun id b => ?_) (fun s p cache _ _ => ?_) (fun s => ?_)
  · exact ⟨rfl, fun _ => ⟨rfl, rfl⟩, fun _ _ _ => rfl⟩
  · exact cacheShape_commitEntry p cache
  · exact cacheShape_deriveMessages

/-! ## The kept messages -/

/-- The messages both paths project, before copying: the cache when it is valid,
the projected log otherwise. -/
def Session.baseMessages (s : Session) : List ChatMessage :=
  if s.projValid then s.projCache else s.events.filterMap projectEvent

theorem shape_baseMessages (cache : CacheShape s) (none : s.summaryEvents = 0)
    (readable : Readable s.events) : Shape s.baseMessages s.events := by
  unfold Session.baseMessages
  split
  next live => exact cache.shape live none readable
  next => exact shape_filterMap readable

theorem deriveMessages_eq_base (cache : CacheShape s) (none : s.summaryEvents = 0) :
    s.deriveMessages.1 = .ok (cloneChatMessages s.baseMessages) := by
  unfold Session.deriveMessages Session.baseMessages
  by_cases live : s.projValid
  · obtain ⟨count, sums⟩ := cache.current live
    simp [live, count, sums]
  · simp [live, fullDerive_of_noSummary (noSummary_of_zero cache none)]

variable {ms : List ChatMessage}

theorem Shape.length_eq (shape : Shape ms es) :
    ms.length = (visible es).length := by
  simpa using congrArg List.length shape

theorem visible_split (es : List SessionEvent) (first : ℕ) :
    visible es = visible (es.take first) ++ visible (es.drop first) := by
  simp only [visible, ← filter_append, take_append_drop]

/-- A message of a shaped list comes from an event of the log. -/
theorem exists_event_of_map_eq
    (h : ms.map (fun m => (m.role, m.sourceSeq)) = (visible es).map fun e => (roleOf e.kind, e.seq))
    {m : ChatMessage} (mem : m ∈ ms) : ∃ e ∈ es, e.seq = m.sourceSeq := by
  have image : (m.role, m.sourceSeq) ∈ (visible es).map fun e => (roleOf e.kind, e.seq) := by
    rw [← h]
    exact mem_map.mpr ⟨m, mem, rfl⟩
  obtain ⟨e, inside, same⟩ := mem_map.mp image
  exact ⟨e, (mem_filter.mp inside).1, (Prod.mk.inj same).2⟩

variable {first : ℕ}

/-- Selecting the messages from a sequence number on drops those of the earlier
events. -/
theorem filter_sourceSeq (log : LogInvariant s) (shape : Shape ms s.events)
    (place : s.events[first]? = some e) :
    ms.filter (fun m => e.seq ≤ m.sourceSeq) = ms.drop (visibleBefore s.events first) := by
  have here : e.seq = first := log.seq_eq place
  have split := visible_split s.events first
  unfold Shape at shape
  rw [split, map_append] at shape
  have takeShape := congrArg (List.take (visibleBefore s.events first)) shape
  have dropShape := congrArg (List.drop (visibleBefore s.events first)) shape
  rw [← map_take, take_left' (by simp [visibleBefore])] at takeShape
  rw [← map_drop, drop_left' (by simp [visibleBefore])] at dropShape
  conv_lhs => rw [← take_append_drop (visibleBefore s.events first) ms]
  rw [filter_append, filter_eq_nil_iff.mpr, filter_eq_self.mpr, nil_append]
  · intro m mem
    obtain ⟨e', inside, seq⟩ := exists_event_of_map_eq dropShape mem
    obtain ⟨i, bound, rfl⟩ := mem_drop_iff_getElem.mp inside
    have position := log.seq_eq (getElem?_eq_getElem (by omega : first + i < s.events.length))
    simp only [decide_eq_true_eq]
    omega
  · intro m mem
    obtain ⟨e', inside, seq⟩ := exists_event_of_map_eq takeShape mem
    obtain ⟨i, bound, rfl⟩ := mem_take_iff_getElem.mp inside
    have earlier : i < first ∧ i < s.events.length := Nat.lt_min.mp bound
    have position := log.seq_eq (getElem?_eq_getElem earlier.2)
    simp only [decide_eq_true_eq]
    omega

/-- Projecting the log from an event on drops the messages of the earlier ones. -/
theorem filterMap_drop (readable : Readable es) (first : ℕ) :
    (es.drop first).filterMap projectEvent =
      (es.filterMap projectEvent).drop (visibleBefore es first) := by
  have early : ((es.take first).filterMap projectEvent).length = visibleBefore es first :=
    (shape_filterMap fun e mem => readable e (mem_of_mem_take mem)).length_eq
  have split : es.filterMap projectEvent =
      (es.take first).filterMap projectEvent ++ (es.drop first).filterMap projectEvent := by
    rw [← filterMap_append, take_append_drop]
  rw [split, drop_left' early]

variable {c : RecentTurnsCompactor}

/-- The fused path keeps the messages from the first kept event on. -/
theorem fused_eq_prune (log : LogInvariant s) (cache : CacheShape s)
    (none : s.summaryEvents = 0) (readable : Readable s.events)
    (kept : s.firstKeptEvent c = some first) (inside : first < s.events.length ∨ first = 0)
    {maxCap : ℤ} (made : s.keptMessages c ≤ maxCap) :
    s.deriveRecentCompactedMessages maxCap c = .messages (c.pruneOldToolResults
      ((cloneChatMessages s.baseMessages).drop (visibleBefore s.events first))) := by
  have room : ¬maxCap < s.keptMessages c := by omega
  have summaryFree : (s.events.drop first).any (fun e => e.kind = .contextSummary) = false := by
    simpa using fun e mem => noSummary_of_zero cache none e (mem_of_mem_drop mem)
  unfold Session.deriveRecentCompactedMessages Session.baseMessages cloneChatMessages
  by_cases live : s.projValid
  · obtain ⟨count, sums⟩ := cache.current live
    have shape := cache.shape live none readable
    simp only [none, ne_eq, not_true, if_false, kept, room, live, count, sums, and_self, if_true]
    cases place : s.events[first]? with
    | some e => simp only [filter_sourceSeq log shape place, map_drop]
    | none =>
      have empty : visibleBefore s.events first = 0 := by
        have short := List.getElem?_eq_none_iff.mp place
        obtain rfl : first = 0 := by omega
        exact visibleBefore_zero
      simp [empty]
  · have dead : s.projValid = false := by simpa using live
    simp [none, kept, room, dead, summaryFree, filterMap_drop readable]

/-- The first kept event: the start of the window that does not count the newest
message. -/
theorem firstKeptEvent_spec {m : ℕ} (hmax : c.maxMessages = m)
    (hm : 0 < m) (noSummary : ∀ e ∈ s.events, e.kind ≠ .contextSummary) :
    ∃ first, s.firstKeptEvent c = some first ∧ (first < s.events.length ∨ first = 0) ∧
      visibleBefore s.events first =
        if (visible s.events).length ≤ m then 0
        else windowStart (visible s.events).length m
          (marks (isUserEventAt s.events) ((visible s.events).length - 1)) := by
  have start : Scanned s.events m s.events.reverse ⟨0, none, none⟩ [] := by
    have count : (visible s.events.reverse).length = (visible s.events).length := by simp [visible]
    refine ⟨by simp [count], ?_, rfl, rfl, by simp⟩
    rw [count, Nat.min_eq_right (by omega), map_nil, append_nil]
  have stop := scanWindow_spec hmax noSummary s.events.reverse [] _ _ (by simp) start (by simp)
  have positive : 0 < c.maxMessages := by omega
  unfold Session.firstKeptEvent
  simp only [positive, if_true]
  cases result : scanWindow c.maxMessages s.events.reverse ⟨0, none, none⟩ with
  | summary => simp [result, ScanEnd] at stop
  | finished =>
    rw [result] at stop
    refine ⟨0, rfl, .inr rfl, ?_⟩
    rw [visibleBefore_zero]
    split
    · rfl
    next long => rw [stop.resolve_left long]; rfl
  | exceeded scan =>
    rw [result] at stop
    obtain ⟨long, first, inside, found, count⟩ := stop
    refine ⟨first, by simp [found], .inl inside, ?_⟩
    rw [count, if_neg (by omega)]

/-- A user message of the projected list is a user event of the log. -/
theorem isUserAt_of_shape (shape : Shape ms es) :
    isUserAt ms = isUserEventAt es := by
  funext i
  have entry := congrArg (·[i]?) shape
  unfold isUserAt isUserEventAt
  cases hm : ms[i]? <;> cases he : (visible es)[i]? <;> simp [hm, he] at entry ⊢
  next m e =>
    rw [entry.1]
    cases e.kind <;> simp [roleOf]

/-! ## The theorem -/

/-- The newest message is a user message, the window is smaller than the history,
and the window holds no other user message. -/
def LoneNewestUser (c : RecentTurnsCompactor) (ms : List ChatMessage) : Prop :=
  0 < c.maxMessages ∧ c.maxMessages < ms.length ∧ isUserAt ms (ms.length - 1) ∧
    ∀ i, ms.length - c.maxMessages.toNat ≤ i → i < ms.length - 1 → isUserAt ms i = false

theorem compact_eq :
    c.compact ms = if 0 < c.maxMessages then c.windowTurns (c.pruneOldToolResults ms)
      else c.pruneOldToolResults ms := by
  unfold compact
  by_cases on : 0 < c.maxToolResultChars
  · simp [on]
  · have off : c.maxToolResultChars ≤ 0 := by omega
    simp [on, RecentTurnsCompactor.pruneOldToolResults_of_off off]

/-- On the message list: starting the window without counting the newest message
gives the plain result exactly when that message is not alone in the window. -/
theorem prune_drop_eq_compact_iff {m : ℕ}
    (hmax : c.maxMessages = m) (hm : 0 < m) :
    c.pruneOldToolResults (ms.drop (if ms.length ≤ m then 0
        else windowStart ms.length m (marks (isUserAt ms) (ms.length - 1)))) = c.compact ms ↔
      ¬LoneNewestUser c ms := by
  have positive : 0 < c.maxMessages := by omega
  have users : isUserAt (c.pruneOldToolResults ms) = isUserAt ms := by
    rw [RecentTurnsCompactor.pruneOldToolResults_eq, RecentTurnsCompactor.isUserAt_elideBefore]
  have size : (c.pruneOldToolResults ms).length = ms.length := by
    rw [RecentTurnsCompactor.pruneOldToolResults_eq, RecentTurnsCompactor.length_elideBefore]
  rw [compact_eq, if_pos positive]
  by_cases short : ms.length ≤ m
  · have whole : c.windowTurns (c.pruneOldToolResults ms) = c.pruneOldToolResults ms :=
      if_pos (by omega)
    simp only [short, if_true, drop_zero, whole, true_iff]
    rintro ⟨_, long, _⟩
    omega
  · have long : m < ms.length := by omega
    rw [RecentTurnsCompactor.windowTurns_eq_drop hmax (by omega), size, users, if_neg short,
      RecentTurnsCompactor.pruneOldToolResults_drop
        ((windowStart_mem _ _ _).imp_right fun mem => (mem_marks.mp mem).2)]
    have lone : LoneNewestUser c ms ↔ isUserAt ms (ms.length - 1) ∧
        ∀ j, ms.length - m ≤ j → j < ms.length - 1 → isUserAt ms j = false := by
      have cast : c.maxMessages.toNat = m := by omega
      have bound : c.maxMessages < ms.length := by omega
      simp only [LoneNewestUser, positive, bound, cast, true_and]
    rw [lone, ← windowStart_last_iff hm long]
    constructor
    · intro same
      -- both starts lie inside the list, so equal suffixes have equal starts
      have lengths := congrArg List.length same
      simp only [length_drop, size] at lengths
      have inside := windowStart_lt ms.length m (isUserAt ms) (by omega : 0 < ms.length)
      omega
    · intro same
      rw [same]

/-- A slice the runtime cannot make ends the fused path. -/
theorem fused_panics {maxCap : ℤ} (none : s.summaryEvents = 0)
    (kept : s.firstKeptEvent c = some first) (large : maxCap < s.keptMessages c) :
    s.deriveRecentCompactedMessages maxCap c = .panics := by
  simp [Session.deriveRecentCompactedMessages, none, kept, large]

/-- **The fused projection against the plain one.**  In every session without
summaries whose visible events can all be decoded, the fused path returns what
compacting the derived messages returns, if and only if the newest message is not a
user message that is alone in a window smaller than the history, and the runtime can
make a slice of the capacity the fused path asks for. -/
theorem fused_eq_compact_iff {s : Session} (reach : sessionSystem.Reachable s)
    (noSummary : ∀ e ∈ s.events, e.kind ≠ .contextSummary) (readable : Readable s.events)
    (c : RecentTurnsCompactor) (maxCap : ℤ) :
    ∃ ms, s.deriveMessages.1 = .ok ms ∧
      (s.deriveRecentCompactedMessages maxCap c = .messages (c.compact ms) ↔
        ¬LoneNewestUser c ms ∧ s.keptMessages c ≤ maxCap) := by
  have log := (sessionSystem_logInvariant.holds reach).1
  have cache := sessionSystem_cacheShape.holds reach
  have none : s.summaryEvents = 0 := by
    rw [cache.summaries, length_eq_zero_iff, filter_eq_nil_iff]
    simpa using noSummary
  refine ⟨_, deriveMessages_eq_base cache none, ?_⟩
  have shape := shape_baseMessages cache none readable
  have users : isUserAt (cloneChatMessages s.baseMessages) = isUserEventAt s.events := by
    rw [← isUserAt_of_shape shape]
    exact isUserAt_congr (by simp [cloneChatMessages, comp_def])
  have length : (cloneChatMessages s.baseMessages).length = (visible s.events).length := by
    rw [cloneChatMessages, length_map, shape.length_eq]
  obtain ⟨first, kept, inside, same⟩ : ∃ first, s.firstKeptEvent c = some first ∧
      (first < s.events.length ∨ first = 0) ∧
      (c.pruneOldToolResults ((cloneChatMessages s.baseMessages).drop
        (visibleBefore s.events first)) = c.compact (cloneChatMessages s.baseMessages) ↔
        ¬LoneNewestUser c (cloneChatMessages s.baseMessages)) := by
    by_cases positive : 0 < c.maxMessages
    · obtain ⟨m, hmax⟩ : ∃ m : ℕ, c.maxMessages = m := ⟨c.maxMessages.toNat, by omega⟩
      obtain ⟨first, kept, inside, count⟩ := firstKeptEvent_spec hmax (by omega) noSummary
      refine ⟨first, kept, inside, ?_⟩
      rw [count, ← length, ← users]
      exact prune_drop_eq_compact_iff hmax (by omega)
    · refine ⟨0, if_neg positive, .inr rfl, ?_⟩
      rw [visibleBefore_zero, drop_zero, compact_eq, if_neg positive]
      exact ⟨fun _ lone => positive lone.1, fun _ => rfl⟩
  by_cases made : s.keptMessages c ≤ maxCap
  · rw [fused_eq_prune log cache none readable kept inside made, FusedResult.messages.injEq, same]
    exact (and_iff_left made).symm
  · rw [fused_panics none kept (by omega)]
    constructor
    · rintro ⟨⟩
    · exact fun good => absurd good.2 made

/-- A conversation of three messages: a question, its answer and a second
question. -/
def threeMessageSession : Session :=
  ((Session.new (go "s")).appendBatch [
    ⟨go "r1", .userMessage, .typed (.userMessage ⟨go "first"⟩)⟩,
    ⟨go "r1", .assistantMessage, .typed (.assistantMessage ⟨go "answer", none, []⟩)⟩,
    ⟨go "r2", .userMessage, .typed (.userMessage ⟨go "second"⟩)⟩]).2

theorem reachable_threeMessageSession : sessionSystem.Reachable threeMessageSession :=
  .step (l := .append _) (.init ⟨_, rfl⟩) rfl

/-- With a window of three messages the two paths agree on the conversation. -/
theorem fused_eq_compact_three_messages :
    (∀ e ∈ threeMessageSession.events, e.kind ≠ .contextSummary) ∧
      ∃ ms, threeMessageSession.deriveMessages.1 = .ok ms ∧
        (threeMessageSession.deriveRecentCompactedMessages (2 ^ 40) ⟨3, 0⟩ =
          .messages (compact ⟨3, 0⟩ ms) ↔
            ¬LoneNewestUser ⟨3, 0⟩ ms ∧ threeMessageSession.keptMessages ⟨3, 0⟩ ≤ 2 ^ 40) :=
  ⟨by decide, fused_eq_compact_iff reachable_threeMessageSession (by decide)
    (by unfold Readable; decide) ⟨3, 0⟩ (2 ^ 40)⟩

/-- With a window of one message the plain path keeps the second question and the
fused path keeps all three messages; with a window of `1 << 50` the fused path
panics. -/
theorem fused_ne_compact_second_question :
    sessionSystem.Reachable threeMessageSession ∧
      (∀ e ∈ threeMessageSession.events, e.kind ≠ .contextSummary) ∧
      (¬∃ ms, threeMessageSession.deriveMessages.1 = .ok ms ∧
        threeMessageSession.deriveRecentCompactedMessages (2 ^ 40) ⟨1, 0⟩ =
          .messages (compact ⟨1, 0⟩ ms)) ∧
      threeMessageSession.deriveRecentCompactedMessages (2 ^ 40) ⟨2 ^ 50, 0⟩ = .panics := by
  refine ⟨reachable_threeMessageSession, by decide, ?_, rfl⟩
  rintro ⟨ms, derived, fused⟩
  have plain : threeMessageSession.deriveMessages.1.toOption.map
      (fun ms => (compact ⟨1, 0⟩ ms).length) = some 1 := by decide
  have kept : (threeMessageSession.deriveRecentCompactedMessages (2 ^ 40) ⟨1, 0⟩).length = 3 := by
    decide
  rw [derived] at plain
  rw [fused] at kept
  have one : (compact ⟨1, 0⟩ ms).length = 1 := by
    simpa [Except.toOption] using plain
  simp [FusedResult.length, one] at kept

end AutoAgent
