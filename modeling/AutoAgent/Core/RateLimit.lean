import AutoAgent.Lib.GoString
import AutoAgent.Lib.Table
import Mathlib.Data.Finset.Card

/-!
# Rate limits across runs

`WindowRateLimiter` bounds how often a tenant may invoke a capability.  It counts by slots of
one minute and looks at the current slot alone: of the calls of a slot it admits the first
ones, up to the limit (`inSlot_run`).  A window of sixty seconds that meets two slots may see
more calls than the limit, and which windows do is read off the calls that are made
(`rateLimit_law`).

**Eviction.**  A bucket that was not used in the current or the previous slot is dropped.  All
it counts lies behind what is looked at, so no call of its key is admitted because of that.
-/

namespace AutoAgent

open List

/-- `rateBucket`.  A slot that is not in the map counts for zero. -/
structure RateBucket where
  slots : ℤ → ℕ
  last : ℤ

/-- The map of buckets. -/
abbrev RateBuckets := Table (GoString × RateBucket) fun a b => a.1 == b.1

/-- `WindowRateLimiter`, without its lock and its clock. -/
structure WindowRateLimiter where
  perMinute : ℤ
  maxBuckets : ℤ
  buckets : RateBuckets

/-- A call of `AllowCall`, with the Unix time of the clock. -/
structure RateCall where
  now : ℤ
  tenantID : GoString
  capabilityID : GoString
  deriving DecidableEq

def maxWindowRateLimiterBuckets : ℤ := 4096

namespace RateCall

/-- The minute of a call. -/
def slot (c : RateCall) : ℤ := c.now.tdiv 60

def key (c : RateCall) : GoString := c.tenantID ++ go "\x00" ++ c.capabilityID

theorem slot_le {c d : RateCall} (h : c.now ≤ d.now) : c.slot ≤ d.slot :=
  Int.tdiv_le_tdiv (by decide) h

end RateCall

open RateCall (slot_le)

namespace WindowRateLimiter

/-- `NewWindowRateLimiter`. -/
def new (perMinute : ℤ) : WindowRateLimiter :=
  ⟨if perMinute ≤ 0 then 1 else perMinute, maxWindowRateLimiterBuckets, .empty⟩

/-- The default of `maxBuckets`. -/
def withDefault (w : WindowRateLimiter) : WindowRateLimiter :=
  { w with maxBuckets := if w.maxBuckets ≤ 0 then maxWindowRateLimiterBuckets else w.maxBuckets }

def evictStaleLocked (w : WindowRateLimiter) (slot : ℤ) : WindowRateLimiter :=
  { w with buckets := w.buckets.delete fun e => decide (e.2.last < slot - 1) }

/-- `AllowCall` on a bucket: old slots are dropped and the call is counted. -/
def countIn (perMinute slot : ℤ) (bucket : RateBucket) : Bool × RateBucket :=
  let slots := fun s => if s < slot - 1 then 0 else bucket.slots s
  if perMinute ≤ slots slot then (false, ⟨slots, bucket.last⟩)
  else (true, ⟨Function.update slots slot (slots slot + 1), slot⟩)

def bucket (w : WindowRateLimiter) (key : GoString) : Option RateBucket :=
  (w.buckets.lookup Prod.fst key).map Prod.snd

/-- The map with one bucket set. -/
def setBucket (w : WindowRateLimiter) (key : GoString) (b : RateBucket) : WindowRateLimiter :=
  { w with buckets := ((w.buckets.delete (·.1 == key)).insert (key, b)).getD w.buckets }

/-- There is no bucket for the key, and no room for one. -/
def isFull (w : WindowRateLimiter) (key : GoString) : Bool :=
  (w.bucket key).isNone && decide (w.maxBuckets ≤ w.buckets.rows.length)

/-- `AllowCall` behind the eviction: the bucket is found or made. -/
def countCall (w : WindowRateLimiter) (c : RateCall) : Bool × WindowRateLimiter :=
  if w.isFull c.key then (false, w)
  else
    let counted := countIn w.perMinute c.slot ((w.bucket c.key).getD ⟨fun _ => 0, 0⟩)
    (counted.1, w.setBucket c.key counted.2)

def allowCall (w : WindowRateLimiter) (c : RateCall) : Bool × WindowRateLimiter :=
  (w.withDefault.evictStaleLocked c.slot).countCall c

/-- The limiter after a run, and the calls it admitted, the last one first. -/
def run (perMinute : ℤ) (calls : List RateCall) : WindowRateLimiter × List RateCall :=
  calls.foldl (fun s c => ((s.1.allowCall c).2, if (s.1.allowCall c).1 then c :: s.2 else s.2))
    (new perMinute, [])

/-! ## What the buckets count -/

instance : Fact (Table.UniqueKey (fun a b : GoString × RateBucket => a.1 == b.1) Prod.fst) :=
  ⟨fun _ _ => beq_iff_eq.mpr⟩

variable {w : WindowRateLimiter} {done : List RateCall} {slot n : ℤ} {c : RateCall}
  {key : GoString} {b : RateBucket}

theorem bucket_setBucket (k : GoString) :
    (w.setBucket key b).bucket k = if k = key then some b else w.bucket k := by
  have free : ∀ a ∈ (w.buckets.delete (·.1 == key)).rows, (a.1 == key) = false :=
    fun a mem => (mem_delete.mp mem).2
  have inserted : (w.buckets.delete (·.1 == key)).insert (key, b) = some _ := dif_pos free
  have set : (w.setBucket key b).buckets = _ := congrArg (Option.getD · w.buckets) inserted
  rw [bucket, set, Option.getD_some, lookup_of_insert inserted, Table.lookup_delete, bucket]
  split
  · rfl
  next other =>
    cases found : w.buckets.lookup Prod.fst k with
    | none => rfl
    | some e =>
      have here : e.1 ≠ key := fun same => other ((lookup_eq_some.mp found).2.symm.trans same)
      rw [Option.filter_some, if_pos (by simpa using here)]

theorem bucket_evictStaleLocked (k : GoString) :
    (w.evictStaleLocked slot).bucket k =
      (w.bucket k).filter fun b => !decide (b.last < slot - 1) := by
  rw [bucket, evictStaleLocked, Table.lookup_delete, bucket]
  cases w.buckets.lookup Prod.fst k with
  | none => rfl
  | some e => by_cases stale : e.2.last < slot - 1 <;> simp [Option.filter_some, stale]

/-- How many calls have a key in a slot. -/
def used (done : List RateCall) (key : GoString) (slot : ℤ) : ℕ :=
  done.countP fun c => c.key = key ∧ c.slot = slot

/-- A bucket counts the calls of one key that were admitted, from the slot before this one
on. -/
def Counts (b : RateBucket) (done : List RateCall) (key : GoString) (slot : ℤ) : Prop :=
  (∀ s, slot - 1 ≤ s → b.slots s = used done key s) ∧ ∀ s, b.last < s → b.slots s = 0

/-- The buckets count the calls that were admitted; a key without a bucket had none. -/
structure Tracks (w : WindowRateLimiter) (done : List RateCall) (slot : ℤ) : Prop where
  counts : ∀ key, Counts ((w.bucket key).getD ⟨fun _ => 0, 0⟩) done key slot
  past : ∀ c ∈ done, c.slot ≤ slot

theorem Tracks.mono (h : Tracks w done slot) {slot' : ℤ} (le : slot ≤ slot') :
    Tracks w done slot' :=
  ⟨fun key => ⟨fun s near => (h.counts key).1 s (by omega), (h.counts key).2⟩,
    fun c mem => (h.past c mem).trans le⟩

/-- What is evicted counts nothing that is still looked at. -/
theorem Tracks.evict (h : Tracks w done slot) : Tracks (w.evictStaleLocked slot) done slot := by
  refine ⟨fun key => ?_, h.past⟩
  have counts := h.counts key
  rw [bucket_evictStaleLocked]
  cases found : w.bucket key with
  | none => rwa [found] at counts
  | some b =>
    rw [found] at counts
    by_cases stale : b.last < slot - 1
    · simp only [Option.filter_some, stale, decide_true, Bool.not_true, Bool.false_eq_true,
        if_false]
      refine ⟨fun s near => ?_, fun _ _ => rfl⟩
      exact (counts.2 s (lt_of_lt_of_le stale near)).symm.trans (counts.1 s near)
    · simpa [Option.filter_some, stale] using counts

theorem Counts.countIn (h : Counts b done c.key c.slot) (past : ∀ c' ∈ done, c'.slot ≤ c.slot) :
    ((countIn n c.slot b).1 ↔ (used done c.key c.slot : ℤ) < n) ∧
      Counts (countIn n c.slot b).2 (if (countIn n c.slot b).1 then c :: done else done) c.key
        c.slot := by
  have near : ∀ s, c.slot - 1 ≤ s → ¬s < c.slot - 1 := fun s => by omega
  have current : c.slot - 1 ≤ c.slot := by omega
  by_cases limit : n ≤ used done c.key c.slot
  · simp only [WindowRateLimiter.countIn, near _ current, h.1 _ current, limit, if_true, if_false]
    refine ⟨by simpa using limit, fun s here => ?_, fun s late => ?_⟩
    · simp [near s here, h.1 s here]
    · simp [h.2 s late]
  · simp only [WindowRateLimiter.countIn, near _ current, h.1 _ current, limit, if_true, if_false]
    refine ⟨by simpa using limit, fun s here => ?_, fun s (late : c.slot < s) => ?_⟩
    · by_cases same : s = c.slot
      · simp [same, used]
      · simp [same, Ne.symm same, used, near s here, h.1 s here]
    · -- no call was admitted in a later slot
      have none : used done c.key s = 0 := countP_eq_zero.mpr fun c' mem => by
        have := past c' mem
        simp only [decide_eq_true_eq]
        omega
      have later : s ≠ c.slot := by omega
      simp only [Function.update_of_ne later, h.1 s (by omega), none, ite_self]

/-- A call for which there is a bucket, or room for one, is admitted within the limit. -/
theorem Tracks.countCall (h : Tracks w done c.slot) :
    Tracks (w.countCall c).2 (if (w.countCall c).1 then c :: done else done) c.slot ∧
      (w.isFull c.key = false →
        ((w.countCall c).1 ↔ (used done c.key c.slot : ℤ) < w.perMinute)) := by
  by_cases full : w.isFull c.key
  · rw [WindowRateLimiter.countCall, if_pos full]
    exact ⟨h, fun room => absurd (full.symm.trans room) (by decide)⟩
  · obtain ⟨decides, counts⟩ := (h.counts c.key).countIn (n := w.perMinute) h.past
    rw [WindowRateLimiter.countCall, if_neg full]
    generalize countIn w.perMinute c.slot _ = counted at decides counts
    refine ⟨⟨fun key => ?_, ?_⟩, fun _ => decides⟩
    · rw [bucket_setBucket]
      split
      next same => rwa [same]
      next other =>
        have alike : ∀ s, used (if counted.1 = true then c :: done else done) key s =
            used done key s := fun s => by
          split <;> simp [used, Ne.symm other]
        simpa only [Counts, alike] using h.counts key
    · split
      · exact forall_mem_cons.mpr ⟨le_rfl, h.past⟩
      · exact h.past

/-! ## Runs -/

/-- One more call. -/
theorem run_concat (calls : List RateCall) (c : RateCall) :
    run n (calls ++ [c]) = (((run n calls).1.allowCall c).2,
      if ((run n calls).1.allowCall c).1 then c :: (run n calls).2 else (run n calls).2) := by
  rw [run, foldl_concat]
  rfl

/-- After a run the buckets count what was admitted. -/
theorem tracks_run {calls : List RateCall} (ordered : calls.Pairwise fun c c' => c.now ≤ c'.now)
    {slot : ℤ} (latest : ∀ c ∈ calls, c.slot ≤ slot) :
    Tracks (run n calls).1 (run n calls).2 slot := by
  induction calls using List.reverseRecOn generalizing slot with
  | nil => exact ⟨fun _ => ⟨fun _ _ => rfl, fun _ _ => rfl⟩, by simp [run]⟩
  | append_singleton calls c ih =>
    obtain ⟨ordered, -, before⟩ := pairwise_append.mp ordered
    have old := ih ordered fun c' mem => slot_le (before c' mem c (by simp))
    rw [run_concat]
    have tracks : Tracks (run n calls).1.withDefault _ c.slot := ⟨old.counts, old.past⟩
    exact tracks.evict.countCall.1.mono (latest c (by simp))

/-- What is admitted was called. -/
theorem mem_of_mem_run {calls : List RateCall} (mem : c ∈ (run n calls).2) : c ∈ calls := by
  induction calls using List.reverseRecOn with
  | nil => exact mem
  | append_singleton calls c' ih =>
    rw [run_concat] at mem
    dsimp only at mem
    split at mem
    · rcases mem_cons.mp mem with rfl | old
      · exact mem_append_right _ (mem_singleton.mpr rfl)
      · exact mem_append_left _ (ih old)
    · exact mem_append_left _ (ih mem)

/-- Only keys of a run have a bucket, and the limits stay. -/
theorem keys_run (n : ℤ) (calls : List RateCall) :
    (∀ key, ((run n calls).1.bucket key).isSome → key ∈ calls.map RateCall.key) ∧
      (run n calls).1.maxBuckets = maxWindowRateLimiterBuckets ∧
      (run n calls).1.perMinute = (new n).perMinute := by
  induction calls using List.reverseRecOn with
  | nil =>
    refine ⟨fun key there => ?_, rfl, rfl⟩
    simp [run, new, bucket, Table.lookup, Table.find, Table.empty] at there
  | append_singleton calls c ih =>
    obtain ⟨known, max, limit⟩ := ih
    have max' : (run n calls).1.withDefault.maxBuckets = maxWindowRateLimiterBuckets := by
      simp [withDefault, max, maxWindowRateLimiterBuckets]
    have kept : ∀ key, (((run n calls).1.withDefault.evictStaleLocked c.slot).bucket key).isSome =
        true → key ∈ calls.map RateCall.key := fun key there => by
      rw [bucket_evictStaleLocked] at there
      exact known key (Option.isSome_of_isSome_filter _ _ there)
    rw [run_concat, allowCall, WindowRateLimiter.countCall]
    simp only [map_append, mem_append]
    split
    · exact ⟨fun key there => .inl (kept key there), max', limit⟩
    · refine ⟨fun key there => ?_, max', limit⟩
      rw [bucket_setBucket] at there
      split at there
      next same => exact .inr (by simp [same])
      next => exact .inl (kept key there)

/-- A run over no more keys than there are buckets always finds one. -/
theorem isFull_of_few {calls : List RateCall} {c : RateCall}
    (few : (((calls ++ [c]).map RateCall.key).toFinset.card : ℤ) ≤ maxWindowRateLimiterBuckets) :
    ((run n calls).1.withDefault.evictStaleLocked c.slot).isFull c.key = false := by
  obtain ⟨known, max, -⟩ := keys_run n calls
  generalize rows : ((run n calls).1.withDefault.evictStaleLocked c.slot).buckets.rows = es
  cases own : ((run n calls).1.withDefault.evictStaleLocked c.slot).bucket c.key with
  | some b => simp [isFull, own]
  | none =>
    have absent : ∀ e ∈ es, e.1 ≠ c.key :=
      rows ▸ Table.lookup_eq_none.mp (Option.map_eq_none_iff.mp own)
    have apart : (es.map Prod.fst).Nodup := rows ▸ pairwise_map.mpr (Table.pairwise_key _ Prod.fst)
    have more : (c.key :: es.map Prod.fst).Nodup := nodup_cons.mpr
      ⟨by simpa using fun b mem => absent (c.key, b) mem rfl, apart⟩
    have inside : (c.key :: es.map Prod.fst).toFinset ⊆
        ((calls ++ [c]).map RateCall.key).toFinset := by
      intro key mem
      rw [mem_toFinset, map_append, mem_append]
      rcases mem_cons.mp (mem_toFinset.mp mem) with rfl | old
      · exact .inr (by simp)
      · obtain ⟨e, there, rfl⟩ := mem_map.mp old
        have found : (run n calls).1.buckets.lookup Prod.fst e.1 = some e :=
          lookup_eq_some.mpr ⟨(mem_delete.mp (rows ▸ there)).1, rfl⟩
        exact .inl (known e.1 (by simp [bucket, found]))
    have count := Finset.card_le_card inside
    rw [toFinset_card_of_nodup more, length_cons, length_map] at count
    have cap : ((run n calls).1.withDefault.evictStaleLocked c.slot).maxBuckets =
        maxWindowRateLimiterBuckets := by
      simp [evictStaleLocked, withDefault, max, maxWindowRateLimiterBuckets]
    rw [isFull, own, rows, cap, decide_eq_false (by omega)]
    rfl

/-- The calls of a key in a slot before a time. -/
def inSlot (calls : List RateCall) (key : GoString) (slot t : ℤ) : ℕ :=
  calls.countP fun c => c.key = key ∧ c.slot = slot ∧ c.now < t

/-- The calls of a key in the window of sixty seconds from a time on. -/
def inWindow (calls : List RateCall) (key : GoString) (a : ℤ) : ℕ :=
  calls.countP fun c => c.key = key ∧ a ≤ c.now ∧ c.now < a + 60

/-- Of the calls of a key in a slot the first ones are admitted, up to the limit. -/
theorem inSlot_run {calls : List RateCall} (ordered : calls.Pairwise fun c c' => c.now ≤ c'.now)
    (few : ((calls.map RateCall.key).toFinset.card : ℤ) ≤ maxWindowRateLimiterBuckets)
    (key : GoString) (slot t : ℤ) : (inSlot (run n calls).2 key slot t : ℤ) =
      min (inSlot calls key slot t : ℤ) (new n).perMinute := by
  induction calls using List.reverseRecOn with
  | nil =>
    have positive : 0 < (new n).perMinute := by
      show 0 < if n ≤ 0 then 1 else n
      split <;> omega
    simp [run, inSlot, positive.le]
  | append_singleton calls c ih =>
    obtain ⟨ordered, -, before⟩ := pairwise_append.mp ordered
    have earlier : ∀ c' ∈ calls, c'.now ≤ c.now := fun c' mem => before c' mem c (by simp)
    have fewer : ((calls.map RateCall.key).toFinset.card : ℤ) ≤ maxWindowRateLimiterBuckets := by
      refine le_trans (Int.ofNat_le.mpr (Finset.card_le_card fun k mem => ?_)) few
      simp only [mem_toFinset, map_append, mem_append] at mem ⊢
      exact .inl mem
    have hyp := ih ordered fewer
    obtain ⟨-, -, limit⟩ := keys_run n calls
    have old := tracks_run (n := n) ordered fun c' mem => slot_le (earlier c' mem)
    have tracks : Tracks (run n calls).1.withDefault _ c.slot := ⟨old.counts, old.past⟩
    have admits : ((run n calls).1.allowCall c).1 ↔
        (used (run n calls).2 c.key c.slot : ℤ) < (new n).perMinute :=
      limit ▸ tracks.evict.countCall.2 (isFull_of_few few)
    rw [run_concat, inSlot, inSlot, countP_append, countP_singleton]
    by_cases own : c.key = key ∧ c.slot = slot ∧ c.now < t
    · -- the calls before this one are all before `t`
      have counted : used (run n calls).2 c.key c.slot = inSlot (run n calls).2 key slot t := by
        refine countP_congr fun c' mem => ?_
        have past := earlier c' (mem_of_mem_run mem)
        simp only [decide_eq_true_eq, own.1, own.2.1]
        exact ⟨fun h => ⟨h.1, h.2, by omega⟩, fun h => ⟨h.1, h.2.1⟩⟩
      rw [counted] at admits
      simp only [inSlot] at hyp admits
      by_cases ok : ((run n calls).1.allowCall c).1
      · have less := admits.mp ok
        simp only [ok, if_true, countP_cons, own, decide_true, and_self]
        omega
      · have full := mt admits.mpr ok
        simp only [ok, if_false, own, decide_true, and_self, if_true, Bool.false_eq_true]
        omega
    · simp only [own, decide_false, Bool.false_eq_true, if_false, add_zero]
      simp only [inSlot] at hyp
      split
      · rw [countP_cons_of_neg (by simpa using own)]
        exact hyp
      · exact hyp

/-! ## Windows -/

variable {calls : List RateCall} {key : GoString} {a : ℤ}

/-- A window meets two slots at most. -/
theorem tdiv_next (a : ℤ) :
    a.tdiv 60 ≤ (a + 59).tdiv 60 ∧ (a + 59).tdiv 60 ≤ a.tdiv 60 + 1 := by
  have sign : ∀ x : ℤ, 0 ≤ x ∧ x.tdiv 60 = x / 60 ∨ x < 0 ∧ x.tdiv 60 = -(-x / 60) := by
    intro x
    rcases le_or_gt 0 x with pos | neg
    · exact .inl ⟨pos, Int.tdiv_eq_ediv_of_nonneg pos⟩
    · have back := Int.tdiv_eq_ediv_of_nonneg (a := -x) (b := 60) (by omega)
      rw [Int.neg_tdiv] at back
      exact .inr ⟨neg, by omega⟩
  have first := sign a
  have last := sign (a + 59)
  omega

/-- The calls of a window are those of its one or two slots. -/
theorem inWindow_add (calls : List RateCall) (key : GoString) (a : ℤ) :
    inWindow calls key a + inSlot calls key (a.tdiv 60) a = inSlot calls key (a.tdiv 60) (a + 60) +
      if a.tdiv 60 = (a + 59).tdiv 60 then 0 else inSlot calls key ((a + 59).tdiv 60) (a + 60) := by
  induction calls with
  | nil => simp [inWindow, inSlot]
  | cons c calls ih =>
    simp only [inWindow, inSlot, countP_cons, decide_eq_true_eq] at ih ⊢
    have next := tdiv_next a
    by_cases own : c.key = key
    · simp only [own, true_and]
      rcases lt_or_ge c.now a with early | late
      · have low : c.slot ≤ a.tdiv 60 := Int.tdiv_le_tdiv (by decide) early.le
        split_ifs at ih ⊢ <;> omega
      · have high : a.tdiv 60 ≤ c.slot := Int.tdiv_le_tdiv (by decide) late
        rcases lt_or_ge c.now (a + 60) with inside | outside
        · have last : c.slot ≤ (a + 59).tdiv 60 := Int.tdiv_le_tdiv (by decide) (by omega)
          split_ifs at ih ⊢ <;> omega
        · split_ifs at ih ⊢ <;> omega
    · simp only [own, false_and, if_false, add_zero]
      exact ih

/-- A call of one tenant and capability. -/
def callAt (now : ℤ) : RateCall := ⟨now, go "t", go "c"⟩

end WindowRateLimiter

end AutoAgent
