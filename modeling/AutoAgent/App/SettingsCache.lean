import AutoAgent.Lib.Transition
import Mathlib.Order.Nat

/-!
# The cache of the model settings

`CachedRepository` reads through to a repository and keeps what it read for a while.  Any
number of goroutines call `Load`, `Save` and `CreateIfAbsent`; a step is what one of them does
while it holds `mu`, or one call of the repository, whose operations are atomic.  What is read
carries the contents that the repository had had by then, which orders the values by age.

The clock may show any time at any reading.
-/

namespace AutoAgent.SettingsCache

open List

/-- `defaultRepositoryCacheTTL`, in nanoseconds. -/
def defaultRepositoryCacheTTL : ℕ := 5000000000

variable {ι V : Type} [DecidableEq ι] {normalize : V → Option V}

/-- What a call reads or writes: a value, absent if there was none, and the contents of the
repository up to the one the value is, the latest first.  A value from a `Load` has been
normalized once more. -/
structure Reading (normalize : V → Option V) where
  contents : List (Option V)
  value : Option V
  shows : contents.head?.join = value ∨ contents.head?.join.mapM normalize = some value

structure CacheEntry (normalize : V → Option V) where
  reading : Reading normalize
  expires : ℕ

/-- Where a goroutine is. -/
inductive Place (normalize : V → Option V) where
  | idle
  /-- In `Load`, at the top of the loop: a wait or a read that came too late has ended. -/
  | again
  /-- In `Load` with the time read, before the lock. -/
  | looking (now : ℕ)
  /-- In `Load` with `loadEpoch`, before and after the repository's `Load`. -/
  | fetching (loadEpoch : ℕ)
  | fetched (loadEpoch : ℕ) (result : Option (Reading normalize))
  /-- In `Save` or `CreateIfAbsent` under `mutationMu`, before and after the repository's
  call.  Nothing is stored by a call that fails or creates nothing. -/
  | storing (creates : Bool) (copyOf : V)
  | stored (result : Option (Reading normalize))

/-- The cache, its repository and its callers.  A channel is named by the goroutine that made
it, and a lock by the one that holds it. -/
structure CachedRepository (ι : Type) (normalize : V → Option V) where
  contents : List (Option V)
  entry : Option (CacheEntry normalize)
  load : Option ι
  /-- `uint64` in the source, where it wraps around only after 2^64 mutations. -/
  epoch : ℕ
  mutationMu : Option ι
  place : ι → Place normalize
  /-- What completed calls have returned or stored, the latest first.  A call is recorded
  before it returns and after it began. -/
  completed : List (ι × Reading normalize)

namespace CachedRepository

section

variable (s : CachedRepository ι normalize) (p : ι)

def goto (place : Place normalize) : CachedRepository ι normalize :=
  { s with place := Function.update s.place p place }

/-- A call ends, with a result unless it fails. -/
def complete (result : Option (Reading normalize)) : CachedRepository ι normalize :=
  { s.goto p .idle with completed := result.toList.map (p, ·) ++ s.completed }

inductive Step : CachedRepository ι normalize → Prop where
  | enter {now} (at_ : s.place p = .idle ∨ s.place p = .again) : Step (s.goto p (.looking now))
  | hit {now e} (at_ : s.place p = .looking now) (valid : s.entry = some e)
      (fresh : now < e.expires) : Step (s.complete p e.reading)
  -- The end of the wait is not tied to the channel, so a waiter may look again at any time.
  | wait {now} (at_ : s.place p = .looking now) (miss : ∀ e ∈ s.entry, e.expires ≤ now)
      (busy : s.load ≠ none) : Step (s.goto p .again)
  | cancel (at_ : s.place p = .again) : Step (s.goto p .idle)
  | miss {now} (at_ : s.place p = .looking now) (miss : ∀ e ∈ s.entry, e.expires ≤ now)
      (free : s.load = none) : Step { s.goto p (.fetching s.epoch) with load := some p }
  | fetch {e result} (at_ : s.place p = .fetching e) (read : ∀ r ∈ result,
      r.contents = s.contents ∧ s.contents.head?.join.mapM normalize = some r.value) :
      Step (s.goto p (.fetched e result))
  | overtaken {e result} (at_ : s.place p = .fetched e result) (changed : s.epoch ≠ e) :
      Step { s.goto p .again with load := none }
  | finish {now result} (at_ : s.place p = .fetched s.epoch result) :
      Step { s.complete p result with
        load := none, entry := result.map (⟨·, now + defaultRepositoryCacheTTL⟩) }
  | mutate {creates value copyOf} (at_ : s.place p = .idle)
      (normal : normalize value = some copyOf) (free : s.mutationMu = none) :
      Step { s.goto p (.storing creates copyOf) with mutationMu := some p }
  | store {creates copyOf} (at_ : s.place p = .storing creates copyOf)
      (absent : creates → s.contents.head?.join = none) :
      Step { s.goto p (.stored (some ⟨some copyOf :: s.contents, some copyOf, .inl rfl⟩)) with
        contents := some copyOf :: s.contents }
  -- An error may come before or after the value is written.
  | storeFails {creates copyOf contents} (at_ : s.place p = .storing creates copyOf)
      (kept : contents = s.contents ∨ contents = some copyOf :: s.contents) :
      Step { s.goto p (.stored none) with contents }
  | publish {now result} (at_ : s.place p = .stored result) :
      Step { s.complete p result with
        mutationMu := none, epoch := s.epoch + 1
        entry := result.map (⟨·, now + defaultRepositoryCacheTTL⟩) }

/-- These contents of the repository are no older than the cache and what calls returned. -/
structure Latest (seen : List (Option V)) : Prop where
  suffix : seen <:+ s.contents
  completed : ∀ c ∈ s.completed, c.2.contents <:+ seen
  entry : ∀ e ∈ s.entry, e.reading.contents <:+ seen

/-- What a goroutine holds where it is. -/
def Fits : Place normalize → Prop
  | .fetching e => s.load = some p ∧ e ≤ s.epoch
  | .fetched e result => s.load = some p ∧ e ≤ s.epoch ∧
      (e = s.epoch → ∀ r ∈ result, s.Latest r.contents)
  | .storing .. => s.mutationMu = some p
  | .stored result => s.mutationMu = some p ∧ ∀ r ∈ result, r.contents = s.contents
  | _ => True

/-- The invariant: the results stand in the order of their age. -/
structure Ordered : Prop where
  fits : ∀ p, s.Fits p (s.place p)
  now : s.Latest s.contents
  entry : ∀ e ∈ s.entry, s.Latest e.reading.contents
  sorted : s.completed.Pairwise fun later earlier => earlier.2.contents <:+ later.2.contents

end

variable (ι normalize) in
/-- The runs of a new cache over a repository with any contents. -/
def system : System (CachedRepository ι normalize) ι where
  init s := ∃ contents, s = ⟨contents, none, none, 0, none, fun _ => .idle, []⟩
  step := Step

variable {s s' : CachedRepository ι normalize} {p : ι} {place : Place normalize}

/-- The invariant after a step of `p` that may complete its call, from what the step does to
the goroutine's own place and to what the others hold. -/
theorem Ordered.next (h : s.Ordered) (result : Option (Reading normalize))
    (moved : s'.place = Function.update s.place p place) (own : s'.Fits p place)
    (completed : s'.completed = result.toList.map (p, ·) ++ s.completed)
    (latest : ∀ r ∈ result, s.Latest r.contents)
    (entry : ∀ e ∈ s'.entry, e ∈ s.entry ∧ result = none ∨ e.reading ∈ result)
    (grown : s.contents <:+ s'.contents) (epoch : s.epoch ≤ s'.epoch)
    (load : ∀ q ≠ p, s.load = some q → s'.load = some q ∧ (s'.epoch = s.epoch →
      ∀ seen, s.Latest seen → ∀ r ∈ result, r.contents <:+ seen))
    (mutationMu : ∀ q ≠ p, s.mutationMu = some q →
      s'.mutationMu = some q ∧ s'.contents = s.contents) : s'.Ordered := by
  have kept : ∀ seen, s.Latest seen → (∀ r ∈ result, r.contents <:+ seen) → s'.Latest seen := by
    refine fun seen l old => ⟨l.suffix.trans grown, fun c mem => ?_, fun e mem => ?_⟩
    · rw [completed, mem_append] at mem
      obtain mine | earlier := mem
      · obtain ⟨r, there, rfl⟩ := mem_map.mp mine
        exact old r (Option.mem_toList.mp there)
      · exact l.completed c earlier
    · exact (entry e mem).elim (fun same => l.entry e same.1) (old _)
  have now := kept _ h.now fun r mem => (latest r mem).suffix
  refine ⟨fun q => ?_, ⟨suffix_rfl, fun c mem => (now.completed c mem).trans grown,
    fun e mem => (now.entry e mem).trans grown⟩, fun e mem => ?_, ?_⟩
  · by_cases same : q = p
    · subst same
      rwa [moved, Function.update_self]
    rw [moved, Function.update_of_ne same]
    have fits := h.fits q
    revert fits
    cases s.place q with
    | idle | again | looking => exact fun _ => trivial
    | fetching e => exact fun fits => ⟨(load q same fits.1).1, fits.2.trans epoch⟩
    | fetched e result =>
      refine fun fits => ⟨(load q same fits.1).1, fits.2.1.trans epoch, fun current r mem => ?_⟩
      have kept_epoch : s'.epoch = s.epoch := le_antisymm (current ▸ fits.2.1) epoch
      have old := fits.2.2 (current.trans kept_epoch) r mem
      exact kept _ old ((load q same fits.1).2 kept_epoch _ old)
    | storing => exact fun fits => (mutationMu q same fits).1
    | stored result =>
      exact fun fits => ⟨(mutationMu q same fits.1).1, fun r mem =>
        (fits.2 r mem).trans (mutationMu q same fits.1).2.symm⟩
  · obtain ⟨old, rfl⟩ | fresh := entry e mem
    · exact kept _ (h.entry e old) fun r mem => by cases mem
    · exact kept _ (latest _ fresh) fun r there => Option.mem_unique there fresh ▸ suffix_rfl
  · rw [completed]
    cases result with
    | none => exact h.sorted
    | some r => exact pairwise_cons.mpr ⟨(latest r rfl).completed, h.sorted⟩

/-- A step that leaves the entry and the results alone. -/
theorem Ordered.quiet (h : s.Ordered) (moved : s'.place = Function.update s.place p place)
    (own : s'.Fits p place)
    (same : s'.entry = s.entry ∧ s'.completed = s.completed ∧ s'.epoch = s.epoch)
    (grown : s.contents <:+ s'.contents) (load : ∀ q ≠ p, s.load = some q → s'.load = some q)
    (mutationMu : ∀ q ≠ p, s.mutationMu = some q →
      s'.mutationMu = some q ∧ s'.contents = s.contents) : s'.Ordered :=
  h.next none moved own same.2.1 (fun r mem => by cases mem) (fun e mem => .inl ⟨same.1 ▸ mem, rfl⟩)
    grown same.2.2.ge (fun q other l => ⟨load q other l, fun _ _ _ r mem => by cases mem⟩)
    mutationMu

theorem Ordered.step (h : s.Ordered) (step : s.Step p s') : s'.Ordered := by
  have own := h.fits p
  have alone : ∀ {holder : Option ι} {P : ι → Prop}, holder = some p →
      ∀ q ≠ p, holder = some q → P q :=
    fun held q other same => absurd (some.inj (held.symm.trans same)).symm other
  cases step with
  | enter at_ | wait at_ | cancel at_ =>
    exact h.quiet rfl trivial ⟨rfl, rfl, rfl⟩ suffix_rfl (fun _ _ l => l) fun _ _ m => ⟨m, rfl⟩
  | miss at_ miss free =>
    exact h.quiet rfl ⟨rfl, le_rfl⟩ ⟨rfl, rfl, rfl⟩ suffix_rfl
      (fun _ _ l => by cases free.symm.trans l) fun _ _ m => ⟨m, rfl⟩
  | fetch at_ read =>
    rw [at_] at own
    refine h.quiet rfl ⟨own.1, own.2, fun _ r mem => ?_⟩ ⟨rfl, rfl, rfl⟩ suffix_rfl
      (fun _ _ l => l) fun _ _ m => ⟨m, rfl⟩
    rw [(read r mem).1]
    exact ⟨h.now.suffix, h.now.completed, h.now.entry⟩
  | overtaken at_ changed =>
    rw [at_] at own
    exact h.quiet rfl trivial ⟨rfl, rfl, rfl⟩ suffix_rfl (alone own.1) fun _ _ m => ⟨m, rfl⟩
  | mutate at_ normal free =>
    exact h.quiet rfl rfl ⟨rfl, rfl, rfl⟩ suffix_rfl (fun _ _ l => l)
      fun _ _ m => by cases free.symm.trans m
  | store at_ absent =>
    rw [at_] at own
    exact h.quiet rfl ⟨own, fun r mem => by cases mem; rfl⟩ ⟨rfl, rfl, rfl⟩ (suffix_cons ..)
      (fun _ _ l => l) (alone own)
  | storeFails at_ kept =>
    rw [at_] at own
    have grown : s.contents <:+ _ := kept.elim (· ▸ suffix_rfl) (· ▸ suffix_cons ..)
    exact h.quiet rfl ⟨own, fun r mem => by cases mem⟩ ⟨rfl, rfl, rfl⟩ grown
      (fun _ _ l => l) (alone own)
  | hit at_ valid fresh =>
    refine h.next (some _) rfl trivial rfl (fun r mem => ?_) (fun e mem => .inr ?_)
      suffix_rfl le_rfl
      (fun q _ l => ⟨l, fun _ seen old r mem => ?_⟩) fun _ _ m => ⟨m, rfl⟩
    · cases mem
      exact h.entry _ valid
    · cases valid.symm.trans mem
      rfl
    · cases mem
      exact old.entry _ valid
  | finish at_ =>
    rw [at_] at own
    refine h.next _ rfl trivial rfl (own.2.2 rfl) (fun e mem => .inr ?_) suffix_rfl le_rfl
      (alone own.1) fun _ _ m => ⟨m, rfl⟩
    obtain ⟨r, there, rfl⟩ := map_eq_some_iff.mp mem
    exact there
  | publish at_ =>
    rw [at_] at own
    refine h.next _ rfl trivial rfl (fun r mem => own.2 r mem ▸ h.now) (fun e mem => .inr ?_)
      suffix_rfl (Nat.le_succ _) (fun _ _ l => ⟨l, fun same => by simp at same⟩)
      (alone own.1)
    obtain ⟨r, there, rfl⟩ := map_eq_some_iff.mp mem
    exact there

theorem ordered_invariant : (system ι normalize).Invariant Ordered where
  init := by
    rintro s ⟨contents, rfl⟩
    exact ⟨fun _ => trivial, ⟨suffix_rfl, by simp, by simp⟩, by simp, .nil⟩
  step h step := h.step step

end CachedRepository

open CachedRepository

/-- No call completes with contents older than those of a call that completed before it.  In
particular a `Load` does not return an older value than a `Save`, `CreateIfAbsent` or `Load`
that completed before it began. -/
theorem completed_in_order {s : CachedRepository ι normalize}
    (reach : (system ι normalize).Reachable s) :
    s.completed.Pairwise fun later earlier => earlier.2.contents <:+ later.2.contents :=
  (ordered_invariant.holds reach).sorted

/-- A `Load` by another goroutine after a `Save`. -/
theorem completed_in_order_after_save : ∃ s : CachedRepository Bool (V := ℕ) some,
    s.completed.length = 2 ∧
      s.completed.Pairwise fun later earlier => earlier.2.contents <:+ later.2.contents := by
  have start : (system Bool (V := ℕ) some).Reachable _ := .init ⟨[], rfl⟩
  have saved := ((start.step (@Step.mutate _ _ _ _ _ true false 7 7 rfl rfl rfl)).step
    (@Step.store _ _ _ _ _ true false 7 rfl fun _ => rfl)).step
    (@Step.publish _ _ _ _ _ true 0 _ rfl)
  have loaded := (saved.step (@Step.enter _ _ _ _ _ false 0 (.inl rfl))).step
    (@Step.hit _ _ _ _ _ false 0 _ rfl rfl (by decide))
  exact ⟨_, rfl, completed_in_order loaded⟩

end AutoAgent.SettingsCache
