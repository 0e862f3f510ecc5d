import AutoAgent.App.ContextBudget
import AutoAgent.Lib.Ledger
import Mathlib.Data.List.Flatten

/-!
# What an assembled context costs

**Accounts.**  For each of the two resources there is an account for everything and
one for each layer, `Tally.account`.  All four checks of a budget say the same of an
account: the next amount is not more than what is left of its limit.  `Books` says
that every account is a `Ledger`: it holds an exact sum within its limit.

**Charges.**  A required text, the tools, a single item and a group are charged in
the same way: an amount for everything and one for each layer.  `Books.pay` is the
only place where accounts change.
-/

namespace AutoAgent.ContextAssembly

open List Request

/-! ## Accounts -/

/-- The two resources. -/
inductive Resource where
  | bytes | tokens

def Cost.of (c : Cost) : Resource → Int64
  | .bytes => c.bytes
  | .tokens => c.tokens

/-- The accounts of a total and of costs by layer: everything, or one layer. -/
def account (total : Cost) (spent : LayerCosts) (k : Resource) : Option Layer → Int64
  | none => total.of k
  | some l => (spent.get l).of k

/-- The accounts of a tally. -/
def Tally.account (t : Tally) : Resource → Option Layer → Int64 :=
  ContextAssembly.account t.used t.evidence.byLayer

def Budget.limit (b : Budget) : Resource → Option Layer → Option Int64
  | .bytes, none => some b.totalBytes
  | .tokens, none => if 0 < b.totalTokens then some b.totalTokens else none
  | .bytes, some l => b.layerBytes l
  | .tokens, some l => b.layerTokens l

variable {b : Budget} {e : Estimator} {t t' : Tally} {c used total : Cost} {l : Layer}
    {k : Resource}
  {o : Option Layer} {spent group : LayerCosts} {light : Bool}

@[simp] theorem of_zero : Cost.zero.of k = 0 := by cases k <;> rfl

@[simp] theorem of_addCost (a c : Cost) : (addCost a c).of k = a.of k + c.of k := by cases k <;> rfl

theorem addCost_zero (c : Cost) : addCost .zero c = c := by
  simp [addCost, Cost.zero]

@[simp] theorem get_add (l' : Layer) : (spent.add l c).get l' =
    if l' = l then addCost (spent.get l) c else spent.get l' := by
  unfold LayerCosts.add LayerCosts.get
  by_cases same : l' = l
  · subst same
    simp
  · simp [same]

def noCosts : LayerCosts := fun _ => none

@[simp] theorem get_noCosts : noCosts.get l = .zero := rfl

/-- Costs are added account by account. -/
theorem account_addAll : account (addCost used total) (spent.addAll group) k o =
    account used spent k o + account total group k o := by
  cases o with
  | none => exact of_addCost used total
  | some l =>
    show ((spent.addAll group).get l).of k = (spent.get l).of k + (group.get l).of k
    unfold LayerCosts.get LayerCosts.addAll
    cases group l with
    | none => simp
    | some c => exact of_addCost _ _

theorem mem_all (l : Layer) : l ∈ Layer.all := by cases l <;> decide

theorem add_eq_addAll : spent.add l c = spent.addAll (noCosts.add l c) := by
  funext l'
  unfold LayerCosts.add LayerCosts.addAll
  by_cases same : l' = l
  · subst same
    simp [addCost_zero]
  · simp [same, noCosts]

/-- One item is charged like a group of one. -/
theorem fits_eq_fitsGroup : fits b l c used spent = fitsGroup b c used spent (noCosts.add l c) := by
  have layers : (Layer.all.all fun l' => ((noCosts.add l c) l').all fun c =>
      fitsLayer b l' c spent) =
      fitsLayer b l c spent := by
    cases own : fitsLayer b l c spent with
    | true =>
      refine all_eq_true.mpr fun l' _ => ?_
      by_cases same : l' = l
      · subst same
        simpa [LayerCosts.add, addCost_zero] using own
      · simp [LayerCosts.add, noCosts, same]
    | false =>
      rw [← not_eq_true, all_eq_true]
      intro every
      have holds := every l (mem_all l)
      simp [LayerCosts.add, addCost_zero, own] at holds
  rw [fits, fitsGroup, layers]

/-- What fits is not more than what is left, on every account that is charged. -/
theorem room_of_fitsGroup (h : fitsGroup b total used spent group) (n : Int64)
    (limit : b.limit k o = some n) (charged : ∀ l, o = some l → group l ≠ none) :
    ¬n - account used spent k o < account total group k o := by
  simp only [fitsGroup, fitsTotal, and_eq_true, decide_eq_true_eq, all_eq_true] at h
  obtain ⟨⟨bytes, tokens⟩, layers⟩ := h
  cases o with
  | none =>
    cases k with
    | bytes =>
      cases limit
      exact bytes
    | tokens =>
      obtain ⟨positive, ⟨⟩⟩ := Option.ite_none_right_eq_some.mp limit
      exact fun more => tokens ⟨positive, more⟩
  | some l =>
    obtain ⟨c, own⟩ := Option.ne_none_iff_exists'.mp (charged l rfl)
    have layer := layers l (mem_all l)
    rw [own, Option.all_some] at layer
    simp only [fitsLayer, and_eq_true] at layer
    have amount : group.get l = c := by rw [LayerCosts.get, own]; rfl
    cases k with
    | bytes =>
      have cap : b.layerBytes l = some n := limit
      simpa [cap, account, amount, Cost.of] using layer.1
    | tokens =>
      have cap : b.layerTokens l = some n := limit
      simpa [cap, account, amount, Cost.of] using layer.2

/-- A valid cost is small. -/
theorem small_of_validCost (h : validCost c) (k : Resource) :
    0 ≤ (c.of k).toInt ∧ (c.of k).toInt ≤ 2 ^ 24 := by
  have bound : (Int64.ofNat maxBytes).toInt = 2 ^ 24 := by decide
  simp only [validCost, decide_eq_true_eq, Int64.le_iff_toInt_le, bound, Int64.toInt_zero] at h
  cases k with
  | bytes => exact ⟨h.1, h.2.1⟩
  | tokens => exact h.2.2

/-! ## Books -/

/-- Every account holds its exact sum, within its limit. -/
def Books (b : Budget) (sums : Resource → Option Layer → ℤ) (t : Tally) : Prop :=
  ∀ k o, Ledger (t.account k o) (sums k o) (b.limit k o)

theorem limit_nonneg (valid : b.validate = .ok ()) (n : Int64) (h : b.limit k o = some n) :
    0 ≤ n.toInt := by
  obtain ⟨_, totals, valid⟩ := bind_eq_ok.mp valid
  obtain ⟨_, bytes, tokens⟩ := bind_eq_ok.mp valid
  rw [require_eq_ok] at totals bytes tokens
  simp only [Int64.le_iff_toInt_le, Int64.lt_iff_toInt_lt, Int64.toInt_zero, all_eq_true]
    at totals bytes tokens
  cases o with
  | none =>
    cases k with
    | bytes =>
      cases h
      exact totals.1.le
    | tokens =>
      obtain ⟨_, ⟨⟩⟩ := Option.ite_none_right_eq_some.mp h
      exact totals.2.2.1
  | some l =>
    cases k with
    | bytes =>
      have own := bytes l (mem_all l)
      rw [show b.layerBytes l = some n from h] at own
      exact (of_decide_eq_true own).1
    | tokens =>
      have own := tokens l (mem_all l)
      rw [show b.layerTokens l = some n from h] at own
      exact (of_decide_eq_true own).1

/-- Before anything is paid every account is empty. -/
theorem books_start (valid : b.validate = .ok ()) : Books b (fun _ _ => 0) .start := by
  intro k o
  have empty : Tally.start.account k o = 0 := by
    cases o <;> exact of_zero
  rw [empty]
  exact .zero fun n => limit_nonneg valid n

/-- Pay a charge that fits. -/
theorem Books.pay {sums amounts : Resource → Option Layer → ℤ} (books : Books b sums t)
    (total : Cost) (group : LayerCosts) (fit : fitsGroup b total t.used t.evidence.byLayer group)
    (exact : ∀ k o, (account total group k o).toInt = amounts k o)
    (nonneg : ∀ k o, 0 ≤ amounts k o) (small : ∀ k o, sums k o + amounts k o < 2 ^ 63)
    (paid : ∀ k o, t'.account k o = t.account k o + account total group k o) :
    Books b (fun k o => sums k o + amounts k o) t' := by
  intro k o
  rw [paid]
  refine (books k o).spend (exact k o) (nonneg k o) (fun n limit => ?_) (small k o)
  by_cases charged : ∀ l, o = some l → group l ≠ none
  · exact room_of_fitsGroup fit n limit charged
  · -- nothing is charged to the account, which is within its limit
    push Not at charged
    obtain ⟨l, rfl, free⟩ := charged
    have nothing : account total group k (some l) = 0 := by
      show (group.get l).of k = 0
      rw [LayerCosts.get, free]
      exact of_zero
    have own := books k (some l)
    have high := n.toInt_lt
    have within := own.within n limit
    have pos := own.nonneg
    have eq := own.exact
    rw [nothing, Int64.lt_iff_toInt_lt, Int64.toInt_sub, Int.bmod_eq_of_le (by omega) (by omega),
      Int64.toInt_zero]
    omega

/-! ## The price of items and texts -/

/-- The price of an item, in one of the resources. -/
def price (e : Estimator) (k : Resource) (it : Item) : ℤ :=
  match safeEstimate e it.message with
  | .ok c => (c.of k).toInt
  | .error _ => 0

/-- What an item adds to an account. -/
def share (e : Estimator) (k : Resource) (o : Option Layer) (it : Item) : ℤ :=
  if o = none ∨ o = some it.layer then price e k it else 0

/-- What items add to an account. -/
def shares (e : Estimator) (k : Resource) (o : Option Layer) (members : List (Item × ℕ)) : ℤ :=
  (members.map fun x => share e k o x.1).sum

/-- The price of a required text. -/
def textPrice (e : Estimator) (k : Resource) (layer : Layer) (text : GoString) : ℤ :=
  if text = .empty then 0
  else
    match safeFragmentEstimate e layer text with
    | .ok c => (c.of k).toInt
    | .error _ => 0

/-- The estimator has given the item a valid cost. -/
def Priced (e : Estimator) (it : Item) : Prop := ∃ c, priceOf e it = .ok c

variable {it : Item} {members taken : List (Item × ℕ)}

theorem account_one : account c (noCosts.add l c) k o =
    if o = none ∨ o = some l then c.of k else 0 := by
  cases o with
  | none => rfl
  | some l' =>
    show ((noCosts.add l c).get l').of k = _
    by_cases same : l' = l
    · simp [same, addCost_zero]
    · simp [same]

theorem share_of_price (h : priceOf e it = .ok c) :
    validCost c ∧ share e k o it = (account c (noCosts.add it.layer c) k o).toInt := by
  obtain ⟨c', estimated, h⟩ := bind_eq_ok.mp h
  obtain ⟨_, valid, h⟩ := bind_eq_ok.mp h
  cases h
  refine ⟨require_eq_ok.mp valid, ?_⟩
  rw [share, price, estimated, account_one]
  split <;> rfl

theorem share_bounds (h : Priced e it) : 0 ≤ share e k o it ∧ share e k o it ≤ 2 ^ 24 := by
  obtain ⟨c, own⟩ := h
  obtain ⟨valid, eq⟩ := share_of_price (k := k) (o := o) own
  rw [eq, account_one]
  split
  · exact small_of_validCost valid k
  · simp

theorem shares_bounds (h : ∀ x ∈ members, Priced e x.1) :
    0 ≤ shares e k o members ∧ shares e k o members ≤ members.length * 2 ^ 24 :=
  sum_le_length_mul fun x mem => share_bounds (h x mem)

@[simp] theorem shares_cons (x : Item × ℕ) :
    shares e k o (x :: members) = share e k o x.1 + shares e k o members := by
  simp [shares]

@[simp] theorem shares_append (more : List (Item × ℕ)) :
    shares e k o (members ++ more) = shares e k o members + shares e k o more := by
  simp [shares]

/-- The cost of a group is exact, on every account. -/
theorem groupCost_spec (few : members.length ≤ maxItems)
    (h : groupCost e members = .ok (total, group)) :
    (∀ x ∈ members, Priced e x.1) ∧
      ∀ k o, (account total group k o).toInt = shares e k o members := by
  -- the sum so far, of `n` members
  suffices loop : ∀ (rest : List (Item × ℕ)) (acc : Cost × LayerCosts) (n : ℕ),
      (∀ k o, 0 ≤ (account acc.1 acc.2 k o).toInt ∧
        (account acc.1 acc.2 k o).toInt ≤ n * 2 ^ 24) → n + rest.length ≤ maxItems →
      rest.foldlM (fun acc x => (priceOf e x.1).map fun c =>
        (addCost acc.1 c, acc.2.add x.1.layer c)) acc = .ok (total, group) →
      (∀ x ∈ rest, Priced e x.1) ∧ ∀ k o, (account total group k o).toInt =
        (account acc.1 acc.2 k o).toInt + shares e k o rest by
    obtain ⟨priced, sums⟩ := loop members (.zero, noCosts) 0
      (fun k o => by cases o <;> simp [account]) (by simpa using few) h
    refine ⟨priced, fun k o => ?_⟩
    rw [sums]
    cases o <;> simp [account]
  intro rest
  induction rest with
  | nil =>
    intro acc n _ _ h
    cases h
    exact ⟨nofun, fun k o => by simp [shares]⟩
  | cons x rest ih =>
    intro acc n bounds room h
    obtain ⟨next, charged, h⟩ := bind_eq_ok.mp h
    obtain ⟨c, priced, rfl⟩ := map_eq_ok.mp charged
    have step : ∀ k o, (account (addCost acc.1 c) (acc.2.add x.1.layer c) k o).toInt =
        (account acc.1 acc.2 k o).toInt + share e k o x.1 := by
      intro k o
      have bound := bounds k o
      have one := share_bounds (k := k) (o := o) ⟨c, priced⟩
      have few : n ≤ 4096 := Nat.le_of_add_right_le room
      rw [(share_of_price priced).2] at one ⊢
      rw [add_eq_addAll, account_addAll, toInt_add_of_range (by omega) (by omega)]
    obtain ⟨rest_priced, sums⟩ := ih _ (n + 1) (fun k o => by
      have bound := bounds k o
      have one := share_bounds (k := k) (o := o) ⟨c, priced⟩
      rw [step]
      omega) (by simp only [length_cons] at room; omega) h
    refine ⟨forall_mem_cons.mpr ⟨⟨c, priced⟩, rest_priced⟩, fun k o => ?_⟩
    rw [sums, step, shares_cons, add_assoc]

/-- Considering a candidate is charging its members as a group. -/
theorem consider_eq (candidate : Candidate) :
    candidate.consider b e light t = (do
      let charge ← groupCost e candidate.members
      if fitsGroup b charge.1 t.used t.evidence.byLayer charge.2 then
        return t.take light candidate.members charge.1 (t.evidence.byLayer.addAll charge.2)
      else candidate.refuse light t) := by
  obtain ⟨grouped, members, priority, newest, required⟩ := candidate
  unfold Candidate.consider
  split
  next x _ single =>
    obtain rfl : members = [x] := single
    simp only [groupCost, foldlM_cons, foldlM_nil, bind_pure]
    cases priced : priceOf e x.1 with
    | error error => rfl
    | ok c =>
      show (if fits b x.1.layer c t.used t.evidence.byLayer then _ else _) =
        if fitsGroup b (addCost .zero c) t.used t.evidence.byLayer (noCosts.add x.1.layer c) then
          pure (t.take light [x] (addCost .zero c)
            (t.evidence.byLayer.addAll (noCosts.add x.1.layer c)))
        else _
      rw [addCost_zero, fits_eq_fitsGroup, ← add_eq_addAll]
  next => rfl

/-! ## Selection -/

/-- What the candidates considered so far have left: the taken members are paid for,
beside what was paid before. -/
structure Selection (b : Budget) (e : Estimator) (fixed : Resource → Option Layer → ℤ)
    (taken : List (Item × ℕ)) (t : Tally) : Prop where
  books : Books b (fun k o => fixed k o + shares e k o taken) t
  priced : ∀ x ∈ taken, Priced e x.1
  selected : t.selected = taken.map Prod.snd

variable {fixed : Resource → Option Layer → ℤ}

/-- One candidate is taken or, unless it is required, dropped. -/
theorem Selection.consider {candidate : Candidate} (sel : Selection b e fixed taken t)
    (modest : ∀ k o, fixed k o ≤ 3 * 2 ^ 24)
    (few : taken.length + candidate.members.length ≤ maxItems)
    (h : candidate.consider b e light t = .ok t') :
    Selection b e fixed (taken ++ candidate.members) t' ∨
      candidate.required = false ∧ Selection b e fixed taken t' := by
  rw [consider_eq] at h
  obtain ⟨⟨total, group⟩, cost, h⟩ := bind_eq_ok.mp h
  obtain ⟨priced, exact⟩ := groupCost_spec (by omega) cost
  split at h
  next fit =>
    cases h
    left
    refine ⟨?_, fun x mem => ?_, ?_⟩
    · have sums : ∀ k o, fixed k o + shares e k o (taken ++ candidate.members) =
          fixed k o + shares e k o taken + shares e k o candidate.members := by
        intro k o
        rw [shares_append, add_assoc]
      simp only [sums]
      refine sel.books.pay total group fit exact (fun k o => (shares_bounds priced).1)
        (fun k o => ?_)
        fun k o => account_addAll
      have before := (shares_bounds (k := k) (o := o) sel.priced).2
      have now := (shares_bounds (k := k) (o := o) priced).2
      have base := modest k o
      unfold maxItems at few
      omega
    · rcases mem_append.mp mem with old | new
      · exact sel.priced x old
      · exact priced x new
    · show t.selected ++ _ = _
      rw [sel.selected, map_append]
  next =>
    obtain ⟨_, optional, h⟩ := bind_eq_ok.mp h
    cases h
    exact .inr ⟨by simpa using require_eq_ok.mp optional, sel.books, sel.priced, sel.selected⟩

/-- The candidates that are taken: among them every required one. -/
theorem Selection.fold {cs : List Candidate} (sel : Selection b e fixed taken t)
    (modest : ∀ k o, fixed k o ≤ 3 * 2 ^ 24)
    (few : taken.length + (cs.flatMap Candidate.members).length ≤ maxItems)
    (h : cs.foldlM (Candidate.consider b e light) t = .ok t') :
    ∃ more : List Candidate, more.Sublist cs ∧ (∀ c ∈ cs, c.required → c ∈ more) ∧
      Selection b e fixed (taken ++ more.flatMap Candidate.members) t' := by
  induction cs generalizing t taken with
  | nil =>
    cases h
    exact ⟨[], .slnil, nofun, by simpa using sel⟩
  | cons c cs ih =>
    obtain ⟨next, considered, h⟩ := bind_eq_ok.mp h
    rw [flatMap_cons, length_append] at few
    rcases sel.consider modest (by omega) considered with took | ⟨optional, left⟩
    · obtain ⟨more, sub, required, done⟩ := ih took (by rw [length_append]; omega) h
      refine ⟨c :: more, sub.cons_cons c, fun c' mem needed => ?_, by
        rwa [flatMap_cons, ← append_assoc]⟩
      rcases mem_cons.mp mem with rfl | later
      · exact mem_cons_self
      · exact mem_cons_of_mem _ (required c' later needed)
    · obtain ⟨more, sub, required, done⟩ := ih left (by omega) h
      refine ⟨more, sub.cons c, fun c' mem needed => ?_, done⟩
      rcases mem_cons.mp mem with rfl | later
      · rw [optional] at needed
        cases needed
      · exact required c' later needed

/-! ## Required texts and tools -/

/-- What the required texts and the tools add to an account. -/
def Request.requiredPrice (r : Request) (e : Estimator) (k : Resource) : Option Layer → ℤ
  | none => textPrice e k .system r.requiredSystem + textPrice e k .profile r.requiredProfile +
      (r.requiredTools.of k).toInt
  | some .system => textPrice e k .system r.requiredSystem
  | some .profile => textPrice e k .profile r.requiredProfile
  | some .tools => (r.requiredTools.of k).toInt
  | some _ => 0

variable {sums : Resource → Option Layer → ℤ}

/-- Paying for one thing, on its layer. -/
theorem Books.payOne (books : Books b sums t) (modest : ∀ k o, sums k o ≤ 2 * 2 ^ 24)
    (valid : validCost c) (fit : fits b l c t.used t.evidence.byLayer)
    (paid : ∀ k o, t'.account k o = t.account k o + account c (noCosts.add l c) k o) :
    Books b (fun k o => sums k o + if o = none ∨ o = some l then (c.of k).toInt else 0) t' := by
  have small := small_of_validCost valid
  refine books.pay c (noCosts.add l c) (fits_eq_fitsGroup ▸ fit) (fun k o => ?_) (fun k o => ?_)
    (fun k o => ?_) paid
  · rw [account_one]
    split <;> rfl
  · split
    · exact (small k).1
    · exact le_refl 0
  · have base := modest k o
    have high := (small k).2
    split <;> omega

/-- Paying for a text. -/
theorem Books.addText {ctx : Context} {text : GoString} (books : Books b sums t)
    (modest : ∀ k o, sums k o ≤ 2 ^ 24) (h : t.addText b e ctx l text = .ok t') :
    Books b (fun k o => sums k o + if o = none ∨ o = some l then textPrice e k l text else 0) t' ∧
      (∀ k, 0 ≤ textPrice e k l text ∧ textPrice e k l text ≤ 2 ^ 24) ∧
      t'.selected = t.selected := by
  unfold Tally.addText at h
  split_ifs at h with absent
  · cases h
    simpa [textPrice, absent] using books
  · simp only [bind_eq_ok, require_eq_ok] at h
    obtain ⟨_, _, c, estimated, _, valid, _, fit, ⟨⟩⟩ := h
    have own : ∀ k, textPrice e k l text = (c.of k).toInt := by
      intro k
      rw [textPrice, if_neg absent, estimated]
    simp only [own]
    have low : ∀ k o, sums k o ≤ 2 * 2 ^ 24 := fun k o => (modest k o).trans (by decide)
    refine ⟨books.payOne low valid fit fun k o => ?_, small_of_validCost valid, trivial⟩
    show account _ (t.evidence.byLayer.add l c) k o = _
    rw [add_eq_addAll]
    exact account_addAll

/-- Paying for the tools, whose account nothing has been charged to. -/
theorem Books.addTools {tools : Cost} (books : Books b sums t)
    (modest : ∀ k o, sums k o ≤ 2 * 2 ^ 24) (free : ∀ k, sums k (some .tools) = 0)
    (valid : validCost tools) (h : t.addTools b tools = .ok t') :
    Books b (fun k o => sums k o +
      if o = none ∨ o = some .tools then (tools.of k).toInt else 0) t' ∧
      t'.selected = t.selected := by
  obtain ⟨_, fit, h⟩ := bind_eq_ok.mp h
  cases h
  refine ⟨books.payOne modest valid (require_eq_ok.mp fit) fun k o => ?_, rfl⟩
  have empty : t.account k (some .tools) = 0 := by
    rw [← Int64.toInt_inj, (books k (some .tools)).exact, free]
    rfl
  rw [account_one]
  cases o with
  | none => exact of_addCost t.used tools
  | some l =>
    show (LayerCosts.get (if tools = .zero then _ else _) l).of k = _
    by_cases nothing : tools = .zero
    · simp [nothing, Tally.account, account]
    · by_cases own : l = .tools
      · subst own
        rw [empty, if_neg nothing]
        simp [LayerCosts.get]
      · rw [if_neg nothing, if_neg (by simp [own])]
        simp [LayerCosts.get, own, Tally.account, account]

/-! ## The whole request -/

variable {r : Request} {ctx : Context}

theorem candidates_perm (items : List Item) :
    (candidates items).Perm ((gather Item.group items).map candidateOf) :=
  perm_insertionSort _ _

/-- The members of the candidates are the items with their positions. -/
theorem members_perm (items : List Item) :
    ((candidates items).flatMap Candidate.members).Perm items.zipIdx := by
  refine ((candidates_perm items).flatMap_right _).trans ?_
  have members : ((gather Item.group items).map candidateOf).flatMap Candidate.members =
      (gather Item.group items).flatten := by
    rw [flatMap_map, flatten_eq_flatMap]
    rfl
  exact members ▸ gather_perm

/-- A tally pays for the required texts, the tools and the candidates it takes. -/
theorem selection_of_tally (h : r.tally ctx = .ok t) :
    ∃ e, r.estimator = some e ∧ ∃ more : List Candidate, more.Sublist (candidates r.items) ∧
      (∀ c ∈ candidates r.items, c.required → c ∈ more) ∧
      Selection r.budget e (r.requiredPrice e) (more.flatMap Candidate.members) t := by
  obtain ⟨first, required, h⟩ := bind_eq_ok.mp h
  obtain ⟨_, valid, required⟩ := bind_eq_ok.mp required
  simp only [validate, bind_eq_ok, mapError_eq_ok, require_eq_ok] at valid
  obtain ⟨_, budget, _, size, _, tools, _⟩ := valid
  cases estimator : r.estimator with
  | none =>
    rw [estimator] at required
    cases required
  | some e =>
    rw [estimator] at required
    simp only [bind_eq_ok] at required
    obtain ⟨t₁, system, t₂, profile, t₃, paid, ⟨⟩⟩ := required
    obtain ⟨books₁, price₁, selected₁⟩ := (books_start budget).addText (fun _ _ => by omega) system
    obtain ⟨books₂, price₂, selected₂⟩ := books₁.addText (fun k o => by
      have := price₁ k
      split <;> omega) profile
    obtain ⟨books₃, selected₃⟩ := books₂.addTools (fun k o => by
      have := price₁ k
      have := price₂ k
      split <;> split <;> omega) (fun k => by simp) tools paid
    have toolPrice := small_of_validCost tools
    have sel : Selection r.budget e (r.requiredPrice e) [] t₃ := by
      refine ⟨?_, nofun, by rw [selected₃, selected₂, selected₁]; rfl⟩
      intro k o
      have books := books₃ k o
      cases o with
      | none => simpa [requiredPrice, shares, add_assoc] using books
      | some l => cases l <;> simpa [requiredPrice, shares] using books
    have modest : ∀ k o, r.requiredPrice e k o ≤ 3 * 2 ^ 24 := by
      intro k o
      have := price₁ k
      have := price₂ k
      have := toolPrice k
      cases o with
      | none => simp only [requiredPrice]; omega
      | some l => cases l <;> simp only [requiredPrice] <;> omega
    have few : ((candidates r.items).flatMap Candidate.members).length ≤ maxItems := by
      rw [(members_perm r.items).length_eq, length_zipIdx]
      simpa using size.2
    obtain ⟨more, sub, required, done⟩ := sel.fold modest (by simpa using few) h
    exact ⟨e, rfl, more, sub, required, by simpa using done⟩

variable {more : List Candidate} {items : List Item}

/-- The taken members, in the order of the items, are the chosen items. -/
theorem chosen_perm (sub : more.Sublist (candidates items)) :
    (items.zipIdx.filter fun x => ((more.flatMap Candidate.members).map Prod.snd).contains x.2).Perm
      (more.flatMap Candidate.members) := by
  have perm := members_perm items
  have inside : (more.flatMap Candidate.members).Sublist
      ((candidates items).flatMap Candidate.members) := sub.flatMap _
  have subset : ∀ x ∈ more.flatMap Candidate.members, x ∈ items.zipIdx := fun x mem =>
    perm.subset (inside.subset mem)
  have nodup : (more.flatMap Candidate.members).Nodup :=
    inside.nodup (perm.nodup_iff.mpr (nodup_zipIdx items))
  refine (perm_ext_iff_of_nodup ((nodup_zipIdx items).filter _) nodup).mpr fun x => ?_
  rw [mem_filter, contains_iff_mem, mem_map]
  constructor
  · rintro ⟨mem, y, own, same⟩
    exact distinct_zipIdx items y (subset y own) x mem same ▸ own
  · exact fun mem => ⟨subset x mem, x, mem, rfl⟩

/-- The items of a group are selected together. -/
theorem selected_together (sub : more.Sublist (candidates items)) {x y : Item × ℕ}
    (hx : x ∈ items.zipIdx) (hy : y ∈ items.zipIdx) (grouped : x.1.groupID ≠ .empty)
    (same : x.1.groupID = y.1.groupID) (own : x.2 ∈ (more.flatMap Candidate.members).map Prod.snd) :
    y.2 ∈ (more.flatMap Candidate.members).map Prod.snd := by
  obtain ⟨x', taken, position⟩ := mem_map.mp own
  obtain ⟨c, mem, member⟩ := mem_flatMap.mp taken
  obtain ⟨part, among, rfl⟩ := mem_map.mp ((candidates_perm items).subset (sub.subset mem))
  have inside : x' ∈ items.zipIdx := gather_perm.subset (mem_flatten.mpr ⟨part, among, member⟩)
  obtain rfl := distinct_zipIdx items x' inside x hx position
  refine mem_map_of_mem (mem_flatMap.mpr ⟨_, mem, ?_⟩)
  exact gather_whole among member (by simp [Item.group, grouped]) hy (by simp [Item.group, same])

/-- A required item is selected. -/
theorem selected_of_required {x : Item × ℕ}
    (all : ∀ c ∈ candidates items, c.required → c ∈ more) (hx : x ∈ items.zipIdx)
    (required : x.1.required) : x.2 ∈ (more.flatMap Candidate.members).map Prod.snd := by
  have parts : (gather Item.group items).flatten.Perm items.zipIdx := gather_perm
  obtain ⟨part, among, member⟩ := mem_flatten.mp (parts.symm.subset hx)
  have candidate := (candidates_perm items).symm.subset (mem_map_of_mem among)
  have needed : (candidateOf part).required = true := any_eq_true.mpr ⟨x, member, required⟩
  exact mem_map_of_mem (mem_flatMap.mpr ⟨_, all _ candidate needed, member⟩)

/-! ## The two modes of evidence -/

/-- A tally without its lists of items. -/
def Tally.forget (t : Tally) : Tally :=
  { t with evidence := { t.evidence with selectedItems := [], droppedItems := [] } }

/-- The mode only decides what the lists of items hold. -/
theorem forget_consider (candidate : Candidate) :
    (candidate.consider b e light t).map Tally.forget = candidate.consider b e true t.forget := by
  simp only [consider_eq]
  cases groupCost e candidate.members with
  | error error => rfl
  | ok charge =>
    show Except.map _ (if fitsGroup b charge.1 t.used t.evidence.byLayer charge.2 then _ else _) =
      if fitsGroup b charge.1 t.used t.evidence.byLayer charge.2 then _ else _
    split
    · rfl
    · unfold Candidate.refuse require
      cases candidate.required with
      | false => rfl
      | true => rfl

theorem forget_fold (cs : List Candidate) :
    (cs.foldlM (Candidate.consider b e light) t).map Tally.forget =
      cs.foldlM (Candidate.consider b e true) t.forget := by
  induction cs generalizing t with
  | nil => rfl
  | cons c cs ih =>
    rw [foldlM_cons, foldlM_cons, ← forget_consider]
    cases c.consider b e light t with
    | error error => rfl
    | ok next => exact ih

theorem forget_tally (light : Bool) :
    (tally ctx { r with lightweightEvidence := light }).map Tally.forget =
      (r.tally ctx).map Tally.forget := by
  have same : payRequired ctx { r with lightweightEvidence := light } = r.payRequired ctx := rfl
  unfold tally
  rw [same]
  cases r.payRequired ctx with
  | error error => rfl
  | ok paid => exact (forget_fold _).trans (forget_fold _).symm

mutual

theorem cloneValue_eq : ∀ v, cloneValue v = v
  | .arr items => congrArg _ (cloneItems_eq items)
  | .obj members => congrArg _ (cloneMembers_eq members)
  | .null | .bool _ | .int _ | .float _ | .str _ => rfl

theorem cloneItems_eq : ∀ vs, cloneItems vs = vs
  | [] => rfl
  | v :: vs => congrArg₂ _ (cloneValue_eq v) (cloneItems_eq vs)

theorem cloneMembers_eq : ∀ ms, cloneMembers ms = ms
  | [] => rfl
  | (_, v) :: ms => congrArg₂ _ (congrArg _ (cloneValue_eq v)) (cloneMembers_eq ms)

end

/-- A copy is equal to its original. -/
theorem cloneMessage_eq (m : ChatMessage) : cloneMessage m = m := by
  have calls : cloneCall = id := by
    funext tc
    exact congrArg (fun args => { tc with args }) (cloneMembers_eq tc.args)
  simp [cloneMessage, calls]

/-- The messages of a result are those of the chosen items, in both modes. -/
theorem messages_assemble (r : Request) (ctx : Context) :
    (assemble (some ctx) r).map Result.messages =
      ((r.tally ctx).map Tally.forget).map fun t =>
        (chosen r.items t.selected).map Item.message := by
  have copies : ∀ ms : List ChatMessage, ms.map cloneMessage = ms := by
    simp [funext cloneMessage_eq]
  show Except.map _ (r.tally ctx >>= _) = _
  cases r.tally ctx with
  | error error => rfl
  | ok t =>
    show Except.ok (if r.lightweightEvidence then _ else _) = Except.ok _
    rw [copies, ite_self]
    rfl

/-! ## What a result is -/

/-- A result has the messages of the items its tally has selected. -/
theorem tally_of_assemble {res : Result} (h : assemble (some ctx) r = .ok res) :
    ∃ t, r.tally ctx = .ok t ∧ res.evidence = { t.evidence with used := t.used } ∧
      res.messages = (chosen r.items t.selected).map Item.message := by
  have messages : (assemble (some ctx) r).map Result.messages = .ok res.messages := by
    rw [h]
    rfl
  obtain ⟨t, paid, result⟩ := bind_eq_ok.mp h
  rw [messages_assemble, paid] at messages
  refine ⟨t, paid, ?_, (Except.ok.inj messages).symm⟩
  cases result
  rfl

/-- A tally selects a group completely or not at all. -/
theorem selected_iff (paid : r.tally ctx = .ok t) {i j : ℕ} {x y : Item}
    (hx : r.items[i]? = some x) (hy : r.items[j]? = some y) (grouped : x.groupID ≠ .empty)
    (same : x.groupID = y.groupID) : i ∈ t.selected ↔ j ∈ t.selected := by
  obtain ⟨_, _, _, sub, _, sel⟩ := selection_of_tally paid
  have hx : (x, i) ∈ r.items.zipIdx := mem_zipIdx_iff_getElem?.mpr hx
  have hy : (y, j) ∈ r.items.zipIdx := mem_zipIdx_iff_getElem?.mpr hy
  rw [sel.selected]
  exact ⟨selected_together sub hx hy grouped same,
    selected_together sub hy hx (same ▸ grouped) same.symm⟩

/-- The sum of the shares of some items of their own layer is the sum of their
prices. -/
theorem sum_share (items : List Item) (k : Resource) (o : Option Layer) :
    (items.map (share e k o)).sum =
      ((items.filter fun it => o = none ∨ o = some it.layer).map (price e k)).sum := by
  induction items with
  | nil => rfl
  | cons it items ih =>
    rw [map_cons, sum_cons, ih, share, filter_cons]
    by_cases own : o = none ∨ o = some it.layer
    · simp [own]
    · simp [own]

/-- When `Assemble` succeeds, the messages are those of some selected items, in the
order of the items; a group is selected completely or not at all, and a required item
always; what is used, in all and on each layer, is exactly the price of the required
texts, of the tools and of the selected items, each of which the estimator has given
a valid cost, and is within its limit; and the messages do not depend on the mode of
evidence. -/
theorem assemble_contract {ctx : Option Context} {r : Request} {res : Result}
    (h : assemble ctx r = .ok res) :
    ∃ e selected, r.estimator = some e ∧ res.messages = (chosen r.items selected).map Item.message ∧
      res.messages.Sublist (r.items.map Item.message) ∧
      (∀ i j x y, r.items[i]? = some x → r.items[j]? = some y → x.groupID ≠ .empty →
        x.groupID = y.groupID → (i ∈ selected ↔ j ∈ selected)) ∧
      (∀ i x, r.items[i]? = some x → x.required = true → i ∈ selected) ∧
      (∀ x ∈ chosen r.items selected, Priced e x) ∧
      (∀ k, (res.evidence.used.of k).toInt =
          r.requiredPrice e k none + ((chosen r.items selected).map (price e k)).sum ∧
        ∀ n, r.budget.limit k none = some n → (res.evidence.used.of k).toInt ≤ n.toInt) ∧
      (∀ k l, ((res.evidence.byLayer.get l).of k).toInt = r.requiredPrice e k (some l) +
          (((chosen r.items selected).filter fun x => x.layer = l).map (price e k)).sum ∧
        ∀ n, r.budget.limit k (some l) = some n →
          ((res.evidence.byLayer.get l).of k).toInt ≤ n.toInt) ∧
      ∀ light, (assemble ctx { r with lightweightEvidence := light }).map Result.messages =
        .ok res.messages := by
  cases ctx with
  | none => cases h
  | some ctx =>
    obtain ⟨t, paid, evidence, list⟩ := tally_of_assemble h
    obtain ⟨e, estimator, more, sub, all, sel⟩ := selection_of_tally paid
    have selected := sel.selected
    have perm := chosen_perm sub
    rw [evidence]
    have books : ∀ k o, Ledger (t.account k o) (r.requiredPrice e k o +
        (((chosen r.items t.selected).filter fun it => o = none ∨ o = some it.layer).map
          (price e k)).sum) (r.budget.limit k o) := by
      intro k o
      rw [← sum_share, chosen, selected, map_map, (perm.map _).sum_eq]
      exact sel.books k o
    refine ⟨e, t.selected, estimator, list, ?_, fun i j x y hx hy grouped same => ?_,
      fun i x hx required => ?_, fun x mem => ?_, fun k => ?_, fun k l => ?_, fun light => ?_⟩
    · rw [list]
      refine List.Sublist.map _ ?_
      have whole : r.items.zipIdx.map Prod.fst = r.items := zipIdx_map_fst 0 r.items
      conv_rhs => rw [← whole]
      exact filter_sublist.map _
    · exact selected_iff paid hx hy grouped same
    · have hx : (x, i) ∈ r.items.zipIdx := mem_zipIdx_iff_getElem?.mpr hx
      rw [selected]
      exact selected_of_required all hx required
    · rw [chosen, selected] at mem
      obtain ⟨y, own, rfl⟩ := mem_map.mp mem
      exact sel.priced y (perm.subset own)
    · have book := books k none
      simp only [true_or, decide_true, filter_true] at book
      exact ⟨book.exact, fun n limit => book.exact ▸ book.within n limit⟩
    · have book := books k (some l)
      simp only [reduceCtorEq, some.injEq, false_or, eq_comm (a := l)] at book
      exact ⟨book.exact, fun n limit => book.exact ▸ book.within n limit⟩
    · rw [messages_assemble, forget_tally, paid, list]
      rfl

/-- A budget of a thousand bytes. -/
def exampleBudget : Budget := ⟨1000, 0, fun _ => none, fun _ => none⟩

/-- A request that has a system text and nothing to select. -/
def systemOnly : Request :=
  ⟨exampleBudget, some .byte, go "x", .empty, .zero, [], true⟩

/-- What is used is not the price of the selected items alone. -/
theorem used_beyond_items : ∃ res, assemble (some ⟨fun _ => false⟩) systemOnly = .ok res ∧
    ∀ selected, (res.evidence.used.of .bytes).toInt ≠
      ((chosen systemOnly.items selected).map (price .byte .bytes)).sum := by
  refine ⟨_, rfl, fun selected => ?_⟩
  show (33 : Int64).toInt ≠ 0
  decide

/-- A question, a call and its result, of which the call and its result are a group
that does not fit beside the question. -/
def exampleRequest : Request where
  budget := { exampleBudget with totalBytes := 300 }
  estimator := some .byte
  requiredSystem := .empty
  requiredProfile := .empty
  requiredTools := .zero
  items :=
    [⟨⟨.assistant, .empty, none, [⟨go "c", go "t", [], .empty⟩], .empty, 1, none⟩, .recent,
        go "seq-1", go "1", [], go "g", 100, false⟩,
      ⟨⟨.tool, go "r", none, [], go "c", 2, none⟩, .toolResults, go "seq-2", go "2",
      [], go "g", 100,
        false⟩,
      ⟨⟨.user, go "q", none, [], .empty, 3, none⟩, .recent, go "seq-3", go "3", [], .empty, 300,
        true⟩]
  lightweightEvidence := true

theorem assemble_contract_question :
    ∃ res, assemble (some ⟨fun _ => false⟩) exampleRequest = .ok res ∧ res.messages.length = 1 ∧
      res.messages.Sublist (exampleRequest.items.map Item.message) := by
  have ran : ((assemble (some ⟨fun _ => false⟩) exampleRequest).toOption.any
      fun res => res.messages.length == 1) = true := by
    decide +kernel
  cases h : assemble (some ⟨fun _ => false⟩) exampleRequest with
  | error error =>
    rw [h] at ran
    cases ran
  | ok res =>
    rw [h] at ran
    obtain ⟨e, selected, _, _, sublist, _⟩ := assemble_contract h
    exact ⟨res, rfl, by simpa [Except.toOption] using ran, sublist⟩

end AutoAgent.ContextAssembly
