import AutoAgent.Lib.GoString

/-!
# Integer operations of programs

The interpreter of `program.execute` computes with `int64` and refuses what does not fit.
The tests for that are written with the wrapping arithmetic of the machine;
`intOperation_eq_ok` says that they are exact.
-/

namespace AutoAgent.Programmatic

open Int64 (maxValue minValue toInt_inj toInt_sub toInt_zero toInt_minValue toInt_add
  toInt_div toInt_mul)

/-- What the interpreter holds in an `any`. -/
inductive Value where
  | nil
  | bool (b : Bool)
  | int (n : Int64)
  | float (x : Float)
  | string (s : GoString)
  | list (items : List Value)
  | map (entries : List (GoString × Value))

/-- The operators of `int`; the compiler lets no other pass. -/
inductive IntOp where
  | add | sub | mul | div | mod

/-- The errors of a run: the context's, `ErrProgramLimit`, and `ErrInvalidProgram` with the
category of `runtimeInvalid`, if it has one. -/
inductive RunError where
  | context
  | limit
  | invalid (code : Option String)

/-- `runtime`, as far as a step reads it.  The context is cancelled when it is asked for the
`n`-th time if `cancelled n` is true. -/
structure Runtime where
  maxSteps : ℕ
  cancelled : ℕ → Bool
  asked : ℕ
  steps : ℕ

abbrev Run := StateT Runtime (Except RunError)

def step : Run Unit := do
  let r ← get
  set { r with asked := r.asked + 1 }
  if r.cancelled r.asked then throw .context
  set { r with asked := r.asked + 1, steps := r.steps + 1 }
  if r.maxSteps < r.steps + 1 then throw .limit

def intOperation (op : IntOp) (left right : Value) : Except RunError Int64 :=
  match left, right with
  | .int a, .int b =>
    match op with
    | .add =>
      if 0 < b ∧ maxValue - b < a ∨ b < 0 ∧ a < minValue - b then .error (.invalid none)
      else .ok (a + b)
    | .sub =>
      if b < 0 ∧ maxValue + b < a ∨ 0 < b ∧ a < minValue + b then .error (.invalid none)
      else .ok (a - b)
    | .mul =>
      if a ≠ 0 ∧ (a = -1 ∧ b = minValue ∨ b = -1 ∧ a = minValue ∨ a * b / a ≠ b) then
        .error (.invalid none)
      else .ok (a * b)
    | .div =>
      if b = 0 ∨ a = minValue ∧ b = -1 then .error (.invalid none) else .ok (a / b)
    | .mod => if b = 0 then .error (.invalid none) else .ok (a % b)
  | _, _ => .error (.invalid none)

/-- An `ErrInvalidProgram` gets a category. -/
def classified {α : Type} (code : String) : Except RunError α → Run α
  | .ok a => return a
  | .error (.invalid _) => throw (.invalid (some code))
  | .error e => throw e

/-- `expression` at an `exprInt`, with the evaluations of its operands. -/
def exprInt (op : IntOp) (left right : Run Value) : Run Value := do
  step
  let a ← left
  let b ← right
  return .int (← classified "runtime_integer_invalid" (intOperation op a b))

/-! ## Exactness -/

/-- The exact result, division truncating toward zero; there is none if the divisor is zero. -/
def IntOp.exact : IntOp → ℤ → ℤ → Option ℤ
  | .add, a, b => some (a + b)
  | .sub, a, b => some (a - b)
  | .mul, a, b => some (a * b)
  | .div, a, b => if b = 0 then none else some (a.tdiv b)
  | .mod, a, b => if b = 0 then none else some (a.tmod b)

/-- The integers of type `int64`. -/
def Fits (z : ℤ) : Prop := -2 ^ 63 ≤ z ∧ z < 2 ^ 63

variable {a b c : Int64} {z : ℤ}

theorem bmod_of_fits (fits : Fits z) : z.bmod (2 ^ 64) = z := by
  obtain ⟨low, high⟩ := fits
  exact Int.bmod_eq_of_le (by omega) (by omega)

theorem fits_toInt (a : Int64) : Fits a.toInt := ⟨a.le_toInt, a.toInt_lt⟩

/-- A wrapping operation whose test refuses exactly the results that do not fit. -/
theorem checked_eq_ok {e : RunError} {overflow : Prop} [Decidable overflow] {wrapped : Int64}
    (wraps : wrapped.toInt = z.bmod (2 ^ 64)) (test : ¬overflow ↔ Fits z) :
    (if overflow then .error e else .ok wrapped) = (.ok c : Except RunError Int64) ↔
      z = c.toInt := by
  split_ifs with large
  · exact iff_of_false nofun fun same => test.mpr (same ▸ fits_toInt c) large
  · rw [bmod_of_fits (test.mp large)] at wraps
    rw [Except.ok.injEq, ← toInt_inj, wraps]

theorem add_test : ¬(0 < b ∧ maxValue - b < a ∨ b < 0 ∧ a < minValue - b) ↔
    Fits (a.toInt + b.toInt) := by
  obtain ⟨low, high⟩ := fits_toInt a
  obtain ⟨low', high'⟩ := fits_toInt b
  simp only [Int64.lt_iff_toInt_lt, toInt_sub, toInt_zero, Int64.toInt_maxValue, toInt_minValue,
    Fits, Int.bmod_def]
  split_ifs <;> omega

theorem sub_test : ¬(b < 0 ∧ maxValue + b < a ∨ 0 < b ∧ a < minValue + b) ↔
    Fits (a.toInt - b.toInt) := by
  obtain ⟨low, high⟩ := fits_toInt a
  obtain ⟨low', high'⟩ := fits_toInt b
  simp only [Int64.lt_iff_toInt_lt, toInt_add, toInt_zero, Int64.toInt_maxValue, toInt_minValue,
    Fits, Int.bmod_def]
  split_ifs <;> omega

/-- A quotient fits except for that of the least integer and `-1`. -/
theorem fits_tdiv {x y : ℤ} (fits : Fits x) : Fits (x.tdiv y) ↔ ¬(x = -2 ^ 63 ∧ y = -1) := by
  obtain ⟨low, high⟩ := fits
  have magnitude : (x.tdiv y).natAbs = x.natAbs / y.natAbs := Int.natAbs_tdiv x y
  unfold Fits
  by_cases large : 2 ≤ y.natAbs
  · have half := Nat.div_le_div_left large (by decide : 0 < 2) (a := x.natAbs)
    omega
  · obtain rfl | rfl | rfl : y = -1 ∨ y = 0 ∨ y = 1 := by omega
    · rw [Int.tdiv_neg, Int.tdiv_one]
      omega
    · rw [Int.tdiv_zero]
      omega
    · rw [Int.tdiv_one]
      omega

theorem toInt_beq (a b : Int64) : (a == b) = decide (a.toInt = b.toInt) := by
  rw [Bool.eq_iff_iff, beq_iff_eq, decide_eq_true_eq, toInt_inj]

/-- A wrapped product that can be divided back is exact. -/
theorem fits_mul {x y : ℤ} (hx : Fits x) (hy : Fits y) (nonzero : x ≠ 0)
    (least : x ≠ -1 ∨ y ≠ -2 ^ 63)
    (quotient : (((x * y).bmod (2 ^ 64)).tdiv x).bmod (2 ^ 64) = y) : Fits (x * y) := by
  have wrapped : (x * y).bmod (2 ^ 64) % 2 ^ 64 = x * y % 2 ^ 64 := Int.bmod_emod
  have low := Int.le_bmod (x := x * y) (m := 2 ^ 64) (by decide)
  have high := Int.bmod_lt (x := x * y) (m := 2 ^ 64) (by decide)
  generalize (x * y).bmod (2 ^ 64) = p at *
  have fits : Fits p := ⟨by omega, by omega⟩
  obtain ⟨hx, hx'⟩ := hx
  obtain ⟨hy, hy'⟩ := hy
  have other : ¬(p = -2 ^ 63 ∧ x = -1) := by
    rintro ⟨rfl, rfl⟩
    omega
  rw [bmod_of_fits ((fits_tdiv fits).mpr other)] at quotient
  -- the remainder is a multiple of `2 ^ 64` and less than `x`
  have parts := Int.mul_tdiv_add_tmod p x
  have rest := Int.natAbs_tmod p x
  have small := Nat.mod_lt p.natAbs (Int.natAbs_pos.mpr nonzero)
  rw [quotient] at parts
  have exact_ : p = x * y := by omega
  exact exact_ ▸ fits

theorem mul_test :
    ¬(a ≠ 0 ∧ (a = -1 ∧ b = minValue ∨ b = -1 ∧ a = minValue ∨ a * b / a ≠ b)) ↔
      Fits (a.toInt * b.toInt) := by
  have one : (-1 : Int64).toInt = -1 := rfl
  by_cases zero : a = 0
  · subst zero
    simp [Fits]
  have nonzero : a.toInt ≠ 0 := fun h => zero (toInt_inj.mp h)
  simp only [← toInt_inj, one, toInt_div, toInt_mul, toInt_minValue, toInt_zero, ne_eq, nonzero,
    not_false_eq_true, true_and, not_or, not_and_or, not_not]
  constructor
  · rintro ⟨least, -, quotient⟩
    exact fits_mul (fits_toInt a) (fits_toInt b) nonzero least quotient
  · intro fits
    rw [bmod_of_fits fits, Int.mul_tdiv_cancel_left _ nonzero, bmod_of_fits (fits_toInt b)]
    refine ⟨?_, ?_, rfl⟩
    all_goals
      by_contra both
      rw [not_or, not_not, not_not] at both
      rw [both.1, both.2] at fits
      exact absurd fits (by unfold Fits; omega)

theorem intOperation_eq_ok (op : IntOp) (a b c : Int64) :
    intOperation op (.int a) (.int b) = .ok c ↔ op.exact a.toInt b.toInt = some c.toInt := by
  have zero : b = 0 ↔ b.toInt = 0 := by rw [← toInt_inj, toInt_zero]
  cases op with
  | add => exact (checked_eq_ok (toInt_add a b) add_test).trans Option.some_inj.symm
  | sub => exact (checked_eq_ok (toInt_sub a b) sub_test).trans Option.some_inj.symm
  | mul => exact (checked_eq_ok (toInt_mul a b) mul_test).trans Option.some_inj.symm
  | div =>
    by_cases none : b = 0
    · simp [intOperation, IntOp.exact, none]
    · have test : ¬(b = 0 ∨ a = minValue ∧ b = -1) ↔ Fits (a.toInt.tdiv b.toInt) := by
        rw [fits_tdiv (fits_toInt a)]
        simp [← toInt_inj, zero.not.mp none]
      rw [IntOp.exact, if_neg (zero.not.mp none), Option.some_inj]
      exact checked_eq_ok (toInt_div a b) test
  | mod =>
    by_cases none : b = 0
    · simp [intOperation, IntOp.exact, none]
    · simp [intOperation, IntOp.exact, none, zero.not.mp none, ← toInt_inj, Int64.toInt_mod]

/-- No `int64` is the result: the divisor is zero, or the exact result does not fit. -/
def IntOp.Undefined (op : IntOp) (x y : ℤ) : Prop :=
  ((op = .div ∨ op = .mod) ∧ y = 0) ∨ ∃ z, op.exact x y = some z ∧ ¬ Fits z

theorem intOperation_eq_error (op : IntOp) (a b : Int64) :
    (∃ e, intOperation op (.int a) (.int b) = .error e) ↔ op.Undefined a.toInt b.toInt := by
  have undefined : op.Undefined a.toInt b.toInt ↔ ∀ c : Int64,
    op.exact a.toInt b.toInt ≠ some c.toInt := by
    constructor
    · rintro (⟨rfl | rfl, zero⟩ | ⟨z, found, large⟩) c result
      · simp [IntOp.exact, zero] at result
      · simp [IntOp.exact, zero] at result
      · obtain rfl := Option.some.inj (found.symm.trans result)
        exact large (fits_toInt c)
    · intro none
      cases found : op.exact a.toInt b.toInt with
      | none =>
        refine .inl ?_
        cases op <;> simp_all [IntOp.exact]
      | some z =>
        refine .inr ⟨z, found, fun fits => none (.ofInt z) ?_⟩
        rw [found, Int64.toInt_ofInt_of_le fits.1 fits.2]
  rw [undefined]
  simp only [ne_eq, ← intOperation_eq_ok]
  cases intOperation op (.int a) (.int b) with
  | error e => simp
  | ok c => simp

theorem run_bind {α β : Type} {x : Run α} {f : α → Run β} {r r' : Runtime} {v : α}
    (ran : x.run r = .ok (v, r')) : (x >>= f).run r = (f v).run r' := by
  rw [StateT.run_bind, ran]
  rfl

/-- **Integer operations are exact.**  Each returns the exact result of two integers or an
error, and an error exactly if the divisor is zero or the result does not fit; and that is
what an expression evaluates to whose operands have evaluated to these integers. -/
theorem int_operations_exact (op : IntOp) (a b : Int64) :
    (∀ c, intOperation op (.int a) (.int b) = .ok c ↔ op.exact a.toInt b.toInt = some c.toInt) ∧
    ((∃ e, intOperation op (.int a) (.int b) = .error e) ↔ op.Undefined a.toInt b.toInt) ∧
    ∀ left right r r₀ r₁ r₂, step.run r = .ok ((), r₀) → left.run r₀ = .ok (.int a, r₁) →
      right.run r₁ = .ok (.int b, r₂) → (exprInt op left right).run r =
        (classified "runtime_integer_invalid"
          ((intOperation op (.int a) (.int b)).map Value.int)).run r₂ := by
  refine ⟨intOperation_eq_ok op a b, intOperation_eq_error op a b, ?_⟩
  intro left right r r₀ r₁ r₂ stepped first second
  rw [exprInt, run_bind stepped, run_bind first, run_bind second]
  cases intOperation op (.int a) (.int b) with
  | error e => cases e <;> rfl
  | ok c => rfl

example : ((exprInt .div (pure (.int 7)) (pure (.int (-2)))).run ⟨1, fun _ => false, 0, 0⟩).map
    (·.1) = .ok (.int (-3)) := rfl

end AutoAgent.Programmatic
