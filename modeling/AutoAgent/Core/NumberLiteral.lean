import Mathlib.Computability.Language

/-!
# Number literals

`validJSONNumberLiteral` scans a `json.Number` before it is written.  It accepts the numbers of
RFC 8259 and no other byte string (`validJSONNumberLiteral_iff`).
-/

namespace AutoAgent.NumberLiteral

open List
open scoped Computability

/-! ## The scanner

Each function is what the source does from an index on, given the bytes from there. -/

def isDigit (b : UInt8) : Bool := '0'.toUInt8 ≤ b && b ≤ '9'.toUInt8

/-- A loop over digits that has to move the index, and what comes after it. -/
def digits (next : List UInt8 → Bool) (rest : List UInt8) : Bool :=
  rest.head?.any isDigit && next (rest.dropWhile isDigit)

/-- A byte that may come next is skipped. -/
def skip (p : UInt8 → Bool) (rest : List UInt8) : List UInt8 :=
  if rest.head?.any p then rest.tail else rest

def isSign (b : UInt8) : Bool := b == '+'.toUInt8 || b == '-'.toUInt8

def isMark (b : UInt8) : Bool := b == 'e'.toUInt8 || b == 'E'.toUInt8

def exponent : List UInt8 → Bool
  | [] => true
  | b :: rest => isMark b && digits isEmpty (skip isSign rest)

def fraction : List UInt8 → Bool
  | [] => exponent []
  | b :: rest => if b = '.'.toUInt8 then digits exponent rest else exponent (b :: rest)

def integer : List UInt8 → Bool
  | [] => false
  | b :: rest =>
    if b = '0'.toUInt8 then fraction rest
    else !(b < '1'.toUInt8 || '9'.toUInt8 < b) && fraction ((b :: rest).dropWhile isDigit)

/-- `validJSONNumberLiteral`.  A value that is empty or a minus alone has no integer. -/
def validJSONNumberLiteral (value : List UInt8) : Bool :=
  integer (skip (· == '-'.toUInt8) value)

/-! ## The grammar -/

/-- One byte of a class. -/
def one (p : UInt8 → Bool) : Language UInt8 := {w | ∃ b, p b ∧ w = [b]}

def digit := one isDigit

/-- `int = zero / ( digit1-9 *DIGIT )`. -/
def int := one (· == '0'.toUInt8) + one (fun b => '1'.toUInt8 ≤ b && b ≤ '9'.toUInt8) * digit∗

/-- `frac = decimal-point 1*DIGIT`. -/
def frac := one (· == '.'.toUInt8) * (digit * digit∗)

/-- `exp = e [ minus / plus ] 1*DIGIT`. -/
def exp := one isMark * ((1 + one isSign) * (digit * digit∗))

/-- `number = [ minus ] int [ frac ] [ exp ]`. -/
def number := (1 + one (· == '-'.toUInt8)) * (int * ((1 + frac) * (1 + exp)))

/-! ## The scanner accepts the grammar -/

variable {p : UInt8 → Bool} {b : UInt8} {w : List UInt8} {L : Language UInt8}

theorem nil_mem_one_mul : [] ∈ one p * L ↔ False := by
  rw [Language.mem_mul, iff_false]
  rintro ⟨_, ⟨b, -, rfl⟩, _, -, ⟨⟩⟩

theorem cons_mem_one_mul : b :: w ∈ one p * L ↔ p b ∧ w ∈ L := by
  rw [Language.mem_mul]
  constructor
  · rintro ⟨_, ⟨c, own, rfl⟩, rest, mem, ⟨⟩⟩
    exact ⟨own, mem⟩
  · exact fun ⟨own, mem⟩ => ⟨[b], ⟨b, own, rfl⟩, w, mem, rfl⟩

/-- Digits are read as far as they go. -/
theorem mem_digits_mul (ends : ∀ b w, b :: w ∈ L → isDigit b = false) :
    w ∈ (one isDigit)∗ * L ↔ w.dropWhile isDigit ∈ L := by
  have expand : (one isDigit)∗ * L = L + one isDigit * ((one isDigit)∗ * L) := by
    rw [← mul_assoc, ← one_add_mul, Language.one_add_self_mul_kstar_eq_kstar]
  induction w with
  | nil =>
    rw [expand, Language.mem_add, nil_mem_one_mul, or_false]
    rfl
  | cons b w ih =>
    rw [expand, Language.mem_add, cons_mem_one_mul]
    cases digit : isDigit b with
    | true =>
      have other : b :: w ∉ L := fun mem => by simp [ends b w mem] at digit
      simpa [digit, other] using ih
    | false => simp [digit]

theorem digits_iff {next : List UInt8 → Bool} (same : ∀ w, next w ↔ w ∈ L)
    (ends : ∀ b w, b :: w ∈ L → isDigit b = false) :
    digits next w ↔ w ∈ one isDigit * ((one isDigit)∗ * L) := by
  cases w with
  | nil => simp [digits, nil_mem_one_mul]
  | cons b w =>
    rw [cons_mem_one_mul, mem_digits_mul ends, ← same]
    simp +contextual [digits]

theorem skip_iff (other : ∀ b w, b :: w ∈ L → p b = false) :
    w ∈ (1 + one p) * L ↔ skip p w ∈ L := by
  rw [add_mul, one_mul, Language.mem_add]
  cases w with
  | nil => simp [skip, nil_mem_one_mul]
  | cons b w =>
    rw [cons_mem_one_mul]
    cases own : p b with
    | true =>
      have apart : b :: w ∉ L := fun mem => by simp [other b w mem] at own
      simp [skip, own, apart]
    | false => simp [skip, own]

theorem not_sign (h : isDigit b) : isSign b = false := by
  cases own : isSign b with
  | false => rfl
  | true =>
    simp only [isSign, Bool.or_eq_true, beq_iff_eq] at own
    rcases own with rfl | rfl <;> exact absurd h (by decide)

theorem exponent_iff : exponent w ↔ w ∈ 1 + exp := by
  have last (w : List UInt8) : w.isEmpty ↔ w ∈ (1 : Language UInt8) := by
    simp [Language.mem_one]
  rw [Language.mem_add, exp, Language.mem_one]
  cases w with
  | nil => simp [exponent]
  | cons b w =>
    rw [cons_mem_one_mul, skip_iff, exponent, Bool.and_eq_true, digit,
      digits_iff last (by simp [Language.mem_one]), mul_one]
    · simp
    · intro c v mem
      rw [digit, cons_mem_one_mul] at mem
      exact not_sign mem.1

theorem mark_of_mem (mem : b :: w ∈ 1 + exp) : b = 'e'.toUInt8 ∨ b = 'E'.toUInt8 := by
  rw [Language.mem_add, exp, cons_mem_one_mul, isMark, Bool.or_eq_true, beq_iff_eq,
    beq_iff_eq] at mem
  simpa using (mem.resolve_left (by simp [Language.mem_one])).1

theorem fraction_iff : fraction w ↔ w ∈ (1 + frac) * (1 + exp) := by
  rw [add_mul, one_mul, Language.mem_add, frac, digit, mul_assoc, mul_assoc]
  cases w with
  | nil => simp [fraction, nil_mem_one_mul, exponent_iff]
  | cons b w =>
    rw [cons_mem_one_mul, fraction]
    split_ifs with point
    · subst point
      have apart : '.'.toUInt8 :: w ∉ 1 + exp := fun mem => absurd (mark_of_mem mem) (by decide)
      rw [digits_iff (fun _ => exponent_iff), or_iff_right apart]
      · simp only [beq_self_eq_true, true_and]
      · intro c v mem
        rcases mark_of_mem mem with rfl | rfl <;> rfl
    · simp [point, exponent_iff]

theorem integer_iff : integer w ↔ w ∈ int * ((1 + frac) * (1 + exp)) := by
  rw [int, add_mul, Language.mem_add, mul_assoc, digit]
  cases w with
  | nil => simp [integer, nil_mem_one_mul]
  | cons b w =>
    rw [cons_mem_one_mul, cons_mem_one_mul, integer]
    split_ifs with zero
    · subst zero
      rw [fraction_iff, or_iff_left (fun mem => absurd mem.1 (by decide))]
      simp only [beq_self_eq_true, true_and]
    · rw [Bool.and_eq_true, fraction_iff, or_iff_right (by simp [zero]), mem_digits_mul]
      · simp only [Bool.not_eq_true', Bool.or_eq_false_iff, decide_eq_false_iff_not, UInt8.not_lt,
          Bool.and_eq_true, decide_eq_true_eq]
        refine and_congr_right fun lead => ?_
        have own : isDigit b := by
          simpa [isDigit, lead.2] using UInt8.le_trans (by decide) lead.1
        rw [dropWhile_cons_of_pos own]
      · intro c v mem
        rw [← fraction_iff, fraction] at mem
        split_ifs at mem with point
        · exact point ▸ rfl
        · rcases mark_of_mem (exponent_iff.mp mem) with rfl | rfl <;> rfl

/-- The scanner accepts a byte string if and only if it is a number of RFC 8259. -/
theorem validJSONNumberLiteral_iff (value : List UInt8) :
    validJSONNumberLiteral value = true ↔ value ∈ number := by
  rw [number, skip_iff, validJSONNumberLiteral, integer_iff]
  intro b w mem
  rw [← integer_iff] at mem
  by_contra minus
  rw [Bool.not_eq_false, beq_iff_eq] at minus
  subst minus
  exact Bool.false_ne_true mem

end AutoAgent.NumberLiteral
