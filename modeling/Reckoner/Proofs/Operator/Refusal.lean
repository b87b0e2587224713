import Reckoner.Value.Apply
import Reckoner.Proofs.Binary64.Rounding
/-!
# Arithmetic that is refused, and what becomes of it

A bare operation on two numbers may be refused: a whole number, or a quotient of whole numbers, can be above every
finite binary64 number, and a divisor can be zero. A zero divisor is looked at before the operation, and an operation
that is refused for the size of its operands is carried out a second time on infinities. So nothing is left to be
refused, and an operator has a value on every two operands that are numbers or absent (`never_refused`).
-/
namespace Reckoner

/-- Why a bare operation gives no number. -/
inductive Refusal where
  | overflow
  | zeroDivisor
  deriving DecidableEq, Repr

namespace Binary64

/-- A whole number other than zero is not rounded to zero. -/
theorem isZero_of_ofInt? {n : Int} {x : Binary64} (h : ofInt? n = some x) : x.isZero = (n == 0) := by
  obtain ⟨m, rounded, rfl⟩ := Option.map_eq_some_iff.mp h
  by_cases zero : n = 0
  · subst zero
    rw [Int.natAbs_zero, Nat.zero_mul, Magnitude.round?_of_small (by decide)] at rounded
    cases rounded
    rfl
  · have units : 1 ≤ n.natAbs * unitsPerOne := Nat.mul_pos (Int.natAbs_pos.mpr zero) unitsPerOne_pos
    have positive := Magnitude.units_pos_of_round? Nat.one_pos units rounded
    have notZero : m.isZero = false := by
      by_contra isZero
      exact positive.ne' (Magnitude.units_of_isZero (by simpa using isZero))
    simp [isZero, notZero, zero]

end Binary64

/-- A result that is there unless something overflows. -/
def orOverflow {α : Type} (result? : Option α) : Except Refusal α :=
  match result? with
  | some a => .ok a
  | none => .error .overflow

namespace Number

/-- A number is zero as a binary64 one exactly if it is zero. -/
theorem isZero_of_toBinary64? {a : Number} {x : Binary64} (h : a.toBinary64? = some x) : x.isZero = a.isZero := by
  cases a with
  | int n => exact Binary64.isZero_of_ofInt? h
  | float y =>
    cases h
    rfl

/-- A zero divisor gives binary64 numbers the quotient that they have anyway. -/
theorem overZero_float {x y : Binary64} (zero : y.isZero = true) : overZero (.float x) (.float y) = x.div y := by
  cases y with
  | nan => cases zero
  | infinite t => cases zero
  | finite t m =>
    have magnitude : m.isZero = true := zero
    cases x with
    | nan => rfl
    | infinite s => rfl
    | finite s k =>
      rw [Binary64.div, if_pos magnitude, overZero]
      simp [isZero, isNaN, isNegative, Binary64.isZero, Binary64.isNaN, Binary64.isNegative]

end Number

namespace Operator

/-- The operation on two binary64 numbers as such. -/
def bareBinary64 (op : Operator) (x y : Binary64) : Except Refusal Number :=
  if op = .over ∧ y.isZero then .error .zeroDivisor else .ok (.float (op.onBinary64 x y))

/-- The operation on two numbers as such. Whole numbers stay whole, but for a division; otherwise both numbers are made
binary64 ones. -/
def bare (op : Operator) : Number → Number → Except Refusal Number
  | .int m, .int n =>
    match op with
    | .times => .ok (.int (m * n))
    | .plus => .ok (.int (m + n))
    | .minus => .ok (.int (m - n))
    | .over => if n = 0 then .error .zeroDivisor else orOverflow ((Binary64.ofQuotient? m n).map .float)
  | a, b => do
    let x ← orOverflow a.toBinary64?
    let y ← orOverflow b.toBinary64?
    op.bareBinary64 x y

/-- The operation after a look at the divisor. -/
def attempt (op : Operator) (a b : Number) : Except Refusal Number :=
  if op = .over ∧ b.isZero then .ok (.float (Number.overZero a b)) else op.bare a b

/-- The operation, and if that overflows the operation on the operands as binary64 numbers. -/
def attemptTwice (op : Operator) (a b : Number) : Except Refusal Number :=
  match op.attempt a b with
  | .error .overflow => op.attempt (.float a.toBinary64) (.float b.toBinary64)
  | outcome => outcome

/-- The first attempt is refused for an overflow alone. -/
theorem attempt_eq (op : Operator) (a b : Number) : op.attempt a b = orOverflow (op.calculate? a b) := by
  unfold attempt calculate?
  by_cases zero : op = .over ∧ b.isZero = true
  · rw [if_pos zero, if_pos zero]
    rfl
  · rw [if_neg zero, if_neg zero]
    have converted : (do
        let x ← orOverflow a.toBinary64?
        let y ← orOverflow b.toBinary64?
        op.bareBinary64 x y) =
        orOverflow (do
          let x ← a.toBinary64?
          let y ← b.toBinary64?
          return .float (op.onBinary64 x y)) := by
      cases a.toBinary64? with
      | none => rfl
      | some x =>
        cases isNumber : b.toBinary64? with
        | none => rfl
        | some y =>
          refine if_neg fun divides => zero ⟨divides.1, ?_⟩
          rw [← Number.isZero_of_toBinary64? isNumber, divides.2]
    cases a with
    | float x => cases op <;> exact converted
    | int m =>
      cases b with
      | float y => cases op <;> exact converted
      | int n =>
        by_cases divides : op = .over
        · subst divides
          have nonzero : n ≠ 0 := by simpa [Number.isZero] using zero
          exact if_neg nonzero
        · cases op <;> first | exact absurd rfl divides | rfl

theorem attempt_float (op : Operator) (x y : Binary64) :
    op.attempt (.float x) (.float y) = .ok (.float (op.onBinary64 x y)) := by
  unfold attempt
  split
  next zero =>
    obtain ⟨rfl, zero⟩ := zero
    rw [Number.overZero_float zero]
    rfl
  next other => exact if_neg other

/-- After two attempts nothing is refused, and the outcome is the result of the operator. -/
theorem attemptTwice_eq (op : Operator) (a b : Number) : op.attemptTwice a b = .ok (op.calculate a b) := by
  unfold attemptTwice calculate
  rw [attempt_eq]
  cases op.calculate? a b with
  | some c => rfl
  | none => exact attempt_float op a.toBinary64 b.toBinary64

end Operator

namespace Value

/-- A value that arithmetic takes: none at all, a truth value or a number. -/
def IsArithmetic : Value → Prop
  | .absent | .bool _ | .int _ | .float _ => True
  | _ => False

theorem IsArithmetic.cases {v : Value} (h : v.IsArithmetic) : v = .absent ∨ ∃ a, Number.ofValue? v = some a := by
  cases v with
  | absent => exact .inl rfl
  | bool b => exact .inr ⟨_, rfl⟩
  | int n => exact .inr ⟨_, rfl⟩
  | float x => exact .inr ⟨_, rfl⟩
  | _ => cases h

theorem IsArithmetic.not_text {v : Value} (h : v.IsArithmetic) : v.asText? = none := by
  cases v <;> first | rfl | cases h

end Value

namespace Operator

variable {op : Operator} {left right : Value}

theorem apply_absent (leftKind : left.IsArithmetic) (rightKind : right.IsArithmetic)
    (absent : left = .absent ∨ right = .absent) : op.apply left right = .ok (.float .nan) := by
  have noText : op.joins left right = false := by simp [joins, leftKind.not_text, rightKind.not_text]
  have lacks : lacksOperand left right = true := by
    rcases absent with rfl | rfl
    · rfl
    · cases left <;> rfl
  unfold apply
  rw [noText, lacks]
  rfl

/-- What an operator does on values that arithmetic takes. -/
structure NeverRefused (op : Operator) (left right : Value) : Prop where
  value : ∃ v, applySymbol op.symbol left right = .ok v
  absent : left = .absent ∨ right = .absent → applySymbol op.symbol left right = .ok (.float .nan)
  /-- Of two numbers it is the result that is left after two attempts, none of which ends in a refusal. -/
  attempts : ∀ a b, Number.ofValue? left = some a → Number.ofValue? right = some b →
    ∃ c, op.attemptTwice a b = .ok c ∧ applySymbol op.symbol left right = .ok c.toValue
  /-- A zero or NaN over zero is NaN. -/
  indeterminate : ∀ a b, Number.ofValue? left = some a → Number.ofValue? right = some b → op = .over → b.isZero = true →
    a.isZero = true ∨ a.isNaN = true → applySymbol op.symbol left right = .ok (.float .nan)
  /-- Anything else over zero is an infinity, negative if exactly one of the two signs is. -/
  infinite : ∀ a b, Number.ofValue? left = some a → Number.ofValue? right = some b → op = .over → b.isZero = true →
    ¬(a.isZero = true ∨ a.isNaN = true) →
      applySymbol op.symbol left right = .ok (.float (.infinite (a.isNegative != b.isNegative)))

theorem calculate_over_zero {a b : Number} (zero : b.isZero = true) :
    over.calculate a b = .float (Number.overZero a b) := by
  unfold calculate calculate?
  rw [if_pos ⟨rfl, zero⟩, Option.getD_some]

/-- An operator has a value on all numbers and absent values, whatever their size. -/
theorem never_refused (op : Operator) (leftKind : left.IsArithmetic) (rightKind : right.IsArithmetic) :
    NeverRefused op left right := by
  have numbers {a b : Number} (leftIs : Number.ofValue? left = some a) (rightIs : Number.ofValue? right = some b) :
      applySymbol op.symbol left right = .ok (op.calculate a b).toValue := by
    rw [applySymbol_symbol, apply_numbers leftIs rightIs]
  have missing (absent : left = .absent ∨ right = .absent) :
      applySymbol op.symbol left right = .ok (.float .nan) := by
    rw [applySymbol_symbol, apply_absent leftKind rightKind absent]
  constructor
  · rcases leftKind.cases with absent | ⟨a, leftIs⟩
    · exact ⟨_, missing (.inl absent)⟩
    · rcases rightKind.cases with absent | ⟨b, rightIs⟩
      · exact ⟨_, missing (.inr absent)⟩
      · exact ⟨_, numbers leftIs rightIs⟩
  · exact missing
  · intro a b leftIs rightIs
    exact ⟨_, attemptTwice_eq op a b, numbers leftIs rightIs⟩
  · rintro a b leftIs rightIs rfl zero indeterminate
    rw [numbers leftIs rightIs, calculate_over_zero zero, Number.overZero, if_pos (by simpa using indeterminate)]
    rfl
  · rintro a b leftIs rightIs rfl zero determinate
    rw [numbers leftIs rightIs, calculate_over_zero zero, Number.overZero, if_neg (by simpa using determinate)]
    rfl

/-- A negative number of 400 digits divided by the truth value that counts as zero. -/
theorem never_refused_digits :
    (Value.int (-10 ^ 399)).IsArithmetic ∧ (Value.bool false).IsArithmetic ∧
      applySymbol over.symbol (.int (-10 ^ 399)) (.bool false) = .ok (.float (.infinite true)) := by
  have total : NeverRefused .over (.int (-10 ^ 399)) (.bool false) := never_refused .over trivial trivial
  have nonzero : (Number.int (-10 ^ 399)).isZero = false := by decide +kernel
  have negative : (Number.int (-10 ^ 399)).isNegative = true := by decide +kernel
  refine ⟨trivial, trivial, ?_⟩
  have infinite := total.infinite _ _ rfl rfl rfl rfl (by simp [nonzero, Number.isNaN])
  rw [negative] at infinite
  exact infinite

end Operator
end Reckoner
