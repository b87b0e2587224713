import Reckoner.Proofs.Binary64.Rounding
import Reckoner.Proofs.Node.Respelled
/-!
# Whole binary64 numbers written as whole numbers

A whole binary64 number other than negative zero is written as the digits of its value, and what is read back is the
whole number (`SpellsInt`). An operation looks at it in two ways: the binary64 number nearest to it is the number it
was, so with a binary64 number on the other side nothing changes. With whole numbers on both sides the operation is
carried out on whole numbers, and its result is that of the binary64 numbers when those are exact (`IsExact`).
-/
namespace Reckoner

namespace Binary64

/-- The number is written as the digits of the whole number: it has no fraction and is not negative zero. -/
def SpellsInt (x : Binary64) (n : Int) : Prop := x.whole? = some n ∧ (x.isZero && x.isNegative) = false

instance (x : Binary64) (n : Int) : Decidable (x.SpellsInt n) := inferInstanceAs (Decidable (_ ∧ _))

theorem respelled_cases (x : Binary64) : x.respelled = .float x ∨ ∃ n, x.respelled = .int n ∧ x.SpellsInt n := by
  unfold respelled
  split
  next n whole =>
    split
    next => exact .inl rfl
    next positive => exact .inr ⟨n, rfl, whole, by simpa using positive⟩
  next => exact .inl rfl

theorem SpellsInt.respelled {x : Binary64} {n : Int} (h : x.SpellsInt n) : x.respelled = .int n := by
  rw [Binary64.respelled, h.1]
  exact if_neg (by rw [h.2]; exact Bool.false_ne_true)

/-- A number that spells a whole number has its sign, and as many units as make it up. -/
theorem SpellsInt.eq_finite {x : Binary64} {n : Int} (h : x.SpellsInt n) :
    ∃ m, x = .finite (decide (n < 0)) m ∧ m.units = n.natAbs * unitsPerOne := by
  obtain ⟨negative, m, rfl, whole, value⟩ := whole?_eq_some h.1
  have units : m.units / unitsPerOne * unitsPerOne = m.units := Nat.div_mul_cancel (Nat.dvd_of_mod_eq_zero whole)
  cases negative with
  | false =>
    have nonnegative : n = (m.units / unitsPerOne : Nat) := value
    have sign : decide (n < 0) = false := by
      rw [decide_eq_false_iff_not, nonnegative]
      exact Int.not_lt.mpr (Int.natCast_nonneg _)
    exact ⟨m, by rw [sign], by rw [nonnegative, Int.natAbs_natCast, units]⟩
  | true =>
    have negated : n = -((m.units / unitsPerOne : Nat) : Int) := value
    have nonzero : m.units / unitsPerOne ≠ 0 := by
      intro zero
      rw [zero, Nat.zero_mul] at units
      have positive := h.2
      rw [Magnitude.eq_zero_of_units units.symm] at positive
      cases positive
    have sign : decide (n < 0) = true := by
      rw [decide_eq_true_eq, negated]
      exact Int.neg_neg_of_pos (Int.natCast_pos.mpr (Nat.pos_of_ne_zero nonzero))
    exact ⟨m, by rw [sign], by rw [negated, Int.natAbs_neg, Int.natAbs_natCast, units]⟩

theorem SpellsInt.ofInt? {x : Binary64} {n : Int} (h : x.SpellsInt n) : Binary64.ofInt? n = some x := by
  obtain ⟨m, rfl, units⟩ := h.eq_finite
  rw [Binary64.ofInt?, ← units, Magnitude.round?_units]
  rfl

theorem SpellsInt.ofInt {x : Binary64} {n : Int} (h : x.SpellsInt n) : Binary64.ofInt n = x := by
  rw [Binary64.ofInt, h.ofInt?]
  rfl

theorem SpellsInt.isZero {x : Binary64} {n : Int} (h : x.SpellsInt n) : x.isZero = (n == 0) := by
  obtain ⟨m, rfl, units⟩ := h.eq_finite
  show m.isZero = _
  rw [Bool.eq_iff_iff, Magnitude.isZero, beq_iff_eq, beq_iff_eq]
  constructor
  · intro zero
    rw [Magnitude.units, zero, Nat.zero_mul] at units
    rcases Nat.mul_eq_zero.mp units.symm with none | power
    · omega
    · exact absurd power (Nat.ne_of_gt unitsPerOne_pos)
  · rintro rfl
    rw [Int.natAbs_zero, Nat.zero_mul] at units
    rw [Magnitude.eq_zero_of_units units]
    rfl

theorem SpellsInt.isNegative {x : Binary64} {n : Int} (h : x.SpellsInt n) : x.isNegative = decide (n < 0) := by
  obtain ⟨m, rfl, -⟩ := h.eq_finite
  rfl

theorem SpellsInt.isNaN {x : Binary64} {n : Int} (h : x.SpellsInt n) : x.isNaN = false := by
  obtain ⟨m, rfl, -⟩ := h.eq_finite
  rfl

/-- A number equal to a whole number is whole. -/
theorem whole?_of_equalsInt {x : Binary64} {n : Int} (h : x.equalsInt n = true) : x.whole? = some n := by
  cases x with
  | nan => cases h
  | infinite negative => cases h
  | finite negative m =>
    have value : signedUnits negative m = n * unitsPerOne := beq_iff_eq.mp h
    have units : m.units = n.natAbs * unitsPerOne := by
      have magnitudes := congrArg Int.natAbs value
      rw [Int.natAbs_mul, Int.natAbs_natCast] at magnitudes
      cases negative <;> simpa [signedUnits] using magnitudes
    have whole : m.units % unitsPerOne = 0 := by rw [units, Nat.mul_mod_left]
    have quotient : m.units / unitsPerOne = n.natAbs := by rw [units, Nat.mul_div_cancel _ unitsPerOne_pos]
    have positive : (0 : Int) < unitsPerOne := Int.natCast_pos.mpr unitsPerOne_pos
    rw [whole?, if_pos whole, quotient]
    cases negative with
    | false =>
      have nonnegative : 0 ≤ n := by
        by_contra below
        have scaled := Int.mul_neg_of_neg_of_pos (by omega : n < 0) positive
        simp only [signedUnits, Bool.false_eq_true, if_false] at value
        omega
      rw [if_neg (by decide)]
      congr 1
      omega
    | true =>
      have nonpositive : n ≤ 0 := by
        by_contra above
        have scaled := Int.mul_pos (by omega : 0 < n) positive
        simp only [signedUnits, if_true] at value
        omega
      rw [if_pos rfl]
      congr 1
      omega

end Binary64

namespace Number

theorem toBinary64_of_toBinary64? {a : Number} {x : Binary64} (h : a.toBinary64? = some x) : a.toBinary64 = x := by
  cases a with
  | int n =>
    have rounded : Binary64.ofInt? n = some x := h
    show Binary64.ofInt n = x
    rw [Binary64.ofInt, rounded]
    rfl
  | float y => exact Option.some.inj h

/-- A number and what it may come back as: itself, or the whole number that it spells. -/
inductive Comes : Number → Number → Prop where
  | same (a : Number) : Comes a a
  | whole (x : Binary64) (n : Int) (spells : x.SpellsInt n) : Comes (.int n) (.float x)

namespace Comes

variable {a' a b' b : Number}

theorem isZero (h : Comes a' a) : a'.isZero = a.isZero := by
  cases h with
  | same => rfl
  | whole x n spells => exact spells.isZero.symm

theorem isNaN (h : Comes a' a) : a'.isNaN = a.isNaN := by
  cases h with
  | same => rfl
  | whole x n spells => exact spells.isNaN.symm

theorem isNegative (h : Comes a' a) : a'.isNegative = a.isNegative := by
  cases h with
  | same => rfl
  | whole x n spells => exact spells.isNegative.symm

theorem toBinary64 (h : Comes a' a) : a'.toBinary64 = a.toBinary64 := by
  cases h with
  | same => rfl
  | whole x n spells => exact spells.ofInt

theorem overZero (left : Comes a' a) (right : Comes b' b) : Number.overZero a' b' = Number.overZero a b := by
  rw [Number.overZero, Number.overZero, left.isZero, left.isNaN, left.isNegative, right.isNegative]

end Comes

/-- Two whole numbers. -/
def BothInt (a b : Number) : Prop := ∃ m n, a = .int m ∧ b = .int n

end Number

namespace Operator

open Number (Comes BothInt)

/-- The binary64 result on two numbers. -/
def binary64Result (op : Operator) (a b : Number) : Binary64 :=
  if op = .over ∧ b.isZero then Number.overZero a b else op.onBinary64 a.toBinary64 b.toBinary64

/-- An operation that does not meet two whole numbers is carried out on binary64 numbers. -/
theorem calculate_eq_binary64Result (op : Operator) {a b : Number} (notInts : ¬BothInt a b) :
    op.calculate a b = .float (op.binary64Result a b) := by
  unfold calculate calculate? binary64Result
  by_cases divides : op = .over ∧ b.isZero = true
  · rw [if_pos divides, if_pos divides]
    rfl
  · rw [if_neg divides, if_neg divides]
    have converted : ((do
        let x ← a.toBinary64?
        let y ← b.toBinary64?
        return .float (op.onBinary64 x y) : Option Number).getD (.float (op.onBinary64 a.toBinary64 b.toBinary64))) =
        .float (op.onBinary64 a.toBinary64 b.toBinary64) := by
      cases first : a.toBinary64? with
      | none => rfl
      | some x =>
        cases second : b.toBinary64? with
        | none => rfl
        | some y =>
          rw [Number.toBinary64_of_toBinary64? first, Number.toBinary64_of_toBinary64? second]
          rfl
    cases a with
    | int m =>
      cases b with
      | int n => exact absurd ⟨m, n, rfl, rfl⟩ notInts
      | float y => cases op <;> exact converted
    | float x => cases op <;> exact converted

theorem binary64Result_comes (op : Operator) {a' a b' b : Number} (left : Comes a' a) (right : Comes b' b) :
    op.binary64Result a' b' = op.binary64Result a b := by
  rw [binary64Result, binary64Result, left.overZero right, right.isZero, left.toBinary64, right.toBinary64]

/-- With a binary64 number on one side the operation does not tell what the other one was. -/
theorem calculate_comes (op : Operator) {a' a b' b : Number} (left : Comes a' a) (right : Comes b' b)
    (notInts : ¬BothInt a' b') : op.calculate a' b' = op.calculate a b := by
  have notIntsBefore : ¬BothInt a b := by
    intro given
    obtain ⟨m, n, rfl, rfl⟩ := given
    cases left
    cases right
    exact notInts ⟨m, n, rfl, rfl⟩
  rw [calculate_eq_binary64Result op notInts, calculate_eq_binary64Result op notIntsBefore,
    binary64Result_comes op left right]

/-- The binary64 operation on two whole numbers has just the result of the whole operation. A division has a binary64
result in either case, which is to be the same. -/
def IsExact : Operator → Int → Int → Prop
  | .times, m, n => (Binary64.mul (.ofInt m) (.ofInt n)).SpellsInt (m * n)
  | .plus, m, n => (Binary64.add (.ofInt m) (.ofInt n)).SpellsInt (m + n)
  | .minus, m, n => (Binary64.sub (.ofInt m) (.ofInt n)).SpellsInt (m - n)
  | .over, m, n => Operator.over.calculate (.int m) (.int n) = .float (Operator.over.binary64Result (.int m) (.int n))

instance (op : Operator) (m n : Int) : Decidable (op.IsExact m n) :=
  match op with
  | .times => inferInstanceAs (Decidable (Binary64.SpellsInt _ _))
  | .plus => inferInstanceAs (Decidable (Binary64.SpellsInt _ _))
  | .minus => inferInstanceAs (Decidable (Binary64.SpellsInt _ _))
  | .over => inferInstanceAs (Decidable (Operator.over.calculate _ _ = _))

theorem comes_int_float {k : Int} {z : Binary64} : Comes (.int k) (.float z) ↔ z.SpellsInt k :=
  ⟨fun h => by cases h; assumption, fun h => .whole z k h⟩

theorem comes_iff_spellsInt {op : Operator} {m n k : Int} (whole : op.calculate (.int m) (.int n) = .int k)
    (notOver : op ≠ .over) :
    Comes (op.calculate (.int m) (.int n)) (.float (op.binary64Result (.int m) (.int n))) ↔
      (op.onBinary64 (.ofInt m) (.ofInt n)).SpellsInt k := by
  rw [whole, binary64Result, if_neg (fun divides => notOver divides.1), comes_int_float]
  exact Iff.rfl

/-- The result on two whole numbers is what the binary64 result comes back as exactly when the operation is exact. -/
theorem comes_iff_isExact (op : Operator) (m n : Int) :
    Comes (op.calculate (.int m) (.int n)) (.float (op.binary64Result (.int m) (.int n))) ↔ op.IsExact m n := by
  match op with
  | .times => exact comes_iff_spellsInt rfl (by decide)
  | .plus => exact comes_iff_spellsInt rfl (by decide)
  | .minus => exact comes_iff_spellsInt rfl (by decide)
  | .over =>
    constructor
    · intro comes
      cases result : Operator.over.calculate (.int m) (.int n) with
      | int k =>
        -- a quotient is never a whole number
        rw [calculate, calculate?] at result
        split at result
        · cases result
        · cases quotient : Binary64.ofQuotient? m n <;> simp [quotient] at result
      | float q =>
        rw [result] at comes
        cases comes
        exact result
    · intro same
      rw [show Operator.over.calculate (.int m) (.int n) = _ from same]
      exact .same _

/-- Two numbers that spell whole numbers have the quotient of these. -/
theorem isExact_over {x y : Binary64} {m n : Int} (left : x.SpellsInt m) (right : y.SpellsInt n) :
    Operator.over.IsExact m n := by
  show Operator.over.calculate (.int m) (.int n) = .float (Operator.over.binary64Result (.int m) (.int n))
  unfold calculate calculate? binary64Result
  by_cases zero : (Number.int n).isZero = true
  · simp only [zero, and_self, if_true]
    rfl
  · simp only [zero, and_false, Bool.false_eq_true, if_false]
    have nonzero : n ≠ 0 := by simpa [Number.isZero] using zero
    have leftValue : (Number.int m).toBinary64 = x := left.ofInt
    have rightValue : (Number.int n).toBinary64 = y := right.ofInt
    obtain ⟨p, xIs, xUnits⟩ := left.eq_finite
    obtain ⟨q, yIs, yUnits⟩ := right.eq_finite
    have notZero : q.isZero = false := by
      have zeroes := right.isZero
      rw [yIs] at zeroes
      rw [show q.isZero = (n == 0) from zeroes]
      simpa using nonzero
    have divided : Operator.over.onBinary64 x y = .ofMagnitude? (decide (m < 0) != decide (n < 0))
        (Magnitude.round? (m.natAbs * unitsPerOne) n.natAbs) := by
      rw [xIs, yIs]
      have division : Operator.over.onBinary64 = Binary64.div := rfl
      rw [division, Binary64.div, notZero, if_neg (by decide), xUnits, yUnits,
        Magnitude.round?_scale _ _ _ unitsPerOne_pos]
    rw [leftValue, rightValue, divided, Binary64.ofQuotient?]
    cases Magnitude.round? (m.natAbs * unitsPerOne) n.natAbs <;> rfl

end Operator
end Reckoner
