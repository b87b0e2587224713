/-!
# Binary64 numbers

A finite number is a signed whole multiple of `2^-1074`, the least positive number, so magnitudes and their
roundings are exact arithmetic on natural numbers. A magnitude is a significand of at most 53 bits moved left by a
scale; the scale is as small as the significand allows, so every magnitude has one form and equality of forms is
equality of numbers, the two zeros apart.

`Magnitude.round?` is the one place where anything is rounded: to the nearest magnitude, a tie to the even
significand, nothing above the greatest magnitude.
-/
namespace Reckoner

/-- A finite magnitude of `significand * 2^scale` units, one unit being `2^-1074`. -/
structure Magnitude where
  significand : Nat
  scale : Nat
  significand_lt : significand < Nat.pow 2 53
  scale_le : scale ≤ 2045
  normal : scale = 0 ∨ Nat.pow 2 52 ≤ significand
  deriving DecidableEq, Repr

/-- A binary64 number. There is one NaN, and the two zeros differ in sign. -/
inductive Binary64 where
  | nan
  | infinite (negative : Bool)
  | finite (negative : Bool) (magnitude : Magnitude)
  deriving DecidableEq, Repr

/-- How many units make one: a unit is `2^-1074`. -/
def unitsPerOne : Nat := Nat.pow 2 1074

/-- The quotient `numerator / denominator` to the nearest whole number, a tie to the even one. -/
def roundedQuotient (numerator denominator : Nat) : Nat :=
  let quotient := numerator / denominator
  let remainder := numerator % denominator
  if 2 * remainder > denominator ∨ (2 * remainder = denominator ∧ quotient % 2 = 1) then quotient + 1 else quotient

theorem roundedQuotient_le (numerator denominator : Nat) :
    roundedQuotient numerator denominator ≤ numerator / denominator + 1 := by
  unfold roundedQuotient
  dsimp only
  split <;> omega

theorem le_roundedQuotient (numerator denominator : Nat) :
    numerator / denominator ≤ roundedQuotient numerator denominator := by
  unfold roundedQuotient
  dsimp only
  split <;> omega

theorem roundedQuotient_mul (quotient denominator : Nat) (positive : 0 < denominator) :
    roundedQuotient (quotient * denominator) denominator = quotient := by
  simp [roundedQuotient, Nat.mul_div_cancel _ positive]
  omega

namespace Magnitude

def units (m : Magnitude) : Nat := m.significand * Nat.pow 2 m.scale

def zero : Magnitude := ⟨0, 0, by decide, by decide, .inl rfl⟩

def one : Magnitude := ⟨Nat.pow 2 52, 1022, by decide, by decide, .inr (by decide)⟩

/-- The greatest magnitude. -/
def greatest : Magnitude := ⟨Nat.pow 2 53 - 1, 2045, by decide, by decide, .inr (by decide)⟩

def isZero (m : Magnitude) : Bool := m.significand == 0

/-- The scale at which a magnitude of `units` whole units has a significand of at most 53 bits. -/
def scaleFor (units : Nat) : Nat := units.log2 - 52

theorem div_scaleFor_lt (units : Nat) : units / Nat.pow 2 (scaleFor units) < Nat.pow 2 53 := by
  simp only [Nat.pow_eq]
  rw [Nat.div_lt_iff_lt_mul (Nat.two_pow_pos _), ← Nat.pow_add]
  exact Nat.lt_of_lt_of_le Nat.lt_log2_self
    (Nat.pow_le_pow_right (by decide) (by unfold scaleFor; omega))

theorem le_div_scaleFor (units : Nat) (h : scaleFor units ≠ 0) :
    Nat.pow 2 52 ≤ units / Nat.pow 2 (scaleFor units) := by
  simp only [Nat.pow_eq]
  unfold scaleFor at h ⊢
  rw [Nat.le_div_iff_mul_le (Nat.two_pow_pos _), ← Nat.pow_add]
  have e : 52 + (units.log2 - 52) = units.log2 := by omega
  rw [e]
  exact Nat.log2_self_le (by rintro rfl; exact h (by decide))

/-- The magnitude nearest to `numerator / denominator` units, a tie going to the even significand; `none` when that
is above the greatest magnitude. -/
def round? (numerator denominator : Nat) : Option Magnitude :=
  let scale := scaleFor (numerator / denominator)
  let significand := roundedQuotient numerator (denominator * Nat.pow 2 scale)
  if full : significand = Nat.pow 2 53 then
    if fits : scale + 1 ≤ 2045 then
      some ⟨Nat.pow 2 52, scale + 1, by decide, fits, .inr (Nat.le_refl _)⟩
    else none
  else if fits : scale ≤ 2045 then
    some ⟨significand, scale, by
        have low := div_scaleFor_lt (numerator / denominator)
        have high := roundedQuotient_le numerator (denominator * Nat.pow 2 scale)
        rw [← Nat.div_div_eq_div_mul] at high
        simp only [significand, scale] at *
        omega, fits, by
        by_cases h : scale = 0
        · exact .inl h
        · refine .inr (Nat.le_trans (le_div_scaleFor _ h) ?_)
          have := le_roundedQuotient numerator (denominator * Nat.pow 2 scale)
          rwa [← Nat.div_div_eq_div_mul] at this⟩
  else none

end Magnitude

namespace Binary64

def zero : Binary64 := .finite false .zero

def one : Binary64 := .finite false .one

/-- The sign bit; NaN has none. -/
def isNegative : Binary64 → Bool
  | .nan => false
  | .infinite negative => negative
  | .finite negative _ => negative

def isNaN : Binary64 → Bool
  | .nan => true
  | _ => false

def isZero : Binary64 → Bool
  | .finite _ m => m.isZero
  | _ => false

/-- A rounded magnitude under its sign, infinite when it is above every finite one. -/
def ofMagnitude? (negative : Bool) : Option Magnitude → Binary64
  | some m => .finite negative m
  | none => .infinite negative

/-- The signed count of units of a finite number. -/
def signedUnits (negative : Bool) (m : Magnitude) : Int := if negative then -(m.units : Int) else m.units

end Binary64
end Reckoner
