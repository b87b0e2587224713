import Reckoner.Binary64.Basic
/-!
# Decimal numbers and binary64

Reading a decimal gives the nearest binary64 number. Writing one takes the fewest digits that read back as the same
number, and of the decimals with that many digits the nearest; between two equally near ones the even digit wins.
Seventeen digits always suffice, and the exact decimal expansion stands behind the search, so what is written reads
back in any case.
-/
namespace Reckoner

/-- The decimal number `digits * 10^exponent`. -/
structure Decimal where
  digits : Nat
  exponent : Int
  deriving DecidableEq, Repr

/-- How many decimal digits a number is written with. -/
def digitCount (n : Nat) : Nat := (Nat.toDigits 10 n).length

namespace Decimal

/-- The decimal as a ratio of units of `2^-1074`. -/
def numerator (d : Decimal) : Nat := d.digits * Nat.pow 10 d.exponent.toNat * unitsPerOne

def denominator (d : Decimal) : Nat := Nat.pow 10 (-d.exponent).toNat

/-- The magnitude nearest to the decimal; `none` when that is above the greatest one. Decimals far outside the range
of magnitudes are told by their size alone: `digits` is less than `2^(log2 + 1)`, so less than `10^(log2 + 1)`. -/
def magnitude? (d : Decimal) : Option Magnitude :=
  if d.digits = 0 then some .zero
  else if 400 < d.exponent then none
  else if d.exponent + d.digits.log2 + 1 < -400 then some .zero
  else Magnitude.round? d.numerator d.denominator

/-- The same decimal without zeros at its end. -/
def trimmed (d : Decimal) : Decimal :=
  if d.digits ≠ 0 ∧ d.digits % 10 = 0 then trimmed ⟨d.digits / 10, d.exponent + 1⟩ else d
termination_by d.digits
decreasing_by exact Nat.div_lt_self (by omega) (by decide)

/-- The binary64 number nearest to the decimal under a sign. -/
def toBinary64 (negative : Bool) (d : Decimal) : Binary64 := .ofMagnitude? negative d.magnitude?

end Decimal

namespace Magnitude

/-- The exponent of the leading decimal digit of a positive magnitude. -/
def decade (m : Magnitude) : Int :=
  if unitsPerOne ≤ m.units then (digitCount (m.units / unitsPerOne) : Int) - 1
  else -(digitCount ((unitsPerOne + m.units - 1) / m.units - 1) : Int)

/-- The magnitude, as a ratio, on the grid of decimals with the given exponent. -/
def scaled (m : Magnitude) (exponent : Int) : Nat × Nat :=
  (m.units * Nat.pow 10 (-exponent).toNat, unitsPerOne * Nat.pow 10 exponent.toNat)

/-- Does the decimal read as this magnitude? -/
def readsBack (m : Magnitude) (d : Decimal) : Bool := d.magnitude? == some m

/-- The decimal of this exponent that reads back, the nearest if there are two, of two equally near the even one. -/
def onGrid? (m : Magnitude) (exponent : Int) : Option Decimal :=
  let (numerator, denominator) := m.scaled exponent
  let below : Decimal := ⟨numerator / denominator, exponent⟩
  let above : Decimal := ⟨numerator / denominator + 1, exponent⟩
  let nearest := if roundedQuotient numerator denominator = below.digits then below else above
  let other := if roundedQuotient numerator denominator = below.digits then above else below
  if m.readsBack nearest then some nearest
  else if m.readsBack other then some other
  else none

/-- All digits of the magnitude: a unit is `5^1074` at the exponent `-1074`. -/
def exactDecimal (m : Magnitude) : Decimal := ⟨m.units * Nat.pow 5 1074, -1074⟩

/-- The shortest decimal that reads back as the magnitude. -/
def shortest (m : Magnitude) : Decimal :=
  if m.isZero then ⟨0, 0⟩
  else
    let leading := m.decade
    match (List.range 17).findSome? fun (k : Nat) => m.onGrid? (leading - k) with
    | some d => d.trimmed
    | none => m.exactDecimal

end Magnitude
end Reckoner
