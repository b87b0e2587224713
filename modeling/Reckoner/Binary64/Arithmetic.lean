import Reckoner.Binary64.Basic
/-!
# Arithmetic on binary64 numbers

Each operation takes the exact result as a ratio of units and rounds it once. An exact sum of zero is positive
unless both summands are negative; a product or quotient is negative when exactly one operand is. A magnitude above
every finite one becomes infinite, and an operation without a meaningful result gives NaN.
-/
namespace Reckoner.Binary64

def neg : Binary64 → Binary64
  | .nan => .nan
  | .infinite negative => .infinite !negative
  | .finite negative m => .finite (!negative) m

def add : Binary64 → Binary64 → Binary64
  | .nan, _ | _, .nan => .nan
  | .infinite s, .infinite t => if s = t then .infinite s else .nan
  | .infinite s, .finite _ _ => .infinite s
  | .finite _ _, .infinite t => .infinite t
  | .finite s x, .finite t y =>
    let sum := signedUnits s x + signedUnits t y
    if sum = 0 then .finite (s && t) .zero
    else ofMagnitude? (decide (sum < 0)) (Magnitude.round? sum.natAbs 1)

def sub (x y : Binary64) : Binary64 := add x (neg y)

def mul : Binary64 → Binary64 → Binary64
  | .nan, _ | _, .nan => .nan
  | .infinite s, .infinite t => .infinite (s != t)
  | .infinite s, .finite t y => if y.isZero then .nan else .infinite (s != t)
  | .finite s x, .infinite t => if x.isZero then .nan else .infinite (s != t)
  | .finite s x, .finite t y => ofMagnitude? (s != t) (Magnitude.round? (x.units * y.units) unitsPerOne)

/-- The quotient; a zero divisor gives an infinity, or NaN under a zero dividend. -/
def div : Binary64 → Binary64 → Binary64
  | .nan, _ | _, .nan => .nan
  | .infinite _, .infinite _ => .nan
  | .infinite s, .finite t _ => .infinite (s != t)
  | .finite s _, .infinite t => .finite (s != t) .zero
  | .finite s x, .finite t y =>
    if y.isZero then (if x.isZero then .nan else .infinite (s != t))
    else ofMagnitude? (s != t) (Magnitude.round? (x.units * unitsPerOne) y.units)

/-- Equality as numbers: the zeros are equal and NaN differs from everything. -/
def equals : Binary64 → Binary64 → Bool
  | .nan, _ | _, .nan => false
  | .finite s x, .finite t y => (x.isZero && y.isZero) || (s == t && x == y)
  | x, y => x == y

/-- Exact equality with a whole number. -/
def equalsInt : Binary64 → Int → Bool
  | .finite s x, n => signedUnits s x == n * unitsPerOne
  | _, _ => false

/-- The number nearest to a whole one; `none` when it is above every finite number. -/
def ofInt? (n : Int) : Option Binary64 :=
  (Magnitude.round? (n.natAbs * unitsPerOne) 1).map (.finite (decide (n < 0)))

/-- The number nearest to a whole one, infinite when there is no finite one. -/
def ofInt (n : Int) : Binary64 := (ofInt? n).getD (.infinite (decide (n < 0)))

/-- The number nearest to the exact quotient of two whole ones with `divisor ≠ 0`; `none` when it is above every
finite number. The sign is that of the operands also when the quotient is zero. -/
def ofQuotient? (dividend divisor : Int) : Option Binary64 :=
  (Magnitude.round? (dividend.natAbs * unitsPerOne) divisor.natAbs).map
    (.finite (decide (dividend < 0) != decide (divisor < 0)))

/-- The whole part of a finite number. -/
def truncate? : Binary64 → Option Int
  | .finite s x => some (if s then -(x.units / unitsPerOne : Nat) else (x.units / unitsPerOne : Nat))
  | _ => none

/-- The value of a finite number without a fraction. -/
def whole? : Binary64 → Option Int
  | .finite s x =>
    if x.units % unitsPerOne = 0 then
      some (if s then -(x.units / unitsPerOne : Nat) else (x.units / unitsPerOne : Nat))
    else none
  | _ => none

end Reckoner.Binary64
