import Reckoner.Value.Basic
import Reckoner.Binary64.Arithmetic
/-!
# Arithmetic on numbers

A number is whole or binary64. Whole numbers stay whole under every sign but division; a division, or an operation
with a binary64 operand, gives the nearest binary64 number. When a whole operand or a quotient of whole numbers is
above every finite one, the operation is carried out on the operands as binary64 numbers, an infinity standing for a
whole operand that is too large. A division by zero gives an infinity with the sign of both operands, or NaN.
-/
namespace Reckoner

inductive Number where
  | int (n : Int)
  | float (x : Binary64)
  deriving DecidableEq, Repr

namespace Number

/-- The number a value is; a truth value counts as one or zero. -/
def ofValue? : Value → Option Number
  | .bool b => some (.int (if b then 1 else 0))
  | .int n => some (.int n)
  | .float x => some (.float x)
  | _ => none

def toValue : Number → Value
  | .int n => .int n
  | .float x => .float x

def isZero : Number → Bool
  | .int n => n == 0
  | .float x => x.isZero

def isNaN : Number → Bool
  | .int _ => false
  | .float x => x.isNaN

def isNegative : Number → Bool
  | .int n => decide (n < 0)
  | .float x => x.isNegative

/-- The nearest finite binary64 number, or the number itself; `none` for a whole number above all of them. -/
def toBinary64? : Number → Option Binary64
  | .int n => Binary64.ofInt? n
  | .float x => some x

/-- The nearest binary64 number, infinite for a whole number above all finite ones. -/
def toBinary64 : Number → Binary64
  | .int n => Binary64.ofInt n
  | .float x => x

/-- What a zero divisor gives: NaN under zero or NaN, else an infinity. -/
def overZero (dividend divisor : Number) : Binary64 :=
  if dividend.isZero || dividend.isNaN then .nan else .infinite (dividend.isNegative != divisor.isNegative)

end Number

namespace Operator

def onBinary64 : Operator → Binary64 → Binary64 → Binary64
  | .times => Binary64.mul
  | .over => Binary64.div
  | .plus => Binary64.add
  | .minus => Binary64.sub

/-- The result on two numbers, `none` when a whole operand or a quotient of whole numbers is above every finite
binary64 number. -/
def calculate? (op : Operator) (a b : Number) : Option Number :=
  if op = .over ∧ b.isZero then some (.float (Number.overZero a b))
  else
    match op, a, b with
    | .times, .int m, .int n => some (.int (m * n))
    | .plus, .int m, .int n => some (.int (m + n))
    | .minus, .int m, .int n => some (.int (m - n))
    | .over, .int m, .int n => (Binary64.ofQuotient? m n).map .float
    | op, a, b => do
      let x ← a.toBinary64?
      let y ← b.toBinary64?
      return .float (op.onBinary64 x y)

/-- The result of an operator on two numbers. -/
def calculate (op : Operator) (a b : Number) : Number :=
  (op.calculate? a b).getD (.float (op.onBinary64 a.toBinary64 b.toBinary64))

end Operator
end Reckoner
