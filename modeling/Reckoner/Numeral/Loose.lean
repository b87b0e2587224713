import Reckoner.Fault
import Reckoner.Number
import Reckoner.Numeral.Whole
/-!
# Loosely written numbers

Apart from formulas, where a number is digits and perhaps a point, a number may be written in the digits of any script,
with a sign, with blanks around it and with single underscores between its digits. One with a point is a binary64
number and may have an exponent; one without is whole.
-/
namespace Reckoner.Numeral

/-- Why a text names no number. -/
inductive LooseFault where
  | notWhole (t : Text)
  | notPointed (t : Text)
  | digits (l : DigitLimit)
  deriving DecidableEq, Repr

def LooseFault.message : LooseFault → Text
  | .notWhole t => notWholeMessage t
  | .notPointed t => "could not convert string to float: " ++ t.inspect
  | .digits l => l.message

/-- The text with decimal digits for the digits of any script. -/
def withDecimalDigits (t : Text) : Text :=
  t.flatMap fun c => (c.decimalValue?).elim [c] ofNat

/-- Has every underscore a digit on either side? -/
def underscoresJoinDigits (t : Text) : Bool :=
  let parts := t.parts (.scalar '_')
  parts.dropLast.all (·.getLast?.any CodePoint.isDigit) && (parts.drop 1).all (·.head?.any CodePoint.isDigit)

/-- The binary64 number a text names. -/
def readPointed? (t : Text) : Option Binary64 :=
  let written := withDecimalDigits (unpadded t)
  if underscoresJoinDigits written then readDecimal? (written.filter (· != .scalar '_')) else none

/-- The number a text names. -/
def readLoose (t : Text) : Except LooseFault Number :=
  if t.contains (.scalar '.') then
    match readPointed? t with
    | some x => .ok (.float x)
    | none => .error (.notPointed t)
  else
    match readWhole t with
    | .ok n => .ok (.int n)
    | .error .notWhole => .error (.notWhole t)
    | .error (.digits l) => .error (.digits l)

end Reckoner.Numeral
