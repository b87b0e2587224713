import Reckoner.Numeral
import Reckoner.Text.Digit
import Reckoner.Text.Inspect
/-!
# Whole numbers in settings and options

A whole number may be written in the digits of any script, with a sign, with blanks around it and with single
underscores between its digits.
-/
namespace Reckoner.Numeral

/-- Why a text names no whole number. -/
inductive WholeFault where
  | notWhole
  | digits (l : DigitLimit)
  deriving DecidableEq, Repr

/-- What is said about a text that names no whole number. -/
def notWholeMessage (t : Text) : Text := "invalid literal for int() with base 10: " ++ t.inspect.take 200

/-- A blank around a number; the separators of information are none. -/
def isNumeralBlank (c : CodePoint) : Bool := c.isBlank && !(28 ≤ c.toNat && c.toNat ≤ 31)

/-- The text without the blanks around a number. -/
def unpadded (t : Text) : Text := ((t.dropWhile isNumeralBlank).reverse.dropWhile isNumeralBlank).reverse

def isDigitOrUnderscore (c : CodePoint) : Bool := c.decimalValue?.isSome || c == .scalar '_'

/-- The whole number a text names. Too many digits are noticed before what follows them. -/
def readWhole (t : Text) : Except WholeFault Int :=
  let (negative, unsigned) := splitSign (unpadded t)
  let run := unsigned.takeWhile isDigitOrUnderscore
  let digits := run.filterMap CodePoint.decimalValue?
  if (Text.parts (.scalar '_') run).any List.isEmpty then .error .notWhole
  else if maxDigits < digits.length then .error (.digits (.reading digits.length))
  else if run.length < unsigned.length then .error .notWhole
  else
    let n : Nat := digits.foldl (fun n digit => 10 * n + digit) 0
    .ok (if negative then -(n : Int) else n)

end Reckoner.Numeral
