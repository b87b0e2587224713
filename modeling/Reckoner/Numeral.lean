import Reckoner.Text.Blank
import Reckoner.Binary64.Decimal
import Reckoner.Binary64.Arithmetic
/-!
# Numerals

How numbers are written and read. Whole numbers are written in decimal digits, at most 4300 of them in either
direction. A binary64 number has two written forms, both of the fewest digits that read back: the positional form of
formulas, which has no exponent and no fraction for a whole number, and the source form of settings, messages and the
journal, which always shows a fraction or an exponent.
-/
namespace Reckoner

/-- A whole number that cannot pass between digits and value, because it has more than 4300 digits. -/
inductive DigitLimit where
  | reading (digits : Nat)
  | writing
  deriving DecidableEq, Repr

namespace Numeral

/-- The greatest number of digits a whole number is read from or written with. -/
def maxDigits : Nat := 4300

/-- The decimal digits of a natural number. -/
def ofNat (n : Nat) : Text := (Nat.toDigits 10 n).map CodePoint.scalar

/-- The decimal digits of a whole number after its sign, however many there are. -/
def ofInt (n : Int) : Text := if n < 0 then .scalar '-' :: ofNat n.natAbs else ofNat n.natAbs

/-- The written form of a whole number of at most 4300 digits. -/
def ofInt? (n : Int) : Except DigitLimit Text :=
  if Nat.pow 10 maxDigits ≤ n.natAbs then .error .writing else .ok (ofInt n)

/-- The number written by decimal digits alone, of which there are at most 4300, leading zeros included. -/
def readNat? (digits : Text) : Except DigitLimit Nat :=
  if maxDigits < digits.length then .error (.reading digits.length) else .ok (Text.decimalNumber digits)

/-- A sign before a written magnitude. -/
def signed (negative : Bool) (t : Text) : Text := if negative then .scalar '-' :: t else t

def zeros (n : Nat) : Text := List.replicate n (.scalar '0')

/-- A number filled up with zeros to a width. -/
def padded (width n : Nat) : Text := zeros (width - (ofNat n).length) ++ ofNat n

/-- The decimal with a point and no exponent: whole digits, and a fraction if the exponent is negative. -/
def positional (d : Decimal) : Text :=
  let digits := ofNat d.digits
  let places := (-d.exponent).toNat
  if 0 ≤ d.exponent then digits ++ zeros d.exponent.toNat
  else if places < digits.length then
    digits.take (digits.length - places) ++ .scalar '.' :: digits.drop (digits.length - places)
  else .scalar '0' :: .scalar '.' :: zeros (places - digits.length) ++ digits

/-- The decimal with one digit before the point and an exponent of at least two digits. -/
def scientific (d : Decimal) : Text :=
  let digits := ofNat d.digits
  let leading := d.exponent + digits.length - 1
  let fraction := if digits.length ≤ 1 then [] else .scalar '.' :: digits.drop 1
  let power := ofNat leading.natAbs
  digits.take 1 ++ fraction ++ [.scalar 'e', .scalar (if leading < 0 then '-' else '+')] ++
    zeros (2 - power.length) ++ power

/-- The written form of a number that is not finite. -/
def ofNonFinite : Binary64 → Text
  | .nan => "nan"
  | .infinite negative => signed negative "inf"
  | .finite _ _ => []

/-- The positional form that formulas use. A whole number has no fraction, and negative zero keeps its sign. -/
def ofBinary64 : Binary64 → Text
  | .finite negative m =>
    signed negative
      (if m.units % unitsPerOne = 0 then ofNat (m.units / unitsPerOne) else positional m.shortest)
  | x => ofNonFinite x

/-- The source form: positional with a fraction while the leading digit stands between `10^-4` and `10^15`, and
scientific beyond. -/
def sourceForm : Binary64 → Text
  | .finite negative m =>
    let d := m.shortest
    let leading := d.exponent + digitCount d.digits - 1
    signed negative
      (if -4 ≤ leading ∧ leading < 16 then
        (if 0 ≤ d.exponent then positional d ++ ".0" else positional d)
      else scientific d)
  | x => ofNonFinite x

/-- A run of digits, a point and another run of digits, either run empty: the nearest binary64 number. -/
def readPointed (whole fraction : Text) : Binary64 :=
  Decimal.toBinary64 false ⟨Text.decimalNumber (whole ++ fraction), -(fraction.length : Int)⟩

/-- The text without the sign it may start with, and whether that sign is a minus. -/
def splitSign : Text → Bool × Text
  | .scalar '-' :: rest => (true, rest)
  | .scalar '+' :: rest => (false, rest)
  | t => (false, t)

/-- The decimal digits at the start of the text, and the rest. -/
def splitDigits (t : Text) : Text × Text := (t.takeWhile CodePoint.isDigit, t.dropWhile CodePoint.isDigit)

/-- An exponent mark of either case with a whole number behind it; the empty text is the exponent zero. -/
def readExponent? : Text → Option Int
  | [] => some 0
  | mark :: rest =>
    let (negative, digits) := splitSign rest
    if (mark = .scalar 'e' ∨ mark = .scalar 'E') ∧ !digits.isEmpty ∧ digits.all CodePoint.isDigit then
      some (if negative then -(Text.decimalNumber digits : Int) else Text.decimalNumber digits)
    else none

/-- The number a decimal names, with an optional sign, fraction and exponent. Either side of the point may lack its
digits, but not both. -/
def readDecimal? (t : Text) : Option Binary64 :=
  let (negative, unsigned) := splitSign t
  let (whole, afterWhole) := splitDigits unsigned
  let (fraction, mark) :=
    match afterWhole with
    | .scalar '.' :: rest => splitDigits rest
    | rest => ([], rest)
  if whole.isEmpty && fraction.isEmpty then none
  else
    (readExponent? mark).map fun exponent =>
      Decimal.toBinary64 negative ⟨Text.decimalNumber (whole ++ fraction), exponent - fraction.length⟩

/-- The number a source form names. -/
def readSourceForm? (t : Text) : Option Binary64 :=
  if t = "nan" then some .nan
  else if t = "inf" then some (.infinite false)
  else if t = "-inf" then some (.infinite true)
  else readDecimal? t

end Numeral
end Reckoner
