import Reckoner.Calendar
import Reckoner.Fault
/-!
# Unreadable documents

A text that is no document is rejected as a whole. Apart from that a scalar can have the form of a number, a date or an
escaped code point and still name none.
-/
namespace Reckoner.Yaml

inductive Fault where
  | unreadable
  | digits (l : DigitLimit)
  /-- A number of the given base without digits. -/
  | noDigits (base : Nat)
  | calendar (f : CalendarFault)
  /-- A code beyond the last code point. -/
  | noCodePoint
  /-- A code or the weight of a digit that no machine number holds. -/
  | tooLarge
  deriving DecidableEq, Repr

/-- Why a scalar names no value. An unreadable document has no message, and neither has a number that is too large. -/
def Fault.message? : Fault → Option Text
  | .unreadable | .tooLarge => none
  | .digits l => some l.message
  | .noDigits base => some ("invalid literal for int() with base " ++ Numeral.ofNat base ++ ": ''")
  | .calendar f => some f.message
  | .noCodePoint => some "chr() arg not in range(0x110000)"

end Reckoner.Yaml
