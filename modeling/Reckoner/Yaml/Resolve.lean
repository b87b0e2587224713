import Reckoner.Calendar
import Reckoner.Value.Basic
import Reckoner.Yaml.Fault
/-!
# What plain scalars mean

A plain scalar whose whole text has the form of a truth value, a number, nothing, a date or a date with a time is one;
every other one is a text. Truth values are tried first and dates last. Underscores in numbers do not count, and
numbers separated by colons are digits to the base sixty.
-/
namespace Reckoner.Yaml

namespace Resolve

/-- The truth value a text names. -/
def bool? (t : Text) : Option Bool :=
  if t ∈ ["yes", "Yes", "YES", "true", "True", "TRUE", "on", "On", "ON"].map Text.ofString then some true
  else if t ∈ ["no", "No", "NO", "false", "False", "FALSE", "off", "Off", "OFF"].map Text.ofString then some false
  else none

def isNull (t : Text) : Bool := t ∈ ["~", "null", "Null", "NULL", ""].map Text.ofString

/-- A digit or an underscore. -/
def isSpacedDigit (c : CodePoint) : Bool := c.isDigit || c == .scalar '_'

/-- A digit with digits and underscores behind it. -/
def isSpacedDigits (t : Text) : Bool := t.head?.any CodePoint.isDigit && t.all isSpacedDigit

def withoutUnderscores (t : Text) : Text := t.filter (· != .scalar '_')

/-- Nothing, or the mark of an exponent with a sign and digits. -/
def isExponent : Text → Bool
  | [] => true
  | mark :: sign :: digits =>
    (mark == .scalar 'e' || mark == .scalar 'E') && (sign == .scalar '-' || sign == .scalar '+') &&
      !digits.isEmpty && digits.all CodePoint.isDigit
  | _ => false

/-- Digits with a point in or after them, and perhaps an exponent. -/
def isPointed (t : Text) : Bool :=
  t.head?.any CodePoint.isDigit &&
    match t.dropWhile isSpacedDigit with
    | .scalar '.' :: rest => isExponent (rest.dropWhile isSpacedDigit)
    | _ => false

/-- A point with digits after it, and perhaps an exponent. -/
def isFraction : Text → Bool
  | .scalar '.' :: rest => rest.head?.any CodePoint.isDigit && isExponent (rest.dropWhile isSpacedDigit)
  | _ => false

/-- A digit to the base sixty: at most two decimal digits, of which the first of two is at most five. -/
def isSexagesimalDigit : Text → Bool
  | [c] => c.isDigit
  | [a, b] => a.isDigit && a.digitValue ≤ 5 && b.isDigit
  | _ => false

/-- The parts of a number to the base sixty: digits in front, and at least one more digit to the base sixty. The last
part may have to go on as `ending` says. -/
def sexagesimal? (ending : Text → Bool) (t : Text) : Option (List Text) :=
  let parts := t.parts (.scalar ':')
  match parts with
  | first :: second :: others =>
    let further := second :: others
    if isSpacedDigits first && further.dropLast.all isSexagesimalDigit && further.getLast?.any ending then
      some (parts.map withoutUnderscores)
    else none
  | _ => none

/-- A digit to the base sixty with a point and perhaps a fraction. -/
def endsSexagesimal (t : Text) : Bool :=
  let digit := t.takeWhile CodePoint.isDigit
  isSexagesimalDigit digit &&
    match t.drop digit.length with
    | .scalar '.' :: fraction => fraction.all isSpacedDigit
    | _ => false

/-- A sum of digits to the base sixty with one more in front of it, whose weight has to be a binary64 number, and the
weight of the next one. -/
def addSexagesimal (part : Text) (sum : Binary64) (weight : Int) : Except Fault (Binary64 × Int) :=
  match Binary64.ofInt? weight with
  | some factor => .ok (sum.add (((Numeral.readDecimal? part).getD .nan).mul factor), 60 * weight)
  | none => .error .tooLarge

/-- The value of digits to the base sixty, added up from the last to the first. -/
def sexagesimalSum (parts : List Text) : Except Fault Binary64 := do
  let (sum, _) ← parts.reverse.foldlM (fun (sum, weight) part => addSexagesimal part sum weight) (Binary64.zero, 1)
  return sum

def signedFloat (negative : Bool) (x : Binary64) : Binary64 := if negative then x.neg else x

/-- The binary64 number a text names. -/
def float? (t : Text) : Option (Except Fault Binary64) :=
  let (negative, unsigned) := Numeral.splitSign t
  if isPointed unsigned || isFraction t then (Numeral.readDecimal? (withoutUnderscores t)).map .ok
  else if unsigned ∈ [".inf", ".Inf", ".INF"].map Text.ofString then some (.ok (.infinite negative))
  else if t ∈ [".nan", ".NaN", ".NAN"].map Text.ofString then some (.ok .nan)
  else
    (sexagesimal? endsSexagesimal unsigned).map fun parts => (sexagesimalSum parts).map (signedFloat negative)

/-- The number that digits name to a base; a letter is a digit above nine. -/
def inBase (base : Nat) (digits : Text) : Except Fault Nat :=
  if digits.isEmpty then .error (.noDigits base)
  else .ok (digits.foldl (fun n c => base * n + (c.hexValue?).getD 0) 0)

def decimal (digits : Text) : Except Fault Nat := (Numeral.readNat? digits).mapError .digits

/-- A binary or octal digit, or an underscore. -/
def isDigitBelow (base : Nat) (c : CodePoint) : Bool :=
  c == .scalar '_' || (c.hexValue?).any (· < base)

/-- The magnitude of the whole number a text without a sign names. -/
def magnitude? (t : Text) : Option (Except Fault Nat) :=
  match t with
  | .scalar '0' :: .scalar 'b' :: digits =>
    if !digits.isEmpty && digits.all (isDigitBelow 2) then some (inBase 2 (withoutUnderscores digits)) else none
  | .scalar '0' :: .scalar 'x' :: digits =>
    if !digits.isEmpty && digits.all (isDigitBelow 16) then some (inBase 16 (withoutUnderscores digits)) else none
  | .scalar '0' :: digits =>
    if digits.all (isDigitBelow 8) then some (inBase 8 (withoutUnderscores t)) else none
  | _ =>
    if isSpacedDigits t then some (decimal (withoutUnderscores t))
    else
      (sexagesimal? isSexagesimalDigit t).map fun parts => do
        let digits ← parts.mapM decimal
        return digits.foldl (fun n digit => 60 * n + digit) 0

/-- The whole number a text names. -/
def int? (t : Text) : Option (Except Fault Int) :=
  let (negative, unsigned) := Numeral.splitSign t
  (magnitude? unsigned).map fun result => result.map fun n => if negative then -(n : Int) else n

/-- The number of the digits at the start of a text, of which there have to be at least so many and are at most so
many, and the rest. -/
def field? (least most : Nat) (t : Text) : Option (Nat × Text) :=
  let digits := (t.take most).takeWhile CodePoint.isDigit
  if digits.length < least then none else some (Text.decimalNumber digits, t.drop digits.length)

/-- The rest of a text after a separator. -/
def after? (separator : Char) : Text → Option Text
  | c :: rest => if c = .scalar separator then some rest else none
  | [] => none

/-- The microseconds of a fraction of a second, of which six digits count. -/
def microseconds (digits : Text) : Nat :=
  Text.decimalNumber (digits.take 6) * Nat.pow 10 (6 - (digits.take 6).length)

def isBlankOrTab (c : CodePoint) : Bool := c == .scalar ' ' || c == .scalar '\t'

/-- The minutes by which a clock is ahead of universal time. -/
def offset? (t : Text) : Option (Option Int) :=
  match t with
  | [] => some none
  | [.scalar 'Z'] => some (some 0)
  | sign :: rest =>
    if sign = .scalar '+' ∨ sign = .scalar '-' then do
      let (hours, rest) ← field? 1 2 rest
      let minutes ←
        if rest.isEmpty then some 0
        else do
          let (minutes, rest) ← field? 2 2 (← after? ':' rest)
          if rest.isEmpty then some minutes else none
      let distance : Int := hours * 60 + minutes
      return some (if sign = .scalar '-' then -distance else distance)
    else none

/-- The time of day that follows a date: hour, minute, second, microsecond and the clock's offset. -/
def timeOfDay? (t : Text) : Option (Nat × Nat × Nat × Nat × Option Int) := do
  let (hour, t) ← field? 1 2 t
  let (minute, t) ← field? 2 2 (← after? ':' t)
  let (second, t) ← field? 2 2 (← after? ':' t)
  let (fraction, t) :=
    match t with
    | .scalar '.' :: rest => Numeral.splitDigits rest
    | _ => ([], t)
  let zone := t.dropWhile isBlankOrTab
  if zone.isEmpty && !t.isEmpty then none
  return (hour, minute, second, microseconds fraction, ← offset? zone)

/-- A date on its own has two digits for the month and for the day; before a time one of each is enough. -/
def date? (t : Text) : Option (Except CalendarFault Date) := do
  let (year, t) ← field? 4 4 t
  let (month, t) ← field? 2 2 (← after? '-' t)
  let (day, t) ← field? 2 2 (← after? '-' t)
  if t.isEmpty then some (Date.ofFields year month day) else none

/-- A date with a time of day behind the letter `t` of either case, or behind blanks. -/
def moment? (t : Text) : Option (Except CalendarFault Moment) := do
  let (year, t) ← field? 4 4 t
  let (month, t) ← field? 1 2 (← after? '-' t)
  let (day, t) ← field? 1 2 (← after? '-' t)
  let clock ←
    match t with
    | [] => none
    | c :: rest =>
      if c = .scalar 't' ∨ c = .scalar 'T' then some rest
      else if isBlankOrTab c then some (rest.dropWhile isBlankOrTab)
      else none
  let (hour, minute, second, microsecond, offset) ← timeOfDay? clock
  return Moment.ofFields year month day hour minute second microsecond offset

/-- The value of a plain scalar. A lone equals sign and the mark of a merged mapping name none. -/
def plain (t : Text) : Except Fault Value :=
  match bool? t with
  | some b => .ok (.bool b)
  | none =>
    match float? t with
    | some result => result.map .float
    | none =>
      match int? t with
      | some result => result.map .int
      | none =>
        if t = Text.ofString "<<" ∨ t = Text.ofString "=" then .error .unreadable
        else if isNull t then .ok .absent
        else
          match date? t with
          | some result => (result.mapError .calendar).map .date
          | none =>
            match moment? t with
            | some result => (result.mapError .calendar).map .moment
            | none => .ok (.text t)

end Resolve

end Reckoner.Yaml
