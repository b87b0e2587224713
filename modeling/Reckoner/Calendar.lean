import Reckoner.Value.Basic
import Reckoner.Numeral
/-!
# The calendar

Dates are those of the Gregorian calendar from the year 1 on. Of several fields out of range the first one is
reported, a date before a time of day, and a distance from universal time before both.
-/
namespace Reckoner

/-- Why fields are no date or time of day. -/
inductive CalendarFault where
  | year (y : Nat)
  | month
  | day
  | hour
  | minute
  | second
  /-- A clock a day or more away from universal time, by so many minutes. -/
  | offset (minutes : Int)
  deriving DecidableEq, Repr

namespace Date

def isLeapYear (year : Nat) : Bool := year % 4 == 0 && (year % 100 != 0 || year % 400 == 0)

/-- How many days a month has. -/
def daysInMonth (year month : Nat) : Nat :=
  if month = 2 then (if isLeapYear year then 29 else 28)
  else if month = 4 ∨ month = 6 ∨ month = 9 ∨ month = 11 then 30
  else 31

/-- The date of a year, a month and a day. -/
def ofFields (year month day : Nat) : Except CalendarFault Date :=
  if year = 0 ∨ 9999 < year then .error (.year year)
  else if month = 0 ∨ 12 < month then .error .month
  else if day = 0 ∨ daysInMonth year month < day then .error .day
  else .ok ⟨year, month, day⟩

/-- How many days before a date lie since the end of the year zero. -/
def dayNumber (d : Date) : Nat :=
  let years := d.year - 1
  let months := (List.range (d.month - 1)).foldl (fun days month => days + daysInMonth d.year (month + 1)) 0
  365 * years + years / 4 - years / 100 + years / 400 + months + d.day

end Date

namespace Moment

/-- The moment of a date with a time of day on a clock. -/
def ofFields (year month day hour minute second microsecond : Nat) (offset : Option Int) :
    Except CalendarFault Moment := do
  match offset with
  | some minutes => if 1440 ≤ minutes.natAbs then throw (.offset minutes)
  | none => pure ()
  let date ← Date.ofFields year month day
  if 23 < hour then throw .hour
  if 59 < minute then throw .minute
  if 59 < second then throw .second
  return ⟨date, hour, minute, second, microsecond, offset⟩

/-- Minutes on the clock's own calendar; enough to compare two clocks. -/
def minutes (m : Moment) : Int := (m.date.dayNumber * 24 + m.hour) * 60 + m.minute

end Moment

namespace CalendarFault

/-- A span of minutes as messages show it: whole days, and the seconds beyond them. -/
def shownSpan (minutes : Int) : Text :=
  let days := minutes.fdiv 1440
  let seconds := minutes.fmod 1440 * 60
  let parts : List Text := (if days = 0 then [] else ["days=" ++ Numeral.ofInt days]) ++
    (if seconds = 0 then [] else ["seconds=" ++ Numeral.ofInt seconds])
  "datetime.timedelta(" ++ Text.join ", " parts ++ ")"

def message : CalendarFault → Text
  | .year y => "year " ++ Numeral.ofNat y ++ " is out of range"
  | .month => "month must be in 1..12"
  | .day => "day is out of range for month"
  | .hour => "hour must be in 0..23"
  | .minute => "minute must be in 0..59"
  | .second => "second must be in 0..59"
  | .offset minutes =>
    "offset must be a timedelta strictly between -timedelta(hours=24) and timedelta(hours=24), not " ++
      shownSpan minutes ++ "."

end CalendarFault
end Reckoner
