import Reckoner.Json.Basic
import Reckoner.Text.Quoted
/-!
# Writing JSON

A value is written on one line of ASCII, with a blank after each colon and comma and the entries of an object in the
order of their keys.
-/
namespace Reckoner.Json

/-- A binary64 number in its source form; numbers that are not finite have names. -/
def writeFloat : Binary64 → Text
  | .nan => "NaN"
  | .infinite negative => if negative then "-Infinity" else "Infinity"
  | x => Numeral.sourceForm x

/-- An entry of an object whose value is written. -/
def writeEntry (entry : Text × Text) : Text := entry.1.quoted .ascii ++ ": " ++ entry.2

/-- Written entries between curly brackets, in the order of their keys. -/
def writeObject (entries : List (Text × Text)) : Text :=
  let sorted := entries.mergeSort fun a b => Text.le a.1 b.1
  "\x7b" ++ Text.join ", " (sorted.map writeEntry) ++ "\x7d"

mutual

/-- The written form of a value. -/
def write : Json → Except DigitLimit Text
  | .null => .ok "null"
  | .bool b => .ok (if b then "true" else "false")
  | .int n => Numeral.ofInt? n
  | .float x => .ok (writeFloat x)
  | .text t => .ok (t.quoted .ascii)
  | .list items => return "[" ++ Text.join ", " (← writeItems items) ++ "]"
  | .object entries => return writeObject (← writeEntries entries)

def writeItems : List Json → Except DigitLimit (List Text)
  | [] => .ok []
  | j :: rest => return (← j.write) :: (← writeItems rest)

def writeEntries : List (Text × Json) → Except DigitLimit (List (Text × Text))
  | [] => .ok []
  | (key, j) :: rest => return (key, ← j.write) :: (← writeEntries rest)

end

/-- An object of texts over several lines, in the order given and indented by two blanks. -/
def writeIndented (entries : List (Text × Text)) : Text :=
  "\x7b\n" ++ Text.join ",\n" (entries.map fun (key, t) => "  " ++ key.quoted .ascii ++ ": " ++ t.quoted .ascii) ++
    "\n\x7d"

end Reckoner.Json
