import Reckoner.Yaml.Cursor
import Reckoner.Yaml.Fault
/-!
# Directives

A line that starts with a percent sign says how the document after it is to be read. It has a name, and what stands
behind the name depends on it. A directive about the version of the language gives two whole numbers.
-/
namespace Reckoner.Yaml.Directive

/-- A code point of the name of a directive. -/
def isNamePart (c : CodePoint) : Bool :=
  c.isDigit || c == .scalar '-' || c == .scalar '_' ||
    (match c with
     | .scalar letter => letter.isAlpha
     | _ => false)

/-- Is nothing left on a line but blanks and a comment behind them? -/
def endsLine (t : Text) : Bool :=
  match t.dropWhile (· == .scalar ' ') with
  | [] => true
  | c :: _ => c == .scalar '#' || c.breaksLine

/-- A whole number at the start of a text, and the rest. -/
def versionPart (t : Text) : Except Fault (Nat × Text) :=
  let (digits, rest) := Numeral.splitDigits t
  if digits.isEmpty then .error .unreadable
  else do
    let n ← (Numeral.readNat? digits).mapError .digits
    return (n, rest)

/-- The major number of a version, which is two whole numbers with a point between them. -/
def version (t : Text) : Except Fault Nat := do
  let (major, rest) ← versionPart (t.dropWhile (· == .scalar ' '))
  match rest with
  | .scalar '.' :: rest => do
    let (_, rest) ← versionPart rest
    if endsLine rest && !rest.head?.any (· == .scalar '#') then return major else .error .unreadable
  | _ => .error .unreadable

/-- The major number of the version that a directive gives, if it is about the version. Those about tags cannot be read,
and what other ones say does not count. -/
def read (t : Text) : Except Fault (Option Nat) :=
  let name := t.takeWhile isNamePart
  let rest := t.drop name.length
  if name.isEmpty || !rest.head?.all (fun c => c == .scalar ' ' || CodePoint.breaksLine c) ||
      name == Text.ofString "TAG" then
    .error .unreadable
  else if name = Text.ofString "YAML" then (version rest).map some
  else .ok none

end Reckoner.Yaml.Directive
