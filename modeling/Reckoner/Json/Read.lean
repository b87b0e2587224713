import Reckoner.Json.Basic
/-!
# Reading JSON

A text is read as one value with blanks around it. Numbers without a fraction and an exponent are whole and have at
most 4300 digits; the names of numbers that are not finite are known. Of the entries of an object with one key the
last one counts. Escapes of the two halves of a surrogate pair name one character, other halves stand for themselves.
-/
namespace Reckoner.Json

inductive ReadFault where
  | malformed
  | digits (l : DigitLimit)
  deriving DecidableEq, Repr

def isSpace (c : CodePoint) : Bool :=
  c == .scalar ' ' || c == .scalar '\t' || c == .scalar '\n' || c == .scalar '\r'

def skipSpace (t : Text) : Text := t.dropWhile isSpace

/-- The rest of a text after a word at its start. -/
def afterWord? (word t : Text) : Option Text :=
  if word.isPrefixOf t then some (t.drop word.length) else none

/-- What a letter after a backslash stands for. -/
def escaped? (c : CodePoint) : Option CodePoint :=
  match c with
  | .scalar '"' => some (.scalar '"')
  | .scalar '\\' => some (.scalar '\\')
  | .scalar '/' => some (.scalar '/')
  | .scalar 'b' => some (.scalar '\x08')
  | .scalar 'f' => some (.scalar '\x0c')
  | .scalar 'n' => some (.scalar '\n')
  | .scalar 'r' => some (.scalar '\r')
  | .scalar 't' => some (.scalar '\t')
  | _ => none

/-- The content of a text after its opening quote, halves of surrogate pairs apart, and what follows the closing
quote. -/
def readUnits : Text → Except ReadFault (Text × Text)
  | [] => .error .malformed
  | .scalar '"' :: rest => .ok ([], rest)
  | .scalar '\\' :: .scalar 'u' :: a :: b :: c :: d :: rest =>
    match Text.hexNumber? [a, b, c, d] with
    | none => .error .malformed
    | some n => do
      let (content, after) ← readUnits rest
      return (.ofNat n :: content, after)
  | [.scalar '\\'] => .error .malformed
  | .scalar '\\' :: letter :: rest =>
    match escaped? letter with
    | none => .error .malformed
    | some c => do
      let (content, after) ← readUnits rest
      return (c :: content, after)
  | c :: rest =>
    if c.toNat < 0x20 then .error .malformed
    else do
      let (content, after) ← readUnits rest
      return (c :: content, after)

/-- The character two code points name together as the halves of a surrogate pair. -/
def joined? (high low : CodePoint) : Option CodePoint :=
  match high, low with
  | .surrogate h, .surrogate l =>
    if h.val < 0x400 ∧ 0x400 ≤ l.val then some (.ofNat (0x10000 + 0x400 * h.val + (l.val - 0x400))) else none
  | _, _ => none

/-- The text with surrogate pairs joined. -/
def joinPairs : Text → Text
  | [] => []
  | [c] => [c]
  | c :: d :: rest =>
    match joined? c d with
    | some e => e :: joinPairs rest
    | none => c :: joinPairs (d :: rest)

/-- The content of a text after its opening quote, and what follows the closing quote. -/
def readText (t : Text) : Except ReadFault (Text × Text) := do
  let (content, after) ← readUnits t
  return (joinPairs content, after)

/-- The whole digits at the start of a text: a zero alone, or digits that do not start with one. -/
def wholeDigits (t : Text) : Text :=
  match t with
  | .scalar '0' :: _ => [.scalar '0']
  | _ => t.takeWhile CodePoint.isDigit

/-- A point with at least one digit at the start of a text. -/
def fractionPart (t : Text) : Text :=
  match t with
  | .scalar '.' :: rest =>
    let digits := rest.takeWhile CodePoint.isDigit
    if digits.isEmpty then [] else .scalar '.' :: digits
  | _ => []

/-- An exponent with at least one digit at the start of a text. -/
def exponentPart (t : Text) : Text :=
  match t with
  | mark :: rest =>
    if mark = .scalar 'e' ∨ mark = .scalar 'E' then
      let sign := (rest.take 1).filter fun c => c == .scalar '+' || c == .scalar '-'
      let digits := (rest.drop sign.length).takeWhile CodePoint.isDigit
      if digits.isEmpty then [] else mark :: sign ++ digits
    else []
  | [] => []

/-- A number at the start of a text, and what follows it. -/
def readNumber (t : Text) : Except ReadFault (Json × Text) :=
  let sign := (t.take 1).filter (· == .scalar '-')
  let unsigned := t.drop sign.length
  let whole := wholeDigits unsigned
  if whole.isEmpty then .error .malformed
  else
    let fraction := fractionPart (unsigned.drop whole.length)
    let exponent := exponentPart (unsigned.drop (whole.length + fraction.length))
    let written := sign ++ whole ++ fraction ++ exponent
    let after := t.drop written.length
    if fraction.isEmpty && exponent.isEmpty then
      match Numeral.readNat? whole with
      | .ok n => .ok (.int (if sign.isEmpty then n else -n), after)
      | .error l => .error (.digits l)
    else .ok (.float ((Numeral.readDecimal? written).getD .nan), after)

/-- The words that stand for values. -/
def words : List (Text × Json) :=
  [("null", .null), ("true", .bool true), ("false", .bool false), ("NaN", .float .nan),
   ("Infinity", .float (.infinite false)), ("-Infinity", .float (.infinite true))]

/-- A word or a number at the start of a text, and what follows it. -/
def readAtom (t : Text) : Except ReadFault (Json × Text) :=
  match words.findSome? fun (word, j) => (afterWord? word t).map fun rest => (j, rest) with
  | some found => .ok found
  | none => readNumber t

mutual

/-- The value at the start of a text, and what follows it. Here and below `depth` is a bound on the number of calls
inside each other. -/
def readValue (depth : Nat) (t : Text) : Except ReadFault (Json × Text) :=
  match depth with
  | 0 => .error .malformed
  | depth + 1 =>
    match t with
    | .scalar '"' :: rest => do
      let (content, after) ← readText rest
      return (.text content, after)
    | .scalar '[' :: rest =>
      match skipSpace rest with
      | .scalar ']' :: after => .ok (.list [], after)
      | inner => do
        let (items, after) ← readItems depth inner
        return (.list items, after)
    | .scalar '\x7b' :: rest =>
      match skipSpace rest with
      | .scalar '\x7d' :: after => .ok (.object [], after)
      | inner => do
        let (entries, after) ← readEntries depth inner
        return (.ofEntries entries, after)
    | _ => readAtom t

/-- At least one item and the closing bracket. -/
def readItems (depth : Nat) (t : Text) : Except ReadFault (List Json × Text) :=
  match depth with
  | 0 => .error .malformed
  | depth + 1 => do
    let (j, rest) ← readValue depth t
    match skipSpace rest with
    | .scalar ']' :: after => return ([j], after)
    | .scalar ',' :: more => do
      let (items, after) ← readItems depth (skipSpace more)
      return (j :: items, after)
    | _ => .error .malformed

/-- At least one entry and the closing bracket. -/
def readEntries (depth : Nat) (t : Text) : Except ReadFault (List (Text × Json) × Text) :=
  match depth with
  | 0 => .error .malformed
  | depth + 1 =>
    match t with
    | .scalar '"' :: opened => do
      let (key, rest) ← readText opened
      match skipSpace rest with
      | .scalar ':' :: rest => do
        let (j, rest) ← readValue depth (skipSpace rest)
        match skipSpace rest with
        | .scalar '\x7d' :: after => return ([(key, j)], after)
        | .scalar ',' :: more => do
          let (entries, after) ← readEntries depth (skipSpace more)
          return ((key, j) :: entries, after)
        | _ => .error .malformed
      | _ => .error .malformed
    | _ => .error .malformed

end

/-- The value a text holds. A call reads at least a code point, but for the first item of a list and the first entry
of an object. -/
def read (t : Text) : Except ReadFault Json := do
  let (j, rest) ← readValue (2 * t.length + 2) (skipSpace t)
  if (skipSpace rest).isEmpty then return j else .error .malformed

end Reckoner.Json
