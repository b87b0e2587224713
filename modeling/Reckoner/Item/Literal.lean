import Reckoner.Token.Scan
import Reckoner.Fault
/-!
# Literals

Scanned tokens become the items of a run: numbers and strings turn into constants, names into properties, and
operators, brackets and commas stay tokens. A number with a point is a binary64 number and one without is whole. The
first unknown token, or whole number of too many digits, ends the work.
-/
namespace Reckoner.Literal

/-- What a backslash and the code point after it stand for. -/
def escaped (c : CodePoint) : CodePoint :=
  match c with
  | .scalar 'n' => .scalar '\n'
  | .scalar 't' => .scalar '\t'
  | .scalar 'r' => .scalar '\r'
  | .scalar 'b' => .scalar '\x08'
  | .scalar 'f' => .scalar '\x0c'
  | .scalar '0' => .scalar '\x00'
  | other => other

/-- The text with its escapes resolved. Four hexadecimal digits after a backslash and `u` name a code point; without
them the `u` stands for itself, as a backslash does at the very end. -/
def unescape : Text → Text
  | [] => []
  | c :: rest =>
    if c = .scalar '\\' then
      match rest with
      | [] => [c]
      | .scalar 'u' :: a :: b :: d :: e :: after =>
        match Text.hexNumber? [a, b, d, e] with
        | some n => .ofNat n :: unescape after
        | none => .scalar 'u' :: unescape (a :: b :: d :: e :: after)
      | d :: after => escaped d :: unescape after
    else c :: unescape rest

/-- The text a string token stands for: its ends are dropped, whatever they are, and escapes are resolved. -/
def decodeString (raw : Text) : Text := unescape (raw.drop 1).dropLast

/-- The value of a number token. -/
def number (t : Text) : Outcome Value :=
  match t.dropWhile CodePoint.isDigit with
  | .scalar '.' :: fraction => .ok (.float (Numeral.readPointed (t.takeWhile CodePoint.isDigit) fraction))
  | _ => return .int (← Outcome.ofDigits (Numeral.readNat? t))

/-- The item a token becomes. -/
def classify (t : Token) : Outcome Item :=
  match t.kind with
  | .number => return .node (.constant (← number t.text))
  | .string => .ok (.node (.constant (.text (decodeString t.text))))
  | .name => .ok (.node (.property t.text))
  | .unknown => .fail (.unexpectedToken t.text t.position)
  | _ => .ok (.token t)

end Reckoner.Literal
