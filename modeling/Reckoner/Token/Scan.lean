import Reckoner.Token.Basic
import Reckoner.Text.Blank
/-!
# Scanning

Formula text is cut into tokens from left to right. Blanks separate tokens and are dropped; every other code point
belongs to exactly one token. Numbers and names are as long as they can be, a quoted string ends at the first copy
of its opening quote that no backslash precedes, and a code point that opens nothing is an unknown token of its own.
So is a quote without a partner.
-/
namespace Reckoner.Token

/-- How many decimal digits the text starts with. -/
def digitRun (t : Text) : Nat := (t.takeWhile CodePoint.isDigit).length

/-- How many code points continue a name at the start of the text. -/
def nameRun (t : Text) : Nat := (t.takeWhile CodePoint.continuesName).length

/-- How many code points continue a number that has opened with a digit: digits, and then at most one point with
its digits. -/
def numberRun (t : Text) : Nat :=
  let whole := digitRun t
  match t.drop whole with
  | .scalar '.' :: fraction => whole + 1 + digitRun fraction
  | _ => whole

/-- How many code points a string goes on for after its opening quote, the closing quote included; `none` if nothing
closes it. A backslash takes the code point after it along. -/
def stringRun? (quote : CodePoint) : Text → Option Nat
  | [] => none
  | c :: rest =>
    if c = quote then some 1
    else if c = .scalar '\\' then
      match rest with
      | [] => none
      | _ :: rest => (stringRun? quote rest).map (· + 2)
    else (stringRun? quote rest).map (· + 1)

/-- The kind of the token that opens with `c`, and how many of the following code points belong to it. -/
def lexeme (c : CodePoint) (rest : Text) : TokenKind × Nat :=
  if c.isDigit then (.number, numberRun rest)
  else if c = .scalar '.' then
    if digitRun rest = 0 then (.unknown, 0) else (.number, digitRun rest)
  else if c = .scalar '"' ∨ c = .scalar '\'' then
    match stringRun? c rest with
    | some n => (.string, n)
    | none => (.unknown, 0)
  else if c = .scalar '(' then (.leftParen, 0)
  else if c = .scalar ')' then (.rightParen, 0)
  else if c = .scalar ',' then (.comma, 0)
  else if (Operator.ofSymbol? [c]).isSome then (.operator, 0)
  else if c.opensName then (.name, nameRun rest)
  else (.unknown, 0)

/-- The tokens of a text that starts at an offset. -/
def scanFrom (offset : Nat) : Text → List Token
  | [] => []
  | c :: rest =>
    if c.isBlank then scanFrom (offset + 1) rest
    else
      let (kind, n) := lexeme c rest
      ⟨kind, c :: rest.take n, some offset⟩ :: scanFrom (offset + 1 + n) (rest.drop n)
termination_by t => t.length
decreasing_by
  · simp
  · simp only [List.length_drop, List.length_cons]; omega

/-- The tokens of a text in order. -/
def scan (t : Text) : List Token := scanFrom 0 t

end Reckoner.Token
