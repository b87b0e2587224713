import Reckoner.Numeral
/-!
# Printed text

What leaves the program is UTF-8, which has no form for one half of a surrogate pair: such a text cannot be printed,
and where a message has to be printed anyway its halves are written as escapes. Away from a terminal the sequences
that control one are left out.
-/
namespace Reckoner.Text

/-- A code point between the bracket that opens a control sequence and the letter that ends it. -/
def isControlParameter (c : CodePoint) : Bool := c.isDigit || c == .scalar ';' || c == .scalar '?'

def isAsciiLetter : CodePoint → Bool
  | .scalar c => c.isAlpha
  | .surrogate _ => false

/-- The length of the control sequence at the beginning of a text. -/
def controlLength? : Text → Option Nat
  | .scalar '\x1b' :: .scalar '[' :: rest =>
    let parameters := rest.takeWhile isControlParameter
    if (rest.drop parameters.length).head?.any isAsciiLetter then some (parameters.length + 3) else none
  | _ => none

/-- The text without its control sequences, after so many code points that belong to one. -/
def dropControls (skipped : Nat) : Text → Text
  | [] => []
  | c :: rest =>
    match skipped with
    | n + 1 => dropControls n rest
    | 0 =>
      match controlLength? (c :: rest) with
      | some length => dropControls (length - 1) rest
      | none => c :: dropControls 0 rest

/-- The text without its control sequences. -/
def withoutControls (t : Text) : Text := dropControls 0 t

/-- The first code points of a text that cannot be written: where they begin, how many there are in a row, and the
first of them. -/
structure LoneHalves where
  start : Nat
  count : Nat
  first : CodePoint
  deriving DecidableEq, Repr

def LoneHalves.message (h : LoneHalves) : Text :=
  let shown : Text :=
    if h.count = 1 then
      "character '\\u" ++ hex 4 h.first.toNat ++ "' in position " ++ Numeral.ofNat h.start
    else "characters in position " ++ Numeral.ofNat h.start ++ "-" ++ Numeral.ofNat (h.start + h.count - 1)
  "'utf-8' codec can't encode " ++ shown ++ ": surrogates not allowed"

def isHalf : CodePoint → Bool
  | .surrogate _ => true
  | .scalar _ => false

/-- The halves of surrogate pairs that keep a text from being written. -/
def loneHalves? (t : Text) : Option LoneHalves :=
  match t.dropWhile fun c => !isHalf c with
  | [] => none
  | c :: rest => some ⟨(t.takeWhile fun c => !isHalf c).length, 1 + (rest.takeWhile isHalf).length, c⟩

/-- The text with every half of a surrogate pair as an escape. -/
def escapeHalves (t : Text) : Text :=
  t.flatMap fun c => if isHalf c then .scalar '\\' :: .scalar 'u' :: hex 4 c.toNat else [c]

/-- The text with blanks before it up to a width. -/
def alignRight (width : Nat) (t : Text) : Text := List.replicate (width - t.length) (.scalar ' ') ++ t

/-- The text with blanks after it up to a width. -/
def alignLeft (width : Nat) (t : Text) : Text := t ++ List.replicate (width - t.length) (.scalar ' ')

end Reckoner.Text
