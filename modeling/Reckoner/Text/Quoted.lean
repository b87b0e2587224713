import Reckoner.Text.Basic
/-!
# Double-quoted text

How a text is written between double quotes, in trees and in the journal: the quote, the backslash and the control
characters are escaped, the five common controls by a letter and the others by four hexadecimal digits. The journal
and machine-readable answers escape everything outside printable ASCII too, a code point above `U+FFFF` as the two
halves of its surrogate pair; trees keep such characters as they are.
-/
namespace Reckoner

/-- Which code points a quotation writes as they are. -/
inductive Charset where
  | ascii
  | unicode
  deriving DecidableEq, Repr

/-- The letter that stands for a common control character after a backslash. -/
def CodePoint.escapeLetter? : CodePoint → Option Char
  | .scalar '"' => some '"'
  | .scalar '\\' => some '\\'
  | .scalar '\n' => some 'n'
  | .scalar '\r' => some 'r'
  | .scalar '\t' => some 't'
  | .scalar '\x08' => some 'b'
  | .scalar '\x0c' => some 'f'
  | _ => none

namespace Text

/-- A code unit of sixteen bits as an escape of four hexadecimal digits. -/
def unitEscape (n : Nat) : Text := .scalar '\\' :: .scalar 'u' :: hex 4 n

/-- The code point `n` by escapes: one unit, or the two halves of a surrogate pair above `U+FFFF`. -/
def unitEscapes (n : Nat) : Text :=
  if n < 0x10000 then unitEscape n
  else unitEscape (0xD800 + (n - 0x10000) / 0x400) ++ unitEscape (0xDC00 + (n - 0x10000) % 0x400)

/-- How one code point stands between double quotes. -/
def quotedChar (charset : Charset) (c : CodePoint) : Text :=
  match c.escapeLetter? with
  | some letter => [.scalar '\\', .scalar letter]
  | none =>
    if c.toNat < 0x20 ∨ (charset = .ascii ∧ 0x7F ≤ c.toNat) then unitEscapes c.toNat else [c]

/-- The text between double quotes. -/
def quoted (charset : Charset) (t : Text) : Text :=
  .scalar '"' :: t.flatMap (quotedChar charset) ++ [.scalar '"']

end Text
end Reckoner
