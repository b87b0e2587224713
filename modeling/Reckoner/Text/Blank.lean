import Reckoner.Text.Basic
/-!
# Blanks

The characters that separate lexemes and that are cut from the ends of names: the Unicode white space
characters together with the four information separators.
-/
namespace Reckoner

def CodePoint.isBlank (c : CodePoint) : Bool :=
  let n := c.toNat
  (9 ≤ n && n ≤ 13) || (28 ≤ n && n ≤ 32) || n == 0x85 || n == 0xA0 || n == 0x1680 ||
    (0x2000 ≤ n && n ≤ 0x200A) || n == 0x2028 || n == 0x2029 || n == 0x202F || n == 0x205F || n == 0x3000

namespace Text

/-- The text without the blanks at its start. -/
def stripStart (t : Text) : Text := t.dropWhile CodePoint.isBlank

/-- The text without the blanks at its two ends. -/
def strip (t : Text) : Text := (stripStart (stripStart t).reverse).reverse

/-- A text of blanks alone, the empty text included. -/
def isBlank (t : Text) : Bool := t.all CodePoint.isBlank

end Text
end Reckoner
