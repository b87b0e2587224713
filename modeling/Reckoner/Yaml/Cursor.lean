import Reckoner.Text.Basic
/-!
# Positions in a document

A document is read from a text in which every line break but the two Unicode ones is a line feed. A cursor is a
place in it: the text from there on, and its offset, line and column. Byte order marks have no width.
-/
namespace Reckoner

namespace CodePoint

/-- A line break of a document. -/
def breaksLine (c : CodePoint) : Bool := c == .scalar '\n' || c.toNat == 0x2028 || c.toNat == 0x2029

/-- A blank, a tab or a line break. -/
def isGap (c : CodePoint) : Bool := c == .scalar ' ' || c == .scalar '\t' || c.breaksLine

/-- May the code point stand in a document at all? -/
def isAdmissible (c : CodePoint) : Bool :=
  let n := c.toNat
  n == 9 || n == 10 || n == 13 || (0x20 ≤ n && n ≤ 0x7E) || n == 0x85 || (0xA0 ≤ n && n ≤ 0xD7FF) ||
    (0xE000 ≤ n && n ≤ 0xFFFD) || 0x10000 ≤ n

end CodePoint

namespace Yaml

/-- Does a word end before the next code point? It does at the end of the text too. -/
def endsWord (next : Option CodePoint) : Bool := next.all CodePoint.isGap

/-- Does a line start here that separates documents? -/
def startsSeparator (t : Text) : Bool :=
  (t.take 3 == Text.ofString "---" || t.take 3 == Text.ofString "...") && endsWord t[3]?

structure Cursor where
  rest : Text
  index : Nat
  line : Nat
  column : Nat

namespace Cursor

def start (t : Text) : Cursor := ⟨t, 0, 0, 0⟩

/-- The place after the next code point. -/
def next (p : Cursor) : Cursor :=
  match p.rest with
  | [] => p
  | c :: rest =>
    if c.breaksLine then ⟨rest, p.index + 1, p.line + 1, 0⟩
    else ⟨rest, p.index + 1, p.line, if c.toNat = 0xFEFF then p.column else p.column + 1⟩

/-- The place after so many code points. -/
def advance (p : Cursor) : Nat → Cursor
  | 0 => p
  | n + 1 => p.next.advance n

end Cursor
end Yaml
end Reckoner
