import Reckoner.Text.Blank
/-!
# Lines

A text is cut into lines at every character that ends one, the separators of paragraphs, pages and records included.
The lines of a file end in one of three ways, for which a line feed is put first.
-/
namespace Reckoner

/-- A character that ends a line. -/
def CodePoint.endsLine (c : CodePoint) : Bool :=
  let n := c.toNat
  (10 ≤ n && n ≤ 13) || (28 ≤ n && n ≤ 30) || n == 0x85 || n == 0x2028 || n == 0x2029

namespace Text

/-- The parts of a text between the ends of lines; two ends next to each other have an empty part between them. -/
def lines : Text → List Text
  | [] => [[]]
  | c :: rest =>
    if c.endsLine then [] :: lines rest
    else
      match lines rest with
      | [] => [[c]]
      | line :: others => (c :: line) :: others

/-- The text with a line feed for each line break by carriage return, line feed or both in this order, where
`returned` says whether a carriage return has just been read. -/
def lineFeedsFrom (returned : Bool) : Text → Text
  | [] => []
  | c :: rest =>
    if c = .scalar '\r' then .scalar '\n' :: lineFeedsFrom true rest
    else if c = .scalar '\n' ∧ returned then lineFeedsFrom false rest
    else c :: lineFeedsFrom false rest

/-- The text with line feeds for its line breaks. -/
def withLineFeeds (t : Text) : Text := lineFeedsFrom false t

end Text
end Reckoner
