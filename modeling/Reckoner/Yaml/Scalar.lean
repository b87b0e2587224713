import Reckoner.Yaml.Cursor
import Reckoner.Yaml.Fault
/-!
# Scalars

A scalar is written plainly or between quotes, and may go on over several lines. One line break between two words
stands for a blank and further ones for themselves; blanks around line breaks do not count.
-/
namespace Reckoner.Yaml

/-- What a stretch of line breaks in a scalar stands for. -/
def foldedBreaks : Text → Text
  | [] => []
  | first :: further =>
    if first ≠ .scalar '\n' then first :: further
    else if further.isEmpty then [.scalar ' ']
    else further

/-- What a stretch of blanks and line breaks between two words stands for. -/
def foldedGap (gap : Text) : Text :=
  if gap.any CodePoint.breaksLine then foldedBreaks (gap.filter CodePoint.breaksLine) else gap

/-- Does a line start right after a stretch of blanks and line breaks? -/
def endsAtLineStart (gap : Text) : Bool := gap.getLast?.any CodePoint.breaksLine

namespace Quoted

/-- A stretch of blanks and line breaks inside quotes, and the text after it. Neither the end of the text nor a
separator of documents may follow. -/
def gap (t : Text) : Except Fault (Text × Text) :=
  let blanks := t.takeWhile CodePoint.isGap
  let after := t.dropWhile CodePoint.isGap
  if after.isEmpty || (endsAtLineStart blanks && startsSeparator after) then .error .unreadable
  else .ok (blanks, after)

/-- The content after an opening single quote, and the text after the closing one. Two quotes stand for one. -/
def single : Text → Except Fault (Text × Text)
  | [] => .error .unreadable
  | c :: rest =>
    if c = .scalar '\'' then
      match rest with
      | .scalar '\'' :: after => do
        let (content, last) ← single after
        return (.scalar '\'' :: content, last)
      | _ => .ok ([], rest)
    else if c.isGap then
      match gap (c :: rest) with
      | .error e => .error e
      | .ok (blanks, after) =>
        if _shorter : after.length < (c :: rest).length then do
          let (content, last) ← single after
          return (foldedGap blanks ++ content, last)
        else .error .unreadable
    else do
      let (content, last) ← single rest
      return (c :: content, last)
termination_by t => t.length
decreasing_by
  · simp only [List.length_cons]; omega
  · assumption
  · simp

/-- What the letter after a backslash stands for. -/
def escaped? (c : CodePoint) : Option CodePoint :=
  match c with
  | .scalar '0' => some (.scalar '\x00')
  | .scalar 'a' => some (.scalar '\x07')
  | .scalar 'b' => some (.scalar '\x08')
  | .scalar 't' => some (.scalar '\t')
  | .scalar '\t' => some (.scalar '\t')
  | .scalar 'n' => some (.scalar '\n')
  | .scalar 'v' => some (.scalar '\x0b')
  | .scalar 'f' => some (.scalar '\x0c')
  | .scalar 'r' => some (.scalar '\r')
  | .scalar 'e' => some (.scalar '\x1b')
  | .scalar ' ' => some (.scalar ' ')
  | .scalar '"' => some (.scalar '"')
  | .scalar '\\' => some (.scalar '\\')
  | .scalar '/' => some (.scalar '/')
  | .scalar 'N' => some (.scalar '\x85')
  | .scalar '_' => some (.scalar '\xa0')
  | .scalar 'L' => some (.scalar '\u2028')
  | .scalar 'P' => some (.scalar '\u2029')
  | _ => none

/-- How many hexadecimal digits follow the letter after a backslash. -/
def codeWidth? (c : CodePoint) : Option Nat :=
  match c with
  | .scalar 'x' => some 2
  | .scalar 'u' => some 4
  | .scalar 'U' => some 8
  | _ => none

/-- The code point with a code. A code that takes more than 31 bits is no number of the machine either. -/
def codePoint (code : Nat) : Except Fault CodePoint :=
  if code < 0x110000 then .ok (.ofNat code)
  else if code < 0x80000000 then .error .noCodePoint
  else .error .tooLarge

/-- The code point that so many digits after a backslash and a letter name. -/
def coded (width : Nat) (t : Text) : Except Fault CodePoint :=
  let digits := t.take width
  if digits.length < width then .error .unreadable
  else
    match Text.hexNumber? digits with
    | some code => codePoint code
    | none => .error .unreadable

/-- The content of the escape after a backslash, and the text after the escape. A line break after a backslash
vanishes together with the blanks of the next line; the breaks of empty lines stay. -/
def escape (c : CodePoint) (rest : Text) : Except Fault (Text × Text) :=
  match escaped? c with
  | some d => .ok ([d], rest)
  | none =>
    match codeWidth? c with
    | some width => do
      let d ← coded width rest
      return ([d], rest.drop width)
    | none =>
      if c.breaksLine then do
        let (blanks, after) ← gap rest
        if blanks.isEmpty && startsSeparator after then .error .unreadable
        else return (blanks.filter CodePoint.breaksLine, after)
      else .error .unreadable

/-- The content after an opening double quote, and the text after the closing one. -/
def double : Text → Except Fault (Text × Text)
  | [] => .error .unreadable
  | c :: rest =>
    if c = .scalar '"' then .ok ([], rest)
    else if c = .scalar '\\' then
      match rest with
      | [] => .error .unreadable
      | d :: after =>
        match escape d after with
        | .error e => .error e
        | .ok (first, remaining) =>
          if _shorter : remaining.length < (c :: d :: after).length then do
            let (content, last) ← double remaining
            return (first ++ content, last)
          else .error .unreadable
    else if c.isGap then
      match gap (c :: rest) with
      | .error e => .error e
      | .ok (blanks, after) =>
        if _shorter : after.length < (c :: rest).length then do
          let (content, last) ← double after
          return (foldedGap blanks ++ content, last)
        else .error .unreadable
    else do
      let (content, last) ← double rest
      return (c :: content, last)
termination_by t => t.length
decreasing_by
  · assumption
  · assumption
  · simp

end Quoted

namespace Plain

/-- A code point that ends a plain scalar inside brackets. -/
def endsInBrackets (c : CodePoint) : Bool := c ∈ Text.ofString ",?[]\x7b\x7d"

/-- A code point before which a colon inside brackets ends a plain scalar. -/
def followsColon (c : CodePoint) : Bool := c ∈ Text.ofString ",[]\x7b\x7d"

/-- How many code points of a plain scalar stand before the next blank. -/
def wordLength (inBrackets : Bool) : Text → Nat
  | [] => 0
  | c :: rest =>
    if c.isGap || (inBrackets && endsInBrackets c) then 0
    else if c = .scalar ':' ∧ (endsWord rest.head? || (inBrackets && rest.head?.any followsColon)) = true then 0
    else wordLength inBrackets rest + 1

/-- A blank or a line break; a tab ends a plain scalar. -/
def isGap (c : CodePoint) : Bool := c == .scalar ' ' || c.breaksLine

/-- A plain scalar with the place after it and its last blanks, and whether a line break was among those. Outside
brackets the scalar goes on only while its lines are indented more than the collection around it. -/
def scan (inBrackets : Bool) (indent : Int) (p : Cursor) : Text × Cursor × Bool :=
  let after := p.advance (wordLength inBrackets p.rest)
  let gap := after.rest.takeWhile isGap
  let next := after.advance gap.length
  let word := p.rest.take (wordLength inBrackets p.rest)
  let broken := gap.any CodePoint.breaksLine
  if gap.isEmpty || (endsAtLineStart gap && startsSeparator next.rest) || next.rest.head? == some (.scalar '#') ||
      (!inBrackets && (next.column : Int) ≤ indent) || wordLength inBrackets next.rest == 0 then
    (word, next, broken)
  else if next.rest.length < p.rest.length then
    let (content, last, brokenLast) := scan inBrackets indent next
    (word ++ foldedGap gap ++ content, last, brokenLast)
  else (word, next, broken)
termination_by p.rest.length

end Plain
end Reckoner.Yaml
