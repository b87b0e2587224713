import Reckoner.Text.Lines
import Reckoner.Yaml.Directive
import Reckoner.Yaml.Scalar
/-!
# Lexemes

A document is cut into scalars, indicators and the marks of its layout: where lines are indented more than before a
block collection starts, and where they are indented less one ends. A scalar or a bracketed collection is a key when a
colon follows on its line; whether it is one shows only at the colon, so the mark of a key is put in front of it
afterwards. A text may also turn out to be no document; then its lexemes end with the fault, behind those that are
settled by then.
-/
namespace Reckoner.Yaml

inductive Lexeme where
  /-- A line about the document that follows, which may say the major number of its version. -/
  | directive (major : Option Nat)
  | documentStart
  | documentEnd
  | sequenceStart
  | mappingStart
  | blockEnd
  | openSquare
  | closeSquare
  | openCurly
  | closeCurly
  | comma
  | entry
  | key
  | value
  | scalar (content : Text) (isPlain : Bool)
  /-- Nothing more can be read. -/
  | faulty (f : Fault)
  deriving DecidableEq, Repr

/-- Why the lexemes cannot go on as they do. -/
def Lexeme.fault : List Lexeme → Fault
  | .faulty f :: _ => f
  | _ => .unreadable

/-- A place where a key may have started: the number of lexemes before it, whether it has to be one, and its
position. -/
structure KeySpot where
  before : Nat
  required : Bool
  index : Nat
  line : Nat
  column : Int

/-- What has been read: the lexemes in reverse, the indents of the open block collections from the inside out, whether
a key may start at the cursor, and the possible keys of the open brackets from the inside out. -/
structure Scan where
  cursor : Cursor
  lexemes : List Lexeme
  indent : Int
  outerIndents : List Int
  keyAllowed : Bool
  key : Option KeySpot
  outerKeys : List (Option KeySpot)

namespace Scan

def start (t : Text) : Scan := ⟨.start t, [], -1, [], true, none, []⟩

def inBrackets (s : Scan) : Bool := !s.outerKeys.isEmpty

def emit (s : Scan) (l : Lexeme) : Scan := { s with lexemes := l :: s.lexemes }

def advance (s : Scan) (n : Nat) : Scan := { s with cursor := s.cursor.advance n }

/-- The possible key of the current brackets is none; one that has to be a key must not be given up. -/
def dropKey (s : Scan) : Except Fault Scan :=
  if s.key.any (·.required) then .error .unreadable else .ok { s with key := none }

/-- A key has to end on its line, and within 1024 code points. -/
def isStale (p : Cursor) (k : KeySpot) : Bool := k.line != p.line || 1024 < p.index - k.index

/-- Gives up the possible keys that the cursor has left behind. -/
def dropStaleKeys (s : Scan) : Except Fault Scan :=
  if (s.key :: s.outerKeys).any (·.any fun k => k.required && isStale s.cursor k) then .error .unreadable
  else
    .ok { s with
      key := s.key.filter fun k => !isStale s.cursor k
      outerKeys := s.outerKeys.map (·.filter fun k => !isStale s.cursor k) }

/-- Notes that a key may start here. It has to be one at the start of a line of a block mapping. -/
def offerKey (s : Scan) : Except Fault Scan :=
  if s.keyAllowed then do
    let s ← s.dropKey
    return { s with key := some ⟨s.lexemes.length, !s.inBrackets && s.indent == s.cursor.column, s.cursor.index,
      s.cursor.line, s.cursor.column⟩ }
  else .ok s

/-- The indents that are open at a column, and the lexemes with an end for every other one. -/
def closedTo (column : Int) (indent : Int) (lexemes : List Lexeme) : List Int → Int × List Int × List Lexeme
  | [] => (indent, [], lexemes)
  | outer :: others =>
    if column < indent then closedTo column outer (.blockEnd :: lexemes) others
    else (indent, outer :: others, lexemes)

/-- Ends the block collections that are indented more than the column. Inside brackets the layout is free. -/
def closeIndents (column : Int) (s : Scan) : Scan :=
  if s.inBrackets then s
  else
    let (indent, outer, lexemes) := closedTo column s.indent s.lexemes s.outerIndents
    { s with indent := indent, outerIndents := outer, lexemes := lexemes }

/-- Starts a block collection at a column that is indented more than the current one. -/
def openIndent (column : Int) (l : Lexeme) (s : Scan) : Scan :=
  if s.indent < column then
    { s with indent := column, outerIndents := s.indent :: s.outerIndents, lexemes := l :: s.lexemes }
  else s

/-- How many code points of blanks, line breaks and comments stand ahead, and whether a line break is among them. -/
def gapAhead (inComment : Bool) : Text → Nat × Bool
  | [] => (0, false)
  | c :: rest =>
    if c.breaksLine then ((gapAhead false rest).1 + 1, true)
    else if inComment || c == .scalar ' ' then
      let (n, broken) := gapAhead inComment rest
      (n + 1, broken)
    else if c = .scalar '#' then
      let (n, broken) := gapAhead true rest
      (n + 1, broken)
    else (0, false)

/-- Goes on to the next lexeme, gives up stale keys and ends block collections. A new line may start a key. -/
def settle (s : Scan) : Except Fault Scan := do
  let (n, broken) := gapAhead false s.cursor.rest
  let s ← (s.advance n).dropStaleKeys
  let s := { s with keyAllowed := s.keyAllowed || (broken && !s.inBrackets) }
  return s.closeIndents s.cursor.column

/-- A line that separates documents. -/
def separator (l : Lexeme) (s : Scan) : Except Fault Scan := do
  let s ← (s.closeIndents (-1)).dropKey
  return ({ s with keyAllowed := false }.emit l).advance 3

/-- Reads a directive with the line it stands on. -/
def directive (s : Scan) : Except Fault Scan := do
  let s ← (s.closeIndents (-1)).dropKey
  let major ← Directive.read (s.cursor.rest.drop 1)
  return ({ s with keyAllowed := false }.emit (.directive major)).advance
    ((s.cursor.rest.takeWhile fun c => !CodePoint.breaksLine c).length + 1)

def openBracket (l : Lexeme) (s : Scan) : Except Fault Scan := do
  let s ← s.offerKey
  return ({ s with keyAllowed := true, key := none, outerKeys := s.key :: s.outerKeys }.emit l).advance 1

def closeBracket (l : Lexeme) (s : Scan) : Except Fault Scan := do
  let s ← s.dropKey
  match s.outerKeys with
  | [] => .error .unreadable
  | key :: outer => return ({ s with keyAllowed := false, key := key, outerKeys := outer }.emit l).advance 1

def comma (s : Scan) : Except Fault Scan := do
  let s ← s.dropKey
  return ({ s with keyAllowed := true }.emit .comma).advance 1

/-- Starts the block collection of an indicator at the cursor, which has to stand where a key may start. -/
def layOut (l : Lexeme) (s : Scan) : Except Fault Scan :=
  if s.inBrackets then .ok s
  else if s.keyAllowed then .ok (s.openIndent s.cursor.column l)
  else .error .unreadable

def entry (s : Scan) : Except Fault Scan := do
  let s ← (← s.layOut .sequenceStart).dropKey
  return ({ s with keyAllowed := true }.emit .entry).advance 1

def explicitKey (s : Scan) : Except Fault Scan := do
  let s ← (← s.layOut .mappingStart).dropKey
  return ({ s with keyAllowed := !s.inBrackets }.emit .key).advance 1

/-- The mark of a key in front of the lexemes after its place, and the start of a mapping if the key opens one. -/
def markKey (k : KeySpot) (s : Scan) : Scan :=
  let after := s.lexemes.take (s.lexemes.length - k.before)
  let before := { s with lexemes := s.lexemes.drop (s.lexemes.length - k.before) }
  let opened := if s.inBrackets then before else before.openIndent k.column .mappingStart
  { opened with lexemes := after ++ .key :: opened.lexemes }

def valueMark (s : Scan) : Except Fault Scan :=
  match s.key with
  | some k =>
    let marked := { s with key := none }.markKey k
    return ({ marked with keyAllowed := false }.emit .value).advance 1
  | none => do
    let s ← (← s.layOut .mappingStart).dropKey
    return ({ s with keyAllowed := !s.inBrackets }.emit .value).advance 1

def quoted (read : Text → Except Fault (Text × Text)) (s : Scan) : Except Fault Scan := do
  let s ← s.offerKey
  let (content, after) ← read (s.cursor.rest.drop 1)
  return ({ s with keyAllowed := false }.emit (.scalar content false)).advance
    (s.cursor.rest.length - after.length)

def plain (s : Scan) : Except Fault Scan := do
  let s ← s.offerKey
  let (content, after, broken) := Plain.scan s.inBrackets s.indent s.cursor
  return { s.emit (.scalar content true) with cursor := after, keyAllowed := broken }

/-- A code point that opens no scalar and is no indicator of what can be read. -/
def opensNothing (c : CodePoint) : Bool := c.isGap || c ∈ Text.ofString "#&*!|>%@\x60"

/-- Reads the lexeme that starts with `c`. -/
def lexeme (c : CodePoint) (rest : Text) (s : Scan) : Except Fault Scan :=
  let alone := endsWord rest.head?
  if s.cursor.column = 0 ∧ c = .scalar '%' then s.directive
  else if s.cursor.column = 0 ∧ startsSeparator (c :: rest) = true then
    s.separator (if c = .scalar '-' then .documentStart else .documentEnd)
  else
    match c with
    | .scalar '[' => s.openBracket .openSquare
    | .scalar ']' => s.closeBracket .closeSquare
    | .scalar '\x7b' => s.openBracket .openCurly
    | .scalar '\x7d' => s.closeBracket .closeCurly
    | .scalar ',' => s.comma
    | .scalar '-' => if alone then s.entry else s.plain
    | .scalar '?' => if alone || s.inBrackets then s.explicitKey else s.plain
    | .scalar ':' => if alone || s.inBrackets then s.valueMark else s.plain
    | .scalar '\'' => s.quoted Quoted.single
    | .scalar '"' => s.quoted Quoted.double
    | _ => if opensNothing c then .error .unreadable else s.plain

/-- How many lexemes are settled: a mark can still be put in front of the others. -/
def settledCount (s : Scan) : Nat :=
  (s.key :: s.outerKeys).foldl
    (fun n key => (key.filter fun k => !isStale s.cursor k).elim n fun k => min n k.before) s.lexemes.length

/-- The lexemes that are settled, and the fault that keeps others from being read. -/
def stop (s : Scan) (f : Fault) : List Lexeme := s.lexemes.reverse.take s.settledCount ++ [.faulty f]

/-- Ends the block collections at the end of the text. -/
def finish (s : Scan) : Except Fault (List Lexeme) := do
  let ended ← (s.closeIndents (-1)).dropKey
  return ended.lexemes.reverse

/-- Reads all lexemes; a lexeme has at least one code point. -/
def run (s : Scan) : List Lexeme :=
  match s.settle with
  | .error f => s.stop f
  | .ok settled =>
    match settled.cursor.rest with
    | [] =>
      match settled.finish with
      | .error f => s.stop f
      | .ok ls => ls
    | c :: rest =>
      match settled.lexeme c rest with
      | .error f => s.stop f
      | .ok next =>
        if _shorter : next.cursor.rest.length < s.cursor.rest.length then run next else s.stop .unreadable
termination_by s.cursor.rest.length

end Scan

/-- The lexemes of a text. A byte order mark may open it. -/
def Lexeme.ofText (t : Text) : List Lexeme :=
  if t.all CodePoint.isAdmissible then
    let lines := t.withLineFeeds.map fun c => if c.toNat = 0x85 then .scalar '\n' else c
    (Scan.start (if lines.head?.any (·.toNat == 0xFEFF) then lines.drop 1 else lines)).run
  else [.faulty .unreadable]

end Reckoner.Yaml
