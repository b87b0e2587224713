import Reckoner.Yaml.Lexeme
/-!
# Document trees

The lexemes of a document form one tree of scalars, sequences and mappings. A place without a node, such as a key
without a value, holds the empty plain scalar. In front of a document may stand directives, and then the mark of its
start has to follow. A sequence that is the value of a key may stand as far to the left as
the key, and then has no marks of its own layout.
-/
namespace Reckoner.Yaml

inductive Tree where
  | scalar (content : Text) (isPlain : Bool)
  | sequence (items : List Tree)
  | mapping (entries : List (Tree × Tree))

namespace Tree

/-- What stands where nothing is written. -/
def empty : Tree := .scalar [] true

/-- A tree, and the lexemes after it. -/
abbrev Reading := Except Fault (Tree × List Lexeme)

mutual

/-- Reads a node. Where `flush` holds, a sequence may come without marks of layout. Here and below `depth` is a bound
on the number of calls inside each other. -/
def node (depth : Nat) (flush : Bool) (ls : List Lexeme) : Reading :=
  match depth with
  | 0 => .error .unreadable
  | depth + 1 =>
    match ls with
    | .scalar content isPlain :: rest => .ok (.scalar content isPlain, rest)
    | .openSquare :: rest => squareItems depth [] rest
    | .openCurly :: rest => curlyEntries depth [] rest
    | .sequenceStart :: rest => blockItems depth [] rest
    | .mappingStart :: rest => blockEntries depth [] rest
    | .entry :: _ => if flush then flushItems depth [] ls else .error .unreadable
    | _ => .error (Lexeme.fault ls)

/-- Reads a node unless one of the stops is next. -/
def nodeBefore (depth : Nat) (flush : Bool) (stops : List Lexeme) (ls : List Lexeme) : Reading :=
  match depth with
  | 0 => .error .unreadable
  | depth + 1 => if ls.head?.any (· ∈ stops) then .ok (empty, ls) else node depth flush ls

/-- Reads the value of a key, if there is one. -/
def valueBefore (depth : Nat) (flush : Bool) (stops : List Lexeme) (ls : List Lexeme) : Reading :=
  match depth with
  | 0 => .error .unreadable
  | depth + 1 =>
    match ls with
    | .value :: rest => nodeBefore depth flush stops rest
    | _ => .ok (empty, ls)

/-- Reads the items of a block sequence after those in `items`, which are in reverse. -/
def blockItems (depth : Nat) (items : List Tree) (ls : List Lexeme) : Reading :=
  match depth with
  | 0 => .error .unreadable
  | depth + 1 =>
    match ls with
    | .entry :: rest => do
      let (item, rest) ← nodeBefore depth false [.entry, .blockEnd] rest
      blockItems depth (item :: items) rest
    | .blockEnd :: rest => .ok (.sequence items.reverse, rest)
    | _ => .error (Lexeme.fault ls)

/-- Reads the items of a sequence without marks of layout. -/
def flushItems (depth : Nat) (items : List Tree) (ls : List Lexeme) : Reading :=
  match depth with
  | 0 => .error .unreadable
  | depth + 1 =>
    match ls with
    | .entry :: rest => do
      let (item, rest) ← nodeBefore depth false [.entry, .key, .value, .blockEnd] rest
      flushItems depth (item :: items) rest
    | _ => .ok (.sequence items.reverse, ls)

/-- Reads the entries of a block mapping. -/
def blockEntries (depth : Nat) (entries : List (Tree × Tree)) (ls : List Lexeme) : Reading :=
  match depth with
  | 0 => .error .unreadable
  | depth + 1 =>
    match ls with
    | .key :: rest => do
      let (key, rest) ← nodeBefore depth true [.key, .value, .blockEnd] rest
      let (v, rest) ← valueBefore depth true [.key, .value, .blockEnd] rest
      blockEntries depth ((key, v) :: entries) rest
    | .blockEnd :: rest => .ok (.mapping entries.reverse, rest)
    | _ => .error (Lexeme.fault ls)

/-- Reads the items between square brackets. An item may be a single entry of a mapping, and a comma may follow the
last item. -/
def squareItems (depth : Nat) (items : List Tree) (ls : List Lexeme) : Reading :=
  match depth with
  | 0 => .error .unreadable
  | depth + 1 =>
    match ls with
    | .closeSquare :: rest => .ok (.sequence items.reverse, rest)
    | .key :: rest => do
      let (key, rest) ← nodeBefore depth false [.value, .comma, .closeSquare] rest
      let (v, rest) ← valueBefore depth false [.comma, .closeSquare] rest
      moreSquareItems depth (.mapping [(key, v)] :: items) rest
    | _ => do
      let (item, rest) ← node depth false ls
      moreSquareItems depth (item :: items) rest

/-- Reads what follows an item between square brackets. -/
def moreSquareItems (depth : Nat) (items : List Tree) (ls : List Lexeme) : Reading :=
  match depth with
  | 0 => .error .unreadable
  | depth + 1 =>
    match ls with
    | .closeSquare :: rest => .ok (.sequence items.reverse, rest)
    | .comma :: rest => squareItems depth items rest
    | _ => .error (Lexeme.fault ls)

/-- Reads the entries between curly brackets. A node without a colon is a key without a value. -/
def curlyEntries (depth : Nat) (entries : List (Tree × Tree)) (ls : List Lexeme) : Reading :=
  match depth with
  | 0 => .error .unreadable
  | depth + 1 =>
    match ls with
    | .closeCurly :: rest => .ok (.mapping entries.reverse, rest)
    | .key :: rest => do
      let (key, rest) ← nodeBefore depth false [.value, .comma, .closeCurly] rest
      let (v, rest) ← valueBefore depth false [.comma, .closeCurly] rest
      moreCurlyEntries depth ((key, v) :: entries) rest
    | _ => do
      let (key, rest) ← node depth false ls
      moreCurlyEntries depth ((key, empty) :: entries) rest

/-- Reads what follows an entry between curly brackets. -/
def moreCurlyEntries (depth : Nat) (entries : List (Tree × Tree)) (ls : List Lexeme) : Reading :=
  match depth with
  | 0 => .error .unreadable
  | depth + 1 =>
    match ls with
    | .closeCurly :: rest => .ok (.mapping entries.reverse, rest)
    | .comma :: rest => curlyEntries depth entries rest
    | _ => .error (Lexeme.fault ls)

end

/-- The lexemes behind directives. The version may be said once, and its major number is one. -/
def afterDirectives (versioned : Bool) : List Lexeme → Except Fault (List Lexeme)
  | .directive none :: rest => afterDirectives versioned rest
  | .directive (some major) :: rest =>
    if versioned || major != 1 then .error .unreadable else afterDirectives true rest
  | ls => .ok ls

/-- The end of a document with a tree. Marks of its end may follow, but no other document. -/
def finish (tree : Tree) (ls : List Lexeme) : Except Fault (Option Tree) :=
  match ls.dropWhile (· == .documentEnd) with
  | [] => .ok (some tree)
  | further => do
    let rest ← afterDirectives false further
    .error (Lexeme.fault rest)

/-- The tree of a document behind the mark of its start. -/
def afterStart (depth : Nat) (ls : List Lexeme) : Except Fault (Option Tree) :=
  match ls with
  | [] | .directive _ :: _ => finish empty ls
  | _ => do
    let (tree, rest) ← nodeBefore depth false [.documentStart, .documentEnd] ls
    finish tree rest

/-- The tree of a whole document, after the mark of its start if there is one; behind directives there has to be one.
A text without a document has none. Every lexeme opens at most four calls inside each other. -/
def ofLexemes? (ls : List Lexeme) : Except Fault (Option Tree) :=
  let depth := 4 * ls.length + 4
  match ls with
  | [] => .ok none
  | .documentStart :: rest => afterStart depth rest
  | .directive _ :: _ => do
    match ← afterDirectives false ls with
    | .documentStart :: rest => afterStart depth rest
    | other => .error (Lexeme.fault other)
  | _ => do
    let (tree, rest) ← node depth false ls
    finish tree rest

end Tree
end Reckoner.Yaml
