import Reckoner.Numeral
import Reckoner.Context
/-!
# Bracketed references

A name that is no identifier, such as one with a blank in it, stands in a formula between square brackets. Before the
formula is read every reference is replaced by a placeholder, `prop1`, `prop2` and so on, numbered in order of first
appearance; references to one name share a placeholder. The values of the names are then bound to the placeholders.
-/
namespace Reckoner

/-- A piece of formula text: a reference with the name between its brackets, or a code point outside references. -/
inductive Piece where
  | reference (written : Text)
  | plain (c : CodePoint)
  deriving DecidableEq, Repr

namespace Piece

/-- May the code point stand in a reference? -/
def namesReference (c : CodePoint) : Bool := c.continuesName || c == .scalar ' '

/-- How many code points the name of a reference has, if the text goes on with a name and a closing bracket. -/
def nameLength? (t : Text) : Option Nat :=
  let written := t.takeWhile namesReference
  if t[written.length]? = some (.scalar ']') then some written.length else none

/-- The pieces of a text from left to right. -/
def ofText : Text → List Piece
  | [] => []
  | c :: rest =>
    if c = .scalar '[' then
      match nameLength? rest with
      | some n => .reference (rest.take n) :: ofText (rest.drop (n + 1))
      | none => .plain c :: ofText rest
    else .plain c :: ofText rest
termination_by t => t.length
decreasing_by
  · simp only [List.length_drop, List.length_cons]; omega
  · simp
  · simp

/-- The text a piece is written with. -/
def text : Piece → Text
  | .reference written => .scalar '[' :: written ++ [.scalar ']']
  | .plain c => [c]

/-- The name a reference reads; blanks around it do not count. -/
def name? : Piece → Option Text
  | .reference written => some written.strip
  | .plain _ => none

end Piece

/-- A formula text with placeholders for its references, and the names they stand for. -/
structure Substitution where
  text : Text
  names : List Text
  deriving DecidableEq, Repr

namespace Substitution

/-- The placeholder with an index, counted from zero. -/
def placeholder (index : Nat) : Text := "prop" ++ Numeral.ofNat (index + 1)

/-- The text that takes the place of a piece. -/
def replacement (names : List Text) (piece : Piece) : Text :=
  match piece with
  | .reference written => placeholder (names.idxOf written.strip)
  | .plain c => [c]

/-- The text with every reference replaced. -/
def ofText (t : Text) : Substitution :=
  let pieces := Piece.ofText t
  let names := (pieces.filterMap Piece.name?).eraseDups
  ⟨pieces.flatMap (replacement names), names⟩

/-- The placeholders with their names, in order. -/
def entries (s : Substitution) : List (Text × Text) :=
  s.names.zipIdx.map fun (name, index) => (placeholder index, name)

/-- The placeholders with the values of their names; a name without a value is left out. -/
def bind (s : Substitution) (values : Context) : Context :=
  s.entries.filterMap fun (placeholder, name) => (values.get? name).map (placeholder, ·)

end Substitution
end Reckoner
