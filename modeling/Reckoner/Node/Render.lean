import Reckoner.Value.Inspect
import Reckoner.Text.Quoted
/-!
# Rendering

A tree is written with a bracket pair around every operation and every call, blanks between all its parts, texts
between double quotes and numbers without an exponent, so that a reader meets each operand by itself. The display of
a value is its form inside a concatenation.
-/
namespace Reckoner

/-- A list of rendered elements between brackets. -/
def bracketed (elements : List Text) : Text := "( " ++ Text.join " , " elements ++ " )"

mutual

/-- The canonical text of a tree. -/
def Node.render : Node → Outcome Text
  | .constant payload =>
    match payload with
    | .tuple items => return bracketed (← Node.renderAll items)
    | .text t => .ok (t.quoted .unicode)
    | .token t => .ok (t.text.quoted .unicode)
    | .float x => .ok (Numeral.ofBinary64 x)
    | .node n => n.render
    | .date d => .ok d.isoForm
    | .moment m => .ok (m.isoForm ' ')
    | other => other.inspect
  | .property name => .ok name
  | .binary op left right => return "( " ++ (← left.render) ++ " " ++ op ++ " " ++ (← right.render) ++ " )"
  | .call name args =>
    match args with
    | .property argument => .ok ("( " ++ name ++ " ( " ++ argument ++ " ) )")
    | .constant (.tuple items) => return "( " ++ name ++ " " ++ bracketed (← Node.renderAll items) ++ " )"
    | .constant payload => return "( " ++ name ++ " ( " ++ (← (Node.constant payload).render) ++ " ) )"
    | other => return "( " ++ name ++ " " ++ (← other.render) ++ " )"

/-- The canonical texts of the elements of an argument list, each of which has to be a node. -/
def Node.renderAll : List Value → Outcome (List Text)
  | [] => .ok []
  | v :: rest =>
    match v with
    | .node n => return (← n.render) :: (← Node.renderAll rest)
    | other => .fail (.unknownNode other.typeName)

end

namespace Value

/-- The plain form of a value, in which a text stands for itself. -/
def plain : Value → Outcome Text
  | .text t => .ok t
  | .token t => .ok t.text
  | .date d => .ok d.isoForm
  | .moment m => .ok (m.isoForm ' ')
  | .node n => n.render
  | other => other.inspect

/-- The written form of a number in formulas; other values have their plain form. -/
def numberForm : Value → Outcome Text
  | .float x => .ok (Numeral.ofBinary64 x)
  | other => other.plain

/-- The form of a value inside a concatenation. -/
def display : Value → Outcome Text
  | .absent => .ok "undefined"
  | .bool b => .ok (if b then "true" else "false")
  | .tuple items => return bracketed (← Node.renderAll items)
  | other => other.numberForm

end Value

/-- The rendering of a value that has to be a node. -/
def Value.render : Value → Outcome Text
  | .node n => n.render
  | other => .fail (.unknownNode other.typeName)

end Reckoner
