import Reckoner.Reference
import Reckoner.Node.Parse
import Reckoner.Node.Compute
/-!
# The calculator

A calculator works out formulas with references against its own variables and the values given with the formula, of
which the latter are the stronger. The values of references are stronger than both.
-/
namespace Reckoner

structure Calculator where
  functions : FunctionTable
  defaults : Context

/-- A formula worked out: the text that was read, its value, the canonical text of its tree and the display of its
value. -/
structure Evaluation where
  expression : Text
  value : Value
  rendered : Text
  display : Text

namespace Calculator

/-- A calculator with the functions every calculator knows. -/
def withDefaults (defaults : Context) : Calculator := ⟨.builtin, defaults⟩

/-- What the names in a formula mean. -/
def context (c : Calculator) (s : Substitution) (values : Context) : Context :=
  let named := values ++ c.defaults
  s.bind named ++ named

/-- The tree of a formula and its value. -/
def compute (c : Calculator) (formula : Text) (values : Context) : Outcome (Node × Value) := do
  let s := Substitution.ofText formula
  let tree ← Node.parse s.text
  let v ← tree.compute c.functions (c.context s values)
  return (tree, v)

/-- The tree written out, and then its value. -/
def present (expression : Text) (tree : Node) (v : Value) : Outcome Evaluation := do
  let rendered ← tree.render
  let display ← v.display
  return ⟨expression, v, rendered, display⟩

/-- A formula worked out and written out. -/
def evaluate (c : Calculator) (formula : Text) (values : Context) : Outcome Evaluation := do
  let (tree, v) ← c.compute formula values
  present (Substitution.ofText formula).text tree v

end Calculator
end Reckoner
