import Reckoner.Node.Render
import Reckoner.Number
/-!
# Operators on values

A plus sign joins the displays of its operands when one of them is a text. Otherwise an absent operand makes the
result NaN, and both operands have to be numbers.
-/
namespace Reckoner.Operator

/-- Does the operator join texts here? -/
def joins (op : Operator) (left right : Value) : Bool :=
  op == .plus && (left.asText?.isSome || right.asText?.isSome)

/-- Is one of the values absent? -/
def lacksOperand : Value → Value → Bool
  | .absent, _ | _, .absent => true
  | _, _ => false

/-- The result of an operator on two values. -/
def apply (op : Operator) (left right : Value) : Outcome Value :=
  if op.joins left right then do
    let first ← left.display
    let second ← right.display
    return .text (first ++ second)
  else if lacksOperand left right then .ok (.float .nan)
  else
    match Number.ofValue? left, Number.ofValue? right with
    | some a, some b => .ok (op.calculate a b).toValue
    | _, _ => .fail (.operandTypes op left.typeName right.typeName)

/-- An operator on two numbers calculates. -/
theorem apply_numbers {op : Operator} {l r : Value} {a b : Number} (left : Number.ofValue? l = some a)
    (right : Number.ofValue? r = some b) : op.apply l r = .ok (op.calculate a b).toValue := by
  have noText : op.joins l r = false := by
    cases l <;> cases r <;> first | (cases left; done) | (cases right; done) | simp [joins, Value.asText?]
  have present : lacksOperand l r = false := by
    cases l <;> cases r <;> first | (cases left; done) | (cases right; done) | rfl
  unfold apply
  rw [noText, present, left, right]
  rfl

/-- The result of the operator a text names, if it names one. -/
def applySymbol (symbol : Text) (left right : Value) : Outcome Value :=
  match ofSymbol? symbol with
  | some op => op.apply left right
  | none => .fail (.unsupportedOperator symbol)

theorem applySymbol_symbol (op : Operator) (left right : Value) :
    applySymbol op.symbol left right = op.apply left right := by
  rw [applySymbol, ofSymbol?_symbol]

end Reckoner.Operator
