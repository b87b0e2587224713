import Reckoner.Value.Basic
import Reckoner.Numeral
import Reckoner.Text.Inspect
/-!
# Faults

What can go wrong between a formula text and its value. A formula error says that the formula itself cannot be read
or worked out; apart from these only a whole number with too many digits stops the work.
-/
namespace Reckoner

inductive FormulaError where
  /-- A character outside the language. -/
  | unexpectedToken (token : Text) (position : Option Int)
  /-- A bracket without a partner. -/
  | mismatchedBrackets (position : Option Int)
  /-- A run that does not reduce to one node, perhaps because an operator lacks an operand. -/
  | irreducible (run : List Text) (lacking : Option Operator)
  /-- A call of a name outside the function table. -/
  | undefinedFunction (name : Text)
  /-- A call with another number of arguments than the function takes. -/
  | arityMismatch (name : Text) (expected received : Int)
  /-- A start position that is not a number, as messages show it. -/
  | startNotANumber (shown : Text)
  /-- A node with an operator outside the four signs. -/
  | unsupportedOperator (op : Text)
  /-- An operand that is not a number. -/
  | operandTypes (op : Operator) (left right : TypeName)
  /-- A node built with a part that is not a node. -/
  | notANode (owner : TypeName) (received : Value) (shown : Text)
  /-- A value that stands where only a node can be worked out or written. -/
  | unknownNode (type : TypeName)

namespace FormulaError

/-- Where a formula error arises: while reading, in a call, or elsewhere while working the tree out. -/
inductive Stage where
  | reading
  | calling
  | evaluating
  deriving DecidableEq, Repr

def stage : FormulaError → Stage
  | .unexpectedToken _ _ | .mismatchedBrackets _ | .irreducible _ _ => .reading
  | .undefinedFunction _ | .arityMismatch _ _ _ | .startNotANumber _ => .calling
  | _ => .evaluating

/-- The word by which the journal classifies the error. -/
def label : FormulaError → Text
  | .unexpectedToken _ _ => "UnexpectedToken"
  | .mismatchedBrackets _ => "MismatchedBrackets"
  | .irreducible _ _ => "ReductionFailure"
  | .undefinedFunction _ => "UndefinedFunction"
  | .arityMismatch _ _ _ => "ArityMismatch"
  | .startNotANumber _ => "FormulaFunctionError"
  | .unsupportedOperator _ => "UnsupportedOperator"
  | .operandTypes _ _ _ => "OperandTypeError"
  | .notANode _ _ _ => "ConstructionError"
  | .unknownNode _ => "FormulaError"

/-- The message of an error found while reading, with the position if there is one. -/
def readingMessage (reason : Text) (position : Option Int) : Text :=
  "Formula parse error: " ++ reason ++
    match position with
    | some p => " (at position " ++ Numeral.ofInt p ++ ")"
    | none => []

def message : FormulaError → Text
  | .unexpectedToken token position => readingMessage ("unexpected token " ++ token.inspect) position
  | .mismatchedBrackets position => readingMessage "mismatching brackets" position
  | .irreducible run lacking =>
    let reason : Text := match lacking with
      | some op => ": operator " ++ op.symbol.inspect ++ " is missing an operand"
      | none => []
    readingMessage ("something went wrong" ++ reason ++ " [" ++ Text.join " " run ++ "]") none
  | .undefinedFunction name => name ++ " is not defined."
  | .arityMismatch name expected _ => name ++ " requires " ++ Numeral.ofInt expected ++ " argument(s)"
  | .startNotANumber shown => "Substr start must be a number, got " ++ shown
  | .unsupportedOperator op => "operator not implemented " ++ op.inspect
  | .operandTypes op left right =>
    "unsupported operand types for " ++ op.symbol ++ ": " ++ left.shown ++ " and " ++ right.shown
  | .notANode owner received shown =>
    "invalid node passed to " ++ owner.shown ++ ": " ++ received.typeName.shown ++ " " ++ shown
  | .unknownNode type => "Unknown node type: " ++ type.shown

end FormulaError

def DigitLimit.message : DigitLimit → Text
  | .reading digits =>
    "Exceeds the limit (4300 digits) for integer string conversion: value has " ++ Numeral.ofNat digits ++
      " digits; use sys.set_int_max_str_digits() to increase the limit"
  | .writing =>
    "Exceeds the limit (4300 digits) for integer string conversion; use sys.set_int_max_str_digits() to " ++
      "increase the limit"

inductive Fault where
  | formula (e : FormulaError)
  | digits (l : DigitLimit)

/-- What working on a formula gives. -/
abbrev Outcome := Except Fault

namespace Fault

def message : Fault → Text
  | .formula e => e.message
  | .digits l => l.message

end Fault

/-- A digit limit met on the way is a fault. -/
def Outcome.ofDigits {α : Type} (result : Except DigitLimit α) : Outcome α := result.mapError .digits

/-- The outcome of a formula error. -/
def Outcome.fail {α : Type} (e : FormulaError) : Outcome α := .error (.formula e)

end Reckoner
