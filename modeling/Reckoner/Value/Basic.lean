import Reckoner.Token.Basic
import Reckoner.Binary64.Basic
/-!
# Values and nodes

A formula tree has four kinds of node: a constant, a property looked up by name, an operator between two nodes and a
call. A value is what a node computes, what a context holds and what a settings file or journal line says. The two
types contain each other: the constant of an argument list is the tuple of its nodes.
-/
namespace Reckoner

/-- A calendar date. -/
structure Date where
  year : Nat
  month : Nat
  day : Nat
  deriving DecidableEq, Repr

/-- A date with a time of day, and the minutes by which its clock is ahead of universal time if that is known. -/
structure Moment where
  date : Date
  hour : Nat
  minute : Nat
  second : Nat
  microsecond : Nat
  offset : Option Int
  deriving DecidableEq, Repr

mutual

inductive Value where
  | absent
  | bool (b : Bool)
  | int (n : Int)
  | float (x : Binary64)
  | text (t : Text)
  | list (items : List Value)
  | tuple (items : List Value)
  | mapping (entries : List (Value × Value))
  | date (d : Date)
  | moment (m : Moment)
  | token (t : Token)
  | node (n : Node)

inductive Node where
  | constant (payload : Value)
  | property (name : Text)
  | binary (op : Text) (left right : Node)
  | call (name : Text) (args : Node)

end

instance : Inhabited Value := ⟨.absent⟩

instance : Inhabited Node := ⟨.constant .absent⟩

/-- What a value is called in messages. -/
inductive TypeName where
  | absent | bool | int | float | text | list | tuple | mapping | date | moment | token
  | constant | property | binary | call
  deriving DecidableEq, Repr

namespace TypeName

def shown : TypeName → Text
  | .absent => "NoneType"
  | .bool => "bool"
  | .int => "int"
  | .float => "float"
  | .text => "str"
  | .list => "list"
  | .tuple => "tuple"
  | .mapping => "dict"
  | .date => "date"
  | .moment => "datetime"
  | .token => "Token"
  | .constant => "ValueNode"
  | .property => "PropertyNode"
  | .binary => "BinaryNode"
  | .call => "FuncNode"

end TypeName

namespace Node

def typeName : Node → TypeName
  | .constant _ => .constant
  | .property _ => .property
  | .binary _ _ _ => .binary
  | .call _ _ => .call

/-- A constant node of any payload; a list given as payload becomes a tuple. -/
def ofPayload : Value → Node
  | .list items => .constant (.tuple items)
  | payload => .constant payload

end Node

namespace Value

def typeName : Value → TypeName
  | .absent => .absent
  | .bool _ => .bool
  | .int _ => .int
  | .float _ => .float
  | .text _ => .text
  | .list _ => .list
  | .tuple _ => .tuple
  | .mapping _ => .mapping
  | .date _ => .date
  | .moment _ => .moment
  | .token _ => .token
  | .node n => n.typeName

/-- The text of a value that is one; a token counts as its text. -/
def asText? : Value → Option Text
  | .text t => some t
  | .token t => some t.text
  | _ => none

def asNode? : Value → Option Node
  | .node n => some n
  | _ => none

/-- Does the value count as a yes where a condition is asked for? Absent values, zeros and empty things do not. -/
def isTruthy : Value → Bool
  | .absent => false
  | .bool b => b
  | .int n => n != 0
  | .float x => !x.isZero
  | .text t => !t.isEmpty
  | .list items => !items.isEmpty
  | .tuple items => !items.isEmpty
  | .mapping entries => !entries.isEmpty
  | .date _ | .moment _ | .node _ => true
  | .token t => !t.text.isEmpty

end Value

/-- An element of a run while a tree is being built: a finished node, or a token still to be consumed. -/
inductive Item where
  | node (n : Node)
  | token (t : Token)

instance : Inhabited Item := ⟨.node default⟩

namespace Item

def toValue : Item → Value
  | .node n => .node n
  | .token t => .token t

def node? : Item → Option Node
  | .node n => some n
  | .token _ => none

/-- A token of the given kind. -/
def isKind (kind : TokenKind) : Item → Bool
  | .node _ => false
  | .token t => t.kind == kind

/-- A token whose text is the symbol of the operator. -/
def isSymbol (op : Operator) : Item → Bool
  | .node _ => false
  | .token t => t.isSymbol op

/-- An item after which a minus sign can only be the sign of a number. -/
def opensOperand : Item → Bool
  | .node _ => false
  | .token t => t.opensOperand

end Item
end Reckoner
