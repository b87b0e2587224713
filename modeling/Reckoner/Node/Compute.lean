import Reckoner.FunctionTable
import Reckoner.Context
/-!
# Working a tree out

Constants stand for themselves and an argument list for the tuple of its nodes. A property reads the context, an
operator works out its left side first, and a call works out its arguments from left to right before its name is
looked up. Only a call looks into an argument list; what is not a node there is passed over.
-/
namespace Reckoner

mutual

/-- The value of a tree. -/
def Node.compute (table : FunctionTable) (ctx : Context) : Node → Outcome Value
  | .constant payload => .ok payload
  | .property name => .ok (ctx.read name)
  | .binary op left right => do
    let x ← left.compute table ctx
    let y ← right.compute table ctx
    Operator.applySymbol op x y
  | .call name args => do
    let values ← match args with
      | .constant (.tuple items) => Node.computeAll table ctx items
      | argument => do
        let v ← argument.compute table ctx
        pure [v]
    table.call name values

/-- The values of the nodes of an argument list. -/
def Node.computeAll (table : FunctionTable) (ctx : Context) : List Value → Outcome (List Value)
  | [] => .ok []
  | v :: rest =>
    match v with
    | .node n => do
      let first ← n.compute table ctx
      let others ← Node.computeAll table ctx rest
      return first :: others
    | _ => Node.computeAll table ctx rest

end

/-- The value of a value that has to be a tree. -/
def Value.compute (table : FunctionTable) (ctx : Context) : Value → Outcome Value
  | .node n => n.compute table ctx
  | other => .fail (.unknownNode other.typeName)

end Reckoner
