import Reckoner.Node.Render
/-!
# Runs

A run is a list of items without brackets. It is folded by each operator in turn, from left to right, and every
operator takes the node on each of its sides. What is left is one node, or an argument list when commas are left:
then the commas only separate, so empty places between them vanish.
-/
namespace Reckoner.Run

/-- The texts of the items, for messages. -/
def describe : List Item → Outcome (List Text)
  | [] => .ok []
  | .node n :: rest => return (← n.render) :: (← describe rest)
  | .token t :: rest => return t.text :: (← describe rest)

/-- The run folded by one operator, where `folded` is the part already folded, in reverse; `none` when the operator
lacks an operand somewhere. -/
def foldFrom (op : Operator) (folded : List Item) : List Item → Option (List Item)
  | [] => some folded.reverse
  | item :: rest =>
    if item.isSymbol op then
      match folded, rest with
      | .node left :: before, .node right :: after =>
        foldFrom op (.node (.binary op.symbol left right) :: before) after
      | _, _ => none
    else foldFrom op (item :: folded) rest

/-- The run folded by one operator. -/
def foldBy (op : Operator) (run : List Item) : Outcome (List Item) :=
  match foldFrom op [] run with
  | some folded => .ok folded
  | none => do
    let described ← describe run
    .fail (.irreducible described (some op))

def isComma (item : Item) : Bool := item.isKind .comma

/-- The single node a folded run leaves. -/
def close (run : List Item) : Outcome Node :=
  if run.any isComma then .ok (.constant (.tuple ((run.filter fun item => !isComma item).map Item.toValue)))
  else
    match run with
    | [.node n] => .ok n
    | _ => do
      let described ← describe run
      .fail (.irreducible described none)

/-- The node a run reduces to. -/
def reduce (run : List Item) : Outcome Node := do
  let folded ← Operator.foldOrder.foldlM (fun run op => foldBy op run) run
  close folded

end Reckoner.Run
