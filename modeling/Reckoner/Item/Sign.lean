import Reckoner.Value.Basic
import Reckoner.Binary64.Arithmetic
/-!
# Signs

A minus sign belongs to the number literal right after it when an operand is due: at the start of a run, after an
opening bracket or a comma, and after another operator. Elsewhere it subtracts.
-/
namespace Reckoner

/-- The negative of a numeric constant. A whole zero has no sign, so its negative is the negative binary64 zero;
truth values are not numbers here. -/
def Value.negated? : Value → Option Value
  | .int n => some (if n = 0 then .float (.finite true .zero) else .int (-n))
  | .float x => some (.float x.neg)
  | _ => none

namespace Item

/-- The negative of an item that is a numeric constant. -/
def negated? : Item → Option Item
  | .node (.constant payload) => payload.negated?.map fun v => .node (.constant v)
  | _ => none

/-- The items with signs folded, where `due` says whether an operand is due at their start. -/
def foldSignsFrom (due : Bool) : List Item → List Item
  | [] => []
  | [item] => [item]
  | item :: next :: rest =>
    if due && item.isSymbol .minus then
      match next.negated? with
      | some folded => folded :: foldSignsFrom false rest
      | none => item :: foldSignsFrom item.opensOperand (next :: rest)
    else item :: foldSignsFrom item.opensOperand (next :: rest)

/-- The items with every sign folded into the number after it. -/
def foldSigns (items : List Item) : List Item := foldSignsFrom true items

end Item
end Reckoner
