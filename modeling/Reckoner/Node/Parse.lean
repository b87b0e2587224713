import Reckoner.Item.Literal
import Reckoner.Item.Sign
import Reckoner.Item.Bracket
/-!
# From text to tree

A formula text is scanned into tokens, literals and names become nodes, signs are folded into the numbers they
belong to, and brackets and operators then build the tree.
-/
namespace Reckoner

/-- The items of a text, signs folded. -/
def Item.ofText (t : Text) : Outcome (List Item) := do
  let items ← (Token.scan t).mapM Literal.classify
  return Item.foldSigns items

/-- The tree of a formula text. -/
def Node.parse (t : Text) : Outcome Node := do
  let items ← Item.ofText t
  Bracket.resolve items

end Reckoner
