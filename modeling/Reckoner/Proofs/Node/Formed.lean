import Reckoner.Item.Literal
import Reckoner.Item.Sign
import Reckoner.Proofs.Node.Writable
import Reckoner.Proofs.Token.Lexeme
/-!
# The trees that formulas have

A formula text can only give trees whose whole literals have at most 4300 digits, whose binary64 literals are numbers
and whose names are names; lists stand for argument lists and have nodes as their elements. Every such tree can be
written out.
-/
namespace Reckoner

/-- A whole number of at most 4300 digits. -/
def Numeral.IsShort (n : Int) : Prop := n.natAbs < Nat.pow 10 Numeral.maxDigits

theorem Numeral.ofInt?_of_isShort {n : Int} (short : IsShort n) : ofInt? n = .ok (ofInt n) :=
  if_neg (Nat.not_le.mpr short)

namespace Node

/-- A tree as formula texts give them. -/
inductive Formed : Node → Prop where
  | int (n : Int) (short : Numeral.IsShort n) : Formed (.constant (.int n))
  | float (x : Binary64) (number : x ≠ .nan) : Formed (.constant (.float x))
  | text (t : Text) : Formed (.constant (.text t))
  | list (nodes : List Node) (elements : ∀ n ∈ nodes, Formed n) : Formed (.constant (.tuple (nodes.map .node)))
  | property (name : Text) (isName : name.IsName) : Formed (.property name)
  | binary (op : Operator) (left right : Node) (leftFormed : Formed left) (rightFormed : Formed right) :
      Formed (.binary op.symbol left right)
  | call (name : Text) (args : Node) (isName : name.IsName) (argsFormed : Formed args) : Formed (.call name args)

theorem formed_inherited : Inherited Formed where
  binary := Formed.binary
  call name args := by
    rintro ⟨⟩ argsFormed
    exact .call name args ‹_› argsFormed
  list := Formed.list

theorem Formed.isWritable {tree : Node} (formed : tree.Formed) : tree.IsWritable := by
  induction formed with
  | int n short =>
    refine ⟨Numeral.ofInt n, ?_⟩
    rw [render_int, Numeral.ofInt?_of_isShort short]
    rfl
  | float x number => exact ⟨_, render_float x⟩
  | text t => exact ⟨_, render_text t⟩
  | list nodes elements ih => exact isWritable_inherited.list nodes ih
  | property name isName => exact ⟨name, render_property name⟩
  | binary op left right _ _ ihLeft ihRight => exact isWritable_inherited.binary op left right ihLeft ihRight
  | call name args isName _ ihArgs => exact isWritable_inherited.call name args ⟨name, render_property name⟩ ihArgs

end Node
end Reckoner
