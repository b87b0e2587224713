import Reckoner.Text.Basic
/-!
# Operators

The four binary signs, the order in which a run of operands is folded by them, and the list of symbols a scanner
tries. All multiplications fold first, then all divisions, all additions and all subtractions, each from left to
right.
-/
namespace Reckoner

inductive Operator where
  | times
  | over
  | plus
  | minus
  deriving DecidableEq, Repr

namespace Operator

def sign : Operator → Char
  | .times => '*'
  | .over => '/'
  | .plus => '+'
  | .minus => '-'

def symbol (op : Operator) : Text := [.scalar op.sign]

/-- The operators in the order in which a run is folded by them. -/
def foldOrder : List Operator := [.times, .over, .plus, .minus]

/-- The operator a text names. -/
def ofSymbol? (t : Text) : Option Operator := foldOrder.find? (·.symbol = t)

theorem mem_foldOrder (op : Operator) : op ∈ foldOrder := by cases op <;> decide

theorem ofSymbol?_symbol (op : Operator) : ofSymbol? op.symbol = some op := by cases op <;> decide

theorem ofSymbol?_eq_some {t : Text} {op : Operator} (h : ofSymbol? t = some op) : t = op.symbol := by
  have found := List.find?_some h
  exact (of_decide_eq_true found).symm

/-- The symbols a scanner tries, the longest first: `further` symbols and then the binary ones, each once. Symbols
of one length keep their order. -/
def symbols (further : List Text) : List Text :=
  (further ++ foldOrder.map symbol).eraseDups.mergeSort fun a b => b.length ≤ a.length

/-- The first of the symbols that the text starts with. -/
def symbolAt? (symbols : List Text) (t : Text) : Option Text := symbols.find? (·.isPrefixOf t)

end Operator
end Reckoner
