import Reckoner.Value.Apply
/-!
# The function table

A call looks its name up after its arguments are worked out, and the number of arguments has to be the one the
function declares. The table starts with addition, subtraction and the end of a text from a position on.
-/
namespace Reckoner

structure FunctionEntry where
  name : Text
  arity : Int
  body : List Value → Outcome Value

abbrev FunctionTable := List FunctionEntry

/-- Where the text of a value is cut: nowhere, after so many code points from its start, so many before its end, or at
its end. -/
inductive Cut where
  | none
  | fromStart (n : Nat)
  | fromEnd (n : Nat)
  | whole
  deriving DecidableEq, Repr

namespace Cut

def ofInt (n : Int) : Cut := if 0 ≤ n then .fromStart n.toNat else .fromEnd n.natAbs

/-- The cut a number asks for: a fraction is dropped, NaN cuts nothing and an infinity cuts everything or nothing. -/
def ofNumber : Number → Cut
  | .int n => ofInt n
  | .float .nan => .none
  | .float (.infinite negative) => if negative then .none else .whole
  | .float x => ofInt (x.truncate?.getD 0)

/-- The rest of a text after a cut, which never lies outside the text. -/
def rest (cut : Cut) (t : Text) : Text :=
  match cut with
  | .none => t
  | .fromStart n => t.drop n
  | .fromEnd n => t.drop (t.length - n)
  | .whole => []

end Cut

namespace FunctionTable

/-- The cut a start position asks for; an absent one is that of the whole text. -/
def cutAt (start : Value) : Outcome Cut :=
  match start, Number.ofValue? start with
  | .absent, _ => .ok .none
  | _, some n => .ok (.ofNumber n)
  | _, none => do
    let shown ← start.inspect
    .fail (.startNotANumber shown)

/-- The end of the display of a value from a start position on. A token that is not cut stays a token. -/
def substr (v start : Value) : Outcome Value := do
  let t ← v.display
  match v, ← cutAt start with
  | .token _, .none => return v
  | _, cut => return .text (cut.rest t)

/-- A body for two arguments; the arity keeps other argument lists away. -/
def onTwo (name : Text) (f : Value → Value → Outcome Value) : List Value → Outcome Value
  | [x, y] => f x y
  | values => .fail (.arityMismatch name 2 values.length)

/-- The functions every calculator knows. -/
def builtin : FunctionTable :=
  [⟨"Add", 2, onTwo "Add" (Operator.apply .plus)⟩,
   ⟨"Sub", 2, onTwo "Sub" (Operator.apply .minus)⟩,
   ⟨"Substr", 2, onTwo "Substr" substr⟩]

/-- The table with an entry, in place of one of the same name. -/
def register (table : FunctionTable) (entry : FunctionEntry) : FunctionTable :=
  entry :: table.filter fun other => other.name != entry.name

/-- The names in order of their code points. -/
def names (table : FunctionTable) : List Text := (table.map (·.name)).mergeSort Text.le

def find (table : FunctionTable) (name : Text) : Outcome FunctionEntry :=
  match table.find? (·.name == name) with
  | some entry => .ok entry
  | none => .fail (.undefinedFunction name)

/-- The result of a call on values that are worked out already. -/
def call (table : FunctionTable) (name : Text) (values : List Value) : Outcome Value := do
  let entry ← table.find name
  if entry.arity = values.length then entry.body values
  else .fail (.arityMismatch name entry.arity values.length)

end FunctionTable
end Reckoner
