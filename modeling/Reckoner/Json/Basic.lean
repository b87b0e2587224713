import Reckoner.Fault
/-!
# JSON values

What a line of the journal holds. Whole numbers and binary64 numbers are told apart, and the entries of an object
have an order.
-/
namespace Reckoner

inductive Json where
  | null
  | bool (b : Bool)
  | int (n : Int)
  | float (x : Binary64)
  | text (t : Text)
  | list (items : List Json)
  | object (entries : List (Text × Json))

namespace Json

/-- The entries with a value under a key; a key that is there already keeps its place. -/
def withEntry (key : Text) (j : Json) : List (Text × Json) → List (Text × Json)
  | [] => [(key, j)]
  | entry :: rest => if entry.1 = key then (key, j) :: rest else entry :: withEntry key j rest

/-- An object of entries given one after the other, of which the last one of a key counts. -/
def ofEntries (entries : List (Text × Json)) : Json :=
  .object (entries.foldl (fun built entry => withEntry entry.1 entry.2 built) [])

/-- The value under a key of an object. -/
def get? (j : Json) (key : Text) : Option Json :=
  match j with
  | .object entries => List.lookup key entries
  | _ => none

def isObject : Json → Bool
  | .object _ => true
  | _ => false

/-- Is this the text? -/
def isText (j : Json) (t : Text) : Bool :=
  match j with
  | .text s => s == t
  | _ => false

mutual

/-- A JSON value as a value of formulas. -/
def toValue : Json → Value
  | .null => .absent
  | .bool b => .bool b
  | .int n => .int n
  | .float x => .float x
  | .text t => .text t
  | .list items => .list (toValues items)
  | .object entries => .mapping (toEntries entries)

def toValues : List Json → List Value
  | [] => []
  | j :: rest => j.toValue :: toValues rest

def toEntries : List (Text × Json) → List (Value × Value)
  | [] => []
  | (key, j) :: rest => (.text key, j.toValue) :: toEntries rest

end

end Json

end Reckoner
