import Reckoner.Json.Basic
import Reckoner.Node.Render
/-!
# Values in JSON

What JSON has no form for is put into one that it has: a tuple into a list, a date and a token into their texts, a node
into an object of its fields, and the key of an entry into a text.
-/
namespace Reckoner

mutual

/-- The text under which a value is the key of an entry of an object. The elements of a tuple are joined by commas. -/
def Value.keyText : Value → Outcome Text
  | .absent => .ok "None"
  | .bool b => .ok (if b then "true" else "false")
  | .float (.finite negative m) => .ok (Numeral.sourceForm (.finite negative m))
  | .float _ => .ok "None"
  | .moment m => .ok (m.isoForm 'T')
  | .tuple items => return Text.join "," (← Value.keyTexts items)
  | v => v.plain

def Value.keyTexts : List Value → Outcome (List Text)
  | [] => .ok []
  | v :: rest => return (← v.keyText) :: (← Value.keyTexts rest)

end

mutual

/-- A value as the journal keeps it. Numbers that are not finite are lost, tuples become lists, dates their texts and
nodes objects of their fields. This fails only at a key that cannot be written out. -/
def Value.toJson : Value → Outcome Json
  | .absent => .ok .null
  | .bool b => .ok (.bool b)
  | .int n => .ok (.int n)
  | .float (.finite negative m) => .ok (.float (.finite negative m))
  | .float _ => .ok .null
  | .text t => .ok (.text t)
  | .list items => return .list (← Value.toJsons items)
  | .tuple items => return .list (← Value.toJsons items)
  | .mapping entries => return .ofEntries (← Value.toJsonEntries entries)
  | .date d => .ok (.text d.isoForm)
  | .moment m => .ok (.text (m.isoForm 'T'))
  | .token t => .ok (.text t.text)
  | .node n => n.toJson

def Value.toJsons : List Value → Outcome (List Json)
  | [] => .ok []
  | v :: rest => return (← v.toJson) :: (← Value.toJsons rest)

def Value.toJsonEntries : List (Value × Value) → Outcome (List (Text × Json))
  | [] => .ok []
  | (key, v) :: rest => return (← key.keyText, ← v.toJson) :: (← Value.toJsonEntries rest)

/-- The fields of a node. -/
def Node.toJson : Node → Outcome Json
  | .constant payload => return .object [("value", ← payload.toJson)]
  | .property name => .ok (.object [("name", .text name)])
  | .binary op left right => return .object [("op", .text op), ("left", ← left.toJson), ("right", ← right.toJson)]
  | .call name args => return .object [("name", .text name), ("args", ← args.toJson)]

end

end Reckoner
