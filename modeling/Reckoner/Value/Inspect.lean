import Reckoner.Fault
import Reckoner.Calendar
/-!
# How messages show values

The diagnostic form of a value spells out its structure: texts are quoted, nodes show their kind and fields. It
fails only for a whole number of too many digits.
-/
namespace Reckoner

namespace Date

/-- Year, month and day with hyphens. -/
def isoForm (d : Date) : Text :=
  Numeral.padded 4 d.year ++ "-" ++ Numeral.padded 2 d.month ++ "-" ++ Numeral.padded 2 d.day

def inspect (d : Date) : Text :=
  "datetime.date(" ++ Text.join ", " ([d.year, d.month, d.day].map Numeral.ofNat) ++ ")"

end Date

namespace Moment

/-- The date and the time with a separator between them; a fraction of a second only if there is one. -/
def isoForm (separator : Char) (m : Moment) : Text :=
  let fraction : Text := if m.microsecond = 0 then [] else "." ++ Numeral.padded 6 m.microsecond
  let zone : Text := match m.offset with
    | none => []
    | some minutes =>
      .scalar (if minutes < 0 then '-' else '+') :: Numeral.padded 2 (minutes.natAbs / 60) ++ ":" ++
        Numeral.padded 2 (minutes.natAbs % 60)
  let time : Text := Text.join ":" ([m.hour, m.minute, m.second].map (Numeral.padded 2))
  m.date.isoForm ++ CodePoint.scalar separator :: time ++ fraction ++ zone

/-- The distance of a clock from universal time, in days and seconds. -/
def inspectOffset (minutes : Int) : Text :=
  if minutes = 0 then "datetime.timezone.utc"
  else "datetime.timezone(" ++ CalendarFault.shownSpan minutes ++ ")"

def inspect (m : Moment) : Text :=
  let parts := [m.date.year, m.date.month, m.date.day, m.hour, m.minute] ++
    (if m.second = 0 ∧ m.microsecond = 0 then []
     else if m.microsecond = 0 then [m.second] else [m.second, m.microsecond])
  "datetime.datetime(" ++ Text.join ", " (parts.map Numeral.ofNat ++
    (match m.offset with
     | none => []
     | some minutes => ["tzinfo=" ++ inspectOffset minutes])) ++ ")"

end Moment

def Token.inspect (t : Token) : Text := "Token(" ++ t.kind.label.inspect ++ ", " ++ t.text.inspect ++ ")"

mutual

/-- The diagnostic form of a value. -/
def Value.inspect : Value → Outcome Text
  | .absent => .ok "None"
  | .bool b => .ok (if b then "True" else "False")
  | .int n => .ofDigits (Numeral.ofInt? n)
  | .float x => .ok (Numeral.sourceForm x)
  | .text t => .ok t.inspect
  | .list items => return "[" ++ Text.join ", " (← Value.inspectAll items) ++ "]"
  | .tuple items => do
    match ← Value.inspectAll items with
    | [only] => return "(" ++ only ++ ",)"
    | shown => return "(" ++ Text.join ", " shown ++ ")"
  | .mapping entries => return "\x7b" ++ Text.join ", " (← Value.inspectEntries entries) ++ "\x7d"
  | .date d => .ok d.inspect
  | .moment m => .ok m.inspect
  | .token t => .ok t.inspect
  | .node n => n.inspect

def Value.inspectAll : List Value → Outcome (List Text)
  | [] => .ok []
  | v :: rest => return (← v.inspect) :: (← Value.inspectAll rest)

def Value.inspectEntries : List (Value × Value) → Outcome (List Text)
  | [] => .ok []
  | (key, v) :: rest => return ((← key.inspect) ++ ": " ++ (← v.inspect)) :: (← Value.inspectEntries rest)

/-- The diagnostic form of a node: its kind and its fields. -/
def Node.inspect : Node → Outcome Text
  | .constant payload => return "ValueNode(value=" ++ (← payload.inspect) ++ ")"
  | .property name => .ok ("PropertyNode(name=" ++ name.inspect ++ ")")
  | .binary op left right =>
    return "BinaryNode(op=" ++ op.inspect ++ ", left=" ++ (← left.inspect) ++ ", right=" ++ (← right.inspect) ++ ")"
  | .call name args => return "FuncNode(name=" ++ name.inspect ++ ", args=" ++ (← args.inspect) ++ ")"

end

namespace Node

/-- A part that has to be a node, of a node of the named kind. -/
def part (owner : TypeName) (v : Value) : Outcome Node :=
  match v with
  | .node n => .ok n
  | other => do
    let shown ← other.inspect
    .fail (.notANode owner other shown)

/-- An operator between two values, both of which have to be nodes; the left one is looked at first. -/
def ofOperands (op : Text) (left right : Value) : Outcome Node := do
  let left ← part .binary left
  let right ← part .binary right
  return .binary op left right

/-- A call of a name on a value, which has to be a node. -/
def ofCall (name : Text) (args : Value) : Outcome Node := return .call name (← part .call args)

end Node
end Reckoner
