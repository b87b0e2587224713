import Reckoner.Calculator
import Reckoner.Formats
import Reckoner.Json.Write
import Reckoner.Redaction
/-!
# Events

An event tells that a formula was worked out, or that it could not be. It has a level, a message, perhaps an error
code, and a context in which the formula stands and which further entries may extend or override.
-/
namespace Reckoner

inductive EventKind where
  | evaluated
  | failed
  deriving DecidableEq, Repr

namespace EventKind

def label : EventKind → Text
  | .evaluated => "formula_evaluated"
  | .failed => "formula_failed"

def ofLabel? (t : Text) : Option EventKind := [evaluated, failed].find? (·.label = t)

theorem ofLabel?_label (k : EventKind) : ofLabel? k.label = some k := by cases k <;> decide

end EventKind

inductive EventLevel where
  | info
  | warning
  | error
  deriving DecidableEq, Repr

namespace EventLevel

def label : EventLevel → Text
  | .info => "info"
  | .warning => "warning"
  | .error => "error"

def all : List EventLevel := [info, warning, error]

def ofLabel? (t : Text) : Option EventLevel := all.find? (·.label = t)

theorem ofLabel?_label (l : EventLevel) : ofLabel? l.label = some l := by cases l <;> decide

end EventLevel

structure Event where
  kind : EventKind
  level : EventLevel
  message : Text
  errorCode : Option Text
  context : List (Text × Value)

/-- A word for a kind or a level that there is none of. -/
inductive EventFault where
  | kind (label : Text)
  | level (label : Text)
  deriving DecidableEq, Repr

namespace EventFault

def message : EventFault → Text
  | .kind label => label.inspect ++ " is not a valid EventType"
  | .level label => label.inspect ++ " is not a valid EventLevel"

end EventFault

namespace Event

/-- The entries with a value under a name; a name that is there already keeps its place. -/
def withEntry (name : Text) (v : Value) : List (Text × Value) → List (Text × Value)
  | [] => [(name, v)]
  | entry :: rest => if entry.1 = name then (name, v) :: rest else entry :: withEntry name v rest

/-- The context of an event: the formula, the text that was read if it is known, and further entries, which override
both. -/
def contextOf (formula : Text) (expression : Option Text) (further : List (Text × Value)) : List (Text × Value) :=
  let own : List (Text × Value) :=
    ("formula", .text formula) :: (expression.map fun t => (Text.ofString "expression", Value.text t)).toList
  further.foldl (fun context entry => withEntry entry.1 entry.2 context) own

/-- The event with the kind and the level two words name; the kind is looked at first. -/
def ofLabels (kind level message : Text) (errorCode : Option Text) (context : List (Text × Value)) :
    Except EventFault Event :=
  match EventKind.ofLabel? kind, EventLevel.ofLabel? level with
  | none, _ => .error (.kind kind)
  | _, none => .error (.level level)
  | some k, some l => .ok ⟨k, l, message, errorCode, context⟩

/-- The code of an error by the stage at which it arose. -/
def stageCode : FormulaError.Stage → Text
  | .reading => "parse_error"
  | .calling => "function_error"
  | .evaluating => "evaluation_error"

/-- The event of a formula that could not be worked out. -/
def ofError (formula expression : Text) (e : FormulaError) : Event :=
  ⟨.failed, .error, e.message, some (stageCode e.stage),
    contextOf formula (some expression) [("error_type", .text e.label)]⟩

/-- The event of a formula that was worked out. -/
def ofEvaluation (formula : Text) (e : Evaluation) : Event :=
  ⟨.evaluated, .info, e.expression ++ " = " ++ e.display, none,
    contextOf formula (some e.expression) [("rendered", .text e.rendered)]⟩

/-- The event of working out a formula. A whole number of too many digits is no event, and neither is a value that
cannot be written out. -/
def ofFormula? (c : Calculator) (formula : Text) (values : Context) : Option Event :=
  let expression := (Substitution.ofText formula).text
  match c.compute formula values with
  | .error (.formula e) => some (ofError formula expression e)
  | .error (.digits _) => none
  | .ok (tree, v) =>
    match Calculator.present expression tree v with
    | .ok e => some (ofEvaluation formula e)
    | .error _ => none

/-- A moment of universal time as the journal writes it. -/
def stamp (m : Moment) : Text :=
  let time : Text := Text.join ":" ([m.hour, m.minute, m.second].map (Numeral.padded 2))
  m.date.isoForm ++ "T" ++ time ++ "." ++ Numeral.padded 6 m.microsecond ++ "Z"

/-- The event as the journal keeps it, with its secrets blanked, at a time. -/
def toJson (formats : Formats) (time : Text) (e : Event) : Outcome Json := do
  let context ← Redaction.redact (e.context.map fun (name, v) => (.text name, v))
  let kept ← formats.toJson (.mapping context)
  return .object
    [("schema_version", .int 1), ("ts", .text time), ("level", .text e.level.label),
     ("event_type", .text e.kind.label), ("context", kept), ("message", .text e.message),
     ("error_code", (e.errorCode.map Json.text).getD .null)]

/-- The line of the event, without its end; there is none if something in it cannot be written out. -/
def line? (formats : Formats) (time : Text) (e : Event) : Option Text := do
  let j ← (e.toJson formats time).toOption
  j.write.toOption

end Event
end Reckoner
