import Reckoner.Context
import Reckoner.Formats
import Reckoner.Numeral.Whole
import Reckoner.Text.Lines
import Reckoner.Text.Utf8.Strict
/-!
# Settings and assignments

A project keeps its settings in one file of UTF-8: a mapping that extends and overrides the usual settings. The
variables among them are the defaults of a calculator. Variables can also be assigned one by one, with a name before an
equals sign and a value, written like a setting, after it.
-/
namespace Reckoner

/-- The name of the settings file of a project. -/
def settingsName : Text := "calcgraph.yaml"

/-- Why a whole number of bytes cannot be taken from a setting. -/
inductive SizeFault where
  | notWhole (t : Text)
  | digits (l : DigitLimit)
  | nan
  | infinite
  | type (t : TypeName)
  deriving DecidableEq, Repr

inductive SettingsFault where
  /-- The file is no text. -/
  | encoding (m : Text.Utf8.Malformed)
  | document (f : DocumentFault)
  /-- The file at this path holds something else than a mapping. -/
  | notAMapping (path : Text)
  | variablesNotAMapping
  | notAnAssignment (item : Text)
  | size (f : SizeFault)
  deriving DecidableEq, Repr

namespace SizeFault

/-- The message of a value that has the right type; a setting of another type, and one without bound, has none. -/
def message? : SizeFault → Option Text
  | .notWhole t => some (Numeral.notWholeMessage t)
  | .digits l => some l.message
  | .nan => some "cannot convert float NaN to integer"
  | .infinite | .type _ => none

end SizeFault

namespace SettingsFault

/-- The message of a fault that lies in a value, and not in the form of the document. -/
def message? : SettingsFault → Option Text
  | .encoding m => some m.message
  | .document f => f.message?
  | .notAMapping path => some (path ++ " must contain a mapping")
  | .variablesNotAMapping => some ("'variables' in " ++ settingsName ++ " must be a mapping")
  | .notAnAssignment item => some ("Invalid assignment: " ++ item.inspect ++ ". Use name=value.")
  | .size f => f.message?

end SettingsFault

/-- The entries of a project's settings. -/
structure Settings where
  entries : List (Value × Value)

namespace Settings

def variablesKey : Value := .text "variables"

def loggingKey : Value := .text "logging_enabled"

def syncKey : Value := .text "logging_fsync"

def tailKey : Value := .text "logging_tail_bytes"

/-- The settings of a project without a settings file. -/
def usual : Settings :=
  ⟨[(variablesKey, .mapping []), (loggingKey, .bool true), (syncKey, .bool false), (tailKey, .int 2097152)]⟩

def get? (s : Settings) (key : Value) : Option Value := Value.entryFor? key s.entries

/-- The settings with the entries of a mapping on top of them. -/
def extend (s : Settings) (entries : List (Value × Value)) : Settings :=
  ⟨entries.foldl (fun built entry => Value.withEntry entry.1 entry.2 built) s.entries⟩

/-- The variables, which are none where nothing is said about them. -/
def bindings? (s : Settings) : Except SettingsFault (List (Value × Value)) :=
  match s.get? variablesKey with
  | none | some .absent => .ok []
  | some (.mapping entries) => .ok entries
  | some _ => .error .variablesNotAMapping

/-- The settings with their variables; the fault of a document is reported before that of its variables. -/
def check (s : Settings) : Except SettingsFault Settings := do
  let bindings ← s.bindings?
  return s.extend [(variablesKey, .mapping bindings)]

/-- The settings that a value on top of the usual ones gives. A value that holds nothing says nothing. -/
def ofValue (path : Text) (v : Value) : Except SettingsFault Settings :=
  match v with
  | .mapping entries => (usual.extend entries).check
  | v => if v.isTruthy then .error (.notAMapping path) else usual.check

/-- The settings of a project whose settings file, if it has one, holds these bytes. -/
def read (formats : Formats) (path : Text) (file : Option (List UInt8)) : Except SettingsFault Settings :=
  match file with
  | none => .ok usual
  | some bytes => do
    let t ← (Text.Utf8.read bytes).mapError .encoding
    let v ← (formats.readDocument t.withLineFeeds).mapError .document
    ofValue path v

/-- The variables of checked settings. -/
def bindings (s : Settings) : List (Value × Value) := s.bindings?.toOption.getD []

/-- Is a journal kept? -/
def keepsJournal (s : Settings) : Bool := (s.get? loggingKey).all Value.isTruthy

/-- Is each line of the journal forced onto the disk? -/
def syncsJournal (s : Settings) : Bool := (s.get? syncKey).any Value.isTruthy

/-- The whole number a setting names. -/
def wholeOf (v : Value) : Except SizeFault Int :=
  match v with
  | .bool b => .ok (if b then 1 else 0)
  | .int n => .ok n
  | .float .nan => .error .nan
  | .float (.infinite _) => .error .infinite
  | .float x => .ok (x.truncate?.getD 0)
  | .text t => (Numeral.readWhole t).mapError fun f =>
    match f with
    | .notWhole => .notWhole t
    | .digits l => .digits l
  | v => .error (.type v.typeName)

/-- How many bytes of the journal are read, if the settings say so. -/
def tailBytes? (s : Settings) : Except SettingsFault (Option Int) :=
  match s.get? tailKey with
  | none | some .absent => .ok none
  | some v => ((wholeOf v).mapError .size).map some

end Settings

namespace Assignment

/-- The name and the value of an assignment. The blanks around the name do not count; a value of blanks alone is that
text. -/
def read (formats : Formats) (item : Text) : Except SettingsFault (Text × Value) :=
  match item.dropWhile (· != .scalar '=') with
  | [] => .error (.notAnAssignment item)
  | _ :: written => do
    let name := Text.strip (item.takeWhile (· != .scalar '='))
    if Text.isBlank written then return (name, .text written)
    else return (name, ← (formats.readDocument written).mapError .document)

/-- The entries of several assignments, of which the last one of a name counts. -/
def readAll (formats : Formats) (items : List Text) : Except SettingsFault (List (Value × Value)) := do
  let pairs ← items.mapM (read formats)
  return Value.ofEntries (pairs.map fun (name, v) => (.text name, v))

end Assignment
end Reckoner
