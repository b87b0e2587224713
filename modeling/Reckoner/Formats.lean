import Reckoner.Fault
import Reckoner.Json.Basic
/-!
# Formats

In which format a project has its settings, and how a value is put into JSON for the journal, is open here: the rest of
the program takes both from `Formats`. It relies on a reader only in that it tells a value from a fault, and whether the
fault lies in a value that is written in the document or in the form of the document.
-/
namespace Reckoner

/-- Why a document is not read. A value that is faulty has a message; whatever else goes wrong has none. -/
inductive DocumentFault where
  | value (message : Text)
  | form
  /-- A number that no machine number holds. -/
  | tooLarge
  deriving DecidableEq, Repr

def DocumentFault.message? : DocumentFault → Option Text
  | .value message => some message
  | .form | .tooLarge => none

/-- How documents are read, and how values are put into JSON. -/
structure Formats where
  /-- The value that a document holds. A document without content has the absent value. What is of a kind that there is
  not among values stands as something which is taken alike where a condition or a whole number is asked for, such as
  bytes as their text and a set as the list of its elements. -/
  readDocument : Text → Except DocumentFault Value
  /-- The JSON of a value. Which fault there is where it has none does not matter. -/
  toJson : Value → Outcome Json

end Reckoner
