import Reckoner.Formats
import Reckoner.Json.OfValue
import Reckoner.Yaml.Document
/-!
# The formats of the program

The program reads the documents of `Yaml` and puts values into JSON as `Value.toJson` says. Block scalars, anchors,
aliases, tags and streams of several documents are not read.
-/
namespace Reckoner

/-- What a fault of a document comes down to for those who read it. -/
def Yaml.Fault.asDocument (f : Yaml.Fault) : DocumentFault :=
  match f, f.message? with
  | _, some message => .value message
  | .tooLarge, none => .tooLarge
  | _, none => .form

def Formats.standard : Formats where
  readDocument t := (Yaml.read t).mapError Yaml.Fault.asDocument
  toJson := Value.toJson

end Reckoner
