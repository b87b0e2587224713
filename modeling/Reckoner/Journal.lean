import Reckoner.Event
import Reckoner.Json.Read
import Reckoner.Text.Lines
import Reckoner.Text.Utf8
/-!
# The journal

The journal is a file of lines in a directory of its own, one event a line. Writing appends a line. Reading takes the
end of the file, cuts it into lines, passes over those that hold no JSON, and gives the newest events first.
-/
namespace Reckoner

/-- The journal on disk: its directory may be missing, and the file in it too. -/
inductive Journal where
  | noDirectory
  | noFile
  | file (bytes : List UInt8)
  deriving DecidableEq, Repr

/-- Why nothing can be read: a whole number of too many digits, or a line that has no fields to filter by. -/
inductive JournalFault where
  | digits (l : DigitLimit)
  | notAnObject
  deriving DecidableEq, Repr

/-- What is asked of the journal. The empty word filters nothing. -/
structure Query where
  level : Text
  kind : Text
  limit : Int
  tailBytes : Int

namespace Query

/-- The number of bytes that are read from the end of a journal when nothing else is said. -/
def defaultTailBytes : Int := 2097152

/-- The number of events that are read when nothing else is said. -/
def defaultLimit : Int := 200

/-- The greatest number of events that are read. -/
def maxLimit : Int := 2000

/-- Everything within the usual bounds. -/
def all : Query := ⟨[], [], defaultLimit, defaultTailBytes⟩

end Query

namespace Journal

/-- The journal with its directory, made if it was missing. -/
def withDirectory : Journal → Journal
  | .noDirectory => .noFile
  | j => j

/-- What the file holds; `none` without a file. -/
def bytes? : Journal → Option (List UInt8)
  | .file bytes => some bytes
  | _ => none

theorem bytes?_withDirectory (journal : Journal) : journal.withDirectory.bytes? = journal.bytes? := by
  cases journal <;> rfl

/-- The journal with a line at its end. Without its directory nothing can be written. -/
def appendLine (line : Text) : Journal → Journal
  | .noDirectory => .noDirectory
  | j => .file (j.bytes?.getD [] ++ Text.Utf8.encode line ++ [10])

/-- The journal with an event at its end. -/
def append (formats : Formats) (time : Text) (e : Event) (j : Journal) : Journal :=
  match e.line? formats time with
  | some line => j.appendLine line
  | none => j

/-- The bytes after the first line feed, or all of them if there is none. -/
def afterFirstLine (bytes : List UInt8) : List UInt8 :=
  match bytes.dropWhile (· != 10) with
  | [] => bytes
  | _ :: rest => rest

/-- The last so many bytes of a file that has more, without the line that is cut there. A negative number leads to a
place behind the end of the file, where there is nothing; how far behind it a file system lets one go is left out. -/
def lastBytes (tailBytes : Int) (bytes : List UInt8) : List UInt8 :=
  if tailBytes < bytes.length then afterFirstLine (bytes.drop (bytes.length - tailBytes).toNat) else bytes

/-- The value a line holds, if it holds any. -/
def readLine? (line : Text) : Except JournalFault (Option Json) :=
  match Json.read line with
  | .ok j => .ok (some j)
  | .error .malformed => .ok none
  | .error (.digits l) => .error (.digits l)

/-- The values of the lines of a text, the oldest first. -/
def readLines (t : Text) : Except JournalFault (List Json) :=
  let lines := (t.lines.map Text.strip).filter fun line => !line.isEmpty
  (lines.mapM readLine?).map (·.filterMap id)

/-- The values with the given text under a key; the empty text admits all. -/
def filterBy (key wanted : Text) (events : List Json) : Except JournalFault (List Json) :=
  if wanted.isEmpty then .ok events
  else if events.all Json.isObject then .ok (events.filter fun e => (e.get? key).any (·.isText wanted))
  else .error .notAnObject

/-- The first so many elements, or all but so many of the last ones for a negative number. -/
def takeSigned (n : Int) {α : Type} (items : List α) : List α :=
  if 0 ≤ n then items.take n.toNat else items.take (items.length - n.natAbs)

/-- The events that are asked for, the newest first. -/
def select (q : Query) (events : List Json) : Except JournalFault (List Json) := do
  let events ← filterBy "level" q.level events
  let events ← filterBy "event_type" q.kind events
  return takeSigned (min q.limit Query.maxLimit) events.reverse

/-- Reads the journal. -/
def read (q : Query) (j : Journal) : Except JournalFault (List Json) :=
  match j.bytes? with
  | none => select q []
  | some bytes => do
    let events ← readLines (Text.Utf8.decode (lastBytes q.tailBytes bytes))
    select q events

end Journal
end Reckoner
