import Std.Time.Format
import Reckoner.Command.Run
import Reckoner.Formats.Standard
/-!
# The command line

Finds the project a command is about, runs the command, writes what it added to the journal, and prints its
transcript.
-/
namespace Reckoner.Main

def logsName : String := "logs"

def journalName : String := "events.ndjson"

/-- The characters of a text, without its lone halves of surrogate pairs. -/
def characters (t : Text) : String :=
  String.ofList (t.filterMap fun
    | .scalar c => some c
    | .surrogate _ => none)

/-- The contents of a file, if there is one. -/
def readFile? (path : String) : IO (Option (List UInt8)) := do
  try
    return some (← IO.FS.readBinFile path).toList
  catch _ => return none

def pathOf (directory : Text) (names : List String) : String :=
  names.foldl (fun path name => path ++ "/" ++ name) (characters directory)

/-- The journal in a directory. -/
def readJournal (directory : Text) : IO Journal := do
  let place := (← IO.currentDir) / pathOf directory [logsName]
  if ← place.isDir then
    match ← readFile? (pathOf directory [logsName, journalName]) with
    | some bytes => return .file bytes
    | none => return .noFile
  else return .noDirectory

/-- The project in a directory, if there is such a directory. -/
def readProject (directory : Text) : IO (Option Project) := do
  let place := (← IO.currentDir) / characters directory
  if !directory.isEmpty && (← place.isDir) then
    let settings ← readFile? (pathOf directory [characters settingsName])
    let journal ← readJournal directory
    return some ⟨directory, settings, journal⟩
  else return none

/-- Writes what a command did to the journal. A journal only ever grows at its end. -/
def writeJournal (directory : Text) (before after : Journal) : IO Unit := do
  if after != before then
    IO.FS.createDirAll (pathOf directory [logsName])
    match after.bytes? with
    | none => return
    | some bytes =>
      let handle ← IO.FS.Handle.mk (pathOf directory [logsName, journalName]) .append
      handle.lock
      handle.write ⟨(bytes.drop (before.bytes?.getD []).length).toArray⟩
      handle.flush

/-- The time of the system. -/
def now : IO Text := do
  let time := Std.Time.DateTime.ofTimestamp (← Std.Time.Timestamp.now) .UTC
  return Event.stamp
    ⟨⟨time.year.toInt.toNat, time.month.val.toNat, time.day.val.toNat⟩, time.hour.val.toNat, time.minute.val.toNat,
      time.second.val.toNat, time.nanosecond.val.toNat / 1000, some 0⟩

def console : IO Console := do
  return ⟨← (← IO.getStdout).isTty, ← (← IO.getStderr).isTty⟩

/-- The transcript of a command, whose effect on the journal is written. -/
def runCommand (c : Command) : IO Transcript := do
  match c.directory? with
  | none => return (c.run .standard (← console) (← now) none).1
  | some directory =>
    let found ← readProject directory
    let (transcript, after) := c.run .standard (← console) (← now) found
    match found, after with
    | some before, some after => writeJournal directory before.journal after.journal
    | _, _ => pure ()
    return transcript

/-- Prints a transcript. -/
def print (t : Transcript) : IO Unit := do
  (← IO.getStdout).putStr (characters t.output)
  (← IO.getStderr).putStr (characters t.errors)
  match t.ending with
  | .crashed c => (← IO.getStderr).putStrLn (characters c.message)
  | _ => pure ()

end Reckoner.Main

open Reckoner

def main (arguments : List String) : IO UInt32 := do
  let transcript ← match Command.read (arguments.map Text.ofString) with
    | .ok c => Main.runCommand c
    | .error f => pure (.misused (← Main.console) f)
  Main.print transcript
  return transcript.ending.code
