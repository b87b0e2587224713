import Reckoner.Directory
import Reckoner.Journal
import Reckoner.Settings
/-!
# Projects and sessions

A project is a directory with a settings file and a journal. A session works on one project: it has a calculator and
may have a sink attached, to which events go. Loading the project reads the settings, attaches a sink if a journal is
kept, and makes their variables the defaults of the calculator; when the settings cannot be used nothing changes. What a
formula gives never depends on the journal.

Left out is what no answer tells: that a line is forced onto the disk, that files are locked while they are used, what
is said on the terminal about an event that is lost, and the faults of the file system itself, such as a journal
directory that cannot be made because a file is in its place.
-/
namespace Reckoner

structure Project where
  /-- The path of the directory. -/
  directory : Text
  /-- What the settings file holds, if there is one. -/
  settings : Option (List UInt8)
  journal : Journal
  deriving DecidableEq

namespace Project

/-- A directory with nothing in it. -/
def empty (directory : Text) : Project := ⟨directory, none, .noDirectory⟩

/-- The path of the settings file, for messages. -/
def settingsPath (p : Project) : Text := Directory.file p.directory settingsName

def readSettings (formats : Formats) (p : Project) : Except SettingsFault Settings :=
  Settings.read formats p.settingsPath p.settings

end Project

/-- Where the events of a session go. -/
structure Sink where
  /-- The directory of the project whose journal it is. -/
  directory : Text
  /-- Is each line forced onto the disk? -/
  syncs : Bool
  /-- How many bytes at the end of the journal are read through the sink. -/
  tailBytes : Int
  deriving DecidableEq

structure Session where
  project : Project
  calculator : Calculator
  sink : Option Sink

/-- One thing a session does. -/
inductive Step where
  /-- Loads the project. -/
  | load
  /-- Attaches a sink, if the settings say that a journal is kept. -/
  | attach
  | detach
  /-- Puts another settings file in place, or removes it. -/
  | configure (file : Option (List UInt8))
  /-- Removes the journal with its directory. -/
  | removeJournal
  /-- Puts another journal in place. -/
  | replaceJournal (bytes : List UInt8)
  | showJournal
  | evaluate (formula : Text) (values : Context)
  /-- Records an event of a kind and a level given as words. -/
  | record (kind level message : Text) (errorCode : Option Text) (context : List (Text × Value))
  | read (q : Query)

/-- What a session answers. -/
inductive Reply where
  | done
  | loaded (result : Except SettingsFault (List (Value × Value)))
  | attached (result : Except SettingsFault Unit)
  | evaluated (result : Outcome Evaluation)
  | recorded (result : Except EventFault Unit)
  | events (result : Except JournalFault (List Json))
  | journal (t : Option Text)

namespace Session

/-- A session on a project before anything is done. -/
def start (p : Project) : Session := ⟨p, .withDefaults [], none⟩

def isAttached (s : Session) : Bool := s.sink.isSome

/-- Something that a session does and that may fail. What has been changed when it fails stays changed. -/
abbrev Attempt (α : Type) := ExceptT SettingsFault (StateM Session) α

/-- What an attempt answers, and the session it leaves. -/
def Attempt.on {α : Type} (attempt : Attempt α) (s : Session) : Except SettingsFault α × Session :=
  (ExceptT.run attempt).run s

/-- The settings by which a sink is attached: settings with a faulty value count as the usual ones, a document that
cannot be read does not. -/
def attachSettings (formats : Formats) (s : Session) : Except SettingsFault Settings :=
  match s.project.readSettings formats with
  | .ok settings => .ok settings
  | .error f => if f.message?.isSome then .ok .usual else .error f

/-- Makes the directory of the journal, if it is missing. -/
def makeDirectory (s : Session) : Session :=
  { s with project := { s.project with journal := s.project.journal.withDirectory } }

/-- Attaches the sink that settings ask for, or detaches the one there is if they say that no journal is kept. A journal
that is kept has its directory. -/
def attachWith (settings : Settings) : Attempt Unit := do
  if settings.keepsJournal then
    let tailBytes := (← settings.tailBytes?).getD Query.defaultTailBytes
    modify makeDirectory
    modify fun s => { s with sink := some ⟨s.project.directory, settings.syncsJournal, tailBytes⟩ }
  else modify fun s => { s with sink := none }

def attach (formats : Formats) : Attempt Unit := do
  let settings ← (← get).attachSettings formats
  attachWith settings

/-- Loads the project and answers the variables that its calculator starts with. -/
def load (formats : Formats) : Attempt (List (Value × Value)) := do
  let settings ← (← get).project.readSettings formats
  attach formats
  let bindings := settings.bindings
  modify fun s => { s with calculator := .withDefaults (Context.ofEntries bindings) }
  return bindings

/-- Does the journal of the project get the events of the session? -/
def reachesJournal (s : Session) : Bool := s.sink.any fun sink => Directory.same sink.directory s.project.directory

/-- The session with an event in its journal, if its sink leads there. -/
def record (formats : Formats) (time : Text) (e : Event) (s : Session) : Session :=
  if s.reachesJournal then
    { s with project := { s.project with journal := s.project.journal.append formats time e } }
  else s

/-- Works out a formula and records how it went. -/
def evaluate (formats : Formats) (time formula : Text) (values : Context) (s : Session) :
    Outcome Evaluation × Session :=
  let result := s.calculator.evaluate formula values
  match Event.ofFormula? s.calculator formula values with
  | some e => (result, s.record formats time e)
  | none => (result, s)

/-- What a step answers at a time, and the session after it. -/
def step (formats : Formats) (time : Text) (s : Session) (action : Step) : Reply × Session :=
  match action with
  | .load =>
    let (result, after) := (load formats).on s
    (.loaded result, after)
  | .attach =>
    let (result, after) := (attach formats).on s
    (.attached result, after)
  | .detach => (.done, { s with sink := none })
  | .configure file => (.done, { s with project := { s.project with settings := file } })
  | .removeJournal => (.done, { s with project := { s.project with journal := .noDirectory } })
  | .replaceJournal bytes => (.done, { s with project := { s.project with journal := .file bytes } })
  | .showJournal => (.journal (s.project.journal.bytes?.map Text.Utf8.decode), s)
  | .evaluate formula values =>
    let (result, after) := s.evaluate formats time formula values
    (.evaluated result, after)
  | .record kind level message errorCode context =>
    match Event.ofLabels kind level message errorCode context with
    | .ok e => (.recorded (.ok ()), s.record formats time e)
    | .error f => (.recorded (.error f), s)
  | .read q => (.events (s.project.journal.read q), s.makeDirectory)

/-- The answers of steps taken one after the other, each at its time, and the session after them. -/
def run (formats : Formats) (s : Session) : List (Text × Step) → List Reply × Session
  | [] => ([], s)
  | (time, action) :: rest =>
    let (reply, next) := s.step formats time action
    let (replies, last) := next.run formats rest
    (reply :: replies, last)

end Session
end Reckoner
