import Reckoner.Command.Basic
import Reckoner.Command.Transcript
/-!
# Running commands

A command runs on the project in its directory, if it names one, and leaves the project as it is after the command.
Each command is a session of its own.
-/
namespace Reckoner.Command

/-- What is printed about a formula that was worked out. -/
def evaluationLines (c : EvaluateCommand) (e : Evaluation) : List Text :=
  if c.asJson then
    [Json.writeIndented
      [("formula", c.formula), ("expression", e.expression), ("value", e.display), ("rendered", e.rendered)]]
  else (e.expression ++ " = " ++ e.display) :: (if c.showsTree then [e.rendered] else [])

/-- What evaluating a formula in a session prints, and the session after it. The assignments are read before the
session is prepared. -/
def runEvaluate (formats : Formats) (console : Console) (time : Text) (c : EvaluateCommand)
    (prepare : Session.Attempt Unit) (session : Session) : Transcript × Session :=
  match Assignment.readAll formats c.assignments with
  | .error f => (.ofSettingsFault console f, session)
  | .ok entries =>
    match prepare.on session with
    | (.error f, session) => (.ofSettingsFault console f, session)
    | (.ok (), session) =>
      let (result, after) := session.evaluate formats time c.formula (Context.ofEntries entries)
      let transcript := match result with
        | .ok e => .ofLines console ((evaluationLines c e).map .ok)
        | .error f => .ofFault console f
      (transcript, after)

/-- The line of a token: where it begins, its kind and its text. -/
def tokenLine (t : Token) : Text :=
  (Numeral.ofInt (t.position.getD 0)).alignRight 4 ++ "  " ++ t.kind.label.alignLeft 9 ++ " " ++ t.text

/-- The line of a function: its name and how many arguments it takes. -/
def functionLine (table : FunctionTable) (name : Text) : Except Crash Text := do
  let entry ← (table.find name).mapError .fault
  return entry.name ++ "  (" ++ Numeral.ofInt entry.arity ++ " argument(s))"

/-- A field of an event as it is printed; one that is missing is empty. -/
def shownField (event : Json) (key : Text) : Except Crash Text :=
  match event.get? key with
  | none => .ok []
  | some j => j.toValue.plain.mapError .fault

/-- The error code of an event between square brackets, if it has one. -/
def shownCode (event : Json) : Except Crash Text :=
  match event.get? "error_code" with
  | none => .ok []
  | some j => do
    if j.toValue.isTruthy then
      let code ← j.toValue.plain.mapError .fault
      return " [" ++ code ++ "]"
    else return []

/-- The line of an event: its time, its level, its type with the error code, and its message. -/
def eventLine (event : Json) : Except Crash Text := do
  if event.isObject then
    let code ← shownCode event
    let time ← shownField event "ts"
    let level ← shownField event "level"
    let kind ← shownField event "event_type"
    let message ← shownField event "message"
    return time ++ "  " ++ level.alignLeft 7 ++ " " ++ kind ++ code ++ "  " ++ message
  else .error (.journal .notAnObject)

/-- What is asked of the journal. -/
def query (c : JournalCommand) : Query :=
  { Query.all with level := (c.level.map EventLevel.label).getD [], limit := c.limit }

/-- What showing a journal prints. -/
def journalTranscript (console : Console) (c : JournalCommand) (j : Journal) : Transcript :=
  match j.read (query c) with
  | .error f => .crashed (.journal f)
  | .ok [] => .ofLines console [.ok "No events."]
  | .ok events => .ofLines console (events.map eventLine)

/-- Showing a journal makes its directory. -/
def runJournal (console : Console) (c : JournalCommand) (p : Project) : Transcript × Project :=
  let opened := { p with journal := p.journal.withDirectory }
  (journalTranscript console c opened.journal, opened)

/-- What the program says about its use. -/
def helpLines : List Text :=
  ["Usage: " ++ programName ++ " [--version] [--help] COMMAND ...",
   "",
   "  eval FORMULA [--set NAME=VALUE]... [--project DIRECTORY] [--json] [--tree|--no-tree]",
   "  tokens FORMULA",
   "  functions",
   "  logs [--project DIRECTORY] [--level info|warning|error] [--limit N]"]

/-- The transcript of a command on the project in a directory, and the project after it, unless there is no such
directory. -/
def onProject (console : Console) (path : Text) (p : Option Project) (action : Project → Transcript × Project) :
    Transcript × Option Project :=
  match p with
  | none => (.misused console (.noDirectory path), none)
  | some p =>
    let (transcript, after) := action p
    (transcript, some after)

/-- The transcript of a command, and the project in its directory after it. The project is absent if the command names
no directory, or one that there is not. -/
def run (formats : Formats) (console : Console) (time : Text) (c : Command) (p : Option Project) :
    Transcript × Option Project :=
  match c with
  | .evaluate c =>
    match c.directory with
    | none => ((runEvaluate formats console time c (return ()) (Session.start (.empty []))).1, p)
    | some path => onProject console path p fun project =>
      let (transcript, after) := runEvaluate formats console time c (discard (Session.load formats)) (Session.start project)
      (transcript, after.project)
  | .journal c => onProject console c.directory p (runJournal console c)
  | .tokens formula => (.ofLines console ((Token.scan formula).map fun t => .ok (tokenLine t)), p)
  | .functions => (.ofLines console (FunctionTable.builtin.names.map (functionLine .builtin)), p)
  | .version => (.ofLines console [.ok (programName ++ ", version " ++ programVersion)], p)
  | .help => (.ofLines console (helpLines.map .ok), p)

end Reckoner.Command
