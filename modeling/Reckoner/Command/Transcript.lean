import Reckoner.Command.Arguments
import Reckoner.Project
import Reckoner.Text.Printed
/-!
# Transcripts

What a command prints, and how it ends: well, with a message about what it was given, with advice on its use, or by a
fault that no message is made of.
-/
namespace Reckoner

/-- A fault that ends a command without a message. -/
inductive Crash where
  | settings (f : SettingsFault)
  | fault (f : Fault)
  | journal (f : JournalFault)
  | unprintable (h : Text.LoneHalves)

namespace Crash

/-- What is said about a fault that ends a command. -/
def message : Crash → Text
  | .settings f => f.message?.getD "The settings cannot be used."
  | .fault f => f.message
  | .journal (.digits l) => l.message
  | .journal .notAnObject => "The journal holds a line that is no event."
  | .unprintable h => h.message

end Crash

inductive Ending where
  | finished
  | failed
  | misused
  | crashed (c : Crash)

/-- The exit code a command ends with. -/
def Ending.code : Ending → UInt32
  | .finished => 0
  | .misused => 2
  | .failed | .crashed _ => 1

structure Transcript where
  output : Text
  errors : Text
  ending : Ending

/-- Which of the two outputs of a command are terminals. -/
structure Console where
  output : Bool
  errors : Bool

/-- Both outputs go to files. -/
def Console.files : Console := ⟨false, false⟩

namespace Transcript

/-- The text as it is printed. -/
def shown (onTerminal : Bool) (t : Text) : Text := if onTerminal then t else t.withoutControls

/-- A transcript with a line before its output. -/
def after (line : Text) (t : Transcript) : Transcript := { t with output := line ++ t.output }

/-- Prints lines one after the other, up to the first one that cannot be had or cannot be printed. -/
def ofLines (console : Console) : List (Except Crash Text) → Transcript
  | [] => ⟨[], [], .finished⟩
  | .error c :: _ => ⟨[], [], .crashed c⟩
  | .ok line :: rest =>
    let printed := shown console.output (line ++ [.scalar '\n'])
    match printed.loneHalves? with
    | some h => ⟨[], [], .crashed (.unprintable h)⟩
    | none => (ofLines console rest).after printed

/-- A command that ends with a message. -/
def failed (console : Console) (message : Text) : Transcript :=
  ⟨[], (shown console.errors ("Error: " ++ message ++ "\n")).escapeHalves, .failed⟩

/-- A command that could not be followed. -/
def misused (console : Console) (f : UsageFault) : Transcript :=
  { failed console f.message with ending := .misused }

/-- A command that ends by a fault before anything is printed. -/
def crashed (c : Crash) : Transcript := ⟨[], [], .crashed c⟩

/-- A command whose settings or assignments cannot be used. -/
def ofSettingsFault (console : Console) (f : SettingsFault) : Transcript :=
  match f.message? with
  | some message => failed console message
  | none => crashed (.settings f)

/-- A command whose formula cannot be worked out. -/
def ofFault (console : Console) : Fault → Transcript
  | .formula e => failed console e.message
  | .digits l => crashed (.fault (.digits l))

end Transcript
end Reckoner
