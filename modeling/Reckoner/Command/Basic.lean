import Reckoner.Command.Arguments
import Reckoner.Event
import Reckoner.Numeral.Whole
/-!
# Commands

What a command line asks for: to work out a formula, to list its tokens or the functions, to show the journal of a
project, or to say what the program is. Which directories exist is not known here.
-/
namespace Reckoner

/-- A formula to be worked out, with assignments, perhaps in a project, and what is to be shown of it. -/
structure EvaluateCommand where
  formula : Text
  assignments : List Text
  directory : Option Text
  asJson : Bool
  showsTree : Bool
  deriving DecidableEq, Repr

/-- The journal of a project to be shown: the events of one level if it is given, and no more than the limit. -/
structure JournalCommand where
  directory : Text
  level : Option EventLevel
  limit : Int
  deriving DecidableEq, Repr

inductive Command where
  | evaluate (c : EvaluateCommand)
  | tokens (formula : Text)
  | functions
  | journal (c : JournalCommand)
  | version
  | help
  deriving DecidableEq, Repr

namespace Command

def programName : Text := "calcgraph"

def programVersion : Text := "0.1.0"

/-- The directory a command is about. -/
def directory? : Command → Option Text
  | .evaluate c => c.directory
  | .journal c => some c.directory
  | _ => none

/-- The shapes of some options. A request for help is one of every command. -/
def shapes (switches valued : List Text) (name : Text) : Option OptionShape :=
  if ((Text.ofString "--help") :: switches).contains name then some .switch
  else if valued.contains name then some .valued
  else none

/-- The command that arguments with these options ask for, unless they ask for help. -/
def readWith (switches valued : List Text) (build : Arguments → Except UsageFault Command) (arguments : List Text) :
    Except UsageFault Command := do
  let a ← Arguments.read (shapes switches valued) arguments
  if a.has "--help" then return .help else build a

/-- Is the tree shown? Of the two switches that say so the last one counts. -/
def showsTree (a : Arguments) : Bool :=
  let switches := a.options.filter fun option =>
    option.1 == Text.ofString "--tree" || option.1 == Text.ofString "--no-tree"
  switches.getLast?.all fun option => option.1 == Text.ofString "--tree"

def buildEvaluate (a : Arguments) : Except UsageFault Command := do
  let formula ← a.onlyWord
  return .evaluate ⟨formula, a.values "--set", a.last? "--project", a.has "--json", showsTree a⟩

def buildTokens (a : Arguments) : Except UsageFault Command := return .tokens (← a.onlyWord)

def buildFunctions (a : Arguments) : Except UsageFault Command := do
  a.noWord
  return .functions

/-- How many events are shown when nothing is said about it. -/
def usualLimit : Int := 20

def readLevel (a : Arguments) : Except UsageFault (Option EventLevel) :=
  match a.last? "--level" with
  | none => .ok none
  | some t =>
    match EventLevel.ofLabel? t with
    | some level => .ok (some level)
    | none => .error (.badValue "--level" t)

def readLimit (a : Arguments) : Except UsageFault Int :=
  match a.last? "--limit" with
  | none => .ok usualLimit
  | some t => (Numeral.readWhole t).mapError fun _ => .badValue "--limit" t

def buildJournal (a : Arguments) : Except UsageFault Command := do
  a.noWord
  let level ← readLevel a
  let limit ← readLimit a
  return .journal ⟨(a.last? "--project").getD ".", level, limit⟩

/-- The command of a name with its arguments. -/
def readNamed (name : Text) (arguments : List Text) : Except UsageFault Command :=
  if name = "eval" then
    readWith ["--json", "--tree", "--no-tree"] ["--set", "--project"] buildEvaluate arguments
  else if name = "tokens" then readWith [] [] buildTokens arguments
  else if name = "functions" then readWith [] [] buildFunctions arguments
  else if name = "logs" then readWith [] ["--project", "--level", "--limit"] buildJournal arguments
  else .error (.unknownCommand name)

/-- The options before the name of the command, and the arguments from there on. -/
def splitLeading : List Text → List Text × List Text
  | [] => ([], [])
  | argument :: rest =>
    if Arguments.isOption argument && !Arguments.isEndMark argument then
      let (options, others) := splitLeading rest
      (argument :: options, others)
    else ([], argument :: rest)

/-- What options without a command ask for, if they ask for anything; the first one counts. -/
def ofLeading (options : List Text) : Except UsageFault (Option Command) := do
  let a ← Arguments.read (shapes ["--version"] []) options
  return a.options.head?.map fun option => if option.1 == Text.ofString "--version" then .version else .help

/-- The arguments without a mark that ends the options before the command. -/
def afterMark : List Text → List Text
  | [] => []
  | argument :: rest => if Arguments.isEndMark argument then rest else argument :: rest

/-- The command a list of arguments asks for. An option in the place of the command is an option after all. -/
def read (arguments : List Text) : Except UsageFault Command := do
  let (options, others) := splitLeading arguments
  match ← ofLeading options, afterMark others with
  | some c, _ => return c
  | none, [] => .error .noCommand
  | none, name :: rest =>
    match ← ofLeading (splitLeading (name :: rest)).1 with
    | some c => return c
    | none => readNamed name rest

end Command
end Reckoner
