import Reckoner.Text.Basic
/-!
# Arguments

The arguments of a command are options and words. An option begins with a hyphen and has at least one character
more; a value belongs to it, or it is a switch. Options may stand before, between and after the words; two hyphens
alone end them, and all that follows is words.
-/
namespace Reckoner

/-- Whether an option has a value. -/
inductive OptionShape where
  | switch
  | valued
  deriving DecidableEq, Repr

/-- The options that were given, in order, and the words. A switch stands with the empty value. -/
structure Arguments where
  options : List (Text × Text)
  words : List Text
  deriving DecidableEq, Repr

/-- Why a command line cannot be followed. -/
inductive UsageFault where
  | noCommand
  | unknownCommand (name : Text)
  | unknownOption (name : Text)
  | lacksValue (name : Text)
  | takesNoValue (name : Text)
  | lacksWord
  | extraWord (word : Text)
  | badValue (name value : Text)
  | noDirectory (path : Text)
  deriving DecidableEq, Repr

namespace UsageFault

def message : UsageFault → Text
  | .noCommand => "Missing command."
  | .unknownCommand name => "No such command " ++ name
  | .unknownOption name => "No such option: " ++ name
  | .lacksValue name => "Option " ++ name ++ " requires an argument."
  | .takesNoValue name => "Option " ++ name ++ " does not take a value."
  | .lacksWord => "Missing argument FORMULA."
  | .extraWord word => "Got unexpected extra argument " ++ word
  | .badValue name value => "Invalid value for " ++ name ++ ": " ++ value
  | .noDirectory path => "Directory " ++ path ++ " does not exist."

end UsageFault

namespace Arguments

/-- Does an argument begin an option? -/
def isOption : Text → Bool
  | .scalar '-' :: _ :: _ => true
  | _ => false

def isEndMark (t : Text) : Bool := t == Text.ofString "--"

/-- The name of an option, which ends at the first equals sign. -/
def nameOf (t : Text) : Text := t.takeWhile (· != .scalar '=')

/-- The value written after the equals sign of an option. -/
def valueOf? (t : Text) : Option Text :=
  match t.dropWhile (· != .scalar '=') with
  | [] => none
  | _ :: value => some value

def withOption (name value : Text) (a : Arguments) : Arguments := { a with options := (name, value) :: a.options }

def withWord (word : Text) (a : Arguments) : Arguments := { a with words := word :: a.words }

/-- Reads arguments by the shapes of the options that are known. A value that does not stand after an equals sign is
the next argument, whatever it is. -/
def read (shape : Text → Option OptionShape) : List Text → Except UsageFault Arguments
  | [] => .ok ⟨[], []⟩
  | argument :: rest =>
    if isEndMark argument then .ok ⟨[], rest⟩
    else if isOption argument then
      match shape (nameOf argument), valueOf? argument with
      | none, _ => .error (.unknownOption (nameOf argument))
      | some .switch, some _ => .error (.takesNoValue (nameOf argument))
      | some .switch, none => (read shape rest).map (withOption argument [])
      | some .valued, some value => (read shape rest).map (withOption (nameOf argument) value)
      | some .valued, none =>
        match rest with
        | [] => .error (.lacksValue argument)
        | value :: others => (read shape others).map (withOption argument value)
    else (read shape rest).map (withWord argument)

/-- The values of an option, in order. -/
def values (a : Arguments) (name : Text) : List Text :=
  a.options.filterMap fun option => if option.1 = name then some option.2 else none

/-- The value of an option that counts, which is the last one. -/
def last? (a : Arguments) (name : Text) : Option Text := (a.values name).getLast?

def has (a : Arguments) (name : Text) : Bool := a.options.any (·.1 == name)

/-- The word of a command that has exactly one. -/
def onlyWord (a : Arguments) : Except UsageFault Text :=
  match a.words with
  | [] => .error .lacksWord
  | [word] => .ok word
  | _ :: extra :: _ => .error (.extraWord extra)

/-- Nothing, of a command that has no words. -/
def noWord (a : Arguments) : Except UsageFault Unit :=
  match a.words with
  | [] => .ok ()
  | extra :: _ => .error (.extraWord extra)

end Arguments
end Reckoner
