import Reckoner.Proofs.Calculator.Answers
import Reckoner.Proofs.Node.Stage
/-!
# The event that an answer calls for

A formula that gives an answer or a formula error calls for an event that tells so. The event that is made is this one,
unless the value of the formula cannot be shown: that raises a formula error of which no event tells
(`ofFormula?_of_isUnshown`).
-/
namespace Reckoner

open FunctionTable (builtin)

/-- The formula has a value, but showing it fails with a formula error. -/
def Calculator.IsUnshown (c : Calculator) (formula : Text) (values : Context) : Prop :=
  ∃ tree v e, c.compute formula values = .ok (tree, v) ∧ v.display = .error (.formula e)

namespace Event

/-- The code of a formula error: one where the text that is read has no tree, one for errors in calls, and one for all
others. -/
def codeOf (formula : Text) (e : FormulaError) : Text :=
  match Node.parse (Substitution.ofText formula).text, e.stage with
  | .error _, _ => "parse_error"
  | .ok _, .calling => "function_error"
  | .ok _, _ => "evaluation_error"

/-- The event that what a formula gives calls for; a number of too many digits calls for none. -/
def owed? (c : Calculator) (formula : Text) (values : Context) : Option Event :=
  match c.evaluate formula values with
  | .ok e => some (ofEvaluation formula e)
  | .error (.formula e) =>
    some { ofError formula (Substitution.ofText formula).text e with errorCode := some (codeOf formula e) }
  | .error (.digits _) => none

variable {c : Calculator} {formula : Text} {values : Context}

/-- The stage of an error tells its code. -/
theorem stageCode_eq_codeOf (known : c.functions = builtin) {e : FormulaError}
    (failed : c.compute formula values = .error (.formula e)) : stageCode e.stage = codeOf formula e := by
  have reading := Calculator.isReading_iff known failed
  unfold codeOf
  cases parsed : Node.parse (Substitution.ofText formula).text with
  | error fault =>
    have early : e.stage = .reading := reading.mpr (by simp [parsed])
    rw [early]
    rfl
  | ok tree =>
    have late : e.stage ≠ .reading := fun early => reading.mp early tree parsed
    cases stage : e.stage with
    | reading => exact absurd stage late
    | calling => rfl
    | evaluating => rfl

/-- The tree of a formula with a value can be written out, so only showing the value can fail. -/
theorem evaluate_of_compute {tree : Node} {v : Value} (computed : c.compute formula values = .ok (tree, v)) :
    ∃ rendered, Calculator.present (Substitution.ofText formula).text tree v = c.evaluate formula values ∧
      c.evaluate formula values =
        v.display >>= fun display => .ok ⟨(Substitution.ofText formula).text, v, rendered, display⟩ := by
  obtain ⟨parsed, -⟩ := Calculator.compute_eq_ok.mp computed
  obtain ⟨rendered, presented⟩ :=
    Calculator.present_eq (Substitution.ofText formula).text (Node.parse_formed parsed) v
  have evaluated : c.evaluate formula values = Calculator.present (Substitution.ofText formula).text tree v := by
    rw [Calculator.evaluate, computed]
    rfl
  exact ⟨rendered, evaluated.symm, evaluated.trans presented⟩

/-- A value that cannot be shown calls for an event, and none is made. -/
theorem ofFormula?_of_isUnshown (unshown : c.IsUnshown formula values) :
    ofFormula? c formula values = none ∧ (owed? c formula values).isSome = true := by
  obtain ⟨tree, v, e, computed, failed⟩ := unshown
  obtain ⟨rendered, presented, evaluated⟩ := evaluate_of_compute computed
  rw [failed, Outcome.error_bind] at evaluated
  rw [evaluated] at presented
  constructor
  · rw [ofFormula?, computed]
    dsimp only
    rw [presented]
  · rw [owed?, evaluated]
    rfl

/-- Otherwise the event that is made is the one called for. -/
theorem ofFormula?_eq_owed? (known : c.functions = builtin) (shown : ¬c.IsUnshown formula values) :
    ofFormula? c formula values = owed? c formula values := by
  cases computed : c.compute formula values with
  | error fault =>
    have failed : c.evaluate formula values = .error fault := by
      rw [Calculator.evaluate, computed]
      rfl
    rw [ofFormula?, owed?, computed, failed]
    cases fault with
    | digits l => rfl
    | formula e =>
      dsimp only
      rw [← stageCode_eq_codeOf known computed]
      rfl
  | ok pair =>
    obtain ⟨tree, v⟩ := pair
    obtain ⟨rendered, presented, evaluated⟩ := evaluate_of_compute computed
    rw [ofFormula?, owed?, computed]
    dsimp only
    rw [presented, evaluated]
    -- both depend on the display alone, and differ only where that is a formula error
    cases displayed : v.display with
    | ok display => rfl
    | error fault =>
      cases fault with
      | digits l => rfl
      | formula e => exact absurd ⟨tree, v, e, computed, displayed⟩ shown

end Event
end Reckoner
