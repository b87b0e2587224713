import Reckoner.Node.Compute
import Reckoner.Calculator
import Reckoner.Proofs.Node.Sound
/-!
# Working out is past reading

Reading a text fails by an error of reading, or by a number of too many digits. What comes after it (working a tree out,
writing it and displaying its value) never fails by an error of reading, whatever values the names have. So the stage of
a formula error tells exactly whether the text could be read (`Calculator.isReading_iff`).
-/
namespace Reckoner

open FunctionTable (builtin)

/-- The outcome, if it is a fault, is none of reading. -/
def Outcome.PastReading {α : Type} (o : Outcome α) : Prop := ∀ fault, o = .error fault → ¬fault.IsReading

namespace Outcome.PastReading

variable {α β : Type}

theorem ok (a : α) : PastReading (.ok a : Outcome α) := nofun

theorem fail {e : FormulaError} (late : e.stage ≠ .reading) : PastReading (.fail e : Outcome α) := by
  rintro fault same ⟨e', rfl, early⟩
  cases same
  exact late early

theorem ofDigits (result : Except DigitLimit α) : PastReading (Outcome.ofDigits result) := by
  rintro fault same ⟨e, rfl, -⟩
  cases result <;> cases same

theorem bind_of_ok {step : Outcome α} {next : α → Outcome β} (first : step.PastReading)
    (second : ∀ a, step = .ok a → (next a).PastReading) : (step >>= next).PastReading := by
  intro fault same
  cases step with
  | error e => exact first fault (by cases same; rfl)
  | ok a => exact second a rfl fault same

theorem bind {step : Outcome α} {next : α → Outcome β} (first : step.PastReading)
    (second : ∀ a, (next a).PastReading) : (step >>= next).PastReading :=
  first.bind_of_ok fun a _ => second a

theorem map {step : Outcome α} (first : step.PastReading) (f : α → β) :
    (step >>= fun a => .ok (f a)).PastReading := first.bind fun a => ok (f a)

end Outcome.PastReading

open Outcome (PastReading)

mutual

theorem Value.inspect_pastReading (v : Value) : v.inspect.PastReading := by
  cases v with
  | int n => exact .ofDigits _
  | list items => exact (Value.inspectAll_pastReading items).map _
  | tuple items =>
    refine (Value.inspectAll_pastReading items).bind fun shown => ?_
    split <;> exact .ok _
  | mapping entries => exact (Value.inspectEntries_pastReading entries).map _
  | node n => exact n.inspect_pastReading
  | _ => exact .ok _

theorem Value.inspectAll_pastReading (items : List Value) : (Value.inspectAll items).PastReading := by
  cases items with
  | nil => exact .ok _
  | cons v rest => exact v.inspect_pastReading.bind fun _ => (Value.inspectAll_pastReading rest).map _

theorem Value.inspectEntries_pastReading (entries : List (Value × Value)) :
    (Value.inspectEntries entries).PastReading := by
  cases entries with
  | nil => exact .ok _
  | cons entry rest =>
    obtain ⟨key, v⟩ := entry
    exact key.inspect_pastReading.bind fun _ => v.inspect_pastReading.bind fun _ =>
      (Value.inspectEntries_pastReading rest).map _

theorem Node.inspect_pastReading (n : Node) : n.inspect.PastReading := by
  cases n with
  | constant payload => exact payload.inspect_pastReading.map _
  | property name => exact .ok _
  | binary op left right => exact left.inspect_pastReading.bind fun _ => right.inspect_pastReading.map _
  | call name args => exact args.inspect_pastReading.map _

end

mutual

theorem Node.render_pastReading (n : Node) : n.render.PastReading := by
  cases n with
  | constant payload => exact Node.render_constant_pastReading payload
  | property name =>
    rw [Node.render]
    exact .ok _
  | binary op left right =>
    rw [Node.render]
    exact left.render_pastReading.bind fun _ => right.render_pastReading.map _
  | call name args =>
    rw [Node.render.eq_def]
    dsimp only
    split
    · exact .ok _
    next items => exact (Node.renderAll_pastReading items).map _
    next payload _ => exact (Node.render_constant_pastReading payload).map _
    next => exact args.render_pastReading.map _

theorem Node.render_constant_pastReading (payload : Value) : (Node.constant payload).render.PastReading := by
  cases payload with
  | tuple items =>
    rw [Node.render]
    exact (Node.renderAll_pastReading items).map _
  | node n =>
    rw [Node.render]
    exact n.render_pastReading
  | text t => exact .ok _
  | token t => exact .ok _
  | float x => exact .ok _
  | date d => exact .ok _
  | moment m => exact .ok _
  | _ =>
    rw [Node.render.eq_def]
    exact Value.inspect_pastReading _

theorem Node.renderAll_pastReading (items : List Value) : (Node.renderAll items).PastReading := by
  cases items with
  | nil => exact .ok _
  | cons v rest =>
    rw [Node.renderAll.eq_def]
    dsimp only
    split
    next n => exact n.render_pastReading.bind fun _ => (Node.renderAll_pastReading rest).map _
    next => exact .fail nofun

end

theorem Value.plain_pastReading (v : Value) : v.plain.PastReading := by
  cases v with
  | node n => exact n.render_pastReading
  | text t => exact .ok _
  | token t => exact .ok _
  | date d => exact .ok _
  | moment m => exact .ok _
  | _ => exact Value.inspect_pastReading _

theorem Value.display_pastReading (v : Value) : v.display.PastReading := by
  unfold Value.display
  split
  · exact .ok _
  · exact .ok _
  next items => exact (Node.renderAll_pastReading items).map _
  next =>
    unfold Value.numberForm
    split
    · exact .ok _
    · exact Value.plain_pastReading _

theorem Operator.apply_pastReading (op : Operator) (left right : Value) : (op.apply left right).PastReading := by
  unfold apply
  split
  · exact left.display_pastReading.bind fun _ => right.display_pastReading.map _
  · split
    · exact .ok _
    · split
      · exact .ok _
      · exact .fail nofun

theorem Operator.applySymbol_pastReading (symbol : Text) (left right : Value) :
    (applySymbol symbol left right).PastReading := by
  unfold applySymbol
  split
  · exact Operator.apply_pastReading _ left right
  · exact .fail nofun

namespace FunctionTable

theorem cutAt_pastReading (start : Value) : (cutAt start).PastReading := by
  unfold cutAt
  split
  · exact .ok _
  · exact .ok _
  · exact (Value.inspect_pastReading _).bind fun _ => .fail nofun

theorem substr_pastReading (v start : Value) : (substr v start).PastReading := by
  refine v.display_pastReading.bind fun t => (cutAt_pastReading start).bind fun cut => ?_
  split <;> exact .ok _

theorem onTwo_pastReading {f : Value → Value → Outcome Value} (body : ∀ x y, (f x y).PastReading) (name : Text)
    (values : List Value) : (onTwo name f values).PastReading := by
  unfold onTwo
  split
  · exact body _ _
  · exact .fail nofun

theorem find_pastReading (name : Text) : (builtin.find name).PastReading := by
  unfold find
  split
  · exact .ok _
  · exact .fail nofun

theorem body_pastReading {entry : FunctionEntry} (member : entry ∈ builtin) (values : List Value) :
    (entry.body values).PastReading := by
  simp only [builtin, List.mem_cons, List.not_mem_nil, or_false] at member
  rcases member with rfl | rfl | rfl
  · exact onTwo_pastReading (Operator.apply_pastReading .plus) _ values
  · exact onTwo_pastReading (Operator.apply_pastReading .minus) _ values
  · exact onTwo_pastReading substr_pastReading _ values

theorem call_pastReading (name : Text) (values : List Value) : (builtin.call name values).PastReading := by
  refine (find_pastReading name).bind_of_ok fun entry found => ?_
  split
  · refine body_pastReading ?_ values
    unfold find at found
    split at found
    next other first =>
      cases found
      exact List.mem_of_find?_eq_some first
    next => cases found
  · exact .fail nofun

end FunctionTable

mutual

theorem Node.compute_pastReading (ctx : Context) (n : Node) : (n.compute builtin ctx).PastReading := by
  cases n with
  | constant payload => exact .ok _
  | property name => exact .ok _
  | binary op left right =>
    rw [Node.compute]
    exact (left.compute_pastReading ctx).bind fun x => (right.compute_pastReading ctx).bind fun y =>
      Operator.applySymbol_pastReading op x y
  | call name args =>
    rw [Node.compute.eq_def]
    dsimp only
    -- A list in the place of the arguments has one value per item, anything else one value.
    split
    next items =>
      exact (Node.computeAll_pastReading ctx items).bind fun values => FunctionTable.call_pastReading name values
    next =>
      exact (args.compute_pastReading ctx).bind fun v => FunctionTable.call_pastReading name [v]

theorem Node.computeAll_pastReading (ctx : Context) (items : List Value) :
    (Node.computeAll builtin ctx items).PastReading := by
  cases items with
  | nil => exact .ok _
  | cons v rest =>
    rw [Node.computeAll.eq_def]
    dsimp only
    split
    next n => exact (n.compute_pastReading ctx).bind fun _ => (Node.computeAll_pastReading ctx rest).map _
    next => exact Node.computeAll_pastReading ctx rest

end

namespace Calculator

variable {c : Calculator} {formula : Text} {values : Context}

/-- A text that can be read gives no error of reading afterwards. -/
theorem compute_pastReading (known : c.functions = builtin) {tree : Node}
    (parsed : Node.parse (Substitution.ofText formula).text = .ok tree) : (c.compute formula values).PastReading := by
  unfold compute
  dsimp only
  rw [parsed, known]
  exact (tree.compute_pastReading _).map _

/-- A formula error is one of reading exactly when the text that is read has no tree. -/
theorem isReading_iff (known : c.functions = builtin) {e : FormulaError}
    (failed : c.compute formula values = .error (.formula e)) :
    e.stage = .reading ↔ ∀ tree, Node.parse (Substitution.ofText formula).text ≠ .ok tree := by
  constructor
  · intro reading tree parsed
    exact compute_pastReading known parsed _ failed ⟨e, rfl, reading⟩
  · intro noTree
    cases parsed : Node.parse (Substitution.ofText formula).text with
    | ok tree => exact absurd parsed (noTree tree)
    | error fault =>
      unfold compute at failed
      dsimp only at failed
      rw [parsed] at failed
      cases failed
      rcases Node.parse_error parsed with ⟨e', same, reading⟩ | ⟨l, same⟩
      · cases same
        exact reading
      · cases same

end Calculator

end Reckoner
