import Reckoner.Event
import Reckoner.Proofs.Node.Acceptance
import Reckoner.Proofs.Node.Identical
import Reckoner.Proofs.Node.Overlong
import Reckoner.Proofs.Reference.Binding
import Reckoner.Proofs.Reference.Image
/-!
# When a formula is answered

A calculator should work a formula out, or say what is wrong with it by a formula error and an event of that. It does
so unless a whole number of more than 4300 digits has to be read or written on the way: in a literal, in a text that is
joined or cut, or in the display of the value (`answers_iff`). With values of other kinds there is more that cannot be
displayed: a list of what is no tree, or a list or a mapping with such a number in it.
-/
namespace Reckoner.Calculator

open FunctionTable (builtin)
open Outcome (Overruns)

/-- The formula is worked out, or a formula error is raised after the event of a failure. -/
def Answers (c : Calculator) (formula : Text) (values : Context) : Prop :=
  (∃ e, c.evaluate formula values = .ok e) ∨
    ∃ e, c.evaluate formula values = .error (.formula e) ∧
      Event.ofFormula? c formula values = some (Event.ofError formula (Substitution.ofText formula).text e)

/-- No number of too many digits is read or written for the answer. -/
structure WithinLimit (c : Calculator) (formula : Text) (values : Context) : Prop where
  /-- The first token that no formula has, if there is one, is not a literal of too many digits. -/
  read : ∀ t, (Token.scan (Substitution.ofText formula).text).find? Token.isRefused = some t → t.kind = .unknown
  /-- No tree is reached that writes such a number out. -/
  computed : ∀ tree, Node.parse (Substitution.ofText formula).text = .ok tree → ∀ n,
    tree.Reaches (c.context (Substitution.ofText formula) values) n →
      ¬n.WritesOverlong (c.context (Substitution.ofText formula) values)
  /-- The value can be displayed. -/
  shown : ∀ tree v, Node.parse (Substitution.ofText formula).text = .ok tree →
    tree.compute builtin (c.context (Substitution.ofText formula) values) = .ok v → ∃ t, v.display = .ok t

/-- Every whole number that is read, joined, cut or displayed for the answer has at most 4300 digits. -/
structure StaysShort (c : Calculator) (formula : Text) (values : Context) : Prop where
  read : ∀ t, (Token.scan (Substitution.ofText formula).text).find? Token.isRefused = some t → t.kind = .unknown
  computed : ∀ tree, Node.parse (Substitution.ofText formula).text = .ok tree → ∀ n,
    tree.Reaches (c.context (Substitution.ofText formula) values) n → ∀ v,
      n.Writes (c.context (Substitution.ofText formula) values) v → ¬v.IsOverlong
  shown : ∀ tree v, Node.parse (Substitution.ofText formula).text = .ok tree →
    tree.compute builtin (c.context (Substitution.ofText formula) values) = .ok v → ¬v.IsOverlong

variable {c : Calculator} {formula : Text} {values : Context}

theorem withinLimit_iff_staysShort (scalars : ∀ entry ∈ c.named values, entry.2.IsScalar) :
    c.WithinLimit formula values ↔ c.StaysShort formula values := by
  have reads := forall_read_context (s := Substitution.ofText formula) True.intro scalars
  constructor
  · intro within
    refine ⟨within.read, fun tree parsed n reaches v writes long => ?_, fun tree v parsed computed => ?_⟩
    · have formed := (Node.parse_formed parsed).of_contains reaches.contains
      exact within.computed tree parsed n reaches ((Node.writesOverlong_iff_writes formed reads).mpr ⟨v, writes, long⟩)
    · have ordinary := Node.compute_ordinary (Node.parse_formed parsed) reads v computed
      exact ordinary.display_isOk_iff.mp (within.shown tree v parsed computed)
  · intro short
    refine ⟨short.read, fun tree parsed n reaches overlong => ?_, fun tree v parsed computed => ?_⟩
    · have formed := (Node.parse_formed parsed).of_contains reaches.contains
      obtain ⟨v, writes, long⟩ := (Node.writesOverlong_iff_writes formed reads).mp overlong
      exact short.computed tree parsed n reaches v writes long
    · have ordinary := Node.compute_ordinary (Node.parse_formed parsed) reads v computed
      exact ordinary.display_isOk (short.shown tree v parsed computed)

theorem compute_eq_ok {tree : Node} {v : Value} : c.compute formula values = .ok (tree, v) ↔
    Node.parse (Substitution.ofText formula).text = .ok tree ∧
      tree.compute c.functions (c.context (Substitution.ofText formula) values) = .ok v := by
  unfold compute
  dsimp only
  constructor
  · intro given
    obtain ⟨u, parsed, rest⟩ := Outcome.bind_eq_ok.mp given
    obtain ⟨w, computed, same⟩ := Outcome.bind_eq_ok.mp rest
    cases same
    exact ⟨parsed, computed⟩
  · intro given
    rw [given.1, Outcome.ok_bind, given.2]
    rfl

theorem compute_overruns_iff : (c.compute formula values).Overruns ↔
    (Node.parse (Substitution.ofText formula).text).Overruns ∨
      ∃ tree, Node.parse (Substitution.ofText formula).text = .ok tree ∧
        (tree.compute c.functions (c.context (Substitution.ofText formula) values)).Overruns := by
  unfold compute
  rw [Overruns.bind_iff]
  simp only [Outcome.pure_eq_ok, Overruns.bind_ok_iff]

theorem present_eq (expression : Text) {tree : Node} (formed : tree.Formed) (v : Value) :
    ∃ rendered, present expression tree v = v.display >>= fun display => .ok ⟨expression, v, rendered, display⟩ := by
  obtain ⟨rendered, written⟩ := formed.isWritable
  exact ⟨rendered, by rw [present, written]; rfl⟩

/-- What is worked out is answered as long as it does not overrun and its value can be displayed. -/
theorem answers_iff_compute :
    c.Answers formula values ↔ ¬(c.compute formula values).Overruns ∧
      ∀ tree v, c.compute formula values = .ok (tree, v) → ∃ t, v.display = .ok t := by
  unfold Answers evaluate Event.ofFormula?
  cases outcome : c.compute formula values with
  | error fault =>
    cases fault with
    | formula e => exact iff_of_true (.inr ⟨e, rfl, rfl⟩) ⟨by simp [Overruns], by simp⟩
    | digits l => simp [Overruns]
  | ok result =>
    obtain ⟨tree, v⟩ := result
    obtain ⟨parsed, -⟩ := compute_eq_ok.mp outcome
    obtain ⟨rendered, presents⟩ := present_eq (Substitution.ofText formula).text (Node.parse_formed parsed) v
    dsimp only
    rw [Outcome.ok_bind, presents]
    cases display : v.display with
    | ok t => simp [display]
    | error e => simp [display]

theorem answers_iff_withinLimit (defaults : Context) (formula : Text) (values : Context) :
    (withDefaults defaults).Answers formula values ↔ (withDefaults defaults).WithinLimit formula values := by
  rw [answers_iff_compute, compute_overruns_iff, Node.parse_overruns, not_or]
  constructor
  · intro given
    obtain ⟨⟨reads, computes⟩, shows⟩ := given
    refine ⟨fun t first => ?_, fun tree parsed n reaches writes => ?_, fun tree v parsed computed => ?_⟩
    · by_contra known
      exact reads ⟨t, first, known⟩
    · exact computes ⟨tree, parsed, Node.overruns_of_reaches reaches writes⟩
    · exact shows tree v (compute_eq_ok.mpr ⟨parsed, computed⟩)
  · intro within
    refine ⟨⟨?_, ?_⟩, fun tree v computed => ?_⟩
    · rintro ⟨t, first, known⟩
      exact known (within.read t first)
    · rintro ⟨tree, parsed, overruns⟩
      obtain ⟨n, reaches, writes⟩ := (Node.compute_overruns_iff (Node.parse_formed parsed)).mp overruns
      exact within.computed tree parsed n reaches writes
    · obtain ⟨parsed, value⟩ := compute_eq_ok.mp computed
      exact within.shown tree v parsed value

/-- A formula is answered exactly when it stays within the limit of digits; where names have scalars, that is when no
whole number of too many digits is read, joined, cut or displayed. -/
theorem answers_iff (defaults : Context) (formula : Text) (values : Context) :
    ((withDefaults defaults).Answers formula values ↔ (withDefaults defaults).WithinLimit formula values) ∧
      ((∀ entry ∈ (withDefaults defaults).named values, entry.2.IsScalar) →
        ((withDefaults defaults).Answers formula values ↔ (withDefaults defaults).StaysShort formula values)) := by
  have within := answers_iff_withinLimit defaults formula values
  exact ⟨within, fun scalars => within.trans (withinLimit_iff_staysShort scalars)⟩

/-- A whole number of 4301 digits: a one with zeros behind it. -/
def longLiteral : Text := .scalar '1' :: List.replicate 4300 (.scalar '0')

theorem isDigits_longLiteral : longLiteral.IsDigits := by
  intro c member
  rcases List.mem_cons.mp member with rfl | zero
  · decide
  · rw [List.eq_of_mem_replicate zero]
    decide

theorem scan_longLiteral : Token.scan longLiteral = [⟨.number, longLiteral, some 0⟩] := by
  have scanned := Token.scansAs_digits isDigits_longLiteral (List.cons_ne_nil _ _) 0 [] .nil
  rwa [List.append_nil, Token.scanFrom] at scanned

theorem isRefused_longLiteral : Token.isRefused ⟨.number, longLiteral, some 0⟩ = true := by
  have noPoint : longLiteral.contains (.scalar '.') = false := by
    rw [List.contains_eq_mem, decide_eq_false_iff_not]
    intro member
    cases isDigits_longLiteral _ member
  have long : Numeral.maxDigits < longLiteral.length := by
    rw [longLiteral, List.length_cons, List.length_replicate]
    decide
  simp only [Token.isRefused, noPoint, long]
  rfl

/-- A literal of 4301 digits is refused without a formula error. -/
theorem not_answers_longLiteral : ¬(withDefaults []).Answers longLiteral [] := by
  rw [answers_iff_withinLimit]
  intro within
  have noReference : .scalar '[' ∉ longLiteral := fun member => by cases isDigits_longLiteral _ member
  have unchanged : (Substitution.ofText longLiteral).text = longLiteral := by
    rw [Substitution.text_ofText]
    simpa using Substitution.image_append_plain noReference []
  have first : (Token.scan (Substitution.ofText longLiteral).text).find? Token.isRefused =
      some ⟨.number, longLiteral, some 0⟩ := by
    rw [unchanged, scan_longLiteral, List.find?_cons_of_pos isRefused_longLiteral]
  cases within.read _ first

end Reckoner.Calculator
