import Reckoner.Proofs.Bracket.Verdict
import Reckoner.Proofs.Item.Literal
/-!
# Which formula texts have a tree, and what is said about the others

Tokens are looked at first, and the first one that no formula has decides. After that the verdict is that on the items
of the text, signs folded (`parse_verdict`). A tree that comes out is formed.
-/
namespace Reckoner.Node

theorem parse_of_ofText {s : Text} {items : List Item} (h : Item.ofText s = .ok items) :
    parse s = Bracket.resolve items := by
  rw [parse, h]
  rfl

/-- The outcome of every formula text: the first refused token decides, and without one the brackets and runs do. -/
theorem parse_verdict (s : Text) :
    (∀ t, (Token.scan s).find? Token.isRefused = some t → parse s = .error t.refusal) ∧
      ((Token.scan s).find? Token.isRefused = none →
        ∃ items, Item.ofText s = .ok items ∧ Bracket.Verdict items (parse s)) := by
  constructor
  · intro t first
    rw [parse, Item.ofText_refused first]
    rfl
  · intro noneRefused
    obtain ⟨items, read, clean⟩ := Item.ofText_accepted noneRefused
    refine ⟨items, read, ?_⟩
    rw [parse_of_ofText read]
    exact Bracket.resolve_verdict formed_inherited (fun _ => Formed.isWritable) clean

/-- Reading a text overruns exactly when the first token that no formula has is a number of too many digits. -/
theorem parse_overruns (s : Text) :
    (parse s).Overruns ↔ ∃ t, (Token.scan s).find? Token.isRefused = some t ∧ t.kind ≠ .unknown := by
  cases first : (Token.scan s).find? Token.isRefused with
  | some t =>
    have refused : parse s = .error t.refusal := by
      rw [parse, Item.ofText_refused first]
      rfl
    rw [refused, Token.refusal]
    by_cases unknown : t.kind = .unknown <;> simp [Outcome.Overruns, unknown]
  | none =>
    obtain ⟨items, read, clean⟩ := Item.ofText_accepted first
    rw [parse_of_ofText read]
    refine iff_of_false ?_ (by simp)
    rintro ⟨l, failed⟩
    obtain ⟨e, formulaError⟩ := Bracket.resolve_error formed_inherited (fun _ => Formed.isWritable) clean failed
    cases formulaError

theorem parse_formed {s : Text} {tree : Node} (h : parse s = .ok tree) : tree.Formed := by
  obtain ⟨items, read, resolved⟩ := Outcome.bind_eq_ok.mp h
  exact Bracket.resolve_inherits formed_inherited (fun _ => Formed.isWritable) (Item.ofText_clean read) resolved

end Reckoner.Node
