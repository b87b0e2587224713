import Reckoner.Proofs.Bracket.Flatten
import Reckoner.Proofs.Node.Acceptance
import Reckoner.Proofs.Node.Identical
/-!
# The tree of a formula and the order of its text

The tree of a formula text, laid out flat, is the sequence of the items of the text without brackets and commas, signs
folded (`parse_flatten`): nothing in the text is lost, doubled or moved by the order in which brackets and operators
are reduced.
-/
namespace Reckoner

namespace Literal

theorem number_ne_tuple {t : Text} {v : Value} (h : number t = .ok v) (elements : List Value) :
    v ≠ .tuple elements := by
  unfold number at h
  split at h
  · cases h
    simp
  · obtain ⟨n, -, same⟩ := Outcome.bind_eq_ok.mp h
    cases same
    simp

theorem classify_leaf {t : Token} {item : Item} (h : classify t = .ok item) : item.IsLeaf := by
  rcases classify_cases h with ⟨-, v, read, rfl⟩ | ⟨-, rfl⟩ | ⟨-, rfl⟩ | ⟨-, rfl⟩
  · exact number_ne_tuple read
  · simp [Item.IsLeaf]
  · trivial
  · trivial

end Literal

namespace Item

theorem negated?_leaf {item folded : Item} (h : item.negated? = some folded) : folded.IsLeaf := by
  unfold negated? at h
  split at h
  next payload =>
    obtain ⟨v, negated, rfl⟩ := Option.map_eq_some_iff.mp h
    intro elements
    unfold Value.negated? at negated
    split at negated <;> (cases negated; try split) <;> simp
  next => cases h

theorem foldSignsFrom_leaf {items : List Item} (leaves : ∀ item ∈ items, item.IsLeaf) (due : Bool) :
    ∀ item ∈ foldSignsFrom due items, item.IsLeaf := by
  fun_induction foldSignsFrom due items with
  | case1 => simp
  | case2 due item => exact leaves
  | case3 due item next rest sign folded negated ih =>
    simpa using ⟨negated?_leaf negated, ih fun i m => leaves i (by simp [m])⟩
  | case4 due item next rest sign notNumber ih =>
    simpa using ⟨leaves item (by simp), ih fun i m => leaves i (by simp [List.mem_cons.mp m])⟩
  | case5 due item next rest noSign ih =>
    simpa using ⟨leaves item (by simp), ih fun i m => leaves i (by simp [List.mem_cons.mp m])⟩

theorem ofText_leaf {s : Text} {items : List Item} (h : ofText s = .ok items) : ∀ item ∈ items, item.IsLeaf := by
  obtain ⟨raw, classified, same⟩ := Outcome.bind_eq_ok.mp h
  cases same
  refine foldSignsFrom_leaf (fun item member => ?_) true
  obtain ⟨t, -, became⟩ := Outcome.exists_of_mem_mapM classified member
  exact Literal.classify_leaf became

end Item

namespace Node

/-- The parts of the tree of a formula text are those of the items of the text, in the order of the text. -/
theorem parse_flatten {s : Text} {tree : Node} (parsed : parse s = .ok tree) :
    ∃ items, Item.ofText s = .ok items ∧ (∀ item ∈ items, item.IsLeaf) ∧ tree.flatten = Item.parts items := by
  obtain ⟨items, read, resolved⟩ := Outcome.bind_eq_ok.mp parsed
  exact ⟨items, read, Item.ofText_leaf read, Bracket.resolve_flatten formed_inherited (fun _ => Formed.isWritable)
    (Item.ofText_clean read) (Item.ofText_leaf read) resolved⟩

/-- A call with a signed argument, times a quoted text. -/
theorem parse_flatten_product :
    parse "f(x, -2) * 'a'" = .ok (.binary "*" (.call "f" (.constant (.tuple ([.property "x",
      .constant (.int (-2))].map .node)))) (.constant (.text "a"))) ∧
      ∃ items, Item.ofText "f(x, -2) * 'a'" = .ok items ∧ (∀ item ∈ items, item.IsLeaf) ∧
        [.callee "f", .operand "x", .literal (.int (-2)), .sign "*", .literal (.text "a")] = Item.parts items := by
  have parsed : parse "f(x, -2) * 'a'" = .ok (.binary "*" (.call "f" (.constant (.tuple ([.property "x",
      .constant (.int (-2))].map .node)))) (.constant (.text "a"))) := parse_eq_of_reads (by decide +kernel)
  refine ⟨parsed, ?_⟩
  obtain ⟨items, read, leaves, laid⟩ := parse_flatten parsed
  refine ⟨items, read, leaves, ?_⟩
  rw [← laid]
  simp [flatten, flattenAll]

end Node
end Reckoner
