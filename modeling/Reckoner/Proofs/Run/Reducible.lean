import Mathlib.Data.List.Chain
/-!
# Runs that reduce, by what their items are

To the reduction of a run an item is an operand, an operator or a comma. A run of these marks is reducible when every
operator stands directly between two operands and the run either has a comma or is one operand after another joined
by operators. Folding one operation takes an operator and one of its operands out of the run, and that neither makes
nor breaks reducibility (`reducible_contract`).
-/
namespace Reckoner

/-- What an item of a run is to its reduction. -/
inductive Mark where
  | operand
  | operator
  | comma
  deriving DecidableEq, Repr

/-- A run of marks that reduces to one node. -/
structure Reducible (run : List Mark) : Prop where
  /-- Every operator stands directly between two operands. -/
  operators : ∀ before after, run = before ++ .operator :: after →
    before.getLast? = some .operand ∧ after.head? = some .operand
  /-- There is a comma, or there are operands and no two of them are neighbours. -/
  operands : .comma ∈ run ∨ run ≠ [] ∧ ∀ before after, run ≠ before ++ .operand :: .operand :: after

namespace Mark

/-- Two neighbours of which an operator has an operand for the other one. -/
def Joins (a b : Mark) : Prop := (a = .operator → b = .operand) ∧ (b = .operator → a = .operand)

/-- Two neighbours that are not both operands. -/
def Apart (a b : Mark) : Prop := ¬(a = .operand ∧ b = .operand)

end Mark

/-- Operators between operands, as a fact about neighbours, for a run behind a mark and with a comma put behind it. -/
theorem operators_iff_isChain_behind (previous : Mark) (run : List Mark) :
    ((∀ before after, run = before ++ .operator :: after →
        (previous :: before).getLast? = some .operand ∧ after.head? = some .operand) ∧
      (previous = .operator → run.head? = some .operand)) ↔
      List.IsChain Mark.Joins (previous :: (run ++ [.comma])) := by
  induction run generalizing previous with
  | nil => simp [Mark.Joins]
  | cons mark run ih =>
    rw [List.cons_append, List.isChain_cons_cons, ← ih mark]
    constructor
    · intro given
      obtain ⟨between, next⟩ := given
      refine ⟨⟨fun isOperator => by simpa using next isOperator, ?_⟩, ?_, ?_⟩
      · rintro rfl
        simpa using (between [] run rfl).1
      · rintro before after rfl
        simpa using between (mark :: before) after rfl
      · rintro rfl
        exact (between [] run rfl).2
    · intro given
      obtain ⟨⟨after_previous, before_mark⟩, between, next⟩ := given
      refine ⟨?_, fun isOperator => by simp [after_previous isOperator]⟩
      intro before after split
      cases before with
      | nil =>
        obtain ⟨rfl, rfl⟩ := List.cons.inj split
        exact ⟨by simp [before_mark rfl], next rfl⟩
      | cons first before =>
        obtain ⟨rfl, rfl⟩ := List.cons.inj split
        simpa using between before after rfl

/-- Operators between operands, as a fact about neighbours: with a comma put on either end of the run, every operator
has two neighbours and both are operands. -/
theorem operators_iff_isChain (run : List Mark) :
    (∀ before after, run = before ++ .operator :: after →
      before.getLast? = some .operand ∧ after.head? = some .operand) ↔
      List.IsChain Mark.Joins (.comma :: (run ++ [.comma])) := by
  rw [← operators_iff_isChain_behind]
  constructor
  · intro between
    refine ⟨fun before after split => ?_, by simp⟩
    obtain ⟨left, right⟩ := between before after split
    exact ⟨by simp [List.getLast?_cons, left], right⟩
  · intro given before after split
    obtain ⟨between, -⟩ := given
    obtain ⟨left, right⟩ := between before after split
    refine ⟨?_, right⟩
    rw [List.getLast?_cons] at left
    cases last : before.getLast? with
    | none => simp [last] at left
    | some mark => simpa [last] using left

/-- No two operands next to each other, as a fact about neighbours. -/
theorem apart_iff_isChain (run : List Mark) :
    (∀ before after, run ≠ before ++ .operand :: .operand :: after) ↔ List.IsChain Mark.Apart run := by
  rw [List.isChain_iff_forall_rel_of_append_cons_cons]
  constructor
  · intro apart a b before after split given
    obtain ⟨rfl, rfl⟩ := given
    exact apart before after split
  · intro apart before after split
    exact apart split ⟨rfl, rfl⟩

/-- Folding an operation into its left operand neither makes nor breaks reducibility. -/
theorem reducible_contract (before after : List Mark) :
    Reducible (before ++ .operand :: .operator :: .operand :: after) ↔ Reducible (before ++ .operand :: after) := by
  have operators :
      List.IsChain Mark.Joins (.comma :: (before ++ .operand :: .operator :: .operand :: after ++ [.comma])) ↔
        List.IsChain Mark.Joins (.comma :: (before ++ .operand :: after ++ [.comma])) := by
    simp only [List.append_assoc, List.cons_append]
    rw [List.isChain_cons_split]
    conv_rhs => rw [List.isChain_cons_split]
    simp [Mark.Joins]
  have apart : List.IsChain Mark.Apart (before ++ .operand :: .operator :: .operand :: after) ↔
      List.IsChain Mark.Apart (before ++ .operand :: after) := by
    rw [List.isChain_split]
    conv_rhs => rw [List.isChain_split]
    simp [Mark.Apart]
  constructor
  · intro given
    obtain ⟨between, kept⟩ := given
    refine ⟨(operators_iff_isChain _).mpr (operators.mp ((operators_iff_isChain _).mp between)), ?_⟩
    rw [apart_iff_isChain] at kept ⊢
    rw [← apart]
    simpa using kept
  · intro given
    obtain ⟨between, kept⟩ := given
    refine ⟨(operators_iff_isChain _).mpr (operators.mpr ((operators_iff_isChain _).mp between)), ?_⟩
    rw [apart_iff_isChain] at kept ⊢
    rw [apart]
    simpa using kept

end Reckoner
