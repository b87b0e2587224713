import Reckoner.Proofs.FunctionTable
/-!
# Where operators and functions write numbers out

A plus sign that joins texts writes its operands out. The cut of a text writes the text out, and a start position that
is no number is shown in a message. Nothing else in an operator or a function of the table can meet a whole number of
too many digits (`apply_overruns`, `call_overruns`).
-/
namespace Reckoner

theorem Value.display_int (n : Int) : (Value.int n).display = .ofDigits (Numeral.ofInt? n) := rfl

/-- A whole number cannot be displayed when it has more than 4300 digits. -/
theorem Value.display_int_overruns {n : Int} (long : Nat.pow 10 Numeral.maxDigits ≤ n.natAbs) :
    (Value.int n).display = .error (.digits .writing) := by
  rw [display_int, Numeral.ofInt?, if_pos long]
  rfl

/-- An operator writes its operands out only to join them. -/
theorem Operator.apply_overruns (op : Operator) (x y : Value) :
    (op.apply x y).Overruns ↔ op.joins x y = true ∧ (x.display >>= fun _ => y.display).Overruns := by
  unfold apply
  split_ifs with joins lacks
  · simp [joins, Outcome.Overruns.bind_iff]
  · simp [joins]
  · split <;> simp [joins]

namespace FunctionTable

open Outcome (Overruns)

variable {v start : Value}

/-- A start position is shown when it is refused. -/
theorem cutAt_overruns :
    (cutAt start).Overruns ↔ start ≠ .absent ∧ Number.ofValue? start = none ∧ start.inspect.Overruns := by
  unfold cutAt
  split
  next => simp
  next n _ number => simp [number]
  next start _ _ given none =>
    have notAbsent : start ≠ .absent := given
    simp [none, notAbsent, Overruns.bind_iff]

theorem substr_overruns : (substr v start).Overruns ↔ (v.display >>= fun _ => cutAt start).Overruns := by
  unfold substr
  rw [Overruns.bind_iff, Overruns.bind_iff]
  refine or_congr Iff.rfl (exists_congr fun t => and_congr_right fun _ => ?_)
  rw [Overruns.bind_iff]
  refine or_iff_left ?_
  rintro ⟨cut, -, overruns⟩
  split at overruns
  · exact Overruns.not_ok _ overruns
  · exact Overruns.not_ok _ overruns

/-- A function of the table overruns as the operator that it stands for, or as the cut of a text. -/
theorem call_overruns {name : Text} {values : List Value} :
    (builtin.call name values).Overruns ↔ ∃ x y, values = [x, y] ∧
      ((∃ op, operator? name = some op ∧ (op.apply x y).Overruns) ∨ name = "Substr" ∧ (substr x y).Overruns) := by
  constructor
  · intro overruns
    unfold call at overruns
    obtain missing | ⟨entry, found, body⟩ := Overruns.bind_iff.mp overruns
    · unfold find at missing
      split at missing <;> simp at missing
    · obtain ⟨two, known⟩ := find_builtin found
      by_cases arity : values.length = 2
      · obtain ⟨x, y, rfl⟩ := List.length_eq_two.mp arity
        refine ⟨x, y, rfl, ?_⟩
        rcases known with ⟨op, stands⟩ | rfl
        · rw [← call, call_operator stands] at overruns
          exact .inl ⟨op, stands, overruns⟩
        · exact .inr ⟨rfl, overruns⟩
      · rw [if_neg (by omega)] at body
        exact (Overruns.not_fail _ body).elim
  · intro given
    obtain ⟨x, y, rfl, ⟨op, stands, overruns⟩ | ⟨rfl, overruns⟩⟩ := given
    · rwa [call_operator stands]
    · exact overruns

end FunctionTable
end Reckoner
