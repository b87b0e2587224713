import Reckoner.Proofs.Node.Acceptance
import Reckoner.Proofs.Node.Spelling
import Reckoner.Proofs.Number.Spelling
import Reckoner.Proofs.Numeral.Layout
/-!
# Rendered literals read back

A text is rendered between quotes. The rendering is one token that ends at its own closing quote, whatever stands
behind it, and its escapes give the text again (`quotation_reads`). A number is written without an exponent, and what is
read back is a constant: the number itself, or the whole number that a whole binary64 number spells. A minus sign is a
token of its own that is folded back into the number, and zero keeps it (`numberForm_reads`).
-/
namespace Reckoner

namespace Bracket

theorem resolve_node (n : Node) : resolve [.node n] = .ok n := by
  rw [resolve_eq_read, Progress.read_cons, Progress.step_plain _ _ rfl rfl]
  exact Run.reduce_node n

end Bracket

namespace Node

/-- A text that spells a node alone is read as this node. -/
theorem parse_of_spells {t : Text} {n : Node} (spells : Item.Spells true false t (· = [.node n])) :
    parse t = .ok n := by
  obtain ⟨items, read, rfl⟩ := Item.ofText_of_spells spells
  rw [parse_of_ofText read, Bracket.resolve_node]

/-- The rendering of a text is one string token, also with any text behind it, and the token is read as the text. -/
theorem quotation_reads (t : Text) :
    ∃ shown, (Node.constant (.text t)).render = .ok shown ∧ Token.scan shown = [⟨.string, shown, some 0⟩] ∧
      (∀ rest, Token.scan (shown ++ rest) = ⟨.string, shown, some 0⟩ :: Token.scanFrom shown.length rest) ∧
      Literal.decodeString shown = t := by
  have scans : ∀ rest, Token.scan (t.quoted .unicode ++ rest) =
      ⟨.string, t.quoted .unicode, some 0⟩ :: Token.scanFrom (t.quoted .unicode).length rest := by
    intro rest
    rw [Token.scan, Token.scanFrom_quoted, Nat.zero_add]
    rfl
  refine ⟨t.quoted .unicode, render_text t, ?_, scans, Literal.decodeString_quoted t⟩
  have alone := scans []
  rwa [List.append_nil, Token.scanFrom] at alone

end Node

namespace Number

/-- A number that has a written form in digits: a whole number of at most 4300 digits, or a finite binary64 number. -/
inductive HasDigits : Number → Prop where
  | int (n : Int) (short : Numeral.IsShort n) : HasDigits (.int n)
  | finite (negative : Bool) (m : Magnitude) : HasDigits (.float (.finite negative m))

/-- The zero with a minus sign, which equality does not tell from the other zeros. -/
def negativeZero : Number := .float (.finite true .zero)

/-- A finite number comes back as an equal number, with the sign that zero has. -/
theorem exists_respelled (negative : Bool) (m : Magnitude) :
    ∃ y : Number, Binary64.respelled (.finite negative m) = y.toValue ∧ y.equals (.float (.finite negative m)) = true ∧
      (y = negativeZero ↔ Number.float (.finite negative m) = negativeZero) := by
  rcases Binary64.respelled_cases (.finite negative m) with same | ⟨n, whole, spells⟩
  · have equal : (Binary64.finite negative m).equals (.finite negative m) = true := Binary64.equals_self (by simp)
    exact ⟨.float (.finite negative m), same, equal, Iff.rfl⟩
  · refine ⟨.int n, whole, Binary64.equalsInt_of_whole? spells.1, iff_of_false (by simp [negativeZero]) ?_⟩
    intro isNegativeZero
    have positive := spells.2
    rw [Number.float.inj isNegativeZero] at positive
    cases positive

/-- A number is written without an exponent, and what is read back is one constant: an equal number, and negative zero
only for negative zero. -/
theorem numberForm_reads {x : Number} (digits : x.HasDigits) :
    ∃ shown y, x.toValue.numberForm = .ok shown ∧ Numeral.IsPositional shown ∧
      Node.parse shown = .ok (.constant (Number.toValue y)) ∧ y.equals x = true ∧
      (y = negativeZero ↔ x = negativeZero) := by
  cases digits with
  | int n short =>
    have written : (Number.int n).toValue.numberForm = .ok (Numeral.ofInt n) := by
      show Outcome.ofDigits (Numeral.ofInt? n) = _
      rw [Numeral.ofInt?_of_isShort short]
      rfl
    have read := Node.parse_of_spells (Node.spells_int short)
    have equal : (Number.int n).equals (.int n) = true := beq_self_eq_true n
    exact ⟨_, .int n, written, Numeral.isPositional_ofInt n, read, equal, Iff.rfl⟩
  | finite negative m =>
    obtain ⟨y, value, equal, zero⟩ := exists_respelled negative m
    have read := Node.parse_of_spells (Node.spells_finite negative m)
    rw [value] at read
    exact ⟨_, y, rfl, Numeral.isPositional_ofBinary64 negative m, read, equal, zero⟩

/-- Negative zero comes back with its sign. -/
theorem numberForm_reads_negativeZero :
    HasDigits negativeZero ∧ negativeZero.toValue.numberForm = .ok "-0" ∧ Numeral.IsPositional "-0" ∧
      Node.parse "-0" = .ok (.constant negativeZero.toValue) := by
  have digits : HasDigits negativeZero := .finite true .zero
  have text : Numeral.ofBinary64 (.finite true .zero) = "-0" := by decide +kernel
  have written : negativeZero.toValue.numberForm = .ok "-0" := congrArg Except.ok text
  obtain ⟨shown, y, form, positional, read, -, zero⟩ := numberForm_reads digits
  obtain rfl : "-0" = shown := Except.ok.inj (written.symm.trans form)
  rw [zero.mpr rfl] at read
  exact ⟨digits, written, positional, read⟩

end Number
end Reckoner
