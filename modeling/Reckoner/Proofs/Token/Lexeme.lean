import Reckoner.Token.Scan
import Reckoner.Proofs.Numeral.Digits
import Mathlib.Data.List.TakeWhile
/-!
# What scanned tokens look like

What a code point opens is one of a few cases (`opens_lexeme`), on which later proofs split. Every token that is scanned
has a position and the text of its kind: a number is a run of digits with at most one point in it, a name opens and goes
on as names do, and an operator is one of the four signs (`isLexeme_lexeme`).
-/
namespace Reckoner

namespace Text

/-- A text that may stand for a name. -/
def IsName : Text → Prop
  | [] => False
  | c :: rest => c.opensName = true ∧ ∀ d ∈ rest, d.continuesName = true

end Text

namespace Token

/-- A code point that opens and closes a quoted text. -/
def IsQuote (q : CodePoint) : Prop := q = .scalar '"' ∨ q = .scalar '\''

/-- The kinds of token that `c` may open before `rest`, and how many code points of `rest` belong to them. -/
inductive Opens (c : CodePoint) (rest : Text) : TokenKind → Nat → Prop where
  | number (digit : c.isDigit = true) : Opens c rest .number (numberRun rest)
  | fraction (point : c = .scalar '.') (some : digitRun rest ≠ 0) : Opens c rest .number (digitRun rest)
  | string {n : Nat} (quote : IsQuote c) (run : stringRun? c rest = some n) : Opens c rest .string n
  | leftParen (paren : c = .scalar '(') : Opens c rest .leftParen 0
  | rightParen (paren : c = .scalar ')') : Opens c rest .rightParen 0
  | comma (comma : c = .scalar ',') : Opens c rest .comma 0
  | operator (op : Operator) (sign : [c] = op.symbol) : Opens c rest .operator 0
  | name (opens : c.opensName = true) : Opens c rest .name (nameRun rest)
  | unknown : Opens c rest .unknown 0

/-- One case for each branch of the scanner. -/
theorem opens_lexeme (c : CodePoint) (rest : Text) : Opens c rest (lexeme c rest).1 (lexeme c rest).2 := by
  unfold lexeme
  split_ifs with digit point empty quote left right comma symbol name
  · exact .number digit
  · exact .unknown
  · exact .fraction point empty
  · cases run : stringRun? c rest with
    | none => exact .unknown
    | some n => exact .string quote run
  · exact .leftParen left
  · exact .rightParen right
  · exact .comma comma
  · obtain ⟨op, named⟩ := Option.isSome_iff_exists.mp symbol
    exact .operator op (Operator.ofSymbol?_eq_some named)
  · exact .name name
  · exact .unknown

/-- Digits, or two runs of digits with a point between them. -/
def IsNumber (t : Text) : Prop :=
  t.IsDigits ∨ ∃ whole fraction : Text, t = whole ++ .scalar '.' :: fraction ∧ whole.IsDigits ∧ fraction.IsDigits

/-- The token has a position, and the text that goes with its kind. -/
structure IsLexeme (t : Token) : Prop where
  position : t.position.isSome
  number : t.kind = .number → IsNumber t.text
  name : t.kind = .name → t.text.IsName
  operator : t.kind = .operator → ∃ op : Operator, t.text = op.symbol
  comma : t.kind = .comma → t.text = [.scalar ',']

theorem take_digitRun (t : Text) : t.take (digitRun t) = t.takeWhile CodePoint.isDigit :=
  (List.prefix_iff_eq_take.mp (List.takeWhile_prefix _)).symm

theorem isDigits_takeWhile (t : Text) : Text.IsDigits (t.takeWhile CodePoint.isDigit) :=
  fun _ member => List.mem_takeWhile_imp member

/-- The rest of a number behind its first digit. -/
theorem isNumber_numberRun {c : CodePoint} (digit : c.isDigit = true) (rest : Text) :
    IsNumber (c :: rest.take (numberRun rest)) := by
  have whole : Text.IsDigits (c :: rest.takeWhile CodePoint.isDigit) := by
    intro d member
    rcases List.mem_cons.mp member with rfl | member
    · exact digit
    · exact isDigits_takeWhile rest d member
  unfold numberRun
  dsimp only
  split
  next fraction behind =>
    refine .inr ⟨_, _, ?_, whole, isDigits_takeWhile fraction⟩
    rw [Nat.add_assoc, List.take_add, take_digitRun, behind, Nat.add_comm 1, List.take_succ_cons, take_digitRun]
    rfl
  next => exact .inl (by rwa [take_digitRun])

/-- A digit run behind a point. -/
theorem isNumber_point (rest : Text) : IsNumber (.scalar '.' :: rest.take (digitRun rest)) := by
  refine .inr ⟨[], rest.takeWhile CodePoint.isDigit, ?_, fun c member => (List.not_mem_nil member).elim,
    isDigits_takeWhile rest⟩
  rw [take_digitRun]
  rfl

theorem isName_nameRun {c : CodePoint} (opens : c.opensName = true) (rest : Text) :
    Text.IsName (c :: rest.take (nameRun rest)) := by
  refine ⟨opens, fun d member => ?_⟩
  have run : rest.take (nameRun rest) = rest.takeWhile CodePoint.continuesName :=
    (List.prefix_iff_eq_take.mp (List.takeWhile_prefix _)).symm
  rw [run] at member
  exact List.mem_takeWhile_imp member

theorem isLexeme_lexeme (c : CodePoint) (rest : Text) (offset : Nat) :
    IsLexeme ⟨(lexeme c rest).1, c :: rest.take (lexeme c rest).2, some offset⟩ := by
  have opens := opens_lexeme c rest
  generalize (lexeme c rest).1 = kind, (lexeme c rest).2 = n at opens ⊢
  -- each case says something about its own kind alone
  cases opens with
  | number digit => exact ⟨rfl, fun _ => isNumber_numberRun digit rest, by simp, by simp, by simp⟩
  | fraction point some =>
    subst point
    exact ⟨rfl, fun _ => isNumber_point rest, by simp, by simp, by simp⟩
  | comma comma => exact ⟨rfl, by simp, by simp, by simp, by simp [comma]⟩
  | operator op sign => exact ⟨rfl, by simp, by simp, fun _ => ⟨op, sign⟩, by simp⟩
  | name opens => exact ⟨rfl, by simp, fun _ => isName_nameRun opens rest, by simp, by simp⟩
  | _ => exact ⟨rfl, by simp, by simp, by simp, by simp⟩

theorem isLexeme_of_mem_scanFrom {offset : Nat} {s : Text} {t : Token} (member : t ∈ scanFrom offset s) :
    t.IsLexeme := by
  fun_induction scanFrom offset s with
  | case1 => cases member
  | case2 offset c rest blank ih => exact ih member
  | case3 offset c rest notBlank kind n found ih =>
    rcases List.mem_cons.mp member with rfl | member
    · simpa [found] using isLexeme_lexeme c rest offset
    · exact ih member

theorem isLexeme_of_mem_scan {s : Text} {t : Token} (member : t ∈ scan s) : t.IsLexeme :=
  isLexeme_of_mem_scanFrom member

end Token
end Reckoner
