import Reckoner.Item.Literal
import Reckoner.Text.Quoted
import Reckoner.Proofs.Token.Word
/-!
# Quoted text reads back

Between its quotes a text shows no bare quote and no bare backslash, so the scanner takes the quotation as one string
token, and resolving the escapes gives the text again, code point by code point.
-/
namespace Reckoner

namespace Text

/-- Neither a double quote nor a backslash. -/
def IsPlain (c : CodePoint) : Prop := c ≠ .scalar '"' ∧ c ≠ .scalar '\\'

/-- How a code point is quoted: by a letter, by four hexadecimal digits, or as it is. -/
inductive QuotedAs (c : CodePoint) : Text → Prop where
  | letter (letter : Char) (notUnit : letter ≠ 'u') (stands : Literal.escaped (.scalar letter) = c) :
      QuotedAs c [.scalar '\\', .scalar letter]
  | unit (a b d e : CodePoint) (plain : ∀ x ∈ [a, b, d, e], IsPlain x) (number : hexNumber? [a, b, d, e] = some c.toNat) :
      QuotedAs c [.scalar '\\', .scalar 'u', a, b, d, e]
  | plain (isPlain : IsPlain c) : QuotedAs c [c]

theorem hex_control : ∀ n < 32, (hex 4 n).length = 4 ∧ hexNumber? (hex 4 n) = some n ∧
    ∀ x ∈ hex 4 n, x ≠ .scalar '"' ∧ x ≠ .scalar '\\' := by decide +kernel

theorem escapeLetter?_eq_some {c : CodePoint} {letter : Char} (h : c.escapeLetter? = some letter) :
    letter ≠ 'u' ∧ Literal.escaped (.scalar letter) = c := by
  unfold CodePoint.escapeLetter? at h
  split at h <;> cases h <;> decide

theorem isPlain_of_escapeLetter? {c : CodePoint} (h : c.escapeLetter? = none) : IsPlain c := by
  refine ⟨?_, ?_⟩
  · rintro rfl
    cases h
  · rintro rfl
    cases h

theorem quotedAs_quotedChar (c : CodePoint) : QuotedAs c (quotedChar .unicode c) := by
  unfold quotedChar
  cases letter : c.escapeLetter? with
  | some l =>
    obtain ⟨notUnit, stands⟩ := escapeLetter?_eq_some letter
    exact .letter l notUnit stands
  | none =>
    by_cases control : c.toNat < 32
    · obtain ⟨length, number, plain⟩ := hex_control c.toNat control
      have unit : unitEscapes c.toNat = .scalar '\\' :: .scalar 'u' :: hex 4 c.toNat := by
        rw [unitEscapes, if_pos (by omega), unitEscape]
      simp only [control, true_or, if_true, unit]
      match hex 4 c.toNat, length, number, plain with
      | [a, b, d, e], _, number, plain => exact .unit a b d e plain number
    · simp only [control, reduceCtorEq, false_and, or_self, if_false]
      exact .plain (isPlain_of_escapeLetter? letter)

end Text

namespace Token

theorem stringRun?_plain {c : CodePoint} (plain : Text.IsPlain c) (rest : Text) :
    stringRun? (.scalar '"') (c :: rest) = (stringRun? (.scalar '"') rest).map (· + 1) := by
  rw [stringRun?.eq_def]
  simp only [plain.1, plain.2, if_false]

theorem stringRun?_escape (c : CodePoint) (rest : Text) :
    stringRun? (.scalar '"') (.scalar '\\' :: c :: rest) = (stringRun? (.scalar '"') rest).map (· + 2) := by
  rw [stringRun?.eq_def]
  simp only [CodePoint.scalar.injEq, Char.reduceEq, if_false, if_true]

/-- The scanner passes over a quoted code point. -/
theorem stringRun?_quotedAs {c : CodePoint} {shown : Text} (h : Text.QuotedAs c shown) (rest : Text) :
    stringRun? (.scalar '"') (shown ++ rest) = (stringRun? (.scalar '"') rest).map (· + shown.length) := by
  cases h with
  | letter letter _ _ => exact stringRun?_escape _ rest
  | unit a b d e plain _ =>
    simp only [List.cons_append, List.nil_append]
    rw [stringRun?_escape, stringRun?_plain (plain a (by simp)), stringRun?_plain (plain b (by simp)),
      stringRun?_plain (plain d (by simp)), stringRun?_plain (plain e (by simp))]
    simp [Function.comp_def]
  | plain isPlain => exact stringRun?_plain isPlain rest

theorem stringRun?_quoted (t rest : Text) :
    stringRun? (.scalar '"') (t.flatMap (Text.quotedChar .unicode) ++ .scalar '"' :: rest) =
      some ((t.flatMap (Text.quotedChar .unicode)).length + 1) := by
  induction t with
  | nil => rw [List.flatMap_nil, List.nil_append, stringRun?.eq_def]; simp
  | cons c t ih =>
    rw [List.flatMap_cons, List.append_assoc, stringRun?_quotedAs (Text.quotedAs_quotedChar c), ih]
    simp only [Option.map_some, List.length_append, Option.some.injEq]
    omega

/-- A quoted text is one string token, whatever stands behind it. -/
theorem scanFrom_quoted (t : Text) (offset : Nat) (rest : Text) :
    scanFrom offset (t.quoted .unicode ++ rest) =
      ⟨.string, t.quoted .unicode, some offset⟩ :: scanFrom (offset + (t.quoted .unicode).length) rest := by
  have lex : lexeme (.scalar '"') (t.flatMap (Text.quotedChar .unicode) ++ [CodePoint.scalar '"'] ++ rest) =
      (.string, (t.flatMap (Text.quotedChar .unicode) ++ [CodePoint.scalar '"']).length) := by
    have run := stringRun?_quoted t rest
    rw [List.append_assoc, List.singleton_append, lexeme, if_neg (by decide), if_neg (by decide),
      if_pos (.inl rfl), run]
    simp
  exact scanFrom_cons offset (by decide) lex

theorem scansAs_quoted (t : Text) : ScansAs .string (t.quoted .unicode) := fun offset rest _ =>
  scanFrom_quoted t offset rest

end Token

namespace Literal

theorem unescape_quotedAs {c : CodePoint} {shown : Text} (h : Text.QuotedAs c shown) (rest : Text) :
    unescape (shown ++ rest) = c :: unescape rest := by
  cases h with
  | letter letter notUnit stands =>
    have notU : CodePoint.scalar letter ≠ .scalar 'u' := by simpa using notUnit
    rw [List.cons_append, unescape.eq_def]
    simp only [if_true, List.singleton_append]
    split
    next same => cases same
    next same =>
      cases same
      exact absurd rfl notU
    next d after _ same =>
      cases same
      rw [stands]
  | unit a b d e plain number =>
    simp only [List.cons_append, List.nil_append]
    rw [unescape.eq_def]
    simp only [if_true, number, CodePoint.ofNat_toNat]
  | plain isPlain =>
    rw [List.singleton_append, unescape.eq_def]
    simp only [isPlain.2, if_false]

theorem unescape_quoted (t : Text) : unescape (t.flatMap (Text.quotedChar .unicode)) = t := by
  induction t with
  | nil => rfl
  | cons c t ih => rw [List.flatMap_cons, unescape_quotedAs (Text.quotedAs_quotedChar c), ih]

/-- A quoted text is the text between its quotes. -/
theorem decodeString_quoted (t : Text) : decodeString (t.quoted .unicode) = t := by
  have inside : ((t.quoted .unicode).drop 1).dropLast = t.flatMap (Text.quotedChar .unicode) := by
    rw [Text.quoted, List.cons_append, List.drop_one, List.tail_cons, List.dropLast_concat]
  rw [decodeString, inside, unescape_quoted]

end Literal
end Reckoner
