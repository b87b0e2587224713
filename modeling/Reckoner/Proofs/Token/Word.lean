import Reckoner.Proofs.Token.Lexeme
/-!
# Words that are one token

A word is scanned as one token when nothing behind it belongs to the token. In a rendering a blank or the end of the
text follows every word, and that is enough for digits, numbers with a point, names and quoted texts.
-/
namespace Reckoner

namespace CodePoint

/-- The code points that open a name, by number. -/
theorem opensName_range {c : CodePoint} (h : c.opensName = true) :
    c.toNat = 36 ∨ c.toNat = 95 ∨ (65 ≤ c.toNat ∧ c.toNat ≤ 90) ∨ (97 ≤ c.toNat ∧ c.toNat ≤ 122) := by
  cases c with
  | surrogate offset => cases h
  | scalar c =>
    have classes : ((c.isUpper || c.isLower) || c == '_' || c == '$') = true := h
    simp only [Bool.or_eq_true, beq_iff_eq] at classes
    rcases classes with ((upper | lower) | rfl) | rfl
    · have bounds : c.val ≥ 65 ∧ c.val ≤ 90 := of_decide_eq_true upper
      exact .inr (.inr (.inl ⟨bounds.1, bounds.2⟩))
    · have bounds : (decide (c.val ≥ 97) && decide (c.val ≤ 122)) = true := lower
      rw [Bool.and_eq_true, decide_eq_true_eq, decide_eq_true_eq] at bounds
      exact .inr (.inr (.inr ⟨bounds.1, bounds.2⟩))
    · exact .inr (.inl rfl)
    · exact .inl rfl

theorem isDigit_range {c : CodePoint} (h : c.isDigit = true) : 48 ≤ c.toNat ∧ c.toNat ≤ 57 := by
  cases c with
  | surrogate offset => cases h
  | scalar c =>
    simp only [isDigit, Char.isDigit, Bool.and_eq_true, decide_eq_true_eq] at h
    exact ⟨h.1, h.2⟩

theorem not_isBlank_of_range {c : CodePoint} (low : 33 ≤ c.toNat) (high : c.toNat ≤ 126) : c.isBlank = false := by
  simp only [isBlank, Bool.or_eq_false_iff, Bool.and_eq_false_iff, decide_eq_false_iff_not, beq_eq_false_iff_ne]
  omega

/-- A code point that opens a name is none of the others the scanner asks for. -/
theorem ne_of_opensName {c : CodePoint} (h : c.opensName = true) {d : CodePoint} (other : d.opensName = false) :
    c ≠ d := by
  rintro rfl
  rw [h] at other
  cases other

theorem not_isDigit_of_opensName {c : CodePoint} (h : c.opensName = true) : c.isDigit = false := by
  by_contra digit
  have letter := opensName_range h
  have number := isDigit_range (Bool.not_eq_false _ ▸ digit)
  omega

end CodePoint

namespace Token

/-- A text goes on with a blank, or it does not go on. -/
def Ends (rest : Text) : Prop := rest = [] ∨ ∃ more, rest = .scalar ' ' :: more

theorem Ends.nil : Ends [] := .inl rfl

theorem Ends.blank (more : Text) : Ends (.scalar ' ' :: more) := .inr ⟨more, rfl⟩

/-- A word is scanned as one token of the kind. -/
def ScansAs (kind : TokenKind) (word : Text) : Prop :=
  ∀ (offset : Nat) (rest : Text), Ends rest →
    scanFrom offset (word ++ rest) = ⟨kind, word, some offset⟩ :: scanFrom (offset + word.length) rest

theorem scanFrom_blank (offset : Nat) (rest : Text) :
    scanFrom offset (.scalar ' ' :: rest) = scanFrom (offset + 1) rest := by
  rw [scanFrom, if_pos (by decide)]

theorem scanFrom_cons (offset : Nat) {c : CodePoint} {word rest : Text} {kind : TokenKind} (visible : c.isBlank = false)
    (lex : lexeme c (word ++ rest) = (kind, word.length)) :
    scanFrom offset (c :: (word ++ rest)) =
      ⟨kind, c :: word, some offset⟩ :: scanFrom (offset + (word.length + 1)) rest := by
  rw [scanFrom, if_neg (by simp [visible]), lex]
  simp only [List.take_left, List.drop_left]
  rw [Nat.add_assoc, Nat.add_comm 1]

theorem takeWhile_of_head {p : CodePoint → Bool} {u : Text} (stops : ∀ d ∈ u.head?, p d = false) :
    u.takeWhile p = [] := by
  cases u with
  | nil => rfl
  | cons d u => rw [List.takeWhile_cons_of_neg (by simp [stops d rfl])]

theorem Ends.head {p : CodePoint → Bool} {rest : Text} (ends : Ends rest) (blank : p (.scalar ' ') = false) :
    ∀ d ∈ rest.head?, p d = false := by
  rcases ends with rfl | ⟨more, rfl⟩
  · simp
  · simpa using blank

/-- What belongs to a word stops at its end. -/
theorem takeWhile_ends {p : CodePoint → Bool} {t rest : Text} (inside : ∀ c ∈ t, p c = true)
    (blank : p (.scalar ' ') = false) (ends : Ends rest) : (t ++ rest).takeWhile p = t := by
  rw [List.takeWhile_append_of_pos inside, takeWhile_of_head (ends.head blank), List.append_nil]

theorem digitRun_of_head {t u : Text} (digits : t.IsDigits) (stops : ∀ d ∈ u.head?, d.isDigit = false) :
    digitRun (t ++ u) = t.length := by
  rw [digitRun, List.takeWhile_append_of_pos digits, takeWhile_of_head stops, List.append_nil]

theorem numberRun_whole {t u : Text} (digits : t.IsDigits)
    (stops : ∀ d ∈ u.head?, d.isDigit = false ∧ d ≠ .scalar '.') : numberRun (t ++ u) = t.length := by
  have whole := digitRun_of_head digits fun d head => (stops d head).1
  unfold numberRun
  simp only [whole, List.drop_left]
  split
  next => exact absurd rfl (stops _ rfl).2
  next => rfl

theorem numberRun_pointed {whole fraction u : Text} (wholeDigits : whole.IsDigits) (fractionDigits : fraction.IsDigits)
    (stops : ∀ d ∈ u.head?, d.isDigit = false) :
    numberRun (whole ++ .scalar '.' :: (fraction ++ u)) = (whole ++ .scalar '.' :: fraction).length := by
  have point : ∀ d ∈ (.scalar '.' :: (fraction ++ u) : Text).head?, d.isDigit = false := by
    rintro d ⟨⟩
    decide
  unfold numberRun
  simp only [digitRun_of_head wholeDigits point, List.drop_left, digitRun_of_head fractionDigits stops,
    List.length_append, List.length_cons]
  omega

theorem lexeme_digit {c : CodePoint} (digit : c.isDigit = true) (rest : Text) :
    lexeme c rest = (.number, numberRun rest) := by
  rw [lexeme, if_pos digit]

theorem not_isBlank_of_isDigit {c : CodePoint} (digit : c.isDigit = true) : c.isBlank = false := by
  have range := CodePoint.isDigit_range digit
  exact CodePoint.not_isBlank_of_range (by omega) (by omega)

theorem scansAs_digits {t : Text} (digits : t.IsDigits) (nonempty : t ≠ []) : ScansAs .number t := by
  intro offset rest ends
  match t, nonempty with
  | c :: word, _ =>
    have digit := digits c (by simp)
    have inside : Text.IsDigits word := fun d member => digits d (by simp [member])
    have stops : ∀ d ∈ rest.head?, d.isDigit = false ∧ d ≠ .scalar '.' := by
      rcases ends with rfl | ⟨more, rfl⟩
      · simp
      · rintro d ⟨⟩
        exact ⟨by decide, by decide⟩
    have run := numberRun_whole inside stops
    exact scanFrom_cons offset (not_isBlank_of_isDigit digit) (by rw [lexeme_digit digit, run])

theorem scansAs_pointed {whole fraction : Text} (wholeDigits : whole.IsDigits) (nonempty : whole ≠ [])
    (fractionDigits : fraction.IsDigits) : ScansAs .number (whole ++ .scalar '.' :: fraction) := by
  intro offset rest ends
  match whole, nonempty with
  | c :: word, _ =>
    have digit := wholeDigits c (by simp)
    have run : numberRun (word ++ .scalar '.' :: fraction ++ rest) = (word ++ .scalar '.' :: fraction).length := by
      rw [List.append_assoc, List.cons_append]
      exact numberRun_pointed (fun d member => wholeDigits d (by simp [member])) fractionDigits (ends.head (by decide))
    have lex : lexeme c (word ++ .scalar '.' :: fraction ++ rest) =
        (.number, (word ++ .scalar '.' :: fraction).length) := by rw [lexeme_digit digit, run]
    exact scanFrom_cons offset (not_isBlank_of_isDigit digit) lex

theorem lexeme_name {c : CodePoint} (opens : c.opensName = true) (rest : Text) :
    lexeme c rest = (.name, nameRun rest) := by
  have noSign : (Operator.ofSymbol? [c]).isSome = false := by
    cases named : Operator.ofSymbol? [c] with
    | none => rfl
    | some op =>
      have sign : c = .scalar op.sign := by simpa [Operator.symbol] using Operator.ofSymbol?_eq_some named
      exact absurd sign (CodePoint.ne_of_opensName opens (by cases op <;> decide))
  have notQuote : ¬(c = .scalar '"' ∨ c = .scalar '\'') := by
    rintro (quote | quote)
    · exact CodePoint.ne_of_opensName opens (by decide) quote
    · exact CodePoint.ne_of_opensName opens (by decide) quote
  rw [lexeme, if_neg (by simp [CodePoint.not_isDigit_of_opensName opens]),
    if_neg (CodePoint.ne_of_opensName opens (by decide)), if_neg notQuote,
    if_neg (CodePoint.ne_of_opensName opens (by decide)), if_neg (CodePoint.ne_of_opensName opens (by decide)),
    if_neg (CodePoint.ne_of_opensName opens (by decide)), if_neg (by simp [noSign]), if_pos opens]

theorem lexeme_quote {q : CodePoint} (quote : IsQuote q) (rest : Text) :
    lexeme q rest = match stringRun? q rest with
      | some n => (.string, n)
      | none => (.unknown, 0) := by
  rcases quote with rfl | rfl <;> rfl

/-- What a code point opens depends on the text behind it through the runs of that text alone. -/
theorem lexeme_congr {c : CodePoint} {s t : Text}
    (number : numberRun s = numberRun t) (digits : digitRun s = digitRun t)
    (string : IsQuote c → stringRun? c s = stringRun? c t) (name : c.opensName = true → nameRun s = nameRun t) :
    lexeme c s = lexeme c t := by
  by_cases quote : IsQuote c
  · rw [lexeme_quote quote, lexeme_quote quote, string quote]
  by_cases opens : c.opensName = true
  · rw [lexeme_name opens, lexeme_name opens, name opens]
  · have noQuote : ¬(c = .scalar '"' ∨ c = .scalar '\'') := quote
    unfold lexeme
    rw [number, digits]
    simp only [if_neg noQuote, if_neg opens]

theorem scansAs_name {t : Text} (isName : t.IsName) : ScansAs .name t := by
  intro offset rest ends
  cases t with
  | nil => exact isName.elim
  | cons c word =>
    obtain ⟨opens, continues⟩ := isName
    have range := CodePoint.opensName_range opens
    have visible : c.isBlank = false := CodePoint.not_isBlank_of_range (by omega) (by omega)
    have run : nameRun (word ++ rest) = word.length := by
      rw [nameRun, takeWhile_ends continues (by decide) ends]
    exact scanFrom_cons offset visible (by rw [lexeme_name opens, run])

/-- A single code point that is a token of its own, whatever follows. -/
theorem scanFrom_single (offset : Nat) {c : CodePoint} {kind : TokenKind} (visible : c.isBlank = false)
    (lex : ∀ rest, lexeme c rest = (kind, 0)) (rest : Text) :
    scanFrom offset (c :: rest) = ⟨kind, [c], some offset⟩ :: scanFrom (offset + 1) rest := by
  have empty : lexeme c ([] ++ rest) = (kind, List.length (α := CodePoint) []) := lex rest
  exact scanFrom_cons offset visible empty

end Token
end Reckoner
