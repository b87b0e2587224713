import Reckoner.Proofs.Token.Behind
/-!
# The words of each kind of token

What a token of a kind can be is a language of its own (`IsWord`), said without the scanner. The scanner finds a word of
the kind that it answers (`isWord_lexeme`), and wherever a known kind has a word, the scanner answers this kind and a
word at least as long (`lexeme_of_isWord`). Numbers and names alone can have several words at one place.
-/
namespace Reckoner.Token

/-- What may stand between two quotes: code points other than the quote and the backslash, and backslashes that take any
code point along. -/
inductive IsInner (q : CodePoint) : Text → Prop where
  | nil : IsInner q []
  | escape (d : CodePoint) {rest : Text} (more : IsInner q rest) : IsInner q (.scalar '\\' :: d :: rest)
  | plain {c : CodePoint} {rest : Text} (notQuote : c ≠ q) (notEscape : c ≠ .scalar '\\') (more : IsInner q rest) :
      IsInner q (c :: rest)

/-- The words of a kind. -/
inductive IsWord : TokenKind → Text → Prop where
  /-- Digits with at most one point among them, and at least one digit. -/
  | number {word : Text} (isNumber : IsNumber word) (digit : ∃ c ∈ word, c.isDigit = true) : IsWord .number word
  | string {q : CodePoint} {inner : Text} (quote : IsQuote q) (isInner : IsInner q inner) :
      IsWord .string (q :: (inner ++ [q]))
  | leftParen : IsWord .leftParen [.scalar '(']
  | rightParen : IsWord .rightParen [.scalar ')']
  | comma : IsWord .comma [.scalar ',']
  | operator (op : Operator) : IsWord .operator op.symbol
  | name {word : Text} (isName : word.IsName) : IsWord .name word
  | unknown {c : CodePoint} (visible : c.isBlank = false) : IsWord .unknown [c]

variable {c q : CodePoint} {kind : TokenKind} {word inner s rest : Text} {n : Nat}

theorem IsQuote.ne_escape (quote : IsQuote q) : q ≠ .scalar '\\' := by
  rcases quote with rfl | rfl <;> decide

theorem IsQuote.visible (quote : IsQuote q) : q.isBlank = false := by
  rcases quote with rfl | rfl <;> decide

/-- A quoted text ends with the quote behind what may stand between quotes. -/
theorem stringRun?_of_isInner (quote : IsQuote q) (isInner : IsInner q inner) (more : Text) :
    stringRun? q (inner ++ q :: more) = some (inner.length + 1) := by
  induction isInner with
  | nil =>
    rw [List.nil_append, stringRun?.eq_def]
    simp
  | escape d rest ih =>
    rw [List.cons_append, List.cons_append, stringRun?.eq_def]
    simp [quote.ne_escape.symm, ih]
  | plain notQuote notEscape rest ih =>
    rw [List.cons_append, stringRun?.eq_def]
    simp [notQuote, notEscape, ih]

theorem isInner_of_stringRun? (h : stringRun? q rest = some n) :
    ∃ inner behind, rest = inner ++ q :: behind ∧ inner.length + 1 = n ∧ IsInner q inner := by
  fun_induction stringRun? q rest generalizing n with
  | case1 => cases h
  | case2 s =>
    cases h
    exact ⟨[], s, rfl, rfl, .nil⟩
  | case3 => cases h
  | case4 d s notQuote ih =>
    obtain ⟨m, run, rfl⟩ := Option.map_eq_some_iff.mp h
    obtain ⟨inner, behind, rfl, rfl, isInner⟩ := ih run
    exact ⟨.scalar '\\' :: d :: inner, behind, rfl, rfl, .escape d isInner⟩
  | case5 c s notQuote notEscape ih =>
    obtain ⟨m, run, rfl⟩ := Option.map_eq_some_iff.mp h
    obtain ⟨inner, behind, rfl, rfl, isInner⟩ := ih run
    exact ⟨c :: inner, behind, rfl, rfl, .plain notQuote notEscape isInner⟩

namespace IsWord

theorem ne_nil (isWord : IsWord kind word) : word ≠ [] := by
  cases isWord with
  | number isNumber digit =>
    obtain ⟨c, member, -⟩ := digit
    exact List.ne_nil_of_mem member
  | name isName =>
    rintro rfl
    exact isName
  | operator op => simp [Operator.symbol]
  | _ => simp

/-- Blanks stand in quoted texts alone. -/
theorem visible (isWord : IsWord kind word) (notString : kind ≠ .string) : ∀ c ∈ word, c.isBlank = false := by
  cases isWord with
  | number isNumber digit =>
    rcases isNumber with digits | ⟨whole, fraction, rfl, wholeDigits, fractionDigits⟩
    · exact fun c member => not_isBlank_of_isDigit (digits c member)
    · intro c member
      rcases List.mem_append.mp member with inside | behind
      · exact not_isBlank_of_isDigit (wholeDigits c inside)
      · rcases List.mem_cons.mp behind with rfl | inside
        · decide
        · exact not_isBlank_of_isDigit (fractionDigits c inside)
  | string quote isInner => exact absurd rfl notString
  | operator op => cases op <;> decide
  | @name word isName =>
    cases word with
    | nil => exact isName.elim
    | cons first word =>
      have continues : ∀ c ∈ first :: word, c.continuesName = true := by
        refine List.forall_mem_cons.mpr ⟨?_, isName.2⟩
        rw [CodePoint.continuesName, isName.1, Bool.true_or]
      intro c member
      rcases Bool.or_eq_true_iff.mp (continues c member) with letter | digit
      · have range := CodePoint.opensName_range letter
        exact CodePoint.not_isBlank_of_range (by omega) (by omega)
      · exact not_isBlank_of_isDigit digit
  | unknown visible => simpa using visible
  | _ => decide

/-- No word begins with a blank. -/
theorem head_visible (isWord : IsWord kind (c :: rest)) : c.isBlank = false := by
  by_cases isString : kind = .string
  · subst isString
    cases isWord with
    | string quote isInner => exact quote.visible
  · exact isWord.visible isString c List.mem_cons_self

end IsWord

/-- The scanner finds a word of the kind that it answers. -/
theorem isWord_lexeme (visible : c.isBlank = false) (rest : Text) :
    IsWord (lexeme c rest).1 (c :: rest.take (lexeme c rest).2) := by
  have opens := opens_lexeme c rest
  generalize (lexeme c rest).1 = kind, (lexeme c rest).2 = n at opens ⊢
  cases opens with
  | number digit => exact .number (isNumber_numberRun digit rest) ⟨c, List.mem_cons_self, digit⟩
  | fraction point some =>
    subst point
    refine .number (isNumber_point rest) ?_
    obtain ⟨d, found⟩ := List.exists_mem_of_length_pos (Nat.pos_of_ne_zero some)
    refine ⟨d, ?_, List.mem_takeWhile_imp found⟩
    rw [take_digitRun]
    exact List.mem_cons_of_mem _ found
  | string quote run =>
    obtain ⟨inner, behind, rfl, rfl, isInner⟩ := isInner_of_stringRun? run
    have text : inner ++ c :: behind = (inner ++ [c]) ++ behind := by simp
    have length : inner.length + 1 = (inner ++ [c]).length := by simp
    simp only [text, length, List.take_left]
    exact .string quote isInner
  | leftParen paren =>
    subst paren
    exact .leftParen
  | rightParen paren =>
    subst paren
    exact .rightParen
  | comma comma =>
    subst comma
    exact .comma
  | operator op sign =>
    rw [List.take_zero, sign]
    exact .operator op
  | name opens => exact .name (isName_nameRun opens rest)
  | unknown => exact .unknown visible

/-- The text of a token is a word of its kind. -/
theorem isWord_of_mem_scanFrom {offset : Nat} {s : Text} {t : Token} (member : t ∈ scanFrom offset s) :
    IsWord t.kind t.text := by
  fun_induction scanFrom offset s with
  | case1 => cases member
  | case2 offset c rest blank ih => exact ih member
  | case3 offset c rest visible kind n lex ih =>
    rcases List.mem_cons.mp member with rfl | later
    · simpa [lex] using isWord_lexeme (Bool.eq_false_iff.mpr visible) rest
    · exact ih later

/-- Members of a class at the start of a text are no more than its members there. -/
theorem length_le_takeWhile {p : CodePoint → Bool} (inside : ∀ c ∈ word, p c = true) (starts : word <+: s) :
    word.length ≤ (s.takeWhile p).length := by
  obtain ⟨more, rfl⟩ := starts
  rw [List.takeWhile_append_of_pos inside, List.length_append]
  exact Nat.le_add_right _ _

theorem digitRun_le_numberRun (s : Text) : digitRun s ≤ numberRun s := by
  unfold numberRun
  dsimp only
  split <;> omega

/-- A number goes on over a point and the digits behind it. -/
theorem length_le_numberRun {whole fraction : Text} (wholeDigits : whole.IsDigits) (fractionDigits : fraction.IsDigits)
    (starts : whole ++ .scalar '.' :: fraction <+: s) :
    (whole ++ .scalar '.' :: fraction).length ≤ numberRun s := by
  obtain ⟨more, rfl⟩ := starts
  have all : (whole ++ .scalar '.' :: fraction) ++ more = whole ++ .scalar '.' :: (fraction ++ more) := by simp
  have run := length_le_takeWhile fractionDigits (List.prefix_append fraction more)
  have stops : ∀ d ∈ (.scalar '.' :: (fraction ++ more) : Text).head?, d.isDigit = false := by
    rintro d ⟨⟩
    decide
  unfold numberRun
  simp only [all, digitRun_of_head wholeDigits stops, List.drop_left, List.length_append, List.length_cons]
  simp only [digitRun] at run ⊢
  omega

/-- Digits with at most one point among them, at a place that starts with a digit or else with a point. -/
theorem number_cases (isNumber : IsNumber (c :: word)) (digit : ∃ d ∈ c :: word, d.isDigit = true) :
    c.isDigit = true ∧ (word.IsDigits ∨ ∃ whole fraction : Text, word = whole ++ .scalar '.' :: fraction ∧
        whole.IsDigits ∧ fraction.IsDigits) ∨
      c = .scalar '.' ∧ word.IsDigits ∧ word ≠ [] := by
  rcases isNumber with digits | ⟨whole, fraction, split, wholeDigits, fractionDigits⟩
  · exact .inl ⟨digits c (by simp), .inl fun d member => digits d (by simp [member])⟩
  · cases whole with
    | nil =>
      obtain ⟨rfl, rfl⟩ := List.cons.inj split
      refine .inr ⟨rfl, fractionDigits, ?_⟩
      rintro rfl
      simp [show CodePoint.isDigit (.scalar '.') = false by decide] at digit
    | cons first whole =>
      obtain ⟨rfl, rfl⟩ := List.cons.inj split
      exact .inl ⟨wholeDigits c (by simp), .inr ⟨whole, fraction, rfl,
        fun d member => wholeDigits d (by simp [member]), fractionDigits⟩⟩

theorem lexeme_of_isNumber (isNumber : IsNumber (c :: word)) (digit : ∃ d ∈ c :: word, d.isDigit = true)
    (starts : word <+: rest) : (lexeme c rest).1 = .number ∧ word.length ≤ (lexeme c rest).2 := by
  rcases number_cases isNumber digit with ⟨opens, digits | ⟨before, fraction, rfl, beforeDigits, fractionDigits⟩⟩ |
      ⟨rfl, digits, nonempty⟩
  · rw [lexeme_digit opens]
    exact ⟨rfl, (length_le_takeWhile digits starts).trans (digitRun_le_numberRun rest)⟩
  · rw [lexeme_digit opens]
    exact ⟨rfl, length_le_numberRun beforeDigits fractionDigits starts⟩
  · have run : word.length ≤ digitRun rest := length_le_takeWhile digits starts
    have positive := List.length_pos_of_ne_nil nonempty
    have some : digitRun rest ≠ 0 := by omega
    have lex : lexeme (.scalar '.') rest = (.number, digitRun rest) := by
      rw [lexeme, if_neg (by decide), if_pos rfl, if_neg some]
    rw [lex]
    exact ⟨rfl, run⟩

/-- Where a known kind has a word the scanner answers this kind, and a word at least as long. Only of numbers and names
there can be longer ones. -/
theorem lexeme_of_isWord (isWord : IsWord kind (c :: word)) (known : kind ≠ .unknown) (starts : word <+: rest) :
    (lexeme c rest).1 = kind ∧ word.length ≤ (lexeme c rest).2 ∧
      ((lexeme c rest).2 = word.length ∨ kind = .number ∨ kind = .name) := by
  generalize whole : c :: word = t at isWord
  cases isWord with
  | number isNumber digit =>
    subst whole
    obtain ⟨kind, length⟩ := lexeme_of_isNumber isNumber digit starts
    exact ⟨kind, length, .inr (.inl rfl)⟩
  | string quote isInner =>
    obtain ⟨rfl, rfl⟩ := List.cons.inj whole
    obtain ⟨more, rfl⟩ := starts
    rw [lexeme_quote quote, List.append_assoc, List.singleton_append, stringRun?_of_isInner quote isInner]
    simp
  | operator op =>
    obtain ⟨rfl, rfl⟩ := List.cons.inj whole
    cases op <;> exact ⟨rfl, Nat.zero_le _, .inl rfl⟩
  | name isName =>
    subst whole
    obtain ⟨opens, continues⟩ := isName
    rw [lexeme_name opens]
    exact ⟨rfl, length_le_takeWhile continues starts, .inr (.inr rfl)⟩
  | unknown visible => exact absurd rfl known
  | _ =>
    obtain ⟨rfl, rfl⟩ := List.cons.inj whole
    exact ⟨rfl, Nat.zero_le _, .inl rfl⟩

end Reckoner.Token
