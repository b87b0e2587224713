import Reckoner.Proofs.Token.Append
/-!
# What stands behind a token

A token ends where it does because of the one code point behind it, which does not go on with it. So it ends there too
when something else is written behind it, as long as that starts with the same code point or with a blank
(`lexeme_next`).
-/
namespace Reckoner.Token

variable {p : CodePoint → Bool} {c : CodePoint} {s u v rest : Text} {n : Nat}

/-- The text goes on like another one, or with a blank. -/
def GoesOnAs (u v : Text) : Prop := u.head? = v.head? ∨ u.head? = some (.scalar ' ')

theorem GoesOnAs.head (next : GoesOnAs u v) (stops : ∀ d ∈ v.head?, p d = false) (blank : p (.scalar ' ') = false) :
    ∀ d ∈ u.head?, p d = false := by
  intro d head
  rcases next with same | goesOn
  · exact stops d (same ▸ head)
  · rw [goesOn] at head
    cases head
    exact blank

theorem dropWhile_head (p : CodePoint → Bool) (t : Text) : ∀ d ∈ (t.dropWhile p).head?, p d = false := by
  intro d head
  have stops := List.head?_dropWhile_not p t
  rw [Option.mem_def.mp head] at stops
  simpa using stops

/-- A run that ends with a text ends there before another one that goes on like the first. -/
theorem takeWhile_next (run : ((s ++ v).takeWhile p).length = s.length) (next : GoesOnAs u v)
    (blank : p (.scalar ' ') = false) : (s ++ u).takeWhile p = s := by
  have ends := List.append_inj (List.takeWhile_append_dropWhile (p := p) (l := s ++ v)) run
  have inside : ∀ d ∈ s, p d = true := fun d member => List.mem_takeWhile_imp (ends.1 ▸ member)
  have behind : ∀ d ∈ v.head?, p d = false := ends.2 ▸ dropWhile_head p (s ++ v)
  rw [List.takeWhile_append_of_pos inside, takeWhile_of_head (next.head behind blank), List.append_nil]

theorem digitRun_next (run : digitRun (s ++ v) = s.length) (next : GoesOnAs u v) : digitRun (s ++ u) = s.length := by
  rw [digitRun, takeWhile_next run next (by decide)]

theorem drop_length_takeWhile (p : CodePoint → Bool) (t : Text) : t.drop (t.takeWhile p).length = t.dropWhile p := by
  have byLength := List.prefix_iff_eq_append.mp (List.takeWhile_prefix (l := t) p)
  exact List.append_cancel_left (byLength.trans List.takeWhile_append_dropWhile.symm)

theorem drop_digitRun (t : Text) : t.drop (digitRun t) = t.dropWhile CodePoint.isDigit :=
  drop_length_takeWhile CodePoint.isDigit t

/-- A number that ends with a text ends there before another one that goes on like the first. -/
theorem numberRun_next (run : numberRun (s ++ v) = s.length) (next : GoesOnAs u v) :
    numberRun (s ++ u) = s.length := by
  have pieces := List.takeWhile_append_dropWhile (p := CodePoint.isDigit) (l := s ++ v)
  have digits := isDigits_takeWhile (s ++ v)
  have behind := dropWhile_head CodePoint.isDigit (s ++ v)
  unfold numberRun at run
  simp only [drop_digitRun] at run
  split at run
  next fraction point =>
    have more := List.takeWhile_append_dropWhile (p := CodePoint.isDigit) (l := fraction)
    rw [point, ← more, ← List.cons_append, ← List.append_assoc] at pieces
    have length : ((s ++ v).takeWhile CodePoint.isDigit ++ .scalar '.' :: fraction.takeWhile CodePoint.isDigit).length =
        s.length := by
      rw [← run, List.length_append, List.length_cons, digitRun, digitRun]
      omega
    have ends := List.append_inj pieces length
    have stops : ∀ d ∈ v.head?, d.isDigit = false := ends.2 ▸ dropWhile_head CodePoint.isDigit fraction
    rw [← ends.1, List.append_assoc, List.cons_append]
    exact numberRun_pointed digits (isDigits_takeWhile fraction) (next.head stops (by decide))
  next notPoint =>
    have ends := List.append_inj pieces run
    rw [ends.1] at digits
    rw [ends.2] at behind notPoint
    refine numberRun_whole digits fun d head => ⟨next.head behind (by decide) d head, ?_⟩
    rintro rfl
    rcases next with same | goesOn
    · rw [same] at head
      cases v with
      | nil => cases head
      | cons d more =>
        cases head
        exact notPoint more rfl
    · rw [goesOn] at head
      cases head

/-- A quoted text ends with its quote, and nothing behind it matters. -/
theorem stringRun?_eq_some {q : CodePoint} (h : stringRun? q rest = some n) :
    ∃ inner behind, rest = inner ++ q :: behind ∧ inner.length + 1 = n ∧
      ∀ more, stringRun? q (inner ++ q :: more) = some n := by
  fun_induction stringRun? q rest generalizing n with
  | case1 => cases h
  | case2 s =>
    cases h
    exact ⟨[], s, rfl, rfl, fun more => by rw [List.nil_append, stringRun?.eq_def]; simp⟩
  | case3 => cases h
  | case4 d s notQuote ih =>
    obtain ⟨m, run, rfl⟩ := Option.map_eq_some_iff.mp h
    obtain ⟨inner, behind, rfl, rfl, closes⟩ := ih run
    refine ⟨.scalar '\\' :: d :: inner, behind, rfl, by simp, fun more => ?_⟩
    rw [List.cons_append, List.cons_append, stringRun?.eq_def]
    simp [notQuote, closes]
  | case5 c s notQuote notEscape ih =>
    obtain ⟨m, run, rfl⟩ := Option.map_eq_some_iff.mp h
    obtain ⟨inner, behind, rfl, rfl, closes⟩ := ih run
    refine ⟨c :: inner, behind, rfl, by simp, fun more => ?_⟩
    rw [List.cons_append, stringRun?.eq_def]
    simp [notQuote, notEscape, closes]

theorem lexeme_eq_string (h : (lexeme c rest).1 = .string) :
    IsQuote c ∧ stringRun? c rest = some (lexeme c rest).2 := by
  have opens := opens_lexeme c rest
  rw [h] at opens
  generalize (lexeme c rest).2 = n at opens ⊢
  cases opens with
  | string quote run => exact ⟨quote, run⟩

theorem lexeme_eq_name (h : (lexeme c rest).1 = .name) : c.opensName = true ∧ (lexeme c rest).2 = nameRun rest := by
  have opens := opens_lexeme c rest
  rw [h] at opens
  generalize (lexeme c rest).2 = n at opens ⊢
  cases opens with
  | name opens => exact ⟨opens, rfl⟩

theorem lexeme_eq_operator (h : (lexeme c rest).1 = .operator) : ∃ op : Operator, [c] = op.symbol := by
  have opens := opens_lexeme c rest
  rw [h] at opens
  generalize (lexeme c rest).2 = n at opens
  cases opens with
  | operator op sign => exact ⟨op, sign⟩

/-- A known token that ends with a text ends there before another one that goes on like the first. -/
theorem lexeme_next {kind : TokenKind} (lex : lexeme c (s ++ v) = (kind, s.length)) (known : kind ≠ .unknown)
    (next : GoesOnAs u v) : lexeme c (s ++ u) = (kind, s.length) := by
  by_cases isQuote : IsQuote c
  · rw [lexeme_quote isQuote] at lex ⊢
    cases run : stringRun? c (s ++ v) with
    | none =>
      rw [run] at lex
      exact absurd (Prod.mk.inj lex).1.symm known
    | some n =>
      rw [run] at lex
      obtain ⟨rfl, length⟩ := Prod.mk.inj lex
      obtain ⟨inner, behind, text, closing, closes⟩ := stringRun?_eq_some run
      have ends : s = inner ++ [c] ∧ v = behind :=
        List.append_inj (by simpa using text) (by rw [List.length_append, List.length_singleton, closing, length])
      rw [ends.1, List.append_assoc, List.singleton_append, closes, ← ends.1, length]
  · have noQuote : ¬(c = .scalar '"' ∨ c = .scalar '\'') := isQuote
    unfold lexeme at lex ⊢
    simp only [if_neg noQuote] at lex ⊢
    by_cases digit : c.isDigit = true
    · rw [if_pos digit] at lex ⊢
      obtain ⟨rfl, run⟩ := Prod.mk.inj lex
      rw [numberRun_next run next]
    · rw [if_neg digit] at lex ⊢
      by_cases point : c = .scalar '.'
      · rw [if_pos point] at lex ⊢
        split at lex
        next => exact absurd (Prod.mk.inj lex).1.symm known
        next some =>
          obtain ⟨rfl, run⟩ := Prod.mk.inj lex
          rw [digitRun_next run next, if_neg (run ▸ some)]
      · rw [if_neg point] at lex ⊢
        split_ifs at lex ⊢ with left right comma symbol name
        any_goals exact lex
        obtain ⟨rfl, run⟩ := Prod.mk.inj lex
        rw [nameRun, takeWhile_next run next (by decide)]

end Reckoner.Token
