import Reckoner.Proofs.Token.Word
/-!
# Texts scanned in two parts

A text whose tokens are all known is scanned in the same way before any text that cannot go on with its last token
(`scanFrom_append`). A quote without a partner is the one token that a later text could change from afar, and it is
unknown.
-/
namespace Reckoner.Token

/-- The text does not begin with a code point that goes on with a number or a name. -/
def Apart (rest : Text) : Prop := ∀ c ∈ rest.head?, c.continuesName = false ∧ c ≠ .scalar '.'

theorem Apart.of_head {c : CodePoint} (more : Text) (stops : c.continuesName = false) (notPoint : c ≠ .scalar '.') :
    Apart (c :: more) := by
  intro d head
  cases head
  exact ⟨stops, notPoint⟩

variable {c : CodePoint} {s rest : Text}

theorem takeWhile_apart {p : CodePoint → Bool} (stops : ∀ c ∈ rest.head?, p c = false) :
    (s ++ rest).takeWhile p = s.takeWhile p := by
  induction s with
  | nil =>
    cases rest with
    | nil => rfl
    | cons c more => rw [List.nil_append, List.takeWhile_cons_of_neg (by simp [stops c rfl]), List.takeWhile_nil]
  | cons c s ih => by_cases holds : p c = true <;> simp [holds, ih]

theorem digitRun_apart (apart : Apart rest) : digitRun (s ++ rest) = digitRun s := by
  rw [digitRun, takeWhile_apart, digitRun]
  intro c head
  have stops := (apart c head).1
  rw [CodePoint.continuesName, Bool.or_eq_false_iff] at stops
  exact stops.2

theorem nameRun_apart (apart : Apart rest) : nameRun (s ++ rest) = nameRun s := by
  rw [nameRun, takeWhile_apart fun c head => (apart c head).1, nameRun]

theorem digitRun_le (s : Text) : digitRun s ≤ s.length := (List.takeWhile_sublist _).length_le

theorem numberRun_apart (apart : Apart rest) : numberRun (s ++ rest) = numberRun s := by
  unfold numberRun
  dsimp only
  rw [digitRun_apart apart, List.drop_append_of_le_length (digitRun_le s)]
  -- what stands behind the digits is in `s`, or it is `rest`, which does not open with a point
  cases behind : s.drop (digitRun s) with
  | nil =>
    cases rest with
    | nil => rfl
    | cons c more =>
      have notPoint := (apart c rfl).2
      simp [notPoint]
  | cons c more =>
    by_cases point : c = .scalar '.'
    · subst point
      simp [digitRun_apart apart]
    · simp [point]

theorem stringRun?_append {quote : CodePoint} {n : Nat} (h : stringRun? quote s = some n) (rest : Text) :
    stringRun? quote (s ++ rest) = some n := by
  fun_induction stringRun? quote s generalizing n with
  | case1 => cases h
  | case2 s =>
    rw [List.cons_append, stringRun?.eq_def]
    simpa using h
  | case3 => cases h
  | case4 d s notQuote ih =>
    obtain ⟨m, run, rfl⟩ := Option.map_eq_some_iff.mp h
    rw [List.cons_append, List.cons_append, stringRun?.eq_def]
    simp [notQuote, ih run]
  | case5 c s notQuote notEscape ih =>
    obtain ⟨m, run, rfl⟩ := Option.map_eq_some_iff.mp h
    rw [List.cons_append, stringRun?.eq_def]
    simp [notQuote, notEscape, ih run]

/-- A known token is the same before a text that cannot go on with it. -/
theorem lexeme_append (known : (lexeme c s).1 ≠ .unknown) (apart : Apart rest) : lexeme c (s ++ rest) = lexeme c s := by
  refine lexeme_congr (numberRun_apart apart) (digitRun_apart apart) (fun quote => ?_) fun _ => nameRun_apart apart
  -- a quoted text is known, so it ends within `s`
  rw [lexeme_quote quote] at known
  cases run : stringRun? c s with
  | none => simp [run] at known
  | some n => exact stringRun?_append run rest

theorem numberRun_le (s : Text) : numberRun s ≤ s.length := by
  have whole := digitRun_le s
  unfold numberRun
  dsimp only
  split
  next fraction behind =>
    have lengths := congrArg List.length behind
    have part := digitRun_le fraction
    rw [List.length_drop, List.length_cons] at lengths
    omega
  next => exact whole

theorem stringRun?_le {quote : CodePoint} {n : Nat} (h : stringRun? quote s = some n) : n ≤ s.length := by
  fun_induction stringRun? quote s generalizing n with
  | case1 => cases h
  | case2 s =>
    cases h
    simp
  | case3 => cases h
  | case4 d s notQuote ih =>
    obtain ⟨m, run, rfl⟩ := Option.map_eq_some_iff.mp h
    simpa using ih run
  | case5 c s notQuote notEscape ih =>
    obtain ⟨m, run, rfl⟩ := Option.map_eq_some_iff.mp h
    simpa using ih run

theorem lexeme_le (c : CodePoint) (s : Text) : (lexeme c s).2 ≤ s.length := by
  have opens := opens_lexeme c s
  generalize (lexeme c s).1 = kind, (lexeme c s).2 = n at opens ⊢
  cases opens with
  | number digit => exact numberRun_le s
  | fraction point some => exact digitRun_le s
  | string quote run => exact stringRun?_le run
  | name opens => exact (List.takeWhile_sublist _).length_le
  | _ => exact Nat.zero_le _

/-- A text of known tokens before a text that cannot go on with the last of them. -/
theorem scanFrom_append {offset : Nat} (known : ∀ t ∈ scanFrom offset s, t.kind ≠ .unknown) (apart : Apart rest) :
    scanFrom offset (s ++ rest) = scanFrom offset s ++ scanFrom (offset + s.length) rest := by
  fun_induction scanFrom offset s with
  | case1 => simp
  | case2 offset c s blank ih =>
    rw [List.cons_append, scanFrom, if_pos blank, ih known, List.length_cons, Nat.add_right_comm, Nat.add_assoc]
  | case3 offset c s visible kind n found ih =>
    have inside : n ≤ s.length := by simpa [found] using lexeme_le c s
    have same : lexeme c (s ++ rest) = (kind, n) := by
      rw [lexeme_append (by simpa [found] using known _ List.mem_cons_self) apart, found]
    have length : offset + 1 + n + (s.drop n).length = offset + (c :: s).length := by
      rw [List.length_drop, List.length_cons]
      omega
    rw [List.cons_append, scanFrom, if_neg visible, same]
    dsimp only
    rw [List.take_append_of_le_length inside, List.drop_append_of_le_length inside,
      ih fun t member => known t (List.mem_cons_of_mem _ member), length, List.cons_append]

end Reckoner.Token
