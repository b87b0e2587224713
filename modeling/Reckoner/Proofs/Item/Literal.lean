import Reckoner.Node.Parse
import Reckoner.Proofs.Bracket.Balanced
import Reckoner.Proofs.Node.Formed
/-!
# The items of scanned tokens

A scanned token becomes an item unless it is refused, which an unknown token is and a whole number of more than 4300
digits. The first refused token of a text ends the work (`ofText_refused`); without one the text has items, and
their nodes are formed (`ofText_accepted`, `ofText_clean`).
-/
namespace Reckoner

namespace Token

/-- A token that no formula has: an unknown one, or a number without a point of more than 4300 digits. -/
def isRefused (t : Token) : Bool :=
  t.kind == .unknown ||
    (t.kind == .number && !t.text.contains (.scalar '.') && decide (Numeral.maxDigits < t.text.length))

/-- What is said about a token that is refused. -/
def refusal (t : Token) : Fault :=
  if t.kind = .unknown then .formula (.unexpectedToken t.text t.position) else .digits (.reading t.text.length)

end Token

namespace Literal

open Token (IsNumber IsLexeme)

theorem dropWhile_isDigits {t : Text} (digits : t.IsDigits) (rest : Text) :
    (t ++ rest).dropWhile CodePoint.isDigit = rest.dropWhile CodePoint.isDigit :=
  List.dropWhile_append_of_pos digits

theorem takeWhile_isDigits {t : Text} (digits : t.IsDigits) (rest : Text) :
    (t ++ rest).takeWhile CodePoint.isDigit = t ++ rest.takeWhile CodePoint.isDigit :=
  List.takeWhile_append_of_pos digits

theorem number_of_isDigits {t : Text} (digits : t.IsDigits) :
    number t = (Outcome.ofDigits (Numeral.readNat? t) >>= fun n => .ok (.int n)) := by
  have noRest : t.dropWhile CodePoint.isDigit = [] := by simpa using dropWhile_isDigits digits []
  rw [number, noRest]
  rfl

theorem number_of_point {whole : Text} (digits : whole.IsDigits) (fraction : Text) :
    number (whole ++ .scalar '.' :: fraction) = .ok (.float (Numeral.readPointed whole fraction)) := by
  have before : (whole ++ .scalar '.' :: fraction).takeWhile CodePoint.isDigit = whole := by
    rw [takeWhile_isDigits digits, List.takeWhile_cons_of_neg (by decide), List.append_nil]
  have behind : (whole ++ .scalar '.' :: fraction).dropWhile CodePoint.isDigit = .scalar '.' :: fraction := by
    rw [dropWhile_isDigits digits, List.dropWhile_cons_of_neg (by decide)]
  simp only [number, before, behind]

theorem not_point_of_isDigits {t : Text} (digits : t.IsDigits) : .scalar '.' ∉ t := by
  intro point
  have digit := digits _ point
  revert digit
  decide

theorem readPointed_ne_nan (whole fraction : Text) : Numeral.readPointed whole fraction ≠ .nan := by
  unfold Numeral.readPointed Decimal.toBinary64
  cases Decimal.magnitude? _ <;> simp [Binary64.ofMagnitude?]

/-- A whole number of at most 4300 digits is read. -/
theorem readNat?_of_short {t : Text} (short : t.length ≤ Numeral.maxDigits) :
    Numeral.readNat? t = .ok (Text.decimalNumber t) := by
  rw [Numeral.readNat?, if_neg (Nat.not_lt.mpr short)]

theorem isShort_decimalNumber {t : Text} (digits : t.IsDigits) (short : t.length ≤ Numeral.maxDigits) :
    Numeral.IsShort (Text.decimalNumber t) := by
  rw [Numeral.IsShort, Int.natAbs_natCast, Nat.pow_eq]
  refine Nat.lt_of_lt_of_le ?_ (Nat.pow_le_pow_right (by decide) short)
  exact Text.decimalNumber_lt digits

theorem classify_refused {t : Token} (lexeme : t.IsLexeme) (refused : t.isRefused = true) :
    classify t = .error t.refusal := by
  unfold Token.isRefused at refused
  cases kind : t.kind with
  | unknown => simp [classify, Token.refusal, kind, Outcome.fail]
  | number =>
    have long : t.text.contains (.scalar '.') = false ∧ Numeral.maxDigits < t.text.length := by
      simpa [kind] using refused
    rcases lexeme.number kind with digits | ⟨whole, fraction, split, -, -⟩
    · have tooLong : Numeral.readNat? t.text = .error (.reading t.text.length) := by
        rw [Numeral.readNat?, if_pos long.2]
      simp [classify, Token.refusal, kind, number_of_isDigits digits, tooLong, Outcome.ofDigits, Except.mapError]
    · have noPoint := long.1
      rw [split] at noPoint
      simp at noPoint
  | _ => simp [kind] at refused

theorem classify_accepted {t : Token} (lexeme : t.IsLexeme) (accepted : t.isRefused = false) :
    ∃ item, classify t = .ok item ∧ item.IsClean Node.Formed := by
  unfold Token.isRefused at accepted
  cases kind : t.kind with
  | unknown => simp [kind] at accepted
  | number =>
    rcases lexeme.number kind with digits | ⟨whole, fraction, split, digits, -⟩
    · have short : t.text.length ≤ Numeral.maxDigits := by
        simpa [kind, not_point_of_isDigits digits] using accepted
      refine ⟨.node (.constant (.int (Text.decimalNumber t.text))), ?_, .int _ (isShort_decimalNumber digits short)⟩
      simp [classify, kind, number_of_isDigits digits, readNat?_of_short short, Outcome.ofDigits, Except.mapError]
    · refine ⟨.node (.constant (.float (Numeral.readPointed whole fraction))), ?_,
        .float _ (readPointed_ne_nan whole fraction)⟩
      simp [classify, kind, split, number_of_point digits]
  | string => exact ⟨.node (.constant (.text (decodeString t.text))), by simp only [classify, kind], .text _⟩
  | name => exact ⟨.node (.property t.text), by simp only [classify, kind], .property _ (lexeme.name kind)⟩
  | operator => exact ⟨.token t, by simp only [classify, kind], .inl (.inl ⟨kind, lexeme.operator kind⟩)⟩
  | comma => exact ⟨.token t, by simp only [classify, kind], .inl (.inr ⟨kind, lexeme.comma kind⟩)⟩
  | leftParen => exact ⟨.token t, by simp only [classify, kind], .inr ⟨.inl kind, lexeme.position⟩⟩
  | rightParen => exact ⟨.token t, by simp only [classify, kind], .inr ⟨.inr kind, lexeme.position⟩⟩

/-- What a token can become. -/
theorem classify_cases {t : Token} {item : Item} (h : classify t = .ok item) :
    (t.kind = .number ∧ ∃ v, number t.text = .ok v ∧ item = .node (.constant v)) ∨
      (t.kind = .string ∧ item = .node (.constant (.text (decodeString t.text)))) ∨
      (t.kind = .name ∧ item = .node (.property t.text)) ∨
      (t.kind ≠ .number ∧ t.kind ≠ .string ∧ t.kind ≠ .name ∧ t.kind ≠ .unknown) ∧ item = .token t := by
  unfold classify at h
  split at h
  next kind =>
    obtain ⟨v, read, same⟩ := Outcome.bind_eq_ok.mp h
    cases same
    exact .inl ⟨kind, v, read, rfl⟩
  next kind =>
    cases h
    exact .inr (.inl ⟨kind, rfl⟩)
  next kind =>
    cases h
    exact .inr (.inr (.inl ⟨kind, rfl⟩))
  next => cases h
  next notNumber notString notName notUnknown =>
    cases h
    exact .inr (.inr (.inr ⟨⟨notNumber, notString, notName, notUnknown⟩, rfl⟩))

/-- The first refused token ends the work. -/
theorem mapM_classify_refused {tokens : List Token} (lexemes : ∀ t ∈ tokens, t.IsLexeme) {t : Token}
    (first : tokens.find? Token.isRefused = some t) : tokens.mapM classify = .error t.refusal := by
  induction tokens with
  | nil => cases first
  | cons u tokens ih =>
    rw [List.mapM_cons]
    cases refused : u.isRefused with
    | true =>
      rw [List.find?_cons_of_pos refused] at first
      cases first
      rw [classify_refused (lexemes t (by simp)) refused]
      rfl
    | false =>
      rw [List.find?_cons_of_neg (by simp [refused])] at first
      obtain ⟨item, classified, -⟩ := classify_accepted (lexemes u (by simp)) refused
      rw [classified, Outcome.ok_bind, ih (fun v member => lexemes v (by simp [member])) first]
      rfl

theorem mapM_classify_accepted {tokens : List Token} (lexemes : ∀ t ∈ tokens, t.IsLexeme)
    (noneRefused : tokens.find? Token.isRefused = none) :
    ∃ items, tokens.mapM classify = .ok items ∧ ∀ item ∈ items, item.IsClean Node.Formed := by
  induction tokens with
  | nil => exact ⟨[], rfl, by simp⟩
  | cons t tokens ih =>
    rw [List.find?_cons] at noneRefused
    cases refused : t.isRefused with
    | true => simp [refused] at noneRefused
    | false =>
      obtain ⟨item, classified, clean⟩ := classify_accepted (lexemes t (by simp)) refused
      obtain ⟨items, others, cleanOthers⟩ :=
        ih (fun u member => lexemes u (by simp [member])) (by simpa [refused] using noneRefused)
      refine ⟨item :: items, by rw [List.mapM_cons, classified, Outcome.ok_bind, others]; rfl, ?_⟩
      simpa using ⟨clean, cleanOthers⟩

end Literal

namespace Item

theorem negated?_clean {item folded : Item} (clean : item.IsClean Node.Formed) (h : item.negated? = some folded) :
    folded.IsClean Node.Formed := by
  cases item with
  | token t => cases h
  | node n =>
    cases clean with
    | int n short =>
      by_cases zero : n = 0
      · simp only [negated?, Value.negated?, if_pos zero] at h
        cases h
        exact .float _ (by simp)
      · simp only [negated?, Value.negated?, if_neg zero] at h
        cases h
        exact .int _ (by rwa [Numeral.IsShort, Int.natAbs_neg])
    | float x number =>
      cases h
      refine .float _ ?_
      cases x <;> simp_all [Binary64.neg]
    | text t => cases h
    | list nodes elements => cases h
    | property name isName => cases h
    | binary op left right _ _ => cases h
    | call name args _ _ => cases h

theorem foldSignsFrom_clean {items : List Item} (clean : ∀ item ∈ items, item.IsClean Node.Formed) (due : Bool) :
    ∀ item ∈ foldSignsFrom due items, item.IsClean Node.Formed := by
  fun_induction foldSignsFrom due items with
  | case1 => simp
  | case2 due item => exact clean
  | case3 due item next rest sign folded negated ih =>
    have foldedClean := negated?_clean (clean next (by simp)) negated
    simpa using ⟨foldedClean, ih fun i m => clean i (by simp [m])⟩
  | case4 due item next rest sign notNumber ih =>
    simpa using ⟨clean item (by simp), ih fun i m => clean i (by simp [List.mem_cons.mp m])⟩
  | case5 due item next rest noSign ih =>
    simpa using ⟨clean item (by simp), ih fun i m => clean i (by simp [List.mem_cons.mp m])⟩

theorem ofText_refused {s : Text} {t : Token} (first : (Token.scan s).find? Token.isRefused = some t) :
    ofText s = .error t.refusal := by
  rw [ofText, Literal.mapM_classify_refused (fun _ => Token.isLexeme_of_mem_scan) first]
  rfl

theorem ofText_accepted {s : Text} (noneRefused : (Token.scan s).find? Token.isRefused = none) :
    ∃ items, ofText s = .ok items ∧ ∀ item ∈ items, item.IsClean Node.Formed := by
  obtain ⟨items, classified, clean⟩ :=
    Literal.mapM_classify_accepted (fun _ => Token.isLexeme_of_mem_scan) noneRefused
  exact ⟨foldSigns items, by rw [ofText, classified]; rfl, foldSignsFrom_clean clean true⟩

theorem ofText_clean {s : Text} {items : List Item} (h : ofText s = .ok items) :
    ∀ item ∈ items, item.IsClean Node.Formed := by
  cases first : (Token.scan s).find? Token.isRefused with
  | some t =>
    rw [ofText_refused first] at h
    cases h
  | none =>
    obtain ⟨found, read, clean⟩ := ofText_accepted first
    rw [read] at h
    cases h
    exact clean

end Item
end Reckoner
