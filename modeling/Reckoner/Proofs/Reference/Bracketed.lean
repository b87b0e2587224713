import Reckoner.Proofs.Reference.Lexemes
import Mathlib.Data.List.Chain
/-!
# Names written between brackets

Some of the names that a formula reads may be written as references, each between brackets with a blank on either side.
Every token of the formula is a lexeme of the new spelling, a reference in the place of each chosen name, and these
lexemes keep apart (`scan_bracketFrom`).
-/
namespace Reckoner

namespace Token

/-- A name that calls nothing, where `behind` are the tokens behind it. -/
def isOperand (t : Token) (behind : List Token) : Bool :=
  t.kind == .name && !behind.head?.any (·.kind == .leftParen)

/-- The text that starts at an offset with its chosen operands written between brackets. -/
def bracketFrom (chosen : Token → Bool) (offset : Nat) : Text → Text
  | [] => []
  | c :: rest =>
    if c.isBlank then c :: bracketFrom chosen (offset + 1) rest
    else
      let (kind, n) := lexeme c rest
      let t : Token := ⟨kind, c :: rest.take n, some offset⟩
      let next := offset + 1 + n
      let spelled := if t.isOperand (scanFrom next (rest.drop n)) && chosen t then " [" ++ t.text ++ "] " else t.text
      spelled ++ bracketFrom chosen next (rest.drop n)
termination_by t => t.length
decreasing_by
  · simp
  · simp only [List.length_drop, List.length_cons]; omega

/-- The lexemes that tokens are spelled as. -/
def spelled (chosen : Token → Bool) : List Token → List Lexeme
  | [] => []
  | t :: behind =>
    (if t.isOperand behind && chosen t then .reference t.text else .token t.kind t.text) :: spelled chosen behind

end Token

/-- The formula with its chosen operands written between brackets. -/
def Text.bracketed (chosen : Token → Bool) (formula : Text) : Text := Token.bracketFrom chosen 0 formula

namespace Token

variable {chosen : Token → Bool} {offset : Nat} {s : Text}

theorem kind_of_isOperand {t : Token} {behind : List Token} (h : t.isOperand behind = true) : t.kind = .name := by
  rw [isOperand, Bool.and_eq_true, beq_iff_eq] at h
  exact h.1

/-- Without a chosen operand the spelling stays. -/
theorem bracketFrom_none (offset : Nat) (s : Text) : bracketFrom (fun _ => false) offset s = s := by
  fun_induction bracketFrom (fun _ => false) offset s with
  | case1 => rfl
  | case2 offset c rest blank ih => rw [ih]
  | case3 offset c rest visible kind n found t next spelled ih =>
    simp [spelled, t, ih]

/-- Before a bracket there is always a blank. -/
theorem bracketFrom_goesOnAs (chosen : Token → Bool) (offset : Nat) (s : Text) :
    GoesOnAs (bracketFrom chosen offset s) s := by
  fun_cases bracketFrom chosen offset s with
  | case1 => exact .inl rfl
  | case2 c rest blank => exact .inl rfl
  | case3 c rest visible kind n found t next spelled =>
    by_cases bracketed : (t.isOperand (scanFrom next (rest.drop n)) && chosen t) = true
    · refine .inr ?_
      simp only [spelled, bracketed, if_true]
      rfl
    · refine .inl ?_
      simp [spelled, bracketed, t]

theorem lexeme_bracket (rest : Text) : lexeme (.scalar '[') rest = (.unknown, 0) := rfl

/-- A text of known tokens does not start with a bracket of references. -/
theorem head_ne_bracket (known : ∀ t ∈ scanFrom offset s, t.kind ≠ .unknown) : s.head? ≠ some (.scalar '[') := by
  cases s with
  | nil => simp
  | cons c rest =>
    rintro head
    cases head
    have visible : CodePoint.isBlank (.scalar '[') = false := by decide
    rw [scanFrom_single offset visible lexeme_bracket] at known
    exact known _ List.mem_cons_self rfl

end Token

theorem Text.opensReference_of_head_ne {t : Text} (other : t.head? ≠ some (.scalar '[')) :
    t.opensReference = false := by
  cases t with
  | nil => rfl
  | cons c rest =>
    rw [Text.opensReference, Piece.referenceAt?_of_ne fun same => other (by rw [same]; rfl)]
    rfl

theorem Text.IsName.isReferenceName {t : Text} (isName : t.IsName) : Piece.IsReferenceName t := by
  intro c member
  rw [Piece.namesReference, isName.continues c member, Bool.true_or]

namespace Lexeme

open Token (scanFrom bracketFrom)

variable {chosen : Token → Bool} {offset : Nat} {s : Text}

theorem scan_blank {c : CodePoint} (blank : c.isBlank = true) (rest : Text) : scan (c :: rest) = scan rest := by
  rw [scan, if_pos blank]

theorem scan_reference {written : Text} (named : Piece.IsReferenceName written) (behind : Text) :
    scan (.scalar '[' :: (written ++ .scalar ']' :: behind)) = (.reference written, behind) :: scan behind := by
  rw [scan, if_neg (by decide), first_reference named]

/-- A known token stays a lexeme where what stands behind it is spelled in another way. -/
theorem scan_token {c : CodePoint} {rest behind : Text} {kind : TokenKind} {n : Nat} (visible : c.isBlank = false)
    (notBracket : c ≠ .scalar '[') (found : Token.lexeme c rest = (kind, n)) (known : kind ≠ .unknown)
    (goesOn : Token.GoesOnAs behind (rest.drop n)) :
    scan (c :: (rest.take n ++ behind)) = (.token kind (c :: rest.take n), behind) :: scan behind := by
  have length : (rest.take n).length = n := by simpa [found] using Token.lexeme_le c rest
  have lex : Token.lexeme c (rest.take n ++ rest.drop n) = (kind, (rest.take n).length) := by
    rw [List.take_append_drop, length, found]
  have first : first c (rest.take n ++ behind) = (.token kind (c :: rest.take n), behind) := by
    rw [first, Piece.referenceAt?_of_ne notBracket, Token.lexeme_next lex known goesOn]
    simp only [List.take_left, List.drop_left]
  rw [scan, if_neg (by simp [visible]), first]

/-- A name between brackets with a blank on either side is a reference. -/
theorem scan_bracketed {word : Text} (isName : word.IsName) (behind : Text) :
    scan (" [" ++ word ++ "] " ++ behind) = (.reference word, .scalar ' ' :: behind) :: scan behind := by
  have written : (" [" ++ word ++ "] " ++ behind : Text) =
      .scalar ' ' :: .scalar '[' :: (word ++ .scalar ']' :: .scalar ' ' :: behind) := by simp [Text.ofString]
  have blank : CodePoint.isBlank (.scalar ' ') = true := by decide
  rw [written, scan_blank blank, scan_reference isName.isReferenceName, scan_blank blank]

theorem standsApart_reference (written behind : Text) : StandsApart (.reference written, .scalar ' ' :: behind) := by
  refine ⟨Text.opensReference_of_head_ne (by simp), fun c head => ?_⟩
  cases head
  decide

theorem standsApart_token {kind : TokenKind} {text behind : Text}
    (quoted : kind = .string → ∀ written, .reference written ∉ Piece.ofText text)
    (other : behind.head? ≠ some (.scalar '[')) : StandsApart (.token kind text, behind) := by
  cases kind
  case string => exact quoted rfl
  case name => exact Text.opensReference_of_head_ne other
  all_goals trivial

/-- What is written with the chosen operands between brackets has a lexeme for each token, and these keep apart. -/
theorem scan_bracketFrom (chosen : Token → Bool) (known : ∀ t ∈ scanFrom offset s, t.kind ≠ .unknown)
    (quoted : ∀ t ∈ scanFrom offset s, t.kind = .string → ∀ written, .reference written ∉ Piece.ofText t.text) :
    (scan (bracketFrom chosen offset s)).map Prod.fst = Token.spelled chosen (scanFrom offset s) ∧
      ∀ entry ∈ scan (bracketFrom chosen offset s), StandsApart entry := by
  fun_induction bracketFrom chosen offset s with
  | case1 => simp [scan, scanFrom, Token.spelled]
  | case2 offset c rest blank ih =>
    rw [scanFrom, if_pos blank] at known quoted ⊢
    rw [scan_blank blank]
    exact ih known quoted
  | case3 offset c rest visible kind n found t next spelled ih =>
    have notBracket : c ≠ .scalar '[' := by simpa using Token.head_ne_bracket known
    rw [scanFrom, if_neg visible, found] at known quoted ⊢
    obtain ⟨knownHere, knownBehind⟩ := List.forall_mem_cons.mp known
    obtain ⟨quotedHere, quotedBehind⟩ := List.forall_mem_cons.mp quoted
    obtain ⟨lexemes, apart⟩ := ih knownBehind quotedBehind
    rw [Token.spelled]
    by_cases bracketed : (t.isOperand (scanFrom next (rest.drop n)) && chosen t) = true
    · have isLexeme := Token.isLexeme_lexeme c rest offset
      rw [found] at isLexeme
      have isName : t.text.IsName := isLexeme.name (Token.kind_of_isOperand (Bool.and_eq_true_iff.mp bracketed).1)
      have written : spelled = " [" ++ t.text ++ "] " := if_pos bracketed
      rw [written, scan_bracketed isName, if_pos bracketed, List.map_cons, lexemes]
      exact ⟨rfl, List.forall_mem_cons.mpr ⟨standsApart_reference _ _, apart⟩⟩
    · have written : spelled = c :: rest.take n := if_neg bracketed
      have goesOn := Token.bracketFrom_goesOnAs chosen next (rest.drop n)
      have other : (bracketFrom chosen next (rest.drop n)).head? ≠ some (.scalar '[') := by
        rcases goesOn with same | blank
        · exact same ▸ Token.head_ne_bracket knownBehind
        · simp [blank]
      rw [written, List.cons_append, scan_token (by simpa using visible) notBracket found knownHere goesOn,
        if_neg bracketed, List.map_cons, lexemes]
      exact ⟨rfl, List.forall_mem_cons.mpr ⟨standsApart_token quotedHere other, apart⟩⟩

/-- Behind its first lexeme a text has the pieces that it has there, and the first are those of the lexeme. -/
theorem ofText_first (c : CodePoint) (rest : Text) :
    ∃ pieces, Piece.ofText (c :: rest) = pieces ++ Piece.ofText (first c rest).2 ∧
      ∀ written, (first c rest).1 = .reference written → .reference written ∈ pieces := by
  cases found : Piece.referenceAt? c rest with
  | some n =>
    obtain ⟨rfl, written, behind, rfl, named, rfl⟩ := Piece.referenceAt?_eq_some found
    rw [first_reference named, Piece.ofText_reference named]
    exact ⟨[.reference written], rfl, by simp⟩
  | none =>
    by_cases isString : (Token.lexeme c rest).1 = .string
    · obtain ⟨inner, behind, quote, rfl, -, entry⟩ := first_string found isString
      rw [entry]
      exact ⟨_, quote.ofText_append (c :: inner) behind, by simp⟩
    · have split := Piece.ofText_append_plain (Token.not_mem_lexeme isString) (rest.drop (Token.lexeme c rest).2)
      rw [List.take_append_drop] at split
      rw [first_token found]
      exact ⟨_, by rw [Piece.ofText_plain found, split, ← List.cons_append], by simp⟩

/-- A reference among the lexemes of a text is one of its pieces. -/
theorem reference_mem_ofText {t written behind : Text} (member : (.reference written, behind) ∈ scan t) :
    .reference written ∈ Piece.ofText t := by
  fun_induction scan t with
  | case1 => cases member
  | case2 c rest blank ih =>
    have notBracket : c ≠ .scalar '[' := by
      rintro rfl
      revert blank
      decide
    rw [Piece.ofText_cons_of_ne notBracket]
    exact List.mem_cons_of_mem _ (ih member)
  | case3 c rest visible ih =>
    obtain ⟨pieces, split, isPiece⟩ := ofText_first c rest
    rw [split, List.mem_append]
    rcases List.mem_cons.mp member with here | later
    · exact .inl (isPiece written (by rw [← here]))
    · exact .inr (ih later)

end Lexeme

theorem CodePoint.not_isBlank_of_continuesName {c : CodePoint} (h : c.continuesName = true) : c.isBlank = false := by
  rw [continuesName, Bool.or_eq_true] at h
  rcases h with letter | digit
  · have range := opensName_range letter
    exact not_isBlank_of_range (by omega) (by omega)
  · have range := isDigit_range digit
    exact not_isBlank_of_range (by omega) (by omega)

theorem Text.stripStart_of_visible {t : Text} (visible : ∀ c ∈ t, c.isBlank = false) : t.stripStart = t := by
  cases t with
  | nil => rfl
  | cons c rest => rw [stripStart, List.dropWhile_cons_of_neg (by simp [visible c (by simp)])]

/-- A name has no blanks to cut. -/
theorem Text.IsName.strip {t : Text} (isName : t.IsName) : t.strip = t := by
  have visible : ∀ c ∈ t, c.isBlank = false := fun c member =>
    CodePoint.not_isBlank_of_continuesName (isName.continues c member)
  rw [Text.strip, Text.stripStart_of_visible visible,
    Text.stripStart_of_visible fun c member => visible c (List.mem_reverse.mp member), List.reverse_reverse]

namespace Token

variable {chosen : Token → Bool} {tokens : List Token} {f : Text → Text} {names : List Text}

theorem mem_of_reference {written : Text} (member : .reference written ∈ spelled chosen tokens) :
    ∃ t ∈ tokens, t.kind = .name ∧ t.text = written := by
  induction tokens with
  | nil => cases member
  | cons t behind ih =>
    rcases List.mem_cons.mp member with here | later
    · split at here
      next bracketed =>
        cases here
        exact ⟨t, by simp, kind_of_isOperand (Bool.and_eq_true_iff.mp bracketed).1, rfl⟩
      next => cases here
    · obtain ⟨u, inside, found⟩ := ih later
      exact ⟨u, by simp [inside], found⟩

/-- Where placeholders are replaced by the names between the brackets, every token is spelled as it was. -/
theorem map_label_spelled
    (original : ∀ written, .reference written ∈ spelled chosen tokens →
      f (Substitution.placeholder (names.idxOf written.strip)) = written)
    (fixed : ∀ t ∈ tokens, t.kind = .name → f t.text = t.text) :
    (spelled chosen tokens).map (fun lexeme => ((lexeme.label names).1,
      if (lexeme.label names).1 = .name then f (lexeme.label names).2 else (lexeme.label names).2)) =
      tokens.map fun t => (t.kind, t.text) := by
  induction tokens with
  | nil => rfl
  | cons t behind ih =>
    have ahead := ih (fun written member => original written (List.mem_cons_of_mem _ member))
      fun u member => fixed u (by simp [member])
    rw [spelled, List.map_cons, ahead, List.map_cons]
    congr 1
    split
    next bracketed =>
      have isName := kind_of_isOperand (Bool.and_eq_true_iff.mp bracketed).1
      rw [Lexeme.label, if_pos rfl, original t.text (by rw [spelled, if_pos bracketed]; simp), isName]
    next =>
      by_cases isName : t.kind = .name
      · simp [Lexeme.label, isName, fixed t (by simp) isName]
      · simp [Lexeme.label, isName]

/-- No callee is written between brackets. -/
theorem isChain_spelled (chosen : Token → Bool) (names : List Text)
    (fixed : ∀ t ∈ tokens, t.kind = .name → f t.text = t.text) :
    ((spelled chosen tokens).map (Lexeme.label names)).IsChain
      fun before label => label.1 = .leftParen → before.1 = .name → f before.2 = before.2 := by
  induction tokens with
  | nil => exact .nil
  | cons t behind ih =>
    rw [spelled, List.map_cons]
    refine List.isChain_cons.mpr ⟨fun label head opening isName => ?_, ih fun u member => fixed u (by simp [member])⟩
    cases behind with
    | nil => cases head
    | cons u others =>
      rw [spelled, List.map_cons] at head
      cases head
      have kind : u.kind = .leftParen := by
        split at opening
        · cases opening
        · exact opening
      have called : (t.isOperand (u :: others) && chosen t) = false := by simp [isOperand, kind]
      rw [called] at isName ⊢
      exact fixed t (by simp) isName

end Token
end Reckoner
