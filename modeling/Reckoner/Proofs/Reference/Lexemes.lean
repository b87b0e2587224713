import Reckoner.Proofs.Reference.Image
/-!
# References among the lexemes of a formula

References are replaced before a formula is scanned, without a look at its lexemes. A scanner that knew references would
find a name for each of them and everything else as it is written. The text with placeholders gives just these lexemes
as long as references keep apart from what could go on with their placeholders, and no string literal holds one
(`respectsTokens_iff`).
-/
namespace Reckoner

/-- A lexeme of a formula where references are lexemes of their own. -/
inductive Lexeme where
  | reference (written : Text)
  | token (kind : TokenKind) (text : Text)

namespace Lexeme

/-- The lexeme that opens with a visible code point, and the text behind it. -/
def first (c : CodePoint) (rest : Text) : Lexeme × Text :=
  match Piece.referenceAt? c rest with
  | some n => (.reference (rest.take n), rest.drop (n + 1))
  | none =>
    let (kind, n) := Token.lexeme c rest
    (.token kind (c :: rest.take n), rest.drop n)

theorem length_first_le (c : CodePoint) (rest : Text) : (first c rest).2.length ≤ rest.length := by
  unfold first
  split <;> simp [List.length_drop]

/-- The lexemes of a text in order, each with the text behind it. -/
def scan : Text → List (Lexeme × Text)
  | [] => []
  | c :: rest => if c.isBlank then scan rest else first c rest :: scan (first c rest).2
termination_by t => t.length
decreasing_by
  · simp
  · exact Nat.lt_succ_of_le (length_first_le c rest)

/-- The kind and text of the token that a lexeme should be read as: a reference is the placeholder of its name. -/
def label (names : List Text) : Lexeme → TokenKind × Text
  | .reference written => (.name, Substitution.placeholder (names.idxOf written.strip))
  | .token kind text => (kind, text)

end Lexeme

/-- Does the text go on with a reference? -/
def Text.opensReference : Text → Bool
  | [] => false
  | c :: rest => (Piece.referenceAt? c rest).isSome

/-- The text that is read for a formula has the tokens that the lexemes of the formula should be read as. -/
def RespectsTokens (formula : Text) : Prop :=
  (Token.scan (Substitution.ofText formula).text).map (fun t => (t.kind, t.text)) =
    (Lexeme.scan formula).map fun entry => entry.1.label (Substitution.ofText formula).names

/-- References stand where replacing them changes no lexeme beside them. -/
structure KeepsApart (formula : Text) : Prop where
  /-- No string literal holds a reference. -/
  quoted : ∀ text behind, (.token .string text, behind) ∈ Lexeme.scan formula →
    ∀ written, .reference written ∉ Piece.ofText text
  /-- No reference stands directly behind a name. -/
  behindName : ∀ text behind, (.token .name text, behind) ∈ Lexeme.scan formula → behind.opensReference = false
  /-- Directly behind a reference there is nothing that could go on with a name, and no reference either. -/
  behindReference : ∀ written behind, (.reference written, behind) ∈ Lexeme.scan formula →
    behind.opensReference = false ∧ ∀ c ∈ behind.head?, c.continuesName = false

namespace Lexeme

/-- The lexeme is read as it should be, whatever comes later. -/
def StandsApart : Lexeme × Text → Prop
  | (.token .string text, _) => ∀ written, .reference written ∉ Piece.ofText text
  | (.token .name _, behind) => behind.opensReference = false
  | (.token _ _, _) => True
  | (.reference _, behind) => behind.opensReference = false ∧ ∀ c ∈ behind.head?, c.continuesName = false

theorem keepsApart_iff {formula : Text} : KeepsApart formula ↔ ∀ entry ∈ scan formula, StandsApart entry := by
  constructor
  · rintro ⟨quoted, behindName, behindReference⟩ ⟨lexeme, behind⟩ member
    cases lexeme with
    | reference written => exact behindReference written behind member
    | token kind text =>
      cases kind
      case string => exact quoted text behind member
      case name => exact behindName text behind member
      all_goals trivial
  · intro apart
    exact ⟨fun text behind => apart _, fun text behind => apart _, fun written behind => apart _⟩

end Lexeme

namespace Substitution

variable {names : List Text} {t : Text}

/-- An image goes on with a name where the text does, or where the text goes on with a reference. -/
theorem takeWhile_image_eq_nil : (image names t).takeWhile CodePoint.continuesName = [] ↔
    t.opensReference = false ∧ ∀ c ∈ t.head?, c.continuesName = false := by
  cases t with
  | nil => simp [Text.opensReference]
  | cons c rest =>
    rcases image_cons_cases names c rest with ⟨none, image⟩ | ⟨found, rfl, more, image⟩
    · rw [image]
      cases goesOn : c.continuesName <;> simp [Text.opensReference, none, goesOn]
    · have letter : CodePoint.continuesName (.scalar 'p') = true := by decide
      simp [image, letter, Text.opensReference, found]

theorem image_of_noReference {s : Text} (noReference : ∀ written, .reference written ∉ Piece.ofText s) :
    image names s = s := by
  have plain : ∀ piece ∈ Piece.ofText s, replacement names piece = piece.text := by
    intro piece member
    cases piece with
    | reference written => exact absurd member (noReference written)
    | plain c => rfl
  rw [image, List.flatMap_def, List.map_congr_left plain, ← List.flatMap_def, Piece.flatMap_text]

/-- A text with a reference in it is not what its image starts with. -/
theorem not_isPrefix_image {s : Text} {written : Text} (member : .reference written ∈ Piece.ofText s) (more : Text) :
    ¬s <+: image names s ++ more := by
  induction s using Piece.text_induction with
  | nil => simp at member
  | reference written rest named ih =>
    intro isPrefix
    rw [image_reference named, placeholder_eq_cons, List.cons_append, List.cons_append,
      List.cons_prefix_cons] at isPrefix
    exact absurd isPrefix.1 (by decide)
  | plain c rest none ih =>
    rw [image_plain none, List.cons_append, List.cons_prefix_cons]
    rw [Piece.ofText_plain none] at member
    exact fun isPrefix => ih (by simpa using member) isPrefix.2

end Substitution

namespace Token

open Substitution (image)

variable {names : List Text} {c : CodePoint} {rest : Text} {n : Nat}

/-- A word and what goes on with it are one name. -/
theorem scanFrom_word {word : Text} (isName : word.IsName) (offset : Nat) (more : Text) :
    scanFrom offset (word ++ more) =
      ⟨.name, word ++ more.takeWhile CodePoint.continuesName, some offset⟩ ::
        scanFrom (offset + (word ++ more.takeWhile CodePoint.continuesName).length)
          (more.dropWhile CodePoint.continuesName) := by
  cases word with
  | nil => exact isName.elim
  | cons c word =>
    obtain ⟨opens, continues⟩ := isName
    have range := CodePoint.opensName_range opens
    have visible : c.isBlank = false := CodePoint.not_isBlank_of_range (by omega) (by omega)
    have run : nameRun (word ++ more) = (word ++ more.takeWhile CodePoint.continuesName).length := by
      rw [nameRun, List.takeWhile_append_of_pos continues]
    have text : word ++ more =
        (word ++ more.takeWhile CodePoint.continuesName) ++ more.dropWhile CodePoint.continuesName := by simp
    have lex := lexeme_name opens (word ++ more)
    rw [run] at lex
    rw [List.cons_append, text] at *
    exact scanFrom_cons offset visible lex

/-- Apart from names and quoted texts, a lexeme is the same in the image of a text. -/
theorem lexeme_image (names : List Text) (notName : (lexeme c rest).1 ≠ .name)
    (notString : (lexeme c rest).1 ≠ .string) :
    lexeme c (image names rest) = lexeme c rest := by
  refine lexeme_congr (numberRun_image names rest) (digitRun_image names rest) (fun quote => ?_) fun opens => ?_
  · have same := (stringRun?_image_isSome quote names rest).1
    rw [lexeme_quote quote] at notString
    cases run : stringRun? c rest with
    | some n => simp [run] at notString
    | none => simpa [run] using same
  · rw [lexeme_name opens] at notName
    exact absurd rfl notName

theorem not_mem_of_isNumber {t : Text} (isNumber : IsNumber t) : .scalar '[' ∉ t := by
  have notDigit : CodePoint.isDigit (.scalar '[') ≠ true := by decide
  intro member
  rcases isNumber with digits | ⟨whole, fraction, rfl, wholeDigits, fractionDigits⟩
  · exact notDigit (digits _ member)
  · rcases List.mem_append.mp member with inside | behind
    · exact notDigit (wholeDigits _ inside)
    · exact notDigit (fractionDigits _ (by simpa using behind))

/-- No lexeme but a quoted text has an opening bracket behind its first code point. -/
theorem not_mem_lexeme (notString : (lexeme c rest).1 ≠ .string) : .scalar '[' ∉ rest.take (lexeme c rest).2 := by
  have opens := opens_lexeme c rest
  generalize (lexeme c rest).1 = kind, (lexeme c rest).2 = n at opens notString ⊢
  cases opens with
  | number digit =>
    exact fun member => not_mem_of_isNumber (isNumber_numberRun digit rest) (List.mem_cons_of_mem c member)
  | fraction point some => exact fun member => not_mem_of_isNumber (isNumber_point rest) (List.mem_cons_of_mem _ member)
  | string quote run => exact absurd rfl notString
  | name opens =>
    intro member
    have goesOn := (isName_nameRun opens rest).2 _ member
    revert goesOn
    decide
  | _ => simp

end Token

namespace Lexeme

open Substitution (image)
open Token (scanFrom)

variable {names : List Text} {c : CodePoint} {rest : Text}

theorem first_reference {written : Text} (named : Piece.IsReferenceName written) (behind : Text) :
    first (.scalar '[') (written ++ .scalar ']' :: behind) = (.reference written, behind) := by
  have drop : (written ++ .scalar ']' :: behind).drop (written.length + 1) = behind := by
    rw [← List.drop_drop, List.drop_left]
    rfl
  rw [first, Piece.referenceAt?_of_isReferenceName named]
  simp only [List.take_left, drop]

theorem first_token (none : Piece.referenceAt? c rest = none) :
    first c rest = (.token (Token.lexeme c rest).1 (c :: rest.take (Token.lexeme c rest).2),
      rest.drop (Token.lexeme c rest).2) := by
  rw [first, none]

/-- A string literal goes from its quote to the next one that closes it. -/
theorem first_string (none : Piece.referenceAt? c rest = none) (isString : (Token.lexeme c rest).1 = .string) :
    ∃ inner behind, Token.IsQuote c ∧ rest = inner ++ c :: behind ∧
      (∀ more, Token.stringRun? c (inner ++ c :: more) = some (inner.length + 1)) ∧
        first c rest = (.token .string (c :: (inner ++ [c])), behind) := by
  obtain ⟨quote, run⟩ := Token.lexeme_eq_string isString
  obtain ⟨inner, behind, rfl, length, closes⟩ := Token.stringRun?_eq_some run
  refine ⟨inner, behind, quote, rfl, fun more => by rw [closes, length], ?_⟩
  have text : inner ++ c :: behind = (inner ++ [c]) ++ behind := by simp
  have count : (Token.lexeme c (inner ++ c :: behind)).2 = (inner ++ [c]).length := by simp [← length]
  rw [first_token none, isString, count, text, List.take_left, List.drop_left]

/-- What the scanner finds in an image where the text has a lexeme. -/
structure Found (names : List Text) (entry : Lexeme × Text) (s : Text) : Prop where
  /-- The lexeme is read as it should be, and scanning goes on behind it. -/
  apart : StandsApart entry → ∀ offset, ∃ position next,
    scanFrom offset s = ⟨(entry.1.label names).1, (entry.1.label names).2, position⟩ ::
      scanFrom next (image names entry.2)
  /-- The lexeme is read as something else. -/
  joined : ¬StandsApart entry →
    ∀ offset, ∃ t more, scanFrom offset s = t :: more ∧ (t.kind, t.text) ≠ entry.1.label names

/-- A word is read as a name, and what goes on with a name is read with it. -/
theorem found_word {entry : Lexeme × Text} {word : Text} (isName : word.IsName)
    (labelled : entry.1.label names = (.name, word))
    (apart : StandsApart entry ↔ (image names entry.2).takeWhile CodePoint.continuesName = []) :
    Found names entry (word ++ image names entry.2) where
  apart standsApart offset := by
    have nothing := apart.mp standsApart
    have all : (image names entry.2).dropWhile CodePoint.continuesName = image names entry.2 := by
      have split := List.takeWhile_append_dropWhile (p := CodePoint.continuesName) (l := image names entry.2)
      rwa [nothing, List.nil_append] at split
    rw [Token.scanFrom_word isName, nothing, all, labelled, List.append_nil]
    exact ⟨_, _, rfl⟩
  joined standsApart offset := by
    rw [Token.scanFrom_word isName]
    refine ⟨_, _, rfl, ?_⟩
    rw [labelled]
    intro same
    have none : (image names entry.2).takeWhile CodePoint.continuesName = [] := by simpa using (Prod.mk.inj same).2
    exact standsApart (apart.mpr none)

/-- A quoted text is read as it is written exactly when it holds no reference. -/
theorem found_string {q : CodePoint} {inner : Text} (quote : Token.IsQuote q) (behind : Text)
    (closes : ∀ more, Token.stringRun? q (inner ++ q :: more) = some (inner.length + 1)) :
    Found names (.token .string (q :: (inner ++ [q])), behind) (image names (q :: (inner ++ q :: behind))) := by
  have visible : q.isBlank = false := by rcases quote with rfl | rfl <;> decide
  obtain ⟨-, notBracket, -⟩ := quote.stops
  have split : image names (q :: (inner ++ q :: behind)) = image names (q :: (inner ++ [q])) ++ image names behind := by
    have pieces := quote.ofText_append (q :: inner) behind
    simp only [image, List.cons_append] at pieces ⊢
    rw [pieces, List.flatMap_append]
  constructor
  · intro noReference offset
    have lex : Token.lexeme q ((inner ++ [q]) ++ image names behind) = (.string, (inner ++ [q]).length) := by
      rw [List.append_assoc, List.singleton_append, Token.lexeme_quote quote, closes]
      simp
    rw [split, Substitution.image_of_noReference noReference, List.cons_append, Token.scanFrom_cons offset visible lex]
    exact ⟨_, _, rfl⟩
  · intro holds offset
    obtain ⟨written, member⟩ := not_forall_not.mp holds
    have differs : ¬q :: (inner ++ [q]) <+: image names (q :: (inner ++ [q])) ++ image names behind :=
      Substitution.not_isPrefix_image member _
    rw [← split, Substitution.image_plain (Piece.referenceAt?_of_ne notBracket _)] at differs
    rw [Substitution.image_plain (Piece.referenceAt?_of_ne notBracket _), scanFrom, if_neg (by simp [visible])]
    refine ⟨_, _, rfl, fun same => differs ?_⟩
    have text := (Prod.mk.inj same).2
    rw [← text]
    exact List.cons_prefix_cons.mpr ⟨rfl, List.take_prefix _ _⟩

/-- Outside string literals a token is written before the image of what stands behind it. -/
theorem image_token (none : Piece.referenceAt? c rest = none) (notString : (Token.lexeme c rest).1 ≠ .string) :
    image names (c :: rest) =
      c :: (rest.take (Token.lexeme c rest).2 ++ image names (rest.drop (Token.lexeme c rest).2)) := by
  rw [Substitution.image_plain none, ← Substitution.image_append_plain (Token.not_mem_lexeme notString),
    List.take_append_drop]

/-- A name is read as it is written unless a reference follows. -/
theorem found_name (none : Piece.referenceAt? c rest = none) (isName : (Token.lexeme c rest).1 = .name) :
    Found names (first c rest) (image names (c :: rest)) := by
  obtain ⟨opens, run⟩ := Token.lexeme_eq_name isName
  have ends : ∀ d ∈ (rest.drop (Token.lexeme c rest).2).head?, d.continuesName = false := by
    rw [run, Token.nameRun, Token.drop_length_takeWhile]
    exact Token.dropWhile_head CodePoint.continuesName rest
  have isWord : Text.IsName (c :: rest.take (Token.lexeme c rest).2) := by
    rw [run]
    exact Token.isName_nameRun opens rest
  rw [first_token none, image_token none (by simp [isName]), isName]
  refine found_word isWord rfl ?_
  rw [Substitution.takeWhile_image_eq_nil]
  exact (and_iff_left ends).symm

/-- Other tokens are read as they are written. -/
theorem found_other (visible : c.isBlank = false) (none : Piece.referenceAt? c rest = none)
    (notName : (Token.lexeme c rest).1 ≠ .name) (notString : (Token.lexeme c rest).1 ≠ .string) :
    Found names (first c rest) (image names (c :: rest)) := by
  have length : (rest.take (Token.lexeme c rest).2).length = (Token.lexeme c rest).2 := by
    simpa using Token.lexeme_le c rest
  have same : Token.lexeme c (rest.take (Token.lexeme c rest).2 ++ image names (rest.drop (Token.lexeme c rest).2)) =
      ((Token.lexeme c rest).1, (rest.take (Token.lexeme c rest).2).length) := by
    rw [← Substitution.image_append_plain (Token.not_mem_lexeme notString), List.take_append_drop,
      Token.lexeme_image names notName notString, length]
  rw [first_token none, image_token none notString]
  refine ⟨fun _ offset => ?_, fun joined => absurd ?_ joined⟩
  · rw [Token.scanFrom_cons offset visible same]
    exact ⟨_, _, rfl⟩
  · generalize (Token.lexeme c rest).1 = kind at notString notName
    cases kind <;> trivial

/-- What the scanner finds at a visible code point. -/
theorem found_first (visible : c.isBlank = false) : Found names (first c rest) (image names (c :: rest)) := by
  cases found : Piece.referenceAt? c rest with
  | some n =>
    obtain ⟨rfl, written, behind, rfl, named, rfl⟩ := Piece.referenceAt?_eq_some found
    rw [first_reference named, Substitution.image_reference named]
    exact found_word (Substitution.isName_placeholder _) rfl Substitution.takeWhile_image_eq_nil.symm
  | none =>
    by_cases isString : (Token.lexeme c rest).1 = .string
    · obtain ⟨inner, behind, quote, rfl, closes, entry⟩ := first_string found isString
      rw [entry]
      exact found_string quote behind closes
    · by_cases isName : (Token.lexeme c rest).1 = .name
      · exact found_name found isName
      · exact found_other visible found isName isString

/-- The image of a text has the tokens that its lexemes should be read as exactly when each of them stands apart. -/
theorem map_label_scan_iff (names : List Text) (t : Text) (offset : Nat) :
    (scanFrom offset (image names t)).map (fun t => (t.kind, t.text)) =
        (scan t).map (fun entry => entry.1.label names) ↔
      ∀ entry ∈ scan t, StandsApart entry := by
  fun_induction scan t generalizing offset with
  | case1 => simp [scanFrom]
  | case2 c rest blank ih =>
    have notBracket : c ≠ .scalar '[' := by
      rintro rfl
      revert blank
      decide
    rw [Substitution.image_plain (Piece.referenceAt?_of_ne notBracket rest), scanFrom, if_pos blank]
    exact ih (offset + 1)
  | case3 c rest visible ih =>
    have found : Found names (first c rest) (image names (c :: rest)) := found_first (by simpa using visible)
    obtain ⟨apart, joined⟩ := found
    by_cases standsApart : StandsApart (first c rest)
    · obtain ⟨position, next, scanned⟩ := apart standsApart offset
      rw [scanned, List.map_cons, List.map_cons, List.forall_mem_cons, ← ih next]
      simp [standsApart]
    · obtain ⟨t, more, scanned, differs⟩ := joined standsApart offset
      rw [scanned, List.map_cons, List.map_cons, List.forall_mem_cons]
      simp [standsApart, differs]

end Lexeme

/-- Replacing the references of a formula respects its lexemes exactly when they keep apart. -/
theorem respectsTokens_iff (formula : Text) : RespectsTokens formula ↔ KeepsApart formula := by
  rw [RespectsTokens, Substitution.text_ofText, Token.scan, Lexeme.map_label_scan_iff, Lexeme.keepsApart_iff]

/-- A reference inside a string literal is replaced as well. -/
theorem not_respectsTokens_quoted : ¬RespectsTokens "'[a]'" := by
  unfold RespectsTokens
  decide +kernel

end Reckoner
