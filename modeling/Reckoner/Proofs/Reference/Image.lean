import Reckoner.Reference
import Reckoner.Proofs.Token.Behind
/-!
# Texts with their references replaced

References are cut out of a text before it is scanned, so what scanning finds in the text with placeholders has to be
compared with what it finds in the text itself. A placeholder is a name, and neither it nor a reference holds a quote or
a backslash: digits are found where they were (`takeWhile_image`), and a quoted text that nothing closes stays so
(`stringRun?_image_isSome`).
-/
namespace Reckoner

namespace Piece

/-- How many code points the name of a reference has, if the text `c :: rest` starts with one. -/
def referenceAt? (c : CodePoint) (rest : Text) : Option Nat :=
  if c = .scalar '[' then nameLength? rest else none

/-- A text that may stand between the brackets of a reference. -/
def IsReferenceName (written : Text) : Prop := ∀ c ∈ written, namesReference c = true

variable {c : CodePoint} {rest written t : Text} {n : Nat}

theorem nameLength?_of_isReferenceName (named : IsReferenceName written) (t : Text) :
    nameLength? (written ++ .scalar ']' :: t) = some written.length := by
  have run : (written ++ .scalar ']' :: t).takeWhile namesReference = written := by
    rw [List.takeWhile_append_of_pos named, List.takeWhile_cons_of_neg (by decide), List.append_nil]
  unfold nameLength?
  simp only [run]
  simp

theorem nameLength?_eq_some (h : nameLength? t = some n) :
    ∃ written behind, t = written ++ .scalar ']' :: behind ∧ IsReferenceName written ∧ written.length = n := by
  unfold nameLength? at h
  dsimp only at h
  split at h
  next closing =>
    cases h
    obtain ⟨inside, close⟩ := List.getElem?_eq_some_iff.mp closing
    refine ⟨t.takeWhile namesReference, t.drop ((t.takeWhile namesReference).length + 1), ?_,
      fun c member => List.mem_takeWhile_imp member, rfl⟩
    rw [← close, ← List.drop_eq_getElem_cons inside]
    exact (List.prefix_iff_eq_append.mp (List.takeWhile_prefix _)).symm
  next => cases h

theorem referenceAt?_of_isReferenceName (named : IsReferenceName written) (t : Text) :
    referenceAt? (.scalar '[') (written ++ .scalar ']' :: t) = some written.length := by
  rw [referenceAt?, if_pos rfl, nameLength?_of_isReferenceName named]

theorem referenceAt?_eq_some (h : referenceAt? c rest = some n) :
    c = .scalar '[' ∧
      ∃ written behind, rest = written ++ .scalar ']' :: behind ∧ IsReferenceName written ∧ written.length = n := by
  unfold referenceAt? at h
  split at h
  next bracket => exact ⟨bracket, nameLength?_eq_some h⟩
  next => cases h

theorem referenceAt?_of_ne (other : c ≠ .scalar '[') (rest : Text) : referenceAt? c rest = none := if_neg other

@[simp] theorem ofText_nil : ofText [] = [] := by rw [ofText]

theorem ofText_reference (named : IsReferenceName written) (t : Text) :
    ofText (.scalar '[' :: (written ++ .scalar ']' :: t)) = .reference written :: ofText t := by
  rw [ofText, if_pos rfl, nameLength?_of_isReferenceName named]
  have behind : (written ++ .scalar ']' :: t).drop (written.length + 1) = t := by
    rw [← List.drop_drop, List.drop_left]
    rfl
  dsimp only
  rw [List.take_left, behind]

theorem ofText_plain (none : referenceAt? c rest = none) : ofText (c :: rest) = .plain c :: ofText rest := by
  unfold referenceAt? at none
  rw [ofText]
  split
  next bracket =>
    rw [if_pos bracket] at none
    rw [none]
  next => rfl

/-- Induction along the pieces of a text. -/
@[elab_as_elim] theorem text_induction {P : Text → Prop} (t : Text) (nil : P [])
    (reference : ∀ written rest, IsReferenceName written → P rest →
      P (.scalar '[' :: (written ++ .scalar ']' :: rest)))
    (plain : ∀ c rest, referenceAt? c rest = none → P rest → P (c :: rest)) : P t := by
  induction length : t.length using Nat.strongRecOn generalizing t with
  | ind size ih =>
    cases t with
    | nil => exact nil
    | cons c rest =>
      cases found : referenceAt? c rest with
      | none => exact plain c rest found (ih rest.length (by simp [← length]) rest rfl)
      | some n =>
        obtain ⟨rfl, written, behind, rfl, named, -⟩ := referenceAt?_eq_some found
        exact reference written behind named (ih behind.length (by simp [← length]; omega) behind rfl)

/-- The pieces of a text spell it. -/
theorem flatMap_text (t : Text) : (ofText t).flatMap text = t := by
  induction t using text_induction with
  | nil => simp
  | reference written rest named ih => simp [ofText_reference named, text, ih]
  | plain c rest none ih => simp [ofText_plain none, text, ih]

/-- A code point that is no bracket stands outside references. -/
theorem ofText_cons_of_ne (other : c ≠ .scalar '[') (t : Text) : ofText (c :: t) = .plain c :: ofText t :=
  ofText_plain (referenceAt?_of_ne other t)

theorem ofText_append_plain {s : Text} (noBracket : .scalar '[' ∉ s) (t : Text) :
    ofText (s ++ t) = s.map .plain ++ ofText t := by
  induction s with
  | nil => rfl
  | cons c s ih =>
    simp only [List.mem_cons, not_or] at noBracket
    rw [List.cons_append, ofText_cons_of_ne (Ne.symm noBracket.1), ih noBracket.2]
    rfl

/-- No reference goes across a code point that is in none. -/
theorem referenceAt?_append {q : CodePoint} (stops : namesReference q = false) (other : q ≠ .scalar ']') (s t : Text) :
    referenceAt? c (s ++ q :: t) = referenceAt? c s := by
  unfold referenceAt? nameLength?
  split
  next =>
    dsimp only
    rw [Token.takeWhile_apart fun d head => by cases head; exact stops]
    have short := (List.takeWhile_sublist (l := s) namesReference).length_le
    rcases Nat.lt_or_eq_of_le short with inside | all
    · rw [List.getElem?_append_left inside]
    · rw [all]
      simp [other]
  next => rfl

theorem ofText_append_stop {q : CodePoint} (stops : namesReference q = false) (notOpening : q ≠ .scalar '[')
    (notClosing : q ≠ .scalar ']') (s t : Text) : ofText (s ++ q :: t) = ofText (s ++ [q]) ++ ofText t := by
  induction s using text_induction with
  | nil => simp [ofText_cons_of_ne notOpening]
  | reference written rest named ih =>
    have first : (.scalar '[' :: (written ++ .scalar ']' :: rest)) ++ q :: t =
        .scalar '[' :: (written ++ .scalar ']' :: (rest ++ q :: t)) := by simp
    have second : (.scalar '[' :: (written ++ .scalar ']' :: rest)) ++ [q] =
        .scalar '[' :: (written ++ .scalar ']' :: (rest ++ [q])) := by simp
    rw [first, second, ofText_reference named, ofText_reference named, ih, List.cons_append]
  | plain c rest none ih =>
    have plainFirst : referenceAt? c (rest ++ q :: t) = .none := by rwa [referenceAt?_append stops notClosing]
    have plainSecond : referenceAt? c (rest ++ [q]) = .none := by rwa [referenceAt?_append stops notClosing]
    rw [List.cons_append, List.cons_append, ofText_plain plainFirst, ofText_plain plainSecond, ih, List.cons_append]

end Piece

open Piece (IsReferenceName referenceAt?)

namespace Substitution

theorem placeholder_eq_cons (i : Nat) : placeholder i = .scalar 'p' :: (("rop" : Text) ++ Numeral.ofNat (i + 1)) :=
  rfl

theorem isName_placeholder (i : Nat) : (placeholder i).IsName := by
  have letters : ∀ d ∈ ("rop" : Text), d.continuesName = true := by decide
  rw [placeholder_eq_cons]
  refine ⟨by decide, fun d member => ?_⟩
  rcases List.mem_append.mp member with letter | digit
  · exact letters d letter
  · rw [CodePoint.continuesName, Numeral.isDigits_ofNat (i + 1) d digit, Bool.or_true]

/-- The text with its references replaced by the placeholders of the names. -/
def image (names : List Text) (t : Text) : Text := (Piece.ofText t).flatMap (replacement names)

theorem text_ofText (formula : Text) : (ofText formula).text = image (ofText formula).names formula := rfl

variable {names : List Text} {c : CodePoint} {rest written t : Text}

@[simp] theorem image_nil : image names [] = [] := by simp [image]

theorem image_plain (none : referenceAt? c rest = none) : image names (c :: rest) = c :: image names rest := by
  rw [image, Piece.ofText_plain none]
  rfl

theorem image_reference (named : IsReferenceName written) (t : Text) :
    image names (.scalar '[' :: (written ++ .scalar ']' :: t)) =
      placeholder (names.idxOf written.strip) ++ image names t := by
  rw [image, Piece.ofText_reference named]
  rfl

theorem image_append_plain {s : Text} (noBracket : .scalar '[' ∉ s) (t : Text) :
    image names (s ++ t) = s ++ image names t := by
  rw [image, Piece.ofText_append_plain noBracket, List.flatMap_append]
  congr 1
  induction s with
  | nil => rfl
  | cons c s ih => rw [List.map_cons, List.flatMap_cons, ih fun member => noBracket (by simp [member])]; rfl

/-- What belongs to a word neither of an opening bracket nor of a placeholder is found where it was. -/
theorem takeWhile_image {p : CodePoint → Bool} (bracket : p (.scalar '[') = false) (letter : p (.scalar 'p') = false)
    (t : Text) : (image names t).takeWhile p = t.takeWhile p ∧
      (image names t).dropWhile p = image names (t.dropWhile p) := by
  induction t using Piece.text_induction with
  | nil => simp
  | reference written rest named ih =>
    have opens : ∃ more, image names (.scalar '[' :: (written ++ .scalar ']' :: rest)) = .scalar 'p' :: more :=
      ⟨_, image_reference named rest⟩
    obtain ⟨more, image⟩ := opens
    simp [image, bracket, letter]
  | plain c rest none ih =>
    rw [image_plain none]
    by_cases holds : p c = true
    · simp [holds, ih]
    · simp [holds, image_plain none]

/-- An image starts as the text does, or with the letter of a placeholder in the place of a bracket. -/
theorem image_cons_cases (names : List Text) (c : CodePoint) (rest : Text) :
    referenceAt? c rest = none ∧ image names (c :: rest) = c :: image names rest ∨
      (referenceAt? c rest).isSome ∧ c = .scalar '[' ∧ ∃ more, image names (c :: rest) = .scalar 'p' :: more := by
  cases found : referenceAt? c rest with
  | none => exact .inl ⟨rfl, image_plain found⟩
  | some n =>
    obtain ⟨rfl, written, behind, rfl, named, -⟩ := Piece.referenceAt?_eq_some found
    exact .inr ⟨by simp, rfl, _, image_reference named behind⟩

end Substitution

/-- All code points of a name go on with it. -/
theorem Text.IsName.continues {t : Text} (isName : t.IsName) : ∀ c ∈ t, c.continuesName = true := by
  cases t with
  | nil => exact isName.elim
  | cons c rest =>
    obtain ⟨opens, more⟩ := isName
    refine List.forall_mem_cons.mpr ⟨?_, more⟩
    rw [CodePoint.continuesName, opens, Bool.true_or]

namespace Token

open Substitution (image)

variable {names : List Text} {q : CodePoint}

theorem digitRun_image (names : List Text) (t : Text) : digitRun (image names t) = digitRun t :=
  congrArg List.length (Substitution.takeWhile_image (by decide) (by decide) t).1

/-- Numbers are as long as they were. -/
theorem numberRun_image (names : List Text) (t : Text) : numberRun (image names t) = numberRun t := by
  unfold numberRun
  dsimp only
  rw [digitRun_image, drop_digitRun t, ← digitRun_image names, drop_digitRun (image names t),
    (Substitution.takeWhile_image (by decide) (by decide) t).2]
  cases behind : t.dropWhile CodePoint.isDigit with
  | nil => simp
  | cons c more =>
    rcases Substitution.image_cons_cases names c more with ⟨-, image⟩ | ⟨-, rfl, others, image⟩
    · rw [image]
      by_cases point : c = .scalar '.'
      · subst point
        simp [digitRun_image]
      · simp [point]
    · simp [image]

theorem IsQuote.stops (quote : IsQuote q) :
    Piece.namesReference q = false ∧ q ≠ .scalar '[' ∧ q ≠ .scalar ']' := by
  rcases quote with rfl | rfl <;> decide

/-- No reference goes across a quote. -/
theorem IsQuote.ofText_append (quote : IsQuote q) (s t : Text) :
    Piece.ofText (s ++ q :: t) = Piece.ofText (s ++ [q]) ++ Piece.ofText t :=
  Piece.ofText_append_stop quote.stops.1 quote.stops.2.1 quote.stops.2.2 s t

/-- What is neither the quote nor a backslash leaves a quoted text open. -/
theorem stringRun?_inert {s : Text} (inert : ∀ c ∈ s, c ≠ q ∧ c ≠ .scalar '\\') (rest : Text) :
    (stringRun? q (s ++ rest)).isSome = (stringRun? q rest).isSome := by
  induction s with
  | nil => rfl
  | cons c s ih =>
    obtain ⟨notQuote, notEscape⟩ := inert c (by simp)
    rw [List.cons_append, stringRun?.eq_def]
    simp only [if_neg notQuote, if_neg notEscape, Option.isSome_map]
    exact ih fun d member => inert d (by simp [member])

theorem inert_of_isReferenceName (quote : IsQuote q) {written : Text} (named : IsReferenceName written) :
    ∀ c ∈ written ++ [.scalar ']'], c ≠ q ∧ c ≠ .scalar '\\' := by
  intro c member
  have stands : Piece.namesReference c = true ∨ c = .scalar ']' := by
    rcases List.mem_append.mp member with inside | closing
    · exact .inl (named c inside)
    · exact .inr (List.mem_singleton.mp closing)
  rcases quote with rfl | rfl <;> constructor <;> rintro rfl <;> revert stands <;> decide

theorem inert_of_isName (quote : IsQuote q) {word : Text} (named : ∀ c ∈ word, c.continuesName = true) :
    ∀ c ∈ word, c ≠ q ∧ c ≠ .scalar '\\' := by
  intro c member
  have stands := named c member
  rcases quote with rfl | rfl <;> constructor <;> rintro rfl <;> revert stands <;> decide

theorem stringRun?_escape_isSome (quote : IsQuote q) (c : CodePoint) (rest : Text) :
    (stringRun? q (.scalar '\\' :: c :: rest)).isSome = (stringRun? q rest).isSome := by
  have notQuote : CodePoint.scalar '\\' ≠ q := by rcases quote with rfl | rfl <;> decide
  rw [stringRun?.eq_def]
  simp [notQuote]

/-- A quoted text that is closed stays so, and one that is not closed too. The induction needs the text behind a
backslash as well, which takes the next code point along. -/
theorem stringRun?_image_isSome (quote : IsQuote q) (names : List Text) (t : Text) :
    (stringRun? q (image names t)).isSome = (stringRun? q t).isSome ∧
      (stringRun? q (.scalar '\\' :: image names t)).isSome = (stringRun? q (.scalar '\\' :: t)).isSome := by
  induction t using Piece.text_induction with
  | nil => simp
  | reference written rest named ih =>
    have word := (Substitution.isName_placeholder (names.idxOf written.strip)).continues
    have spelled : written ++ .scalar ']' :: rest = (written ++ [.scalar ']']) ++ rest := by simp
    have closing := inert_of_isReferenceName quote named
    have opening : CodePoint.scalar '[' ≠ q ∧ CodePoint.scalar '[' ≠ .scalar '\\' := by
      rcases quote with rfl | rfl <;> decide
    constructor
    · rw [Substitution.image_reference named, stringRun?_inert (inert_of_isName quote word), ih.1, spelled,
        ← List.cons_append, stringRun?_inert (List.forall_mem_cons.mpr ⟨opening, closing⟩)]
    · rw [Substitution.image_reference named, Substitution.placeholder_eq_cons] at *
      rw [List.cons_append, stringRun?_escape_isSome quote, stringRun?_escape_isSome quote, spelled,
        stringRun?_inert closing, stringRun?_inert (inert_of_isName quote fun d member => word d (by simp [member])),
        ih.1]
  | plain c rest none ih =>
    rw [Substitution.image_plain none]
    refine ⟨?_, by rw [stringRun?_escape_isSome quote, stringRun?_escape_isSome quote, ih.1]⟩
    by_cases isQuote : c = q
    · have closes : ∀ more, stringRun? q (q :: more) = some 1 := fun more => by rw [stringRun?.eq_def]; simp
      rw [isQuote, closes, closes]
    · by_cases escape : c = .scalar '\\'
      · rw [escape]
        exact ih.2
      · have plain : ∀ d ∈ [c], d ≠ q ∧ d ≠ .scalar '\\' := by simp [isQuote, escape]
        have here := stringRun?_inert plain (Substitution.image names rest)
        rw [List.singleton_append] at here
        rw [here, ih.1, ← List.singleton_append, stringRun?_inert plain]

end Token

end Reckoner
