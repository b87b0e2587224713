import Reckoner.Json.Read
import Reckoner.Json.Write
import Reckoner.Proofs.Numeral.Layout
import Reckoner.Proofs.Text.Lines
/-!
# Words and numbers in the journal

A number of the usual layout is read up to what may stand behind a value: as a whole number if it has neither a
fraction nor an exponent, and as a binary64 number otherwise (`readNumber_text`). So the numbers that are written, the
words and the names of numbers that are not finite are read back as they were (`spellsAtom_int`, `spellsAtom_float`).
-/
namespace Reckoner.Json

open Numeral

/-- Nothing, or what may stand behind a value inside another one. -/
def Stops (rest : Text) : Prop := ∀ c ∈ rest.head?, c = .scalar ',' ∨ c = .scalar ']' ∨ c = .scalar '\x7d'

variable {l : Layout} {rest : Text}

theorem Stops.isDigit (stops : Stops rest) : ∀ c ∈ rest.head?, c.isDigit = false := by
  intro c head
  rcases stops c head with rfl | rfl | rfl <;> decide

theorem Stops.exponentPart (stops : Stops rest) : exponentPart rest = [] := by
  unfold Json.exponentPart
  split
  next mark more =>
    rw [if_neg]
    rintro (rfl | rfl)
    · have none := stops _ rfl
      simp at none
    · have none := stops _ rfl
      simp at none
  next => rfl

theorem takeWhile_digits {t : Text} (digits : t.IsDigits) (stops : ∀ c ∈ rest.head?, c.isDigit = false) :
    (t ++ rest).takeWhile CodePoint.isDigit = t :=
  congrArg Prod.fst (Layout.splitDigits_of_head digits stops)

theorem wholeDigits_text (valid : l.IsValid) (stops : ∀ c ∈ rest.head?, c.isDigit = false) :
    wholeDigits (l.whole ++ rest) = l.whole := by
  obtain ⟨c, more, known, digit⟩ := valid.head_isDigit
  by_cases zero : c = .scalar '0'
  · have alone := valid.leading (by rw [known, zero]; rfl)
    rw [alone]
    rfl
  · have all := takeWhile_digits valid.whole stops
    rw [known] at all ⊢
    unfold wholeDigits
    split
    next same =>
      cases same
      exact absurd rfl zero
    next => exact all

/-- What follows the digits on both sides of the point is neither a digit nor a point. -/
theorem behind_point (l : Layout) (stops : Stops rest) :
    ∀ c ∈ (l.mark ++ rest).head?, c.isDigit = false ∧ c ≠ .scalar '.' := by
  intro c head
  cases mark : l.mark with
  | nil =>
    rw [mark, List.nil_append] at head
    rcases stops c head with rfl | rfl | rfl <;> decide
  | cons d more =>
    rw [mark, List.cons_append, List.head?_cons] at head
    cases Option.some.inj head
    rw [Layout.head_mark c (by rw [mark]; rfl)]
    decide

/-- What follows the whole digits of a number is no digit. -/
theorem behind_whole (l : Layout) (stops : Stops rest) :
    ∀ c ∈ (l.point ++ (l.mark ++ rest)).head?, c.isDigit = false := by
  intro c head
  by_cases pointed : l.fraction = []
  · have noPoint : l.point = [] := by rw [Layout.point, pointed]; rfl
    rw [noPoint, List.nil_append] at head
    exact (behind_point l stops c head).1
  · have someFraction : l.fraction.isEmpty = false := by simpa using pointed
    rw [Layout.point, someFraction] at head
    cases head
    decide

theorem fractionPart_text (valid : l.IsValid) (stops : Stops rest) :
    fractionPart (l.point ++ (l.mark ++ rest)) = l.point := by
  by_cases pointed : l.fraction = []
  · have noPoint : l.point = [] := by rw [Layout.point, pointed]; rfl
    rw [noPoint, List.nil_append]
    unfold fractionPart
    split
    next more same => exact absurd rfl (behind_point l stops (.scalar '.') (by rw [same]; rfl)).2
    next => rfl
  · have someFraction : l.fraction.isEmpty = false := by simpa using pointed
    have withPoint : l.point = .scalar '.' :: l.fraction := by rw [Layout.point, someFraction]; rfl
    have digits := takeWhile_digits valid.fraction fun c head => (behind_point l stops c head).1
    rw [withPoint, List.cons_append, fractionPart, digits, someFraction]
    rfl

theorem exponentPart_text (valid : l.IsValid) (stops : Stops rest) : exponentPart (l.mark ++ rest) = l.mark := by
  unfold Layout.mark
  split
  next => exact stops.exponentPart
  next negative digits known =>
    obtain ⟨all, nonempty⟩ := valid.exponent negative digits known
    have some : digits.isEmpty = false := by simpa using nonempty
    have taken := takeWhile_digits all stops.isDigit
    cases negative <;> simp [exponentPart, taken, nonempty]

/-- A number of the usual layout is read up to what may stand behind it. -/
theorem readNumber_text (valid : l.IsValid) (stops : Stops rest) :
    readNumber (l.text ++ rest) =
      if l.point.isEmpty && l.mark.isEmpty then
        match readNat? l.whole with
        | .ok n => .ok (.int (if l.negative then -n else n), rest)
        | .error e => .error (.digits e)
      else .ok (.float (l.decimal.toBinary64 l.negative), rest) := by
  obtain ⟨c, more, known, digit⟩ := valid.head_isDigit
  have sign : ((l.text ++ rest).take 1).filter (· == .scalar '-') = signed l.negative [] := by
    have notMinus : c ≠ .scalar '-' := by
      rintro rfl
      cases digit
    cases negative : l.negative <;> simp [Layout.text, signed, known, negative, notMinus]
  have unsigned : (l.text ++ rest).drop (signed l.negative []).length = l.whole ++ (l.point ++ (l.mark ++ rest)) := by
    cases negative : l.negative <;> simp [Layout.text, signed, negative]
  have minus : (signed l.negative []).isEmpty = !l.negative := by cases l.negative <;> rfl
  have written : signed l.negative [] ++ l.whole ++ l.point ++ l.mark = l.text := by
    cases negative : l.negative <;> simp [Layout.text, signed, negative]
  have noneMissing : l.whole.isEmpty = false := by simpa using valid.nonempty
  have whole := wholeDigits_text valid (behind_whole l stops)
  have fraction : (l.whole ++ (l.point ++ (l.mark ++ rest))).drop l.whole.length = l.point ++ (l.mark ++ rest) :=
    List.drop_left
  have exponent :
      (l.whole ++ (l.point ++ (l.mark ++ rest))).drop (l.whole.length + l.point.length) = l.mark ++ rest := by
    rw [← List.append_assoc, ← List.length_append, List.drop_left]
  unfold readNumber
  simp only [sign, unsigned, whole, fraction, fractionPart_text valid stops, exponent, exponentPart_text valid stops,
    written, noneMissing, List.drop_left, Layout.readDecimal?_text valid, Option.getD_some, minus]
  cases l.negative <;> rfl

/-- A whole number of at most 4300 digits is read back. -/
theorem readNumber_ofInt {n : Int} (short : n.natAbs < Nat.pow 10 maxDigits) (stops : Stops rest) :
    readNumber ((Layout.ofInt n).text ++ rest) = .ok (.int n, rest) := by
  have fits : (ofNat n.natAbs).length ≤ maxDigits := length_ofNat_le (by decide) short
  have digits : readNat? (Layout.ofInt n).whole = .ok n.natAbs := by
    rw [Layout.ofInt, readNat?, if_neg (Nat.not_lt.mpr fits), decimalNumber_ofNat]
  have sign : (if (Layout.ofInt n).negative then -(n.natAbs : Int) else n.natAbs) = n := by
    show (if decide (n < 0) = true then -(n.natAbs : Int) else n.natAbs) = n
    simp only [decide_eq_true_eq]
    split <;> omega
  rw [readNumber_text (Layout.isValid_ofInt n) stops, digits]
  show Except.ok (Json.int (if (Layout.ofInt n).negative then -(n.natAbs : Int) else n.natAbs), rest) = _
  rw [sign]

/-- A number that shows a fraction or an exponent is read as a binary64 number. -/
theorem readNumber_pointed (valid : l.IsValid) (pointed : l.IsPointed) (stops : Stops rest) :
    readNumber (l.text ++ rest) = .ok (.float (l.decimal.toBinary64 l.negative), rest) := by
  have shown : (l.point.isEmpty && l.mark.isEmpty) = false := by
    rcases pointed with fraction | exponent
    · have someFraction : l.fraction.isEmpty = false := by simpa using fraction
      rw [Layout.point, someFraction]
      rfl
    · obtain ⟨⟨negative, digits⟩, known⟩ := Option.ne_none_iff_exists'.mp exponent
      simp [Layout.mark, known]
  rw [readNumber_text valid stops, shown]
  rfl

/-- What starts with a digit, perhaps behind a minus, is no word. -/
theorem findSome?_words {c : CodePoint} (digit : c.isDigit = true) (negative : Bool) (more : Text) :
    words.findSome? (fun entry => (afterWord? entry.1 (signed negative (c :: more))).map fun rest => (entry.2, rest)) =
      none := by
  have letters : .scalar 'n' ≠ c ∧ .scalar 't' ≠ c ∧ .scalar 'f' ≠ c ∧ .scalar 'N' ≠ c ∧ .scalar 'I' ≠ c ∧
      .scalar '-' ≠ c := by
    refine ⟨?_, ?_, ?_, ?_, ?_, ?_⟩ <;>
    · rintro rfl
      cases digit
  cases negative <;> simp [words, afterWord?, signed, Text.ofString, letters]

/-- What a word or a number may start with. -/
def OpensAtom (c : CodePoint) : Prop := c.isDigit = true ∨ c ∈ ("-ntfNI" : Text)

instance (c : CodePoint) : Decidable (OpensAtom c) := inferInstanceAs (Decidable (_ ∨ _))

/-- The written form of a word or a number, which is read back before anything that may stand behind it. -/
structure SpellsAtom (j : Json) (t : Text) : Prop where
  opens : ∃ c rest, t = c :: rest ∧ OpensAtom c
  printable : t.IsPrintableAscii
  reads : ∀ rest, Stops rest → readAtom (t ++ rest) = .ok (j, rest)

theorem isPrintableAscii_text (valid : l.IsValid) : l.text.IsPrintableAscii := by
  intro c member
  rcases Layout.mem_text valid member with digit | sign
  · cases c with
    | surrogate offset => cases digit
    | scalar c =>
      simp only [CodePoint.isDigit, Char.isDigit, Bool.and_eq_true, decide_eq_true_eq, UInt32.le_iff_toNat_le] at digit
      have low : 48 ≤ c.toNat := digit.1
      have high : c.toNat ≤ 57 := digit.2
      rw [CodePoint.toNat_scalar]
      omega
  · have each : ∀ d ∈ ([.scalar '-', .scalar '+', .scalar '.', .scalar 'e'] : Text),
        0x20 ≤ d.toNat ∧ d.toNat < 0x7F := by decide
    exact each c sign

/-- A number of the usual layout is spelled by it if it is read as a number. -/
theorem spellsAtom_text {j : Json} (valid : l.IsValid)
    (number : ∀ rest, Stops rest → readNumber (l.text ++ rest) = .ok (j, rest)) : SpellsAtom j l.text := by
  obtain ⟨c, more, known, digit⟩ := valid.head_isDigit
  have shape : l.text = signed l.negative (c :: (more ++ l.point ++ l.mark)) := by
    cases negative : l.negative <;> simp [Layout.text, signed, known, negative]
  refine ⟨?_, isPrintableAscii_text valid, fun rest stops => ?_⟩
  · cases negative : l.negative with
    | true => exact ⟨_, _, by rw [shape, negative]; rfl, .inr (by decide)⟩
    | false => exact ⟨_, _, by rw [shape, negative]; rfl, .inl digit⟩
  · have noWord : words.findSome? (fun entry => (afterWord? entry.1 (l.text ++ rest)).map fun rest => (entry.2, rest)) =
        none := by
      have behind : l.text ++ rest = signed l.negative (c :: (more ++ l.point ++ l.mark ++ rest)) := by
        rw [shape]
        cases l.negative <;> simp [signed]
      rw [behind]
      exact findSome?_words digit l.negative _
    rw [← number rest stops, readAtom]
    simp only [noWord]

theorem spellsAtom_null : SpellsAtom .null "null" := ⟨⟨_, _, rfl, .inr (by decide)⟩, by decide, fun _ _ => rfl⟩

theorem spellsAtom_bool (b : Bool) : SpellsAtom (.bool b) (if b then "true" else "false") := by
  cases b
  · exact ⟨⟨_, _, rfl, .inr (by decide)⟩, by decide, fun _ _ => rfl⟩
  · exact ⟨⟨_, _, rfl, .inr (by decide)⟩, by decide, fun _ _ => rfl⟩

theorem spellsAtom_int {n : Int} {t : Text} (h : ofInt? n = .ok t) : SpellsAtom (.int n) t := by
  unfold ofInt? at h
  split at h
  next => cases h
  next short =>
    cases h
    rw [← Layout.text_ofInt]
    exact spellsAtom_text (Layout.isValid_ofInt n) fun rest stops => readNumber_ofInt (Nat.not_le.mp short) stops

theorem spellsAtom_float (x : Binary64) : SpellsAtom (.float x) (writeFloat x) := by
  cases x with
  | nan => exact ⟨⟨_, _, rfl, .inr (by decide)⟩, by decide, fun _ _ => rfl⟩
  | infinite negative =>
    cases negative
    · exact ⟨⟨_, _, rfl, .inr (by decide)⟩, by decide, fun _ _ => rfl⟩
    · exact ⟨⟨_, _, rfl, .inr (by decide)⟩, by decide, fun _ _ => rfl⟩
  | finite negative m =>
    obtain ⟨l, valid, pointed, text, value⟩ := sourceForm_reads negative m
    rw [writeFloat, text, ← value]
    · exact spellsAtom_text valid fun rest stops => readNumber_pointed valid pointed stops
    all_goals simp

end Reckoner.Json
