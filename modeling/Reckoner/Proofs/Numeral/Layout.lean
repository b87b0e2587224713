import Reckoner.Proofs.Numeral.Positional
/-!
# The layout of written numbers

A number is written as a sign, whole digits, perhaps a fraction behind a point and perhaps an exponent. What a number of
this layout is read as depends on its parts alone (`readDecimal?_text`). The source form of a finite binary64 number has
this layout with a fraction or an exponent, and reads back as the number (`sourceForm_reads`). The form of formulas
never has an exponent (`IsPositional`).
-/
namespace Reckoner

namespace Decimal

/-- Zeros at the end of the digits lower the exponent. -/
theorem magnitude?_shift (digits zeros : Nat) (exponent : Int) :
    magnitude? ⟨digits * 10 ^ zeros, exponent - zeros⟩ = magnitude? ⟨digits, exponent⟩ := by
  by_cases none : digits = 0
  · simp [magnitude?, none]
  induction zeros with
  | zero => simp
  | succ zeros ih =>
    have nonzero : digits * 10 ^ (zeros + 1) ≠ 0 := Nat.mul_ne_zero none (Nat.ne_of_gt (Nat.pow_pos (by decide)))
    have split : digits * 10 ^ (zeros + 1) = digits * 10 ^ zeros * 10 := by rw [Nat.pow_succ, Nat.mul_assoc]
    have cut := magnitude?_cut (d := ⟨digits * 10 ^ (zeros + 1), exponent - (zeros + 1 : Nat)⟩) nonzero
      (by rw [split, Nat.mul_mod_left])
    have raised : exponent - ((zeros + 1 : Nat) : Int) + 1 = exponent - zeros := by omega
    rw [← cut, ← ih]
    simp only [split, Nat.mul_div_cancel _ (by decide : 0 < 10), raised]

end Decimal

namespace Numeral

/-- The parts of a written number: a sign, the digits on both sides of the point, and an exponent with a sign of its
own. -/
structure Layout where
  negative : Bool
  whole : Text
  fraction : Text
  exponent : Option (Bool × Text)

namespace Layout

variable {l : Layout}

/-- The point with the fraction, if there is one. -/
def point (l : Layout) : Text := if l.fraction.isEmpty then [] else .scalar '.' :: l.fraction

/-- The exponent with its mark, if there is one. -/
def mark (l : Layout) : Text :=
  match l.exponent with
  | none => []
  | some (negative, digits) => .scalar 'e' :: .scalar (if negative then '-' else '+') :: digits

/-- The written number. -/
def text (l : Layout) : Text := signed l.negative (l.whole ++ l.point ++ l.mark)

/-- The number that the exponent names. -/
def power (l : Layout) : Int :=
  match l.exponent with
  | none => 0
  | some (negative, digits) => if negative then -(Text.decimalNumber digits : Int) else Text.decimalNumber digits

/-- The magnitude of the number. -/
def decimal (l : Layout) : Decimal := ⟨Text.decimalNumber (l.whole ++ l.fraction), l.power - l.fraction.length⟩

/-- There are digits, none but a lone zero starts with a zero, and an exponent has digits too. -/
structure IsValid (l : Layout) : Prop where
  whole : l.whole.IsDigits
  nonempty : l.whole ≠ []
  leading : l.whole.head? = some (.scalar '0') → l.whole = [.scalar '0']
  fraction : l.fraction.IsDigits
  exponent : ∀ negative digits, l.exponent = some (negative, digits) → digits.IsDigits ∧ digits ≠ []

/-- There is a fraction or an exponent. -/
def IsPointed (l : Layout) : Prop := l.fraction ≠ [] ∨ l.exponent ≠ none

/-- The mark of an exponent is no digit and no point. -/
theorem head_mark : ∀ c ∈ l.mark.head?, c = .scalar 'e' := by
  intro c head
  unfold mark at head
  split at head
  · cases head
  · exact (Option.some.inj head).symm

theorem readExponent?_mark (valid : l.IsValid) : readExponent? l.mark = some l.power := by
  unfold mark power
  cases known : l.exponent with
  | none => rfl
  | some sign =>
    obtain ⟨negative, digits⟩ := sign
    obtain ⟨all, nonempty⟩ := valid.exponent negative digits known
    have every : digits.all CodePoint.isDigit = true := List.all_eq_true.mpr all
    have some : digits.isEmpty = false := by simpa using nonempty
    cases negative <;> simp [readExponent?, splitSign, every, some]

theorem splitDigits_of_head {t rest : Text} (digits : t.IsDigits) (stops : ∀ c ∈ rest.head?, c.isDigit = false) :
    splitDigits (t ++ rest) = (t, rest) := by
  have none : rest.takeWhile CodePoint.isDigit = [] := by
    cases rest with
    | nil => rfl
    | cons c rest => rw [List.takeWhile_cons_of_neg (by simp [stops c rfl])]
  have all : rest.dropWhile CodePoint.isDigit = rest := by
    cases rest with
    | nil => rfl
    | cons c rest => rw [List.dropWhile_cons_of_neg (by simp [stops c rfl])]
  rw [splitDigits, List.takeWhile_append_of_pos digits, List.dropWhile_append_of_pos digits, none, all, List.append_nil]

theorem IsValid.head_isDigit (valid : l.IsValid) : ∃ c rest, l.whole = c :: rest ∧ c.isDigit = true := by
  obtain ⟨c, rest, known⟩ := List.exists_cons_of_ne_nil valid.nonempty
  exact ⟨c, rest, known, valid.whole c (by simp [known])⟩

theorem splitSign_signed {t : Text} {c : CodePoint} {rest : Text} (known : t = c :: rest) (digit : c.isDigit = true)
    (negative : Bool) : splitSign (signed negative t) = (negative, t) := by
  subst known
  cases negative with
  | true => rfl
  | false =>
    rw [signed, if_neg (by decide)]
    unfold splitSign
    split
    next same =>
      cases same
      cases digit
    next same =>
      cases same
      cases digit
    next => rfl

/-- A number of the layout is read as its parts say. -/
theorem readDecimal?_text (valid : l.IsValid) : readDecimal? l.text = some (l.decimal.toBinary64 l.negative) := by
  obtain ⟨c, more, known, digit⟩ := valid.head_isDigit
  have unsigned : l.whole ++ l.point ++ l.mark = c :: (more ++ l.point ++ l.mark) := by rw [known]; simp
  have sign : splitSign l.text = (l.negative, l.whole ++ l.point ++ l.mark) :=
    splitSign_signed unsigned digit l.negative
  have markStops : ∀ c ∈ l.mark.head?, c.isDigit = false := by
    intro c head
    rw [head_mark c head]
    decide
  have noneMissing : l.whole.isEmpty = false := by simpa using valid.nonempty
  unfold readDecimal?
  rw [sign]
  by_cases pointed : l.fraction = []
  · have noPoint : l.point = [] := by rw [point, pointed]; rfl
    have digits : splitDigits (l.whole ++ l.point ++ l.mark) = (l.whole, l.mark) := by
      rw [noPoint, List.append_nil, splitDigits_of_head valid.whole markStops]
    have notPoint : ∀ rest : Text, l.mark ≠ .scalar '.' :: rest := by
      intro rest same
      have head := head_mark (.scalar '.') (by rw [same]; rfl)
      cases head
    simp only [digits]
    -- by `notPoint` what follows the whole digits is the exponent
    simp [noneMissing, readExponent?_mark valid, decimal, pointed]
  · have someFraction : l.fraction.isEmpty = false := by simpa using pointed
    have withPoint : l.point = .scalar '.' :: l.fraction := by rw [point, someFraction]; rfl
    have digits : splitDigits (l.whole ++ l.point ++ l.mark) = (l.whole, .scalar '.' :: (l.fraction ++ l.mark)) := by
      rw [withPoint, List.append_assoc, splitDigits_of_head valid.whole (by simp [CodePoint.isDigit])]
      rfl
    simp only [digits, splitDigits_of_head valid.fraction markStops]
    simp [noneMissing, readExponent?_mark valid, decimal]

/-- The characters of a written number. -/
theorem mem_text (valid : l.IsValid) {c : CodePoint} (member : c ∈ l.text) :
    c.isDigit = true ∨ c ∈ ([.scalar '-', .scalar '+', .scalar '.', .scalar 'e'] : Text) := by
  have inside : c = .scalar '-' ∨ c ∈ l.whole ∨ c ∈ l.point ∨ c ∈ l.mark := by
    cases negative : l.negative with
    | true => simpa [text, signed, negative] using member
    | false => exact .inr (by simpa [text, signed, negative] using member)
  rcases inside with rfl | whole | point | mark
  · simp
  · exact .inl (valid.whole c whole)
  · unfold Layout.point at point
    split at point
    · cases point
    · rcases List.mem_cons.mp point with rfl | fraction
      · simp
      · exact .inl (valid.fraction c fraction)
  · unfold Layout.mark at mark
    split at mark
    · cases mark
    next negative digits known =>
      have allDigits := (valid.exponent negative digits known).1
      rcases List.mem_cons.mp mark with rfl | sign
      · simp
      · rcases List.mem_cons.mp sign with rfl | digit
        · cases negative <;> simp
        · exact .inl (allDigits c digit)

/-- The layout of a whole number. -/
def ofInt (n : Int) : Layout := ⟨decide (n < 0), ofNat n.natAbs, [], none⟩

theorem text_ofInt (n : Int) : (ofInt n).text = Numeral.ofInt n := by
  by_cases negative : n < 0 <;> simp [ofInt, Numeral.ofInt, text, point, mark, signed, negative]

theorem isValid_ofNat (negative : Bool) (n : Nat) : IsValid ⟨negative, ofNat n, [], none⟩ where
  whole := isDigits_ofNat n
  nonempty := ofNat_ne_nil n
  leading := fun zero => by rw [eq_zero_of_head_ofNat zero]; rfl
  fraction := by simp [Text.IsDigits]
  exponent := by simp

theorem isValid_ofInt (n : Int) : (ofInt n).IsValid := isValid_ofNat (decide (n < 0)) n.natAbs

end Layout

theorem shortest_of_digits {m : Magnitude} (none : m.shortest.digits = 0) : m = .zero := by
  have reads := m.magnitude?_shortest
  rw [Decimal.magnitude?, if_pos none] at reads
  exact (Option.some.inj reads).symm

theorem toBinary64_of_magnitude? {d : Decimal} {m : Magnitude} (h : d.magnitude? = some m) (negative : Bool) :
    d.toBinary64 negative = .finite negative m := by
  rw [Decimal.toBinary64, h]
  rfl

/-- A decimal without places behind the point is written with a fraction of one zero. -/
theorem sourceForm_whole {m : Magnitude} (whole : 0 ≤ m.shortest.exponent) (negative : Bool) :
    ∃ l : Layout, l.IsValid ∧ l.IsPointed ∧ signed negative (positional m.shortest ++ ".0") = l.text ∧
      l.decimal.toBinary64 l.negative = .finite negative m := by
  refine ⟨⟨negative, ofNat m.shortest.digits ++ zeros m.shortest.exponent.toNat, [.scalar '0'], none⟩,
    ⟨(isDigits_ofNat _).append (isDigits_zeros _), by simp [ofNat_ne_nil], ?_,
      by simp [Text.IsDigits, CodePoint.isDigit], by simp⟩, .inl (by simp), ?_, ?_⟩
  · intro zero
    rw [List.head?_append_of_ne_nil _ (ofNat_ne_nil _)] at zero
    rw [shortest_of_digits (eq_zero_of_head_ofNat zero)]
    rfl
  · simp [positional, if_pos whole, Layout.text, Layout.point, Layout.mark, Text.ofString]
  · refine toBinary64_of_magnitude? ?_ negative
    have zero : Text.decimalNumber [.scalar '0'] = 0 := rfl
    have digits : Text.decimalNumber ((ofNat m.shortest.digits ++ zeros m.shortest.exponent.toNat) ++ [.scalar '0']) =
        m.shortest.digits * 10 ^ (m.shortest.exponent.toNat + 1) := by
      rw [Text.decimalNumber_append, Text.decimalNumber_append, decimalNumber_ofNat, decimalNumber_zeros, zero,
        zeros, List.length_replicate, List.length_singleton, Nat.add_zero, Nat.add_zero, Nat.pow_one, Nat.pow_succ,
        Nat.mul_assoc]
    have exponent : (0 : Int) - ([CodePoint.scalar '0'] : Text).length =
        m.shortest.exponent - (m.shortest.exponent.toNat + 1 : Nat) := by
      rw [List.length_singleton]
      omega
    show Decimal.magnitude? ⟨_, (0 : Int) - _⟩ = _
    rw [digits, exponent, Decimal.magnitude?_shift]
    exact m.magnitude?_shortest

/-- A decimal with places behind the point is written with a fraction and no exponent. -/
theorem exists_layout_of_places {m : Magnitude} (places : m.shortest.exponent < 0) (negative : Bool) :
    ∃ l : Layout, l.IsValid ∧ l.fraction ≠ [] ∧ l.exponent = none ∧ signed negative (positional m.shortest) = l.text ∧
      l.decimal.toBinary64 l.negative = .finite negative m := by
  obtain ⟨whole, fraction, split, wholeDigits, nonempty, leading, fractionDigits, digits, behind⟩ :=
    positional_parts places
  have some : fraction ≠ [] := by
    rintro rfl
    rw [List.length_nil] at behind
    omega
  have nonzero : m.shortest.digits ≠ 0 := by
    intro none
    rw [shortest_of_digits none] at places
    exact absurd places (by decide)
  refine ⟨⟨negative, whole, fraction, none⟩, ⟨wholeDigits, nonempty, fun zero => leading zero nonzero, fractionDigits,
    by simp⟩, some, rfl, ?_, ?_⟩
  · have shown : fraction.isEmpty = false := by simpa using some
    simp [split, Layout.text, Layout.point, Layout.mark, shown]
  · refine toBinary64_of_magnitude? ?_ negative
    show Decimal.magnitude? ⟨_, (0 : Int) - fraction.length⟩ = _
    rw [digits, behind, Int.zero_sub, Int.neg_neg]
    exact m.magnitude?_shortest

/-- A decimal with places behind the point shows them. -/
theorem sourceForm_fraction {m : Magnitude} (places : m.shortest.exponent < 0) (negative : Bool) :
    ∃ l : Layout, l.IsValid ∧ l.IsPointed ∧ signed negative (positional m.shortest) = l.text ∧
      l.decimal.toBinary64 l.negative = .finite negative m := by
  obtain ⟨l, valid, fraction, -, text, reads⟩ := exists_layout_of_places places negative
  exact ⟨l, valid, .inl fraction, text, reads⟩

/-- One digit before the point, and an exponent that makes up for those behind it. -/
theorem sourceForm_scientific (m : Magnitude) (negative : Bool) :
    ∃ l : Layout, l.IsValid ∧ l.IsPointed ∧ signed negative (scientific m.shortest) = l.text ∧
      l.decimal.toBinary64 l.negative = .finite negative m := by
  have digits := isDigits_ofNat m.shortest.digits
  obtain ⟨first, others, known⟩ := List.exists_cons_of_ne_nil (ofNat_ne_nil m.shortest.digits)
  let leading : Int := m.shortest.exponent + (ofNat m.shortest.digits).length - 1
  let power : Text := zeros (2 - (ofNat leading.natAbs).length) ++ ofNat leading.natAbs
  have powerDigits : power.IsDigits := (isDigits_zeros _).append (isDigits_ofNat _)
  have powerNumber : Text.decimalNumber power = leading.natAbs := by
    rw [Text.decimalNumber_append, decimalNumber_zeros, decimalNumber_ofNat, Nat.zero_mul, Nat.zero_add]
  refine ⟨⟨negative, [first], others, some (decide (leading < 0), power)⟩,
    ⟨fun c member => digits c (by rw [known]; simp_all), by simp, fun zero => by rw [Option.some.inj zero],
      fun c member => digits c (by rw [known]; simp [member]), ?_⟩, .inr (by simp), ?_, ?_⟩
  · rintro _ _ ⟨⟩
    exact ⟨powerDigits, by simp [power, ofNat_ne_nil]⟩
  · have front : (ofNat m.shortest.digits).take 1 ++ (if (ofNat m.shortest.digits).length ≤ 1 then ([] : Text)
        else .scalar '.' :: (ofNat m.shortest.digits).drop 1) =
        [first] ++ if others.isEmpty then [] else .scalar '.' :: others := by
      rw [known]
      cases others <;> simp
    have sign : (if leading < 0 then '-' else '+') = if decide (leading < 0) = true then '-' else '+' := by simp
    show signed negative ((ofNat m.shortest.digits).take 1 ++ _ ++
      [.scalar 'e', .scalar (if leading < 0 then '-' else '+')] ++ zeros (2 - (ofNat leading.natAbs).length) ++
      ofNat leading.natAbs) = signed negative ([first] ++ (if others.isEmpty then [] else .scalar '.' :: others) ++
        .scalar 'e' :: .scalar (if decide (leading < 0) = true then '-' else '+') :: power)
    rw [front, sign]
    simp only [power, List.append_assoc, List.cons_append, List.nil_append]
  · refine toBinary64_of_magnitude? ?_ negative
    have number : Text.decimalNumber ([first] ++ others) = m.shortest.digits := by
      rw [List.singleton_append, ← known, decimalNumber_ofNat]
    have signedPower : (if decide (leading < 0) = true then -(Text.decimalNumber power : Int)
        else Text.decimalNumber power) = leading := by
      rw [powerNumber]
      simp only [decide_eq_true_eq]
      split <;> omega
    have length : (ofNat m.shortest.digits).length = others.length + 1 := by rw [known]; rfl
    have exponent : leading - others.length = m.shortest.exponent := by
      show m.shortest.exponent + (ofNat m.shortest.digits).length - 1 - others.length = _
      omega
    show Decimal.magnitude? ⟨_, (if decide (leading < 0) = true then -(Text.decimalNumber power : Int)
      else Text.decimalNumber power) - others.length⟩ = _
    rw [number, signedPower, exponent]
    exact m.magnitude?_shortest

/-- The source form of a finite number has a fraction or an exponent, and reads back. -/
theorem sourceForm_reads (negative : Bool) (m : Magnitude) :
    ∃ l : Layout, l.IsValid ∧ l.IsPointed ∧ sourceForm (.finite negative m) = l.text ∧
      l.decimal.toBinary64 l.negative = .finite negative m := by
  unfold sourceForm
  dsimp only
  split
  · split
    next whole => exact sourceForm_whole whole negative
    next places => exact sourceForm_fraction (by omega) negative
  · exact sourceForm_scientific m negative

/-- A sign if there is one, digits, and a fraction behind a point if there is one, but no exponent. -/
def IsPositional (t : Text) : Prop := ∃ l : Layout, l.IsValid ∧ l.exponent = none ∧ t = l.text

theorem isPositional_ofInt (n : Int) : IsPositional (Numeral.ofInt n) :=
  ⟨.ofInt n, Layout.isValid_ofInt n, rfl, (Layout.text_ofInt n).symm⟩

theorem isPositional_ofBinary64 (negative : Bool) (m : Magnitude) :
    IsPositional (ofBinary64 (.finite negative m)) := by
  rw [ofBinary64]
  split
  next whole =>
    exact ⟨⟨negative, ofNat (m.units / unitsPerOne), [], none⟩, Layout.isValid_ofNat negative _, rfl,
      by simp [Layout.text, Layout.point, Layout.mark]⟩
  next fraction =>
    obtain ⟨l, valid, -, noExponent, text, -⟩ :=
      exists_layout_of_places (Magnitude.shortest_exponent_neg fraction) negative
    exact ⟨l, valid, noExponent, text⟩

end Numeral
end Reckoner
