import Reckoner.Json.Read
import Reckoner.Text.Quoted
import Reckoner.Proofs.Text.Hex
import Reckoner.Proofs.Text.Lines
/-!
# Quoted text in the journal

The journal quotes a text in printable ASCII: a code point above `U+FFFF` by the two halves of its surrogate pair, every
other one outside ASCII by one escape. Reading the quotation gives the text again, except that halves of surrogate pairs
that stood next to each other are joined (`readText_quoted`).
-/
namespace Reckoner

namespace CodePoint

/-- The code units of sixteen bits by which a code point is written, as code points. -/
def units (c : CodePoint) : Text :=
  if c.toNat < 0x10000 then [c]
  else [ofNat (0xD800 + (c.toNat - 0x10000) / 0x400), ofNat (0xDC00 + (c.toNat - 0x10000) % 0x400)]

theorem units_of_low {c : CodePoint} (low : c.toNat < 0x10000) : c.units = [c] := if_pos low

theorem ofNat_high {n : Nat} (h : n < 0x400) : ofNat (0xD800 + n) = .surrogate ⟨n, by omega⟩ := by
  rw [ofNat, dif_pos (by omega)]
  simp

theorem ofNat_low {n : Nat} (h : n < 0x400) : ofNat (0xDC00 + n) = .surrogate ⟨0x400 + n, by omega⟩ := by
  rw [ofNat, dif_pos (by omega)]
  simp only [surrogate.injEq, Fin.mk.injEq]
  omega

/-- A code point above `U+FFFF` is a character written by a first and a second half. -/
theorem units_of_high {c : CodePoint} (high : ¬c.toNat < 0x10000) :
    ∃ a b, a < 0x400 ∧ b < 0x400 ∧ c.units = [ofNat (0xD800 + a), ofNat (0xDC00 + b)] ∧
      0x10000 + 0x400 * a + b = c.toNat := by
  have top := c.toNat_lt
  refine ⟨(c.toNat - 0x10000) / 0x400, (c.toNat - 0x10000) % 0x400, by omega, Nat.mod_lt _ (by decide),
    if_neg high, by omega⟩

end CodePoint

namespace Json

/-- The two halves of a pair name the code point they were taken from. -/
theorem joined?_halves {a b : Nat} (ha : a < 0x400) (hb : b < 0x400) :
    joined? (.ofNat (0xD800 + a)) (.ofNat (0xDC00 + b)) = some (.ofNat (0x10000 + 0x400 * a + b)) := by
  rw [CodePoint.ofNat_high ha, CodePoint.ofNat_low hb]
  simp only [joined?]
  rw [if_pos ⟨ha, Nat.le_add_right _ _⟩, Nat.add_sub_cancel_left]

/-- Nothing is joined with a first half behind it. -/
theorem joined?_high (c : CodePoint) {a : Nat} (ha : a < 0x400) : joined? c (.ofNat (0xD800 + a)) = none := by
  rw [CodePoint.ofNat_high ha]
  cases c with
  | scalar c => rfl
  | surrogate offset =>
    simp only [joined?]
    rw [if_neg (by omega)]

theorem joined?_of_high {c : CodePoint} (high : ¬c.toNat < 0x10000) (d : CodePoint) :
    joined? c d = none ∧ joined? d c = none := by
  cases c with
  | scalar c => exact ⟨rfl, by cases d <;> rfl⟩
  | surrogate offset =>
    rw [CodePoint.toNat_surrogate] at high
    omega

theorem joinPairs_cons_of_none {c d : CodePoint} (apart : joined? c d = none) (t : Text) :
    joinPairs (c :: d :: t) = c :: joinPairs (d :: t) := by
  rw [joinPairs, apart]

theorem joinPairs_cons_of_some {c d e : CodePoint} (joined : joined? c d = some e) (t : Text) :
    joinPairs (c :: d :: t) = e :: joinPairs t := by
  rw [joinPairs, joined]

/-- Joining the halves that characters were split into undoes the splitting, and joins what stood side by side. -/
theorem joinPairs_units (t : Text) : joinPairs (t.flatMap CodePoint.units) = joinPairs t := by
  fun_induction joinPairs t with
  | case1 => rfl
  | case2 c =>
    rw [List.flatMap_cons, List.flatMap_nil, List.append_nil]
    by_cases low : c.toNat < 0x10000
    · rw [CodePoint.units_of_low low, joinPairs]
    · obtain ⟨a, b, ha, hb, units, number⟩ := CodePoint.units_of_high low
      rw [units, joinPairs_cons_of_some (joined?_halves ha hb), number, CodePoint.ofNat_toNat, joinPairs]
  | case3 c d rest e joined ih =>
    -- both are halves already, so neither is split
    have lowFirst : c.toNat < 0x10000 := by
      by_contra high
      rw [(joined?_of_high high d).1] at joined
      cases joined
    have lowSecond : d.toNat < 0x10000 := by
      by_contra high
      rw [(joined?_of_high high c).2] at joined
      cases joined
    rw [List.flatMap_cons, List.flatMap_cons, CodePoint.units_of_low lowFirst, CodePoint.units_of_low lowSecond,
      List.singleton_append, List.singleton_append, joinPairs_cons_of_some joined, ih]
  | case4 c d rest apart ih =>
    rw [List.flatMap_cons]
    by_cases low : c.toNat < 0x10000
    · rw [CodePoint.units_of_low low, List.singleton_append, ← ih, List.flatMap_cons]
      by_cases lowNext : d.toNat < 0x10000
      · rw [CodePoint.units_of_low lowNext, List.singleton_append, joinPairs_cons_of_none apart]
      · obtain ⟨a, b, ha, hb, units, number⟩ := CodePoint.units_of_high lowNext
        rw [units, List.cons_append, joinPairs_cons_of_none (joined?_high c ha)]
    · obtain ⟨a, b, ha, hb, units, number⟩ := CodePoint.units_of_high low
      rw [units, List.cons_append, List.singleton_append, joinPairs_cons_of_some (joined?_halves ha hb), number,
        CodePoint.ofNat_toNat, ih]

variable {rest content after : Text}

theorem readUnits_unitEscape {n : Nat} (fits : n < 0x10000) (h : readUnits rest = .ok (content, after)) :
    readUnits (Text.unitEscape n ++ rest) = .ok (.ofNat n :: content, after) := by
  have number := Text.hexNumber?_hex 4 n
  have length : (Text.hex 4 n).length = 4 := Text.length_hex (by decide) (by omega)
  rw [Text.unitEscape]
  match Text.hex 4 n, length, number with
  | [a, b, c, d], _, number =>
    simp only [List.cons_append, List.nil_append]
    rw [readUnits, number]
    simp only [h]
    rfl

/-- A backslash before anything but a `u` names one code point together with what follows. -/
theorem readUnits_escape {letter c : CodePoint} (notUnit : letter ≠ .scalar 'u') (stands : escaped? letter = some c)
    (h : readUnits rest = .ok (content, after)) :
    readUnits (.scalar '\\' :: letter :: rest) = .ok (c :: content, after) := by
  rw [readUnits.eq_def]
  split
  next same => cases same
  next same => cases same
  next same =>
    cases same
    exact absurd rfl notUnit
  next same => cases same
  next same =>
    cases same
    rw [stands]
    simp only [h]
    rfl
  next notEscape same =>
    cases same
    exact (notEscape _ _ rfl rfl).elim

theorem readUnits_plain {c : CodePoint} (notQuote : c ≠ .scalar '"') (notEscape : c ≠ .scalar '\\')
    (visible : 0x20 ≤ c.toNat) (h : readUnits rest = .ok (content, after)) :
    readUnits (c :: rest) = .ok (c :: content, after) := by
  rw [readUnits.eq_def]
  split
  next same => cases same
  next same =>
    cases same
    exact absurd rfl notQuote
  next same =>
    cases same
    exact absurd rfl notEscape
  next same =>
    cases same
    exact absurd rfl notEscape
  next same =>
    cases same
    exact absurd rfl notEscape
  next same =>
    cases same
    rw [if_neg (Nat.not_lt.mpr visible)]
    simp only [h]
    rfl

theorem escapeLetter?_eq_some {c : CodePoint} {letter : Char} (h : c.escapeLetter? = some letter) :
    letter ≠ 'u' ∧ escaped? (.scalar letter) = some c := by
  unfold CodePoint.escapeLetter? at h
  split at h <;> cases h <;> decide

theorem readUnits_unitEscapes {c : CodePoint} (h : readUnits rest = .ok (content, after)) :
    readUnits (Text.unitEscapes c.toNat ++ rest) = .ok (c.units ++ content, after) := by
  unfold Text.unitEscapes CodePoint.units
  have top := c.toNat_lt
  split
  next low =>
    rw [readUnits_unitEscape low h, CodePoint.ofNat_toNat]
    rfl
  next high =>
    rw [List.append_assoc, readUnits_unitEscape (by omega) (readUnits_unitEscape (by omega) h)]
    rfl

/-- A quoted code point is read as its code units. -/
theorem readUnits_quotedChar (c : CodePoint) (h : readUnits rest = .ok (content, after)) :
    readUnits (Text.quotedChar .ascii c ++ rest) = .ok (c.units ++ content, after) := by
  unfold Text.quotedChar
  cases letter : c.escapeLetter? with
  | some l =>
    obtain ⟨notUnit, stands⟩ := escapeLetter?_eq_some letter
    have low : c.toNat < 0x10000 := by
      unfold CodePoint.escapeLetter? at letter
      split at letter <;> first | decide | cases letter
    rw [CodePoint.units_of_low low]
    exact readUnits_escape (by simpa using notUnit) stands h
  | none =>
    dsimp only
    split
    next => exact readUnits_unitEscapes h
    next plain =>
      have bounds : 0x20 ≤ c.toNat ∧ c.toNat < 0x7F := by
        simp only [true_and, not_or] at plain
        omega
      have notQuote : c ≠ .scalar '"' := by
        rintro rfl
        cases letter
      have notEscape : c ≠ .scalar '\\' := by
        rintro rfl
        cases letter
      rw [CodePoint.units_of_low (by omega)]
      exact readUnits_plain notQuote notEscape bounds.1 h

theorem readUnits_quoted (t rest : Text) :
    readUnits (t.flatMap (Text.quotedChar .ascii) ++ .scalar '"' :: rest) = .ok (t.flatMap CodePoint.units, rest) := by
  induction t with
  | nil => rw [List.flatMap_nil, List.nil_append, List.flatMap_nil, readUnits]
  | cons c t ih =>
    rw [List.flatMap_cons, List.append_assoc, readUnits_quotedChar c ih, List.flatMap_cons]

/-- A quoted text is read back, with the halves of surrogate pairs in it joined. -/
theorem readText_quoted (t rest : Text) :
    readText (t.flatMap (Text.quotedChar .ascii) ++ .scalar '"' :: rest) = .ok (joinPairs t, rest) := by
  rw [readText, readUnits_quoted]
  show Except.ok (joinPairs (t.flatMap CodePoint.units), rest) = _
  rw [joinPairs_units]

end Json

namespace Text

theorem IsHexDigit.printable {c : CodePoint} (digit : IsHexDigit c) : 0x20 ≤ c.toNat ∧ c.toNat < 0x7F := by
  obtain ⟨d, small, rfl⟩ := digit
  have each : ∀ d < 16, 0x20 ≤ (CodePoint.scalar d.digitChar).toNat ∧ (CodePoint.scalar d.digitChar).toNat < 0x7F := by
    decide
  exact each d small

theorem isPrintableAscii_unitEscape (n : Nat) : (unitEscape n).IsPrintableAscii := by
  intro c member
  simp only [unitEscape, List.mem_cons] at member
  rcases member with rfl | rfl | digit
  · decide
  · decide
  · exact (isHexDigit_hex 4 n c digit).printable

theorem isPrintableAscii_quotedChar (c : CodePoint) : (quotedChar .ascii c).IsPrintableAscii := by
  unfold quotedChar
  cases letter : c.escapeLetter? with
  | some l =>
    unfold CodePoint.escapeLetter? at letter
    split at letter <;> cases letter <;> simp [IsPrintableAscii]
  | none =>
    dsimp only
    split
    next =>
      unfold unitEscapes
      split
      · exact isPrintableAscii_unitEscape _
      · exact (isPrintableAscii_unitEscape _).append (isPrintableAscii_unitEscape _)
    next plain =>
      simp only [true_and, not_or] at plain
      simp only [IsPrintableAscii, List.mem_singleton, forall_eq]
      omega

/-- The journal's quotations are printable ASCII. -/
theorem isPrintableAscii_quoted (t : Text) : (t.quoted .ascii).IsPrintableAscii := by
  intro c member
  simp only [quoted, List.mem_cons, List.mem_append, List.mem_flatMap, List.not_mem_nil, or_false] at member
  rcases member with (rfl | ⟨d, -, inside⟩) | rfl
  · decide
  · exact isPrintableAscii_quotedChar d c inside
  · decide

end Text
end Reckoner
