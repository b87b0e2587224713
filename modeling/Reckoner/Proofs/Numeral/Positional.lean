import Reckoner.Proofs.Binary64.Rounding
import Reckoner.Proofs.Numeral.Digits
/-!
# The positional form reads back

The shortest decimal of a magnitude reads back as the magnitude: either it was found by reading it back, or it is the
exact expansion, and zeros cut from the end of a decimal do not change the number. A magnitude that is not whole has a
shortest decimal with places behind the point, so its positional form shows them.
-/
namespace Reckoner

namespace Decimal

theorem log2_of_large {d : Decimal} (nonzero : d.digits ≠ 0) (large : 400 < d.exponent) :
    2098 ≤ (d.numerator / d.denominator).log2 := by
  have noPlaces : (-d.exponent).toNat = 0 := by omega
  have whole : d.denominator = 1 := by rw [denominator, noPlaces, Nat.pow_eq, Nat.pow_zero]
  have scaled : d.digits * 10 ^ d.exponent.toNat ≠ 0 :=
    Nat.mul_ne_zero nonzero (Nat.ne_of_gt (Nat.pow_pos (by decide)))
  have power : 2 ^ (3 * d.exponent.toNat) ≤ d.digits * 10 ^ d.exponent.toNat := by
    calc 2 ^ (3 * d.exponent.toNat) = 8 ^ d.exponent.toNat := by rw [Nat.pow_mul]
      _ ≤ 10 ^ d.exponent.toNat := Nat.pow_le_pow_left (by decide) _
      _ ≤ d.digits * 10 ^ d.exponent.toNat := Nat.le_mul_of_pos_left _ (Nat.pos_of_ne_zero nonzero)
  have log := (Nat.le_log2 scaled).mpr power
  rw [whole, Nat.div_one, numerator, unitsPerOne_eq, Nat.pow_eq, log2_mul_two_pow scaled]
  omega

theorem lt_denominator_of_small {d : Decimal} (small : d.exponent + d.digits.log2 + 1 < -400) :
    2 * d.numerator < d.denominator := by
  have noZeros : d.exponent.toNat = 0 := by omega
  have places : d.digits.log2 + 402 ≤ (-d.exponent).toNat := by omega
  have top : d.digits < 2 ^ (d.digits.log2 + 1) := Nat.lt_log2_self
  have double : ∀ power, 2 * (d.digits * 2 ^ power) = d.digits * 2 ^ (power + 1) := fun power => by ring
  rw [numerator, denominator, noZeros, unitsPerOne_eq, Nat.pow_eq, Nat.pow_eq, Nat.pow_zero, Nat.mul_one]
  calc 2 * (d.digits * 2 ^ 1074) = d.digits * 2 ^ (1074 + 1) := double 1074
    _ < 2 ^ (d.digits.log2 + 1) * 2 ^ (1074 + 1) := Nat.mul_lt_mul_of_pos_right top (Nat.two_pow_pos _)
    _ = 2 ^ (d.digits.log2 + 1 + (1074 + 1)) := (Nat.pow_add _ _ _).symm
    _ ≤ 2 ^ (3 * (-d.exponent).toNat) := Nat.pow_le_pow_right (by decide) (by omega)
    _ = 8 ^ (-d.exponent).toNat := by rw [Nat.pow_mul]
    _ ≤ 10 ^ (-d.exponent).toNat := Nat.pow_le_pow_left (by decide) _

/-- The magnitude nearest to a decimal is its rounded ratio, however far out of range the decimal is. -/
theorem magnitude?_eq_round? {d : Decimal} (nonzero : d.digits ≠ 0) :
    d.magnitude? = Magnitude.round? d.numerator d.denominator := by
  unfold magnitude?
  rw [if_neg nonzero]
  split
  next large => rw [Magnitude.round?_of_large (log2_of_large nonzero large)]
  next =>
    split
    next small => rw [Magnitude.round?_of_small (lt_denominator_of_small small)]
    next => rfl

/-- A zero cut from the end of the digits raises the exponent. -/
theorem magnitude?_cut {d : Decimal} (nonzero : d.digits ≠ 0) (zero : d.digits % 10 = 0) :
    magnitude? ⟨d.digits / 10, d.exponent + 1⟩ = d.magnitude? := by
  have digits : d.digits / 10 * 10 = d.digits := Nat.div_mul_cancel (Nat.dvd_of_mod_eq_zero zero)
  have cutNonzero : d.digits / 10 ≠ 0 := by omega
  rw [magnitude?_eq_round? (d := ⟨d.digits / 10, d.exponent + 1⟩) cutNonzero, magnitude?_eq_round? nonzero]
  simp only [numerator, denominator, Nat.pow_eq]
  by_cases negative : d.exponent < 0
  · obtain ⟨places, known⟩ : ∃ places, (-d.exponent).toNat = places + 1 := ⟨(-d.exponent).toNat - 1, by omega⟩
    have fewer : (-(d.exponent + 1)).toNat = places := by omega
    have noZeros : d.exponent.toNat = 0 := by omega
    have noZerosCut : (d.exponent + 1).toNat = 0 := by omega
    rw [known, fewer, noZeros, noZerosCut, Nat.pow_zero, Nat.mul_one, Nat.mul_one, Nat.pow_succ]
    rw [← Magnitude.round?_scale (d.digits / 10 * unitsPerOne) (10 ^ places) 10 (by decide),
      Nat.mul_right_comm, digits]
  · have zeros : (d.exponent + 1).toNat = d.exponent.toNat + 1 := by omega
    have noPlaces : (-d.exponent).toNat = 0 := by omega
    have noPlacesCut : (-(d.exponent + 1)).toNat = 0 := by omega
    have same : d.digits / 10 * 10 ^ (d.exponent.toNat + 1) = d.digits * 10 ^ d.exponent.toNat := by
      rw [Nat.pow_succ', ← Nat.mul_assoc, digits]
    rw [zeros, noPlaces, noPlacesCut, same]

theorem magnitude?_trimmed (d : Decimal) : d.trimmed.magnitude? = d.magnitude? := by
  fun_induction trimmed d with
  | case1 d more ih => rw [ih, magnitude?_cut more.1 more.2]
  | case2 d done => rfl

end Decimal

namespace Magnitude

/-- Of two decimals the one that reads back is taken. -/
theorem magnitude?_of_first {m : Magnitude} {nearest other d : Decimal}
    (h : (if m.readsBack nearest then some nearest else if m.readsBack other then some other else none) = some d) :
    d.magnitude? = some m := by
  by_cases reads : m.readsBack nearest = true
  · rw [if_pos reads] at h
    cases h
    exact beq_iff_eq.mp reads
  · rw [if_neg reads] at h
    by_cases readsOther : m.readsBack other = true
    · rw [if_pos readsOther] at h
      cases h
      exact beq_iff_eq.mp readsOther
    · rw [if_neg readsOther] at h
      cases h

theorem magnitude?_of_onGrid? {m : Magnitude} {exponent : Int} {d : Decimal} (h : m.onGrid? exponent = some d) :
    d.magnitude? = some m := magnitude?_of_first h

theorem magnitude?_exactDecimal {m : Magnitude} (nonzero : m.units ≠ 0) : m.exactDecimal.magnitude? = some m := by
  have digits : m.exactDecimal.digits ≠ 0 := Nat.mul_ne_zero nonzero (Nat.ne_of_gt (Nat.pow_pos (by decide)))
  have numerator : m.exactDecimal.numerator = m.units * 10 ^ 1074 := by
    rw [Decimal.numerator, unitsPerOne_eq]
    simp only [exactDecimal, Nat.pow_eq]
    rw [show ((-1074 : Int)).toNat = 0 from rfl, Nat.pow_zero, Nat.mul_one, Nat.mul_assoc, ← Nat.mul_pow]
  have denominator : m.exactDecimal.denominator = 1 * 10 ^ 1074 := by
    rw [Decimal.denominator, Nat.pow_eq, Nat.one_mul]
    rfl
  rw [Decimal.magnitude?_eq_round? digits, numerator, denominator,
    round?_scale m.units 1 _ (Nat.pow_pos (by decide)), round?_units]

/-- The shortest decimal reads back. -/
theorem magnitude?_shortest (m : Magnitude) : m.shortest.magnitude? = some m := by
  unfold shortest
  split
  next isZero =>
    have significand : m.significand = 0 := beq_iff_eq.mp isZero
    have none : m = zero := eq_zero_of_units (by rw [units, significand, Nat.zero_mul])
    rw [none]
    rfl
  next notZero =>
    have nonzero : m.units ≠ 0 := by
      intro none
      rw [eq_zero_of_units none] at notZero
      exact notZero rfl
    dsimp only
    split
    next d found =>
      obtain ⟨k, -, grid⟩ := List.exists_of_findSome?_eq_some found
      rw [Decimal.magnitude?_trimmed, magnitude?_of_onGrid? grid]
    next => exact magnitude?_exactDecimal nonzero

/-- A magnitude with a fraction needs decimal places. -/
theorem shortest_exponent_neg {m : Magnitude} (fraction : m.units % unitsPerOne ≠ 0) : m.shortest.exponent < 0 := by
  by_contra nonnegative
  have reads := m.magnitude?_shortest
  by_cases none : m.shortest.digits = 0
  · rw [Decimal.magnitude?, if_pos none] at reads
    have units : m.units = 0 := by rw [← Option.some.inj reads, units, zero, Nat.zero_mul]
    rw [units, Nat.zero_mod] at fraction
    exact fraction rfl
  · have noPlaces : (-m.shortest.exponent).toNat = 0 := by omega
    rw [Decimal.magnitude?_eq_round? none, Decimal.denominator, noPlaces, Nat.pow_eq, Nat.pow_zero] at reads
    exact fraction (whole_of_round? reads)

end Magnitude

namespace Numeral

/-- Digits on either side of a point, as many behind it as the exponent says. -/
theorem readPointed_of_places {whole fraction : Text} {d : Decimal}
    (digits : Text.decimalNumber (whole ++ fraction) = d.digits)
    (places : (fraction.length : Int) = -d.exponent) : readPointed whole fraction = d.toBinary64 false := by
  rw [readPointed, digits, places, Int.neg_neg]

/-- A decimal with places behind the point is written with digits on both sides of it, as many behind it as the
exponent says and no zero too many before it. -/
theorem positional_parts {d : Decimal} (negative : d.exponent < 0) :
    ∃ whole fraction : Text, positional d = whole ++ .scalar '.' :: fraction ∧ whole.IsDigits ∧ whole ≠ [] ∧
      (whole.head? = some (.scalar '0') → d.digits ≠ 0 → whole = [.scalar '0']) ∧ fraction.IsDigits ∧
      Text.decimalNumber (whole ++ fraction) = d.digits ∧ (fraction.length : Int) = -d.exponent := by
  have digits := isDigits_ofNat d.digits
  have notWhole : ¬0 ≤ d.exponent := by omega
  unfold positional
  simp only [if_neg notWhole]
  split
  next short =>
    -- the point stands between the digits
    have nonempty : (ofNat d.digits).take ((ofNat d.digits).length - (-d.exponent).toNat) ≠ [] := by
      intro empty
      have length := congrArg List.length empty
      rw [List.length_take, List.length_nil] at length
      omega
    refine ⟨_, _, rfl, fun c member => digits c (List.mem_of_mem_take member), nonempty, fun zero nonzero => ?_,
      fun c member => digits c (List.mem_of_mem_drop member), ?_, ?_⟩
    · rw [← List.head?_append_of_ne_nil _ nonempty, List.take_append_drop] at zero
      exact absurd (eq_zero_of_head_ofNat zero) nonzero
    · rw [List.take_append_drop, decimalNumber_ofNat]
    · rw [List.length_drop]
      omega
  next long =>
    -- zeros fill the places before the digits
    refine ⟨[.scalar '0'], zeros ((-d.exponent).toNat - (ofNat d.digits).length) ++ ofNat d.digits, rfl,
      by simp [Text.IsDigits, CodePoint.isDigit], by simp, fun _ _ => rfl, (isDigits_zeros _).append digits, ?_, ?_⟩
    · rw [← List.append_assoc, Text.decimalNumber_append, decimalNumber_ofNat]
      have leading : Text.decimalNumber ([.scalar '0'] ++ zeros ((-d.exponent).toNat - (ofNat d.digits).length)) = 0 :=
        decimalNumber_zeros (_ + 1)
      rw [leading, Nat.zero_mul, Nat.zero_add]
    · rw [List.length_append, zeros, List.length_replicate]
      omega

/-- What is written with a point reads back. -/
theorem positional_reads {d : Decimal} (negative : d.exponent < 0) :
    ∃ whole fraction : Text, positional d = whole ++ .scalar '.' :: fraction ∧ whole.IsDigits ∧ whole ≠ [] ∧
      fraction.IsDigits ∧ readPointed whole fraction = d.toBinary64 false := by
  obtain ⟨whole, fraction, split, wholeDigits, nonempty, -, fractionDigits, digits, places⟩ := positional_parts negative
  exact ⟨whole, fraction, split, wholeDigits, nonempty, fractionDigits, readPointed_of_places digits places⟩

/-- A positive number with a fraction is read back from its positional form. -/
theorem readPointed_shortest {m : Magnitude} (fraction : m.units % unitsPerOne ≠ 0) :
    ∃ before behind : Text, positional m.shortest = before ++ .scalar '.' :: behind ∧ before.IsDigits ∧ before ≠ [] ∧
      behind.IsDigits ∧ readPointed before behind = .finite false m := by
  obtain ⟨before, behind, split, beforeDigits, nonempty, behindDigits, reads⟩ :=
    positional_reads (Magnitude.shortest_exponent_neg fraction)
  refine ⟨before, behind, split, beforeDigits, nonempty, behindDigits, ?_⟩
  rw [reads, Decimal.toBinary64, Magnitude.magnitude?_shortest]
  rfl

end Numeral
end Reckoner
