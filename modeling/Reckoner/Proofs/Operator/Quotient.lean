import Reckoner.Value.Apply
import Reckoner.Proofs.Binary64.Overflow
/-!
# Quotients of whole numbers that are too large

A quotient of whole numbers that is above every finite number is worked out again on its operands as binary64 numbers.
The dividend is an infinity then, and the quotient is one with the right sign as long as the divisor stays finite. With
a divisor that is too large by itself it is a quotient of two infinities, which is NaN (`overflowsSigned_iff`).
-/
namespace Reckoner.Operator

open Binary64 (IsTooLarge)

/-- The quotient of two whole numbers is no NaN, and it is an infinity with the sign of both where it is too large. -/
structure OverflowsSigned (dividend divisor : Int) : Prop where
  notNaN : applySymbol "/" (.int dividend) (.int divisor) ≠ .ok (.float .nan)
  infinite : IsTooLarge (dividend / divisor) →
    applySymbol "/" (.int dividend) (.int divisor) = .ok (.float (.infinite (decide (dividend * divisor < 0))))

variable {dividend divisor : Int}

theorem applySymbol_over_int (dividend divisor : Int) : applySymbol "/" (.int dividend) (.int divisor) =
    .ok (over.calculate (.int dividend) (.int divisor)).toValue := rfl

theorem calculate?_over_int (nonzero : divisor ≠ 0) :
    over.calculate? (.int dividend) (.int divisor) = (Binary64.ofQuotient? dividend divisor).map .float := by
  have notZero : (Number.int divisor).isZero = false := by simpa [Number.isZero] using nonzero
  rw [calculate?, if_neg (by simp [notZero])]

/-- A quotient that is not too large is finite. -/
theorem calculate_over_of_fits (nonzero : divisor ≠ 0) (fits : ¬IsTooLarge (dividend / divisor)) :
    ∃ m, over.calculate (.int dividend) (.int divisor) =
      .float (.finite (decide (dividend < 0) != decide (divisor < 0)) m) := by
  obtain ⟨x, isSome⟩ := Option.ne_none_iff_exists'.mp (mt (Binary64.ofQuotient?_eq_none_iff nonzero).mp fits)
  obtain ⟨m, -, rfl⟩ := Option.map_eq_some_iff.mp isSome
  exact ⟨m, by rw [calculate, calculate?_over_int nonzero, isSome]; rfl⟩

/-- A quotient that is too large is worked out on an infinite dividend. -/
theorem calculate_over_of_tooLarge (nonzero : divisor ≠ 0) (tooLarge : IsTooLarge (dividend / divisor)) :
    over.calculate (.int dividend) (.int divisor) =
      .float (Binary64.div (.infinite (decide (dividend < 0))) (Binary64.ofInt divisor)) := by
  rw [calculate, calculate?_over_int nonzero, (Binary64.ofQuotient?_eq_none_iff nonzero).mpr tooLarge,
    ← Binary64.ofInt_of_tooLarge (tooLarge.dividend nonzero)]
  rfl

theorem applySymbol_over_of_both (nonzero : divisor ≠ 0) (tooLarge : IsTooLarge (dividend / divisor))
    (divisorTooLarge : IsTooLarge divisor) : applySymbol "/" (.int dividend) (.int divisor) = .ok (.float .nan) := by
  rw [applySymbol_over_int, calculate_over_of_tooLarge nonzero tooLarge, Binary64.ofInt_of_tooLarge divisorTooLarge]
  rfl

/-- The sign of a quotient is that of the product. -/
theorem signs_eq_decide_mul_neg (dividendNonzero : dividend ≠ 0) (nonzero : divisor ≠ 0) :
    (decide (dividend < 0) != decide (divisor < 0)) = decide (dividend * divisor < 0) := by
  rw [Bool.eq_iff_iff, bne_iff_ne, decide_eq_true_iff, mul_neg_iff, ne_eq, decide_eq_decide]
  omega

theorem applySymbol_over_of_dividend (nonzero : divisor ≠ 0) (tooLarge : IsTooLarge (dividend / divisor))
    (divisorFits : ¬IsTooLarge divisor) : applySymbol "/" (.int dividend) (.int divisor) =
      .ok (.float (.infinite (decide (dividend * divisor < 0)))) := by
  obtain ⟨m, finite⟩ := Binary64.ofInt_of_not_tooLarge divisorFits
  rw [applySymbol_over_int, calculate_over_of_tooLarge nonzero tooLarge, finite,
    ← signs_eq_decide_mul_neg (tooLarge.dividend_ne_zero nonzero) nonzero]
  rfl

/-- Quotients of whole numbers are no NaN and overflow to an infinity with their sign, but for a quotient that is too
large with a divisor that is too large as well, which is NaN. -/
theorem overflowsSigned_iff (dividend : Int) (nonzero : divisor ≠ 0) :
    (OverflowsSigned dividend divisor ↔ ¬(IsTooLarge (dividend / divisor) ∧ IsTooLarge divisor)) ∧
      (IsTooLarge (dividend / divisor) → IsTooLarge divisor →
        applySymbol "/" (.int dividend) (.int divisor) = .ok (.float .nan)) := by
  refine ⟨⟨?_, ?_⟩, applySymbol_over_of_both nonzero⟩
  · rintro signed ⟨tooLarge, divisorTooLarge⟩
    exact signed.notNaN (applySymbol_over_of_both nonzero tooLarge divisorTooLarge)
  · intro notBoth
    by_cases tooLarge : IsTooLarge (dividend / divisor)
    · have infinite := applySymbol_over_of_dividend nonzero tooLarge fun divisorTooLarge =>
        notBoth ⟨tooLarge, divisorTooLarge⟩
      exact ⟨by simp [infinite], fun _ => infinite⟩
    · obtain ⟨m, finite⟩ := calculate_over_of_fits nonzero tooLarge
      refine ⟨?_, fun tooLarge' => absurd tooLarge' tooLarge⟩
      rw [applySymbol_over_int, finite]
      simp [Number.toValue]

/-- The negative third of a number of 400 digits. -/
theorem overflowsSigned_iff_third :
    (-3 : Int) ≠ 0 ∧ applySymbol "/" (.int (10 ^ 399)) (.int (-3)) = .ok (.float (.infinite true)) := by
  have fits : ¬IsTooLarge ((-3 : Int) : ℚ) := by
    rw [Binary64.isTooLarge_int_iff]
    decide +kernel
  have tooLarge : IsTooLarge ((10 ^ 399 : Int) / (-3 : Int)) := by
    rw [Binary64.isTooLarge_div_iff _ (by decide)]
    decide +kernel
  have signed := (overflowsSigned_iff (10 ^ 399) (by decide)).1.mpr fun both => fits both.2
  have negative : decide ((10 ^ 399 : Int) * -3 < 0) = true := by decide +kernel
  exact ⟨by decide, negative ▸ signed.infinite tooLarge⟩

/-- The quotient of a number of 701 digits and one of 351 digits is NaN. -/
theorem not_overflowsSigned_digits : ¬∀ dividend divisor : Int, divisor ≠ 0 → OverflowsSigned dividend divisor := by
  intro always
  have tooLarge : IsTooLarge ((10 ^ 700 : Int) / (10 ^ 350 : Int)) := by
    rw [Binary64.isTooLarge_div_iff _ (by decide +kernel)]
    decide +kernel
  have divisorTooLarge : IsTooLarge (10 ^ 350 : Int) := by
    rw [Binary64.isTooLarge_int_iff]
    decide +kernel
  have nonzero : (10 ^ 350 : Int) ≠ 0 := by decide +kernel
  exact (always _ _ nonzero).notNaN (applySymbol_over_of_both nonzero tooLarge divisorTooLarge)

end Reckoner.Operator
