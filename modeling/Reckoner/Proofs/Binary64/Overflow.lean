import Reckoner.Proofs.Binary64.Rounding
import Mathlib.Algebra.Order.Field.Basic
import Mathlib.Algebra.Order.Field.Rat
/-!
# Where the finite numbers end

A ratio is rounded above the greatest magnitude exactly from halfway between it and the next power of two on, for the
greatest significand is odd and a tie goes away from it (`round?_eq_none_iff`). So whole numbers and quotients of whole
numbers have no finite binary64 number exactly from `overflowBound` on.
-/
namespace Reckoner

/-- Rounding goes above an odd number exactly from halfway to the next one on. -/
theorem lt_roundedQuotient_iff_of_odd {numerator denominator bound : Nat} (positive : 0 < denominator)
    (odd : bound % 2 = 1) :
    bound < roundedQuotient numerator denominator ↔ (2 * bound + 1) * denominator ≤ 2 * numerator := by
  have whole := Nat.div_add_mod numerator denominator
  have small := Nat.mod_lt numerator positive
  have low := le_roundedQuotient numerator denominator
  have high := roundedQuotient_le numerator denominator
  have halfway : (2 * bound + 1) * denominator = 2 * (denominator * bound) + denominator := by ring
  rcases Nat.lt_trichotomy (numerator / denominator) bound with below | same | above
  · have product := Nat.mul_le_mul_left denominator (Nat.succ_le_of_lt below)
    rw [Nat.succ_eq_add_one, Nat.mul_add_one] at product
    exact iff_of_false (by omega) (by omega)
  · rw [same] at whole
    unfold roundedQuotient
    dsimp only
    rw [same]
    split <;> omega
  · have product := Nat.mul_le_mul_left denominator (Nat.succ_le_of_lt above)
    rw [Nat.succ_eq_add_one, Nat.mul_add_one] at product
    exact iff_of_true (by omega) (by omega)

namespace Magnitude

/-- A ratio has no rounding exactly if its grid is too coarse, or if it is the coarsest one and its last point is
passed. -/
theorem round?_eq_none {numerator denominator : Nat} :
    round? numerator denominator = none ↔
      2045 < scaleFor (numerator / denominator) ∨ scaleFor (numerator / denominator) = 2045 ∧
        roundedQuotient numerator (denominator * Nat.pow 2 (scaleFor (numerator / denominator))) = Nat.pow 2 53 := by
  unfold round?
  dsimp only
  split
  next full =>
    split
    next fits => exact iff_of_false (by simp) (by omega)
    next tooCoarse => exact iff_of_true rfl (by omega)
  next notFull =>
    split
    next fits => exact iff_of_false (by simp) (by omega)
    next tooCoarse => exact iff_of_true rfl (by omega)

/-- The scale of a count of units, by bounds on the count. -/
theorem lt_scaleFor_iff {units bound : Nat} : bound < scaleFor units ↔ 2 ^ (bound + 53) ≤ units := by
  unfold scaleFor
  by_cases zero : units = 0
  · subst zero
    exact iff_of_false (by simp) (Nat.not_le.mpr (Nat.two_pow_pos _))
  · rw [← Nat.le_log2 zero]
    omega

theorem roundedQuotient_scaleFor_le (numerator denominator : Nat) :
    roundedQuotient numerator (denominator * Nat.pow 2 (scaleFor (numerator / denominator))) ≤ Nat.pow 2 53 := by
  have low := div_scaleFor_lt (numerator / denominator)
  have high := roundedQuotient_le numerator (denominator * Nat.pow 2 (scaleFor (numerator / denominator)))
  rw [← Nat.div_div_eq_div_mul] at high
  omega

/-- Half the distance between the two greatest magnitudes, in units. -/
def halfSpacing : Nat := 2 ^ 970 * unitsPerOne

theorem halfSpacing_pos : 0 < halfSpacing := Nat.mul_pos (Nat.two_pow_pos 970) unitsPerOne_pos

theorem two_pow_eq_mul_halfSpacing (power : Nat) : 2 ^ (power + 2044) = 2 ^ power * halfSpacing := by
  have parts : power + 2044 = power + 970 + 1074 := by omega
  rw [parts, Nat.pow_add, Nat.pow_add, halfSpacing, unitsPerOne_eq, Nat.mul_assoc]

/-- A ratio has no rounding exactly from halfway between the greatest magnitude and the next power of two on. -/
theorem round?_eq_none_iff {numerator denominator : Nat} (positive : 0 < denominator) :
    round? numerator denominator = none ↔ (2 ^ 54 - 1) * (halfSpacing * denominator) ≤ numerator := by
  have coarse (above : Nat) : 2044 + above < scaleFor (numerator / denominator) ↔
      2 ^ (above + 53) * (halfSpacing * denominator) ≤ numerator := by
    have power : 2044 + above + 53 = above + 53 + 2044 := by omega
    have units : 2 ^ (2044 + above + 53) = 2 ^ (above + 53) * halfSpacing :=
      (congrArg _ power).trans (two_pow_eq_mul_halfSpacing _)
    rw [lt_scaleFor_iff, Nat.le_div_iff_mul_le positive, units, Nat.mul_assoc]
  have unit : 0 < halfSpacing * denominator := Nat.mul_pos halfSpacing_pos positive
  rw [round?_eq_none]
  rcases Nat.lt_trichotomy (scaleFor (numerator / denominator)) 2045 with below | same | above
  · have small := mt (coarse 0).mpr (by omega)
    exact iff_of_false (by omega) (by omega)
  · have notAbove := roundedQuotient_scaleFor_le numerator denominator
    have spacing : denominator * Nat.pow 2 (1 + 2044) = 2 * (halfSpacing * denominator) := by
      calc denominator * Nat.pow 2 (1 + 2044)
          = denominator * (2 ^ 1 * halfSpacing) := congrArg _ (two_pow_eq_mul_halfSpacing 1)
        _ = 2 * (halfSpacing * denominator) := by ring
    have grid : Nat.pow 2 53 = 2 ^ 53 := rfl
    rw [same, spacing, grid] at notAbove
    rw [same, spacing, grid]
    have passed : 2 ^ 53 - 1 < roundedQuotient numerator (2 * (halfSpacing * denominator)) ↔ _ :=
      lt_roundedQuotient_iff_of_odd (by omega) (by decide)
    omega
  · have large := (coarse 1).mp above
    exact iff_of_true (.inl above) (by omega)

end Magnitude

namespace Binary64

open Magnitude (halfSpacing round? round?_eq_none_iff)

/-- Halfway between the greatest finite number and the next power of two. -/
def overflowBound : Nat := (2 ^ 54 - 1) * 2 ^ 970

theorem overflowBound_pos : 0 < overflowBound := Nat.mul_pos (by decide) (Nat.two_pow_pos 970)

/-- Is the ratio, rounded, above every finite number? -/
def IsTooLarge (ratio : ℚ) : Prop := overflowBound ≤ |ratio|

theorem round?_units_eq_none_iff {numerator denominator : Nat} (positive : 0 < denominator) :
    round? (numerator * unitsPerOne) denominator = none ↔ overflowBound * denominator ≤ numerator := by
  have units : (2 ^ 54 - 1) * (halfSpacing * denominator) = overflowBound * denominator * unitsPerOne := by
    rw [halfSpacing, overflowBound]
    ring
  rw [round?_eq_none_iff positive, units, Nat.mul_le_mul_right_iff unitsPerOne_pos]

theorem isTooLarge_div_iff (dividend : Int) {divisor : Int} (nonzero : divisor ≠ 0) :
    IsTooLarge (dividend / divisor) ↔ overflowBound * divisor.natAbs ≤ dividend.natAbs := by
  have positive : (0 : ℚ) < divisor.natAbs := by exact_mod_cast Int.natAbs_pos.mpr nonzero
  have magnitudes : |(dividend / divisor : ℚ)| = (dividend.natAbs : ℚ) / divisor.natAbs := by
    rw [abs_div, Nat.cast_natAbs, Nat.cast_natAbs, Int.cast_abs, Int.cast_abs]
  rw [IsTooLarge, magnitudes, le_div_iff₀ positive]
  exact_mod_cast Iff.rfl

theorem isTooLarge_int_iff (n : Int) : IsTooLarge n ↔ overflowBound ≤ n.natAbs := by
  have ratio : (n : ℚ) = n / (1 : Int) := by simp
  rw [ratio, isTooLarge_div_iff n one_ne_zero, Int.natAbs_one, Nat.mul_one]

/-- A quotient of whole numbers has no finite number exactly if it is too large. -/
theorem ofQuotient?_eq_none_iff {dividend divisor : Int} (nonzero : divisor ≠ 0) :
    ofQuotient? dividend divisor = none ↔ IsTooLarge (dividend / divisor) := by
  rw [ofQuotient?, Option.map_eq_none_iff, round?_units_eq_none_iff (Int.natAbs_pos.mpr nonzero),
    isTooLarge_div_iff _ nonzero]

/-- A whole number has no finite number exactly if it is too large. -/
theorem ofInt?_eq_none_iff (n : Int) : ofInt? n = none ↔ IsTooLarge n := by
  rw [ofInt?, Option.map_eq_none_iff, round?_units_eq_none_iff Nat.one_pos, isTooLarge_int_iff, Nat.mul_one]

/-- A whole number is at least as large as a quotient of it. -/
theorem IsTooLarge.dividend {dividend divisor : Int} (nonzero : divisor ≠ 0)
    (tooLarge : IsTooLarge (dividend / divisor)) : IsTooLarge dividend := by
  rw [isTooLarge_div_iff dividend nonzero] at tooLarge
  rw [isTooLarge_int_iff]
  exact (Nat.le_mul_of_pos_right overflowBound (Int.natAbs_pos.mpr nonzero)).trans tooLarge

theorem IsTooLarge.dividend_ne_zero {dividend divisor : Int} (nonzero : divisor ≠ 0)
    (tooLarge : IsTooLarge (dividend / divisor)) : dividend ≠ 0 := by
  have bound := (isTooLarge_int_iff dividend).mp (tooLarge.dividend nonzero)
  exact Int.natAbs_pos.mp (overflowBound_pos.trans_le bound)

theorem ofInt_of_tooLarge {n : Int} (tooLarge : IsTooLarge n) : ofInt n = .infinite (decide (n < 0)) := by
  rw [ofInt, (ofInt?_eq_none_iff n).mpr tooLarge, Option.getD_none]

theorem ofInt_of_not_tooLarge {n : Int} (fits : ¬IsTooLarge n) : ∃ m, ofInt n = .finite (decide (n < 0)) m := by
  obtain ⟨x, isSome⟩ := Option.ne_none_iff_exists'.mp (mt (ofInt?_eq_none_iff n).mp fits)
  obtain ⟨m, -, rfl⟩ := Option.map_eq_some_iff.mp isSome
  exact ⟨m, by rw [ofInt, isSome, Option.getD_some]⟩

end Binary64
end Reckoner
