import Reckoner.Binary64.Arithmetic
import Reckoner.Binary64.Decimal
import Mathlib.Tactic.Ring
/-!
# Rounding

A rounded magnitude is a rounded quotient on the grid of its scale. Rounding depends on the ratio alone and keeps what
is a magnitude already. A multiple of one is rounded to a multiple of one, a ratio far above every magnitude has no
rounding and one far below the least magnitude is rounded to zero, which nothing from one unit on is.
-/
namespace Reckoner

theorem roundedQuotient_scale (numerator denominator : Nat) {factor : Nat} (positive : 0 < factor) :
    roundedQuotient (numerator * factor) (denominator * factor) = roundedQuotient numerator denominator := by
  have remainder : 2 * (numerator % denominator * factor) > denominator * factor ↔
      2 * (numerator % denominator) > denominator := by
    rw [← Nat.mul_assoc]
    exact Nat.mul_lt_mul_right positive
  have tie : 2 * (numerator % denominator * factor) = denominator * factor ↔
      2 * (numerator % denominator) = denominator := by
    rw [← Nat.mul_assoc]
    exact Nat.mul_left_inj (Nat.ne_of_gt positive)
  unfold roundedQuotient
  simp only [Nat.mul_div_mul_right _ _ positive, Nat.mul_mod_mul_right, remainder, tie]

theorem unitsPerOne_eq : unitsPerOne = 2 ^ 1074 := Nat.pow_eq

theorem unitsPerOne_pos : 0 < unitsPerOne := unitsPerOne_eq.symm ▸ Nat.two_pow_pos _

/-- A multiple of a power of two is rounded to a multiple of it on every grid of powers of two. -/
theorem dvd_roundedQuotient (count power scale : Nat) :
    2 ^ power ∣ roundedQuotient (count * 2 ^ power) (2 ^ scale) * 2 ^ scale := by
  rcases Nat.le_total power scale with high | low
  · exact Nat.dvd_mul_left_of_dvd (Nat.pow_dvd_pow 2 high) _
  · -- a finer grid has the multiple among its points
    have onGrid : count * 2 ^ power = count * 2 ^ (power - scale) * 2 ^ scale := by
      rw [Nat.mul_assoc, ← Nat.pow_add, Nat.sub_add_cancel low]
    rw [onGrid, roundedQuotient_mul _ _ (Nat.two_pow_pos scale), ← onGrid]
    exact Nat.dvd_mul_left (2 ^ power) count

theorem log2_mul_two_pow {n : Nat} (nonzero : n ≠ 0) (scale : Nat) : (n * 2 ^ scale).log2 = n.log2 + scale := by
  have positive := Nat.two_pow_pos scale
  rw [Nat.log2_eq_iff (Nat.mul_ne_zero nonzero (Nat.ne_of_gt positive))]
  constructor
  · rw [Nat.pow_add]
    exact Nat.mul_le_mul_right _ (Nat.log2_self_le nonzero)
  · rw [Nat.add_right_comm, Nat.pow_add]
    exact Nat.mul_lt_mul_of_pos_right Nat.lt_log2_self positive

namespace Magnitude

/-- A magnitude is its significand and its scale. -/
theorem eq_of_parts {m k : Magnitude} (significand : m.significand = k.significand) (scale : m.scale = k.scale) :
    m = k := by
  cases m
  cases k
  cases significand
  cases scale
  rfl

theorem eq_zero_of_units {m : Magnitude} (h : m.units = 0) : m = zero := by
  have significand : m.significand = 0 := by
    rcases Nat.mul_eq_zero.mp h with significand | power
    · exact significand
    · exact absurd power (Nat.ne_of_gt (Nat.two_pow_pos m.scale))
  refine eq_of_parts significand ?_
  rcases m.normal with scale | large
  · exact scale
  · rw [significand] at large
    exact absurd large (by decide)

theorem units_of_isZero {m : Magnitude} (zero : m.isZero = true) : m.units = 0 := by
  have significand : m.significand = 0 := beq_iff_eq.mp zero
  rw [units, significand, Nat.zero_mul]

theorem scaleFor_units (m : Magnitude) : scaleFor m.units = m.scale := by
  by_cases zeroUnits : m.significand = 0
  · rcases m.normal with scale | large
    · rw [units, zeroUnits, Nat.zero_mul, scale]
      rfl
    · rw [zeroUnits] at large
      exact absurd large (by decide)
  · have log : m.units.log2 = m.significand.log2 + m.scale := by
      rw [units, Nat.pow_eq, log2_mul_two_pow zeroUnits]
    have below : m.significand.log2 < 53 := (Nat.log2_lt zeroUnits).mpr m.significand_lt
    rw [scaleFor, log]
    rcases m.normal with scale | large
    · omega
    · have above : 52 ≤ m.significand.log2 := (Nat.le_log2 zeroUnits).mpr large
      omega

/-- What is a magnitude already is kept. -/
theorem round?_units (m : Magnitude) : round? m.units 1 = some m := by
  have quotient : roundedQuotient m.units (1 * Nat.pow 2 m.scale) = m.significand := by
    rw [units, Nat.one_mul]
    exact roundedQuotient_mul _ _ (Nat.two_pow_pos m.scale)
  have notFull : m.significand ≠ Nat.pow 2 53 := Nat.ne_of_lt m.significand_lt
  unfold round?
  simp only [Nat.div_one, scaleFor_units, quotient]
  rw [dif_neg notFull, dif_pos m.scale_le]

/-- Only the ratio counts. -/
theorem round?_scale (numerator denominator factor : Nat) (positive : 0 < factor) :
    round? (numerator * factor) (denominator * factor) = round? numerator denominator := by
  have grid : ∀ power, denominator * factor * power = denominator * power * factor := fun power => by ring
  unfold round?
  simp only [Nat.mul_div_mul_right _ _ positive, grid, roundedQuotient_scale _ _ positive]

/-- A rounded magnitude is a rounded quotient on the grid of the scale. -/
theorem units_of_round? {numerator denominator : Nat} {m : Magnitude} (h : round? numerator denominator = some m) :
    m.units = roundedQuotient numerator (denominator * Nat.pow 2 (scaleFor (numerator / denominator))) *
      Nat.pow 2 (scaleFor (numerator / denominator)) := by
  unfold round? at h
  dsimp only at h
  split at h
  next full =>
    split at h
    · cases h
      rw [full, units]
      simp only [Nat.pow_eq]
      ring
    · cases h
  next notFull =>
    split at h
    · cases h
      rfl
    · cases h

/-- Multiples of one are rounded to multiples of one. -/
theorem whole_of_round? {count : Nat} {m : Magnitude} (h : round? (count * unitsPerOne) 1 = some m) :
    m.units % unitsPerOne = 0 := by
  rw [units_of_round? h, Nat.div_one, Nat.one_mul, unitsPerOne_eq, Nat.pow_eq]
  exact Nat.mod_eq_zero_of_dvd (dvd_roundedQuotient count 1074 _)

/-- What is at least one unit is not rounded to zero. -/
theorem units_pos_of_round? {numerator denominator : Nat} {m : Magnitude} (positive : 0 < denominator)
    (large : denominator ≤ numerator) (h : round? numerator denominator = some m) : 0 < m.units := by
  have quotient : 0 < numerator / denominator := Nat.div_pos large positive
  have below : 2 ^ scaleFor (numerator / denominator) ≤ numerator / denominator :=
    (Nat.pow_le_pow_right Nat.two_pos (Nat.sub_le _ 52)).trans (Nat.log2_self_le quotient.ne')
  have onGrid := le_roundedQuotient numerator (denominator * 2 ^ scaleFor (numerator / denominator))
  rw [← Nat.div_div_eq_div_mul] at onGrid
  rw [units_of_round? h, Nat.pow_eq]
  exact Nat.mul_pos ((Nat.div_pos below (Nat.two_pow_pos _)).trans_le onGrid) (Nat.two_pow_pos _)

theorem round?_of_large {numerator denominator : Nat} (large : 2098 ≤ (numerator / denominator).log2) :
    round? numerator denominator = none := by
  have scale : 2046 ≤ scaleFor (numerator / denominator) := by
    unfold scaleFor
    omega
  unfold round?
  dsimp only
  split
  · rw [dif_neg (by omega)]
  · rw [dif_neg (by omega)]

theorem round?_of_small {numerator denominator : Nat} (small : 2 * numerator < denominator) :
    round? numerator denominator = some zero := by
  have quotient : numerator / denominator = 0 := Nat.div_eq_of_lt (by omega)
  have nearest : roundedQuotient numerator (denominator * Nat.pow 2 (scaleFor 0)) = 0 := by
    have grid : Nat.pow 2 (scaleFor 0) = 1 := rfl
    rw [grid, Nat.mul_one]
    unfold roundedQuotient
    simp only [quotient, Nat.mod_eq_of_lt (show numerator < denominator by omega)]
    rw [if_neg (by omega)]
  unfold round?
  simp only [quotient, nearest]
  rfl

end Magnitude
end Reckoner
