import Reckoner.Numeral
import Mathlib.Data.List.Basic
import Mathlib.Data.List.Induction
import Mathlib.Tactic.Ring
/-!
# Decimal digits and the numbers they write

A natural number is read back from its digits, a run of digits appended to another moves the other one up by as many
places, and a number of at most `k` digits is less than `10^k`.
-/
namespace Reckoner

namespace Text

/-- Decimal digits alone. -/
def IsDigits (t : Text) : Prop := ∀ c ∈ t, c.isDigit = true

theorem IsDigits.append {s t : Text} (first : s.IsDigits) (second : t.IsDigits) : (s ++ t).IsDigits := by
  intro c member
  rcases List.mem_append.mp member with early | late
  · exact first c early
  · exact second c late

theorem digitValue_lt {c : CodePoint} (digit : c.isDigit = true) : c.digitValue < 10 := by
  cases c with
  | surrogate offset => cases digit
  | scalar c =>
    simp only [CodePoint.isDigit, Char.isDigit, Bool.and_eq_true, decide_eq_true_eq, UInt32.le_iff_toNat_le] at digit
    have high : c.toNat ≤ 57 := digit.2
    show c.toNat - 48 < 10
    omega

/-- Digits read behind a number move it up by their places. -/
theorem foldl_digits (t : Text) (n : Nat) :
    t.foldl (fun n c => 10 * n + c.digitValue) n = n * 10 ^ t.length + decimalNumber t := by
  induction t generalizing n with
  | nil => simp [decimalNumber]
  | cons c t ih =>
    have alone : decimalNumber (c :: t) = (10 * 0 + c.digitValue) * 10 ^ t.length + decimalNumber t :=
      ih (10 * 0 + c.digitValue)
    rw [List.foldl_cons, ih, alone, List.length_cons, Nat.pow_succ]
    ring

theorem decimalNumber_append (s t : Text) :
    decimalNumber (s ++ t) = decimalNumber s * 10 ^ t.length + decimalNumber t := by
  rw [decimalNumber, List.foldl_append, foldl_digits]
  rfl

theorem decimalNumber_lt {t : Text} (digits : t.IsDigits) : decimalNumber t < 10 ^ t.length := by
  induction t using List.reverseRecOn with
  | nil => decide
  | append_singleton t c ih =>
    have front := ih fun d member => digits d (by simp [member])
    have last := digitValue_lt (digits c (by simp))
    have single : decimalNumber [c] = c.digitValue := by simp [decimalNumber]
    rw [decimalNumber_append, single, List.length_append, List.length_singleton, Nat.pow_succ]
    omega

end Text

namespace Numeral

theorem decimalNumber_map_scalar (chars : List Char) :
    Text.decimalNumber (chars.map CodePoint.scalar) = Nat.ofDigitChars 10 chars 0 := by
  rw [Text.decimalNumber, List.foldl_map, Nat.ofDigitChars_eq_foldl]
  rfl

/-- A number is read back from its digits. -/
theorem decimalNumber_ofNat (n : Nat) : Text.decimalNumber (ofNat n) = n := by
  rw [ofNat, decimalNumber_map_scalar, Nat.ofDigitChars_ten_toDigits]

theorem isDigits_ofNat (n : Nat) : (ofNat n).IsDigits := by
  intro c member
  obtain ⟨d, digit, rfl⟩ := List.mem_map.mp member
  exact Nat.isDigit_of_mem_toDigits (by decide) (by decide) digit

theorem ofNat_ne_nil (n : Nat) : ofNat n ≠ [] := by simp [ofNat, Nat.toDigits_ne_nil]

/-- Only the digits of zero start with a zero. -/
theorem eq_zero_of_head_ofNat {n : Nat} (h : (ofNat n).head? = some (.scalar '0')) : n = 0 := by
  induction n using Nat.strongRecOn with
  | ind n ih =>
    by_cases small : n < 10
    · have each : ∀ d < 10, (CodePoint.scalar d.digitChar) = .scalar '0' → d = 0 := by decide
      rw [ofNat, Nat.toDigits_of_lt_base small] at h
      exact each n small (Option.some.inj h)
    · have front : (ofNat n).head? = (ofNat (n / 10)).head? := by
        rw [ofNat, Nat.toDigits_of_base_le (by decide) (by omega), List.map_append, ← ofNat,
          List.head?_append_of_ne_nil _ (ofNat_ne_nil _)]
      have none := ih (n / 10) (by omega) (front ▸ h)
      omega

theorem length_ofNat_le_iff {n places : Nat} (positive : 0 < places) :
    (ofNat n).length ≤ places ↔ n < 10 ^ places := by
  rw [ofNat, List.length_map]
  exact Nat.length_toDigits_le_iff (by decide) positive

theorem length_ofNat_le {n places : Nat} (positive : 0 < places) (short : n < Nat.pow 10 places) :
    (ofNat n).length ≤ places := by
  rw [Nat.pow_eq] at short
  exact (length_ofNat_le_iff positive).mpr short

theorem isDigits_zeros (n : Nat) : (zeros n).IsDigits := by
  intro c member
  rw [List.eq_of_mem_replicate member]
  decide

theorem decimalNumber_zeros (n : Nat) : Text.decimalNumber (zeros n) = 0 := by
  induction n with
  | zero => rfl
  | succ n ih =>
    have split : zeros (n + 1) = [.scalar '0'] ++ zeros n := rfl
    rw [split, Text.decimalNumber_append, ih]
    simp [Text.decimalNumber, CodePoint.digitValue]

end Numeral
end Reckoner
