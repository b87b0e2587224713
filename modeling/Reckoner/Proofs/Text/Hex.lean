import Reckoner.Text.Basic
import Mathlib.Data.List.Basic
/-!
# Hexadecimal digits

A number is read back from its hexadecimal digits, however many zeros stand before them, and fills the width that it
is written in.
-/
namespace Reckoner.Text

theorem hexValue?_digitChar : ∀ d < 16, (CodePoint.scalar d.digitChar).hexValue? = some d := by decide

theorem hexNumber?_concat (t : Text) (c : CodePoint) :
    hexNumber? (t ++ [c]) = (hexNumber? t).bind fun n => c.hexValue?.map (16 * n + ·) := by
  rw [hexNumber?, List.foldlM_append]
  simp only [List.foldlM_cons, List.foldlM_nil, bind_pure, Option.bind_eq_bind]
  rfl

theorem hexNumber?_toDigits (n : Nat) : hexNumber? ((Nat.toDigits 16 n).map CodePoint.scalar) = some n := by
  induction n using Nat.strongRecOn with
  | ind n ih =>
    by_cases small : n < 16
    · rw [Nat.toDigits_of_lt_base small, List.map_singleton, ← List.nil_append [_], hexNumber?_concat,
        hexValue?_digitChar n small]
      simp [hexNumber?]
    · rw [Nat.toDigits_of_base_le (by decide) (by omega), List.map_append, List.map_singleton, hexNumber?_concat,
        ih (n / 16) (by omega), hexValue?_digitChar (n % 16) (Nat.mod_lt n (by decide)), Option.bind_some,
        Option.map_some, Nat.div_add_mod]

theorem hexNumber?_zeros (zeros : Nat) (t : Text) :
    hexNumber? (List.replicate zeros (.scalar '0') ++ t) = hexNumber? t := by
  induction zeros with
  | zero => rfl
  | succ zeros ih =>
    rw [← ih, List.replicate_succ, List.cons_append]
    rfl

theorem hex_eq (width n : Nat) : hex width n =
    List.replicate (width - (Nat.toDigits 16 n).length) (.scalar '0') ++ (Nat.toDigits 16 n).map CodePoint.scalar := by
  rw [hex, List.map_append, List.map_replicate]

/-- A number is read back from its hexadecimal digits. -/
theorem hexNumber?_hex (width n : Nat) : hexNumber? (hex width n) = some n := by
  rw [hex_eq, hexNumber?_zeros, hexNumber?_toDigits]

theorem length_hex {width n : Nat} (positive : 0 < width) (fits : n < Nat.pow 16 width) :
    (hex width n).length = width := by
  have digits : (Nat.toDigits 16 n).length ≤ width := (Nat.length_toDigits_le_iff (by decide) positive).mpr fits
  rw [hex_eq, List.length_append, List.length_replicate, List.length_map]
  omega

/-- A hexadecimal digit as it is written. -/
def IsHexDigit (c : CodePoint) : Prop := ∃ d < 16, c = .scalar (Nat.digitChar d)

theorem isHexDigit_toDigits (n : Nat) : ∀ c ∈ Nat.toDigits 16 n, IsHexDigit (.scalar c) := by
  induction n using Nat.strongRecOn with
  | ind n ih =>
    intro c member
    by_cases small : n < 16
    · rw [Nat.toDigits_of_lt_base small, List.mem_singleton] at member
      exact ⟨n, small, by rw [member]⟩
    · rw [Nat.toDigits_of_base_le (by decide) (by omega), List.mem_append, List.mem_singleton] at member
      rcases member with early | last
      · exact ih (n / 16) (by omega) c early
      · exact ⟨n % 16, Nat.mod_lt n (by decide), by rw [last]⟩

theorem isHexDigit_hex (width n : Nat) : ∀ c ∈ hex width n, IsHexDigit c := by
  intro c member
  rw [hex_eq, List.mem_append, List.mem_map] at member
  rcases member with zero | ⟨d, digit, rfl⟩
  · exact ⟨0, by decide, List.eq_of_mem_replicate zero⟩
  · exact isHexDigit_toDigits n d digit

end Reckoner.Text
