import Reckoner.Proofs.Outcome
import Reckoner.Proofs.Text.Utf8
import Reckoner.Text.Utf8.Strict
/-!
# Bytes that are UTF-8

A text of characters is read from the bytes that encode it, and no other bytes are read (`read_eq_ok`). What carries the
proof in one direction is that the bytes which have been read since the last whole character start just the characters
that what is pending of them allows (`Starts`).
-/
namespace Reckoner.Text

/-- A text of characters, without halves of surrogate pairs. -/
def IsWhole (t : Text) : Prop := ∀ c ∈ t, ∃ d, c = .scalar d

theorem IsWhole.append {s t : Text} (first : s.IsWhole) (second : t.IsWhole) : (s ++ t).IsWhole := by
  intro c member
  rcases List.mem_append.mp member with early | late
  · exact first c early
  · exact second c late

theorem isWhole_ofString (s : String) : (ofString s).IsWhole := by
  intro c member
  obtain ⟨d, -, rfl⟩ := List.mem_map.mp member
  exact ⟨d, rfl⟩

namespace Utf8

/-- The bytes that start characters, with the bits they hold and what they ask of the next byte. -/
inductive Starts : List UInt8 → Pending → Prop where
  | two (bits : Nat) (low : 2 ≤ bits) (high : bits < 0x20) : Starts [.ofNat (0xC0 + bits)] ⟨bits, 1, 0x80, 0xBF⟩
  | three (bits : Nat) {least greatest : Nat} (high : bits < 0x10) (first : bits = 0 → 0xA0 ≤ least)
      (last : bits = 0xD → greatest ≤ 0x9F) (tail : 0x80 ≤ least ∧ greatest ≤ 0xBF) :
      Starts [.ofNat (0xE0 + bits)] ⟨bits, 2, least, greatest⟩
  | threeOnce (bits : Nat) (low : 0x20 ≤ bits) (high : bits < 0x400) (scalar : bits < 0x360 ∨ 0x380 ≤ bits) :
      Starts [.ofNat (0xE0 + bits / 0x40), tail bits] ⟨bits, 1, 0x80, 0xBF⟩
  | four (bits : Nat) {least greatest : Nat} (high : bits < 5) (first : bits = 0 → 0x90 ≤ least)
      (last : bits = 4 → greatest ≤ 0x8F) (tail : 0x80 ≤ least ∧ greatest ≤ 0xBF) :
      Starts [.ofNat (0xF0 + bits)] ⟨bits, 3, least, greatest⟩
  | fourOnce (bits : Nat) (low : 0x10 ≤ bits) (high : bits < 0x110) :
      Starts [.ofNat (0xF0 + bits / 0x40), tail bits] ⟨bits, 2, 0x80, 0xBF⟩
  | fourTwice (bits : Nat) (low : 0x400 ≤ bits) (high : bits < 0x4400) :
      Starts [.ofNat (0xF0 + bits / 0x1000), tail (bits / 0x40), tail bits] ⟨bits, 1, 0x80, 0xBF⟩

theorem toNat_ofNat_of_lt {n : Nat} (small : n < 0x100) : (UInt8.ofNat n).toNat = n := by
  rw [UInt8.toNat_ofNat', Nat.mod_eq_of_lt small]

theorem exists_ofNat (b : UInt8) : ∃ n, n < 0x100 ∧ b = .ofNat n := by
  have small := b.toNat_lt
  exact ⟨b.toNat, by omega, by rw [UInt8.ofNat_toNat]⟩

/-- A byte that starts a character is the first byte of every character that it may start. -/
theorem starts_of_opening {b : UInt8} {p : Pending} (h : opening b = .starts p) : Starts [b] p := by
  obtain ⟨n, small, rfl⟩ := exists_ofNat b
  unfold opening at h
  rw [toNat_ofNat_of_lt small] at h
  dsimp only at h
  split_ifs at h
  all_goals
    rw [Opening.starts.injEq] at h
    subst h
  · obtain ⟨bits, rfl⟩ : ∃ bits, n = 0xC0 + bits := ⟨n - 0xC0, by omega⟩
    rw [Nat.add_sub_cancel_left]
    exact .two bits (by omega) (by omega)
  · subst n
    exact .three 0 (by omega) (by omega) (by omega) (by omega)
  · subst n
    exact .three 0xD (by omega) (by omega) (by omega) (by omega)
  · obtain ⟨bits, rfl⟩ : ∃ bits, n = 0xE0 + bits := ⟨n - 0xE0, by omega⟩
    rw [Nat.add_sub_cancel_left]
    exact .three bits (by omega) (by omega) (by omega) (by omega)
  · subst n
    exact .four 0 (by omega) (by omega) (by omega) (by omega)
  · obtain ⟨bits, rfl⟩ : ∃ bits, n = 0xF0 + bits := ⟨n - 0xF0, by omega⟩
    rw [Nat.add_sub_cancel_left]
    exact .four bits (by omega) (by omega) (by omega) (by omega)
  · subst n
    exact .four 4 (by omega) (by omega) (by omega) (by omega)

theorem toNat_ofNat_of_not_surrogate {n : Nat} (small : n < 0x110000) (scalar : n < 0xD800 ∨ 0xE000 ≤ n) :
    ∃ d, CodePoint.ofNat n = .scalar d ∧ d.toNat = n := by
  have valid : n.isValidChar := by
    rcases scalar with low | high
    · exact .inl low
    · exact .inr ⟨by omega, small⟩
  refine ⟨.ofNat n, dif_neg (by omega), ?_⟩
  rw [Char.ofNat, dif_pos valid]
  rfl

/-- The number of a character is no half of a surrogate pair. -/
theorem toNat_char (d : Char) : d.toNat < 0xD800 ∨ 0xE000 ≤ d.toNat := by
  rcases d.valid with low | ⟨high, -⟩
  · exact .inl low
  · exact .inr (Nat.succ_le_of_lt high)

theorem encodeChar_of_opening {b : UInt8} {c : CodePoint} (h : opening b = .char c) :
    encodeChar c = [b] ∧ ∃ d, c = .scalar d := by
  obtain ⟨n, small, rfl⟩ := exists_ofNat b
  unfold opening at h
  rw [toNat_ofNat_of_lt small] at h
  dsimp only at h
  split_ifs at h with ascii
  cases h
  obtain ⟨d, same, number⟩ := toNat_ofNat_of_not_surrogate (n := n) (by omega) (.inl (by omega))
  rw [same]
  refine ⟨?_, d, rfl⟩
  rw [encodeChar_ascii (by rw [CodePoint.toNat_scalar]; omega), CodePoint.toNat_scalar, number]

/-- The bytes of a character. -/
theorem encodeChar_ofNat {n : Nat} (small : n < 0x110000) (scalar : n < 0xD800 ∨ 0xE000 ≤ n) :
    encodeChar (.ofNat n) =
      if n < 0x80 then [.ofNat n]
      else if n < 0x800 then [.ofNat (0xC0 + n / 0x40), tail n]
      else if n < 0x10000 then [.ofNat (0xE0 + n / 0x1000), tail (n / 0x40), tail n]
      else [.ofNat (0xF0 + n / 0x40000), tail (n / 0x1000), tail (n / 0x40), tail n] := by
  obtain ⟨d, same, number⟩ := toNat_ofNat_of_not_surrogate small scalar
  rw [encodeChar, same, CodePoint.toNat_scalar, number]

/-- The byte that goes on with a character is a tail. -/
theorem eq_tail {n : Nat} (low : 0x80 ≤ n) (high : n ≤ 0xBF) (bits : Nat) :
    UInt8.ofNat n = tail (0x40 * bits + n % 0x40) := by
  rw [tail]
  congr 1
  omega

/-- A byte that goes on with a character, and does not end it, starts it with those before it. -/
theorem starts_next {run : List UInt8} {p : Pending} (starts : Starts run p) {b : UInt8}
    (least : p.least ≤ b.toNat) (greatest : b.toNat ≤ p.greatest) (more : 1 < p.owed) :
    Starts (run ++ [b]) ⟨0x40 * p.bits + b.toNat % 0x40, p.owed - 1, 0x80, 0xBF⟩ := by
  obtain ⟨n, small, rfl⟩ := exists_ofNat b
  rw [toNat_ofNat_of_lt small] at least greatest ⊢
  cases starts with
  | two => cases Nat.lt_irrefl 1 more
  | threeOnce => cases Nat.lt_irrefl 1 more
  | fourTwice => cases Nat.lt_irrefl 1 more
  | three bits high first last tails =>
    dsimp only at least greatest ⊢
    have next := Starts.threeOnce (0x40 * bits + n % 0x40) (by omega) (by omega) (by omega)
    have before : (0x40 * bits + n % 0x40) / 0x40 = bits := by omega
    rwa [before, ← eq_tail (by omega) (by omega) bits] at next
  | four bits high first last tails =>
    dsimp only at least greatest ⊢
    have next := Starts.fourOnce (0x40 * bits + n % 0x40) (by omega) (by omega)
    have before : (0x40 * bits + n % 0x40) / 0x40 = bits := by omega
    rwa [before, ← eq_tail (by omega) (by omega) bits] at next
  | fourOnce bits low high =>
    dsimp only at least greatest ⊢
    have next := Starts.fourTwice (0x40 * bits + n % 0x40) (by omega) (by omega)
    have first : (0x40 * bits + n % 0x40) / 0x1000 = bits / 0x40 := by omega
    have second : (0x40 * bits + n % 0x40) / 0x40 = bits := by omega
    rwa [first, second, ← eq_tail (by omega) (by omega) bits] at next

/-- A byte that ends a character gives the whole of it with those before it. -/
theorem encodeChar_of_starts {run : List UInt8} {p : Pending} (starts : Starts run p) {b : UInt8}
    (least : p.least ≤ b.toNat) (greatest : b.toNat ≤ p.greatest) (once : p.owed ≤ 1) :
    encodeChar (.ofNat (0x40 * p.bits + b.toNat % 0x40)) = run ++ [b] ∧
      ∃ d, CodePoint.ofNat (0x40 * p.bits + b.toNat % 0x40) = .scalar d := by
  obtain ⟨n, small, rfl⟩ := exists_ofNat b
  rw [toNat_ofNat_of_lt small] at least greatest ⊢
  cases starts with
  | three => cases Nat.not_succ_le_self 1 once
  | four => cases Nat.not_succ_le_self 1 (Nat.le_of_succ_le once)
  | fourOnce => cases Nat.not_succ_le_self 1 once
  | two bits low high =>
    dsimp only at least greatest ⊢
    obtain ⟨d, same, -⟩ := toNat_ofNat_of_not_surrogate (n := 0x40 * bits + n % 0x40) (by omega) (by omega)
    refine ⟨?_, d, same⟩
    have before : (0x40 * bits + n % 0x40) / 0x40 = bits := by omega
    rw [encodeChar_ofNat (by omega) (by omega), if_neg (by omega), if_pos (by omega), before,
      ← eq_tail (by omega) (by omega) bits]
    rfl
  | threeOnce bits low high scalar =>
    dsimp only at least greatest ⊢
    obtain ⟨d, same, -⟩ := toNat_ofNat_of_not_surrogate (n := 0x40 * bits + n % 0x40) (by omega) (by omega)
    refine ⟨?_, d, same⟩
    have first : (0x40 * bits + n % 0x40) / 0x1000 = bits / 0x40 := by omega
    have second : (0x40 * bits + n % 0x40) / 0x40 = bits := by omega
    rw [encodeChar_ofNat (by omega) (by omega), if_neg (by omega), if_neg (by omega), if_pos (by omega), first, second,
      ← eq_tail (by omega) (by omega) bits]
    rfl
  | fourTwice bits low high =>
    dsimp only at least greatest ⊢
    obtain ⟨d, same, -⟩ := toNat_ofNat_of_not_surrogate (n := 0x40 * bits + n % 0x40) (by omega) (by omega)
    refine ⟨?_, d, same⟩
    have first : (0x40 * bits + n % 0x40) / 0x40000 = bits / 0x1000 := by omega
    have second : (0x40 * bits + n % 0x40) / 0x1000 = bits / 0x40 := by omega
    have third : (0x40 * bits + n % 0x40) / 0x40 = bits := by omega
    rw [encodeChar_ofNat (by omega) (by omega), if_neg (by omega), if_neg (by omega), if_neg (by omega), first, second,
      third, ← eq_tail (by omega) (by omega) bits]
    rfl

/-- What is read behind bytes that start a character encodes to all of these bytes. -/
theorem encode_of_readFrom (place : Nat) (started : Option Started) (bytes : List UInt8) {t : Text}
    (starts : ∀ s ∈ started, Starts s.run s.pending) (h : readFrom place started bytes = .ok t) :
    t.IsWhole ∧ encode t = (started.map Started.run).getD [] ++ bytes := by
  fun_induction readFrom place started bytes generalizing t with
  | case1 place =>
    cases h
    exact ⟨by simp [IsWhole], rfl⟩
  | case2 => cases h
  | case3 place b rest c opens ih =>
    obtain ⟨u, read, rfl⟩ := Except.map_eq_ok.mp h
    obtain ⟨whole, encoded⟩ := ih nofun read
    obtain ⟨single, scalar⟩ := encodeChar_of_opening opens
    exact ⟨List.forall_mem_cons.mpr ⟨scalar, whole⟩, by rw [encode, List.flatMap_cons, ← encode, single, encoded]; rfl⟩
  | case4 place b rest p opens ih => exact ih (by rintro s ⟨⟩; exact starts_of_opening opens) h
  | case5 => cases h
  | case6 place run p b rest range bits once =>
    rename_i ih
    obtain ⟨u, read, rfl⟩ := Except.map_eq_ok.mp h
    obtain ⟨whole, encoded⟩ := ih nofun read
    obtain ⟨complete, scalar⟩ := encodeChar_of_starts (starts _ rfl) range.1 range.2 once
    exact ⟨List.forall_mem_cons.mpr ⟨scalar, whole⟩, by
      rw [encode, List.flatMap_cons, ← encode, complete, encoded]; simp⟩
  | case7 place run p b rest range bits more =>
    rename_i ih
    obtain ⟨whole, encoded⟩ :=
      ih (by rintro s ⟨⟩; exact starts_next (starts _ rfl) range.1 range.2 (Nat.lt_of_not_le more)) h
    exact ⟨whole, by rw [encoded]; simp⟩
  | case8 => cases h

theorem toNat_tail (n : Nat) : (tail n).toNat = 0x80 + n % 0x40 := toNat_ofNat_of_lt (by omega)

theorem readFrom_next {place : Nat} {run : List UInt8} {bits least greatest n : Nat} {rest : List UInt8} (owed : Nat)
    (low : least ≤ 0x80 + n % 0x40) (high : 0x80 + n % 0x40 ≤ greatest) :
    readFrom place (some ⟨run, bits, owed + 2, least, greatest⟩) (tail n :: rest) =
      readFrom place (some ⟨run ++ [tail n], 0x40 * bits + n % 0x40, owed + 1, 0x80, 0xBF⟩) rest := by
  rw [readFrom]
  dsimp only
  have low6 : (0x80 + n % 0x40) % 0x40 = n % 0x40 := by omega
  rw [toNat_tail, if_pos ⟨low, high⟩, if_neg (by omega), low6]
  rfl

theorem readFrom_last {place : Nat} {run : List UInt8} {bits n : Nat} {rest : List UInt8} :
    readFrom place (some ⟨run, bits, 1, 0x80, 0xBF⟩) (tail n :: rest) =
      (readFrom (place + run.length + 1) none rest).map (.ofNat (0x40 * bits + n % 0x40) :: ·) := by
  rw [readFrom]
  dsimp only
  have low6 : (0x80 + n % 0x40) % 0x40 = n % 0x40 := by omega
  rw [toNat_tail, if_pos ⟨by omega, by omega⟩, if_pos (Nat.le_refl 1), low6]

theorem readFrom_starts {place : Nat} {b : UInt8} {p : Pending} {rest : List UInt8} (opens : opening b = .starts p) :
    readFrom place none (b :: rest) = readFrom place (some ⟨[b], p⟩) rest := by
  rw [readFrom, opens]

theorem opening_two {n : Nat} (low : 2 ≤ n) (high : n < 0x20) :
    opening (.ofNat (0xC0 + n)) = .starts ⟨n, 1, 0x80, 0xBF⟩ := by
  unfold opening
  rw [toNat_ofNat_of_lt (by omega)]
  dsimp only
  rw [if_neg (by omega), if_neg (by omega), if_pos (by omega), Nat.add_sub_cancel_left]

theorem opening_three {n : Nat} (high : n < 0x10) :
    opening (.ofNat (0xE0 + n)) =
      .starts ⟨n, 2, if n = 0 then 0xA0 else 0x80, if n = 0xD then 0x9F else 0xBF⟩ := by
  unfold opening
  rw [toNat_ofNat_of_lt (by omega)]
  dsimp only
  rw [if_neg (by omega), if_neg (by omega), if_neg (by omega)]
  by_cases first : n = 0
  · subst n
    rfl
  by_cases last : n = 0xD
  · subst n
    rfl
  rw [if_neg (by omega), if_neg (by omega), if_pos (by omega), Nat.add_sub_cancel_left, if_neg first, if_neg last]

theorem opening_four {n : Nat} (high : n < 5) :
    opening (.ofNat (0xF0 + n)) =
      .starts ⟨n, 3, if n = 0 then 0x90 else 0x80, if n = 4 then 0x8F else 0xBF⟩ := by
  obtain rfl | rfl | rfl | rfl | rfl : n = 0 ∨ n = 1 ∨ n = 2 ∨ n = 3 ∨ n = 4 := by omega
  all_goals rfl

/-- The bytes of a character are read as the character. -/
theorem readFrom_encodeChar (place : Nat) {n : Nat} (small : n < 0x110000) (scalar : n < 0xD800 ∨ 0xE000 ≤ n)
    (rest : List UInt8) :
    ∃ next, readFrom place none (encodeChar (.ofNat n) ++ rest) = (readFrom next none rest).map (.ofNat n :: ·) := by
  rw [encodeChar_ofNat small scalar]
  split_ifs with one two three
  · have opens : opening (.ofNat n) = .char (.ofNat n) := by
      unfold opening
      rw [toNat_ofNat_of_lt (by omega)]
      exact if_pos one
    exact ⟨place + 1, by rw [List.singleton_append, readFrom, opens]⟩
  · have number : 0x40 * (n / 0x40) + n % 0x40 = n := by omega
    refine ⟨place + 2, ?_⟩
    simp only [List.cons_append, List.nil_append]
    rw [readFrom_starts (opening_two (by omega) (by omega)), readFrom_last, number]
    rfl
  · have number : 0x40 * (0x40 * (n / 0x1000) + n / 0x40 % 0x40) + n % 0x40 = n := by omega
    refine ⟨place + 3, ?_⟩
    simp only [List.cons_append, List.nil_append]
    rw [readFrom_starts (opening_three (by omega)), readFrom_next 0 (by split_ifs <;> omega) (by split_ifs <;> omega),
      readFrom_last, number]
    rfl
  · have number : 0x40 * (0x40 * (0x40 * (n / 0x40000) + n / 0x1000 % 0x40) + n / 0x40 % 0x40) + n % 0x40 = n := by
      omega
    refine ⟨place + 4, ?_⟩
    simp only [List.cons_append, List.nil_append]
    rw [readFrom_starts (opening_four (by omega)), readFrom_next 1 (by split_ifs <;> omega) (by split_ifs <;> omega),
      readFrom_next 0 (by omega) (by omega), readFrom_last, number]
    rfl

theorem readFrom_encode {t : Text} (whole : t.IsWhole) (place : Nat) : readFrom place none (encode t) = .ok t := by
  induction t generalizing place with
  | nil => rw [encode, List.flatMap_nil, readFrom]
  | cons c t ih =>
    obtain ⟨d, rfl⟩ := whole c (by simp)
    have small : d.toNat < 0x110000 := CodePoint.toNat_lt (.scalar d)
    have same : CodePoint.ofNat d.toNat = .scalar d := CodePoint.ofNat_toNat (.scalar d)
    obtain ⟨next, read⟩ := readFrom_encodeChar place small (toNat_char d) (encode t)
    rw [same] at read
    rw [encode, List.flatMap_cons, ← encode, read, ih fun e member => whole e (by simp [member])]
    rfl

/-- Just the bytes that encode texts of characters are UTF-8. -/
theorem read_eq_ok {bytes : List UInt8} {t : Text} : read bytes = .ok t ↔ t.IsWhole ∧ encode t = bytes := by
  constructor
  · intro h
    exact encode_of_readFrom 0 none bytes nofun h
  · rintro ⟨whole, rfl⟩
    exact readFrom_encode whole 0

end Utf8
end Reckoner.Text
