import Reckoner.Text.Utf8
import Mathlib.Data.List.Basic
/-!
# ASCII behind any bytes

An ASCII character is one byte, and this byte never goes on with a character that was started before it. So the text of
bytes with ASCII behind them is the text of the bytes with that ASCII behind it, whatever the bytes are.
-/
namespace Reckoner.Text

/-- ASCII characters alone. -/
def IsAscii (t : Text) : Prop := ∀ c ∈ t, c.toNat < 0x80

namespace Utf8

/-- What has been started goes on with no ASCII character. -/
def Pending.IsOpen (p : Pending) : Prop := 0x80 ≤ p.least

theorem decodeFrom_cons (pending : Option Pending) (b : UInt8) (rest : List UInt8) :
    decodeFrom pending (b :: rest) = (advance pending b).1 ++ decodeFrom (advance pending b).2 rest := rfl

theorem encodeChar_ascii {c : CodePoint} (ascii : c.toNat < 0x80) : encodeChar c = [.ofNat c.toNat] := by
  rw [encodeChar, if_pos ascii]

theorem toNat_ofNat {c : CodePoint} (ascii : c.toNat < 0x80) : (UInt8.ofNat c.toNat).toNat = c.toNat := by
  rw [UInt8.toNat_ofNat', Nat.mod_eq_of_lt (by omega)]

theorem openWith_ascii {c : CodePoint} (ascii : c.toNat < 0x80) : openWith (.ofNat c.toNat) = ([c], none) := by
  simp only [openWith, opening, toNat_ofNat ascii, if_pos ascii, CodePoint.ofNat_toNat]

theorem isOpen_of_openWith {b : UInt8} {p : Pending} (h : (openWith b).2 = some p) : p.IsOpen := by
  have started : opening b = .starts p := by
    unfold openWith at h
    split at h
    · cases h
    next q starts =>
      cases h
      exact starts
    · cases h
  unfold opening at started
  dsimp only at started
  split_ifs at started
  all_goals
    rw [Opening.starts.injEq] at started
    subst started
    simp [Pending.IsOpen]

/-- What is started after a byte is open again. -/
theorem isOpen_of_advance {pending : Option Pending} {b : UInt8} {p : Pending} (h : (advance pending b).2 = some p) :
    p.IsOpen := by
  unfold advance at h
  split at h
  · exact isOpen_of_openWith h
  · dsimp only at h
    split_ifs at h
    · cases Option.some.inj h
      exact Nat.le_refl 0x80
    · exact isOpen_of_openWith h

/-- An ASCII character ends what has been started before it. -/
theorem advance_ascii {pending : Option Pending} (opened : ∀ p ∈ pending, p.IsOpen) {c : CodePoint}
    (ascii : c.toNat < 0x80) :
    advance pending (.ofNat c.toNat) = ((if pending.isSome then [replacement] else []) ++ [c], none) := by
  cases pending with
  | none => exact openWith_ascii ascii
  | some p =>
    have least : 0x80 ≤ p.least := opened p rfl
    unfold advance
    simp only [toNat_ofNat ascii, openWith_ascii ascii]
    rw [if_neg (by omega)]
    rfl

theorem decodeFrom_ascii {t : Text} (ascii : t.IsAscii) {pending : Option Pending}
    (opened : ∀ p ∈ pending, p.IsOpen) :
    decodeFrom pending (encode t) = (if pending.isSome then [replacement] else []) ++ t := by
  induction t generalizing pending with
  | nil => simp [encode, decodeFrom]
  | cons c t ih =>
    have first := ascii c (by simp)
    have none : ∀ p ∈ (none : Option Pending), p.IsOpen := by simp
    have rest : decodeFrom .none (encode t) = t := by
      simpa using ih (fun d member => ascii d (by simp [member])) none
    rw [encode, List.flatMap_cons, ← encode, encodeChar_ascii first, List.singleton_append, decodeFrom_cons,
      advance_ascii opened first, rest, List.append_assoc, List.singleton_append]

theorem decodeFrom_append_ascii {t : Text} (ascii : t.IsAscii) (bytes : List UInt8) {pending : Option Pending}
    (opened : ∀ p ∈ pending, p.IsOpen) :
    decodeFrom pending (bytes ++ encode t) = decodeFrom pending bytes ++ t := by
  induction bytes generalizing pending with
  | nil => rw [List.nil_append, decodeFrom_ascii ascii opened, decodeFrom]
  | cons b bytes ih =>
    rw [List.cons_append, decodeFrom_cons, decodeFrom_cons, ih fun p member => isOpen_of_advance member,
      List.append_assoc]

theorem decodeFrom_append_cons {c : CodePoint} (ascii : c.toNat < 0x80) (bytes rest : List UInt8)
    {pending : Option Pending} (opened : ∀ p ∈ pending, p.IsOpen) :
    decodeFrom pending (bytes ++ .ofNat c.toNat :: rest) = decodeFrom pending bytes ++ c :: decode rest := by
  induction bytes generalizing pending with
  | nil =>
    rw [List.nil_append, decodeFrom_cons, advance_ascii opened ascii, decodeFrom, List.append_assoc]
    rfl
  | cons b bytes ih =>
    rw [List.cons_append, decodeFrom_cons, decodeFrom_cons, ih fun p member => isOpen_of_advance member,
      List.append_assoc]

/-- An ASCII character parts bytes into two texts. -/
theorem decode_append_cons {c : CodePoint} (ascii : c.toNat < 0x80) (bytes rest : List UInt8) :
    decode (bytes ++ .ofNat c.toNat :: rest) = decode bytes ++ c :: decode rest :=
  decodeFrom_append_cons ascii bytes rest (by simp)

/-- ASCII behind any bytes is read as it is. -/
theorem decode_append_ascii {t : Text} (ascii : t.IsAscii) (bytes : List UInt8) :
    decode (bytes ++ encode t) = decode bytes ++ t :=
  decodeFrom_append_ascii ascii bytes (by simp)

end Utf8
end Reckoner.Text
