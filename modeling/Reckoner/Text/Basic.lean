/-!
# Text

Formula text, values and messages are lists of Unicode code points. A string literal may name one half of a
surrogate pair by its escape, and such a half stays a code point of its own, so text here is wider than a
sequence of characters. Lengths and offsets count code points.
-/
namespace Reckoner

/-- A Unicode code point: a character, or one half of a surrogate pair standing alone. -/
inductive CodePoint where
  | scalar (c : Char)
  | surrogate (offset : Fin 0x800)
  deriving DecidableEq, Repr, Inhabited

abbrev Text := List CodePoint

instance : Coe Char CodePoint := ⟨CodePoint.scalar⟩

namespace CodePoint

def toNat : CodePoint → Nat
  | .scalar c => c.toNat
  | .surrogate offset => 0xD800 + offset.val

/-- The code point numbered `n`, for `n` below `0x110000`. -/
def ofNat (n : Nat) : CodePoint :=
  if h : 0xD800 ≤ n ∧ n < 0xE000 then .surrogate ⟨n - 0xD800, by omega⟩ else .scalar (Char.ofNat n)

@[simp] theorem toNat_scalar (c : Char) : (scalar c).toNat = c.toNat := rfl

@[simp] theorem toNat_surrogate (offset : Fin 0x800) : (surrogate offset).toNat = 0xD800 + offset.val := rfl

theorem toNat_lt (c : CodePoint) : c.toNat < 0x110000 := by
  cases c with
  | scalar c =>
    have h := c.valid
    simp only [UInt32.isValidChar, Nat.isValidChar] at h
    show c.val.toNat < _
    omega
  | surrogate offset => simp only [toNat_surrogate]; omega

theorem ofNat_toNat (c : CodePoint) : ofNat c.toNat = c := by
  cases c with
  | scalar c =>
    have h : ¬(0xD800 ≤ c.toNat ∧ c.toNat < 0xE000) := by
      have v := c.valid
      simp only [UInt32.isValidChar, Nat.isValidChar] at v
      show ¬(0xD800 ≤ c.val.toNat ∧ c.val.toNat < 0xE000)
      omega
    simp only [ofNat, toNat_scalar, dif_neg h, Char.ofNat_toNat]
  | surrogate offset =>
    have h : 0xD800 ≤ 0xD800 + offset.val ∧ 0xD800 + offset.val < 0xE000 := by omega
    show ofNat (0xD800 + offset.val) = _
    unfold ofNat
    rw [dif_pos h]
    simp

theorem toNat_injective {a b : CodePoint} (h : a.toNat = b.toNat) : a = b := by
  rw [← ofNat_toNat a, ← ofNat_toNat b, h]

/-- An ASCII decimal digit. -/
def isDigit : CodePoint → Bool
  | .scalar c => c.isDigit
  | .surrogate _ => false

/-- A character that may open an identifier: an ASCII letter, `_` or `$`. -/
def opensName : CodePoint → Bool
  | .scalar c => c.isAlpha || c == '_' || c == '$'
  | .surrogate _ => false

/-- A character that may continue an identifier. -/
def continuesName (c : CodePoint) : Bool := c.opensName || c.isDigit

/-- The number an ASCII decimal digit stands for. -/
def digitValue (c : CodePoint) : Nat := c.toNat - 48

/-- The number an ASCII hexadecimal digit of either case stands for. -/
def hexValue? (c : CodePoint) : Option Nat :=
  let n := c.toNat
  if 48 ≤ n ∧ n ≤ 57 then some (n - 48)
  else if 97 ≤ n ∧ n ≤ 102 then some (n - 87)
  else if 65 ≤ n ∧ n ≤ 70 then some (n - 55)
  else none

end CodePoint

namespace Text

def ofString (s : String) : Text := s.toList.map CodePoint.scalar

instance : Coe String Text := ⟨ofString⟩

/-- The characters of a text without lone surrogates. -/
def toString? (t : Text) : Option String :=
  (t.mapM fun c : CodePoint =>
    match c with
    | .scalar c => some c
    | .surrogate _ => none).map String.ofList

/-- Texts are ordered by their code points, a shorter text before its extensions. -/
def le : Text → Text → Bool
  | [], _ => true
  | _ :: _, [] => false
  | a :: s, b :: t => a.toNat < b.toNat || (a == b && le s t)

/-- The parts with `separator` between any two neighbours. -/
def join (separator : Text) : List Text → Text
  | [] => []
  | [part] => part
  | part :: rest => part ++ separator ++ join separator rest

/-- The parts of a text between the copies of a separator, of which there is one more than of copies. -/
def parts (separator : CodePoint) : Text → List Text
  | [] => [[]]
  | c :: rest =>
    if c = separator then [] :: parts separator rest
    else
      match parts separator rest with
      | [] => [[c]]
      | part :: others => (c :: part) :: others

/-- The hexadecimal digits of `n`, lower case, filled up to `width` with zeros. -/
def hex (width n : Nat) : Text :=
  let digits := Nat.toDigits 16 n
  (List.replicate (width - digits.length) '0' ++ digits).map CodePoint.scalar

/-- The number written by hexadecimal digits alone. -/
def hexNumber? (t : Text) : Option Nat :=
  t.foldlM (fun n c => c.hexValue?.map (16 * n + ·)) 0

/-- The number written by decimal digits; the value of a text of other characters has no meaning. -/
def decimalNumber (t : Text) : Nat := t.foldl (fun n c => 10 * n + c.digitValue) 0

end Text
end Reckoner
