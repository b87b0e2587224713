import Reckoner.Text.Basic
/-!
# UTF-8

Text as bytes and back. Bytes that are no UTF-8 are read as replacement characters: one for each longest run of
bytes that starts a character and is not finished, and one for each byte that starts none.
-/
namespace Reckoner.Text.Utf8

/-- A byte after the first one of a character, with the low six bits of `n`. -/
def tail (n : Nat) : UInt8 := .ofNat (0x80 + n % 0x40)

/-- The bytes of a code point. -/
def encodeChar (c : CodePoint) : List UInt8 :=
  let n := c.toNat
  if n < 0x80 then [.ofNat n]
  else if n < 0x800 then [.ofNat (0xC0 + n / 0x40), tail n]
  else if n < 0x10000 then [.ofNat (0xE0 + n / 0x1000), tail (n / 0x40), tail n]
  else [.ofNat (0xF0 + n / 0x40000), tail (n / 0x1000), tail (n / 0x40), tail n]

/-- The bytes of a text. -/
def encode (t : Text) : List UInt8 := t.flatMap encodeChar

/-- A character that has been started: the bits read so far, how many bytes are owed, and the least and the greatest
byte that may come next. -/
structure Pending where
  bits : Nat
  owed : Nat
  least : Nat
  greatest : Nat

/-- What a byte at the start of a character means: a code point, the start of one, or neither. -/
inductive Opening where
  | char (c : CodePoint)
  | starts (p : Pending)
  | invalid

def opening (b : UInt8) : Opening :=
  let n := b.toNat
  if n < 0x80 then .char (.ofNat n)
  else if n < 0xC2 then .invalid
  else if n < 0xE0 then .starts ⟨n - 0xC0, 1, 0x80, 0xBF⟩
  else if n = 0xE0 then .starts ⟨0, 2, 0xA0, 0xBF⟩
  else if n = 0xED then .starts ⟨0xD, 2, 0x80, 0x9F⟩
  else if n < 0xF0 then .starts ⟨n - 0xE0, 2, 0x80, 0xBF⟩
  else if n = 0xF0 then .starts ⟨0, 3, 0x90, 0xBF⟩
  else if n < 0xF4 then .starts ⟨n - 0xF0, 3, 0x80, 0xBF⟩
  else if n = 0xF4 then .starts ⟨4, 3, 0x80, 0x8F⟩
  else .invalid

def replacement : CodePoint := .scalar '\ufffd'

/-- The code points a byte between characters gives, and the character it starts. -/
def openWith (b : UInt8) : Text × Option Pending :=
  match opening b with
  | .char c => ([c], none)
  | .starts p => ([], some p)
  | .invalid => ([replacement], none)

/-- The code points a byte gives after what has been started, and what is started afterwards. -/
def advance (pending : Option Pending) (b : UInt8) : Text × Option Pending :=
  match pending with
  | none => openWith b
  | some p =>
    if p.least ≤ b.toNat ∧ b.toNat ≤ p.greatest then
      let bits := 0x40 * p.bits + b.toNat % 0x40
      if p.owed ≤ 1 then ([.ofNat bits], none) else ([], some ⟨bits, p.owed - 1, 0x80, 0xBF⟩)
    else
      let (chars, next) := openWith b
      (replacement :: chars, next)

/-- The text of bytes that go on after what has been started. -/
def decodeFrom (pending : Option Pending) : List UInt8 → Text
  | [] => if pending.isSome then [replacement] else []
  | b :: rest =>
    let (chars, next) := advance pending b
    chars ++ decodeFrom next rest

/-- The text of bytes. -/
def decode (bytes : List UInt8) : Text := decodeFrom none bytes

end Reckoner.Text.Utf8
