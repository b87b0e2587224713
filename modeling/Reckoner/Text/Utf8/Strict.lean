import Reckoner.Numeral
import Reckoner.Text.Utf8
/-!
# Bytes that are UTF-8

Bytes that have to be UTF-8 are read as the text they encode. Otherwise the first run of bytes that is no character is
reported: a byte that starts none, the bytes of one that is not gone on with, or those of one at the end that is not
finished.
-/
namespace Reckoner.Text.Utf8

/-- Why a run of bytes is no character. -/
inductive Flaw where
  | start
  | continuation
  | ending
  deriving DecidableEq, Repr

def Flaw.label : Flaw → Text
  | .start => "invalid start byte"
  | .continuation => "invalid continuation byte"
  | .ending => "unexpected end of data"

/-- The first run of bytes that is no character, and where it begins. -/
structure Malformed where
  place : Nat
  run : List UInt8
  flaw : Flaw
  deriving DecidableEq, Repr

def Malformed.message (m : Malformed) : Text :=
  let shown : Text :=
    match m.run with
    | [b] => "byte 0x" ++ hex 2 b.toNat ++ " in position " ++ Numeral.ofNat m.place
    | run => "bytes in position " ++ Numeral.ofNat m.place ++ "-" ++ Numeral.ofNat (m.place + run.length - 1)
  "'utf-8' codec can't decode " ++ shown ++ ": " ++ m.flaw.label

/-- What the bytes that have been read since the last whole character have started. -/
structure Started where
  run : List UInt8
  pending : Pending

/-- The text of bytes that go on, from a place on, after what has been started there. -/
def readFrom (place : Nat) (started : Option Started) (bytes : List UInt8) : Except Malformed Text :=
  match started, bytes with
  | none, [] => .ok []
  | some s, [] => .error ⟨place, s.run, .ending⟩
  | none, b :: rest =>
    match opening b with
    | .char c => (readFrom (place + 1) none rest).map (c :: ·)
    | .starts p => readFrom place (some ⟨[b], p⟩) rest
    | .invalid => .error ⟨place, [b], .start⟩
  | some ⟨run, p⟩, b :: rest =>
    if p.least ≤ b.toNat ∧ b.toNat ≤ p.greatest then
      let bits := 0x40 * p.bits + b.toNat % 0x40
      if p.owed ≤ 1 then (readFrom (place + run.length + 1) none rest).map (.ofNat bits :: ·)
      else readFrom place (some ⟨run ++ [b], bits, p.owed - 1, 0x80, 0xBF⟩) rest
    else .error ⟨place, run, .continuation⟩

/-- The text that bytes encode. -/
def read (bytes : List UInt8) : Except Malformed Text := readFrom 0 none bytes

end Reckoner.Text.Utf8
