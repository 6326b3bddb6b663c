import TokenGate.Text.Quoted
import TokenGate.Text.Utf8

/-!
# Hexadecimal

Two digits to a byte. Writing uses small letters, reading takes either case and says what is wrong
with a text that is not hexadecimal.
-/

namespace TokenGate.Text.Hex

/-- Why a text is not hexadecimal. -/
inductive Error where
  /-- An odd number of bytes cannot be pairs of digits. -/
  | oddLength
  /-- The byte at a position is no digit. -/
  | badDigit (byte : UInt8) (position : Nat)
  deriving DecidableEq, Repr

/-- The wording of an error; a byte is shown as the character of its number. -/
def Error.message : Error → String
  | .oddLength => "Odd number of digits"
  | .badDigit byte position =>
    "Invalid character " ++ Quoted.char (Char.ofNat byte.toNat) ++ " at position "
      ++ toString position

/-- The value of a digit, given as its byte. -/
def value? (b : UInt8) : Option UInt8 :=
  if 48 ≤ b ∧ b ≤ 57 then some (b - 48)
  else if 65 ≤ b ∧ b ≤ 70 then some (b - 55)
  else if 97 ≤ b ∧ b ≤ 102 then some (b - 87)
  else none

/-- The bytes that pairs of digits stand for; `position` is where the first pair begins. -/
def decodePairs (position : Nat) : Bytes → Except Error Bytes
  | [] => .ok []
  | [_] => .error .oddLength
  | a :: b :: rest =>
    match value? a, value? b with
    | none, _ => .error (.badDigit a position)
    | some _, none => .error (.badDigit b (position + 1))
    | some high, some low => do
      let tail ← decodePairs (position + 2) rest
      .ok ((high <<< 4 ||| low) :: tail)

/-- The bytes of a hexadecimal text. An odd length is reported before any bad digit. -/
def decode (s : String) : Except Error Bytes :=
  let bytes := utf8 s
  if bytes.length % 2 = 1 then .error .oddLength else decodePairs 0 bytes

/-- The two digits of a byte. -/
def digits (b : UInt8) : List Char :=
  let digit (n : Nat) : Char := Char.ofNat (if n < 10 then 48 + n else 87 + n)
  [digit (b.toNat / 16), digit (b.toNat % 16)]

/-- A byte string in hexadecimal. -/
def encode (bs : Bytes) : String :=
  String.ofList (bs.flatMap digits)

end TokenGate.Text.Hex
