import TokenGate.Bytes

/-!
# Base64

Three bytes become four digits of six bits. The standard form pads the last group with `=` to four
characters, and reading it is strict: the padding must be there, no other character is skipped, and
the bits that a padded group leaves over must be zero. The URL form has two other digits and no
padding.
-/

namespace TokenGate.Text.Base64

/-- The 62 digits that both alphabets share. -/
def commonDigits : List Char :=
  "ABCDEFGHIJKLMNOPQRSTUVWXYZabcdefghijklmnopqrstuvwxyz0123456789".toList

/-- The digits of the standard alphabet, by value. -/
def standardDigits : List Char :=
  commonDigits ++ ['+', '/']

/-- The digits of the URL and file name safe alphabet, by value. -/
def urlDigits : List Char :=
  commonDigits ++ ['-', '_']

/-- The digit of a value below 64. -/
def digit (digits : List Char) (n : Nat) : Char :=
  digits.getD (n % 64) '='

/-- The value of a digit. -/
def value? (digits : List Char) (c : Char) : Option Nat :=
  digits.findIdx? (· == c)

/-- The digits of a byte string, the last group completed by `pad` on the left over places. -/
def encodeWith (digits : List Char) (pad : List Char) : Bytes → List Char
  | [] => []
  | [a] =>
    let n := a.toNat * 16
    [digit digits (n / 64), digit digits n] ++ pad ++ pad
  | [a, b] =>
    let n := (a.toNat * 256 + b.toNat) * 4
    [digit digits (n / 4096), digit digits (n / 64), digit digits n] ++ pad
  | a :: b :: c :: rest =>
    let n := (a.toNat * 256 + b.toNat) * 256 + c.toNat
    [digit digits (n / 262144), digit digits (n / 4096), digit digits (n / 64), digit digits n]
      ++ encodeWith digits pad rest

/-- The standard form, padded. -/
def encode (bs : Bytes) : String :=
  String.ofList (encodeWith standardDigits ['='] bs)

/-- The URL form, without padding. -/
def encodeUrl (bs : Bytes) : String :=
  String.ofList (encodeWith urlDigits [] bs)

/-- The bytes of a standard form, read group by group. -/
def decodeChars? : List Char → Option Bytes
  | [] => some []
  | [a, b, '=', '='] => do
    let n := (← value? standardDigits a) * 64 + (← value? standardDigits b)
    if n % 16 = 0 then some [UInt8.ofNat (n / 16)] else none
  | [a, b, c, '='] => do
    let n := ((← value? standardDigits a) * 64 + (← value? standardDigits b)) * 64
      + (← value? standardDigits c)
    if n % 4 = 0 then some [UInt8.ofNat (n / 1024), UInt8.ofNat (n / 4)] else none
  | a :: b :: c :: d :: rest => do
    let n := (((← value? standardDigits a) * 64 + (← value? standardDigits b)) * 64
      + (← value? standardDigits c)) * 64 + (← value? standardDigits d)
    let tail ← decodeChars? rest
    some (UInt8.ofNat (n / 65536) :: UInt8.ofNat (n / 256) :: UInt8.ofNat n :: tail)
  | _ => none

/-- The bytes of a standard form; nothing for any other text. -/
def decode? (s : String) : Option Bytes :=
  decodeChars? s.toList

end TokenGate.Text.Base64
