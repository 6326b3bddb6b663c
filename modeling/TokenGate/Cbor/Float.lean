/-!
# Floating-point numbers of three widths

CBOR carries IEEE 754 numbers of 16, 32 and 64 bits. Inside the library a number is the 64 bits of
the widest form; the others widen to it, and a number narrows to a shorter form only if that one
widens back to the very same bits. Widening makes every NaN a quiet one.
-/

namespace TokenGate.Cbor

/-- A binary interchange format: the widths of its exponent and of its fraction. -/
structure FloatFormat where
  exponentBits : Nat
  fractionBits : Nat
  deriving DecidableEq, Repr

namespace FloatFormat

/-- The 16 bit format. -/
def half : FloatFormat := ⟨5, 10⟩

/-- The 32 bit format. -/
def single : FloatFormat := ⟨8, 23⟩

/-- The largest exponent field, which marks infinities and NaNs. -/
def topExponent (f : FloatFormat) : Nat := Nat.pow 2 f.exponentBits - 1

/-- What the exponent field has on top of the exponent. -/
def bias (f : FloatFormat) : Nat := f.topExponent / 2

/-- The widest format, of 64 bits. -/
def double : FloatFormat := ⟨11, 52⟩

/-- The sign, the exponent field and the fraction of a number. -/
def split (f : FloatFormat) (n : Nat) : Nat × Nat × Nat :=
  let scale := Nat.pow 2 f.fractionBits
  (n / scale / (f.topExponent + 1) % 2, n / scale % (f.topExponent + 1), n % scale)

/-- The number with a sign and a magnitude, which is its exponent field in front of its fraction. -/
def join (f : FloatFormat) (sign magnitude : Nat) : Nat :=
  sign * Nat.pow 2 (f.exponentBits + f.fractionBits) + magnitude

/-- The 64 bits of the number that `n` encodes in a narrower format. -/
def widen (f : FloatFormat) (n : Nat) : Nat :=
  let (sign, exponent, fraction) := f.split n
  let scale := Nat.pow 2 52
  double.join sign (
    if exponent = f.topExponent then
      if fraction = 0 then 2047 * scale
      else 2047 * scale + (Nat.pow 2 51 ||| fraction * Nat.pow 2 (52 - f.fractionBits))
    else if exponent = 0 then
      if fraction = 0 then 0
      else
        let top := fraction.log2
        (top + 1023 - (f.bias - 1 + f.fractionBits)) * scale
          + (fraction * Nat.pow 2 (52 - top) - scale)
    else (exponent + 1023 - f.bias) * scale + fraction * Nat.pow 2 (52 - f.fractionBits))

/-- The only number of the narrower format that can have the 64 bits `n`. -/
def candidate (f : FloatFormat) (n : Nat) : Nat :=
  let (sign, exponent, fraction) := double.split n
  let scale := Nat.pow 2 f.fractionBits
  f.join sign (
    if exponent = 2047 then
      f.topExponent * scale + fraction / Nat.pow 2 (52 - f.fractionBits)
    else if 1023 < exponent + f.bias then
      (exponent + f.bias - 1023) * scale + fraction / Nat.pow 2 (52 - f.fractionBits)
    else
      (Nat.pow 2 52 + fraction) / Nat.pow 2 (52 - f.fractionBits + 1 + (1023 - exponent - f.bias)))

/-- The form of a number in the narrower format, if it has one with the same bits. -/
def narrow? (f : FloatFormat) (n : Nat) : Option Nat :=
  if f.widen (f.candidate n) = n then some (f.candidate n) else none

/-- A number that fits a format is read back from it. -/
theorem widen_of_narrow? {f : FloatFormat} {n m : Nat} (h : f.narrow? n = some m) :
    f.widen m = n := by
  unfold narrow? at h
  split at h
  · cases h
    assumption
  · cases h

end FloatFormat

/-- Whether the 64 bits of a number are those of a NaN. -/
def floatIsNaN (bits : UInt64) : Bool :=
  bits <<< 1 > 0xFFE0000000000000

/-- Numerical equality: a NaN equals nothing, and the two zeros are equal. -/
def floatEq (a b : UInt64) : Bool :=
  !floatIsNaN a && !floatIsNaN b && (a == b || (a <<< 1 == 0 && b <<< 1 == 0))

end TokenGate.Cbor
