/-!
# Byte strings

Messages, keys and identifiers are lists of bytes. Numbers inside them are big-endian, most
significant byte first.
-/

namespace TokenGate

/-- A string of bytes. -/
abbrev Bytes := List UInt8

namespace Bytes

/-- The number that a big-endian byte string stands for; the empty string is zero. -/
def toNat (bs : Bytes) : Nat :=
  bs.foldl (fun n b => n * 256 + b.toNat) 0

/-- The lowest `width` base 256 digits of a number, most significant first. -/
def ofNat : (width : Nat) → Nat → Bytes
  | 0, _ => []
  | width + 1, n => ofNat width (n / 256) ++ [UInt8.ofNat n]

/-- A byte string without its leading zero bytes. -/
def stripZeros (bs : Bytes) : Bytes :=
  bs.dropWhile (· == 0)

/-- The first `n` bytes and what follows them, if there are that many. -/
def splitAt? (n : Nat) (bs : Bytes) : Option (Bytes × Bytes) :=
  if n ≤ bs.length then some (bs.take n, bs.drop n) else none

/-- Bytewise exclusive or, as long as the shorter of the two strings. -/
def xor (as bs : Bytes) : Bytes :=
  as.zipWith (· ^^^ ·) bs

/-- The string padded with zero bytes to at least `n` bytes. -/
def padTo (n : Nat) (bs : Bytes) : Bytes :=
  bs ++ List.replicate (n - bs.length) 0

/-- The first `count` pieces of `size` bytes each, where the string is long enough for them. -/
def pieces (size : Nat) : (count : Nat) → Bytes → List Bytes
  | 0, _ => []
  | count + 1, bs => bs.take size :: pieces size count (bs.drop size)

/-- The whole string in pieces of `size` bytes, the last one possibly shorter. -/
def blocks (size : Nat) (bs : Bytes) : List Bytes :=
  pieces size ((bs.length + size - 1) / size) bs

theorem length_ofNat (width n : Nat) : (ofNat width n).length = width := by
  induction width generalizing n with
  | zero => rfl
  | succ width ih => simp [ofNat, ih]

/-- The last byte of a number is its least significant one. -/
theorem toNat_concat (bs : Bytes) (b : UInt8) : toNat (bs ++ [b]) = toNat bs * 256 + b.toNat := by
  simp [toNat]

/-- Reading back what was written keeps the digits that fit the width. -/
theorem toNat_ofNat (width n : Nat) : toNat (ofNat width n) = n % Nat.pow 256 width := by
  induction width generalizing n with
  | zero => exact (Nat.mod_one n).symm
  | succ width ih =>
    have low : (UInt8.ofNat n).toNat = n % 256 := rfl
    have step : Nat.pow 256 (width + 1) = 256 * Nat.pow 256 width := Nat.mul_comm _ _
    rw [ofNat, toNat_concat, ih, low, step, Nat.mod_mul]
    omega

end Bytes

end TokenGate
