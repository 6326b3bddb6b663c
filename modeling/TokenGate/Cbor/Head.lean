import TokenGate.Cbor.Float
import TokenGate.Bytes

/-!
# Heads of CBOR items

Every item begins with a head: a major type and an argument in one, two, three, five or nine bytes.
Any of the longer forms is read for an argument that has a shorter one; only the shortest is
written.
-/

namespace TokenGate.Cbor

/-- What begins at some place of a CBOR encoding. -/
inductive Head where
  | uint (n : UInt64)
  | nint (n : UInt64)
  /-- A byte string of a length, or of pieces up to a stop. -/
  | bytes (length : Option UInt64)
  | text (length : Option UInt64)
  | array (length : Option UInt64)
  | map (length : Option UInt64)
  | tag (number : UInt64)
  | simple (n : UInt8)
  | float (bits : UInt64)
  /-- The end of an item of indefinite length. -/
  | stop
  deriving DecidableEq, Repr

/-- Why no head could be read. -/
inductive HeadError where
  /-- The input ends before the head does. -/
  | endOfInput
  /-- The first byte begins no head. -/
  | malformed
  deriving DecidableEq, Repr

/-- The argument of a head, by the way it is given. -/
inductive Argument where
  /-- In the first byte itself. -/
  | short (n : UInt8)
  | one (n : Nat)
  | two (n : Nat)
  | four (n : Nat)
  | eight (n : Nat)
  | indefinite
  deriving DecidableEq, Repr

namespace Argument

/-- The argument that the low five bits of a first byte announce, and the bytes after it. -/
def read (info : UInt8) (rest : Bytes) : Except HeadError (Argument × Bytes) :=
  let word (width : Nat) (make : Nat → Argument) : Except HeadError (Argument × Bytes) :=
    match rest.splitAt? width with
    | some (digits, rest) => .ok (make digits.toNat, rest)
    | none => .error .endOfInput
  if info < 24 then .ok (.short info, rest)
  else if info = 24 then word 1 .one
  else if info = 25 then word 2 .two
  else if info = 26 then word 4 .four
  else if info = 27 then word 8 .eight
  else if info = 31 then .ok (.indefinite, rest)
  else .error .malformed

/-- The number given, unless the argument is the mark of indefinite length. -/
def number? : Argument → Option UInt64
  | .short n => some n.toUInt64
  | .one n | .two n | .four n | .eight n => some (UInt64.ofNat n)
  | .indefinite => none

end Argument

namespace Head

/-- The head of a major type and an argument. -/
def ofArgument (major : UInt8) (argument : Argument) : Except HeadError Head :=
  match major.toNat, argument.number? with
  | 0, some n => .ok (.uint n)
  | 1, some n => .ok (.nint n)
  | 2, length => .ok (.bytes length)
  | 3, length => .ok (.text length)
  | 4, length => .ok (.array length)
  | 5, length => .ok (.map length)
  | 6, some n => .ok (.tag n)
  | 7, _ =>
    match argument with
    | .short n => .ok (.simple n)
    | .one n => .ok (.simple (UInt8.ofNat n))
    | .two n => .ok (.float (UInt64.ofNat (FloatFormat.half.widen n)))
    | .four n => .ok (.float (UInt64.ofNat (FloatFormat.single.widen n)))
    | .eight n => .ok (.float (UInt64.ofNat n))
    | .indefinite => .ok .stop
  | _, _ => .error .malformed

/-- The head at the beginning of some bytes, and the bytes after it. -/
def read : Bytes → Except HeadError (Head × Bytes)
  | [] => .error .endOfInput
  | first :: rest => do
    let (argument, rest) ← Argument.read (first &&& 0x1F) rest
    let head ← ofArgument (first >>> 5) argument
    .ok (head, rest)

/-- The shortest head of a major type with a number for argument. -/
def write (major : Nat) (n : UInt64) : Bytes :=
  let lead (info : Nat) : UInt8 := UInt8.ofNat (major * 32 + info)
  if n < 24 then [lead n.toNat]
  else if n < 0x100 then lead 24 :: Bytes.ofNat 1 n.toNat
  else if n < 0x10000 then lead 25 :: Bytes.ofNat 2 n.toNat
  else if n < 0x100000000 then lead 26 :: Bytes.ofNat 4 n.toNat
  else lead 27 :: Bytes.ofNat 8 n.toNat

/-- A number in floating point in the first of its forms of 16, 32 and 64 bits that is there. -/
def writeFormat (half single : Option Nat) (bits : UInt64) : Bytes :=
  match half, single with
  | some n, _ => 0xF9 :: Bytes.ofNat 2 n
  | none, some n => 0xFA :: Bytes.ofNat 4 n
  | none, none => 0xFB :: Bytes.ofNat 8 bits.toNat

/-- The shortest form of a number in floating point that keeps its bits. -/
def writeFloat (bits : UInt64) : Bytes :=
  writeFormat (FloatFormat.half.narrow? bits.toNat) (FloatFormat.single.narrow? bits.toNat) bits

end Head

end TokenGate.Cbor
