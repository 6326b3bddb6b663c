import TokenGate.Text.Hex
import TokenGate.Text.Utf8

/-!
# Strings in JSON

Between the quotes of a JSON string, some characters are written as escapes. A string is first found
in its written form, which is checked no further than that its escapes are complete, and read only
where its text matters. Then it has to be UTF-8, and code units given by number have to be a character
or a pair that is one.
-/

namespace TokenGate.Json

/-- The byte of an ASCII character. -/
def byteOf (c : Char) : UInt8 := UInt8.ofNat c.toNat

/-- The characters that stand for another one after a backslash. -/
def shortEscapes : List (Char × Char) :=
  [('"', '"'), ('\\', '\\'), ('/', '/'), ('b', '\x08'), ('f', '\x0c'), ('n', '\n'), ('r', '\r'),
    ('t', '\t')]

/-- The written form of a string up to its closing quote, and what follows the quote. -/
def scanString : Bytes → Option (Bytes × Bytes)
  | [] => none
  | 0x22 :: rest => some ([], rest)
  | 0x5C :: 0x75 :: a :: b :: c :: d :: rest =>
    if [a, b, c, d].all fun digit => (Text.Hex.value? digit).isSome then
      (scanString rest).map fun (written, rest) =>
        (0x5C :: 0x75 :: a :: b :: c :: d :: written, rest)
    else none
  | 0x5C :: e :: rest =>
    if shortEscapes.any fun (name, _) => byteOf name == e then
      (scanString rest).map fun (written, rest) => (0x5C :: e :: written, rest)
    else none
  | b :: rest =>
    if b < 0x20 ∨ b = 0x5C then none
    else (scanString rest).map fun (written, rest) => (b :: written, rest)

/-- A part of a written string. -/
inductive Piece where
  | char (c : Char)
  /-- A code unit of UTF-16, given by its number. -/
  | unit (n : Nat)
  deriving DecidableEq, Repr

/-- The number that four hexadecimal digits stand for. -/
def unitOf? (digits : List Char) : Option Nat :=
  digits.foldlM (fun n c => (Text.Hex.value? (byteOf c)).map fun d => n * 16 + d.toNat) 0

/-- The parts of a written string. -/
def pieces? : List Char → Option (List Piece)
  | [] => some []
  | '\\' :: 'u' :: a :: b :: c :: d :: rest => do
    let n ← unitOf? [a, b, c, d]
    let more ← pieces? rest
    some (.unit n :: more)
  | '\\' :: e :: rest => do
    let c ← shortEscapes.lookup e
    let more ← pieces? rest
    some (.char c :: more)
  | c :: rest => do
    let more ← pieces? rest
    some (.char c :: more)

/-- Whether a code unit begins a pair. -/
def isLeading (n : Nat) : Bool := 0xD800 ≤ n && n < 0xDC00

/-- Whether a code unit ends a pair. -/
def isTrailing (n : Nat) : Bool := 0xDC00 ≤ n && n < 0xE000

/-- The characters that some parts stand for. -/
def joinPieces? : List Piece → Option (List Char)
  | [] => some []
  | .char c :: rest => (joinPieces? rest).map (c :: ·)
  | .unit n :: rest =>
    if isLeading n then
      match rest with
      | .unit m :: rest =>
        if isTrailing m then
          let c := Char.ofNat (0x10000 + (n - 0xD800) * 0x400 + (m - 0xDC00))
          (joinPieces? rest).map (c :: ·)
        else none
      | _ => none
    else if isTrailing n then none
    else (joinPieces? rest).map (Char.ofNat n :: ·)

/-- The text of a written string. -/
def unescape? (written : Bytes) : Option String := do
  let s ← Text.ofUtf8? written
  let pieces ← pieces? s.toList
  let chars ← joinPieces? pieces
  some (String.ofList chars)

/-- A character as it is written in a string. -/
def escapeChar (c : Char) : List Char :=
  match (shortEscapes.filter (·.1 ≠ '/')).find? fun (_, meaning) => meaning == c with
  | some (name, _) => ['\\', name]
  | none => if c.toNat < 0x20 then ['\\', 'u', '0', '0'] ++ Text.Hex.digits (byteOf c) else [c]

/-- The written form of a text: escapes only where there has to be one, by number only for control
characters without a short form. -/
def escape (s : String) : Bytes :=
  Text.utf8 (String.ofList (s.toList.flatMap escapeChar))

end TokenGate.Json
