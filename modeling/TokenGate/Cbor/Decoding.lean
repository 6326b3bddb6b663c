import TokenGate.Cbor.Head
import TokenGate.Cbor.Value

/-!
# Reading CBOR

A reader takes an item off the front of some bytes. It accepts every well-formed encoding, not only
the written one: longer heads, indefinite lengths, repeated map keys. What it does not accept are
reserved heads, text that is not UTF-8, simple values without a meaning here, and arrays, maps and
tags nested deeper than `maxDepth`.

An integer may come as a tagged byte string. One of at most 16 bytes is read as the integer it
stands for, and stays tagged, without leading zeros, only if it needs more than 64 bits.
-/

namespace TokenGate.Cbor

/-- How deep arrays, maps and tags may be nested. -/
def maxDepth : Nat := 256

/-- Takes a value off the front of some bytes. -/
abbrev Reader (α : Type) := Bytes → Option (α × Bytes)

/-- The pieces of a string of indefinite length, up to its stop. Pieces may themselves be of
indefinite length, `depth` of which are still to be closed. -/
def pieces (lengthOf? : Head → Option (Option UInt64)) :
    (fuel : Nat) → (depth : Nat) → Reader (List Bytes)
  | 0, _, _ => none
  | fuel + 1, depth, bs =>
    match Head.read bs with
    | .error _ => none
    | .ok (.stop, rest) =>
      match depth with
      | 0 => some ([], rest)
      | depth + 1 => pieces lengthOf? fuel depth rest
    | .ok (head, rest) =>
      match lengthOf? head with
      | none => none
      | some none => pieces lengthOf? fuel (depth + 1) rest
      | some (some n) => do
        let (piece, rest) ← rest.splitAt? n.toNat
        let (more, rest) ← pieces lengthOf? fuel depth rest
        some (piece :: more, rest)

/-- The pieces of a byte string whose head gave its length, or none. -/
def readBytes (length : Option UInt64) : Reader Bytes := fun bs =>
  match length with
  | some n => bs.splitAt? n.toNat
  | none => do
    let piece : Head → Option (Option UInt64)
      | .bytes length => some length
      | _ => none
    let (all, rest) ← pieces piece bs.length 0 bs
    some (all.flatten, rest)

/-- The text whose head gave its length, or none; each piece is text of its own. -/
def readText (length : Option UInt64) : Reader String := fun bs =>
  match length with
  | some n => do
    let (piece, rest) ← bs.splitAt? n.toNat
    let s ← Text.ofUtf8? piece
    some (s, rest)
  | none => do
    let piece : Head → Option (Option UInt64)
      | .text length => some length
      | _ => none
    let (all, rest) ← pieces piece bs.length 0 bs
    let texts ← all.mapM Text.ofUtf8?
    some (String.join texts, rest)

/-- As many values as given, one after the other. -/
def readCount {α : Type} (item : Reader α) : Nat → Reader (List α)
  | 0, bs => some ([], bs)
  | n + 1, bs => do
    let (v, rest) ← item bs
    let (vs, rest) ← readCount item n rest
    some (v :: vs, rest)

/-- Values up to a stop. -/
def readUntilStop {α : Type} (item : Reader α) : (fuel : Nat) → Reader (List α)
  | 0, _ => none
  | fuel + 1, bs =>
    match Head.read bs with
    | .ok (.stop, rest) => some ([], rest)
    | _ => do
      let (v, rest) ← item bs
      let (vs, rest) ← readUntilStop item fuel rest
      some (v :: vs, rest)

/-- The values of an array, or the entries of a map, whose head gave their number, or none. -/
def readAll {α : Type} (item : Reader α) (length : Option UInt64) : Reader (List α) := fun bs =>
  match length with
  | some n => readCount item n.toNat bs
  | none => readUntilStop item bs.length bs

/-- A key and its value. -/
def readEntry {α : Type} (item : Reader α) : Reader (α × α) := fun bs => do
  let (k, rest) ← item bs
  let (v, rest) ← item rest
  some ((k, v), rest)

/-- The integer that the tag 2 or 3 gives to a byte string. Without a place among the integers it
stays a tagged string, and a negative one that needs more than 127 bits is refused. -/
def integerOfTag? (number : UInt64) (digits : Bytes) : Option Value :=
  let n := digits.toNat
  if number = 2 then
    some (if n < 0x10000000000000000 then .uint (UInt64.ofNat n) else .tag 2 (.bytes digits.stripZeros))
  else if n < 0x80000000000000000000000000000000 then
    some (if n < 0x10000000000000000 then .nint (UInt64.ofNat n) else .tag 3 (.bytes digits.stripZeros))
  else none

/-- The digits of an integer that came as a tagged byte string, after the head of the tag. -/
def taggedDigits? (number : UInt64) (bs : Bytes) : Option (Bytes × Bytes) :=
  if number = 2 ∨ number = 3 then
    match Head.read bs with
    | .ok (.bytes (some n), rest) => if n ≤ 16 then rest.splitAt? n.toNat else none
    | _ => none
  else none

/-- Takes an item off the front of some bytes, in which arrays, maps and tags may be nested `depth`
deep. -/
def readValue (depth : Nat) : Reader Value := fun bs =>
  match Head.read bs with
  | .error _ => none
  | .ok (head, rest) =>
    match head, depth with
    | .uint n, _ => some (.uint n, rest)
    | .nint n, _ => some (.nint n, rest)
    | .bytes length, _ => (readBytes length rest).map fun (bs, rest) => (.bytes bs, rest)
    | .text length, _ => (readText length rest).map fun (s, rest) => (.text s, rest)
    | .simple n, _ =>
      if n = 20 then some (.bool false, rest)
      else if n = 21 then some (.bool true, rest)
      else if n = 22 ∨ n = 23 then some (.null, rest)
      else none
    | .float bits, _ => some (.float bits, rest)
    | .stop, _ => none
    | .array length, depth + 1 =>
      (readAll (readValue depth) length rest).map fun (vs, rest) => (.array vs, rest)
    | .map length, depth + 1 =>
      (readAll (readEntry (readValue depth)) length rest).map fun (es, rest) => (.map es, rest)
    | .tag number, depth + 1 =>
      match taggedDigits? number rest with
      | some (digits, rest) => (integerOfTag? number digits).map (·, rest)
      | none => (readValue depth rest).map fun (v, rest) => (.tag number v, rest)
    | .tag number, 0 =>
      match taggedDigits? number rest with
      | some (digits, rest) => (integerOfTag? number digits).map (·, rest)
      | none => none
    | .array _, 0 | .map _, 0 => none

/-- The item at the beginning of some bytes, and the bytes after it. -/
def read? : Reader Value := readValue maxDepth

/-- The item at the beginning of some bytes; what follows is ignored. -/
def decode? (bs : Bytes) : Option Value :=
  (read? bs).map (·.1)

/-- The item that some bytes are, nothing following it. -/
def decodeExact? (bs : Bytes) : Option Value :=
  match read? bs with
  | some (v, []) => some v
  | _ => none

end TokenGate.Cbor
