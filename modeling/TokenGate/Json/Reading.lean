import TokenGate.Json.Basic

/-!
# Reading JSON

A reader takes a value off the front of some bytes, after any white space. A document is a single
value with nothing but white space around it.
-/

namespace TokenGate.Json

/-- Takes something off the front of some bytes. -/
abbrev Reader (α : Type) := Bytes → Option (α × Bytes)

/-- Whether a byte is white space between the parts of a document. -/
def isSpace (b : UInt8) : Bool :=
  b == 0x20 || b == 0x0A || b == 0x0D || b == 0x09

/-- Some bytes without the white space in front. -/
def skipSpace (bs : Bytes) : Bytes := bs.dropWhile isSpace

/-- Whether a byte is a decimal digit. -/
def isDigit (b : UInt8) : Bool := 0x30 ≤ b && b ≤ 0x39

/-- At least one digit. -/
def readDigits : Reader Bytes := fun bs =>
  match bs.span isDigit with
  | ([], _) => none
  | (digits, rest) => some (digits, rest)

/-- The part of a number before its point: a zero, or digits that begin with no zero. -/
def readInteger : Reader Bytes := fun bs => do
  let (digits, rest) ← readDigits bs
  if digits.head? = some (byteOf '0') ∧ 1 < digits.length then none else some (digits, rest)

/-- A part that is there if the first byte is one of some marks. -/
def readAfter (marks : List Char) (part : Reader Bytes) : Reader Bytes := fun bs =>
  match bs with
  | b :: rest =>
    if marks.any fun mark => byteOf mark == b then
      (part rest).map fun (written, rest) => (b :: written, rest)
    else some ([], bs)
  | [] => some ([], [])

/-- One part after another. -/
def readBoth (first second : Reader Bytes) : Reader Bytes := fun bs => do
  let (a, rest) ← first bs
  let (b, rest) ← second rest
  some (a ++ b, rest)

/-- A number: an integer, perhaps with a fraction, perhaps with an exponent. -/
def readNumber : Reader Bytes :=
  let sign : Reader Bytes := readAfter ['-'] fun bs => some ([], bs)
  let exponentSign : Reader Bytes := readAfter ['+', '-'] fun bs => some ([], bs)
  readBoth sign (readBoth readInteger (readBoth (readAfter ['.'] readDigits)
    (readAfter ['e', 'E'] (readBoth exponentSign readDigits))))

/-- The rest of some bytes that begin with a word. -/
def afterWord? (word : String) (bs : Bytes) : Option Bytes :=
  (Text.utf8 word).isPrefixOf? bs

/-- Things separated by commas, the first one of which is there, up to a closing mark. -/
def readList {α : Type} (item : Reader α) (close : Char) : (fuel : Nat) → Reader (List α)
  | 0, _ => none
  | fuel + 1, bs => do
    let (v, rest) ← item bs
    match skipSpace rest with
    | b :: rest =>
      if b = byteOf close then some ([v], rest)
      else if b = byteOf ',' then do
        let (vs, rest) ← readList item close fuel rest
        some (v :: vs, rest)
      else none
    | [] => none

/-- Things separated by commas up to a closing mark, perhaps none. -/
def readEnclosed {α : Type} (item : Reader α) (close : Char) : Reader (List α) := fun bs =>
  match skipSpace bs with
  | b :: rest =>
    if b = byteOf close then some ([], rest) else readList item close bs.length (b :: rest)
  | [] => none

/-- A member of an object. -/
def readMember {α : Type} (value : Reader α) : Reader (Bytes × α) := fun bs =>
  match skipSpace bs with
  | 0x22 :: rest => do
    let (name, rest) ← scanString rest
    match skipSpace rest with
    | 0x3A :: rest => do
      let (v, rest) ← value rest
      some ((name, v), rest)
    | _ => none
  | _ => none

/-- A value in which values are nested less than `depth` deep. -/
def readValue : (depth : Nat) → Reader Json
  | 0, _ => none
  | depth + 1, bs =>
    match skipSpace bs with
    | [] => none
    | b :: rest =>
      if b = byteOf '"' then (scanString rest).map fun (written, rest) => (.string written, rest)
      else if b = byteOf '[' then
        (readEnclosed (readValue depth) ']' rest).map fun (vs, rest) => (.array vs, rest)
      else if b = byteOf '{' then
        (readEnclosed (readMember (readValue depth)) '}' rest).map fun (ms, rest) =>
          (.object ms, rest)
      else if b = byteOf 'n' then (afterWord? "ull" rest).map fun rest => (.null, rest)
      else if b = byteOf 't' then (afterWord? "rue" rest).map fun rest => (.bool true, rest)
      else if b = byteOf 'f' then (afterWord? "alse" rest).map fun rest => (.bool false, rest)
      else (readNumber (b :: rest)).map fun (written, rest) => (.number written, rest)

/-- The value that a document is. -/
def decode? (bs : Bytes) : Option Json :=
  match readValue (bs.length + 1) bs with
  | some (v, rest) => if (skipSpace rest).isEmpty then some v else none
  | none => none

end TokenGate.Json
