import TokenGate.Text.Hex
import TokenGate.Toml.Line

/-!
# Texts in TOML

Strings with and without escapes, within a line or over several.
-/

namespace TokenGate.Toml

/-- The single quote, which encloses strings without escapes. -/
def apostrophe : Char := '\x27'

/-- The characters that a backslash and another character stand for. -/
def escapes : List (Char × Char) :=
  [('b', '\x08'), ('t', '\t'), ('n', '\n'), ('f', '\x0c'), ('r', '\r'), ('"', '"'), ('\\', '\\')]

/-- The character that has its number given in hexadecimal. -/
def charOfHex? (digits : List Char) : Option Char := do
  let n ← digits.foldlM (fun n c =>
    if c.toNat < 0x80 then (Text.Hex.value? (UInt8.ofNat c.toNat)).map fun d => n * 16 + d.toNat
    else none) 0
  if n.isValidChar then some (Char.ofNat n) else none

/-- A string up to its closing double quote. -/
def readBasic : Reader (List Char)
  | '"' :: rest => some ([], rest)
  | '\\' :: 'u' :: a :: b :: c :: d :: rest => do
    let char ← charOfHex? [a, b, c, d]
    let (chars, rest) ← readBasic rest
    some (char :: chars, rest)
  | '\\' :: 'U' :: a :: b :: c :: d :: e :: f :: g :: h :: rest => do
    let char ← charOfHex? [a, b, c, d, e, f, g, h]
    let (chars, rest) ← readBasic rest
    some (char :: chars, rest)
  | '\\' :: e :: rest => do
    let char ← escapes.lookup e
    let (chars, rest) ← readBasic rest
    some (char :: chars, rest)
  | c :: rest =>
    if isControl c then none
    else do
      let (chars, rest) ← readBasic rest
      some (c :: chars, rest)
  | [] => none

/-- A string without escapes up to its closing quote. -/
def readLiteral : Reader (List Char)
  | [] => none
  | c :: rest =>
    if c = apostrophe then some ([], rest)
    else if isControl c then none
    else do
      let (chars, rest) ← readLiteral rest
      some (c :: chars, rest)

/-- How many of at most five quotes are in front. -/
def countQuotes (quote : Char) (cs : List Char) : Nat :=
  ((cs.take 5).takeWhile (· = quote)).length

/-- Whether nothing but white space is left of a line that goes on. -/
def endsLine (cs : List Char) : Bool := (afterNewline? (skipSpace cs)).isSome

/-- A long string up to its three closing quotes, before which there may be two more quotes that are
part of it. White space is left out while `trim` says so: after a backslash at the end of a line. -/
def readLong : (fuel : Nat) → (trim : Bool) → Reader (List Char)
  | 0, _, _ => none
  | fuel + 1, trim, cs =>
    let quotes := countQuotes '"' cs
    if 3 ≤ quotes then some (List.replicate (quotes - 3) '"', cs.drop quotes)
    else
      let emit (char : Char) (rest : List Char) : Option (List Char × List Char) := do
        let (chars, rest) ← readLong fuel false rest
        some (char :: chars, rest)
      match afterNewline? cs with
      | some rest => if trim then readLong fuel true rest else emit '\n' rest
      | none =>
        match cs with
        | '\\' :: 'u' :: a :: b :: c :: d :: rest => do emit (← charOfHex? [a, b, c, d]) rest
        | '\\' :: 'U' :: a :: b :: c :: d :: e :: f :: g :: h :: rest => do
          emit (← charOfHex? [a, b, c, d, e, f, g, h]) rest
        | '\\' :: rest =>
          if endsLine rest then readLong fuel true rest
          else
            match rest with
            | e :: rest => do emit (← escapes.lookup e) rest
            | [] => none
        | c :: rest =>
          if isControl c then none
          else if trim && isSpace c then readLong fuel true rest
          else emit c rest
        | [] => none

/-- A long string without escapes up to its three closing quotes, before which there may be two more
quotes that are part of it. -/
def readLongLiteral : (fuel : Nat) → Reader (List Char)
  | 0, _ => none
  | fuel + 1, cs =>
    let quotes := countQuotes apostrophe cs
    if 3 ≤ quotes then some (List.replicate (quotes - 3) apostrophe, cs.drop quotes)
    else
      let emit (char : Char) (rest : List Char) : Option (List Char × List Char) := do
        let (chars, rest) ← readLongLiteral fuel rest
        some (char :: chars, rest)
      match afterNewline? cs, cs with
      | some rest, _ => emit '\n' rest
      | none, c :: rest => if isControl c then none else emit c rest
      | none, [] => none

/-- Some characters without the end of a line in front, if there is one. -/
def skipNewline (cs : List Char) : List Char := (afterNewline? cs).getD cs

/-- A string of any kind. -/
def readText (cs : List Char) : Option (List Char × List Char) :=
  match cs with
  | c :: rest =>
    if c = '"' then
      if countQuotes '"' cs < 3 then readBasic rest
      else readLong cs.length false (skipNewline (cs.drop 3))
    else if c = apostrophe then
      if countQuotes apostrophe cs < 3 then readLiteral rest
      else readLongLiteral cs.length (skipNewline (cs.drop 3))
    else none
  | [] => none

end TokenGate.Toml
