import TokenGate.Toml.Moment
import TokenGate.Toml.Number
import TokenGate.Toml.Text
import TokenGate.Toml.Tree

/-!
# Reading TOML

A document of TOML 1.0 is a sequence of lines, each of which is empty, a header, or an entry of the
table of the last header. Only arrays and long strings may go on over several lines. There is a limit
to the nesting of values and to the parts of a key.
-/

namespace TokenGate.Toml

/-- How deep values may be nested, and how many parts a key may have. -/
def maxDepth : Nat := 79

/-- Whether a character may stand in a key without quotes. -/
def isBare (c : Char) : Bool :=
  ('a' ≤ c && c ≤ 'z') || ('A' ≤ c && c ≤ 'Z') || ('0' ≤ c && c ≤ '9') || c == '_' || c == '-'

/-- A part of a key. -/
def readKeyPart : Reader String
  | [] => none
  | c :: rest =>
    if c = '"' then (readBasic rest).map fun (chars, rest) => (String.ofList chars, rest)
    else if c = apostrophe then
      (readLiteral rest).map fun (chars, rest) => (String.ofList chars, rest)
    else
      match (c :: rest).span isBare with
      | ([], _) => none
      | (chars, rest) => some (String.ofList chars, rest)

/-- A key of so many parts at most: all parts but the last, and the last one. -/
def readKey : (parts : Nat) → Reader (List String × String)
  | 0, _ => none
  | parts + 1, cs => do
    let (part, rest) ← readKeyPart (skipSpace cs)
    match skipSpace rest with
    | '.' :: rest => do
      let ((path, key), rest) ← readKey parts rest
      some ((part :: path, key), rest)
    | rest => some (([], part), rest)

/-- A number, a date or a time. -/
def readNumber (cs : List Char) : Option (Toml × List Char) :=
  match (afterMoment? cs).or (afterReal? cs) with
  | some rest => some (.other, rest)
  | none => readInteger cs

/-- The items of an array up to its closing bracket. -/
def readItems (value : Reader Toml) : (fuel : Nat) → Reader (List Toml)
  | 0, _ => none
  | fuel + 1, cs =>
    match skipLines cs.length cs with
    | ']' :: rest => some ([], rest)
    | cs => do
      let (v, rest) ← value cs
      match skipLines rest.length rest with
      | ',' :: rest => do
        let (vs, rest) ← readItems value fuel rest
        some (v :: vs, rest)
      | ']' :: rest => some ([v], rest)
      | _ => none

/-- A key and its value. -/
def readEntry (value : Reader Toml) : Reader ((List String × String) × Toml) := fun cs => do
  let (key, rest) ← readKey maxDepth cs
  match rest with
  | '=' :: rest => do
    let (v, rest) ← value (skipSpace rest)
    some ((key, v), rest)
  | _ => none

/-- The entries of a table in braces up to its closing brace, added to some entries. -/
def readInline (value : Reader Toml) (entries : Entries) : (fuel : Nat) → Reader Entries
  | 0, _ => none
  | fuel + 1, cs => do
    let (((path, key), v), rest) ← readEntry value cs
    let entries ← entries.put path key v
    match skipSpace rest with
    | ',' :: rest => readInline value entries fuel rest
    | '}' :: rest => some (entries, rest)
    | _ => none

/-- A value that is no array or table. -/
def readScalar : Reader Toml
  | 't' :: 'r' :: 'u' :: 'e' :: rest => some (.boolean true, rest)
  | 'f' :: 'a' :: 'l' :: 's' :: 'e' :: rest => some (.boolean false, rest)
  | c :: rest =>
    if c = '"' ∨ c = apostrophe then
      (readText (c :: rest)).map fun (chars, rest) => (.text (String.ofList chars), rest)
    else readNumber (c :: rest)
  | [] => none

/-- A value in which arrays and tables are nested so deep at most. -/
def readValue : (depth : Nat) → Reader Toml
  | 0, cs => readScalar cs
  | depth + 1, cs =>
    match cs with
    | '[' :: rest =>
      (readItems (readValue depth) cs.length rest).map fun (vs, rest) => (.array vs, rest)
    | '{' :: rest =>
      match skipSpace rest with
      | '}' :: rest => some (.table [], rest)
      | rest =>
        (readInline (readValue depth) [] cs.length rest).map fun (entries, rest) =>
          (.table (entriesToToml entries), rest)
    | cs => readScalar cs

/-- What has been read of a document: its tables, and the path to the table of the last header. -/
structure Progress where
  entries : Entries := []
  current : List String := []

/-- A header, the key of which is followed by some closing brackets. -/
def readHeader (close : List Char) : Reader (List String × String) := fun cs => do
  let (key, rest) ← readKey maxDepth cs
  let rest ← close.isPrefixOf? rest
  some (key, ← afterLine? rest)

/-- A line of a document. -/
def readLine (progress : Progress) : Reader Progress
  | '[' :: '[' :: rest => do
    let ((path, key), rest) ← readHeader [']', ']'] rest
    let entries ← progress.entries.openElement path key
    some ({ entries, current := path ++ [key] }, rest)
  | '[' :: rest => do
    let ((path, key), rest) ← readHeader [']'] rest
    let entries ← progress.entries.openTable path key
    some ({ entries, current := path ++ [key] }, rest)
  | cs =>
    match afterLine? cs with
    | some rest => some (progress, rest)
    | none => do
      let (((path, key), v), rest) ← readEntry (readValue maxDepth) cs
      let entries ← progress.entries.modifyAtHeader progress.current (Entries.put path key v)
      some ({ progress with entries }, ← afterLine? rest)

/-- The lines of a document. -/
def readLines (progress : Progress) : (fuel : Nat) → List Char → Option Progress
  | 0, _ => none
  | fuel + 1, cs =>
    match skipSpace cs with
    | [] => some progress
    | cs => do
      let (progress, rest) ← readLine progress cs
      readLines progress fuel rest

/-- Some characters without a byte order mark in front. -/
def skipMark : List Char → List Char
  | '\uFEFF' :: rest => rest
  | cs => cs

/-- The table that a document is. -/
def decode? (s : String) : Option Toml :=
  let cs := skipMark s.toList
  (readLines {} (cs.length + 1) cs).map fun progress => .table (entriesToToml progress.entries)

end TokenGate.Toml
