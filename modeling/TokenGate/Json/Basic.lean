import TokenGate.Json.Quoted

/-!
# JSON

JSON documents, in which strings and numbers are kept as they are written. The printed form puts
every item and every member on a line of its own, two spaces further in than what it is part of.
-/

namespace TokenGate

/-- A JSON value. -/
inductive Json where
  | null
  | bool (b : Bool)
  | number (written : Bytes)
  | string (written : Bytes)
  | array (items : List Json)
  | object (members : List (Bytes × Json))

namespace Json

/-- A text as a JSON string. -/
def ofText (s : String) : Json := .string (escape s)

/-- An object given by the names and values of its members. -/
def ofMembers (members : List (String × Json)) : Json :=
  .object (members.map fun (name, v) => (escape name, v))

/-- The text of a string. -/
def text? : Json → Option String
  | .string written => unescape? written
  | _ => none

/-- The truth value that a value is. -/
def bool? : Json → Option Bool
  | .bool b => some b
  | _ => none

/-- The items of an array. -/
def items? : Json → Option (List Json)
  | .array items => some items
  | _ => none

/-- The members of an object, by the text of their names. -/
def members? : Json → Option (List (String × Json))
  | .object members => members.mapM fun (name, v) => (unescape? name).map (·, v)
  | _ => none

/-- The parts of a record with given names. A record is an object, in which members of other names
mean nothing and one of these names is not repeated; or it is an array of the parts in order, from
which the last ones may be missing. -/
def parts? (names : List String) : Json → Option (List (Option Json))
  | .array items =>
    if items.length ≤ names.length then
      some (items.map some ++ List.replicate (names.length - items.length) none)
    else none
  | v => do
    let members ← v.members?
    names.mapM fun name =>
      match members.filter fun member => member.1 == name with
      | [] => some none
      | [(_, part)] => some (some part)
      | _ => none

/-- The start of a line at a depth. -/
def newline (depth : Nat) : Bytes := byteOf '\n' :: List.replicate (2 * depth) (byteOf ' ')

/-- A written string between its quotes. -/
def quote (written : Bytes) : Bytes := byteOf '"' :: written ++ [byteOf '"']

mutual

/-- The printed form of a value at a depth. -/
def render (depth : Nat) : Json → Bytes
  | .null => Text.utf8 "null"
  | .bool true => Text.utf8 "true"
  | .bool false => Text.utf8 "false"
  | .number written => written
  | .string written => quote written
  | .array [] => Text.utf8 "[]"
  | .array (v :: vs) =>
    [byteOf '['] ++ newline (depth + 1) ++ render (depth + 1) v ++ renderItems (depth + 1) vs
      ++ newline depth ++ [byteOf ']']
  | .object [] => Text.utf8 "\x7b\x7d"
  | .object ((name, v) :: members) =>
    [byteOf '{'] ++ newline (depth + 1) ++ quote name ++ Text.utf8 ": " ++ render (depth + 1) v
      ++ renderMembers (depth + 1) members ++ newline depth ++ [byteOf '}']

/-- The printed forms of further items. -/
def renderItems (depth : Nat) : List Json → Bytes
  | [] => []
  | v :: vs => [byteOf ','] ++ newline depth ++ render depth v ++ renderItems depth vs

/-- The printed forms of further members. -/
def renderMembers (depth : Nat) : List (Bytes × Json) → Bytes
  | [] => []
  | (name, v) :: members =>
    [byteOf ','] ++ newline depth ++ quote name ++ Text.utf8 ": " ++ render depth v
      ++ renderMembers depth members

end

/-- The printed form of a document. -/
def encode (v : Json) : Bytes := render 0 v

end Json

end TokenGate
