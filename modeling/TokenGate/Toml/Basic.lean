/-!
# TOML values

What a TOML document can say in the settings of a server: texts, integers, truth values, arrays and
tables. Numbers with a fraction and dates may stand where nothing is looked at.
-/

namespace TokenGate

/-- A TOML value. -/
inductive Toml where
  | text (s : String)
  | integer (n : Int64)
  | boolean (b : Bool)
  /-- A number that is no integer, or a date or time. -/
  | other
  | array (items : List Toml)
  /-- No key is repeated. -/
  | table (entries : List (String × Toml))

namespace Toml

/-- The text that a value is. -/
def text? : Toml → Option String
  | .text s => some s
  | _ => none

/-- The integer that a value is. -/
def integer? : Toml → Option Int64
  | .integer n => some n
  | _ => none

/-- The items of an array, each read by `item`. -/
def items? {α : Type} (item : Toml → Option α) : Toml → Option (List α)
  | .array items => items.mapM item
  | _ => none

/-- The entries of a table, each value read by `value`. -/
def entries? {α : Type} (value : Toml → Option α) : Toml → Option (List (String × α))
  | .table entries => entries.mapM fun (key, v) => (value v).map (key, ·)
  | _ => none

/-- Whether a value is a table or an array with nothing in it. -/
def isEmpty : Toml → Bool
  | .array [] | .table [] => true
  | _ => false

/-- The name that a value is: a text, or a table in which nothing but the name stands, without
content. -/
def name? : Toml → Option String
  | .text s => some s
  | .table [(s, v)] => if v.isEmpty then some s else none
  | _ => none

/-- The parts of a record with given names. A record is a table without other keys, or an array that
begins with the parts in order. -/
def parts? (names : List String) : Toml → Option (List (Option Toml))
  | .table entries =>
    if entries.all fun entry => names.contains entry.1 then
      some (names.map fun name => entries.lookup name)
    else none
  | .array items => some ((List.range names.length).map fun i => items[i]?)
  | _ => none

end Toml

end TokenGate
