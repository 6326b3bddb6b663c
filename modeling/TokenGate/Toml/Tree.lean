import TokenGate.Toml.Basic

/-!
# Building TOML tables

A document builds its tables entry by entry, and the order is free up to a point: a table must not be
defined twice. Tables come about by a header, by being on the way to the table of a header, or by a
dotted key, and which of these it was decides what may still be added to them.
-/

namespace TokenGate.Toml

/-- How a table came about. -/
inductive Origin where
  /-- By a header of its own, which no other header may repeat. -/
  | header
  /-- On the way to the table of a header. It may still get a header of its own. -/
  | implied
  /-- By a dotted key. Only further dotted keys may add entries to it. -/
  | dotted
  deriving DecidableEq, Repr

/-- What stands under a key while a document is read. -/
inductive Node where
  /-- A value, which takes no more entries even if it is a table. -/
  | value (v : Toml)
  | table (origin : Origin) (entries : List (String × Node))
  /-- An array of tables. Entries go to the last one. -/
  | tables (elements : List (List (String × Node)))

/-- The entries of a table while a document is read. -/
abbrev Entries := List (String × Node)

mutual

/-- The value of what stands under a key. -/
def Node.toToml : Node → Toml
  | .value v => v
  | .table _ entries => .table (entriesToToml entries)
  | .tables elements => .array (elementsToToml elements)

/-- The values of the entries of a table. -/
def entriesToToml : List (String × Node) → List (String × Toml)
  | [] => []
  | (key, node) :: rest => (key, node.toToml) :: entriesToToml rest

/-- The values of the tables in an array. -/
def elementsToToml : List (List (String × Node)) → List Toml
  | [] => []
  | entries :: rest => .table (entriesToToml entries) :: elementsToToml rest

end

namespace Entries

/-- The entries with another node under a key that is there. -/
def replace (key : String) (node : Node) (entries : Entries) : Entries :=
  entries.map fun entry => if entry.1 = key then (key, node) else entry

/-- The entries with a change made to the table that a path leads to, of which the change is told the
origin. Tables that are missing on the way come about as `missing` says, and only tables of an
origin that satisfies `passes` may be passed. -/
def modifyAt (missing : Origin) (passes : Origin → Bool)
    (change : Origin → Entries → Option Entries) :
    (path : List String) → (origin : Origin) → Entries → Option Entries
  | [], origin, entries => change origin entries
  | key :: path, _, entries =>
    match entries.lookup key with
    | none => do
      let inner ← modifyAt missing passes change path missing []
      some (entries ++ [(key, .table missing inner)])
    | some (.value _) => none
    | some (.table origin inner) =>
      if passes origin then do
        let inner ← modifyAt missing passes change path origin inner
        some (entries.replace key (.table origin inner))
      else none
    | some (.tables elements) => do
      let last ← modifyAt missing passes change path .header (← elements.getLast?)
      some (entries.replace key (.tables (elements.dropLast ++ [last])))

/-- The entries with a change made to the table that the path of a header leads to. -/
def modifyAtHeader (path : List String) (change : Entries → Option Entries) (entries : Entries) :
    Option Entries :=
  modifyAt .implied (fun _ => true) (fun _ => change) path .header entries

/-- The entries with a value under a dotted key. All but the last part of the key are tables that
dotted keys may add to. -/
def put (path : List String) (key : String) (v : Toml) (entries : Entries) : Option Entries :=
  let insert (origin : Origin) (entries : Entries) : Option Entries :=
    if (path ≠ [] ∧ origin ≠ .dotted) ∨ (entries.lookup key).isSome then none
    else some (entries ++ [(key, .value v)])
  modifyAt .dotted (· ≠ .header) insert path .header entries

/-- The entries with the table of a header, which must not have had a header before. -/
def openTable (path : List String) (key : String) (entries : Entries) : Option Entries :=
  entries.modifyAtHeader path fun entries =>
    match entries.lookup key with
    | none => some (entries ++ [(key, .table .header [])])
    | some (.table .implied inner) => some (entries.replace key (.table .header inner))
    | some _ => none

/-- The entries with another table in the array of tables of a header. -/
def openElement (path : List String) (key : String) (entries : Entries) : Option Entries :=
  entries.modifyAtHeader path fun entries =>
    match entries.lookup key with
    | none => some (entries ++ [(key, .tables [[]])])
    | some (.tables elements) => some (entries.replace key (.tables (elements ++ [[]])))
    | some _ => none

end Entries

end TokenGate.Toml
