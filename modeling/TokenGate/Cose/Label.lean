import TokenGate.Cbor.Value

/-!
# COSE labels

Keys of COSE maps, and the names of algorithms and other registered things, are small integers or
text. Which integers are registered depends on what is named; text is always allowed.
-/

namespace TokenGate.Cose

open Cbor

/-- An integer or a text that names something. -/
inductive Label where
  | int (n : Int64)
  | text (s : String)
  deriving DecidableEq

namespace Label

/-- The label that a value is, if it is one. -/
def ofValue? : Value → Option Label
  | .text s => some (.text s)
  | v => v.toInt64?.map .int

/-- A label as a value. -/
def toValue : Label → Value
  | .int n => .ofInt64 n
  | .text s => .text s

/-- The label that a value is, its integers being limited to the registered ones. -/
def ofRegistered? (registered : Int → Bool) (v : Value) : Option Label :=
  match ofValue? v with
  | some (.int n) => if registered n.toInt then some (.int n) else none
  | some (.text s) => some (.text s)
  | none => none

/-- The order of labels in a set: integers first and ascending, then texts, the shorter in bytes
first. -/
def compare : Label → Label → Ordering
  | .int m, .int n => Ord.compare m.toInt n.toInt
  | .int _, .text _ => .lt
  | .text _, .int _ => .gt
  | .text s, .text t => (Ord.compare s.utf8ByteSize t.utf8ByteSize).then (Ord.compare s t)

end Label

/-- The entries of a COSE map, every key a label and no label twice. -/
def fields? (v : Value) : Option (List (Label × Value)) :=
  match v with
  | .map entries => do
    let fields ← entries.mapM fun (k, v) => do some (← Label.ofValue? k, v)
    if (fields.map (·.1)).Nodup then some fields else none
  | _ => none

/-- What a COSE map has under an integer label. -/
def field? (fields : List (Label × Value)) (n : Int64) : Option Value :=
  (fields.find? fun (label, _) => label = .int n).map (·.2)

/-- The entries of a COSE map under other labels than the given ones. -/
def fieldsExcept (known : List Int64) (fields : List (Label × Value)) : List (Label × Value) :=
  fields.filter fun (label, _) => !known.any fun n => label = .int n

/-- An optional field: absent, or a value that `read` accepts. -/
def optional? {α : Type} (read : Value → Option α) : Option Value → Option (Option α)
  | none => some none
  | some v => (read v).map some

/-- The bytes of a field that is never empty; the empty string stands for its absence. -/
def optionalBytes? : Option Value → Option Bytes
  | none => some []
  | some (.bytes (b :: bs)) => some (b :: bs)
  | some _ => none

/-- The entry of a field of bytes, unless it is absent. -/
def bytesEntry (n : UInt64) (bs : Bytes) : List (Value × Value) :=
  if bs.isEmpty then [] else [(.uint n, .bytes bs)]

/-- The entry of an optional field. -/
def labelEntry (n : UInt64) (label : Option Label) : List (Value × Value) :=
  label.toList.map fun label => (.uint n, label.toValue)

end TokenGate.Cose
