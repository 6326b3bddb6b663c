import TokenGate.Cbor.Decoding
import TokenGate.Cbor.Encoding
import TokenGate.Cose.Header

/-!
# COSE keys

A key has a type, four common parameters, and others that depend on the type. The others keep their
order. Its encoding begins with the common ones, in the order of their labels.
-/

namespace TokenGate.Cose

open Cbor

/-- A COSE key. Empty lists and byte strings stand for absent parameters. -/
structure Key where
  kty : Label
  kid : Bytes := []
  alg : Option Label := none
  /-- The permitted operations, in the order of labels and each once. -/
  operations : List Label := []
  baseIv : Bytes := []
  /-- All other parameters, in order. -/
  params : List (Label × Value) := []
  deriving DecidableEq

/-- Why a structure has no encoding. -/
inductive EncodeError where
  /-- Two parameters have the same label. -/
  | duplicateLabel
  deriving DecidableEq, Repr

namespace Key

/-- The type of symmetric keys. -/
def symmetricType : Label := .int 4

/-- The type of keys on an elliptic curve with two coordinates. -/
def ec2Type : Label := .int 2

/-- The key type that a value names. -/
def type? (v : Value) : Option Label := Label.ofRegistered? Registry.isKeyType v

/-- A label put in its place among labels in order. -/
def placeLabel (label : Label) : List Label → List Label
  | [] => [label]
  | other :: rest =>
    if Label.compare label other = .lt then label :: other :: rest
    else other :: placeLabel label rest

/-- Labels brought into their order. -/
def sortLabels (labels : List Label) : List Label :=
  labels.foldr placeLabel []

/-- A set of key operations: some, and none twice. -/
def operations? (v : Value) : Option (List Label) := do
  let labels ← HeaderOf.labels? (Label.ofRegistered? Registry.isKeyOperation) v
  if labels.Nodup then some (sortLabels labels) else none

/-- The key that a map is. -/
def ofValue? (v : Value) : Option Key := do
  let fields ← fields? v
  let kty ← (field? fields 1).bind type?
  let kid ← optionalBytes? (field? fields 2)
  let alg ← optional? (Label.ofRegistered? Registry.isAlgorithm) (field? fields 3)
  let operations ← optional? operations? (field? fields 4)
  let baseIv ← optionalBytes? (field? fields 5)
  some { kty, kid, alg, operations := operations.getD [], baseIv
         params := fieldsExcept [1, 2, 3, 4, 5] fields }

/-- The key that some bytes are, nothing following it. -/
def decode? (bs : Bytes) : Option Key := (decodeExact? bs).bind ofValue?

/-- A key as a value. A label may not be repeated among the other parameters. -/
def toValue (key : Key) : Except EncodeError Value :=
  if (key.params.map (·.1)).Nodup then
    .ok (.map (
      (.uint 1, key.kty.toValue)
        :: bytesEntry 2 key.kid
        ++ labelEntry 3 key.alg
        ++ (if key.operations.isEmpty then []
            else [(.uint 4, .array (key.operations.map Label.toValue))])
        ++ bytesEntry 5 key.baseIv
        ++ key.params.map fun (label, v) => (label.toValue, v)))
  else .error .duplicateLabel

/-- The symmetric key with an identifier and a value. -/
def symmetric (kid k : Bytes) : Key :=
  { kty := symmetricType, kid, params := [(.int (-1), .bytes k)] }

/-- Whether two keys are equal, the values of their parameters compared as numbers. -/
def eq (a b : Key) : Bool :=
  a.kty == b.kty && a.kid == b.kid && a.alg == b.alg && a.operations == b.operations
    && a.baseIv == b.baseIv && CounterSignature.eqParameters a.params b.params

end Key

end TokenGate.Cose
