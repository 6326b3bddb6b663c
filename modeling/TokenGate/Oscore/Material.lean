import TokenGate.Cbor.Encoding

/-!
# OSCORE input material

What a token carries for a client that is going to use OSCORE (RFC 9203): a master secret with an
identifier, and optional parameters of the key derivation. It travels as a map from small integers.
-/

namespace TokenGate.Oscore

open Cbor

/-- OSCORE input material. -/
structure Material where
  id : Bytes
  version : Option UInt64 := none
  ms : Bytes
  hkdf : Option Int64 := none
  alg : Option Int64 := none
  salt : Option Bytes := none
  contextId : Option Bytes := none
  deriving DecidableEq

namespace Material

/-- The labels of the map. -/
inductive Field where
  | id
  | version
  | ms
  | hkdf
  | alg
  | salt
  | contextId
  deriving DecidableEq, Repr

namespace Field

/-- Every label, in the order of their numbers. -/
def all : List Field := [id, version, ms, hkdf, alg, salt, contextId]

/-- The number of a label. -/
def label : Field → UInt64
  | id => 0
  | version => 1
  | ms => 2
  | hkdf => 3
  | alg => 4
  | salt => 5
  | contextId => 6

/-- The label with a number. -/
def ofLabel? (n : UInt64) : Option Field := all.find? fun f => f.label = n

end Field

/-- Material of which not every part has been read yet. -/
structure Draft where
  id : Option Bytes := none
  version : Option UInt64 := none
  ms : Option Bytes := none
  hkdf : Option Int64 := none
  alg : Option Int64 := none
  salt : Option Bytes := none
  contextId : Option Bytes := none

/-- A draft with another entry read. The identifier and the secret may come only once; of any other
entry the last one counts. -/
def Draft.enter (draft : Draft) (entry : Value × Value) : Option Draft := do
  match ← Field.ofLabel? (← entry.1.toUInt64?), entry.2 with
  | .id, .bytes bs => if draft.id.isNone then some { draft with id := some bs } else none
  | .ms, .bytes bs => if draft.ms.isNone then some { draft with ms := some bs } else none
  | .version, v => some { draft with version := some (← v.toUInt64?) }
  | .hkdf, v => some { draft with hkdf := some (← v.toInt64?) }
  | .alg, v => some { draft with alg := some (← v.toInt64?) }
  | .salt, .bytes bs => some { draft with salt := some bs }
  | .contextId, .bytes bs => some { draft with contextId := some bs }
  | _, _ => none

/-- The material of a draft that has an identifier and a secret. -/
def Draft.finish (draft : Draft) : Option Material := do
  some { id := ← draft.id, version := draft.version, ms := ← draft.ms, hkdf := draft.hkdf,
         alg := draft.alg, salt := draft.salt, contextId := draft.contextId }

/-- The material that a map is. -/
def ofValue? : Value → Option Material
  | .map entries => do (← entries.foldlM Draft.enter {}).finish
  | _ => none

/-- The value under a label, if there is one. -/
def field? (m : Material) : Field → Option Value
  | .id => some (.bytes m.id)
  | .version => m.version.map .uint
  | .ms => some (.bytes m.ms)
  | .hkdf => m.hkdf.map .ofInt64
  | .alg => m.alg.map .ofInt64
  | .salt => m.salt.map .bytes
  | .contextId => m.contextId.map .bytes

/-- Material as a map, in the order of the labels. -/
def toValue (m : Material) : Value :=
  .map (Field.all.filterMap fun f => (m.field? f).map fun v => (.uint f.label, v))

end Material

end TokenGate.Oscore
