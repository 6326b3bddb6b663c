import TokenGate.Cose.Encrypt0
import TokenGate.Cose.Key
import TokenGate.Oscore.Material
import TokenGate.Rejection

/-!
# Confirmations

The `cnf` claim names the key whose holder may use a token. It holds exactly one confirmation
method: the key itself, the key encrypted for this server, the identifier of a key that the server
knows already, or OSCORE input material.
-/

namespace TokenGate

open Cbor

/-- The content of a `cnf` claim. -/
inductive Confirmation where
  | key (key : Cose.Key)
  /-- A key encrypted with the key that the server shares with the issuer. -/
  | encryptedKey (envelope : Cose.Encrypt0)
  /-- A reference to a key that is known already. -/
  | kid (kid : Bytes)
  | oscore (material : Oscore.Material)

namespace Confirmation

/-- The methods of confirmation. -/
inductive Method where
  | coseKey
  | encryptedCoseKey
  | kid
  | oscoreInputMaterial
  deriving DecidableEq, Repr

namespace Method

/-- Every method, in the order of their labels. -/
def all : List Method := [coseKey, encryptedCoseKey, kid, oscoreInputMaterial]

/-- The label of a method. -/
def label : Method → UInt64
  | coseKey => 1
  | encryptedCoseKey => 2
  | kid => 3
  | oscoreInputMaterial => 4

/-- The method with a label. -/
def ofLabel? (n : UInt64) : Option Method := all.find? fun m => m.label = n

end Method

/-- What is inside the tag of a COSE_Encrypt0 object, or the value itself without one. -/
def untagEncrypt0 : Value → Value
  | .tag 16 content => content
  | v => v

/-- The result of a reader, whose failure is a malformed claim. -/
def orMalformed {α : Type} : Option α → Except Rejection α
  | some a => .ok a
  | none => .error .malformedCnf

/-- The confirmation that a value gives by some method. -/
def ofMethod (method : Method) (v : Value) : Except Rejection Confirmation :=
  match method with
  | .coseKey => orMalformed ((Cose.Key.ofValue? v).map .key)
  | .encryptedCoseKey => orMalformed ((Cose.Encrypt0.ofValue? (untagEncrypt0 v)).map .encryptedKey)
  | .kid =>
    match v with
    | .bytes bs => .ok (.kid bs)
    | _ => .error .invalidKid
  | .oscoreInputMaterial => orMalformed ((Oscore.Material.ofValue? v).map .oscore)

/-- The confirmation that a map with a single entry is. -/
def ofValue : Value → Except Rejection Confirmation
  | .map [(k, v)] => do ofMethod (← orMalformed (k.toUInt64?.bind Method.ofLabel?)) v
  | _ => .error .malformedCnf

/-- The method of a confirmation. -/
def method : Confirmation → Method
  | .key _ => .coseKey
  | .encryptedKey _ => .encryptedCoseKey
  | .kid _ => .kid
  | .oscore _ => .oscoreInputMaterial

/-- What a confirmation holds, as a value. -/
def content : Confirmation → Except Cose.EncodeError Value
  | .key k => k.toValue
  | .encryptedKey e => .ok e.toValue
  | .kid bs => .ok (.bytes bs)
  | .oscore m => .ok m.toValue

/-- A confirmation as a map with a single entry. -/
def toValue (c : Confirmation) : Except Cose.EncodeError Value := do
  .ok (.map [(.uint c.method.label, ← c.content)])

/-- Whether two confirmations are equal, values inside them compared as numbers. -/
def eq : Confirmation → Confirmation → Bool
  | .key a, .key b => a.eq b
  | .encryptedKey a, .encryptedKey b => a.eq b
  | .kid a, .kid b => a == b
  | .oscore a, .oscore b => a == b
  | _, _ => false

end Confirmation

end TokenGate
