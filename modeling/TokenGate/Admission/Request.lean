import TokenGate.Cbor.Decoding
import TokenGate.Cbor.Encoding
import TokenGate.Rejection

/-!
# Posted requests

A client posts a token either alone or in a map of parameters. A token that is neither a byte string
nor text is its own encoding, and so is the whole payload.
-/

namespace TokenGate

open Cbor

/-- The labels of the parameters in requests and replies. -/
inductive Parameter where
  | accessToken
  | cti
  | error
  | errorDescription
  | nonce1
  | nonce2
  | clientRecipientId
  | serverRecipientId
  | signInfo
  | kdcChallenge
  deriving DecidableEq, Repr

namespace Parameter

/-- The registered number of a label. -/
def label : Parameter → UInt64
  | accessToken => 1
  | cti => 7
  | error => 30
  | errorDescription => 31
  | nonce1 => 40
  | nonce2 => 42
  | clientRecipientId => 43
  | serverRecipientId => 44
  | signInfo => 45
  | kdcChallenge => 46

end Parameter

/-- The parameters of a reply, by their labels. -/
abbrev Parameters := List (UInt64 × Value)

/-- Parameters as a map. -/
def Parameters.encode (parameters : Parameters) : Bytes :=
  (Value.map (parameters.map fun (label, v) => (.uint label, v))).encode

/-- A posted request. -/
structure Request where
  token : Option Value
  /-- The parameters other than the token, in order. -/
  params : Parameters
  /-- Whether the payload is a map, and not just a token. -/
  isMap : Bool

namespace Request

/-- The label of a parameter and its value. -/
def param? : Value × Value → Except Rejection (UInt64 × Value)
  | (.uint label, v) => .ok (label, v)
  | _ => .error .invalidPayload

/-- The request that is a map of parameters; of several tokens in it the last one counts. -/
def ofEntries (entries : List (Value × Value)) : Except Rejection Request := do
  let params ← entries.mapM param?
  let isToken (param : UInt64 × Value) : Bool := param.1 == Parameter.accessToken.label
  .ok { token := (params.filter isToken).getLast?.map (·.2)
        params := params.filter fun param => !isToken param
        isMap := true }

/-- The request that consists of a token. -/
def ofToken (token : Value) : Request := { token := some token, params := [], isMap := false }

/-- The request that a payload is. -/
def decode (payload : Bytes) (requiresMap : Bool) : Except Rejection Request :=
  match decode? payload with
  | none => .error .invalidPayload
  | some (.map entries) => ofEntries entries
  | some v =>
    if requiresMap then .error .payloadNotMap
    else
      match v with
      | .bytes _ | .text _ => .ok (ofToken v)
      | _ => .ok (ofToken (.bytes payload))

/-- The first value of a parameter. -/
def find? (request : Request) (parameter : Parameter) : Option Value :=
  request.params.lookup parameter.label

end Request

end TokenGate
