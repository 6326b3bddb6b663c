import TokenGate.Claims.Basic
import TokenGate.SharedKey

/-!
# Access tokens

A client presents either a self-contained token, a claims set encrypted for this server, or a
reference that only the issuer can resolve.
-/

namespace TokenGate

open Cbor

/-- A token in the form in which a client presents it. -/
inductive AccessToken where
  /-- A claims set in a COSE_Encrypt0 object. -/
  | sealed (envelope : Cose.Encrypt0)
  | reference (text : String)

/-- Why no token could be made. -/
inductive CodecError where
  | encode (error : Cose.EncodeError)
  | crypto (error : CryptoError)
  deriving DecidableEq, Repr

/-- The wording of an error. -/
def CodecError.message : CodecError → String
  | encode .duplicateLabel => "COSE: duplicate map key"
  | crypto error => "COSE: " ++ error.message

namespace AccessToken

/-- What is inside a tag with a number, or the value itself without it. -/
def untag (number : UInt64) : Value → Value
  | .tag n content => if n = number then content else .tag n content
  | v => v

/-- The envelope that some bytes begin with, possibly tagged as an encrypted message and that again
as a claims set. -/
def parseEnvelope (bs : Bytes) : Except Rejection Cose.Encrypt0 :=
  match (decode? bs).bind fun v => Cose.Encrypt0.ofValue? (untag 16 (untag 61 v)) with
  | some envelope => .ok envelope
  | none => .error .tokenInvalid

/-- The token that a request parameter is. -/
def ofValue : Value → Except Rejection AccessToken
  | .bytes bs => (parseEnvelope bs).map .sealed
  | .text s => .ok (.reference s)
  | _ => .error .unknownTokenFormat

/-- Why an envelope holds no claims. -/
inductive ClaimsError where
  | rejected (rejection : Rejection)
  /-- The ciphertext is not in the envelope. -/
  | detached
  deriving DecidableEq, Repr

/-- The claims in an envelope. -/
def openClaims (envelope : Cose.Encrypt0) (key : SharedKey) : Except ClaimsError Claims :=
  match key.openEnvelope envelope [] with
  | .ok plaintext => (Claims.decode plaintext).mapError .rejected
  | .error .detached => .error .detached
  | .error (.crypto _) => .error (.rejected .tokenInvalid)

/-- The bytes of a self-contained token, as an issuer makes it. -/
def sealClaims (claims : Claims) (key : SharedKey) (iv : Bytes) : Except CodecError Bytes := do
  let plaintext ← claims.encode.mapError .encode
  let envelope ← (key.sealEnvelope plaintext [] iv).mapError .crypto
  .ok envelope.encode

end AccessToken

end TokenGate
