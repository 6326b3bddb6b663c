import TokenGate.Profile.Basic

/-!
# The OSCORE profile

A first request (RFC 9203) carries a nonce of the client and the identifier under which the client
receives. The reply has a nonce of the server and the server's identifier, and both sides derive a
security context. From then on the server's identifier is what authenticates the client's requests.
A token that updates the rights of such a client needs no new context.
-/

namespace TokenGate.Profile

open Cbor

/-- What a first request asks for. -/
structure OscoreExchange where
  nonce1 : Bytes
  id1 : Bytes
  material : Oscore.Material
  deriving DecidableEq

namespace OscoreExchange

/-- A byte string in a request that is not too long. -/
def bytesParam (request : Request) (parameter : Parameter) (name : String) (maxLength : Nat) :
    Except Rejection Bytes :=
  match request.find? parameter with
  | some (.bytes bs) => if bs.length ≤ maxLength then .ok bs else .error (.missingParameter name)
  | _ => .error (.missingParameter name)

/-- What a request with a token of some claims asks for. -/
def ofRequest (request : Request) (claims : Claims) : Except Rejection OscoreExchange := do
  let nonce1 ← bytesParam request .nonce1 "nonce1" Oscore.maxNonceLength
  let id1 ← bytesParam request .clientRecipientId "ace_client_recipientid" Oscore.maxIdLength
  match claims.cnf with
  | some (.oscore material) => .ok { nonce1, id1, material }
  | _ => .error .noOscoreMaterial

/-- The sender that a context authenticates: its identifier on this side, as text. -/
def senderOf (recipientId : Bytes) : String := (KeyName.ofKid recipientId).text

/-- Derives a context for a committed token and binds its sender to the token's key. Whoever had the
place of the new context is no longer bound. -/
def establish (exchange : OscoreExchange) : Setup := fun token => do
  let nonce2 ← Action.freshNonce
  let id2 ← Action.onContexts fun contexts => contexts.takeId exchange.id1
  let context ← Action.ofExcept
    ((Oscore.derive exchange.material exchange.nonce1 nonce2 exchange.id1 id2).mapError fun _ =>
      .rejected .malformedCnf)
  Action.committing fun r host => r.bindSender host (senderOf id2) token.key
  let evicted ← Action.onContexts fun contexts => contexts.insert ⟨context, token.key⟩
  match evicted with
  | none => pure ()
  | some old => try
      Action.committing fun r host => r.unbindSender host (senderOf old.context.recipientId)
    catch _ => pure ()
  pure [(Parameter.nonce2.label, .bytes nonce2), (Parameter.serverRecipientId.label, .bytes id2)]

end OscoreExchange

/-- The profile for clients that use OSCORE. -/
def oscore : Profile where
  requiresMap := true
  check request claims isUpdate := do
    if isUpdate then pure noSetup
    else
      let exchange ← Action.ofExcept ((OscoreExchange.ofRequest request claims).mapError .rejected)
      pure exchange.establish

end TokenGate.Profile
