import TokenGate.AccessToken
import TokenGate.Profile.Basic

/-!
# Admission

A posted token goes through stages: the payload is decoded, the token extracted, its claims resolved
and validated, and at last the token is committed, or else rejected for one reason. What depends on
the way in which clients communicate is up to a profile. If the profile fails after the commit, the
token is taken back.
-/

namespace TokenGate

open Cbor

/-- A posted message. -/
structure Message where
  payload : Bytes
  /-- What authenticated the channel on which the message came. -/
  sender : Option String := none
  deriving DecidableEq, Repr

/-- The stages of an admission. -/
inductive Stage where
  | awaitingPayload
  | payloadDecoded
  | tokenExtracted
  | claimsResolved
  | validated
  | committed
  | rejected
  deriving DecidableEq, Repr

/-- The stages from the first one up to a given one. -/
def Stage.upTo (stage : Stage) : List Stage :=
  [awaitingPayload, payloadDecoded, tokenExtracted, claimsResolved, validated].takeWhile (· ≠ stage)
    ++ [stage]

/-- An admitted token, and what the reply has next to its identifier. -/
structure AdmittedToken where
  id : TokenId
  key : KeyName
  extras : Parameters

/-- The outcome of an admission, and the stages it went through. -/
structure Admission where
  trace : List Stage
  result : Except Failure AdmittedToken

/-- The place where tokens are posted to. -/
structure Endpoint where
  profile : Profile
  shared : SharedKey
  validator : Validator
  introspection : Option Introspection := none
  issuers : List String := []
  /-- The names of this server. -/
  audiences : List String := []
  /-- Where clients get tokens. -/
  asUri : String := ""

namespace Endpoint

/-- Asks the issuer about a token. -/
def introspect (handler : Introspection) (text : String) : Except Failure (Option Claims) :=
  match handler text with
  | .active claims => .ok (some claims)
  | .inactive => .ok none
  | .failed => .error .introspectionFailed

/-- The claims of a self-contained token. If the issuer can be asked about it, it has to be active,
and what the issuer says takes precedence. -/
def resolveSealed (e : Endpoint) (envelope : Cose.Encrypt0) : Except Failure Claims :=
  match AccessToken.openClaims envelope e.shared with
  | .error .detached => .error .detached
  | .error (.rejected rejection) => .error (.rejected rejection)
  | .ok claims =>
    match e.introspection, claims.cti with
    | some handler, some cti => do
      match ← introspect handler (TokenId.mk cti).toText with
      | some fresh => .ok (claims.overlay fresh)
      | none => .error (.rejected .tokenNotActive)
    | _, _ => .ok claims

/-- The claims of a token that only the issuer knows; the reference is its identifier, unless the
issuer says otherwise. -/
def resolveReference (e : Endpoint) (text : String) : Except Failure Claims :=
  match e.introspection with
  | none => .error (.rejected .unknownTokenFormat)
  | some handler => do
    match ← introspect handler text with
    | some claims =>
      .ok (if claims.contains .cti then claims else claims.set .cti (Text.utf8 text))
    | none => .error (.rejected .tokenNotActive)

/-- The claims of a token, and how it was presented. -/
def resolve (e : Endpoint) : AccessToken → Except Failure (Claims × TokenOrigin)
  | .sealed envelope => (e.resolveSealed envelope).map (·, .selfContained)
  | .reference text => (e.resolveReference text).map (·, .reference text)

/-- Checks of the claims that depend neither on the profile nor on the repository. -/
def validate (e : Endpoint) (claims : Claims) (now : UInt64) : Except Rejection Unit :=
  if !claims.issuer.any e.issuers.contains then .error .issuerUnknown
  else if claims.isExpiredAt now then .error .tokenExpired
  else if claims.notBefore.any (now < ·) then .error .tokenNotYetValid
  else
    match claims.audience with
    | none => .error .noAudience
    | some audience =>
      if !e.audiences.any audience.contains then .error .audienceMismatch
      else
        match claims.scope with
        | none => .error .noScope
        | some claim => do
          let scope ← Scope.ofClaim claim
          if e.validator.isMeaningful audience scope then .ok () else .error .scopeNotMeaningful

/-- The key that authenticates a sender: the one that the repository has for it, or else the one that
has the sender's name. -/
def resolveSender (r : Repository) (sender : String) : KeyName :=
  (r.keyOfSender? sender).getD ⟨sender⟩

/-- The token in a request. -/
def extract (request : Request) : Except Rejection AccessToken :=
  match request.token with
  | none => .error .missingAccessToken
  | some v => AccessToken.ofValue v

/-- An accepted token before it is committed. -/
structure Accepted where
  senderKey : Option KeyName
  isUpdate : Bool
  setup : Setup

/-- Validates the claims of a token, then has the profile check it. -/
def accept (e : Endpoint) (request : Request) (claims : Claims) (sender : Option String) :
    Action Failure Accepted := do
  let server ← get
  Action.ofExcept ((e.validate claims server.host.clock).mapError .rejected)
  let senderKey := sender.map (resolveSender server.repository)
  let isUpdate := server.repository.updateApplies server.host claims senderKey
  let setup ← e.profile.check request claims isUpdate
  pure { senderKey, isUpdate, setup }

/-- Takes a committed token back before failing. That this may not succeed either makes no
difference to the client. -/
def failAfter {α : Type} (added : AddedToken) (failure : Failure) : Action Failure α := do
  try
    Action.committing fun r host => r.withdraw host added
  catch _ => pure ()
  throw failure

/-- Commits an accepted token, and lets the profile set up what it needs for it. -/
def commit (e : Endpoint) (request : Request) (claims : Claims) (origin : TokenOrigin)
    (accepted : Accepted) : Action Failure AdmittedToken := do
  let added ← Action.committing fun r host =>
    r.addToken host claims e.shared accepted.senderKey origin
  if added.isUpdate ≠ accepted.isUpdate then failAfter added .internalError
  else
    let token : CommittedToken :=
      { id := added.id, key := added.key, claims, request, isUpdate := accepted.isUpdate }
    let extras ←
      try accepted.setup token
      catch failure => failAfter added failure
    pure { id := added.id, key := added.key, extras }

/-- What is done once a stage is reached, failing at that stage if it fails. -/
def after {α : Type} (stage : Stage) (action : Action Failure α) : Action (Stage × Failure) α :=
  ExceptT.adapt (stage, ·) action

/-- Takes a message through the stages. -/
def run (e : Endpoint) (message : Message) : Action (Stage × Failure) AdmittedToken := do
  let request ← after .awaitingPayload (Action.ofExcept
    ((Request.decode message.payload e.profile.requiresMap).mapError .rejected))
  let token ← after .payloadDecoded (Action.ofExcept ((extract request).mapError .rejected))
  let (claims, origin) ← after .tokenExtracted (Action.ofExcept (e.resolve token))
  let accepted ← after .claimsResolved (e.accept request claims message.sender)
  after .validated (e.commit request claims origin accepted)

/-- Admits the token in a message, or rejects it. Nothing has happened if a ciphertext is missing. -/
def receive (e : Endpoint) (message : Message) (server : Server) : Admission × Server :=
  match (e.run message).run server with
  | (.ok admitted, after) => (⟨Stage.committed.upTo, .ok admitted⟩, after)
  | (.error (stage, .detached), _) => (⟨stage.upTo ++ [.rejected], .error .detached⟩, server)
  | (.error (stage, failure), after) => (⟨stage.upTo ++ [.rejected], .error failure⟩, after)

/-- A reply to a posted message. -/
structure Reply where
  code : ResponseCode
  payload : Bytes
  deriving DecidableEq, Repr

/-- The reply to a rejected token. -/
def rejectionReply (rejection : Rejection) : Reply where
  code := rejection.response
  payload := Parameters.encode
    [(Parameter.error.label, .uint rejection.errorCode.number.toUInt64),
      (Parameter.errorDescription.label, .text rejection.message)]

/-- The reply to the outcome of an admission, if there is one. -/
def reply? : Except Failure AdmittedToken → Option Reply
  | .ok admitted => some
    { code := .created
      payload := Parameters.encode
        ((Parameter.cti.label, .bytes admitted.id.bytes) :: admitted.extras) }
  | .error (.rejected rejection) => some (rejectionReply rejection)
  | .error (.internal text) => some
    { code := .internalServerError
      payload := Parameters.encode [(Parameter.errorDescription.label, .text text)] }
  | .error .detached => none

/-- Admits the token in a message, or rejects it, and makes the reply. -/
def process (e : Endpoint) (message : Message) (server : Server) : Option Reply × Server :=
  let (admission, server) := e.receive message server
  (reply? admission.result, server)

end Endpoint

end TokenGate
