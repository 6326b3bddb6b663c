/-!
# Rejections

The reasons for which a posted token is refused, each with the description, the response class and
the error code that the client gets to see.
-/

namespace TokenGate

/-- The class of a response. -/
inductive ResponseCode where
  | created
  | badRequest
  | unauthorized
  | forbidden
  | methodNotAllowed
  | internalServerError
  deriving DecidableEq, Repr

namespace ResponseCode

/-- Every class of response. -/
def all : List ResponseCode :=
  [created, badRequest, unauthorized, forbidden, methodNotAllowed, internalServerError]

/-- The CoAP code of a response class, three bits of class and five of detail. -/
def coap : ResponseCode → UInt8
  | created => 2 * 32 + 1
  | badRequest => 4 * 32
  | unauthorized => 4 * 32 + 1
  | forbidden => 4 * 32 + 3
  | methodNotAllowed => 4 * 32 + 5
  | internalServerError => 5 * 32

end ResponseCode

/-- The error codes sent next to a description. -/
inductive ErrorCode where
  | invalidRequest
  | unauthorizedClient
  | invalidScope
  deriving DecidableEq, Repr

/-- The registered number of an error code. -/
def ErrorCode.number : ErrorCode → UInt8
  | invalidRequest => 1
  | unauthorizedClient => 4
  | invalidScope => 6

/-- Why a token was refused. -/
inductive Rejection where
  | invalidPayload
  | payloadNotMap
  | missingAccessToken
  | unknownTokenFormat
  | tokenInvalid
  | tokenNotActive
  | issuerUnknown
  | tokenExpired
  | tokenNotYetValid
  | noAudience
  | audienceMismatch
  | noScope
  | invalidScopeFormat
  | invalidRoles
  | scopeNotMeaningful
  | malformedClaim (claim : String)
  | noCnf
  | unknownKid
  | invalidKid
  | cnfDecryptionFailed
  | invalidCti
  | duplicateCti
  | missingParameter (parameter : String)
  | noOscoreMaterial
  | invalidSignInfo
  | notGroupMembershipScope
  deriving DecidableEq, Repr

namespace Rejection

/-- The description sent to the client. -/
def message : Rejection → String
  | invalidPayload => "Invalid payload"
  | payloadNotMap => "Payload to authz-info must be a CBOR map"
  | missingAccessToken => "Missing mandatory parameter 'access_token'"
  | unknownTokenFormat => "Unknown token format"
  | tokenInvalid => "Token is invalid"
  | tokenNotActive => "Token is not active"
  | issuerUnknown => "Token issuer unknown"
  | tokenExpired => "Token is expired"
  | tokenNotYetValid => "Token is not yet valid"
  | noAudience => "Token has no audience"
  | audienceMismatch => "Audience does not apply"
  | noScope => "Token has no scope"
  | invalidScopeFormat => "Invalid scope format"
  | invalidRoles => "Scope contains invalid roles"
  | scopeNotMeaningful => "Scope does not apply"
  | malformedClaim claim => "Malformed " ++ claim ++ " claim in token"
  | noCnf => "Token has no cnf"
  | unknownKid => "Token refers to unknown kid"
  | invalidKid => "cnf contains invalid kid"
  | cnfDecryptionFailed => "Error while decrypting a cnf claim"
  | invalidCti => "Cti has invalid format"
  | duplicateCti => "Duplicate cti"
  | missingParameter parameter => "Malformed or missing parameter '" ++ parameter ++ "'"
  | noOscoreMaterial => "Token must carry OSCORE input material"
  | invalidSignInfo => "Invalid format for 'sign_info'"
  | notGroupMembershipScope => "Scope does not refer to group-membership resources"

/-- The class of the response to a refused token. -/
def response : Rejection → ResponseCode
  | tokenNotActive | issuerUnknown | tokenExpired | tokenNotYetValid => .unauthorized
  | audienceMismatch => .forbidden
  | _ => .badRequest

/-- The error code placed next to the description. -/
def errorCode : Rejection → ErrorCode
  | tokenInvalid | tokenNotActive | tokenExpired | tokenNotYetValid | audienceMismatch =>
    .unauthorizedClient
  | noScope | invalidScopeFormat | invalidRoles | scopeNotMeaningful => .invalidScope
  | _ => .invalidRequest

/-- A `cnf` claim that cannot be used. -/
def malformedCnf : Rejection := malformedClaim "cnf"

end Rejection

end TokenGate
