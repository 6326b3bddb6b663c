import TokenGate.Admission.Request
import TokenGate.Admission.Server

/-!
# Profiles

What the communication security between client and server adds to the admission of tokens. Before a
token is committed, a profile checks its own parameters of the request, and whether the token fits;
from that comes what it does once the token is committed.
-/

namespace TokenGate

/-- A token that has just been committed. -/
structure CommittedToken where
  id : TokenId
  key : KeyName
  /-- The claims as they were resolved. -/
  claims : Claims
  request : Request
  /-- Whether the token updated the rights of a client that is authenticated already. -/
  isUpdate : Bool

/-- What a profile does for a committed token. It gives the parameters of the reply that follow the
identifier of the token. -/
abbrev Setup := CommittedToken → Action Failure Parameters

/-- A communication security profile. -/
structure Profile where
  /-- Whether a request has to be a map. -/
  requiresMap : Bool := false
  /-- Checks a request with a token that has these claims, knowing whether it is an update. Nothing
  is committed yet. -/
  check : Request → Claims → (isUpdate : Bool) → Action Failure Setup

namespace Profile

/-- The setup that has nothing to do. -/
def noSetup : Setup := fun _ => pure []

/-- The profile for clients that use DTLS (RFC 9202): the token is all there is to a request. -/
def dtls : Profile where
  check _ _ _ := pure noSetup

end Profile

end TokenGate
