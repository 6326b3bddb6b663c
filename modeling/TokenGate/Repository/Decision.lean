import TokenGate.Introspection
import TokenGate.Repository.State
import TokenGate.Scope.Policy

/-!
# Access decisions

What the holder of a key may do follows from all of the key's tokens that are valid at the time.
Permission names count one by one; roles in a group are put together over all tokens, and so are the
audiences of the tokens that name the group.
-/

namespace TokenGate

/-- The answer to a request for access, from the least to the most access. -/
inductive AccessDecision where
  /-- The key has no valid token. -/
  | unauthorized
  /-- No token of the key allows any method on the resource. -/
  | forbidden
  /-- The tokens of the key allow other methods on the resource. -/
  | methodNotAllowed
  | allowed
  deriving DecidableEq, Repr

/-- What a token contributes to a decision. -/
structure Entitlement where
  audience : Audience
  scope : Scope
  origin : TokenOrigin
  deriving DecidableEq, Repr

namespace Entitlement

/-- What a token in the repository contributes. -/
def ofRecord (record : TokenRecord) : Entitlement where
  audience := record.claims.audience.getD (.multiple [])
  scope := record.scope
  origin := record.origin

/-- Whether a permission name of a token allows a method on a resource. -/
def allowsByName (validator : Validator) (resource : String) (method : Method)
    (e : Entitlement) : Bool :=
  match e.scope with
  | .names names => names.any fun name => validator.permits e.audience name resource method
  | .groups _ => false

/-- The group entries of a token, each with the names in the token's audience. -/
def groupEntries (e : Entitlement) : List (GroupEntry × List String) :=
  match e.scope with
  | .names _ => []
  | .groups entries => entries.map (·, e.audience.names)

/-- Whether the roles in a group allow a method on a resource, all entries for the group put
together. -/
def allowsInGroup (validator : Validator) (resource : String) (method : Method)
    (entries : List (GroupEntry × List String)) (group : String) : Bool :=
  let own := entries.filter fun (entry, _) => entry.group == group
  let roles := own.foldl (fun roles (entry, _) => roles ∪ entry.roles) Roles.none
  validator.permitsGroup (.multiple (own.flatMap (·.2))) group roles resource method

/-- Whether some tokens together allow a method on a resource. -/
def allow (validator : Validator) (tokens : List Entitlement) (resource : String)
    (method : Method) : Bool :=
  let entries := tokens.flatMap groupEntries
  tokens.any (allowsByName validator resource method)
    || entries.any fun (entry, _) => allowsInGroup validator resource method entries entry.group

/-- The decision that follows from the valid tokens of a key. -/
def decide (validator : Validator) (tokens : List Entitlement) (resource : String)
    (method : Method) : AccessDecision :=
  if tokens.isEmpty then .unauthorized
  else if allow validator tokens resource method then .allowed
  else if Method.all.any (allow validator tokens resource) then .methodNotAllowed
  else .forbidden

/-- Whether a token still counts. One that was posted by reference only does while the issuer
considers it active, and the claims that the issuer gives are valid. -/
def isConfirmed (introspection : Introspection) (now : UInt64) (e : Entitlement) : Bool :=
  match e.origin with
  | .selfContained => true
  | .reference text =>
    match introspection text with
    | .active claims => claims.isValidAt now
    | _ => false

end Entitlement

namespace RepositoryState

/-- What the tokens of a key that are valid at a time contribute. -/
def entitlements (s : RepositoryState) (key : KeyName) (now : UInt64) : List Entitlement :=
  ((s.idsOf key).toList.filterMap fun id => s.tokens[id]?).filterMap fun record =>
    if record.claims.isValidAt now then some (.ofRecord record) else none

/-- What the holder of a key may do. With an `introspection`, tokens that were posted by reference
are asked about again. -/
def access (s : RepositoryState) (validator : Validator) (introspection : Option Introspection)
    (key : KeyName) (resource : String) (method : Method) (now : UInt64) : AccessDecision :=
  let tokens := s.entitlements key now
  let tokens :=
    match introspection with
    | some handler => tokens.filter (Entitlement.isConfirmed handler now)
    | none => tokens
  Entitlement.decide validator tokens resource method

end RepositoryState

end TokenGate
