import TokenGate.Profile.Basic

/-!
# Joining groups

What a manager of OSCORE groups adds to a profile. A token with a group scope has to be for this
manager and may only name groups that it has group-membership resources for. Its holder gets a
challenge, and on request information on how members of the groups sign.
-/

namespace TokenGate.Profile

open Cbor

/-- How the members of a group sign. -/
structure GroupInfo where
  signAlg : Int64
  signParameters : Option Value := none
  signKeyParameters : Option Value := none
  credFmt : Option Int64 := none
  deriving DecidableEq

/-- The groups a token is for, and whether their information was asked for. -/
structure JoinRequest where
  groups : List String
  signInfo : Bool
  deriving DecidableEq, Repr

/-- What is told about a group; only its name, if nothing is known. -/
def signInfoEntry (known : Std.ExtTreeMap String GroupInfo) (group : String) : Value :=
  match known[group]? with
  | some info =>
    .array [.text group, .ofInt64 info.signAlg, info.signParameters.getD .null,
      info.signKeyParameters.getD .null, (info.credFmt.map Value.ofInt64).getD .null]
  | none => .array [.text group, .null, .null, .null, .null]

namespace JoinRequest

/-- Whether the information was asked for, which is done by a null. -/
def asksForSignInfo (request : Request) : Except Rejection Bool :=
  match request.find? .signInfo with
  | none => .ok false
  | some .null => .ok true
  | some _ => .error .invalidSignInfo

/-- What a request with a token of some claims asks for; nothing unless the token has a group
scope. -/
def ofRequest (policy : GroupPolicy) (request : Request) (claims : Claims) :
    Except Rejection (Option JoinRequest) :=
  match claims.scope with
  | some (.binary bs) => do
    let entries ← GroupEntry.decode bs
    let groups := entries.map (·.group)
    if claims.audience.any policy.isManager && groups.all policy.hasMembershipResource then
      .ok (some { groups, signInfo := ← asksForSignInfo request })
    else .error .notGroupMembershipScope
  | _ => .ok none

/-- Gives a challenge for the key of a committed token, and the information that was asked for. -/
def welcome (join : JoinRequest) (known : Std.ExtTreeMap String GroupInfo) : Setup := fun token => do
  let challenge ← Action.freshChallenge
  Action.committing fun r host => r.setChallenge host token.key challenge
  let signInfo :=
    if join.signInfo then
      [(Parameter.signInfo.label, Value.array (join.groups.map (signInfoEntry known)))]
    else []
  pure ((Parameter.kdcChallenge.label, .bytes challenge) :: signInfo)

end JoinRequest

/-- A profile with the joining of groups added to it. -/
def groupJoin (inner : Profile) (policy : GroupPolicy) (known : Std.ExtTreeMap String GroupInfo) :
    Profile where
  requiresMap := inner.requiresMap
  check request claims isUpdate := do
    let setup ← inner.check request claims isUpdate
    match ← Action.ofExcept ((JoinRequest.ofRequest policy request claims).mapError .rejected) with
    | none => pure setup
    | some join =>
      pure fun token => do
        let parameters ← setup token
        let more ← join.welcome known token
        pure (parameters ++ more)

end TokenGate.Profile
