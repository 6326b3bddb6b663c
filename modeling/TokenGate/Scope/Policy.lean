import Std.Data.ExtTreeMap
import TokenGate.Scope.Basic
import TokenGate.Scope.Method

/-!
# Policies

What a scope is worth is up to the application: it says which method on which resource a permission
name or a role in a group allows, and whether a scope grants anything. `ScopePolicy` is the usual
way to say it, a table of grants and a description of the groups that this server manages.
-/

namespace TokenGate

/-- The decisions of an application about scopes. -/
structure Validator where
  /-- Whether a permission name allows a method on a resource. -/
  permits : Audience → String → String → Method → Bool
  /-- Whether the roles in a group allow a method on a resource. -/
  permitsGroup : Audience → String → Roles → String → Method → Bool
  /-- Whether a scope grants anything at all. -/
  isMeaningful : Audience → Scope → Bool := fun _ _ => true

/-- The groups that a server manages. -/
structure GroupPolicy where
  /-- The path under which group-membership resources live. -/
  root : String := "ace-group"
  /-- The audiences that mean a group manager; any audience if there are none. -/
  managers : Std.ExtTreeSet String := ∅
  /-- The groups that have a group-membership resource. -/
  groups : Std.ExtTreeSet String := ∅
  /-- The methods that a role allows on group-membership resources. -/
  roleMethods : Std.ExtTreeMap Role Methods :=
    Std.ExtTreeMap.ofList (Role.all.map fun r => (r, Std.ExtTreeSet.ofList [Method.post]))

namespace GroupPolicy

/-- The group-membership resource of a group. -/
def membershipResource (policy : GroupPolicy) (group : String) : String :=
  policy.root ++ "/" ++ group

/-- Whether a group has a group-membership resource. -/
def hasMembershipResource (policy : GroupPolicy) (group : String) : Bool :=
  policy.groups.contains group

/-- The group whose membership resource a resource is. -/
def groupOf? (policy : GroupPolicy) (resource : String) : Option String :=
  match List.isPrefixOf? (policy.root.toList ++ ['/']) resource.toList with
  | some rest =>
    if policy.groups.contains (String.ofList rest) then some (String.ofList rest) else none
  | none => none

/-- Whether a token for an audience is for a group manager. -/
def isManager (policy : GroupPolicy) (audience : Audience) : Bool :=
  policy.managers.isEmpty || audience.names.any policy.managers.contains

/-- Whether a role allows a method on group-membership resources. -/
def allows (policy : GroupPolicy) (role : Role) (method : Method) : Bool :=
  (policy.roleMethods[role]?).any (·.contains method)

end GroupPolicy

/-- What a permission name allows on a resource. -/
structure Grant where
  name : String
  resource : String
  methods : List Method
  deriving DecidableEq, Repr

/-- A policy by tables. -/
structure ScopePolicy where
  /-- The audiences whose permission names count; any audience if there are none. -/
  audiences : List String := []
  grants : List Grant := []
  groups : Option GroupPolicy := none

namespace ScopePolicy

/-- Whether permission names in a token for an audience count. -/
def appliesTo (policy : ScopePolicy) (audience : Audience) : Bool :=
  policy.audiences.isEmpty || audience.names.any policy.audiences.contains

/-- Whether a permission name allows a method on a resource. -/
def permits (policy : ScopePolicy) (audience : Audience) (name resource : String)
    (method : Method) : Bool :=
  policy.appliesTo audience
    && policy.grants.any fun g => g.name == name && g.resource == resource
      && g.methods.contains method

/-- Whether the roles in a group allow a method on a resource. -/
def permitsGroup (policy : ScopePolicy) (audience : Audience) (group : String) (roles : Roles)
    (resource : String) (method : Method) : Bool :=
  policy.groups.any fun groups =>
    groups.isManager audience && groups.groupOf? resource == some group
      && roles.toList.any fun role => groups.allows role method

/-- Whether a scope grants anything: one of its names has an entry in the table, or all of its groups
have a group-membership resource. -/
def isMeaningful (policy : ScopePolicy) (audience : Audience) : Scope → Bool
  | .names names =>
    policy.appliesTo audience && names.any fun name => policy.grants.any fun g => g.name == name
  | .groups entries =>
    policy.groups.any fun groups =>
      groups.isManager audience && entries.all fun e => groups.hasMembershipResource e.group

/-- The decisions of a policy. -/
def validator (policy : ScopePolicy) : Validator where
  permits := policy.permits
  permitsGroup := policy.permitsGroup
  isMeaningful := policy.isMeaningful

end ScopePolicy

end TokenGate
