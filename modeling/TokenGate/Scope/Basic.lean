import TokenGate.Cbor.Decoding
import TokenGate.Cbor.Encoding
import TokenGate.Claims.Content
import TokenGate.Scope.Roles
import TokenGate.Text.Blank

/-!
# Scopes

The scope of a token is either a list of permission names, or a list of groups with the roles that
its holder may have in each. The first travels as text with white space between the names, the second
as bytes that are an array of pairs.
-/

namespace TokenGate

open Cbor

/-- The roles that a scope gives in a group. -/
structure GroupEntry where
  group : String
  roles : Roles
  deriving DecidableEq, Repr

/-- The meaning of a scope claim. -/
inductive Scope where
  /-- Permission names. -/
  | names (names : List String)
  | groups (entries : List GroupEntry)
  deriving DecidableEq, Repr

namespace GroupEntry

/-- The entry that a pair of a name and a mask is. A mask that is no set of roles is an error of its
own. -/
def ofValue : Value → Except Rejection GroupEntry
  | .array [.text group, .uint mask] =>
    match Roles.ofMask? mask with
    | some roles => .ok ⟨group, roles⟩
    | none => .error .invalidRoles
  | .array [.text _, .nint _] => .error .invalidRoles
  | _ => .error .invalidScopeFormat

/-- An entry as a pair. -/
def toValue (entry : GroupEntry) : Value :=
  .array [.text entry.group, .uint entry.roles.toMask]

/-- The entries of a group scope: at least one. -/
def decode (bs : Bytes) : Except Rejection (List GroupEntry) :=
  match decode? bs with
  | some (.array (v :: vs)) => (v :: vs).mapM ofValue
  | _ => .error .invalidScopeFormat

/-- The bytes of a group scope. -/
def encode (entries : List GroupEntry) : Bytes :=
  (Value.array (entries.map toValue)).encode

end GroupEntry

namespace Scope

/-- The meaning of a scope claim; there is none without names. -/
def ofClaim : ScopeClaim → Except Rejection Scope
  | .text s =>
    match Text.words s with
    | [] => .error .invalidScopeFormat
    | word :: more => .ok (.names (word :: more))
  | .binary bs => (GroupEntry.decode bs).map .groups

end Scope

end TokenGate
