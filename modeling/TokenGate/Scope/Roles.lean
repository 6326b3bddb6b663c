import Std.Data.ExtTreeSet

/-!
# Roles in groups

The roles that a member of an OSCORE group can have. A set of roles travels as a bit mask, in which
the bit of a role is the one with its number. A mask is read strictly: none of its bits may be
without a role, and one of them has to be set.
-/

namespace TokenGate

/-- A role in an OSCORE group. -/
inductive Role where
  | requester
  | responder
  | monitor
  | verifier
  deriving DecidableEq, Repr

namespace Role

/-- Every role, in the order of their numbers. -/
def all : List Role := [requester, responder, monitor, verifier]

/-- The registered number of a role. -/
def number : Role → UInt8
  | requester => 1
  | responder => 2
  | monitor => 3
  | verifier => 4

/-- The name of a role. -/
def name : Role → String
  | requester => "Requester"
  | responder => "Responder"
  | monitor => "Monitor"
  | verifier => "Verifier"

/-- The role with a name. -/
def ofName? (s : String) : Option Role := all.find? fun r => r.name = s

/-- The bit of a role in a mask. -/
def bit (r : Role) : UInt64 := 1 <<< r.number.toUInt64

theorem mem_all (r : Role) : r ∈ all := by
  cases r <;> simp [all]

instance : Ord Role := ⟨compareOn Role.number⟩

instance : Std.TransOrd Role := inferInstanceAs (Std.TransCmp (compareOn Role.number))

instance : Std.LawfulEqOrd Role where
  eq_of_compare {a b} h := by
    have h : a.number = b.number := Std.LawfulEqOrd.eq_of_compare (α := UInt8) h
    cases a <;> cases b <;> first | rfl | exact absurd h (by decide)

end Role

/-- A set of roles. -/
structure Roles where
  requester : Bool := false
  responder : Bool := false
  monitor : Bool := false
  verifier : Bool := false
  deriving DecidableEq, Repr

namespace Roles

/-- The set without roles. -/
def none : Roles := {}

/-- Whether a role is in a set. -/
def contains (roles : Roles) : Role → Bool
  | .requester => roles.requester
  | .responder => roles.responder
  | .monitor => roles.monitor
  | .verifier => roles.verifier

/-- The roles of a set, in the order of their numbers. -/
def toList (roles : Roles) : List Role := Role.all.filter roles.contains

/-- Whether a set has no roles. -/
def isEmpty (roles : Roles) : Bool := roles.toList.isEmpty

/-- The set of all roles that `mem` holds of. -/
def ofMembership (mem : Role → Bool) : Roles :=
  ⟨mem .requester, mem .responder, mem .monitor, mem .verifier⟩

/-- The set of some roles. -/
def ofList (roles : List Role) : Roles := ofMembership roles.contains

/-- The roles of either set. -/
def union (a b : Roles) : Roles := ofMembership fun r => a.contains r || b.contains r

instance : Union Roles := ⟨union⟩

/-- The mask of a set. -/
def toMask (roles : Roles) : UInt64 :=
  roles.toList.foldl (fun mask r => mask ||| r.bit) 0

/-- The mask of all roles. -/
def knownMask : UInt64 := 0b11110

/-- The set that a mask stands for; none for the empty mask and for one with a bit that is no
role's. -/
def ofMask? (mask : UInt64) : Option Roles :=
  if mask = 0 ∨ mask &&& ~~~knownMask ≠ 0 then .none
  else some (ofMembership fun r => mask &&& r.bit ≠ 0)

/-- The names of the roles of a set, between braces. -/
def describe (roles : Roles) : String :=
  "\x7b" ++ String.intercalate ", " (roles.toList.map Role.name) ++ "\x7d"

@[simp]
theorem contains_ofMembership (mem : Role → Bool) (r : Role) :
    (ofMembership mem).contains r = mem r := by
  cases r <;> rfl

/-- A role is in a union if it is in one of the two sets. -/
@[simp]
theorem contains_union (a b : Roles) (r : Role) :
    (a ∪ b).contains r = (a.contains r || b.contains r) :=
  contains_ofMembership _ r

/-- Sets with the same roles are equal. -/
@[ext]
theorem ext {a b : Roles} (h : ∀ r, a.contains r = b.contains r) : a = b := by
  cases a
  cases b
  simp only [mk.injEq]
  exact ⟨h .requester, h .responder, h .monitor, h .verifier⟩

end Roles

end TokenGate
