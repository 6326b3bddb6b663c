import Std.Data.ExtTreeSet

/-!
# Request methods

The seven methods of CoAP requests.
-/

namespace TokenGate

/-- A CoAP request method. -/
inductive Method where
  | get
  | post
  | put
  | delete
  | fetch
  | patch
  | ipatch
  deriving DecidableEq, Repr

namespace Method

/-- Every method, in the order of their codes. -/
def all : List Method := [get, post, put, delete, fetch, patch, ipatch]

/-- The code of a method in a request. -/
def code : Method → UInt8
  | get => 1
  | post => 2
  | put => 3
  | delete => 4
  | fetch => 5
  | patch => 6
  | ipatch => 7

/-- The method with a code. -/
def ofCode? (n : UInt8) : Option Method := all.find? fun m => m.code = n

/-- The registered name of a method. -/
def name : Method → String
  | get => "GET"
  | post => "POST"
  | put => "PUT"
  | delete => "DELETE"
  | fetch => "FETCH"
  | patch => "PATCH"
  | ipatch => "iPATCH"

/-- The method with a name. -/
def ofName? (s : String) : Option Method := all.find? fun m => m.name = s

theorem mem_all (m : Method) : m ∈ all := by
  cases m <;> simp [all]

instance : Ord Method := ⟨compareOn Method.code⟩

instance : Std.TransOrd Method := inferInstanceAs (Std.TransCmp (compareOn Method.code))

instance : Std.LawfulEqOrd Method where
  eq_of_compare {a b} h := by
    have h : a.code = b.code := Std.LawfulEqOrd.eq_of_compare (α := UInt8) h
    cases a <;> cases b <;> first | rfl | exact absurd h (by decide)

end Method

/-- A set of methods. -/
abbrev Methods := Std.ExtTreeSet Method

end TokenGate
