import TokenGate.Cbor.Float
import TokenGate.Text.Utf8

/-!
# CBOR values

The generic data model of CBOR. Maps keep the order of their entries and may hold a key twice.
There are two equalities: the logical one, which compares numbers by their bits, and `Value.eq`,
which compares them as numbers.
-/

namespace TokenGate.Cbor

/-- A CBOR data item. -/
inductive Value where
  /-- An unsigned integer. -/
  | uint (n : UInt64)
  /-- The negative integer `-1 - n`. -/
  | nint (n : UInt64)
  | bytes (bs : Bytes)
  | text (s : String)
  /-- A number given by the bits of its 64 bit form. -/
  | float (bits : UInt64)
  | bool (b : Bool)
  | null
  | tag (number : UInt64) (content : Value)
  | array (items : List Value)
  | map (entries : List (Value × Value))
  deriving Inhabited

namespace Value

mutual

/-- Whether two values are the same item, numbers compared by their bits. -/
def beq : Value → Value → Bool
  | .uint a, .uint b => a == b
  | .nint a, .nint b => a == b
  | .bytes a, .bytes b => a == b
  | .text a, .text b => a == b
  | .float a, .float b => a == b
  | .bool a, .bool b => a == b
  | .null, .null => true
  | .tag s a, .tag t b => s == t && beq a b
  | .array as, .array bs => beqItems as bs
  | .map as, .map bs => beqEntries as bs
  | _, _ => false

/-- The items of two lists compared by `beq`. -/
def beqItems : List Value → List Value → Bool
  | [], [] => true
  | a :: as, b :: bs => beq a b && beqItems as bs
  | _, _ => false

/-- The entries of two maps compared by `beq`, in order. -/
def beqEntries : List (Value × Value) → List (Value × Value) → Bool
  | [], [] => true
  | (j, a) :: as, (k, b) :: bs => beq j k && beq a b && beqEntries as bs
  | _, _ => false

end

mutual

/-- Whether two values are equal, numbers compared as numbers and maps entry by entry in order. -/
def eq : Value → Value → Bool
  | .uint a, .uint b => a == b
  | .nint a, .nint b => a == b
  | .bytes a, .bytes b => a == b
  | .text a, .text b => a == b
  | .float a, .float b => floatEq a b
  | .bool a, .bool b => a == b
  | .null, .null => true
  | .tag s a, .tag t b => s == t && eq a b
  | .array as, .array bs => eqItems as bs
  | .map as, .map bs => eqEntries as bs
  | _, _ => false

/-- The items of two lists compared by `eq`. -/
def eqItems : List Value → List Value → Bool
  | [], [] => true
  | a :: as, b :: bs => eq a b && eqItems as bs
  | _, _ => false

/-- The entries of two maps compared by `eq`, in order. -/
def eqEntries : List (Value × Value) → List (Value × Value) → Bool
  | [], [] => true
  | (j, a) :: as, (k, b) :: bs => eq j k && eq a b && eqEntries as bs
  | _, _ => false

end

mutual

/-- Values that are found equal are equal. -/
theorem eq_of_beq : ∀ {a b : Value}, beq a b = true → a = b
  | .uint _, .uint _, h | .nint _, .nint _, h | .bytes _, .bytes _, h | .text _, .text _, h
  | .float _, .float _, h | .bool _, .bool _, h => by simpa [beq] using h
  | .null, .null, _ => rfl
  | .tag _ _, .tag _ _, h => by
    simp only [beq, Bool.and_eq_true, beq_iff_eq] at h
    rw [h.1, eq_of_beq h.2]
  | .array _, .array _, h => congrArg array (eq_of_beqItems h)
  | .map _, .map _, h => congrArg map (eq_of_beqEntries h)

theorem eq_of_beqItems : ∀ {as bs : List Value}, beqItems as bs = true → as = bs
  | [], [], _ => rfl
  | _ :: _, _ :: _, h => by
    simp only [beqItems, Bool.and_eq_true] at h
    rw [eq_of_beq h.1, eq_of_beqItems h.2]

theorem eq_of_beqEntries :
    ∀ {as bs : List (Value × Value)}, beqEntries as bs = true → as = bs
  | [], [], _ => rfl
  | (_, _) :: _, (_, _) :: _, h => by
    simp only [beqEntries, Bool.and_eq_true] at h
    rw [eq_of_beq h.1.1, eq_of_beq h.1.2, eq_of_beqEntries h.2]

end

mutual

theorem beq_self : ∀ a : Value, beq a a = true
  | .uint _ | .nint _ | .bytes _ | .text _ | .float _ | .bool _ => by simp [beq]
  | .null => rfl
  | .tag _ a => by simp [beq, beq_self a]
  | .array as => beqItems_self as
  | .map as => beqEntries_self as

theorem beqItems_self : ∀ as : List Value, beqItems as as = true
  | [] => rfl
  | a :: as => by simp [beqItems, beq_self a, beqItems_self as]

theorem beqEntries_self : ∀ as : List (Value × Value), beqEntries as as = true
  | [] => rfl
  | (k, a) :: as => by simp [beqEntries, beq_self k, beq_self a, beqEntries_self as]

end

instance : DecidableEq Value := fun a b =>
  if h : beq a b = true then isTrue (eq_of_beq h)
  else isFalse fun e => h (e ▸ beq_self a)

/-- A signed 64 bit integer as a value. -/
def ofInt64 (n : Int64) : Value :=
  if n < 0 then .nint (~~~n).toUInt64 else .uint n.toUInt64

/-- The signed 64 bit integer that a value is, if it is one. -/
def toInt64? : Value → Option Int64
  | .uint n => if n < 0x8000000000000000 then some n.toInt64 else none
  | .nint n => if n < 0x8000000000000000 then some (~~~n.toInt64) else none
  | _ => none

/-- The unsigned 64 bit integer that a value is, if it is one. -/
def toUInt64? : Value → Option UInt64
  | .uint n => some n
  | _ => none

end Value

end TokenGate.Cbor
