import TokenGate.Digest.Sha256
import TokenGate.Text.Base64

/-!
# Token identifiers

A token is known by its `cti`, a byte string, which is shown in base64. A token that comes without
one gets an identifier from the hash of its claims, the same for the same claims.
-/

namespace TokenGate

/-- The identifier of a token. -/
structure TokenId where
  bytes : Bytes
  deriving DecidableEq, Repr

namespace TokenId

instance : Ord TokenId := ⟨compareOn TokenId.bytes⟩

instance : Std.TransOrd TokenId := inferInstanceAs (Std.TransCmp (compareOn TokenId.bytes))

instance : Std.LawfulEqOrd TokenId where
  eq_of_compare {a b} h := by
    have h : a.bytes = b.bytes := Std.LawfulEqOrd.eq_of_compare (α := Bytes) h
    cases a
    cases b
    exact congrArg TokenId.mk h

/-- The length of a derived identifier. -/
def derivedLength : Nat := 16

/-- The identifier of a token with given claims and none of its own. -/
def derive (encodedClaims : Bytes) : TokenId :=
  ⟨(Sha256.hash encodedClaims).take derivedLength⟩

/-- An identifier in base64. -/
def toText (id : TokenId) : String := Text.Base64.encode id.bytes

/-- The identifier that a text in base64 stands for. -/
def ofText? (s : String) : Option TokenId := (Text.Base64.decode? s).map .mk

end TokenId

end TokenGate
