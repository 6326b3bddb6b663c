import TokenGate.Confirmation
import TokenGate.Digest.Sha256
import TokenGate.Text.Base64

/-!
# Proof-of-possession keys

The key that a token is bound to, once its confirmation is resolved, and the name under which the
repository files it. Symmetric keys and OSCORE input material are named by their identifiers, as
text where they are text and in base64 otherwise. Other keys are named by a hash of their encoding
without the identifier.
-/

namespace TokenGate

/-- The name under which a proof-of-possession key is filed. -/
structure KeyName where
  text : String
  deriving DecidableEq, Repr

namespace KeyName

instance : Ord KeyName := ⟨compareOn KeyName.text⟩

instance : Std.TransOrd KeyName := inferInstanceAs (Std.TransCmp (compareOn KeyName.text))

instance : Std.LawfulEqOrd KeyName where
  eq_of_compare {a b} h := by
    have h : a.text = b.text := Std.LawfulEqOrd.eq_of_compare (α := String) h
    cases a
    cases b
    exact congrArg KeyName.mk h

/-- The name of a key that is referred to by its identifier. -/
def ofKid (kid : Bytes) : KeyName :=
  ⟨(Text.ofUtf8? kid).getD (Text.Base64.encode kid)⟩

/-- The name of a key that is known by the hash of its encoding. -/
def ofDigest (digest : Bytes) : KeyName :=
  ⟨"ni:///sha-256;" ++ Text.Base64.encodeUrl digest⟩

end KeyName

/-- Key material that a token is bound to. -/
inductive PopKey where
  | cose (key : Cose.Key)
  | oscore (material : Oscore.Material)
  deriving DecidableEq

namespace PopKey

/-- A symmetric key, as it is agreed on out of band. -/
def symmetric (kid k : Bytes) : PopKey := .cose (.symmetric kid k)

/-- The name of a key. A symmetric key needs an identifier, any other COSE key an encoding. -/
def name : PopKey → Except Rejection KeyName
  | .oscore material => .ok (.ofKid material.id)
  | .cose key =>
    if key.kty = Cose.Key.symmetricType then
      if key.kid.isEmpty then .error .malformedCnf else .ok (.ofKid key.kid)
    else
      match Cose.Key.toValue { key with kid := [] } with
      | .ok v => .ok (.ofDigest (Sha256.hash v.encode))
      | .error _ => .error .malformedCnf

/-- The confirmation that carries a key. -/
def toConfirmation : PopKey → Confirmation
  | .cose key => .key key
  | .oscore material => .oscore material

/-- The key that a confirmation carries; none if it is only a reference or encrypted. -/
def ofConfirmation? : Confirmation → Option PopKey
  | .key key => some (.cose key)
  | .oscore material => some (.oscore material)
  | _ => none

/-- Whether two keys are equal, values inside them compared as numbers. -/
def eq : PopKey → PopKey → Bool
  | .cose a, .cose b => a.eq b
  | .oscore a, .oscore b => a == b
  | _, _ => false

end PopKey

end TokenGate
