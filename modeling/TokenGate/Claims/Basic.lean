import TokenGate.Claims.Content
import TokenGate.Cbor.Decoding
import TokenGate.Cbor.Encoding

/-!
# Claims sets

A claims set is a map. Under a key that the server acts on it has a content of the type of that key,
at most once; all other entries are kept as they came. Its encoding is the same for the same claims:
the known claims in the order of their labels, then the other entries in theirs.
-/

namespace TokenGate

open Cbor

/-- A claims set. -/
structure Claims where
  /-- The claims that the server acts on. -/
  known : (k : ClaimKey) → Option k.Content := fun _ => none
  /-- All other entries, in order. -/
  extra : List (Value × Value) := []

namespace Claims

/-- The claims set without claims. -/
def empty : Claims := {}

instance : Inhabited Claims := ⟨empty⟩

/-- Claims sets with the same claims and the same other entries are equal. -/
@[ext]
theorem ext {a b : Claims} (known : ∀ k, a.known k = b.known k) (extra : a.extra = b.extra) :
    a = b := by
  cases a
  cases b
  simp only [mk.injEq]
  exact ⟨funext known, extra⟩

@[simp]
theorem known_empty (k : ClaimKey) : empty.known k = none := rfl

/-- Whether a claim is present. -/
def contains (c : Claims) (k : ClaimKey) : Bool := (c.known k).isSome

/-- The claims with a content given to one of them. -/
def set (c : Claims) (k : ClaimKey) (content : k.Content) : Claims :=
  { c with known := fun j => if h : k = j then some (h ▸ content) else c.known j }

/-- A claim that is set is there. -/
@[simp]
theorem known_set_self (c : Claims) (k : ClaimKey) (content : k.Content) :
    (c.set k content).known k = some content := by
  simp [set]

theorem known_set_of_ne (c : Claims) {k j : ClaimKey} (content : k.Content) (h : k ≠ j) :
    (c.set k content).known j = c.known j := by
  simp [set, h]

@[simp]
theorem extra_set (c : Claims) (k : ClaimKey) (content : k.Content) :
    (c.set k content).extra = c.extra := rfl

/-- The claims without one of them. -/
def remove (c : Claims) (k : ClaimKey) : Claims :=
  { c with known := fun j => if k = j then none else c.known j }

theorem known_remove (c : Claims) (k j : ClaimKey) :
    (c.remove k).known j = if k = j then none else c.known j := rfl

/-- The claims with another entry that the server does not act on. -/
def addExtra (c : Claims) (key value : Value) : Claims :=
  { c with extra := c.extra ++ [(key, value)] }

@[simp]
theorem known_addExtra (c : Claims) (key value : Value) (k : ClaimKey) :
    (c.addExtra key value).known k = c.known k := rfl

/-- Who issued the token. -/
def issuer (c : Claims) : Option String := c.known .iss

/-- Whom the token is about. -/
def subject (c : Claims) : Option String := c.known .sub

/-- Whom the token is for. -/
def audience (c : Claims) : Option Audience := c.known .aud

/-- From when on the token is no longer valid. -/
def expiration (c : Claims) : Option UInt64 := c.known .exp

/-- From when on the token is valid. -/
def notBefore (c : Claims) : Option UInt64 := c.known .nbf

/-- When the token was issued. -/
def issuedAt (c : Claims) : Option UInt64 := c.known .iat

/-- How long the token is valid, once it has been received. -/
def expiresIn (c : Claims) : Option UInt64 := c.known .exi

/-- The profile that the client is to use. -/
def aceProfile (c : Claims) : Option UInt64 := c.known .aceProfile

/-- The identifier of the token. -/
def cti (c : Claims) : Option Bytes := c.known .cti

/-- The nonce that the server gave to the client. -/
def cnonce (c : Claims) : Option Bytes := c.known .cnonce

/-- What the token is good for. -/
def scope (c : Claims) : Option ScopeClaim := c.known .scope

/-- The key of the token's holder. -/
def cnf (c : Claims) : Option Confirmation := c.known .cnf

/-- Whether the token has begun to be valid and has not yet ended. Without bounds it always is. -/
def isValidAt (c : Claims) (now : UInt64) : Bool :=
  c.notBefore.all (· ≤ now) && c.expiration.all (now < ·)

/-- Whether the token's validity has ended. -/
def isExpiredAt (c : Claims) (now : UInt64) : Bool :=
  c.expiration.any (· ≤ now)

/-- Entries with the value of one of them replaced, the first one with an equal key, or with a new
entry at the end. -/
def putExtra (key value : Value) : List (Value × Value) → List (Value × Value)
  | [] => [(key, value)]
  | (k, v) :: rest => if k.eq key then (k, value) :: rest else (k, v) :: putExtra key value rest

/-- The claims replaced by those of a newer set where it has them. -/
def overlay (c newer : Claims) : Claims where
  known k := (newer.known k).or (c.known k)
  extra := newer.extra.foldl (fun extra (k, v) => putExtra k v extra) c.extra

/-- A newer claim takes the place of an older one. -/
@[simp]
theorem known_overlay (c newer : Claims) (k : ClaimKey) :
    (c.overlay newer).known k = (newer.known k).or (c.known k) := rfl

/-- The key that an entry of the map is under, if the server acts on it. -/
def keyOf? (key : Value) : Option ClaimKey :=
  key.toUInt64?.bind ClaimKey.ofLabel?

/-- The claims with another entry of the map read. A claim that is there already is malformed. -/
def enter (c : Claims) (entry : Value × Value) : Except Rejection Claims :=
  match keyOf? entry.1 with
  | none => .ok (c.addExtra entry.1 entry.2)
  | some k => do
    let content ← k.ofValue entry.2
    if c.contains k then .error (.malformedClaim k.name) else .ok (c.set k content)

/-- The claims set that a value is. Anything but a map is no token at all. -/
def ofValue : Value → Except Rejection Claims
  | .map entries => entries.foldlM enter empty
  | _ => .error .tokenInvalid

/-- The claims set at the beginning of some bytes. -/
def decode (bs : Bytes) : Except Rejection Claims :=
  match decode? bs with
  | some v => ofValue v
  | none => .error .tokenInvalid

/-- The entry of a claim, if it is present. -/
def entry (c : Claims) (k : ClaimKey) : Except Cose.EncodeError (List (Value × Value)) :=
  match c.known k with
  | none => .ok []
  | some content => do .ok [(.uint k.label, ← k.toValue content)]

/-- A claims set as a map. -/
def toValue (c : Claims) : Except Cose.EncodeError Value := do
  let known ← ClaimKey.all.mapM c.entry
  .ok (.map (known.flatten ++ c.extra))

/-- The bytes of a claims set. -/
def encode (c : Claims) : Except Cose.EncodeError Bytes := do
  .ok (← c.toValue).encode

/-- Whether two claims sets are equal, values inside them compared as numbers. -/
def eq (a b : Claims) : Bool :=
  (ClaimKey.all.all fun k =>
    match a.known k, b.known k with
    | none, none => true
    | some x, some y => k.eqContent x y
    | _, _ => false)
  && Value.eqEntries a.extra b.extra

end Claims

end TokenGate
