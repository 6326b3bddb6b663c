import TokenGate.Claims.Key
import TokenGate.Confirmation

/-!
# Contents of claims

Every claim has a type of its own, so that no later stage has to look at the shape of a value again.
-/

namespace TokenGate

open Cbor

/-- Whom a token is for: a single server, or several. -/
inductive Audience where
  | single (name : String)
  | multiple (names : List String)
  deriving DecidableEq, Repr

/-- The names in an audience. -/
def Audience.names : Audience → List String
  | single name => [name]
  | multiple names => names

/-- Whether an audience names a server. -/
def Audience.contains (audience : Audience) (name : String) : Bool :=
  audience.names.contains name

/-- An audience as a value. -/
def Audience.toValue : Audience → Value
  | single name => .text name
  | multiple names => .array (names.map .text)

/-- The scope of a token as it is transported. -/
inductive ScopeClaim where
  | text (s : String)
  /-- A scope in a binary format of its own. -/
  | binary (bs : Bytes)
  deriving DecidableEq, Repr

/-- A scope claim as a value. -/
def ScopeClaim.toValue : ScopeClaim → Value
  | text s => .text s
  | binary bs => .bytes bs

namespace ClaimKey

/-- The type of what a claim holds. -/
abbrev Content : ClaimKey → Type
  | iss => String
  | sub => String
  | aud => Audience
  | exp => UInt64
  | nbf => UInt64
  | iat => UInt64
  | cti => Bytes
  | cnf => Confirmation
  | scope => ScopeClaim
  | aceProfile => UInt64
  | cnonce => Bytes
  | exi => UInt64

/-- The number that a value is, under any number of tags for points in time. -/
def number? : Value → Option UInt64
  | .uint n => some n
  | .tag 1 v => number? v
  | _ => none

/-- The text of a value. -/
def text? : Value → Option String
  | .text s => some s
  | _ => none

/-- The bytes of a value. -/
def bytes? : Value → Option Bytes
  | .bytes bs => some bs
  | _ => none

/-- The audience that a value names: a text or an array of them. -/
def audience? : Value → Option Audience
  | .text s => some (.single s)
  | .array vs => (vs.mapM text?).map .multiple
  | _ => none

/-- The scope claim that a value is. -/
def scopeClaim? : Value → Option ScopeClaim
  | .text s => some (.text s)
  | .bytes bs => some (.binary bs)
  | _ => none

/-- The rejection of a claim that does not have the type of its key. -/
def wrongType : ClaimKey → Rejection
  | cti => .invalidCti
  | scope => .invalidScopeFormat
  | k => .malformedClaim k.name

/-- The content of a claim, or what is wrong with it. -/
def ofValue (k : ClaimKey) (v : Value) : Except Rejection k.Content :=
  let checked {α : Type} (content : Option α) : Except Rejection α :=
    match content with
    | some a => .ok a
    | none => .error k.wrongType
  match k with
  | iss => checked (text? v)
  | sub => checked (text? v)
  | aud => checked (audience? v)
  | exp => checked (number? v)
  | nbf => checked (number? v)
  | iat => checked (number? v)
  | cti => checked (bytes? v)
  | cnf => Confirmation.ofValue v
  | scope => checked (scopeClaim? v)
  | aceProfile => checked (number? v)
  | cnonce => checked (bytes? v)
  | exi => checked (number? v)

/-- The content of a claim as a value. -/
def toValue : (k : ClaimKey) → k.Content → Except Cose.EncodeError Value
  | iss, s => .ok (.text s)
  | sub, s => .ok (.text s)
  | aud, a => .ok (Audience.toValue a)
  | exp, n => .ok (.uint n)
  | nbf, n => .ok (.uint n)
  | iat, n => .ok (.uint n)
  | cti, bs => .ok (.bytes bs)
  | cnf, c => Confirmation.toValue c
  | scope, s => .ok (ScopeClaim.toValue s)
  | aceProfile, n => .ok (.uint n)
  | cnonce, bs => .ok (.bytes bs)
  | exi, n => .ok (.uint n)

/-- Whether two contents are equal, values inside them compared as numbers. -/
def eqContent : (k : ClaimKey) → k.Content → k.Content → Bool
  | iss, a, b => (a : String) == b
  | sub, a, b => (a : String) == b
  | aud, a, b => (a : Audience) == b
  | exp, a, b => (a : UInt64) == b
  | nbf, a, b => (a : UInt64) == b
  | iat, a, b => (a : UInt64) == b
  | cti, a, b => (a : Bytes) == b
  | cnf, a, b => Confirmation.eq a b
  | scope, a, b => (a : ScopeClaim) == b
  | aceProfile, a, b => (a : UInt64) == b
  | cnonce, a, b => (a : Bytes) == b
  | exi, a, b => (a : UInt64) == b

end ClaimKey

end TokenGate
