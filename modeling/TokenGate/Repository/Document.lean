import TokenGate.Cbor.Encoding
import TokenGate.Json.Reading
import TokenGate.Repository.Error
import TokenGate.Repository.State

/-!
# Store documents

The form in which the state of a repository is kept in a file. Claims and keys stand in it as the
base64 of their encodings, so that a token is the same after it was loaded as when it was admitted.
The tokens of each key are not written, since they follow from the tokens. Nothing of a document is
taken on trust: every token needs a key that is there, and a scope.
-/

namespace TokenGate

open Cbor

/-- A token in a document. -/
structure StoredToken where
  id : String
  claims : String
  key : KeyName
  reference : Option String
  deriving DecidableEq, Repr

/-- A key in a document, in the form of a confirmation. -/
structure StoredKey where
  name : KeyName
  cnf : String
  provisioned : Bool
  deriving DecidableEq, Repr

/-- The content of a store file. -/
structure StoreDocument where
  tokens : List StoredToken
  keys : List StoredKey
  senders : Std.ExtTreeMap String KeyName
  challenges : Std.ExtTreeMap KeyName String

namespace StoredToken

/-- A token as JSON. -/
def toJson (t : StoredToken) : Json :=
  .ofMembers (
    [("cti", .ofText t.id), ("claims", .ofText t.claims), ("key", .ofText t.key.text)]
      ++ match t.reference with
        | some text => [("reference", .ofText text)]
        | none => [])

/-- The reference that may be missing from a token, or null. -/
def reference? : Option Json → Option (Option String)
  | none | some .null => some none
  | some v => v.text?.map some

/-- The token that a JSON value is. -/
def ofJson? (v : Json) : Option StoredToken := do
  match ← v.parts? ["cti", "claims", "key", "reference"] with
  | [some id, some claims, some key, reference] =>
    some { id := ← id.text?, claims := ← claims.text?, key := ⟨← key.text?⟩,
           reference := ← reference? reference }
  | _ => none

end StoredToken

namespace StoredKey

/-- A key as JSON. -/
def toJson (k : StoredKey) : Json :=
  .ofMembers
    [("identity", .ofText k.name.text), ("cnf", .ofText k.cnf), ("provisioned", .bool k.provisioned)]

/-- The key that a JSON value is. -/
def ofJson? (v : Json) : Option StoredKey := do
  match ← v.parts? ["identity", "cnf", "provisioned"] with
  | [some name, some cnf, some provisioned] =>
    some { name := ⟨← name.text?⟩, cnf := ← cnf.text?, provisioned := ← provisioned.bool? }
  | _ => none

end StoredKey

namespace StoreDocument

/-- A document as JSON. -/
def toJson (d : StoreDocument) : Json :=
  .ofMembers
    [("tokens", .array (d.tokens.map StoredToken.toJson)),
      ("keys", .array (d.keys.map StoredKey.toJson)),
      ("senders", .ofMembers (d.senders.toList.map fun (sender, key) => (sender, .ofText key.text))),
      ("challenges",
        .ofMembers (d.challenges.toList.map fun (key, challenge) => (key.text, .ofText challenge)))]

/-- Pairs of texts, none if they are missing altogether. -/
def texts? : Option Json → Option (List (String × String))
  | none => some []
  | some v => do (← v.members?).mapM fun (name, v) => v.text?.map (name, ·)

/-- The document that a JSON value is. Of repeated senders or challenges the last one counts. -/
def ofJson? (v : Json) : Option StoreDocument := do
  match ← v.parts? ["tokens", "keys", "senders", "challenges"] with
  | [some tokens, some keys, senders, challenges] =>
    let senders ← texts? senders
    let challenges ← texts? challenges
    some {
      tokens := ← (← tokens.items?).mapM StoredToken.ofJson?
      keys := ← (← keys.items?).mapM StoredKey.ofJson?
      senders := .ofList (senders.map fun (sender, key) => (sender, KeyName.mk key))
      challenges := .ofList (challenges.map fun (key, challenge) => (KeyName.mk key, challenge)) }
  | _ => none

/-- The bytes of a document. -/
def encode (d : StoreDocument) : Bytes := d.toJson.encode

/-- The document that some bytes are. -/
def decode? (bs : Bytes) : Option StoreDocument := (Json.decode? bs).bind ofJson?

end StoreDocument

namespace StoredToken

/-- A token as it is kept. -/
def ofRecord (id : TokenId) (record : TokenRecord) : Except Cose.EncodeError StoredToken := do
  .ok
    { id := id.toText
      claims := Text.Base64.encode (← record.claims.encode)
      key := record.key
      reference :=
        match record.origin with
        | .selfContained => none
        | .reference text => some text }

/-- The identifier and the claims of a kept token. -/
def claims? (t : StoredToken) : Except Corruption (TokenId × Claims) :=
  match TokenId.ofText? t.id with
  | none => .error .tokenId
  | some id =>
    match Text.Base64.decode? t.claims with
    | none => .error .claimsText
    | some bs => (Claims.decode bs).mapError (.claims id) |>.map (id, ·)

/-- The scope of some claims, if they have one. -/
def scopeOf? (claims : Claims) : Option Scope :=
  claims.scope.bind fun claim => (Scope.ofClaim claim).toOption

/-- The state with a kept token put back. -/
def restore (s : RepositoryState) (t : StoredToken) : Except Corruption RepositoryState := do
  let (id, claims) ← t.claims?
  match scopeOf? claims with
  | none => .error (.scope id)
  | some scope =>
    if s.keys.contains t.key then
      let origin :=
        match t.reference with
        | some text => TokenOrigin.reference text
        | none => .selfContained
      .ok (s.insertToken id { claims, scope, key := t.key, origin })
    else .error (.unknownKey id t.key)

end StoredToken

namespace StoredKey

/-- A key as it is kept. -/
def ofBoundKey (name : KeyName) (bound : BoundKey) : Except Cose.EncodeError StoredKey := do
  let cnf ← bound.key.toConfirmation.toValue
  .ok { name, cnf := Text.Base64.encode cnf.encode, provisioned := bound.provisioned }

/-- The key in a confirmation given as text. -/
def keyOf (cnf : String) : Except Corruption PopKey :=
  match (Text.Base64.decode? cnf).bind decode? with
  | none => .error .keyText
  | some v =>
    match (Confirmation.ofValue v).toOption.bind PopKey.ofConfirmation? with
    | none => .error .keyKind
    | some key => .ok key

/-- The state with a kept key put back. -/
def restore (s : RepositoryState) (k : StoredKey) : Except Corruption RepositoryState := do
  let key ← keyOf k.cnf
  .ok { s with keys := s.keys.insert k.name ⟨key, k.provisioned⟩ }

end StoredKey

namespace StoreDocument

/-- The document that keeps a state. -/
def ofState (s : RepositoryState) : Except Cose.EncodeError StoreDocument := do
  let tokens ← s.tokens.toList.mapM fun (id, record) => StoredToken.ofRecord id record
  let keys ← s.keys.toList.mapM fun (name, bound) => StoredKey.ofBoundKey name bound
  .ok { tokens, keys, senders := s.senders
        challenges := s.challenges.map fun _ challenge => Text.Base64.encode challenge }

/-- The state with a kept challenge put back. -/
def restoreChallenge (s : RepositoryState) (kept : KeyName × String) :
    Except Corruption RepositoryState :=
  match Text.Base64.decode? kept.2 with
  | some challenge => .ok { s with challenges := s.challenges.insert kept.1 challenge }
  | none => .error .challengeText

/-- The state that a document keeps: first the keys, then the tokens, then all else. -/
def restore (d : StoreDocument) : Except Corruption RepositoryState := do
  let withKeys ← d.keys.foldlM StoredKey.restore {}
  let withTokens ← d.tokens.foldlM StoredToken.restore withKeys
  d.challenges.toList.foldlM restoreChallenge { withTokens with senders := d.senders }

end StoreDocument

end TokenGate
