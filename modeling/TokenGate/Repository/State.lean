import Std.Data.ExtTreeMap
import Std.Data.ExtTreeSet
import TokenGate.Claims.Basic
import TokenGate.PopKey
import TokenGate.Scope.Basic
import TokenGate.TokenId

/-!
# What a repository knows

Tokens by their identifiers, the tokens of each key, the keys themselves, and for the holders of keys
the channels they use and the challenges they were given. A key that was learned from a token is
forgotten, along with channels and challenge, when the last of its tokens goes; a provisioned key
stays.
-/

namespace TokenGate

/-- How a token reached the server. -/
inductive TokenOrigin where
  | selfContained
  /-- As a reference, which is kept to ask about the token again. -/
  | reference (text : String)
  deriving DecidableEq, Repr

/-- A token in the repository. -/
structure TokenRecord where
  claims : Claims
  scope : Scope
  key : KeyName
  origin : TokenOrigin

/-- A key in the repository. -/
structure BoundKey where
  key : PopKey
  /-- Whether the key was agreed on out of band, and not learned from a token. -/
  provisioned : Bool

/-- What a repository knows. -/
structure RepositoryState where
  tokens : Std.ExtTreeMap TokenId TokenRecord := ∅
  /-- The identifiers of the tokens of each key. -/
  byKey : Std.ExtTreeMap KeyName (Std.ExtTreeSet TokenId) := ∅
  keys : Std.ExtTreeMap KeyName BoundKey := ∅
  /-- The keys that authenticate the senders of protected requests. -/
  senders : Std.ExtTreeMap String KeyName := ∅
  /-- The challenges that the holders of keys were given. -/
  challenges : Std.ExtTreeMap KeyName Bytes := ∅

namespace RepositoryState

/-- The identifiers of the tokens that are filed under a key. -/
def idsOf (s : RepositoryState) (key : KeyName) : Std.ExtTreeSet TokenId :=
  s.byKey.getD key ∅

/-- Whether a key is there and was agreed on out of band. -/
def isProvisioned (s : RepositoryState) (key : KeyName) : Bool :=
  (s.keys[key]?).any (·.provisioned)

/-- The state with a token put in and filed under its key. -/
def insertToken (s : RepositoryState) (id : TokenId) (record : TokenRecord) : RepositoryState :=
  { s with
    byKey := s.byKey.insert record.key ((s.idsOf record.key).insert id)
    tokens := s.tokens.insert id record }

/-- A token that is put in is under its identifier, and the others stay where they are. -/
theorem tokens_insertToken (s : RepositoryState) (id other : TokenId) (record : TokenRecord) :
    (s.insertToken id record).tokens[other]? =
      if id = other then some record else s.tokens[other]? := by
  simp [insertToken, Std.ExtTreeMap.getElem?_insert]

/-- A token that is put in is filed under its key and under no other. -/
theorem mem_idsOf_insertToken (s : RepositoryState) (id other : TokenId) (record : TokenRecord)
    (key : KeyName) :
    other ∈ (s.insertToken id record).idsOf key ↔
      (record.key = key ∧ id = other) ∨ other ∈ s.idsOf key := by
  simp only [insertToken, idsOf, Std.ExtTreeMap.getD_insert]
  split
  · rename_i h
    have h := Std.LawfulEqOrd.eq_of_compare h
    subst h
    simp [Std.ExtTreeSet.mem_insert]
  · rename_i h
    have h : record.key ≠ key := fun e => h (by simp [e])
    simp [h]

/-- The state with a key forgotten, and with it its channels and its challenge, unless the key was
agreed on out of band. -/
def releaseKey (s : RepositoryState) (key : KeyName) : RepositoryState :=
  if s.isProvisioned key then s
  else
    { s with
      keys := s.keys.erase key
      senders := s.senders.filter fun _ k => k ≠ key
      challenges := s.challenges.erase key }

/-- The state in which a key without tokens is no longer filed, and released. -/
def dropIfOrphaned (s : RepositoryState) (key : KeyName) : RepositoryState :=
  if (s.idsOf key).isEmpty then { s with byKey := s.byKey.erase key }.releaseKey key else s

/-- The state without a token, if the token is in it. -/
def removeToken? (s : RepositoryState) (id : TokenId) : Option RepositoryState :=
  (s.tokens[id]?).map fun record =>
    { s with
      tokens := s.tokens.erase id
      byKey := s.byKey.modify record.key (·.erase id) }.dropIfOrphaned record.key

/-- The state without a token. -/
def removeToken (s : RepositoryState) (id : TokenId) : RepositoryState :=
  (s.removeToken? id).getD s

/-- The identifiers of the tokens whose validity has ended. -/
def expired (s : RepositoryState) (now : UInt64) : List TokenId :=
  (s.tokens.filter fun _ record => record.claims.isExpiredAt now).keys

/-- The state without the tokens whose validity has ended. -/
def sweep (s : RepositoryState) (now : UInt64) : RepositoryState :=
  (s.expired now).foldl removeToken s

/-- Whether one of the tokens of a key has not ended. -/
def hasUnexpired (s : RepositoryState) (key : KeyName) (now : UInt64) : Bool :=
  (s.idsOf key).toList.any fun id =>
    (s.tokens[id]?).any fun record => !record.claims.isExpiredAt now

/-- Whether a token that only refers to a key, and comes from a sender authenticated with
`senderKey`, replaces the tokens that the key has. -/
def isUpdate (s : RepositoryState) (key : KeyName) (senderKey : Option KeyName) (now : UInt64) :
    Bool :=
  senderKey == some key && s.hasUnexpired key now

end RepositoryState

end TokenGate
