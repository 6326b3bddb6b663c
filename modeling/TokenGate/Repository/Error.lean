import TokenGate.Host
import TokenGate.PopKey
import TokenGate.Rejection
import TokenGate.TokenId

/-!
# What can go wrong in a repository

A token may be refused for a reason of its own; everything else is a matter of the repository and of
its store file.
-/

namespace TokenGate

/-- What is wrong with the content of a store file whose form is right. -/
inductive Corruption where
  /-- The text of a key is no base64, or its bytes are no CBOR item. -/
  | keyText
  /-- The confirmation in place of a key carries none. -/
  | keyKind
  | tokenId
  /-- The text of a token's claims is no base64. -/
  | claimsText
  | claims (id : TokenId) (rejection : Rejection)
  | scope (id : TokenId)
  | unknownKey (id : TokenId) (key : KeyName)
  /-- The text of a challenge is no base64. -/
  | challengeText
  deriving DecidableEq

/-- The wording of what is wrong. -/
def Corruption.message : Corruption → String
  | keyText => "key"
  | keyKind => "key is not a COSE key or OSCORE input material"
  | tokenId => "cti is not base64"
  | claimsText => "claims"
  | claims id rejection => "claims of " ++ id.toText ++ ": " ++ rejection.message
  | scope id => "scope of " ++ id.toText
  | unknownKey id key => "token " ++ id.toText ++ " refers to unknown key " ++ key.text
  | challengeText => "challenge"

/-- Why an operation on a repository failed. -/
inductive RepositoryError where
  | rejected (rejection : Rejection)
  | closed
  | alreadyOpen (path : DiskPath)
  /-- The store file could not be read or written. -/
  | storage
  /-- The store file is no document of the right form. -/
  | malformedStore
  | corruptStore (corruption : Corruption)
  /-- Something that was to be encoded has no encoding. -/
  | encoding (error : Cose.EncodeError)
  /-- An encrypted key comes without its ciphertext, which nothing here can deal with. -/
  | detached
  deriving DecidableEq

/-- The wording of an error, where there is more to say than its kind. -/
def RepositoryError.message? : RepositoryError → Option String
  | rejected rejection => some rejection.message
  | closed => some "token repository is closed"
  | alreadyOpen path => some ("a token repository is already open on " ++ path.text)
  | corruptStore corruption => some corruption.message
  | storage | malformedStore | encoding _ | detached => none

end TokenGate
