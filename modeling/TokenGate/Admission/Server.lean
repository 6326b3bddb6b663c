import TokenGate.Oscore.Contexts
import TokenGate.Repository.Basic

/-!
# Servers

The state that a posted token meets: a repository on its host, and what the communication security
profiles keep for themselves. An action on a server may fail, and then still leaves a server behind.
-/

namespace TokenGate

/-- A source of random bytes, of which some have been used. -/
structure RandomSource where
  byteAt : Nat → UInt8
  /-- How many bytes have been used. -/
  used : Nat := 0

/-- The next bytes of a source. -/
def RandomSource.take (source : RandomSource) (n : Nat) : Bytes × RandomSource :=
  ((List.range n).map fun i => source.byteAt (source.used + i), { source with used := source.used + n })

/-- What the profiles keep: OSCORE contexts, and where their random bytes come from. -/
structure Channel where
  contexts : Oscore.Contexts := {}
  nonces : RandomSource
  challenges : RandomSource

/-- A repository on its host, and what the profiles keep. -/
structure Server where
  host : Host
  repository : Repository
  channel : Channel

/-- Something done to a server, which may fail. -/
abbrev Action (ε α : Type) := ExceptT ε (StateM Server) α

/-- Why a token was not admitted. -/
inductive Failure where
  /-- The token or the request is at fault. -/
  | rejected (rejection : Rejection)
  /-- The server is at fault; the text is all that the client gets to see. -/
  | internal (text : String)
  /-- A ciphertext is missing from where it has to be; there is no reply. -/
  | detached
  deriving DecidableEq, Repr

namespace Failure

/-- What clients are told when the repository does not work. -/
def internalError : Failure := .internal "Internal server error"

/-- What clients are told when the issuer does not answer. -/
def introspectionFailed : Failure := .internal "Introspection failed"

/-- What the failure of an operation on the repository means for the token. -/
def ofRepository : RepositoryError → Failure
  | .rejected rejection => .rejected rejection
  | .detached => .detached
  | _ => internalError

end Failure

namespace Action

/-- The action that has a result without doing anything. -/
def ofExcept {ε α : Type} (result : Except ε α) : Action ε α :=
  ExceptT.mk (pure result)

/-- An operation on the repository as an action. -/
def onRepository {α : Type} (operation : Repository → Host → Repository.Effect α) :
    Action RepositoryError α :=
  ExceptT.mk fun server =>
    let effect := operation server.repository server.host
    (effect.result, { server with repository := effect.repository, host := effect.host })

/-- An operation on the repository as a step of an admission. -/
def committing {α : Type} (operation : Repository → Host → Repository.Effect α) :
    Action Failure α :=
  ExceptT.adapt Failure.ofRepository (onRepository operation)

/-- The length of fresh nonces and challenges. -/
def nonceLength : Nat := 8

/-- A fresh nonce. -/
def freshNonce : Action Failure Bytes :=
  ExceptT.mk fun server =>
    let (nonce, nonces) := server.channel.nonces.take nonceLength
    (.ok nonce, { server with channel := { server.channel with nonces } })

/-- A fresh challenge. -/
def freshChallenge : Action Failure Bytes :=
  ExceptT.mk fun server =>
    let (challenge, challenges) := server.channel.challenges.take nonceLength
    (.ok challenge, { server with channel := { server.channel with challenges } })

/-- Something done to the contexts. -/
def onContexts {α : Type} (operation : Oscore.Contexts → α × Oscore.Contexts) : Action Failure α :=
  ExceptT.mk fun server =>
    let (value, contexts) := operation server.channel.contexts
    (.ok value, { server with channel := { server.channel with contexts } })

end Action

end TokenGate
