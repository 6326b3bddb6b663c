import TokenGate.Repository.Addition
import TokenGate.Repository.Decision
import TokenGate.Repository.Document

/-!
# Repositories

A repository answers for the tokens that were admitted. Each operation that changes it is a change of
its state, which is saved before it counts: if saving fails, the state is as it was. A store file
belongs to one open repository at a time. Once closed, a repository takes no changes and knows
nothing.
-/

namespace TokenGate

/-- A store of tokens. -/
structure Repository where
  /-- The decisions of the application about scopes. -/
  validator : Validator
  store : Option DiskPath := none
  isOpen : Bool := true
  state : RepositoryState := {}

namespace Repository

/-- What an operation on a repository leaves behind. -/
structure Effect (α : Type) where
  result : Except RepositoryError α
  repository : Repository
  host : Host

/-- The state kept in a store file; the state of a new repository if there is no file yet. -/
def load (host : Host) (path : DiskPath) : Except RepositoryError RepositoryState :=
  match host.readFile path with
  | .error .missing => .ok {}
  | .error .obstructed => .error .storage
  | .ok content =>
    match StoreDocument.decode? content with
    | none => .error .malformedStore
    | some document => document.restore.mapError .corruptStore

/-- Opens a repository, with the state kept in its store file. -/
def create (validator : Validator) (store : Option DiskPath) (host : Host) :
    Except RepositoryError (Repository × Host) :=
  match store with
  | none => .ok ({ validator }, host)
  | some path =>
    if host.isLive path then .error (.alreadyOpen path)
    else do
      let state ← load host path
      .ok ({ validator, store, state }, host.claim path)

/-- Writes a state to the store file, if there is one. -/
def save (r : Repository) (state : RepositoryState) (host : Host) :
    Except RepositoryError Unit × Host :=
  match r.store with
  | none => (.ok (), host)
  | some path =>
    match StoreDocument.ofState state with
    | .error e => (.error (.encoding e), host)
    | .ok document =>
      match host.replaceFile path document.encode with
      | (true, host) => (.ok (), host)
      | (false, host) => (.error .storage, host)

/-- Carries out a change of state, which is saved before it counts. -/
def commit {α : Type} (r : Repository) (host : Host) (outcome : Outcome α) : Effect α :=
  match outcome.next with
  | none => ⟨.ok outcome.value, r, host⟩
  | some state =>
    match r.save state host with
    | (.ok (), host) => ⟨.ok outcome.value, { r with state }, host⟩
    | (.error e, host) => ⟨.error e, r, host⟩

/-- Carries out a change on an open repository. -/
def perform {α : Type} (r : Repository) (host : Host)
    (change : RepositoryState → Except Rejection (Outcome α)) : Effect α :=
  if r.isOpen then
    match change r.state with
    | .error rejection => ⟨.error (.rejected rejection), r, host⟩
    | .ok outcome => r.commit host outcome
  else ⟨.error .closed, r, host⟩

/-- Saves the state and gives the store file free. -/
def close (r : Repository) (host : Host) : Effect Unit :=
  if r.isOpen then
    match r.save r.state host with
    | (.ok (), host) => ⟨.ok (), { r with isOpen := false }, host.release r.store⟩
    | (.error e, host) => ⟨.error e, r, host⟩
  else ⟨.error .closed, r, host⟩

/-- The host after a repository is gone, closed or not. -/
def discard (r : Repository) (host : Host) : Host :=
  if r.isOpen then host.release r.store else host

/-- Adds a token. The sender of the token is authenticated with `senderKey`, if with any. -/
def addToken (r : Repository) (host : Host) (claims : Claims) (shared : SharedKey)
    (senderKey : Option KeyName) (origin : TokenOrigin) : Effect AddedToken :=
  match Submission.ofClaims claims shared origin with
  | .error e => ⟨.error e, r, host⟩
  | .ok submission => r.perform host fun s => s.add submission senderKey host.clock

/-- Takes an added token back. Nothing is to be done for a token that was there before. -/
def withdraw (r : Repository) (host : Host) (added : AddedToken) : Effect Unit :=
  if added.displaced.isNone then ⟨.ok (), r, host⟩
  else r.perform host fun s => .ok (s.withdraw added)

/-- Removes a token, and tells whether it was there. -/
def removeToken (r : Repository) (host : Host) (id : TokenId) : Effect Bool :=
  r.perform host fun s =>
    match s.removeToken? id with
    | some next => .ok (.changed true next)
    | none => .ok (.unchanged false)

/-- Removes the tokens whose validity has ended at a time. -/
def purge (r : Repository) (host : Host) (now : UInt64) : Effect (List TokenId) :=
  r.perform host fun s =>
    match s.expired now with
    | [] => .ok (.unchanged [])
    | id :: ids => .ok (.changed (id :: ids) (s.sweep now))

/-- Makes a key known out of band. -/
def provisionKey (r : Repository) (host : Host) (key : PopKey) : Effect KeyName :=
  match key.name with
  | .error rejection => ⟨.error (.rejected rejection), r, host⟩
  | .ok name =>
    r.perform host fun s => .ok (.changed name { s with keys := s.keys.insert name ⟨key, true⟩ })

/-- Records that requests from a sender are authenticated with a key. -/
def bindSender (r : Repository) (host : Host) (sender : String) (key : KeyName) : Effect Unit :=
  r.perform host fun s => .ok (.changed () { s with senders := s.senders.insert sender key })

/-- Forgets about a sender. -/
def unbindSender (r : Repository) (host : Host) (sender : String) : Effect Unit :=
  r.perform host fun s =>
    if s.senders.contains sender then
      .ok (.changed () { s with senders := s.senders.erase sender })
    else .ok (.unchanged ())

/-- Records the challenge given to the holder of a key. -/
def setChallenge (r : Repository) (host : Host) (key : KeyName) (challenge : Bytes) : Effect Unit :=
  r.perform host fun s =>
    .ok (.changed () { s with challenges := s.challenges.insert key challenge })

/-- What can be known of the state: nothing once the repository is closed. -/
def visible (r : Repository) : RepositoryState :=
  if r.isOpen then r.state else {}

/-- Whether a token would now be taken for an update of the rights of its key. -/
def updateApplies (r : Repository) (host : Host) (claims : Claims) (senderKey : Option KeyName) :
    Bool :=
  match claims.cnf with
  | some (.kid kid) => r.visible.isUpdate (.ofKid kid) senderKey host.clock
  | _ => false

/-- What the holder of a key may do at a time; with an `introspection`, after asking again about
tokens that were posted by reference. -/
def access (r : Repository) (introspection : Option Introspection) (key : KeyName)
    (resource : String) (method : Method) (now : UInt64) : AccessDecision :=
  r.visible.access r.validator introspection key resource method now

/-- The key that the holder of a token has to prove possession of, until the token's validity
ends. -/
def popKey? (r : Repository) (host : Host) (id : TokenId) : Option PopKey := do
  let record ← r.visible.tokens[id]?
  if record.claims.isExpiredAt host.clock then none
  else
    let bound ← r.visible.keys[record.key]?
    some bound.key

/-- The claims of a token. -/
def claims? (r : Repository) (id : TokenId) : Option Claims :=
  (r.visible.tokens[id]?).map (·.claims)

/-- The key of a token. -/
def keyOfToken? (r : Repository) (id : TokenId) : Option KeyName :=
  (r.visible.tokens[id]?).map (·.key)

/-- The identifiers of the tokens of a key. -/
def tokensOfKey (r : Repository) (key : KeyName) : List TokenId :=
  (r.visible.idsOf key).toList

/-- The key that authenticates a sender. -/
def keyOfSender? (r : Repository) (sender : String) : Option KeyName :=
  r.visible.senders[sender]?

/-- The challenge given to the holder of a key. -/
def challenge? (r : Repository) (key : KeyName) : Option Bytes :=
  r.visible.challenges[key]?

/-- The path of the store file, whether the repository is open, and how much it knows. -/
def describe (r : Repository) : String :=
  let store :=
    match r.store with
    | some path => "Some(" ++ Text.Quoted.string path.text ++ ")"
    | none => "None"
  "TokenRepository \x7b store: " ++ store ++ ", open: " ++ (if r.isOpen then "true" else "false")
    ++ ", tokens: " ++ toString r.state.tokens.size ++ ", keys: " ++ toString r.state.keys.size
    ++ " \x7d"

end Repository

end TokenGate
