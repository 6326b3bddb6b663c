import TokenGate.Repository.Error
import TokenGate.Repository.State
import TokenGate.SharedKey

/-!
# Adding and withdrawing tokens

A token is first resolved to a `Submission`, which does not depend on what the repository knows: its
scope, the name of its key, the key itself if the token brings it along, and its identifier. Then the
state decides. A token that refers to its key, from a sender authenticated with that very key,
updates the rights of the key: it replaces the tokens there were. Any other token adds to them.
-/

namespace TokenGate

/-- A token ready to be added. -/
structure Submission where
  id : TokenId
  /-- Whether the identifier was derived from the claims, the token having none. -/
  isDerived : Bool
  /-- The claims, with the identifier among them. -/
  claims : Claims
  scope : Scope
  key : KeyName
  /-- The key that the token brings along, if it does not only refer to one. -/
  carried : Option PopKey
  origin : TokenOrigin

/-- What the addition of a token displaced. -/
structure Displaced where
  tokens : List (TokenId × TokenRecord)
  key : Option BoundKey

/-- A token that was added. -/
structure AddedToken where
  id : TokenId
  key : KeyName
  /-- Whether the token replaced the tokens of its key. -/
  isUpdate : Bool
  /-- What it displaced; nothing to speak of for a token that was there before. -/
  displaced : Option Displaced

/-- What a change of state comes to. -/
structure Outcome (α : Type) where
  value : α
  /-- The new state, if there is one to be saved. -/
  next : Option RepositoryState

namespace Outcome

/-- A value without a change. -/
def unchanged {α : Type} (value : α) : Outcome α := ⟨value, none⟩

/-- A value and a new state. -/
def changed {α : Type} (value : α) (next : RepositoryState) : Outcome α := ⟨value, some next⟩

end Outcome

namespace Submission

/-- The key in an encrypted confirmation. -/
def decryptKey (envelope : Cose.Encrypt0) (shared : SharedKey) : Except RepositoryError PopKey :=
  match shared.openEnvelope envelope [] with
  | .error .detached => .error .detached
  | .error (.crypto _) => .error (.rejected .cnfDecryptionFailed)
  | .ok plaintext =>
    match Cose.Key.decode? plaintext with
    | some key => .ok (.cose key)
    | none => .error (.rejected .malformedCnf)

/-- A key that a token brings along, with its name. -/
def named (key : PopKey) : Except RepositoryError (KeyName × Option PopKey) :=
  match key.name with
  | .ok name => .ok (name, some key)
  | .error rejection => .error (.rejected rejection)

/-- The name of the key that a confirmation is about, and the key itself unless it is only referred
to. -/
def keyOf (shared : SharedKey) : Confirmation → Except RepositoryError (KeyName × Option PopKey)
  | .kid kid => .ok (.ofKid kid, none)
  | .key key => named (.cose key)
  | .oscore material => named (.oscore material)
  | .encryptedKey envelope => do named (← decryptKey envelope shared)

/-- The identifier of a token, and whether it had to be derived. -/
def idOf (claims : Claims) : Except RepositoryError (TokenId × Bool) :=
  match claims.cti with
  | some bytes => .ok (⟨bytes⟩, false)
  | none => do
    let encoded ← claims.encode.mapError .encoding
    .ok (.derive encoded, true)

/-- A claim that has to be there. -/
def required {α : Type} (rejection : Rejection) (claim : Option α) : Except RepositoryError α :=
  match claim with
  | some content => .ok content
  | none => .error (.rejected rejection)

/-- Resolves a token by its claims: first the scope, then the key, then the identifier. -/
def ofClaims (claims : Claims) (shared : SharedKey) (origin : TokenOrigin) :
    Except RepositoryError Submission := do
  let scopeClaim ← required .noScope claims.scope
  let scope ← (Scope.ofClaim scopeClaim).mapError .rejected
  let cnf ← required .noCnf claims.cnf
  let (key, carried) ← keyOf shared cnf
  let (id, isDerived) ← idOf claims
  .ok { id, isDerived, claims := claims.set .cti id.bytes, scope, key, carried, origin }

/-- What the repository keeps of a token. -/
def record (t : Submission) : TokenRecord :=
  { claims := t.claims, scope := t.scope, key := t.key, origin := t.origin }

end Submission

namespace RepositoryState

/-- Whether the very same token, without an identifier of its own, is there already. -/
def isResubmission (s : RepositoryState) (t : Submission) : Bool :=
  t.isDerived && (s.tokens[t.id]?).any fun record => record.claims.eq t.claims

/-- The tokens filed under a key. -/
def tokensOf (s : RepositoryState) (key : KeyName) : List (TokenId × TokenRecord) :=
  (s.idsOf key).toList.filterMap fun id => (s.tokens[id]?).map (id, ·)

/-- The state without the tokens of a key; the key itself stays. -/
def clearTokens (s : RepositoryState) (key : KeyName) : RepositoryState :=
  { s with
    tokens := s.tokens.eraseMany (s.idsOf key).toList
    byKey := s.byKey.erase key }

/-- The state with the key that a token brings along. A provisioned key is not replaced. -/
def learnKey (s : RepositoryState) (t : Submission) : RepositoryState :=
  match t.carried with
  | some key =>
    if s.isProvisioned t.key then s else { s with keys := s.keys.insert t.key ⟨key, false⟩ }
  | none => s

/-- Adds a token, after the tokens whose validity has ended are gone. -/
def add (s : RepositoryState) (t : Submission) (senderKey : Option KeyName) (now : UInt64) :
    Except Rejection (Outcome AddedToken) :=
  let swept := s.sweep now
  if t.carried.isNone && !swept.keys.contains t.key then .error .unknownKid
  else if swept.isResubmission t then
    .ok (.unchanged { id := t.id, key := t.key, isUpdate := false, displaced := none })
  else
    let isUpdate := t.carried.isNone && swept.isUpdate t.key senderKey now
    if (swept.tokens[t.id]?).any fun other => !isUpdate || other.key ≠ t.key then
      .error .duplicateCti
    else
      let cleared := if isUpdate then swept.clearTokens t.key else swept
      .ok (.changed
        { id := t.id, key := t.key, isUpdate
          displaced := some
            { tokens := if isUpdate then swept.tokensOf t.key else []
              key := swept.keys[t.key]? } }
        ((cleared.learnKey t).insertToken t.id t.record))

/-- Takes a token back and restores what it displaced. -/
def withdraw (s : RepositoryState) (added : AddedToken) : Outcome Unit :=
  match added.displaced with
  | none => .unchanged ()
  | some displaced =>
    let without :=
      if s.tokens.contains added.id then
        { s with
          tokens := s.tokens.erase added.id
          byKey := s.byKey.modify added.key (·.erase added.id) }
      else s
    let restored := displaced.tokens.foldl (fun s (id, record) => s.insertToken id record) without
    let rekeyed :=
      match displaced.key with
      | some key => { restored with keys := restored.keys.insert added.key key }
      | none => restored
    .changed () (rekeyed.dropIfOrphaned added.key)

end RepositoryState

end TokenGate
