import Mathlib.Data.List.Basic
import TokenGate.Proofs.Repository.Lookups
import TokenGate.Repository.Basic

/-!
# Operations carried out in place

An operation on a repository may as well be carried out step by step: it keeps a copy of the state, changes the state in place, and
puts the copy back wherever it fails on the way. What its steps have changed stays changed, also when a later step fails, so a copy
that is not put back would show. Carried out in this way, every operation leaves behind what it leaves behind when it is a change of
state that counts once it is saved.
-/

namespace TokenGate

/-- Steps on a repository and its host. A step that fails does not undo the steps before it. -/
abbrev InPlace := ExceptT RepositoryError (StateM (Repository × Host))

namespace InPlace

open RepositoryState

variable {α β : Type} {r : Repository} {host : Host}

/-- What steps leave behind. -/
def effect (steps : InPlace α) (r : Repository) (host : Host) : Repository.Effect α :=
  match steps (r, host) with
  | (result, r, host) => ⟨result, r, host⟩

/-! ## Steps -/

/-- What is known at this point. -/
def known : InPlace RepositoryState := return (← get).1.state

/-- The time of the host. -/
def clock : InPlace UInt64 := return (← get).2.clock

/-- Changes what is known. -/
def change (f : RepositoryState → RepositoryState) : InPlace Unit :=
  modify fun (r, host) => ({ r with state := f r.state }, host)

/-- Fails unless the repository is open. -/
def requireOpen : InPlace Unit := do
  if !(← get).1.isOpen then throw .closed

/-- Saves what is known. -/
def persist : InPlace Unit := do
  let (r, host) ← get
  let (result, host) := r.save r.state host
  set (r, host)
  ofExcept result

/-- Saves what is known, or puts back what was known before. -/
def commit (before : RepositoryState) : InPlace Unit :=
  try persist
  catch e =>
    change fun _ => before
    throw e

/-- Puts back what was known before, and fails. -/
def abandon (before : RepositoryState) (e : RepositoryError) : InPlace α := do
  change fun _ => before
  throw e

/-! ## Operations -/

/-- Takes out the tokens whose validity has ended, one after the other. -/
def sweep (now : UInt64) : InPlace (List TokenId) := do
  let expired := (← known).expired now
  expired.forM fun id => change (·.removeToken id)
  return expired

/-- Takes tokens out one after the other, and gives back those that were there. -/
def takeOut : List TokenId → InPlace (List (TokenId × TokenRecord))
  | [] => return []
  | id :: ids => do
    let record? := (← known).tokens[id]?
    change fun s => { s with tokens := s.tokens.erase id }
    let others ← takeOut ids
    return (record?.map (id, ·)).toList ++ others

/-- Takes out all tokens of a key, if they are to be replaced. -/
def replace (isUpdate : Bool) (key : KeyName) : InPlace (List (TokenId × TokenRecord)) :=
  if isUpdate then do
    let ids := (← known).idsOf key
    change fun s => { s with byKey := s.byKey.erase key }
    takeOut ids.toList
  else return []

/-- Adds a token. What the sweep took out is put back where the token is refused or there already. -/
def addToken (claims : Claims) (shared : SharedKey) (senderKey : Option KeyName) (origin : TokenOrigin) : InPlace AddedToken := do
  let t ← ofExcept (Submission.ofClaims claims shared origin)
  let now ← clock
  requireOpen
  let before ← known
  let _ ← sweep now
  let s ← known
  if t.carried.isNone && !s.keys.contains t.key then abandon before (.rejected .unknownKid)
  else if s.isResubmission t then
    change fun _ => before
    return { id := t.id, key := t.key, isUpdate := false, displaced := none }
  else
    let isUpdate := t.carried.isNone && s.isUpdate t.key senderKey now
    if (s.tokens[t.id]?).any fun other => !isUpdate || other.key ≠ t.key then abandon before (.rejected .duplicateCti)
    else
      let replaced ← replace isUpdate t.key
      let previous := (← known).keys[t.key]?
      change (·.learnKey t)
      change (·.insertToken t.id t.record)
      commit before
      return { id := t.id, key := t.key, isUpdate, displaced := some { tokens := replaced, key := previous } }

/-- Takes an added token back. -/
def withdraw (added : AddedToken) : InPlace Unit :=
  match added.displaced with
  | none => return ()
  | some displaced => do
    requireOpen
    let before ← known
    if before.tokens.contains added.id then
      change fun s => { s with tokens := s.tokens.erase added.id }
      change fun s => { s with byKey := s.byKey.modify added.key (·.erase added.id) }
    displaced.tokens.forM fun (id, record) => change (·.insertToken id record)
    match displaced.key with
    | some key => change fun s => { s with keys := s.keys.insert added.key key }
    | none => pure ()
    change (·.dropIfOrphaned added.key)
    commit before

/-- Removes a token, and tells whether it was there. -/
def removeToken (id : TokenId) : InPlace Bool := do
  requireOpen
  let before ← known
  change (·.removeToken id)
  if before.tokens.contains id then
    commit before
    return true
  else return false

/-- Removes the tokens whose validity has ended. -/
def purge (now : UInt64) : InPlace (List TokenId) := do
  requireOpen
  let before ← known
  let expired ← sweep now
  if !expired.isEmpty then commit before
  return expired

/-- Makes a key known. -/
def provisionKey (key : PopKey) : InPlace KeyName := do
  let name ← ofExcept (key.name.mapError .rejected)
  requireOpen
  let before ← known
  change fun s => { s with keys := s.keys.insert name ⟨key, true⟩ }
  commit before
  return name

/-- Records the key of a sender. -/
def bindSender (sender : String) (key : KeyName) : InPlace Unit := do
  requireOpen
  let before ← known
  change fun s => { s with senders := s.senders.insert sender key }
  commit before

/-- Forgets about a sender. -/
def unbindSender (sender : String) : InPlace Unit := do
  requireOpen
  let before ← known
  change fun s => { s with senders := s.senders.erase sender }
  if before.senders.contains sender then commit before

/-- Records a challenge. -/
def setChallenge (key : KeyName) (given : Bytes) : InPlace Unit := do
  requireOpen
  let before ← known
  change fun s => { s with challenges := s.challenges.insert key given }
  commit before

/-- Saves what is known, and gives the store file free. -/
def close : InPlace Unit := do
  requireOpen
  persist
  modify fun (r, host) => ({ r with isOpen := false }, host.release r.store)

/-! ## What steps leave behind -/

@[simp] theorem effect_pure (value : α) : (pure value : InPlace α).effect r host = ⟨.ok value, r, host⟩ := rfl

@[simp] theorem effect_throw (e : RepositoryError) : (throw e : InPlace α).effect r host = ⟨.error e, r, host⟩ := rfl

/-- Steps go on where the steps before them ended, unless these failed. -/
@[simp] theorem effect_bind (steps : InPlace α) (next : α → InPlace β) : (steps >>= next).effect r host =
    match steps.effect r host with
    | ⟨.ok value, r, host⟩ => (next value).effect r host
    | ⟨.error e, r, host⟩ => ⟨.error e, r, host⟩ := by
  simp only [effect, Bind.bind, ExceptT.bind, ExceptT.mk, StateT.bind]
  rcases steps (r, host) with ⟨_ | value, r, host⟩ <;> rfl

@[simp] theorem effect_known : known.effect r host = ⟨.ok r.state, r, host⟩ := rfl

@[simp] theorem effect_clock : clock.effect r host = ⟨.ok host.clock, r, host⟩ := rfl

/-- A change succeeds, and changes the state only. -/
@[simp] theorem effect_change (f : RepositoryState → RepositoryState) :
    (change f).effect r host = ⟨.ok (), { r with state := f r.state }, host⟩ := rfl

@[simp] theorem effect_ofExcept (x : Except RepositoryError α) : (ofExcept x : InPlace α).effect r host = ⟨x, r, host⟩ := by
  cases x <;> rfl

/-- Looking whether the repository is open changes nothing. -/
@[simp] theorem effect_requireOpen : requireOpen.effect r host = ⟨if r.isOpen then .ok () else .error .closed, r, host⟩ := by
  obtain ⟨validator, store, isOpen, state⟩ := r
  cases isOpen <;> rfl

/-- Saving changes nothing but the host. -/
@[simp] theorem effect_persist : persist.effect r host = ⟨(r.save r.state host).1, r, (r.save r.state host).2⟩ := by
  change (ofExcept (r.save r.state host).1 : InPlace Unit).effect r (r.save r.state host).2 = _
  rw [effect_ofExcept]

/-- What could not be saved is put back. -/
@[simp] theorem effect_commit (before : RepositoryState) : (commit before).effect r host =
    match r.save r.state host with
    | (.ok (), host) => ⟨.ok (), r, host⟩
    | (.error e, host) => ⟨.error e, { r with state := before }, host⟩ := by
  have caught : (commit before).effect r host =
      match persist.effect r host with
      | ⟨.ok (), r, host⟩ => ⟨.ok (), r, host⟩
      | ⟨.error e, r, host⟩ => ⟨.error e, { r with state := before }, host⟩ := by
    simp only [effect, commit, tryCatch, tryCatchThe, MonadExceptOf.tryCatch, ExceptT.tryCatch, ExceptT.mk, Bind.bind, StateT.bind]
    rcases persist (r, host) with ⟨_ | _, r, host⟩ <;> rfl
  rw [caught, effect_persist]
  rcases r.save r.state host with ⟨_ | _, host⟩ <;> rfl

/-- What was known before is there again, whatever the steps before have changed. -/
@[simp] theorem effect_abandon (before : RepositoryState) (e : RepositoryError) :
    (abandon before e : InPlace α).effect r host = ⟨.error e, { r with state := before }, host⟩ := rfl

/-- Changes one after the other are one change. -/
theorem effect_forM_change {γ : Type} (f : γ → RepositoryState → RepositoryState) (cs : List γ) :
    (cs.forM fun c => change (f c)).effect r host =
      ⟨.ok (), { r with state := cs.foldl (fun s c => f c s) r.state }, host⟩ := by
  induction cs generalizing r with
  | nil => rfl
  | cons c cs ih =>
    rw [List.forM_eq_forM, List.forM_cons, effect_bind, effect_change]
    exact ih

/-- Taking out ended tokens one after the other is the sweep. -/
@[simp] theorem effect_sweep (now : UInt64) :
    (sweep now).effect r host = ⟨.ok (r.state.expired now), { r with state := r.state.sweep now }, host⟩ := by
  rw [sweep, effect_bind, effect_known]
  simp only [effect_bind, effect_forM_change, effect_pure]
  rfl

/-- Tokens that are taken out one after the other are those that were there, and they are gone. -/
theorem effect_takeOut {ids : List TokenId} (distinct : ids.Nodup) : (takeOut ids).effect r host =
    ⟨.ok (ids.filterMap fun id => (r.state.tokens[id]?).map (id, ·)),
      { r with state := { r.state with tokens := r.state.tokens.eraseMany ids } }, host⟩ := by
  induction ids generalizing r with
  | nil => simp [takeOut, eraseMany_eq_foldl]
  | cons id ids ih =>
    obtain ⟨fresh, distinct⟩ := List.nodup_cons.mp distinct
    -- The rest is looked up after the first token is gone, which makes no difference to other identifiers.
    have others : ∀ other ∈ ids, (r.state.tokens.erase id)[other]? = r.state.tokens[other]? := by
      intro other among
      have apart : id ≠ other := fun same => fresh (same ▸ among)
      simp [Std.ExtTreeMap.getElem?_erase, apart]
    have records := List.filterMap_congr fun other among => congrArg (Option.map (other, ·)) (others other among)
    simp only [takeOut, effect_bind, effect_known, effect_change, ih distinct, effect_pure, records, eraseMany_eq_foldl,
      List.foldl_cons]
    rw [List.filterMap_cons]
    cases r.state.tokens[id]? <;> rfl

/-- If the tokens of a key are to be replaced, they are taken out and given back; otherwise nothing happens. -/
@[simp] theorem effect_replace (isUpdate : Bool) (key : KeyName) : (replace isUpdate key).effect r host =
    ⟨.ok (if isUpdate then r.state.tokensOf key else []),
      { r with state := if isUpdate then r.state.clearTokens key else r.state }, host⟩ := by
  cases isUpdate with
  | false => rfl
  | true =>
    have distinct : (r.state.idsOf key).toList.Nodup := by
      refine Std.ExtTreeSet.distinct_toList.imp fun apart same => apart ?_
      rw [same]
      exact Std.ReflCmp.compare_self
    simp only [replace, if_true, effect_bind, effect_known, effect_change, effect_takeOut distinct]
    rfl

/-! ## What operations leave behind -/

/-- On a closed repository no further steps are taken. -/
theorem effect_requireOpen_bind (steps : InPlace α) : (do requireOpen; steps).effect r host =
    if r.isOpen then steps.effect r host else ⟨.error .closed, r, host⟩ := by
  rw [effect_bind, effect_requireOpen]
  cases r.isOpen <;> rfl

/-- What is saved or else put back at the end is a change that counts once it is saved. -/
theorem effect_commit_changed (next : RepositoryState) :
    (commit r.state).effect { r with state := next } host = r.commit host (.changed () next) := by
  have saves : ({ r with state := next } : Repository).save next host = r.save next host := rfl
  rcases saved : r.save next host with ⟨_ | _, host'⟩ <;>
    simp only [effect_commit, Repository.commit, Outcome.changed, saves, saved]

/-- The same with a value to answer. -/
theorem effect_commit_return (next : RepositoryState) (value : α) :
    (do
      commit r.state
      return value : InPlace α).effect { r with state := next } host = r.commit host (.changed value next) := by
  rw [effect_bind, effect_commit_changed, Repository.commit, Repository.commit]
  simp only [Outcome.changed]
  rcases r.save next host with ⟨_ | _, host⟩ <;> rfl

/-- Each of the four ways out of an addition puts back what has been changed so far, unless it was saved. -/
theorem effect_addToken (claims : Claims) (shared : SharedKey) (senderKey : Option KeyName) (origin : TokenOrigin) :
    (addToken claims shared senderKey origin).effect r host = r.addToken host claims shared senderKey origin := by
  rw [addToken, effect_bind, effect_ofExcept, Repository.addToken]
  cases Submission.ofClaims claims shared origin with
  | error e => rfl
  | ok t =>
    simp only
    rw [effect_bind, effect_clock]
    simp only
    rw [effect_requireOpen_bind, Repository.perform]
    congr 1
    simp only [effect_bind, effect_known, effect_sweep, RepositoryState.add]
    -- The sweep has been carried out by now, so whoever leaves early has to put back what it took out.
    split
    · rfl
    split
    · rfl
    split
    · rfl
    simp only [effect_bind, effect_replace, effect_known, effect_change, apply_ite RepositoryState.keys]
    rw [clearTokens, ite_self]
    exact (effect_bind _ _).symm.trans (effect_commit_return _ _)

/-- A withdrawal puts its own changes back if they could not be saved. -/
theorem effect_withdraw (added : AddedToken) : (withdraw added).effect r host = r.withdraw host added := by
  rw [withdraw, Repository.withdraw]
  cases displaced : added.displaced with
  | none => rfl
  | some d =>
    simp only [Option.isNone_some, Bool.false_eq_true, if_false]
    rw [effect_requireOpen_bind, Repository.perform]
    congr 1
    obtain ⟨tokens, key⟩ := d
    simp only [effect_bind, effect_known, RepositoryState.withdraw, displaced]
    split <;> cases key <;> simp only [effect_bind, effect_change, effect_forM_change] <;> exact effect_commit_changed _

/-- Without the token there is nothing to be saved, or to be put back. -/
theorem effect_removeToken (id : TokenId) : (removeToken id).effect r host = r.removeToken host id := by
  rw [removeToken, effect_requireOpen_bind, Repository.removeToken, Repository.perform]
  congr 1
  have there : r.state.tokens.contains id = (r.state.removeToken? id).isSome := by
    rw [removeToken?, Option.isSome_map, Std.ExtTreeMap.isSome_getElem?_eq_contains]
  simp only [effect_bind, effect_known, effect_change, there, RepositoryState.removeToken]
  cases r.state.removeToken? id with
  | none => rfl
  | some next => exact effect_commit_return next true

/-- Without ended tokens there is nothing to be saved, or to be put back. -/
theorem effect_purge (now : UInt64) : (purge now).effect r host = r.purge host now := by
  rw [purge, effect_requireOpen_bind, Repository.purge, Repository.perform]
  congr 1
  simp only [effect_bind, effect_known, effect_sweep]
  cases expired : r.state.expired now with
  | nil =>
    rw [RepositoryState.sweep, expired]
    rfl
  | cons id ids => exact effect_commit_return _ (id :: ids)

theorem effect_provisionKey (key : PopKey) : (provisionKey key).effect r host = r.provisionKey host key := by
  rw [provisionKey, effect_bind, effect_ofExcept, Repository.provisionKey]
  cases key.name with
  | error rejection => rfl
  | ok name =>
    simp only [Except.mapError]
    rw [effect_requireOpen_bind, Repository.perform]
    congr 1
    exact effect_commit_return _ name

theorem effect_bindSender (sender : String) (key : KeyName) :
    (bindSender sender key).effect r host = r.bindSender host sender key := by
  rw [bindSender, effect_requireOpen_bind, Repository.bindSender, Repository.perform]
  congr 1
  exact effect_commit_changed _

/-- Forgetting a sender that is not there changes nothing, so that nothing is to be saved. -/
theorem effect_unbindSender (sender : String) : (unbindSender sender).effect r host = r.unbindSender host sender := by
  rw [unbindSender, effect_requireOpen_bind, Repository.unbindSender, Repository.perform]
  congr 1
  simp only [effect_bind, effect_known, effect_change]
  split
  · exact effect_commit_changed _
  · rename_i absent
    rw [effect_pure, erase_of_contains_eq_false ((Bool.not_eq_true _).mp absent)]
    rfl

theorem effect_setChallenge (key : KeyName) (given : Bytes) :
    (setChallenge key given).effect r host = r.setChallenge host key given := by
  rw [setChallenge, effect_requireOpen_bind, Repository.setChallenge, Repository.perform]
  congr 1
  exact effect_commit_changed _

/-- A repository that could not be saved stays open. -/
theorem effect_close : close.effect r host = r.close host := by
  rw [close, effect_requireOpen_bind, Repository.close]
  congr 1
  rw [effect_bind, effect_persist]
  rcases r.save r.state host with ⟨_ | _, host⟩ <;> rfl

end InPlace

end TokenGate
