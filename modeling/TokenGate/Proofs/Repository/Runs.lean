import TokenGate.Proofs.Repository.Withdrawal
import TokenGate.Repository.Basic

/-!
# Runs of a repository

The operations on a repository, one after the other, whatever their arguments and on whatever host: a write may fail at any time,
and then the repository is as it was. `Orderly` are the runs from an empty repository in which a token is only withdrawn right
after it was added. The repository is sound after each of them.
-/

namespace TokenGate

namespace Repository

/-! ## Operations that are saved before they count -/

/-- A change that is not saved leaves the repository as it was. -/
theorem commit_error {α : Type} {r : Repository} {host : Host} {outcome : Outcome α} {e : RepositoryError}
    (h : (r.commit host outcome).result = .error e) : (r.commit host outcome).repository = r := by
  unfold commit at h ⊢
  cases changed : outcome.next with
  | none => rfl
  | some next =>
    simp only [changed] at h ⊢
    cases saved : r.save next host with
    | mk result host' =>
      rw [saved] at h
      cases result with
      | ok _ => nomatch h
      | error _ => rfl

/-- A change that is saved counts. -/
theorem commit_ok {α : Type} {r : Repository} {host : Host} {outcome : Outcome α} {value : α}
    (h : (r.commit host outcome).result = .ok value) :
    outcome.value = value ∧ (r.commit host outcome).repository = { r with state := outcome.next.getD r.state } := by
  unfold commit at h ⊢
  cases changed : outcome.next with
  | none =>
    simp only [changed, Except.ok.injEq] at h
    exact ⟨h, rfl⟩
  | some next =>
    simp only [changed] at h ⊢
    cases saved : r.save next host with
    | mk result host' =>
      rw [saved] at h
      cases result with
      | ok _ => exact ⟨Except.ok.inj h, rfl⟩
      | error _ => nomatch h

/-- An operation that fails leaves the repository as it was. -/
theorem perform_error {α : Type} {r : Repository} {host : Host}
    {change : RepositoryState → Except Rejection (Outcome α)} {e : RepositoryError}
    (h : (r.perform host change).result = .error e) : (r.perform host change).repository = r := by
  unfold perform at h ⊢
  split
  · rename_i isOpen
    rw [if_pos isOpen] at h
    cases changed : change r.state with
    | error _ => rfl
    | ok outcome =>
      rw [changed] at h
      exact commit_error h
  · rfl

/-- An operation that succeeds is a change of the state of an open repository. -/
theorem perform_ok {α : Type} {r : Repository} {host : Host}
    {change : RepositoryState → Except Rejection (Outcome α)} {value : α}
    (h : (r.perform host change).result = .ok value) :
    r.isOpen = true ∧ ∃ outcome, change r.state = .ok outcome ∧ outcome.value = value ∧
      (r.perform host change).repository = { r with state := outcome.next.getD r.state } := by
  unfold perform at h ⊢
  split at h
  · rename_i isOpen
    rw [if_pos isOpen]
    cases changed : change r.state with
    | error _ =>
      rw [changed] at h
      nomatch h
    | ok outcome =>
      rw [changed] at h
      obtain ⟨valued, counted⟩ := commit_ok h
      exact ⟨isOpen, outcome, rfl, valued, counted⟩
  · nomatch h

/-- Whatever every change keeps, the operation keeps. -/
theorem perform_keeps {α : Type} {r : Repository} {host : Host}
    {change : RepositoryState → Except Rejection (Outcome α)} {P : RepositoryState → Prop} (before : P r.state)
    (keeps : ∀ outcome next, change r.state = .ok outcome → outcome.next = some next → P next) :
    P (r.perform host change).repository.state := by
  cases result : (r.perform host change).result with
  | error e =>
    rw [perform_error result]
    exact before
  | ok value =>
    obtain ⟨_, outcome, changed, _, counted⟩ := perform_ok result
    rw [counted]
    cases next : outcome.next with
    | none => exact before
    | some next' => exact keeps outcome next' changed next

/-! ## Additions and withdrawals -/

/-- An addition that fails leaves the repository as it was. -/
theorem addToken_error {r : Repository} {host : Host} {claims : Claims} {shared : SharedKey} {senderKey : Option KeyName}
    {origin : TokenOrigin} {e : RepositoryError}
    (h : (r.addToken host claims shared senderKey origin).result = .error e) :
    (r.addToken host claims shared senderKey origin).repository = r := by
  unfold addToken at h ⊢
  cases resolved : Submission.ofClaims claims shared origin with
  | error _ => rfl
  | ok t =>
    rw [resolved] at h
    exact perform_error h

/-- An addition that succeeds adds a submission made of the claims. -/
theorem addToken_ok {r : Repository} {host : Host} {claims : Claims} {shared : SharedKey} {senderKey : Option KeyName}
    {origin : TokenOrigin} {added : AddedToken}
    (h : (r.addToken host claims shared senderKey origin).result = .ok added) :
    r.isOpen = true ∧ ∃ t outcome, Submission.ofClaims claims shared origin = .ok t ∧
      (r.state.sweep host.clock).Adds t senderKey host.clock outcome ∧ outcome.value = added ∧
      (r.addToken host claims shared senderKey origin).repository =
        { r with state := outcome.next.getD r.state } := by
  unfold addToken at h ⊢
  cases resolved : Submission.ofClaims claims shared origin with
  | error _ =>
    rw [resolved] at h
    nomatch h
  | ok t =>
    rw [resolved] at h
    obtain ⟨isOpen, outcome, changed, valued, counted⟩ := perform_ok h
    have own := (Submission.isFrom_of_ofClaims resolved).isOf
    exact ⟨isOpen, t, outcome, rfl, RepositoryState.adds_of_add own changed, valued, counted⟩

/-- A token that was there before is not withdrawn. -/
theorem withdraw_of_again {r : Repository} {host : Host} {added : AddedToken} (h : added.displaced = none) :
    (r.withdraw host added).repository = r := by
  rw [withdraw, h]
  rfl

/-- A withdrawal that succeeds undoes the addition. -/
theorem withdraw_ok {r : Repository} {host : Host} {added : AddedToken} {displaced : Displaced}
    (h : added.displaced = some displaced) (ok : (r.withdraw host added).result = .ok ()) :
    (r.withdraw host added).repository =
      { r with state := (r.state.undo added.id added.key displaced).dropIfOrphaned added.key } := by
  have performed : r.withdraw host added = r.perform host fun s => .ok (s.withdraw added) := by
    rw [withdraw, h]
    rfl
  rw [performed] at ok ⊢
  obtain ⟨_, outcome, changed, _, counted⟩ := perform_ok ok
  rw [counted, ← Except.ok.inj changed, RepositoryState.withdraw_of_displaced h]
  rfl

/-- A withdrawal that fails leaves the repository as it was. -/
theorem withdraw_error {r : Repository} {host : Host} {added : AddedToken} {e : RepositoryError}
    (h : (r.withdraw host added).result = .error e) : (r.withdraw host added).repository = r := by
  unfold withdraw at h ⊢
  split
  · rfl
  · rename_i displaced
    rw [if_neg displaced] at h
    exact perform_error h

/-- Whatever an addition to the swept state keeps, adding a token keeps, whether it succeeds or not. -/
theorem addToken_keeps {r : Repository} {host : Host} {claims : Claims} {shared : SharedKey} {senderKey : Option KeyName}
    {origin : TokenOrigin} {P : RepositoryState → Prop} (before : P r.state)
    (keeps : ∀ t isUpdate, (r.state.sweep host.clock).Admits t isUpdate → P ((r.state.sweep host.clock).withToken t isUpdate)) :
    P (r.addToken host claims shared senderKey origin).repository.state := by
  cases result : (r.addToken host claims shared senderKey origin).result with
  | error e =>
    rw [addToken_error result]
    exact before
  | ok added =>
    obtain ⟨_, t, outcome, _, adds, _, counted⟩ := addToken_ok result
    rw [counted]
    cases adds with
    | again known there => exact before
    | anew isUpdate decided admits => exact keeps t isUpdate admits

/-- Whatever undoing an addition keeps, withdrawing a token keeps, whether it succeeds or not. -/
theorem withdraw_keeps {r : Repository} {host : Host} {added : AddedToken} {P : RepositoryState → Prop} (before : P r.state)
    (keeps : ∀ displaced, added.displaced = some displaced →
      P ((r.state.undo added.id added.key displaced).dropIfOrphaned added.key)) :
    P (r.withdraw host added).repository.state := by
  cases displaced : added.displaced with
  | none =>
    rw [withdraw_of_again displaced]
    exact before
  | some d =>
    cases result : (r.withdraw host added).result with
    | error e =>
      rw [withdraw_error result]
      exact before
    | ok _ =>
      rw [withdraw_ok displaced result]
      exact keeps d displaced

/-- A key that was made known is there. -/
theorem provisionKey_ok {r : Repository} {host : Host} {key : PopKey} {name : KeyName}
    (h : (r.provisionKey host key).result = .ok name) :
    (r.provisionKey host key).repository.state = { r.state with keys := r.state.keys.insert name ⟨key, true⟩ } := by
  unfold provisionKey at h ⊢
  cases named : key.name with
  | error _ =>
    rw [named] at h
    nomatch h
  | ok other =>
    rw [named] at h
    obtain ⟨_, outcome, changed, rfl, counted⟩ := perform_ok h
    cases changed
    rw [counted]
    rfl

/-- A key that was not made known leaves the repository as it was. -/
theorem provisionKey_error {r : Repository} {host : Host} {key : PopKey} {e : RepositoryError}
    (h : (r.provisionKey host key).result = .error e) : (r.provisionKey host key).repository = r := by
  unfold provisionKey at h ⊢
  cases named : key.name with
  | error _ => rfl
  | ok other =>
    rw [named] at h
    exact perform_error h

/-- A removal that succeeds leaves everything but the token, whether it was there or not. -/
theorem removeToken_ok {r : Repository} {host : Host} {id : TokenId} {there : Bool}
    (h : (r.removeToken host id).result = .ok there) :
    (r.removeToken host id).repository = { r with state := r.state.removeToken id } := by
  unfold removeToken at h ⊢
  obtain ⟨_, outcome, changed, _, counted⟩ := perform_ok h
  rw [counted, RepositoryState.removeToken]
  cases removed : r.state.removeToken? id with
  | none =>
    rw [removed] at changed
    cases changed
    rfl
  | some next =>
    rw [removed] at changed
    cases changed
    rfl

/-- The tokens that were purged are those whose validity has ended, and they are no longer there. -/
theorem purge_ok {r : Repository} {host : Host} {now : UInt64} {ids : List TokenId}
    (h : (r.purge host now).result = .ok ids) :
    ids = r.state.expired now ∧ (r.purge host now).repository.state = r.state.sweep now := by
  unfold purge at h ⊢
  obtain ⟨_, outcome, changed, valued, counted⟩ := perform_ok h
  rw [counted, RepositoryState.sweep]
  cases ended : r.state.expired now with
  | nil =>
    rw [ended] at changed
    cases changed
    exact ⟨valued.symm, rfl⟩
  | cons id rest =>
    rw [ended] at changed
    cases changed
    refine ⟨valued.symm, ?_⟩
    rw [← ended]
    rfl

/-! ## Runs -/

/-- The operations on a repository other than adding and withdrawing tokens. -/
inductive Operation where
  | remove (id : TokenId)
  | purge (now : UInt64)
  | provision (key : PopKey)
  | bind (sender : String) (key : KeyName)
  | unbind (sender : String)
  | challenge (key : KeyName) (challenge : Bytes)
  | close

/-- The repository and the host that an operation leaves behind. -/
def Effect.after {α : Type} (effect : Effect α) : Repository × Host := (effect.repository, effect.host)

/-- The repository and the host after an operation, whether it succeeds or not. -/
def carryOut (r : Repository) (host : Host) : Operation → Repository × Host
  | .remove id => (r.removeToken host id).after
  | .purge now => (r.purge host now).after
  | .provision key => (r.provisionKey host key).after
  | .bind sender key => (r.bindSender host sender key).after
  | .unbind sender => (r.unbindSender host sender).after
  | .challenge key challenge => (r.setChallenge host key challenge).after
  | .close => (r.close host).after

/-- What an operation can do to the state of a repository. Any of them may come to nothing. -/
inductive Operation.Changes : Operation → RepositoryState → RepositoryState → Prop
  | nothing (op : Operation) (s : RepositoryState) : Changes op s s
  | remove (id : TokenId) (s : RepositoryState) : Changes (.remove id) s (s.removeToken id)
  | purge (now : UInt64) (s : RepositoryState) : Changes (.purge now) s (s.sweep now)
  | provision {key : PopKey} {name : KeyName} (named : key.name = .ok name) (s : RepositoryState) :
    Changes (.provision key) s { s with keys := s.keys.insert name ⟨key, true⟩ }
  | bind (sender : String) (key : KeyName) (s : RepositoryState) :
    Changes (.bind sender key) s { s with senders := s.senders.insert sender key }
  | unbind (sender : String) (s : RepositoryState) :
    Changes (.unbind sender) s { s with senders := s.senders.erase sender }
  | challenge (key : KeyName) (challenge : Bytes) (s : RepositoryState) :
    Changes (.challenge key challenge) s { s with challenges := s.challenges.insert key challenge }

/-- Closing a repository does not change its state. -/
theorem state_close (r : Repository) (host : Host) : (r.close host).repository.state = r.state := by
  unfold close
  split
  · cases r.save r.state host with
    | mk result host' => cases result <;> rfl
  · rfl

/-- An operation does what its change does, or nothing. -/
theorem changes_perform {α : Type} {op : Operation} {r : Repository} {host : Host}
    {change : RepositoryState → Except Rejection (Outcome α)}
    (changes : ∀ outcome next, change r.state = .ok outcome → outcome.next = some next → op.Changes r.state next) :
    op.Changes r.state (r.perform host change).repository.state :=
  perform_keeps (.nothing op r.state) changes

/-- An operation does what is said of it. -/
theorem changes_carryOut (r : Repository) (host : Host) (op : Operation) :
    op.Changes r.state (r.carryOut host op).1.state := by
  cases op with
  | remove id =>
    apply changes_perform
    intro outcome next changed counted
    cases removed : r.state.removeToken? id with
    | none =>
      rw [removed] at changed
      cases changed
      cases counted
    | some _ =>
      rw [removed] at changed
      cases changed
      cases counted
      have same : next = r.state.removeToken id := by rw [RepositoryState.removeToken, removed, Option.getD_some]
      rw [same]
      exact .remove id r.state
  | purge now =>
    apply changes_perform
    intro outcome next changed counted
    cases ended : r.state.expired now with
    | nil =>
      rw [ended] at changed
      cases changed
      cases counted
    | cons id ids =>
      rw [ended] at changed
      cases changed
      cases counted
      exact .purge now r.state
  | provision key =>
    change Operation.Changes _ _ (r.provisionKey host key).repository.state
    unfold provisionKey
    cases named : key.name with
    | error _ => exact .nothing _ _
    | ok name =>
      apply changes_perform
      intro outcome next changed counted
      cases changed
      cases counted
      exact .provision named r.state
  | bind sender key =>
    apply changes_perform
    intro outcome next changed counted
    cases changed
    cases counted
    exact .bind sender key r.state
  | unbind sender =>
    apply changes_perform
    intro outcome next changed counted
    split at changed
    · cases changed
      cases counted
      exact .unbind sender r.state
    · cases changed
      cases counted
  | challenge key challenge =>
    apply changes_perform
    intro outcome next changed counted
    cases changed
    cases counted
    exact .challenge key challenge r.state
  | close =>
    have same : (r.carryOut host .close).1.state = r.state := r.state_close host
    rw [same]
    exact .nothing _ _

/-- No operation spoils a sound state. -/
theorem Operation.Changes.isSound {op : Operation} {s s' : RepositoryState} (h : op.Changes s s') (sound : s.IsSound) :
    s'.IsSound := by
  cases h with
  | nothing => exact sound
  | remove id => exact sound.removeToken id
  | purge now => exact sound.sweep now
  | provision named =>
    refine sound.congr rfl rfl ?_
    intro key known
    exact Std.ExtTreeMap.mem_insert.mpr (Or.inr known)
  | bind sender key => exact sound.congr rfl rfl fun _ known => known
  | unbind sender => exact sound.congr rfl rfl fun _ known => known
  | challenge key challenge => exact sound.congr rfl rfl fun _ known => known

/-- No operation unsettles a state. -/
theorem Operation.Changes.isSettled {op : Operation} {s s' : RepositoryState} (h : op.Changes s s') (sound : s.IsSound)
    (settled : s.IsSettled) : s'.IsSettled := by
  cases h with
  | nothing => exact settled
  | remove id => exact settled.of_isWithout (sound.isWithout_removeToken id)
  | purge now => exact settled.of_isWithout (sound.isWithout_sweep now)
  | @provision key name named =>
    intro other bound found learned
    simp only [Std.ExtTreeMap.getElem?_insert] at found
    split at found
    · cases found
      nomatch learned
    · exact settled other bound found learned
  | bind sender key => exact settled
  | unbind sender => exact settled
  | challenge key challenge => exact settled

/-- Operations only take tokens away. -/
theorem Operation.Changes.tokens {op : Operation} {s s' : RepositoryState} (h : op.Changes s s') (sound : s.IsSound)
    (id : TokenId) (record : TokenRecord) (found : s'.tokens[id]? = some record) : s.tokens[id]? = some record := by
  cases h with
  | nothing => exact found
  | remove other => exact (((sound.isWithout_removeToken other).tokens id record).mp found).1
  | purge now => exact ((RepositoryState.tokens_sweep _ now id record).mp found).1
  | provision named => exact found
  | bind sender key => exact found
  | unbind sender => exact found
  | challenge key challenge => exact found

/-- Operations only take keys away, unless one is provisioned. -/
theorem Operation.Changes.keys {op : Operation} {s s' : RepositoryState} (h : op.Changes s s') (sound : s.IsSound)
    (name : KeyName) (bound : BoundKey) (found : s'.keys[name]? = some bound) :
    s.keys[name]? = some bound ∨ op = .provision bound.key := by
  cases h with
  | nothing => exact Or.inl found
  | remove id => exact Or.inl (((sound.isWithout_removeToken id).keys name bound).mp found).1
  | purge now => exact Or.inl (((sound.isWithout_sweep now).keys name bound).mp found).1
  | provision named =>
    rw [Std.ExtTreeMap.getElem?_insert] at found
    split at found
    · cases found
      exact Or.inr rfl
    · exact Or.inl found
  | bind sender key => exact Or.inl found
  | unbind sender => exact Or.inl found
  | challenge key challenge => exact Or.inl found

/-- The keys agreed on stay as they are, unless one is provisioned. -/
theorem Operation.Changes.agreedKey?_eq {op : Operation} {s s' : RepositoryState} (h : op.Changes s s') (sound : s.IsSound)
    (apart : ∀ key, op ≠ .provision key) (name : KeyName) : s'.agreedKey? name = s.agreedKey? name := by
  cases h with
  | nothing => rfl
  | remove id => exact (sound.isWithout_removeToken id).agreedKey?_eq name
  | purge now => exact (sound.isWithout_sweep now).agreedKey?_eq name
  | @provision key _ named => exact absurd rfl (apart key)
  | bind sender key => rfl
  | unbind sender => rfl
  | challenge key challenge => rfl

/-- A repository reached from an empty one by any operations on any hosts, where a token is only withdrawn right after it was
added; and the token that was just added, if the last operation added one. -/
inductive Orderly : Repository → Option AddedToken → Prop
  | start (validator : Validator) (store : Option DiskPath) : Orderly { validator, store } none
  | add {r : Repository} {last : Option AddedToken} (before : Orderly r last) (host : Host) (claims : Claims)
    (shared : SharedKey) (senderKey : Option KeyName) (origin : TokenOrigin) :
    Orderly (r.addToken host claims shared senderKey origin).repository
      (r.addToken host claims shared senderKey origin).result.toOption
  | withdraw {r : Repository} {added : AddedToken} (before : Orderly r (some added)) (host : Host) :
    Orderly (r.withdraw host added).repository none
  | other {r : Repository} {last : Option AddedToken} (before : Orderly r last) (host : Host) (op : Operation) :
    Orderly (r.carryOut host op).1 none

/-- A state as the addition of a token left it, unless the token was there before. -/
def IsJustAfter (s : RepositoryState) (added : AddedToken) : Prop :=
  ∀ displaced, added.displaced = some displaced → ∃ (swept : RepositoryState) (t : Submission),
    swept.IsSound ∧ swept.Admits t added.isUpdate ∧ added.id = t.id ∧ added.key = t.key ∧
      displaced = swept.displacedBy t added.isUpdate ∧ s = swept.withToken t added.isUpdate

/-- An addition that succeeds keeps the state sound and leaves it as said. -/
theorem addToken_isSound {r : Repository} (sound : r.state.IsSound) {host : Host} {claims : Claims} {shared : SharedKey}
    {senderKey : Option KeyName} {origin : TokenOrigin} {added : AddedToken}
    (h : (r.addToken host claims shared senderKey origin).result = .ok added) :
    (r.addToken host claims shared senderKey origin).repository.state.IsSound ∧
      IsJustAfter (r.addToken host claims shared senderKey origin).repository.state added := by
  obtain ⟨_, t, outcome, _, adds, rfl, counted⟩ := addToken_ok h
  rw [counted]
  cases adds with
  | again known there =>
    refine ⟨sound, ?_⟩
    intro displaced none
    nomatch none
  | anew isUpdate decided admits =>
    have swept := sound.sweep host.clock
    refine ⟨swept.withToken admits, ?_⟩
    intro displaced some
    cases some
    exact ⟨_, t, swept, admits, rfl, rfl, rfl, rfl⟩

/-- An addition, whether it succeeds or not, keeps a settled state settled. -/
theorem addToken_isSettled {r : Repository} (sound : r.state.IsSound) (settled : r.state.IsSettled) (host : Host)
    (claims : Claims) (shared : SharedKey) (senderKey : Option KeyName) (origin : TokenOrigin) :
    (r.addToken host claims shared senderKey origin).repository.state.IsSettled := by
  apply addToken_keeps settled
  intro t isUpdate admits
  exact (settled.of_isWithout (sound.isWithout_sweep host.clock)).withToken (sound.sweep host.clock) admits

/-- A withdrawal right after the addition keeps the state sound. -/
theorem withdraw_isSound {r : Repository} (sound : r.state.IsSound) {added : AddedToken} (after : IsJustAfter r.state added)
    (host : Host) : (r.withdraw host added).repository.state.IsSound := by
  apply withdraw_keeps sound
  intro d displaced
  obtain ⟨swept, t, before, admits, id, key, rfl, state⟩ := after d displaced
  rw [state, id, key]
  exact before.isSound_undo_withToken admits

/-- The repository is sound after every orderly run, and right after an addition as the addition left it. -/
theorem Orderly.isSound_and_isJustAfter {r : Repository} {last : Option AddedToken} (h : Orderly r last) :
    r.state.IsSound ∧ ∀ added, last = some added → IsJustAfter r.state added := by
  induction h with
  | start validator store =>
    refine ⟨RepositoryState.IsSound.empty, ?_⟩
    intro added none
    nomatch none
  | @add r last before host claims shared senderKey origin ih =>
    cases result : (r.addToken host claims shared senderKey origin).result with
    | error e =>
      rw [addToken_error result]
      refine ⟨ih.1, ?_⟩
      intro added none
      nomatch none
    | ok added =>
      obtain ⟨sound, after⟩ := addToken_isSound ih.1 result
      refine ⟨sound, ?_⟩
      rintro other ⟨⟩
      exact after
  | withdraw before host ih =>
    refine ⟨withdraw_isSound ih.1 (ih.2 _ rfl) host, ?_⟩
    intro added none
    nomatch none
  | @other r last before host op ih =>
    refine ⟨(r.changes_carryOut host op).isSound ih.1, ?_⟩
    intro added none
    nomatch none

/-- The tokens, their files and the keys are in step after every orderly run. -/
theorem orderly_isSound {r : Repository} {last : Option AddedToken} (h : Orderly r last) : r.state.IsSound :=
  h.isSound_and_isJustAfter.1

/-- What can be seen of a sound repository is sound, and is there. -/
theorem isSound_visible {r : Repository} (sound : r.state.IsSound) :
    r.visible.IsSound ∧ ∀ (id : TokenId) (record : TokenRecord),
      r.visible.tokens[id]? = some record → r.state.tokens[id]? = some record := by
  unfold visible
  split
  · exact ⟨sound, fun _ _ found => found⟩
  · exact ⟨.empty, by simp⟩

/-- A result that is there as an option is there. -/
theorem eq_ok_of_toOption {ε α : Type} {result : Except ε α} {value : α} (h : result.toOption = some value) :
    result = .ok value := by
  cases result with
  | ok _ => exact congrArg Except.ok (Option.some.inj h)
  | error _ => nomatch h

/-- A result that is there as an option is no error. -/
theorem ne_error_of_toOption {ε α : Type} {result : Except ε α} {e : ε} (h : result.toOption.isSome = true) :
    result ≠ .error e := by
  rintro rfl
  nomatch h

namespace Sample

/-- A key shared with the issuer. -/
def shared : SharedKey := ⟨.ccm16Tag64Key128, List.replicate 16 0, by decide⟩

/-- A key agreed on out of band. -/
def popKey (kid : UInt8) : PopKey := .symmetric [kid] (List.replicate 16 kid)

/-- The claims of a token for the key with an identifier. -/
def claims (cti kid : UInt8) : Claims :=
  ((Claims.empty.set .cti [cti]).set .cnf (.kid [kid])).set .scope (.text "r_temp")

/-- A repository that knows the keys `a` and `b`. -/
def repository : Repository :=
  let r : Repository := { validator := ScopePolicy.validator {} }
  ((r.carryOut {} (.provision (popKey 0x61))).1.carryOut {} (.provision (popKey 0x62))).1

theorem orderly_repository : Orderly repository none :=
  .other (.other (.start _ none) _ _) _ _

/-- The addition of a token, from a sender that is authenticated with its key or from an unknown one. -/
def add (r : Repository) (cti kid : UInt8) (senderKey : Option KeyName) : Effect AddedToken :=
  r.addToken {} (claims cti kid) shared senderKey .selfContained

/-- A token of `a`, and the update that replaces it. -/
def first : Effect AddedToken := add repository 1 0x61 none

def update : Effect AddedToken := add first.repository 2 0x61 (some ⟨"a"⟩)

def updated : AddedToken := update.result.toOption.get (by decide +kernel)

theorem orderly_update : Orderly update.repository (some updated) := by
  rw [updated, Option.some_get]
  exact .add (.add orderly_repository _ _ _ _ _) _ _ _ _ _

end Sample

/-- The update is taken back, and the token it replaced is there again. -/
theorem orderly_isSound_of_withdrawn_update :
    ∃ r, Orderly r none ∧ r.tokensOfKey ⟨"a"⟩ = [⟨[1]⟩] ∧ r.state.IsSound :=
  have run : Orderly (Sample.update.repository.withdraw {} Sample.updated).repository none :=
    .withdraw Sample.orderly_update _
  ⟨_, run, by decide +kernel, orderly_isSound run⟩

end Repository

end TokenGate
